import Stackscript.Machine.Core
import Stackscript.Proofs.Renaming

/-!
# Instructions on renamed operands

The instructions that work on the operand stack and the world of a run do the same to operands that
are the same up to a renaming of arrays. New arrays extend the renaming.

* `World.Renamed`, `Core.Renamed`, `Fault.Renamed`, `Effect.Renamed`;
* `Native.onArray_renamed` and others for each native, **`Native.call_renamed`**;
* `Core.Renamed.pop`, `binary`, `unary`, `makeArray`, `getIndex`, `setIndex`, `callNative`,
  `makeFunction`.
-/

namespace Stackscript

/-- Two worlds are the same up to a renaming of arrays. -/
structure World.Renamed (R : Renaming) (w w' : World) : Prop where
  heap : w.heap.Renamed R w'.heap
  output : w.output = w'.output
  readings : w.readings = w'.readings

/-- Two operand stacks and their worlds are the same up to a renaming of arrays. -/
structure Core.Renamed (R : Renaming) (c c' : Core) : Prop where
  stack : List.Forall₂ (Value.Renamed R) c.stack c'.stack
  world : c.world.Renamed R c'.world

/-- Two faults are the same up to a renaming of arrays. -/
inductive Fault.Renamed (R : Renaming) : Fault → Fault → Prop where
  | same {f : Fault} : (∀ v, f ≠ .notFunction (some v)) → Renamed R f f
  | notFunction {v v' : Value} : v.Renamed R v' →
      Renamed R (.notFunction (some v)) (.notFunction (some v'))

theorem Fault.Renamed.message?_eq {R : Renaming} {h h' : Heap} (hh : h.Renamed R h') {f f' : Fault}
    (hf : f.Renamed R f') : f.message? h = f'.message? h' := by
  cases hf with
  | same hf =>
    cases f with
    | notFunction top =>
      cases top with
      | none => rfl
      | some v => exact absurd rfl (hf v)
    | _ => rfl
  | notFunction hv =>
    exact congrArg (fun text => some ("internal error: MakeFunction on Some(" ++ text ++ ")"))
      (hh.inspect_eq hv)

/-- Two effects are the same up to a renaming of arrays, which may have to be extended. -/
inductive Effect.Renamed (R : Renaming) : Effect → Effect → Prop where
  | done {R' : Renaming} {c c' : Core} : R'.Extends R → c.Renamed R' c' →
      Renamed R (.done c) (.done c')
  | failed {e e' : Failure} {c c' : Core} : c.Renamed R c' →
      e.message c.world.heap = e'.message c'.world.heap → Renamed R (.failed e c) (.failed e' c')
  | fault {f f' : Fault} {c c' : Core} : c.Renamed R c' → f.Renamed R f' →
      Renamed R (.fault f c) (.fault f' c')

theorem Renaming.extends_refl (R : Renaming) : R.Extends R := fun _ _ h => h

theorem splitTop_renamed {R : Renaming} (n : Nat) {stack stack' above above' : List Value}
    (hs : List.Forall₂ (Value.Renamed R) stack stack')
    (ha : List.Forall₂ (Value.Renamed R) above above') :
    (splitTop n stack above = none ∧ splitTop n stack' above' = none) ∨
      ∃ args rest args' rest', splitTop n stack above = some (args, rest) ∧
        splitTop n stack' above' = some (args', rest') ∧ List.Forall₂ (Value.Renamed R) args args' ∧
        List.Forall₂ (Value.Renamed R) rest rest' := by
  induction n generalizing stack stack' above above' with
  | zero => exact .inr ⟨_, _, _, _, rfl, rfl, ha, hs⟩
  | succ n ih =>
    cases hs with
    | nil => exact .inl ⟨rfl, rfl⟩
    | cons hv hs => exact ih hs (.cons hv ha)

/-! ## Natives -/

namespace Native

/-- Two calls of a native come to the same. -/
def CallsAlike (R : Renaming) (r r' : Except NativeError Value × World) : Prop :=
  r.2.Renamed R r'.2 ∧
    ResultsAlike R (NativeError.message r.2.heap) (NativeError.message r'.2.heap) r.1 r'.1

variable {R : Renaming} {w w' : World}

theorem emit_renamed (hw : w.Renamed R w') (sink : Sink) (text : String) :
    (∃ v v', w.emit sink text = .ok v ∧ w'.emit sink text = .ok v' ∧ v.Renamed R v') ∨
      ∃ reason, w.emit sink text = .error reason ∧ w'.emit sink text = .error reason := by
  unfold World.emit
  by_cases ht : text.isEmpty = true
  · rw [if_pos ht, if_pos ht]
    exact .inl ⟨w, w', rfl, rfl, hw⟩
  · rw [if_neg ht, if_neg ht, hw.output]
    cases sink.refuseWrite w'.output text with
    | some reason => exact .inr ⟨reason, rfl, rfl⟩
    | none => exact .inl ⟨_, _, rfl, rfl, hw.heap, rfl, hw.readings⟩

theorem writeAll_renamed (hw : w.Renamed R w') (sink : Sink) {args args' : List Value}
    (ha : List.Forall₂ (Value.Renamed R) args args') :
    ∃ v v' r, writeAll sink args w = (r, v) ∧ writeAll sink args' w' = (r, v') ∧ v.Renamed R v' ∧
      (r = .ok () ∨ ∃ reason, r = .error (.refused reason)) := by
  induction ha generalizing w w' with
  | nil => exact ⟨w, w', .ok (), rfl, rfl, hw, .inl rfl⟩
  | @cons x x' args args' hx _ ih =>
    have htext : w.heap.display x = w'.heap.display x' :=
      hw.heap.write_eq (Heap.Renamed.sameOpened_nil R) hx
    obtain ⟨v, v', hv, hv', hvv⟩ | ⟨reason, he, he'⟩ := emit_renamed hw sink (w'.heap.display x')
    · obtain ⟨u, u', r, hu, hu', huu, hr⟩ := ih hvv
      refine ⟨u, u', r, ?_, ?_, huu, hr⟩
      · simp only [writeAll, htext, hv, hu]
      · simp only [writeAll, hv', hu']
    · refine ⟨w, w', .error (.refused reason), ?_, ?_, hw, .inr ⟨reason, rfl⟩⟩
      · simp only [writeAll, htext, he]
      · simp only [writeAll, he']

theorem numberArgument_renamed (hh : w.heap.Renamed R w'.heap) (f : Native)
    {args args' : List Value} (ha : List.Forall₂ (Value.Renamed R) args args') (i : Nat) :
    (∃ n, f.numberArgument args i = .ok n ∧ f.numberArgument args' i = .ok n) ∨
      ∃ e e', f.numberArgument args i = .error e ∧ f.numberArgument args' i = .error e' ∧
        e.message w.heap = e'.message w'.heap := by
  unfold numberArgument
  obtain ⟨h, h'⟩ | ⟨x, x', h, h', hx⟩ := getElem?_of_forall₂ ha i
  · rw [h, h']
    exact .inr ⟨_, _, rfl, rfl, rfl⟩
  · rw [h, h']
    have hm : NativeError.message w.heap (.notNumber f (i + 1) x) =
        NativeError.message w'.heap (.notNumber f (i + 1) x') :=
      congrArg (f.name ++ " expects a number as argument " ++ toString (i + 1) ++ ", got " ++ ·)
        (hh.quote_eq hx)
    cases hx with
    | number n => exact .inl ⟨n, rfl, rfl⟩
    | _ => exact .inr ⟨_, _, rfl, rfl, hm⟩

theorem onNumber_renamed (hw : w.Renamed R w') (f : Native) (g : Number → Number)
    {args args' : List Value} (ha : List.Forall₂ (Value.Renamed R) args args') :
    CallsAlike R (f.onNumber g args, w) (f.onNumber g args', w') := by
  refine ⟨hw, ?_⟩
  unfold onNumber
  obtain ⟨n, hn, hn'⟩ | ⟨e, e', he, he', hm⟩ := numberArgument_renamed hw.heap f ha 0
  · rw [hn, hn']
    exact .ok (.number _)
  · rw [he, he']
    exact .error hm

theorem notArray_eq (hh : w.heap.Renamed R w'.heap) (f : Native) {v v' : Value}
    (hv : v.Renamed R v') :
    NativeError.message w.heap (.notArray f v) = NativeError.message w'.heap (.notArray f v') :=
  congrArg (f.name ++ " expects an array, got " ++ ·) (hh.quote_eq hv)

variable {host : Host} {args args' : List Value}

theorem print_renamed (hw : w.Renamed R w') (ha : List.Forall₂ (Value.Renamed R) args args') :
    CallsAlike R (call host .print args w) (call host .print args' w') := by
  obtain ⟨v, v', r, hv, hv', hvv, rfl | ⟨reason, rfl⟩⟩ := writeAll_renamed hw host.sink ha
  · simp only [call, hv, hv']
    exact ⟨hvv, .ok .null⟩
  · simp only [call, hv, hv']
    exact ⟨hvv, .error rfl⟩

theorem println_renamed (hw : w.Renamed R w') (ha : List.Forall₂ (Value.Renamed R) args args') :
    CallsAlike R (call host .println args w) (call host .println args' w') := by
  obtain ⟨v, v', r, hv, hv', hvv, rfl | ⟨reason, rfl⟩⟩ := writeAll_renamed hw host.sink ha
  · obtain ⟨u, u', hu, hu', huu⟩ | ⟨reason, he, he'⟩ := emit_renamed hvv host.sink "\n"
    · simp only [call, hv, hv', hu, hu']
      exact ⟨huu, .ok .null⟩
    · simp only [call, hv, hv', he, he']
      exact ⟨hvv, .error rfl⟩
  · simp only [call, hv, hv']
    exact ⟨hvv, .error rfl⟩

theorem len_renamed (hw : w.Renamed R w') (ha : List.Forall₂ (Value.Renamed R) args args') :
    CallsAlike R (call host .len args w) (call host .len args' w') := by
  cases ha with
  | nil => exact ⟨hw, .error rfl⟩
  | @cons x x' _ _ hx _ =>
    have hm : NativeError.message w.heap (.noLength x) =
        NativeError.message w'.heap (.noLength x') :=
      congrArg ("len expects an array or string, got " ++ ·) (hw.heap.quote_eq hx)
    cases hx with
    | array hr =>
      simp only [call, hw.heap.size_items hr]
      exact ⟨hw, .ok (.number _)⟩
    | string s => exact ⟨hw, .ok (.number _)⟩
    | _ => exact ⟨hw, .error hm⟩

/-- A native that takes an array and a value. -/
theorem onArray_renamed {f : Native} {g : Ref → Value → World → Except NativeError Value × World}
    (hcall : ∀ args w, f.call host args w = match args with
      | [.array r, v] => g r v w
      | [v, _] => (.error (.notArray f v), w)
      | _ => (.error (.notTwo f), w))
    (hg : ∀ {r r' v v'}, R r r' → v.Renamed R v' → CallsAlike R (g r v w) (g r' v' w'))
    (hw : w.Renamed R w') (ha : List.Forall₂ (Value.Renamed R) args args') :
    CallsAlike R (f.call host args w) (f.call host args' w') := by
  rw [hcall, hcall]
  cases ha with
  | nil => exact ⟨hw, .error rfl⟩
  | cons hx ha =>
    have hm := notArray_eq hw.heap f hx
    cases ha with
    | nil => cases hx <;> exact ⟨hw, .error rfl⟩
    | cons hy ha =>
      cases ha with
      | nil =>
        cases hx with
        | array hr => exact hg hr hy
        | _ => exact ⟨hw, .error hm⟩
      | cons _ _ => cases hx <;> exact ⟨hw, .error rfl⟩

theorem append_renamed (hw : w.Renamed R w') (ha : List.Forall₂ (Value.Renamed R) args args') :
    CallsAlike R (call host .append args w) (call host .append args' w') :=
  onArray_renamed (fun _ _ => rfl)
    (fun hr hv => ⟨⟨hw.heap.push hr hv, hw.output, hw.readings⟩, .ok (.array hr)⟩) hw ha

theorem includes_renamed (hw : w.Renamed R w') (ha : List.Forall₂ (Value.Renamed R) args args') :
    CallsAlike R (call host .includes args w) (call host .includes args' w') := by
  refine onArray_renamed (fun _ _ => rfl) (fun {r r' v v'} hr hv => ?_) hw ha
  have hany : (w.heap.items r).any (·.equals v) = (w'.heap.items r').any (·.equals v') := by
    rw [← Array.any_toList, ← Array.any_toList]
    exact any_eq_any_of_forall₂ ((hw.heap.items hr).imp fun z z' hz => hw.heap.equals_eq hz hv)
  simp only [hany]
  exact ⟨hw, .ok (.boolean _)⟩

theorem pow_renamed (hw : w.Renamed R w') (ha : List.Forall₂ (Value.Renamed R) args args') :
    CallsAlike R (call host .pow args w) (call host .pow args' w') := by
  refine ⟨hw, ?_⟩
  simp only [call]
  obtain ⟨n, hn, hn'⟩ | ⟨e, e', he, he', hm⟩ := numberArgument_renamed hw.heap .pow ha 0
  · obtain ⟨k, hk, hk'⟩ | ⟨e, e', he, he', hm⟩ := numberArgument_renamed hw.heap .pow ha 1
    · rw [hn, hn', hk, hk']
      exact .ok (.number _)
    · rw [hn, hn', he, he']
      exact .error hm
  · rw [he, he']
    exact .error hm

/-- **Natives do the same to arguments that are the same.** -/
theorem call_renamed (host : Host) (f : Native) (hw : w.Renamed R w')
    (ha : List.Forall₂ (Value.Renamed R) args args') :
    CallsAlike R (f.call host args w) (f.call host args' w') := by
  cases f with
  | print => exact print_renamed hw ha
  | println => exact println_renamed hw ha
  | clock =>
    simp only [call, hw.readings]
    exact ⟨⟨hw.heap, hw.output, rfl⟩, .ok (.number _)⟩
  | len => exact len_renamed hw ha
  | append => exact append_renamed hw ha
  | includes => exact includes_renamed hw ha
  | sqrt => exact onNumber_renamed hw .sqrt Number.sqrt ha
  | floor => exact onNumber_renamed hw .floor Number.floor ha
  | abs => exact onNumber_renamed hw .abs Number.abs ha
  | pow => exact pow_renamed hw ha

end Native

/-! ## Instructions -/

namespace Core.Renamed

variable {R : Renaming} {c c' : Core}

theorem push (hc : c.Renamed R c') {v v' : Value} (hv : v.Renamed R v') :
    (c.push v).Renamed R (c'.push v') :=
  ⟨.cons hv hc.stack, hc.world⟩

theorem underflow (hc : c.Renamed R c') :
    Effect.Renamed R (.fault .stackUnderflow c) (.fault .stackUnderflow c') :=
  .fault hc (.same nofun)

theorem pop (hc : c.Renamed R c') : Effect.Renamed R (Core.pop c) (Core.pop c') := by
  obtain ⟨stack, world⟩ := c
  obtain ⟨stack', world'⟩ := c'
  have hs := hc.stack
  cases hs with
  | nil => exact hc.underflow
  | cons _ hs => exact .done R.extends_refl ⟨hs, hc.world⟩

theorem binary (hc : c.Renamed R c') (op : BinaryOperator) :
    Effect.Renamed R (Core.binary op c) (Core.binary op c') := by
  obtain ⟨stack, world⟩ := c
  obtain ⟨stack', world'⟩ := c'
  have hs := hc.stack
  cases hs with
  | nil => exact hc.underflow
  | @cons b b' _ _ hb hs =>
    cases hs with
    | nil => exact hc.underflow
    | @cons a a' _ _ ha hs =>
      have hr := hc.world.heap.binary op ha hb
      simp only [Core.binary]
      generalize a.binary op b = r at hr
      generalize a'.binary op b' = r' at hr
      cases hr with
      | ok hv => exact .done R.extends_refl ⟨.cons hv hs, hc.world⟩
      | error hm => exact .failed ⟨hs, hc.world⟩ hm

theorem unary (hc : c.Renamed R c') (op : UnaryOperator) :
    Effect.Renamed R (Core.unary op c) (Core.unary op c') := by
  obtain ⟨stack, world⟩ := c
  obtain ⟨stack', world'⟩ := c'
  have hs := hc.stack
  cases hs with
  | nil => exact hc.underflow
  | @cons a a' _ _ ha hs =>
    have hr := hc.world.heap.unary op ha
    simp only [Core.unary]
    generalize world.heap.unary op a = r at hr
    generalize world'.heap.unary op a' = r' at hr
    cases hr with
    | ok hv => exact .done R.extends_refl ⟨.cons hv hs, hc.world⟩
    | error hm => exact .failed ⟨hs, hc.world⟩ hm

theorem makeArray (hc : c.Renamed R c') (n : Nat) :
    Effect.Renamed R (Core.makeArray n c) (Core.makeArray n c') := by
  obtain ⟨stack, world⟩ := c
  obtain ⟨stack', world'⟩ := c'
  simp only [Core.makeArray]
  obtain ⟨h, h'⟩ | ⟨args, rest, args', rest', h, h', ha, hr⟩ := splitTop_renamed n hc.stack .nil
  · rw [h, h']
    exact hc.underflow
  · rw [h, h']
    have hext := Heap.Renamed.extend_extends R world.heap world'.heap
    refine .done hext ⟨.cons (.array (.inr ⟨rfl, rfl⟩)) (hr.imp fun _ _ hv => hv.mono hext), ?_⟩
    exact ⟨hc.world.heap.alloc ha, hc.world.output, hc.world.readings⟩

theorem getIndex (hc : c.Renamed R c') : Effect.Renamed R (Core.getIndex c) (Core.getIndex c') := by
  obtain ⟨stack, world⟩ := c
  obtain ⟨stack', world'⟩ := c'
  have hs := hc.stack
  cases hs with
  | nil => exact hc.underflow
  | @cons b b' _ _ hb hs =>
    cases hs with
    | nil => exact hc.underflow
    | @cons a a' _ _ ha hs =>
      have hr := hc.world.heap.getIndex ha hb
      simp only [Core.getIndex]
      generalize world.heap.getIndex a b = r at hr
      generalize world'.heap.getIndex a' b' = r' at hr
      cases hr with
      | ok hv => exact .done R.extends_refl ⟨.cons hv hs, hc.world⟩
      | error hm => exact .failed ⟨hs, hc.world⟩ hm

theorem setIndex (hc : c.Renamed R c') : Effect.Renamed R (Core.setIndex c) (Core.setIndex c') := by
  obtain ⟨stack, heap, output, readings⟩ := c
  obtain ⟨stack', heap', output', readings'⟩ := c'
  have hs := hc.stack
  cases hs with
  | nil => exact hc.underflow
  | @cons v v' _ _ hv hs =>
    cases hs with
    | nil => exact hc.underflow
    | @cons b b' _ _ hb hs =>
      cases hs with
      | nil => exact hc.underflow
      | @cons a a' _ _ ha hs =>
        have hr := hc.world.heap.setIndex ha hb hv
        simp only [Core.setIndex]
        simp only at hr
        generalize heap.setIndex a b v = r at hr
        generalize heap'.setIndex a' b' v' = r' at hr
        cases hr with
        | done hh =>
          exact .done R.extends_refl ⟨.cons hv hs, hh, hc.world.output, hc.world.readings⟩
        | failed hm => exact .failed ⟨hs, hc.world⟩ hm
        | overlap => exact .fault ⟨hs, hc.world⟩ (.same nofun)

theorem callNative (hc : c.Renamed R c') (host : Host) (f : Native) (count : Nat) :
    Effect.Renamed R (Core.callNative host f count c) (Core.callNative host f count c') := by
  obtain ⟨stack, world⟩ := c
  obtain ⟨stack', world'⟩ := c'
  simp only [Core.callNative]
  split
  · exact .failed hc rfl
  · obtain ⟨h, h'⟩ | ⟨args, rest, args', rest', h, h', ha, hr⟩ :=
      splitTop_renamed count hc.stack .nil
    · rw [h, h']
      exact hc.underflow
    · rw [h, h']
      have hcall := Native.call_renamed host f hc.world ha
      simp only
      generalize f.call host args world = r at hcall
      generalize f.call host args' world' = r' at hcall
      obtain ⟨r, w⟩ := r
      obtain ⟨r', w'⟩ := r'
      obtain ⟨hw, hres⟩ := hcall
      cases hres with
      | ok hv => exact .done R.extends_refl ⟨.cons hv hr, hw⟩
      | error hm => exact .failed ⟨hc.stack, hw⟩ hm

theorem makeFunction (hc : c.Renamed R c') (count : Nat) :
    Effect.Renamed R (Core.makeFunction count c) (Core.makeFunction count c') := by
  obtain ⟨stack, world⟩ := c
  obtain ⟨stack', world'⟩ := c'
  have hs := hc.stack
  simp only [Core.makeFunction]
  cases hs with
  | nil => exact .fault hc (.same nofun)
  | cons hv hs =>
    have hv' := hv
    cases hv with
    | function i =>
      simp only
      split
      · exact .done R.extends_refl hc
      · exact .fault hc (.notFunction hv')
    | _ => exact .fault hc (.notFunction hv')

end Core.Renamed

end Stackscript
