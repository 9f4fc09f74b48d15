import Stackscript.Proofs.ArrayGraph

/-!
# Writing arrays that may hold themselves

A value is written with a list of the arrays that are being written, to which an array is added when
it is begun and from which it is taken when it is ended. The list is bounded by the heap, so writing
comes to an end, with the list as it was. What is put out is a sequence of marks, from which one can
tell at each point which arrays are being written: just those are abbreviated. A value from which no
cycle can be reached is written as if there were no list.

* `Mark`, `Mark.textOf`, `Mark.inProgress`;
* `Heap.marks`, the marks of a value, with `Heap.textOf_marks`; `Heap.render`, which keeps the list
  as a state;
* **`Heap.opening`**, the induction that writing a value follows;
* `Mark.Nested`, `Heap.balanced_marks`; `Heap.start_mem_marks`;
* `Heap.Plain`, the text without abbreviations, with `Heap.plain_iff`;
* **`Heap.render_terminates`**.
-/

namespace Stackscript

open Relation

/-! ## Marks -/

/-- What is put out while a value is written. -/
inductive Mark where
  /-- The text of a value that is no array, or what stands between two items. -/
  | plain (text : String)
  /-- An array is begun. -/
  | start (r : Ref)
  /-- An array is ended. -/
  | stop (r : Ref)
  /-- An array is abbreviated. -/
  | again (r : Ref)
deriving DecidableEq

namespace Mark

/-- The text of a mark. -/
def text : Mark → String
  | .plain s => s
  | .start _ => "["
  | .stop _ => "]"
  | .again _ => "[...]"

/-- The text of marks. -/
def textOf (marks : List Mark) : String := String.join (marks.map text)

/-- The marks of items with what stands between them. -/
def separated (parts : List (List Mark)) : List Mark := [plain ", "].intercalate parts

/-- **The arrays that are being written** behind marks: those that have been begun and not ended. -/
def inProgress (opened : List Ref) : List Mark → List Ref
  | [] => opened
  | .start r :: marks => inProgress (r :: opened) marks
  | .stop r :: marks => inProgress (opened.erase r) marks
  | .plain _ :: marks | .again _ :: marks => inProgress opened marks

/-- Arrays are begun where they are not being written and abbreviated where they are, and the last
one that was begun is ended first. -/
def Nested (opened : List Ref) : List Mark → Prop
  | [] => True
  | .start r :: marks => r ∉ opened ∧ Nested (r :: opened) marks
  | .stop r :: marks => opened.head? = some r ∧ Nested opened.tail marks
  | .again r :: marks => r ∈ opened ∧ Nested opened marks
  | .plain _ :: marks => Nested opened marks

/-- Marks of a whole value: what they begin they end. -/
structure Balanced (opened : List Ref) (marks : List Mark) : Prop where
  nested : Nested opened marks
  inProgress : inProgress opened marks = opened

theorem textOf_append (marks marks' : List Mark) :
    textOf (marks ++ marks') = textOf marks ++ textOf marks' := by
  rw [textOf, List.map_append, String.join_append]
  rfl

theorem textOf_cons (m : Mark) (marks : List Mark) : textOf (m :: marks) = m.text ++ textOf marks :=
  String.join_cons

theorem separated_cons_cons (part part' : List Mark) (parts : List (List Mark)) :
    separated (part :: part' :: parts) = part ++ plain ", " :: separated (part' :: parts) := by
  rw [separated, List.intercalate_cons_cons, List.append_assoc]
  rfl

theorem textOf_separated (parts : List (List Mark)) :
    textOf (separated parts) = ", ".intercalate (parts.map textOf) := by
  induction parts with
  | nil => rfl
  | cons part parts ih =>
    cases parts with
    | nil => simp [separated]
    | cons part' parts =>
      rw [separated_cons_cons, textOf_append, textOf_cons, ih, List.map_cons, List.map_cons,
        List.map_cons, String.intercalate_cons_cons, String.append_assoc]
      rfl

theorem inProgress_append (marks marks' : List Mark) (opened : List Ref) :
    inProgress opened (marks ++ marks') = inProgress (inProgress opened marks) marks' := by
  fun_induction inProgress opened marks with
  | case1 => rfl
  | case2 opened r marks ih | case3 opened r marks ih | case4 opened _ marks ih
  | case5 opened _ marks ih => exact ih

theorem nested_append {marks marks' : List Mark} {opened : List Ref} :
    Nested opened (marks ++ marks') ↔ Nested opened marks ∧
      Nested (inProgress opened marks) marks' := by
  fun_induction inProgress opened marks with
  | case1 => exact (iff_of_eq (true_and _)).symm
  | case2 opened r marks ih | case5 opened r marks ih =>
    exact (and_congr_right fun _ => ih).trans and_assoc.symm
  | case3 opened r marks ih =>
    -- an array that is ended is the last one that was begun, so it does not matter how it is taken
    -- away
    refine (and_congr_right fun hhead => ?_).trans and_assoc.symm
    obtain ⟨outer, rfl⟩ := List.head?_eq_some_iff.1 hhead
    rw [List.erase_cons_head] at ih ⊢
    exact ih
  | case4 opened _ marks ih => exact ih

/-- Every mark of a nested sequence fits what is being written before it. -/
theorem Nested.at_mark {opened : List Ref} {before after : List Mark} {m : Mark}
    (h : Nested opened (before ++ m :: after)) (r : Ref) :
    (m = .again r → r ∈ inProgress opened before) ∧
      (m = .start r → r ∉ inProgress opened before) := by
  have hm := (nested_append.1 h).2
  constructor <;> rintro rfl <;> exact hm.1

theorem Balanced.append {opened : List Ref} {marks marks' : List Mark} (h : Balanced opened marks)
    (h' : Balanced opened marks') : Balanced opened (marks ++ marks') :=
  ⟨nested_append.2 ⟨h.nested, h.inProgress.symm ▸ h'.nested⟩,
    by rw [inProgress_append, h.inProgress, h'.inProgress]⟩

theorem Balanced.separated {opened : List Ref} {parts : List (List Mark)}
    (h : ∀ part ∈ parts, Balanced opened part) : Balanced opened (separated parts) := by
  induction parts with
  | nil => exact ⟨trivial, rfl⟩
  | cons part parts ih =>
    obtain ⟨hpart, hparts⟩ := List.forall_mem_cons.1 h
    cases parts with
    | nil => simpa [Mark.separated] using hpart
    | cons part' parts =>
      rw [separated_cons_cons]
      exact hpart.append (Balanced.append ⟨trivial, rfl⟩ (ih hparts) : Balanced
        opened ([plain ", "] ++ _))

/-- An array that is not being written is begun, its items are written while it is, and it is
ended. -/
theorem Balanced.array {opened : List Ref} {r : Ref} {inner : List Mark} (hr : r ∉ opened)
    (h : Balanced (r :: opened) inner) : Balanced opened (.start r :: inner ++ [.stop r]) := by
  refine ⟨⟨hr, nested_append.2 ⟨h.nested, ?_⟩⟩, ?_⟩
  · rw [h.inProgress]
    exact ⟨rfl, trivial⟩
  · show Mark.inProgress (r :: opened) (inner ++ [.stop r]) = opened
    rw [inProgress_append, h.inProgress]
    exact List.erase_cons_head ..

end Mark

/-! ## The marks of a value -/

namespace Heap

/-- The marks of a value while the arrays in `opened` are being written. -/
def marks (h : Heap) (opened : List Ref) : Value → List Mark
  | .array r =>
    if hr : r ∈ opened then [.again r]
    else if hs : r < h.size then
      have := unopened_cons_lt hr hs
      let parts := (h.items r).toList.map fun
        | .string s => [.plain (Text.quoted s)]
        | v => h.marks (r :: opened) v
      .start r :: Mark.separated parts ++ [.stop r]
    else [.start r, .stop r]
  | v => [.plain (h.write opened v)]
termination_by h.unopened opened

/-- The marks of an item: strings stand in quotes. -/
def itemMarks (h : Heap) (opened : List Ref) : Value → List Mark
  | .string s => [.plain (Text.quoted s)]
  | v => h.marks opened v

/-- The text of an item: strings stand in quotes. -/
def itemText (h : Heap) (opened : List Ref) : Value → String
  | .string s => Text.quoted s
  | v => h.write opened v

/-- **Writing with a list of arrays that is changed on the way.** An array is added to the list
before its items are written and taken away behind them. At most `depth` values may be written
inside each other. -/
def render (h : Heap) : (depth : Nat) → Value → StateT (List Ref) Option (List Mark)
  | 0, _ => failure
  | depth + 1, .array r => do
    if r ∈ (← get) then return [.again r]
    else
      modify (r :: ·)
      let parts ← (h.items r).toList.mapM fun
        | .string s => return [.plain (Text.quoted s)]
        | v => h.render depth v
      modify List.tail
      return .start r :: Mark.separated parts ++ [.stop r]
  | _ + 1, v => return [.plain (h.write [] v)]

/-- The marks of an item, written with a list. -/
def renderItem (h : Heap) (depth : Nat) : Value → StateT (List Ref) Option (List Mark)
  | .string s => return [.plain (Text.quoted s)]
  | v => h.render depth v

variable {h : Heap} {opened : List Ref} {r : Ref}

theorem marks_of_mem (hr : r ∈ opened) : h.marks opened (.array r) = [.again r] := by
  rw [marks, dif_pos hr]

theorem marks_array (hr : r ∉ opened) : h.marks opened (.array r) =
    .start r :: Mark.separated ((h.items r).toList.map (h.itemMarks (r :: opened))) ++
      [.stop r] := by
  rw [marks, dif_neg hr]
  split
  · rfl
  case isFalse hs =>
    rw [items_of_size_le (Nat.le_of_not_lt hs)]
    rfl

theorem write_of_mem (hr : r ∈ opened) : h.write opened (.array r) = "[...]" := by
  rw [write, dif_pos hr]

theorem write_array (hr : r ∉ opened) : h.write opened (.array r) =
    "[" ++ ", ".intercalate ((h.items r).toList.map (h.itemText (r :: opened))) ++ "]" := by
  rw [write, dif_neg hr]
  split
  · rfl
  case isFalse hs =>
    rw [items_of_size_le (Nat.le_of_not_lt hs)]
    rfl

theorem marks_scalar {v : Value} (hv : ∀ r, v ≠ .array r) :
    h.marks opened v = [.plain (h.write opened v)] := by
  cases v with
  | array r => exact absurd rfl (hv r)
  | _ => simp only [marks]

/-- The text of what is no array does not depend on the arrays. -/
theorem write_scalar {v : Value} (hv : ∀ r, v ≠ .array r) (opened' : List Ref) :
    h.write opened v = h.write opened' v := by
  cases v with
  | array r => exact absurd rfl (hv r)
  | _ => simp only [write]

theorem lt_size_of_mem_items {v : Value} (hv : v ∈ (h.items r).toList) : r < h.size := by
  refine Nat.lt_of_not_le fun hge => ?_
  rw [items_of_size_le hge] at hv
  cases hv

/-- **The induction that writing a value follows**: an array is begun at most once, so what holds of
a value once it holds of the items of an array that is begun for it holds of every value. -/
theorem opening {motive : List Ref → Value → Prop}
    (scalar : ∀ opened v, (∀ r, v ≠ .array r) → motive opened v)
    (again : ∀ opened r, r ∈ opened → motive opened (.array r))
    (array : ∀ opened r, r ∉ opened → (∀ v ∈ (h.items r).toList, motive (r :: opened) v) →
    motive opened (.array r)) (opened : List Ref) (v : Value) : motive opened v := by
  induction hn : h.unopened opened using Nat.strongRecOn generalizing opened v with
  | ind n ih =>
    by_cases hv : ∃ r, v = .array r
    · obtain ⟨r, rfl⟩ := hv
      by_cases hr : r ∈ opened
      · exact again opened r hr
      · exact array opened r hr fun x hx =>
          ih _ (hn ▸ unopened_cons_lt hr (lt_size_of_mem_items hx)) (r :: opened) x rfl
    · exact scalar opened v fun r hr => hv ⟨r, hr⟩

theorem textOf_itemMarks {v : Value} (hv : Mark.textOf (h.marks opened v) = h.write opened v) :
    Mark.textOf (h.itemMarks opened v) = h.itemText opened v := by
  cases v with
  | string s => simp [itemMarks, itemText, Mark.textOf, Mark.text]
  | _ => exact hv

/-- **The marks of a value make up its text.** -/
theorem textOf_marks (opened : List Ref) (v : Value) :
    Mark.textOf (h.marks opened v) = h.write opened v := by
  refine opening (h := h) (motive := fun opened v => Mark.textOf (h.marks opened v) =
    h.write opened v) ?_ ?_ ?_ opened v
  · intro opened v hv
    rw [marks_scalar hv]
    simp [Mark.textOf, Mark.text]
  · intro opened r hr
    rw [marks_of_mem hr, write_of_mem hr]
    rfl
  · intro opened r hr ih
    have htexts : ((h.items r).toList.map (h.itemMarks (r :: opened))).map Mark.textOf =
        (h.items r).toList.map (h.itemText (r :: opened)) := by
      rw [List.map_map]
      exact List.map_congr_left fun v hv => textOf_itemMarks (ih v hv)
    rw [marks_array hr, write_array hr, Mark.textOf_append, Mark.textOf_cons,
      Mark.textOf_separated, htexts]
    rfl

/-- **Arrays are abbreviated just where they are being written.** -/
theorem balanced_marks (opened : List Ref) (v : Value) :
    Mark.Balanced opened (h.marks opened v) := by
  refine opening (h := h)
    (motive := fun opened v => Mark.Balanced opened (h.marks opened v)) ?_ ?_ ?_ opened v
  · intro opened v hv
    rw [marks_scalar hv]
    exact ⟨trivial, rfl⟩
  · intro opened r hr
    rw [marks_of_mem hr]
    exact ⟨⟨hr, trivial⟩, rfl⟩
  · intro opened r hr ih
    rw [marks_array hr]
    refine .array hr (.separated fun part hpart => ?_)
    obtain ⟨v, hv, rfl⟩ := List.mem_map.1 hpart
    cases v with
    | string s => exact ⟨trivial, rfl⟩
    | _ => exact ih _ hv

/-- Items that are each written with the list as it was are written one after the other. -/
theorem mapM_run {f : Value → StateT (List Ref) Option (List Mark)} {g : Value → List Mark}
    {items : List Value} (hf : ∀ v ∈ items, (f v).run opened = some (g v, opened)) :
    (items.mapM f).run opened = some (items.map g, opened) := by
  induction items with
  | nil => rfl
  | cons v items ih =>
    obtain ⟨hv, hitems⟩ := List.forall_mem_cons.1 hf
    simp [List.mapM_cons, hv, ih hitems]

theorem render_of_mem (depth : Nat) (hr : r ∈ opened) :
    (h.render (depth + 1) (.array r)).run opened = some ([.again r], opened) := by
  simp [render, hr]

theorem render_array {depth : Nat} (hr : r ∉ opened) {parts : List (List Mark)}
    (hparts : ((h.items r).toList.mapM (h.renderItem depth)).run (r :: opened) =
    some (parts, r :: opened)) :
    (h.render (depth + 1) (.array r)).run opened = some (.start r :: Mark.separated parts ++
      [.stop r], opened) := by
  unfold renderItem at hparts
  simp [render, hr, hparts]

/-- **Writing comes to an end with the list as it was**, as arrays that are not in the list are not
begun twice. -/
theorem render_eq {depth : Nat} (v : Value) (hdepth : h.unopened opened < depth) :
    (h.render depth v).run opened = some (h.marks opened v, opened) := by
  refine opening (h := h) (motive := fun opened v => ∀ depth, h.unopened opened < depth →
    (h.render depth v).run opened = some (h.marks opened v, opened)) ?_ ?_ ?_ opened v depth hdepth
  all_goals
    intro opened x hx
  · rintro (_ | depth) hdepth
    · cases hdepth
    · rw [marks_scalar hx, write_scalar hx []]
      cases x with
      | array r => exact absurd rfl (hx r)
      | _ => rfl
  · rintro (_ | depth) hdepth
    · cases hdepth
    · rw [marks_of_mem hx, render_of_mem depth hx]
  · rintro ih (_ | depth) hdepth
    · cases hdepth
    · rw [marks_array hx]
      refine render_array hx (mapM_run fun v hv => ?_)
      have hitem :=
        ih v hv depth (Nat.lt_of_lt_of_le (unopened_cons_lt hx (lt_size_of_mem_items hv))
          (Nat.le_of_lt_succ hdepth))
      cases v with
      | string s => rfl
      | _ => exact hitem

/-! ## Which arrays are begun -/

/-- What is no text stands in the marks of items only if it does in those of one of them. -/
theorem mem_separated {m : Mark} (hm : ∀ s, m ≠ .plain s) (f : Value → List Mark)
    {items : List Value} : m ∈ Mark.separated (items.map f) ↔ ∃ v ∈ items, m ∈ f v := by
  induction items with
  | nil => simp [Mark.separated]
  | cons v items ih =>
    cases items with
    | nil => simp [Mark.separated]
    | cons v' items =>
      rw [List.map_cons, List.map_cons, Mark.separated_cons_cons, List.mem_append,
        List.mem_cons, ← List.map_cons, ih]
      simp [hm]

theorem meets_array {target : Ref} (hne : r ≠ target) (hr : r ∉ opened) :
    h.meets target opened (.array r) =
    (h.items r).toList.any fun v => h.meets target (r :: opened) v := by
  rw [meets, if_neg hne, dif_neg hr]
  split
  · rfl
  case isFalse hs =>
    rw [items_of_size_le (Nat.le_of_not_lt hs)]
    rfl

/-- **An array is begun exactly if writing the value comes across it.** -/
theorem start_mem_marks {target : Ref} {v : Value} (ht : target ∉ opened) :
    .start target ∈ h.marks opened v ↔ h.meets target opened v = true := by
  refine opening (h := h) (motive := fun opened v => target ∉ opened →
    (.start target ∈ h.marks opened v ↔ h.meets target opened v = true)) ?_ ?_ ?_ opened v ht
  · intro opened v hv _
    rw [marks_scalar hv]
    cases v with
    | array r => exact absurd rfl (hv r)
    | _ => simp [meets]
  · intro opened r hr ht
    have hne : r ≠ target := fun e => ht (e ▸ hr)
    rw [marks_of_mem hr, meets, if_neg hne, dif_pos hr]
    simp
  · intro opened r hr ih ht
    rw [marks_array hr]
    by_cases hne : r = target
    · subst hne
      rw [meets, if_pos rfl]
      simp
    · have ht' : target ∉ r :: opened := by simp [ht, Ne.symm hne]
      have hitem : ∀ v ∈ (h.items r).toList,
          (.start target ∈ h.itemMarks (r :: opened) v ↔
          h.meets target (r :: opened) v = true) := by
        intro v hv
        cases v with
        | string s => simp [itemMarks, meets]
        | _ => exact ih _ hv ht'
      have hstart : .start target ∈
          Mark.start r :: Mark.separated ((h.items r).toList.map (h.itemMarks (r :: opened))) ++
          [.stop r] ↔ .start target ∈ Mark.separated
          ((h.items r).toList.map (h.itemMarks (r :: opened))) := by
        simp [Ne.symm hne]
      rw [hstart, mem_separated fun s => Mark.noConfusion, meets_array hne hr, List.any_eq_true]
      exact exists_congr fun v => and_congr_right (hitem v)

/-! ## Texts without abbreviations -/

mutual

/-- **The text of a value without abbreviations**: every array is written in full wherever it
stands. -/
inductive Plain (h : Heap) : Value → String → Prop where
  | scalar {v : Value} : (∀ r, v ≠ .array r) → Plain h v (h.write [] v)
  | array {r : Ref} {texts : List String} : PlainItems h (h.items r).toList texts →
      Plain h (.array r) ("[" ++ ", ".intercalate texts ++ "]")

/-- The texts of items without abbreviations: strings stand in quotes. -/
inductive PlainItems (h : Heap) : List Value → List String → Prop where
  | nil : PlainItems h [] []
  | string {s : String} {vs : List Value} {texts : List String} : PlainItems h vs texts →
      PlainItems h (.string s :: vs) (Text.quoted s :: texts)
  | other {v : Value} {text : String} {vs : List Value} {texts : List String} :
      (∀ s, v ≠ .string s) → Plain h v text → PlainItems h vs texts →
      PlainItems h (v :: vs) (text :: texts)

end

/-- Items are written one by one. -/
theorem plainItems_iff {items : List Value} (hplain : ∀ v ∈ items, ∀ text, h.Plain v text ↔
      text = h.write opened v)
    {texts : List String} : h.PlainItems items texts ↔ texts = items.map (h.itemText opened) := by
  induction items generalizing texts with
  | nil =>
    constructor
    · rintro ⟨⟩
      rfl
    · rintro rfl
      exact .nil
  | cons v items ih =>
    obtain ⟨hv, hitems⟩ := List.forall_mem_cons.1 hplain
    constructor
    · rintro (_ | hrest | ⟨hother, htext, hrest⟩)
      · rw [(ih hitems).1 hrest]
        rfl
      · rw [(hv _).1 htext, (ih hitems).1 hrest, List.map_cons]
        cases v with
        | string s => exact absurd rfl (hother s)
        | _ => rfl
    · rintro rfl
      have hrest := (ih hitems).2 rfl
      cases v with
      | string s => exact .string hrest
      | _ => exact .other nofun ((hv _).2 rfl) hrest

/-- **A value from which no cycle can be reached is written in full**, if none of the arrays that
are being written can be reached either. -/
theorem plain_iff {v : Value} (hv : ∀ r, h.Reaches v r → r ∉ opened ∧ ¬h.OnCycle r)
    (text : String) : h.Plain v text ↔ text = h.write opened v := by
  refine opening (h := h) (motive := fun opened v => (∀ r, h.Reaches v r → r ∉ opened ∧
    ¬h.OnCycle r) → ∀ text, h.Plain v text ↔ text = h.write opened v) ?_ ?_ ?_ opened v hv text
  · intro opened v hscalar _ text
    rw [write_scalar hscalar []]
    constructor
    · rintro (_ | _)
      · rfl
      · exact absurd rfl (hscalar _)
    · rintro rfl
      exact .scalar hscalar
  · intro opened r hr hv
    exact absurd hr (hv r ⟨r, rfl, .refl⟩).1
  · intro opened r hr ih hv text
    -- what an item reaches is reached from the array, and is not the array, which would then stand
    -- on a cycle
    have hitems : ∀ x ∈ (h.items r).toList, ∀ text, h.Plain x text ↔
        text = h.write (r :: opened) x := by
      intro x hx
      refine ih x hx ?_
      rintro q ⟨p, rfl, hq⟩
      obtain ⟨hout, hcycle⟩ := hv q ⟨r, rfl, .head hx hq⟩
      refine ⟨?_, hcycle⟩
      rw [List.mem_cons, not_or]
      exact ⟨fun e => hcycle (e ▸ TransGen.head' hx (e ▸ hq)), hout⟩
    rw [write_array hr]
    constructor
    · rintro (hscalar | hplain)
      · exact absurd rfl (hscalar r)
      · rw [(plainItems_iff hitems).1 hplain]
    · rintro rfl
      exact .array ((plainItems_iff hitems).2 rfl)

/-! ## Every heap -/

/-- **Writing terminates on every heap.** Values are written inside each other at most once for
every array that is not being written, and once more; the list of arrays that are being written is
then as it was. The text is that of the marks. An array is abbreviated where it is being written,
and begun where it is not. A value that reaches no cycle, and none of the arrays that are being
written, has its text without abbreviations. -/
theorem render_terminates (h : Heap) (opened : List Ref) (v : Value) :
    (∀ depth, h.unopened opened < depth →
      (h.render depth v).run opened = some (h.marks opened v, opened)) ∧
      Mark.textOf (h.marks opened v) = h.write opened v ∧
      (∀ before m after, h.marks opened v = before ++ m :: after → ∀ r,
        (m = .again r → r ∈ Mark.inProgress opened before) ∧
          (m = .start r → r ∉ Mark.inProgress opened before)) ∧
      ((∀ r, h.Reaches v r → r ∉ opened ∧ ¬h.OnCycle r) → ∀ text, h.Plain v text ↔
        text = h.write opened v) := by
  refine ⟨fun _ hdepth => render_eq v hdepth, textOf_marks opened v, fun before m after hmarks r =>
    ?_, plain_iff⟩
  have hnested := (balanced_marks (h := h) opened v).nested
  rw [hmarks] at hnested
  exact hnested.at_mark r

/-- An array that holds another one twice, and two arrays that hold each other. -/
def tangled : Heap := ⟨#[#[.array 1, .array 1], #[.null], #[.array 3], #[.array 2, .array 1]]⟩

theorem render_terminates_tangled :
    tangled.display (.array 0) = "[[null], [null]]" ∧
      (∀ text, tangled.Plain (.array 0) text ↔ text = "[[null], [null]]") ∧
      tangled.display (.array 2) = "[[[...], [null]]]" ∧
      (tangled.render 5 (.array 2)).run [] =
        some ([.start 2, .start 3, .again 2, .plain ", ", .start 1, .plain "null",
        .stop 1, .stop 3, .stop 2], []) := by
  have hmarks : tangled.marks [] (.array 2) = [.start 2, .start 3, .again 2, .plain ", ", .start 1,
      .plain "null", .stop 1, .stop 3, .stop 2] := by
    simp [marks, write, tangled, items, size, Mark.separated]
  have hshared : tangled.write [] (.array 0) = "[[null], [null]]" := by
    simp [write, tangled, items, size]
  have hfirst : ∀ q, tangled.Holds 0 q → q = 1 := by simp [Holds, tangled, items]
  have hsecond : ∀ q, ¬tangled.Holds 1 q := by simp [Holds, tangled, items]
  have hend : ∀ q, ReflTransGen tangled.Holds 1 q → 1 = q := by
    intro q hq
    obtain rfl | ⟨p, hp, -⟩ := hq.cases_head
    · rfl
    · exact absurd hp (hsecond p)
  have hacyclic : ∀ r, tangled.Reaches (.array 0) r → r ∉ [] ∧ ¬tangled.OnCycle r := by
    rintro r ⟨_, ⟨⟩, hr⟩
    refine ⟨List.not_mem_nil, fun hcycle => ?_⟩
    obtain ⟨p, hp, hback⟩ := TransGen.head'_iff.1 hcycle
    obtain rfl | ⟨q, hq, hr⟩ := hr.cases_head
    · cases hfirst p hp
      exact absurd (hend _ hback) (by decide)
    · cases hfirst q hq
      cases hend r hr
      exact hsecond p hp
  obtain ⟨-, -, -, hplain⟩ := render_terminates tangled [] (.array 0)
  obtain ⟨hrender, htext, -, -⟩ := render_terminates tangled [] (.array 2)
  rw [hmarks] at hrender htext
  exact ⟨hshared, hshared ▸ hplain hacyclic, htext.symm, hrender 5 (by decide)⟩

end Heap

end Stackscript
