import Stackscript.Proofs.StackDiscipline

/-!
# Calls are isolated

Between the entry of a routine and the return from it, whatever calls are made in between, the calls
around it and the operands below its arguments stay as they are; the return leaves one result in the
place of the callee and its arguments. The bases of the active calls tell why: the calls that are
entered stand on bases no lower than that of the first of them, and no instruction reaches below the
base of the running call.

* `Executable.Inside`: the machines between an entry and the matching return;
* `Machine.Above`, with **`Machine.Above.step`**, **`Machine.Above.leaves`**;
* **`call_isolation`**.
-/

namespace Stackscript

/-- The machines that are reached from one while more than `depth` calls are active. -/
inductive Executable.Inside (exe : Executable) (host : Host) (depth : Nat) (v : Machine) :
    Machine → Prop where
  | entered : depth < v.frames.length → Inside exe host depth v v
  | step {w w' : Machine} : Inside exe host depth v w → w.step exe host = .next w' →
      depth < w'.frames.length → Inside exe host depth v w'

/-- **A machine stands above a caller that waits for it**: the calls of the caller are at the bottom
of its own and the operands `rest` at the bottom of its stack, and its further calls have bases no
lower than that. -/
structure Machine.Above (caller : Machine) (rest : List Value) (bases : List Nat) (w : Machine)
    (bases' : List Nat) : Prop where
  ip : w.ip = caller.ip
  frames : ∃ inner, w.frames = inner ++ caller.frames
  stack : ∃ above, w.core.stack = above ++ rest
  bases : ∃ more, bases' = more ++ bases ∧ w.frames.length = more.length + caller.frames.length ∧
    ∀ base ∈ more, rest.length ≤ base

theorem exists_append_of_le {α : Type} {above rest taken rest' : List α}
    (h : above ++ rest = taken ++ rest')
    (hle : taken.length ≤ above.length) : ∃ above', rest' = above' ++ rest := by
  obtain ⟨more, rfl, rfl⟩ | ⟨more, -, rfl⟩ := List.append_eq_append_iff.1 h
  · obtain rfl : more = [] := by
      rw [List.length_append] at hle
      exact List.length_eq_zero_iff.1 (by omega)
    exact ⟨[], rfl⟩
  · exact ⟨more, rfl⟩

/-- The height of the stack and the charge follow from the active calls and their bases. -/
theorem AlignedFrames.unique {exe : Executable} {d : Option Nat → Nat → Option Nat}
    {frames : List Frame} {ip height height' charged charged' : Nat} {bases : List Nat}
    (h : AlignedFrames exe d frames ip height charged bases)
    (h' : AlignedFrames exe d frames ip height' charged' bases) :
    height = height' ∧ charged = charged' := by
  induction h generalizing height' charged' with
  | top hk =>
    cases h' with
    | top hk' => exact ⟨Option.some.inj (hk.symm.trans hk'), rfl⟩
  | call hr hk hheight hcharged _ ih =>
    cases h' with
    | call hr' hk' hheight' hcharged' hrest' =>
      cases hr.symm.trans hr'
      cases hk.symm.trans hk'
      obtain ⟨-, rfl⟩ := ih hrest'
      exact ⟨hheight.trans hheight'.symm, hcharged.trans hcharged'.symm⟩

namespace Machine

variable {exe : Executable} {d : Option Nat → Nat → Option Nat} {host : Host}
  {caller v v' w w' : Machine} {rest : List Value} {bases bases' : List Nat}

theorem Stays.above {address : Nat} (h : v.Stays address v') {inner outer : List Frame}
    (hframes : v.frames = inner ++ outer) (hdepth : outer.length < v.frames.length) :
    v'.ip = v.ip ∧ ∃ inner', v'.frames = inner' ++ outer := by
  cases inner with
  | nil =>
    rw [hframes, List.nil_append] at hdepth
    omega
  | cons f inner =>
    cases h with
    | top => cases hframes
    | call => cases hframes; exact ⟨rfl, _ :: inner, rfl⟩

/-- **A step above a caller stays above it**, unless it leaves the last call above. -/
theorem Above.step (h : Above caller rest bases w bases') (ha : w.Aligned exe d bases')
    (hd : exe.Graded d)
    (hdepth : caller.frames.length < w.frames.length) (hstep : w.step exe host = .next w') :
    Above caller rest bases w' (w.rebase w' bases') := by
  obtain ⟨chunk, op, hchunk, -, hop, hgoes⟩ := step_next hstep
  obtain ⟨base, k, hbase, hk, hheight, hgraded⟩ := ha.instr hd hchunk hop
  have htakes := hgraded.takes
  obtain ⟨above, habove⟩ := h.stack
  obtain ⟨inner, hinner⟩ := h.frames
  obtain ⟨more, rfl, hlength, hmore⟩ := h.bases
  -- the running call is one of those above, so its operands are
  have hbelow : rest.length ≤ base := by
    cases more with
    | nil => rw [List.length_nil] at hlength; omega
    | cons b more => cases hbase; exact hmore _ (by simp)
  have hroom : op.takes ≤ above.length := by
    rw [habove, List.length_append] at hheight
    omega
  cases hgoes with
  | @stays _ address hto hstays hcore =>
    obtain ⟨taken, given, rest', hs, htaken, hs', -⟩ := hcore
    obtain ⟨above', rfl⟩ := exists_append_of_le (habove.symm.trans hs) (by omega)
    obtain ⟨hip, hframes⟩ := hstays.above hinner hdepth
    rw [rebase_stays hstays.length_frames]
    refine ⟨hip.trans h.ip, hframes, ⟨given ++ above', by rw [hs', List.append_assoc]⟩, more, rfl,
      ?_, hmore⟩
    rw [hstays.length_frames, hlength]
  | @enters count index r args rest' hcall hstack hargs hr harity hbudget hlimit =>
    have hstack' : w.core.stack = (.function index :: args.reverse) ++ rest' := hstack
    have hcount : (Value.function index :: args.reverse).length ≤ above.length := by
      rw [hcall] at hroom
      rwa [List.length_cons, List.length_reverse, hargs]
    obtain ⟨above', rfl⟩ := exists_append_of_le (habove.symm.trans hstack') hcount
    have hjump : w.Stays (w.currentIp + op.size) (w.jump (w.currentIp + op.size)) :=
      stays_jump w.core
    obtain ⟨hip, inner', hinner'⟩ := hjump.above hinner hdepth
    rw [rebase_enters (congrArg (· + 1) hjump.length_frames)]
    refine ⟨hip.trans h.ip, ⟨_ :: inner', congrArg _ hinner'⟩, ⟨above', rfl⟩,
      (above' ++ rest).length :: more, rfl, ?_, ?_⟩
    · rw [entered, List.length_cons, List.length_cons, hjump.length_frames, hlength]
      omega
    · refine List.forall_mem_cons.2 ⟨?_, hmore⟩
      rw [List.length_append]
      omega
  | @leaves f frames r hret hframes hr =>
    rw [rebase_leaves (by rw [hframes]; rfl)]
    cases inner with
    | nil => rw [hinner, List.nil_append] at hdepth; omega
    | cons g inner =>
      rw [hframes, List.cons_append] at hinner
      obtain ⟨-, rfl⟩ := List.cons.inj hinner
      cases more with
      | nil => rw [List.length_nil] at hlength; omega
      | cons b more =>
        refine ⟨h.ip, ⟨inner, rfl⟩, ⟨above, habove⟩, more, rfl, ?_,
          (List.forall_mem_cons.1 hmore).2⟩
        rw [hframes, List.length_cons, List.length_cons] at hlength
        simp only [left]
        omega

/-- **Back at the caller**, the machine is the caller with one result on the operands that it
left. -/
theorem Above.back (h : Above caller rest bases w bases') (ha : w.Aligned exe d bases')
    (hcaller : AlignedFrames exe d caller.frames caller.ip (rest.length + 1) caller.charged bases)
    (hdepth : w.frames.length ≤ caller.frames.length) :
    ∃ result, w = { caller with core := ⟨result :: rest, w.core.world⟩, globals := w.globals } := by
  obtain ⟨⟨stack, world⟩, globals, ip, frames, charged⟩ := w
  obtain ⟨more, rfl, hlength, -⟩ := h.bases
  obtain rfl : more = [] := List.length_eq_zero_iff.1 (by omega)
  obtain ⟨inner, rfl⟩ := h.frames
  obtain rfl : inner = [] := by
    rw [List.length_append] at hdepth
    exact List.length_eq_zero_iff.1 (by omega)
  obtain ⟨above, rfl⟩ := h.stack
  obtain rfl : ip = caller.ip := h.ip
  obtain ⟨hheight, rfl⟩ := AlignedFrames.unique ha hcaller
  simp only [List.length_append] at hheight
  obtain ⟨result, rfl⟩ : ∃ result, above = [result] := List.length_eq_one_iff.1 (by omega)
  exact ⟨result, rfl⟩

end Machine

/-! ## Runs -/

namespace Executable

variable {exe : Executable} {d : Option Nat → Nat → Option Nat} {host : Host} {caller v w : Machine}
  {rest : List Value} {bases : List Nat}

theorem Inside.depth_lt {depth : Nat} (h : exe.Inside host depth v w) :
    depth < w.frames.length := by
  cases h with
  | entered h => exact h
  | step _ _ h => exact h

/-- **All between an entry and the matching return** stands above the caller. -/
theorem Inside.above (h : exe.Inside host caller.frames.length v w) (hd : exe.Graded d)
    (hv : ∃ bases', exe.Reaches host v bases' ∧ Machine.Above caller rest bases v bases') :
    ∃ bases', exe.Reaches host w bases' ∧ Machine.Above caller rest bases w bases' := by
  induction h with
  | entered => exact hv
  | step hw hstep _ ih =>
    obtain ⟨bases', hreaches, habove⟩ := ih
    exact ⟨_, hreaches.step hstep, habove.step (hd.aligned hreaches) hd hw.depth_lt hstep⟩

end Executable

/-- A step that makes a call active is a call of a routine. -/
theorem Machine.step_enters {exe : Executable} {host : Host} {v v' : Machine}
    (h : v.step exe host = .next v') (hdepth : v.frames.length < v'.frames.length) :
    ∃ chunk count index r args rest, v.chunk? exe = some chunk ∧
      chunk.decode v.currentIp = .ok (.call count) ∧
      v.core.stack = .function index :: (args.reverse ++ rest) ∧ args.length = count.toNat ∧
      exe.routines[index]? = some r ∧
        v' = v.entered (v.currentIp + (Op.call count).size) index r args rest := by
  obtain ⟨chunk, op, hchunk, -, hop, hgoes⟩ := step_next h
  cases hgoes with
  | stays _ hstays _ => rw [hstays.length_frames] at hdepth; omega
  | @enters count index r args rest hcall hstack hargs hr =>
    subst hcall
    exact ⟨chunk, count, index, r, args, rest, hchunk, hop, hstack, hargs, hr, rfl⟩
  | leaves _ hframes _ =>
    rw [hframes, List.length_cons] at hdepth
    simp only [left] at hdepth
    omega

/-- **Calls are isolated.** Where a run of the executable of a text without errors enters a routine
with some arguments, the caller will go on behind the call. As long as the call is active, all older
calls are those of the caller, the top level will go on where it would have, and the operands below
the arguments are at the bottom of the stack; and the return from it leads to the caller with one
result on these operands, where only the variables of the program and the world may have changed. -/
theorem call_isolation {s : Settings} {source : String} {code : LabelCode}
    (h : s.labelCode source = .ok code) (order : ByteOrder) :
    ∃ exe, s.executable order source = .ok exe ∧
      (exe.Short → ∀ host v bases v₁, exe.Reaches host v bases →
      v.step exe host = .next v₁ → v.frames.length < v₁.frames.length →
      ∃ (chunk : Chunk) (count : UInt8) (index : Nat) (args rest : List Value) (caller : Machine),
        v.chunk? exe = some chunk ∧ chunk.decode v.currentIp = .ok (.call count) ∧
        args.length = count.toNat ∧
        v.core.stack = .function index :: (args.reverse ++ rest) ∧ v₁.core.stack = rest ∧
        caller = v.jump (v.currentIp + (Op.call count).size) ∧
        (∀ w, exe.Inside host v.frames.length v₁ w → w.ip = caller.ip ∧
          (∃ inner, inner ≠ [] ∧ w.frames = inner ++ caller.frames) ∧
            ∃ above, w.core.stack = above ++ rest) ∧
        ∀ w u, exe.Inside host v.frames.length v₁ w → w.step exe host = .next u →
          u.frames.length ≤ v.frames.length →
          ∃ result, u =
            { caller with core := ⟨result :: rest, u.core.world⟩, globals := u.globals }) := by
  obtain ⟨exe, p, lowered, hexe, hl, ha⟩ := Settings.executable_of_labelCode h order
  refine ⟨exe, hexe, fun hshort host v bases v₁ hv hstep hdepth => ?_⟩
  obtain ⟨d, hd⟩ := hl.graded ha hshort
  obtain ⟨chunk, count, index, r, args, rest, hchunk, hop, hstack, hargs, hr, rfl⟩ :=
    Machine.step_enters hstep hdepth
  have hcaller := (hd.aligned hv).caller hd hchunk hop hstack hargs
  generalize hc : v.jump (v.currentIp + (Op.call count).size) = caller at hcaller
  have hlength : caller.frames.length = v.frames.length := by rw [← hc, v.length_frames_jump]
  have hcharged : v.charged = caller.charged := by rw [← hc, v.charged_jump]
  have hentry : ∃ bases',
      exe.Reaches host (v.entered (v.currentIp + (Op.call count).size) index r args rest) bases' ∧
      Machine.Above caller rest bases (v.entered (v.currentIp + (Op.call count).size) index
      r args rest) bases' := by
    refine ⟨_, hv.step hstep, ?_⟩
    rw [Machine.rebase_enters (congrArg (· + 1) (v.length_frames_jump _)), Machine.entered, hc]
    refine ⟨rfl, ⟨[_], rfl⟩, ⟨[], rfl⟩, [rest.length], rfl, ?_,
      List.forall_mem_singleton.2 (Nat.le_refl _)⟩
    rw [List.length_cons, List.length_singleton, Nat.add_comm]
  rw [← hlength]
  refine ⟨chunk, count, index, args, rest, caller, hchunk, hop, hargs, hstack, rfl, hc.symm,
    fun w hw => ?_, fun w u hw hu hback => ?_⟩
  · obtain ⟨bases', -, habove⟩ := hw.above hd hentry
    obtain ⟨inner, hinner⟩ := habove.frames
    refine ⟨habove.ip, ⟨inner, fun hnil => ?_, hinner⟩, habove.stack⟩
    have := hw.depth_lt
    rw [hinner, hnil, List.nil_append] at this
    omega
  · obtain ⟨bases', hreaches, habove⟩ := hw.above hd hentry
    have hafter := habove.step (hd.aligned hreaches) hd hw.depth_lt hu
    exact hafter.back (hd.aligned (hreaches.step hu)) (hcharged ▸ hcaller) hback

/-- A call in an array literal that makes calls in turn. -/
def nestedSource : String :=
  "function g(a) \x7b return [a]; \x7d function f(a, b) \x7b return g([b, g(a)]); \x7d " ++
    "var x = [7, f(1, 2), 8];"

theorem call_isolation_nested :
    ∃ code exe v bases v₁, ∃ rest :
    List Value, Settings.standard.labelCode nestedSource = .ok code ∧
      Settings.standard.executable .little nestedSource = .ok exe ∧ exe.Short ∧
      exe.Reaches ⟨fun _ => .zero, .accepting, 1024⟩ v bases ∧
      v.step exe ⟨fun _ => .zero, .accepting, 1024⟩ = .next v₁ ∧
      v.frames.length < v₁.frames.length ∧
      v.core.stack.length = 4 ∧ rest <:+ v.core.stack ∧ rest.length = 1 ∧
      ∀ w, exe.Inside ⟨fun _ => .zero, .accepting, 1024⟩ v.frames.length v₁ w →
        rest <:+ w.core.stack := by
  have hrun : ((Settings.standard.executable .little nestedSource).toOption.map fun exe =>
      decide exe.Short &&
        (let run := (Machine.load exe .empty).run exe ⟨fun _ => .zero, .accepting, 1024⟩
        let v := (run 10).machine
        let v₁ := (run 11).machine
        decide (run 10 = .outOfFuel v ∧ v.step exe ⟨fun _ => .zero, .accepting, 1024⟩ = .next v₁ ∧
          v.frames.length < v₁.frames.length ∧ v.core.stack.length = 4 ∧
          v₁.core.stack.length = 1))) = some true := by
    decide +kernel
  obtain ⟨code, exe, hcode, hexe, hshort, hrun⟩ := Settings.exists_short_executable hrun
  obtain ⟨exe', hexe', hisolated⟩ := call_isolation hcode .little
  cases hexe.symm.trans hexe'
  obtain ⟨hv, hv₁, hdepth, hfour, hone⟩ := of_decide_eq_true hrun
  obtain ⟨bases, hreaches⟩ := Executable.Reaches.load.steps (Machine.steps_of_run hv)
  obtain ⟨chunk, count, index, args, rest, caller, -, -, -, hstack, hrest, -, hinside, -⟩ :=
    hisolated hshort _ _ bases _ hreaches hv₁ hdepth
  refine ⟨code, exe, _, bases, _, rest, hcode, hexe, hshort, hreaches, hv₁, hdepth, hfour, ?_,
    hrest ▸ hone, fun w hw => ?_⟩
  · exact ⟨.function index :: args.reverse, hstack.symm⟩
  · obtain ⟨-, -, above, habove⟩ := hinside w hw
    exact ⟨above, habove.symm⟩

end Stackscript
