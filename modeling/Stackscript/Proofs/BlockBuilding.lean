import Stackscript.Proofs.ControlFlow

/-!
# Blocks by their history

A block is built by reserving names, starting labels and adding instructions, in any order. What it
is in the end can be read off the history: the instructions are those that were added, in order, and
a new label begins wherever one was started. Starting a label adds at most one instruction of its
own, the jump with which the label before is closed, and this depends only on what that label ends
in.

Names are counted by 32 bits. A history that reserves fewer than `2 ^ 32` names gets each of them
once; one that reserves more gets some of them again, unless overflow checks stop it there.

* `Block.Action`, `Block.act`, `Block.run`: histories; `Block.names`, the names they give out;
  `Block.Allows`, `Block.AllowsAll`: labels are started under names that have been given out;
* `Block.Action.cut`, `Block.Action.pieces`: the instructions that a history adds, cut where labels
  are started;
* `Block.closed`: the labels of some pieces, each of them closed by a jump to the next;
* `Block.Named`: each name is used once; `named_act`, `named_run`, for a counter that never runs
  out;
* `Block.Agrees`, **`Block.agrees_run`**: below `2 ^ 32` names the counter of 32 bits does the same;
  `Block.run?`, `run?_eq_some_iff`: with overflow checks;
* `labels_run_last`, **`labels_run`**: the labels after a history;
* `Block.BuiltBy`, **`Block.builtBy_run`**; `Block.labelIds_wrapping`.
-/

namespace Stackscript

namespace Block

variable {C : Type} [LabelCounter C]

/-! ## Histories -/

/-- What can be done with a block. -/
inductive Action where
  | reserve
  | fresh
  | bind (id : LabelId)
  | add (i : Instr)
deriving DecidableEq

/-- The block after an action. -/
def act (b : Block C) : Action → Block C
  | .reserve => b.reserve.2
  | .fresh => b.fresh.2
  | .bind id => b.bind id
  | .add i => b.add i

/-- The block after a history. -/
def run (b : Block C) (as : List Action) : Block C := as.foldl act b

/-- The name that an action gives out, if it gives out one. -/
def given? (b : Block C) : Action → Option LabelId
  | .reserve | .fresh => some (LabelCounter.name b.nextLabel)
  | .add _ => if b.labels.isEmpty then some (LabelCounter.name b.nextLabel) else none
  | .bind _ => none

/-- The names that a history gives out, in order. -/
def names (b : Block C) : List Action → List LabelId
  | [] => []
  | a :: as => (b.given? a).toList ++ (b.act a).names as

/-- The action may be done: a label that is started under a given name has this name reserved, and
no label has been started under it. -/
def Allows (b : Block C) (reserved : List LabelId) : Action → Prop
  | .bind id => id ∈ reserved ∧ id ∉ b.labelIds
  | .reserve | .fresh | .add _ => True

/-- Each action of a history may be done when it is its turn. -/
def AllowsAll (b : Block C) (reserved : List LabelId) : List Action → Prop
  | [] => True
  | a :: as => b.Allows reserved a ∧ (b.act a).AllowsAll ((b.given? a).toList ++ reserved) as

instance (b : Block C) (reserved : List LabelId) : DecidablePred (b.Allows reserved)
  | .bind id => inferInstanceAs (Decidable (id ∈ reserved ∧ id ∉ b.labelIds))
  | .reserve | .fresh | .add _ => inferInstanceAs (Decidable True)

instance decidableAllowsAll (b : Block C) (reserved : List LabelId) :
    (as : List Action) → Decidable (b.AllowsAll reserved as)
  | [] => inferInstanceAs (Decidable True)
  | a :: as =>
    have := decidableAllowsAll (b.act a) ((b.given? a).toList ++ reserved) as
    inferInstanceAs (Decidable (b.Allows reserved a ∧
      (b.act a).AllowsAll ((b.given? a).toList ++ reserved) as))

namespace Action

/-- The instruction that an action adds. -/
def instr? : Action → Option Instr
  | .add i => some i
  | .reserve | .fresh | .bind _ => none

/-- **A history is cut where labels are started.** The result is the instructions that it adds
before that, and then the name of each label with the instructions that are added before the next
one is started. Names are counted from `next`. -/
def cut (next : C) : List Action → List Instr × List (LabelId × List Instr)
  | [] => ([], [])
  | .reserve :: as => cut (LabelCounter.next next) as
  | .fresh :: as =>
    ([], (LabelCounter.name next, (cut (LabelCounter.next next) as).1) ::
      (cut (LabelCounter.next next) as).2)
  | .bind id :: as => ([], (id, (cut next as).1) :: (cut next as).2)
  | .add i :: as => (i :: (cut next as).1, (cut next as).2)

/-- The labels of a history from a block without labels, each with the instructions that are added
to it. Instructions that are added before any label is started get a label of their own. -/
def pieces (next : C) : List Action → List (LabelId × List Instr)
  | .reserve :: as => pieces (LabelCounter.next next) as
  | .add i :: as =>
    (LabelCounter.name next, i :: (cut (LabelCounter.next next) as).1) ::
      (cut (LabelCounter.next next) as).2
  | as => (cut next as).2

end Action

/-- The code ends in an unconditional jump. -/
def endsInGoto (code : List Instr) : Bool :=
  match code.getLast? with
  | some (.goto _) => true
  | _ => false

/-- The code of a label, closed by a jump to the label behind it if there is one and the code does
not end in a jump. -/
def closedCode (code : List Instr) : Option LabelId → List Instr
  | some next => if endsInGoto code then code else code ++ [.goto next]
  | none => code

/-- **The labels of some pieces**, each closed by a jump to the next; `behind` is the name of the
label behind them all, if there is one. -/
def closed (behind : Option LabelId) : List (LabelId × List Instr) → List Label
  | [] => []
  | (id, code) :: ps =>
    ⟨id, (closedCode code ((ps.head?.map (·.1)).or behind)).toArray⟩ :: closed behind ps

/-! ## Names of a counter that never runs out -/

theorem labelIds_add_empty {b : Block C} (h : b.labels = #[]) (i : Instr) :
    (b.add i).labelIds = [LabelCounter.name b.nextLabel] := by
  rw [labelIds, labels_add_empty h]
  rfl

theorem nextLabel_add_empty {b : Block C} (h : b.labels = #[]) (i : Instr) :
    (b.add i).nextLabel = LabelCounter.next b.nextLabel := by
  simp [add, fresh, bind, reserve, h]

theorem given?_add_empty {b : Block C} (h : b.labels = #[]) (i : Instr) :
    b.given? (.add i) = some (LabelCounter.name b.nextLabel) := if_pos (by simp [h])

theorem given?_add {b : Block C} (h : b.labels ≠ #[]) (i : Instr) : b.given? (.add i) = none :=
  if_neg (by simpa using h)

/-- **Names are used once**, and all that are used or reserved have been given out. -/
structure Named (b : Block) (reserved : List LabelId) : Prop where
  distinct : b.labelIds.Nodup
  below : ∀ id ∈ b.labelIds, id < b.nextLabel
  reserved : ∀ id ∈ reserved, id < b.nextLabel

section Named

variable {b : Block} {reserved : List LabelId}

/-- Starting a label under a name that is not used. -/
theorem Named.bind (h : b.Named reserved) {id : LabelId} (hid : id < b.nextLabel)
    (hnew : id ∉ b.labelIds) : (b.bind id).Named reserved := by
  refine ⟨?_, ?_, h.reserved⟩
  · rw [labelIds_bind, List.nodup_append]
    refine ⟨h.distinct, List.pairwise_singleton _ id, ?_⟩
    rintro a ha _ hlast rfl
    cases List.mem_singleton.1 hlast
    exact hnew ha
  · rw [labelIds_bind]
    intro a ha
    obtain ha | ha := List.mem_append.1 ha
    · exact h.below a ha
    · cases List.mem_singleton.1 ha
      exact hid

theorem Named.reserve (h : b.Named reserved) : b.reserve.2.Named (b.nextLabel :: reserved) := by
  refine ⟨h.distinct, fun id hid => Nat.lt_succ_of_lt (h.below id hid), ?_⟩
  exact List.forall_mem_cons.2
    ⟨Nat.lt_succ_self b.nextLabel, fun id hid => Nat.lt_succ_of_lt (h.reserved id hid)⟩

/-- **Every action uses a new name**, if it uses one. -/
theorem named_act (h : b.Named reserved) {a : Action} (ha : b.Allows reserved a) :
    (b.act a).Named ((b.given? a).toList ++ reserved) := by
  cases a with
  | reserve => exact h.reserve
  | fresh =>
    apply h.reserve.bind (Nat.lt_succ_self b.nextLabel)
    intro hmem
    exact Nat.lt_irrefl _ (h.below _ hmem)
  | bind id => exact h.bind (h.reserved id ha.1) ha.2
  | add i =>
    by_cases hempty : b.labels = #[]
    · have hreserve := h.reserve
      rw [given?_add_empty hempty]
      refine ⟨?_, ?_, ?_⟩
      · rw [act, labelIds_add_empty hempty]
        exact List.pairwise_singleton _ _
      · rw [act, labelIds_add_empty hempty, nextLabel_add_empty hempty]
        exact List.forall_mem_singleton.2 (Nat.lt_succ_self b.nextLabel)
      · rw [act, nextLabel_add_empty hempty]
        exact hreserve.reserved
    · rw [given?_add hempty]
      refine ⟨?_, ?_, ?_⟩
      · rw [act, labelIds_add hempty]
        exact h.distinct
      · rw [act, labelIds_add hempty, nextLabel_add hempty]
        exact h.below
      · rw [act, nextLabel_add hempty]
        exact h.reserved

theorem named_run (h : b.Named reserved) {as : List Action} (has : b.AllowsAll reserved as) :
    ∃ reserved', (b.run as).Named reserved' := by
  induction as generalizing b reserved with
  | nil => exact ⟨reserved, h⟩
  | cons a as ih => exact ih (named_act h has.1) has.2

end Named

/-! ## Names of a counter of 32 bits -/

/-- The two blocks have the same labels, and their counters are at the same name. -/
structure Agrees (b : Block UInt32) (b' : Block) : Prop where
  labels : b'.labels = b.labels
  nextLabel : b'.nextLabel = b.nextLabel.toNat

section Agrees

variable {b : Block UInt32} {b' : Block}

theorem Agrees.labelIds (h : b.Agrees b') : b'.labelIds = b.labelIds := by
  rw [Block.labelIds, Block.labelIds, h.labels]

theorem Agrees.given? (h : b.Agrees b') (a : Action) : b'.given? a = b.given? a := by
  have hname : LabelCounter.name b'.nextLabel = LabelCounter.name b.nextLabel := h.nextLabel
  cases a <;> simp only [Block.given?, hname, h.labels]

theorem Agrees.allows (h : b.Agrees b') {reserved : List LabelId} {a : Action}
    (ha : b.Allows reserved a) : b'.Allows reserved a := by
  cases a with
  | bind id => exact ⟨ha.1, h.labelIds ▸ ha.2⟩
  | reserve | fresh | add => trivial

/-- A counter that is not at its last name counts on. -/
theorem toNat_next {c : UInt32} (h : c.toNat + 1 < UInt32.size) :
    (LabelCounter.next c).toNat = c.toNat + 1 := by
  show (c + 1).toNat = c.toNat + 1
  rw [UInt32.toNat_add]
  exact Nat.mod_eq_of_lt h

theorem Agrees.reserve (h : b.Agrees b') (hfits : b.nextLabel.toNat + 1 < UInt32.size) :
    b.reserve.2.Agrees b'.reserve.2 := by
  refine ⟨h.labels, ?_⟩
  show b'.nextLabel + 1 = (LabelCounter.next b.nextLabel).toNat
  rw [toNat_next hfits, h.nextLabel]

theorem Agrees.bind (h : b.Agrees b') (id : LabelId) : (b.bind id).Agrees (b'.bind id) :=
  ⟨by rw [Block.bind, Block.bind, h.labels], h.nextLabel⟩

theorem Agrees.fresh (h : b.Agrees b') (hfits : b.nextLabel.toNat + 1 < UInt32.size) :
    b.fresh.2.Agrees b'.fresh.2 := by
  have hbind := (h.reserve hfits).bind b'.nextLabel
  rwa [show b.reserve.2.bind b'.nextLabel = b.fresh.2 by rw [h.nextLabel]; rfl] at hbind

theorem Agrees.add (h : b.Agrees b') (hne : b.labels ≠ #[]) (i : Instr) :
    (b.add i).Agrees (b'.add i) := by
  have hne' : b'.labels ≠ #[] := h.labels ▸ hne
  refine ⟨?_, ?_⟩
  · rw [Block.add, if_neg (by simpa using hne'), Block.add, if_neg (by simpa using hne), h.labels]
  · rw [nextLabel_add hne, nextLabel_add hne', h.nextLabel]

/-- The counter after an action that does not need more names than there are left. -/
theorem toNat_nextLabel_act {a : Action}
    (hfits : b.nextLabel.toNat + (b.given? a).toList.length < UInt32.size) :
    (b.act a).nextLabel.toNat = b.nextLabel.toNat + (b.given? a).toList.length := by
  cases a with
  | reserve | fresh => exact toNat_next hfits
  | bind id => rfl
  | add i =>
    by_cases hempty : b.labels = #[]
    · rw [given?_add_empty hempty] at hfits ⊢
      rw [act, nextLabel_add_empty hempty]
      exact toNat_next hfits
    · rw [given?_add hempty, act, nextLabel_add hempty]
      rfl

/-- **An action does the same under both counters**, unless it needs a name and the counter of 32
bits is at its last one. -/
theorem agrees_act (h : b.Agrees b') {a : Action}
    (hfits : b.nextLabel.toNat + (b.given? a).toList.length < UInt32.size) :
    (b.act a).Agrees (b'.act a) := by
  cases a with
  | reserve => exact h.reserve hfits
  | fresh => exact h.fresh hfits
  | bind id => exact h.bind id
  | add i =>
    by_cases hempty : b.labels = #[]
    · rw [given?_add_empty hempty] at hfits
      rw [act, act, add_of_empty hempty, add_of_empty (h.labels.trans hempty)]
      exact (h.fresh hfits).add b.labels_fresh_ne i
    · exact h.add hempty i

/-- What is left of the names after the first action of a history. -/
theorem fits_cons {a : Action} {as : List Action} :
    b.nextLabel.toNat + (b.names (a :: as)).length < UInt32.size ↔
      b.nextLabel.toNat + (b.given? a).toList.length < UInt32.size ∧
        (b.act a).nextLabel.toNat + ((b.act a).names as).length < UInt32.size := by
  rw [names, List.length_append, ← Nat.add_assoc]
  constructor
  · intro h
    have hfits := Nat.lt_of_le_of_lt (Nat.le_add_right _ _) h
    exact ⟨hfits, by rw [toNat_nextLabel_act hfits]; exact h⟩
  · rintro ⟨hfits, h⟩
    rwa [toNat_nextLabel_act hfits] at h

/-- **A history does the same under both counters** if it does not need more names than the counter
of 32 bits has left. -/
theorem agrees_run (h : b.Agrees b') (as : List Action)
    (hfits : b.nextLabel.toNat + (b.names as).length < UInt32.size) :
    (b.run as).Agrees (b'.run as) := by
  induction as generalizing b b' with
  | nil => exact h
  | cons a as ih =>
    obtain ⟨hact, hrest⟩ := fits_cons.1 hfits
    exact ih (agrees_act h hact) hrest

theorem Agrees.allowsAll (h : b.Agrees b') {reserved : List LabelId} {as : List Action}
    (hfits : b.nextLabel.toNat + (b.names as).length < UInt32.size)
    (has : b.AllowsAll reserved as) : b'.AllowsAll reserved as := by
  induction as generalizing b b' reserved with
  | nil => trivial
  | cons a as ih =>
    obtain ⟨hact, hrest⟩ := fits_cons.1 hfits
    refine ⟨h.allows has.1, ?_⟩
    rw [h.given? a]
    exact ih (agrees_act h hact) hrest has.2

end Agrees

/-- The block after an action, where an overflow of the counter stops the program. -/
def act? (b : Block UInt32) (a : Action) : Option (Block UInt32) :=
  if (b.given? a).isSome ∧ b.nextLabel.toNat + 1 = UInt32.size then none else some (b.act a)

/-- The block after a history, where an overflow of the counter stops the program. -/
def run? (b : Block UInt32) (as : List Action) : Option (Block UInt32) := as.foldlM act? b

theorem act?_eq_some_iff {b b' : Block UInt32} {a : Action} : b.act? a = some b' ↔
    b.nextLabel.toNat + (b.given? a).toList.length < UInt32.size ∧ b.act a = b' := by
  have hlt : b.nextLabel.toNat < UInt32.size := b.nextLabel.toNat_lt
  have hsize : (b.given? a).toList.length = if (b.given? a).isSome then 1 else 0 := by
    cases b.given? a <;> rfl
  rw [act?, hsize]
  cases hgiven : (b.given? a).isSome with
  | false => simp [hlt]
  | true =>
    have hne : b.nextLabel.toNat + 1 < UInt32.size ↔ ¬ b.nextLabel.toNat + 1 = UInt32.size := by
      omega
    simp only [true_and, if_true, hne]
    split <;> simp [*]

/-- **With overflow checks** a history goes through exactly if it needs fewer names than the counter
has left, and the block is the same. -/
theorem run?_eq_some_iff {b b' : Block UInt32} {as : List Action} : b.run? as = some b' ↔
    b.nextLabel.toNat + (b.names as).length < UInt32.size ∧ b.run as = b' := by
  induction as generalizing b with
  | nil =>
    have hlt : b.nextLabel.toNat < UInt32.size := b.nextLabel.toNat_lt
    simp [run?, run, names, hlt]
  | cons a as ih =>
    rw [run?, List.foldlM_cons, Option.bind_eq_bind, Option.bind_eq_some_iff, fits_cons, and_assoc]
    constructor
    · rintro ⟨b₁, hact, hrest⟩
      obtain ⟨hfits, rfl⟩ := act?_eq_some_iff.1 hact
      exact ⟨hfits, ih.1 hrest⟩
    · rintro ⟨hfits, hrest⟩
      exact ⟨b.act a, act?_eq_some_iff.2 ⟨hfits, rfl⟩, ih.2 hrest⟩

/-! ## Labels -/

theorem endsInGoto_iff {code : List Instr} :
    endsInGoto code = true ↔ ∃ t, code.getLast? = some (.goto t) := by
  unfold endsInGoto
  split
  · next t h => simp [h]
  · next h =>
    simp only [Bool.false_eq_true, false_iff]
    rintro ⟨t, ht⟩
    exact h t ht

/-- Closing a label is closing its code. -/
theorem close_eq (id next : LabelId) (code : List Instr) :
    Label.close next ⟨id, code.toArray⟩ = ⟨id, (closedCode code (some next)).toArray⟩ := by
  unfold Label.close
  rw [List.back?_toArray, closedCode]
  split
  · next t h => rw [if_pos (endsInGoto_iff.2 ⟨t, h⟩)]
  · next h =>
    have hopen : ¬ endsInGoto code = true := by
      rw [endsInGoto_iff]
      rintro ⟨t, ht⟩
      exact h t ht
    rw [if_neg hopen]
    simp [Label.push]

theorem closed_append (behind : Option LabelId) (ps qs : List (LabelId × List Instr)) :
    closed behind (ps ++ qs) = closed ((qs.head?.map (·.1)).or behind) ps ++ closed behind qs := by
  induction ps with
  | nil => rfl
  | cons p ps ih =>
    rw [List.cons_append, closed, closed, ih, List.cons_append]
    cases ps <;> simp

/-- **The labels after a history**, from a block that has some: what the history adds goes to the
last label, up to where it starts another. -/
theorem labels_run_last {b : Block C} {ps : List (LabelId × List Instr)} {id : LabelId}
    {code : List Instr}
    (h : b.labels.toList = closed none (ps ++ [(id, code)])) (as : List Action) :
    (b.run as).labels.toList =
      closed none (ps ++ (id, code ++ (Action.cut b.nextLabel as).1) ::
        (Action.cut b.nextLabel as).2) := by
  induction as generalizing b ps id code with
  | nil =>
    rw [Action.cut, List.append_nil]
    exact h
  | cons a as ih =>
    have hlast : b.labels.toList = closed (some id) ps ++ [⟨id, code.toArray⟩] := by
      rw [h, closed_append]; rfl
    have hsize : b.labels.size - 1 = (closed (some id) ps).length := by
      rw [← Array.length_toList, hlast]; simp
    have hne : b.labels ≠ #[] := by
      rintro hempty
      rw [hempty] at hlast
      simp at hlast
    have hbind : ∀ b' : Block C, b'.labels = b.labels → ∀ next, (b'.bind next).labels.toList =
        closed none ((ps ++ [(id, code)]) ++ [(next, [])]) := by
      intro b' hb' next
      rw [labels_bind (by rw [hb', hlast]) (by rw [hb', hsize]), close_eq,
        List.append_assoc, closed_append]
      rfl
    cases a with
    | reserve => exact ih h
    | fresh =>
      have hfresh := ih (hbind b.reserve.2 rfl (LabelCounter.name b.nextLabel))
      rw [Action.cut, List.append_nil, List.append_cons]
      exact hfresh
    | bind next =>
      have hnext := ih (hbind b rfl next)
      rw [Action.cut, List.append_nil, List.append_cons]
      exact hnext
    | add i =>
      have hadd : (b.add i).labels.toList = closed none (ps ++ [(id, code ++ [i])]) := by
        rw [labels_add hlast hsize, closed_append]
        simp [Label.push, closed, closedCode]
      have hcode := ih hadd
      rw [nextLabel_add hne, List.append_assoc] at hcode
      exact hcode

/-- **The labels after a history**, from a block without labels. -/
theorem labels_run {b : Block C} (h : b.labels = #[]) (as : List Action) :
    (b.run as).labels.toList = closed none (Action.pieces b.nextLabel as) := by
  have hbind : ∀ next, (b.bind next).labels.toList = closed none ([] ++ [(next, [])]) := by
    intro next
    simp [bind, h, closed, closedCode]
  induction as generalizing b with
  | nil =>
    rw [run, List.foldl_nil, h]
    rfl
  | cons a as ih =>
    cases a with
    | reserve => exact ih h hbind
    | fresh => exact labels_run_last (b := b.fresh.2) (hbind (LabelCounter.name b.nextLabel)) as
    | bind next => exact labels_run_last (hbind next) as
    | add i =>
      have hadd : (b.add i).labels.toList =
          closed none ([] ++ [(LabelCounter.name b.nextLabel, [i])]) := by
        rw [labels_add_empty h]
        simp [Label.push, closed, closedCode]
      have hcode := labels_run_last hadd as
      rw [nextLabel_add_empty h] at hcode
      exact hcode

/-! ## The block in the end -/

theorem instrs_cut (next : C) (as : List Action) :
    (Action.cut next as).1 ++ (Action.cut next as).2.flatMap (·.2) =
      as.filterMap Action.instr? := by
  induction as generalizing next with
  | nil => rfl
  | cons a as ih =>
    cases a with
    | reserve => exact ih (LabelCounter.next next)
    | fresh => exact ih (LabelCounter.next next)
    | bind id => exact ih next
    | add i => exact congrArg _ (ih next)

/-- The pieces of a history hold all that it adds, in order. -/
theorem instrs_pieces (next : C) (as : List Action) :
    (Action.pieces next as).flatMap (·.2) = as.filterMap Action.instr? := by
  induction as generalizing next with
  | nil => rfl
  | cons a as ih =>
    cases a with
    | reserve => exact ih (LabelCounter.next next)
    | fresh => exact instrs_cut (LabelCounter.next next) as
    | bind id => exact instrs_cut next as
    | add i => exact congrArg _ (instrs_cut (LabelCounter.next next) as)

/-- Code with a label behind it is closed. -/
theorem endsInGoto_closedCode (code : List Instr) (next : LabelId) :
    endsInGoto (closedCode code (some next)) = true := by
  rw [closedCode]
  split
  · next h => exact h
  · exact endsInGoto_iff.2 ⟨next, List.getLast?_concat⟩

theorem endsInGoto_closed (ps : List (LabelId × List Instr)) :
    ∀ l ∈ (closed none ps).dropLast, endsInGoto l.code.toList = true := by
  induction ps with
  | nil =>
    intro l hl
    cases hl
  | cons p ps ih =>
    obtain ⟨id, code⟩ := p
    cases ps with
    | nil =>
      intro l hl
      cases hl
    | cons q ps =>
      have hne : closed none (q :: ps) ≠ [] := List.cons_ne_nil _ _
      rw [closed, List.dropLast_cons_of_ne_nil hne]
      exact List.forall_mem_cons.2 ⟨endsInGoto_closedCode code q.1, ih⟩

/-- **Folding never removes the jump that a label ends in.** -/
theorem endsInGoto_foldLabel {code : List Instr} (h : endsInGoto code = true) :
    endsInGoto (foldLabel code) = true := by
  obtain ⟨t, ht⟩ := endsInGoto_iff.1 h
  obtain ⟨init, rfl⟩ := List.getLast?_eq_some_iff.1 ht
  rw [foldLabel_concat (.inr (.inr ⟨t, rfl⟩))]
  exact endsInGoto_iff.2 ⟨t, List.getLast?_concat⟩

/-- **What a block is after a history**, from the block without labels.

* `distinct`, `below`: if the history reserves fewer than `2 ^ 32` names, no two labels have one
  name, and all names have been reserved. These are the histories that go through with overflow
  checks (`run?_eq_some_iff`); behind them names are given out again (`labelIds_wrapping`);
* `labels`, `added`: the labels are the pieces of the history, each but the last closed by a jump to
  the next if it does not end in a jump already, and the pieces hold the instructions that have been
  added, in order;
* `jumps`, `folded`: every label but the last ends in an unconditional jump, and so it does when the
  block is folded. -/
structure BuiltBy (b : Block UInt32) (as : List Action) : Prop where
  distinct : ((empty : Block UInt32).names as).length < UInt32.size →
    (b.labels.toList.map (·.id)).Nodup
  below : ((empty : Block UInt32).names as).length < UInt32.size →
    ∀ l ∈ b.labels.toList, l.id < b.nextLabel.toNat
  labels : b.labels.toList = closed none (Action.pieces (0 : UInt32) as)
  added : (Action.pieces (0 : UInt32) as).flatMap (·.2) = as.filterMap Action.instr?
  jumps : ∀ l ∈ b.labels.toList.dropLast, endsInGoto l.code.toList = true
  folded : ∀ l ∈ b.fold.labels.toList.dropLast, endsInGoto l.code.toList = true

/-- The names after a history that reserves fewer than `2 ^ 32` of them: no two labels have one, and
all are below the next one. -/
theorem named_run_word {as : List Action} (h : (empty : Block UInt32).AllowsAll [] as)
    (hfits : ((empty : Block UInt32).names as).length < UInt32.size) :
    ((empty : Block UInt32).run as).labelIds.Nodup ∧
      ∀ id ∈ ((empty : Block UInt32).run as).labelIds,
        id < ((empty : Block UInt32).run as).nextLabel.toNat := by
  have hstart : (empty : Block UInt32).Agrees empty := ⟨rfl, rfl⟩
  have hfits' : (empty : Block UInt32).nextLabel.toNat + ((empty : Block UInt32).names as).length <
      UInt32.size := by
    rw [show (empty : Block UInt32).nextLabel.toNat = 0 from rfl, Nat.zero_add]
    exact hfits
  have hempty : (empty : Block).Named [] :=
    ⟨List.Pairwise.nil, List.forall_mem_nil _, List.forall_mem_nil _⟩
  obtain ⟨reserved, hnamed⟩ := named_run hempty (hstart.allowsAll hfits' h)
  have hrun := agrees_run hstart as hfits'
  rw [← hrun.labelIds, ← hrun.nextLabel]
  exact ⟨hnamed.distinct, hnamed.below⟩

/-- **Every history builds what can be read off it**, if it starts labels only under names that are
reserved and not in use. -/
theorem builtBy_run (as : List Action) (h : (empty : Block UInt32).AllowsAll [] as) :
    ((empty : Block UInt32).run as).BuiltBy as := by
  have hlabels : ((empty : Block UInt32).run as).labels.toList =
      closed none (Action.pieces (0 : UInt32) as) := labels_run rfl as
  have hjumps : ∀ l ∈ ((empty : Block UInt32).run as).labels.toList.dropLast,
      endsInGoto l.code.toList = true := by
    rw [hlabels]
    exact endsInGoto_closed _
  refine ⟨fun hfits => (named_run_word h hfits).1, fun hfits l hl => ?_, hlabels,
    instrs_pieces 0 as, hjumps, ?_⟩
  · exact (named_run_word h hfits).2 l.id (List.mem_map_of_mem hl)
  · rw [labels_fold, Array.toList_map, ← List.map_dropLast]
    intro l hl
    obtain ⟨l', hl', rfl⟩ := List.mem_map.1 hl
    exact endsInGoto_foldLabel (hjumps l' hl')

/-- A history with a name that is used late, a conditional jump, an empty label and a jump of its
own. -/
def tangledHistory : List Action :=
  [.reserve, .add .pushFalse, .add (.popJumpIfZero 0), .fresh, .fresh, .add (.goto 0), .reserve,
    .bind 4, .bind 0, .add .exit]

theorem builtBy_run_tangled : (empty : Block UInt32).AllowsAll [] tangledHistory ∧
    ((empty : Block UInt32).names tangledHistory).length < UInt32.size ∧
      ((empty : Block UInt32).run tangledHistory).BuiltBy tangledHistory :=
  ⟨by decide, by decide, builtBy_run tangledHistory (by decide)⟩

/-! ## When the names run out -/

/-- A history that starts no label under a given name is allowed. -/
theorem allowsAll_of_no_bind {as : List Action} (h : ∀ a ∈ as, ∀ id, a ≠ .bind id) (b : Block C)
    (reserved : List LabelId) : b.AllowsAll reserved as := by
  induction as generalizing b reserved with
  | nil => trivial
  | cons a as ih =>
    refine ⟨?_, ih (fun a' ha' => h a' (List.mem_cons_of_mem a ha')) _ _⟩
    cases a with
    | bind id => exact absurd rfl (h (.bind id) List.mem_cons_self id)
    | reserve | fresh | add => trivial

/-- Reserving names changes only the counter. -/
theorem run_reserve (b : Block UInt32) (n : Nat) :
    b.run (.replicate n .reserve) = { b with nextLabel := b.nextLabel + UInt32.ofNat n } := by
  induction n generalizing b with
  | zero => simp [run]
  | succ n ih =>
    have hnext : b.nextLabel + 1 + UInt32.ofNat n = b.nextLabel + UInt32.ofNat (n + 1) := by
      rw [UInt32.ofNat_add, UInt32.add_assoc, UInt32.add_comm 1]
      rfl
    rw [← hnext]
    exact ih b.reserve.2

/-- Two labels, with some names reserved in between. -/
def spacedHistory (n : Nat) : List Action := .fresh :: (List.replicate n .reserve ++ [.fresh])

theorem allowsAll_spaced (n : Nat) : (empty : Block UInt32).AllowsAll [] (spacedHistory n) := by
  apply allowsAll_of_no_bind
  intro a ha id
  rcases List.mem_cons.1 ha with rfl | ha
  · nofun
  · rcases List.mem_append.1 ha with ha | ha
    · cases List.eq_of_mem_replicate ha
      nofun
    · cases List.mem_singleton.1 ha
      nofun

theorem labelIds_spaced (n : Nat) : ((empty : Block UInt32).run (spacedHistory n)).labelIds =
    [0, (1 + UInt32.ofNat n).toNat] := by
  rw [spacedHistory, run, List.foldl_cons, List.foldl_append]
  show (((empty : Block UInt32).fresh.2.run (List.replicate n .reserve)).act .fresh).labelIds = _
  rw [run_reserve]
  rfl

/-- **Behind its last name the counter starts again**, and a name that is in use is given out a
second time. -/
theorem labelIds_wrapping : (empty : Block UInt32).AllowsAll [] (spacedHistory (UInt32.size - 1)) ∧
    ((empty : Block UInt32).run (spacedHistory (UInt32.size - 1))).labelIds = [0, 0] :=
  ⟨allowsAll_spaced _, labelIds_spaced _⟩

end Block

end Stackscript
