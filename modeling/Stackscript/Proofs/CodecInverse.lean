import Stackscript.Proofs.Codec

/-!
# Listing and writing are inverse

A chunk of instructions lists as these instructions, each at the sum of the sizes before it.
Conversely, bytes that can be listed are the bytes of the instructions listed, with nothing between
them and nothing left over.

* `ByteOrder.split_join`, `Opcode.byte_of_ofByte?`: bytes are those of what they stand for;
* **`Chunk.holds_of_decode`**: where an instruction is decoded stand its bytes;
* `Chunk.located`, `Chunk.instructions_eq_located`, `Chunk.instructionsFrom_spec`;
* **`Chunk.listing_roundTrip`**.
-/

namespace Stackscript

/-! ## Bytes as numbers -/

namespace ByteOrder

theorem digits_ofDigits (bytes : List UInt8) : digits bytes.length (ofDigits bytes) = bytes := by
  induction bytes with
  | nil => rfl
  | cons b bytes ih =>
    have hb := b.toNat_lt
    have hrest : (b.toNat + 256 * ofDigits bytes) / 256 = ofDigits bytes := by omega
    have hfirst : UInt8.ofNat (b.toNat + 256 * ofDigits bytes) = b := by
      apply UInt8.toNat_inj.1
      rw [UInt8.toNat_ofNat']
      omega
    rw [List.length_cons, ofDigits, digits, hrest, hfirst, ih]

theorem ofDigits_lt_capacity (bytes : List UInt8) : ofDigits bytes < capacity bytes.length := by
  induction bytes with
  | nil => exact Nat.one_pos
  | cons b bytes ih =>
    have hb := b.toNat_lt
    rw [ofDigits, List.length_cons, capacity]
    omega

theorem split_join (order : ByteOrder) (bytes : List UInt8) :
    order.split bytes.length (order.join bytes) = bytes := by
  cases order with
  | little => exact digits_ofDigits bytes
  | big =>
    have h := digits_ofDigits bytes.reverse
    rw [List.length_reverse] at h
    rw [split, join, h, List.reverse_reverse]

theorem join_lt_capacity (order : ByteOrder) (bytes : List UInt8) :
    order.join bytes < capacity bytes.length := by
  cases order with
  | little => exact ofDigits_lt_capacity bytes
  | big => simpa [join] using ofDigits_lt_capacity bytes.reverse

end ByteOrder

theorem Opcode.byte_of_ofByte? {b : UInt8} {o : Opcode} (h : Opcode.ofByte? b = some o) :
    o.byte = b := by
  have hall : ∀ k : Fin Opcode.all.size, Opcode.all[k].byte.toNat = k := by decide
  obtain ⟨hlt, rfl⟩ := Array.getElem?_eq_some_iff.1 h
  exact UInt8.toNat_inj.1 (hall ⟨b.toNat, hlt⟩)

theorem BinaryOperator.tag_of_ofTag? {t : UInt8} {op : BinaryOperator}
    (h : BinaryOperator.ofTag? t = some op) : op.tag = t := by
  have hall : ∀ k : Fin BinaryOperator.all.length, BinaryOperator.all[k].tag.toNat = k := by decide
  obtain ⟨hlt, rfl⟩ := List.getElem?_eq_some_iff.1 h
  exact UInt8.toNat_inj.1 (hall ⟨t.toNat, hlt⟩)

theorem UnaryOperator.tag_of_ofTag? {t : UInt8} {op : UnaryOperator}
    (h : UnaryOperator.ofTag? t = some op) : op.tag = t := by
  have hall : ∀ k : Fin UnaryOperator.all.length, UnaryOperator.all[k].tag.toNat = k := by decide
  obtain ⟨hlt, rfl⟩ := List.getElem?_eq_some_iff.1 h
  exact UInt8.toNat_inj.1 (hall ⟨t.toNat, hlt⟩)

/-! ## What is decoded stands in the chunk -/

namespace Chunk

variable {c : Chunk} {offset : Nat}

theorem holds_nil : c.Holds offset [] := nofun

theorem Holds.cons {b : UInt8} {bytes : List UInt8} (hb : c.byte? offset = some b)
    (h : c.Holds (offset + 1) bytes) : c.Holds offset (b :: bytes) := by
  intro i b' hi
  cases i with
  | zero =>
    cases hi
    exact hb
  | succ i =>
    rw [Nat.add_comm i 1, ← Nat.add_assoc]
    exact h i b' hi

theorem bytes?_eq_some {width : Nat} {bytes : List UInt8} (h : c.bytes? offset width = some bytes) :
    bytes.length = width ∧ c.Holds offset bytes := by
  induction width generalizing offset bytes with
  | zero =>
    cases h
    exact ⟨rfl, holds_nil⟩
  | succ width ih =>
    rw [bytes?] at h
    cases hb : c.code[offset]? with
    | none =>
      rw [hb] at h
      cases h
    | some b =>
      rw [hb] at h
      obtain ⟨rest, hrest, rfl⟩ := Option.map_eq_some_iff.1 h
      obtain ⟨hlength, hholds⟩ := ih hrest
      exact ⟨congrArg Nat.succ hlength, .cons hb hholds⟩

theorem holds_of_word? {w : UInt32} (h : c.word? offset = some w) :
    c.Holds offset (c.order.split 4 w.toNat) := by
  obtain ⟨bytes, hbytes, rfl⟩ := Option.map_eq_some_iff.1 h
  obtain ⟨hlength, hholds⟩ := bytes?_eq_some hbytes
  have hlt := c.order.join_lt_capacity bytes
  rw [hlength] at hlt
  rw [UInt32.toNat_ofNat_of_lt' hlt, ← hlength, ByteOrder.split_join]
  exact hholds

theorem holds_of_number? {n : Number} (h : c.number? offset = some n) :
    c.Holds offset (c.order.split 8 n.bits.toNat) := by
  obtain ⟨bytes, hbytes, rfl⟩ := Option.map_eq_some_iff.1 h
  obtain ⟨hlength, hholds⟩ := bytes?_eq_some hbytes
  have hlt := c.order.join_lt_capacity bytes
  rw [hlength] at hlt
  rw [UInt64.toNat_ofNat_of_lt' hlt, ← hlength, ByteOrder.split_join]
  exact hholds

theorem withWord_eq_ok {make : UInt32 → Op} {op : Op} (h : c.withWord offset make = .ok op) :
    ∃ w, op = make w ∧ c.Holds offset (c.order.split 4 w.toNat) := by
  unfold withWord at h
  cases hw : c.word? offset with
  | none =>
    rw [hw] at h
    cases h
  | some w =>
    rw [hw] at h
    cases h
    exact ⟨w, rfl, holds_of_word? hw⟩

/-- **Where an instruction is decoded stand its bytes.** -/
theorem holds_of_decode {op : Op} (h : c.decode offset = .ok op) :
    c.Holds offset (op.encode c.order) := by
  unfold decode at h
  cases hb : c.byte? offset with
  | none =>
    rw [hb] at h
    cases h
  | some b =>
    simp only [hb] at h
    cases ho : Opcode.ofByte? b with
    | none =>
      rw [ho] at h
      cases h
    | some o =>
      obtain rfl := Opcode.byte_of_ofByte? ho
      simp only [ho] at h
      cases o with
      | goto | popJumpIfZero | popJumpIfNonzero | loadConst | makeArray | loadGlobal | storeGlobal
      | loadFrameVar
      | storeFrameVar | loadNative =>
        obtain ⟨w, rfl, hw⟩ := withWord_eq_ok h
        exact .cons hb hw
      | binaryOp =>
        cases ht : c.byte? (offset + 1) with
        | none => simp [ht] at h
        | some t =>
          cases hop : BinaryOperator.ofTag? t with
          | none => simp [ht, hop] at h
          | some op' =>
            obtain rfl : Op.binary op' = op := by simpa [ht, hop] using h
            obtain rfl := BinaryOperator.tag_of_ofTag? hop
            exact .cons hb (.cons ht holds_nil)
      | unaryOp =>
        cases ht : c.byte? (offset + 1) with
        | none => simp [ht] at h
        | some t =>
          cases hop : UnaryOperator.ofTag? t with
          | none => simp [ht, hop] at h
          | some op' =>
            obtain rfl : Op.unary op' = op := by simpa [ht, hop] using h
            obtain rfl := UnaryOperator.tag_of_ofTag? hop
            exact .cons hb (.cons ht holds_nil)
      | call =>
        cases hn : c.byte? (offset + 1) with
        | none => simp [hn] at h
        | some n =>
          obtain rfl : Op.call n = op := by simpa [hn] using h
          exact .cons hb (.cons hn holds_nil)
      | number =>
        cases hn : c.number? (offset + 1) with
        | none => simp [hn] at h
        | some n =>
          obtain rfl : Op.number n = op := by simpa [hn] using h
          exact .cons hb (holds_of_number? hn)
      | pop | pushTrue | pushFalse | pushNull | getIndex | setIndex | ret | makeFunction | exit =>
        cases h
        exact .cons hb holds_nil

/-- The bytes from an offset on start with those that stand there. -/
theorem Holds.drop_eq {bytes : List UInt8} (h : c.Holds offset bytes) :
    c.code.toList.drop offset = bytes ++ c.code.toList.drop (offset + bytes.length) := by
  induction bytes generalizing offset with
  | nil => rfl
  | cons b bytes ih =>
    have hb := h.head
    rw [← Array.getElem?_toList] at hb
    obtain ⟨hlt, rfl⟩ := List.getElem?_eq_some_iff.1 hb
    rw [List.drop_eq_getElem_cons hlt, ih h.tail, List.length_cons, Nat.add_assoc, Nat.add_comm 1]
    rfl

/-! ## Listings -/

/-- Instructions one after the other, each with the offset at which it starts. -/
def located : Nat → List Op → List (Nat × Op)
  | _, [] => []
  | offset, op :: ops => (offset, op) :: located (offset + op.size) ops

theorem getElem?_located (offset : Nat) (ops : List Op) (n : Nat) :
    (located offset ops)[n]? = ops[n]?.map fun op => (offset + opsSize (ops.take n), op) := by
  induction ops generalizing offset n with
  | nil => rfl
  | cons op ops ih =>
    cases n with
    | zero => rfl
    | succ n =>
      rw [located, List.getElem?_cons_succ, List.getElem?_cons_succ, ih, List.take_succ_cons,
        opsSize_cons, Nat.add_assoc]

theorem mem_located {ops : List Op} {offset : Nat} {op : Op} :
    (offset, op) ∈ located 0 ops ↔ ∃ n, offset = opsSize (ops.take n) ∧ ops[n]? = some op := by
  simp only [List.mem_iff_getElem?, getElem?_located, Nat.zero_add,
    Option.map_eq_some_iff, Prod.mk.injEq]
  exact exists_congr fun n => ⟨fun ⟨_, hop, hoffset, heq⟩ => ⟨hoffset.symm, heq ▸ hop⟩,
    fun ⟨hoffset, hop⟩ => ⟨op, hop, hoffset.symm, rfl⟩⟩

/-- From the offset of an instruction on, a chunk lists the instructions that are left. -/
theorem instructionsFrom_ofOps (order : ByteOrder) (done ops : List Op) :
    (ofOps order (done ++ ops)).instructionsFrom (opsSize done) =
      .ok (located (opsSize done) ops) := by
  induction ops generalizing done with
  | nil =>
    rw [instructionsFrom, if_neg, located]
    rw [size_ofOps, List.append_nil]
    exact Nat.lt_irrefl _
  | cons op ops ih =>
    have hop : (done ++ op :: ops)[done.length]? = some op := by simp
    have hdecode : (ofOps order (done ++ op :: ops)).decode _ = _ := decode_ofOps hop
    have hlt := opsSize_take_lt hop
    have hrest := ih (done ++ [op])
    rw [List.take_left] at hdecode hlt
    rw [List.append_assoc, List.singleton_append, opsSize_append, opsSize_cons] at hrest
    rw [instructionsFrom, if_pos (by rwa [size_ofOps]), hdecode]
    simp only
    rw [show opsSize done + op.size = opsSize done + (op.size + opsSize []) from rfl, hrest]
    rfl

/-- **A chunk of instructions lists as these instructions.** -/
theorem instructions_eq_located (order : ByteOrder) (ops : List Op) :
    (ofOps order ops).instructions = .ok (located 0 ops) := instructionsFrom_ofOps order [] ops

/-- What is listed from an offset on is all that stands there. -/
theorem instructionsFrom_spec {listed : List (Nat × Op)}
    (h : c.instructionsFrom offset = .ok listed) (hle : offset ≤ c.size) :
    ∃ ops, listed = located offset ops ∧
      c.code.toList.drop offset = ops.flatMap (Op.encode c.order) := by
  fun_induction instructionsFrom c offset generalizing listed with
  | case1 => cases h
  | case2 => cases h
  | case3 offset hlt op hdecode rest hrest ih =>
    cases h
    have hholds := (holds_of_decode hdecode).drop_eq
    rw [Op.length_encode] at hholds
    have hfits : offset + op.size ≤ c.size := by
      have hlength := congrArg List.length hholds
      rw [List.length_append, Op.length_encode, List.length_drop, List.length_drop,
        Array.length_toList] at hlength
      unfold size at hlt ⊢
      omega
    obtain ⟨ops, rfl, hops⟩ := ih hrest hfits
    exact ⟨op :: ops, rfl, by rw [hholds, hops, List.flatMap_cons]⟩
  | case4 offset hend =>
    cases h
    have : c.code.size ≤ offset := Nat.le_of_not_lt hend
    exact ⟨[], rfl, by simp [this]⟩

/-- **Writing and listing are inverse**, in either byte order. Instructions that are written are
listed again, each at the sum of the sizes before it; and bytes that can be listed end where the
last instruction does, and are those of the instructions listed. -/
theorem listing_roundTrip (order : ByteOrder) :
    (∀ ops, (ofOps order ops).instructions = .ok (located 0 ops)) ∧
      ∀ code listed, instructions ⟨order, code⟩ = .ok listed →
        ∃ ops, listed = located 0 ops ∧ opsSize ops = code.size ∧
          ofOps order ops = ⟨order, code⟩ := by
  refine ⟨instructions_eq_located order, fun code listed h => ?_⟩
  obtain ⟨ops, rfl, hops⟩ := instructionsFrom_spec h (Nat.zero_le _)
  have hcode : (ofOps order ops).code = code := by
    apply Array.toList_inj.1
    rw [code_ofOps]
    exact hops.symm
  refine ⟨ops, rfl, ?_, ?_⟩
  · rw [← size_ofOps order, size, hcode]
  · rw [← hcode]
    exact congrArg (Chunk.mk · _) (order_ofOps order ops)

/-- Bytes in which every width of operand occurs. -/
theorem listing_roundTrip_wide :
    instructions ⟨.big, #[9, 127, 240, 0, 0, 0, 0, 0, 1, 14, 255, 1, 0, 0, 1, 0, 5, 1, 22]⟩ =
        .ok [(0, .number ⟨0x7ff0000000000001⟩), (9, .call 255), (11, .goto 256),
          (16, .unary .not), (18, .exit)] ∧
      ∃ ops, [(0, .number ⟨0x7ff0000000000001⟩), (9, .call 255), (11, .goto 256), (16, .unary .not),
          (18, .exit)] = located 0 ops ∧ opsSize ops = 19 ∧
        ofOps .big ops =
          ⟨.big, #[9, 127, 240, 0, 0, 0, 0, 0, 1, 14, 255, 1, 0, 0, 1, 0, 5, 1, 22]⟩ := by
  have h : instructions ⟨.big, #[9, 127, 240, 0, 0, 0, 0, 0, 1, 14, 255, 1, 0, 0, 1, 0, 5, 1, 22]⟩ =
      .ok [(0, .number ⟨0x7ff0000000000001⟩), (9, .call 255), (11, .goto 256),
      (16, .unary .not), (18, .exit)] := by
    cbv
  exact ⟨h, (listing_roundTrip .big).2 _ _ h⟩

end Chunk

end Stackscript
