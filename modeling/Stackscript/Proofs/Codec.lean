import Mathlib.Algebra.GroupWithZero.Nat
import Stackscript.Chunk.Decode

/-!
# Reading back what was written

A chunk of a list of instructions holds their bytes one after the other, and decoding at the offset
of an instruction gives the instruction.

* `ByteOrder.join_split`: bytes in either order stand for the number they were made from;
* `Chunk.Holds`, bytes that stand at an offset of a chunk;
* `Chunk.decode_of_holds`, **`Chunk.decode_ofOps`**, `Chunk.size_ofOps`.
-/

namespace Stackscript

/-! ## Numbers as bytes -/

namespace ByteOrder

/-- The number of different values of so many bytes. -/
def capacity : (width : Nat) → Nat
  | 0 => 1
  | width + 1 => 256 * capacity width

theorem length_digits (width n : Nat) : (digits width n).length = width := by
  induction width generalizing n with
  | zero => rfl
  | succ width ih => rw [digits, List.length_cons, ih]

theorem ofDigits_digits (width n : Nat) (h : n < capacity width) :
    ofDigits (digits width n) = n := by
  induction width generalizing n with
  | zero =>
    have : n = 0 := by simpa [capacity] using h
    simp [digits, ofDigits, this]
  | succ width ih =>
    rw [capacity] at h
    rw [digits, ofDigits, ih (n / 256) (by omega), UInt8.toNat_ofNat']
    exact Nat.mod_add_div n 256

theorem length_split (order : ByteOrder) (width n : Nat) :
    (order.split width n).length = width := by
  cases order
  · exact length_digits width n
  · rw [split, List.length_reverse, length_digits]

theorem join_split (order : ByteOrder) (width n : Nat) (h : n < capacity width) :
    order.join (order.split width n) = n := by
  cases order
  · exact ofDigits_digits width n h
  · rw [join, split, List.reverse_reverse, ofDigits_digits width n h]

end ByteOrder

theorem Op.length_encode (order : ByteOrder) (op : Op) : (op.encode order).length = op.size := by
  cases op <;>
    simp [Op.encode, Op.size, Op.opcode, Opcode.operandWidth, ByteOrder.length_split, Nat.add_comm]

@[simp]
theorem Opcode.ofByte?_byte (o : Opcode) : Opcode.ofByte? o.byte = some o := by
  cases o <;> rfl

@[simp]
theorem BinaryOperator.ofTag?_tag (op : BinaryOperator) :
    BinaryOperator.ofTag? op.tag = some op := by
  cases op <;> rfl

@[simp]
theorem UnaryOperator.ofTag?_tag (op : UnaryOperator) : UnaryOperator.ofTag? op.tag = some op := by
  cases op <;> rfl

/-! ## Bytes at an offset -/

namespace Chunk

/-- The bytes stand in the chunk at an offset. -/
def Holds (c : Chunk) (offset : Nat) (bytes : List UInt8) : Prop :=
  ∀ i b, bytes[i]? = some b → c.code[offset + i]? = some b

theorem Holds.tail {c : Chunk} {offset : Nat} {b : UInt8} {bytes : List UInt8}
    (h : c.Holds offset (b :: bytes)) : c.Holds (offset + 1) bytes := by
  intro i b' hb
  have := h (i + 1) b' (by simpa using hb)
  rwa [Nat.add_assoc, Nat.add_comm 1 i]

theorem Holds.head {c : Chunk} {offset : Nat} {b : UInt8} {bytes : List UInt8}
    (h : c.Holds offset (b :: bytes)) : c.code[offset]? = some b := h 0 b rfl

theorem Holds.bytes? {c : Chunk} {offset : Nat} {bytes : List UInt8} (h : c.Holds offset bytes) :
    c.bytes? offset bytes.length = some bytes := by
  induction bytes generalizing offset with
  | nil => rfl
  | cons b bytes ih =>
    rw [List.length_cons, Chunk.bytes?, h.head, ih h.tail]
    rfl

theorem Holds.word? {c : Chunk} {offset : Nat} {w : UInt32}
    (h : c.Holds offset (c.order.split 4 w.toNat)) : c.word? offset = some w := by
  have hw : w.toNat < ByteOrder.capacity 4 := w.toNat_lt
  have := h.bytes?
  rw [ByteOrder.length_split] at this
  rw [Chunk.word?, this, Option.map_some, ByteOrder.join_split _ _ _ hw, UInt32.ofNat_toNat]

theorem Holds.number? {c : Chunk} {offset : Nat} {n : Number}
    (h : c.Holds offset (c.order.split 8 n.bits.toNat)) : c.number? offset = some n := by
  have hn : n.bits.toNat < ByteOrder.capacity 8 := n.bits.toNat_lt
  have := h.bytes?
  rw [ByteOrder.length_split] at this
  rw [Chunk.number?, this, Option.map_some, ByteOrder.join_split _ _ _ hn, UInt64.ofNat_toNat]

theorem Holds.withWord {c : Chunk} {offset : Nat} {w : UInt32} {make : UInt32 → Op}
    (h : c.Holds offset (c.order.split 4 w.toNat)) : c.withWord offset make = .ok (make w) := by
  rw [Chunk.withWord, h.word?]

/-- **The bytes of an instruction decode to it.** -/
theorem decode_of_holds {c : Chunk} {offset : Nat} {op : Op}
    (h : c.Holds offset (op.encode c.order)) : c.decode offset = .ok op := by
  unfold Op.encode at h
  have hb : c.byte? offset = some op.opcode.byte := h.head
  have ht := h.tail
  rw [decode, hb]
  simp only [Opcode.ofByte?_byte]
  cases op with
  | binary op | unary op | call n =>
    have h1 : c.byte? (offset + 1) = some _ := ht.head
    simp [Op.opcode, h1]
  | number n => simp [Op.opcode, ht.number?]
  | goto w | popJumpIfZero w | popJumpIfNonzero w | loadConst w | makeArray w | loadGlobal w
  | storeGlobal w | loadFrameVar w | storeFrameVar w | loadNative w =>
    exact ht.withWord
  | _ => rfl

/-! ## Chunks of instructions -/

/-- The number of bytes of a list of instructions. -/
def opsSize (ops : List Op) : Nat := (ops.map Op.size).sum

theorem opsSize_append (ops ops' : List Op) :
    opsSize (ops ++ ops') = opsSize ops + opsSize ops' := by
  simp [opsSize]

theorem opsSize_cons (op : Op) (ops : List Op) : opsSize (op :: ops) = op.size + opsSize ops := by
  simp [opsSize]

theorem opsSize_take_succ {ops : List Op} {n : Nat} {op : Op} (h : ops[n]? = some op) :
    opsSize (ops.take (n + 1)) = opsSize (ops.take n) + op.size := by
  rw [List.take_add_one, h, opsSize_append]
  simp [opsSize]

theorem opsSize_take_le (ops : List Op) (n : Nat) : opsSize (ops.take n) ≤ opsSize ops := by
  have := opsSize_append (ops.take n) (ops.drop n)
  rw [List.take_append_drop] at this
  omega

theorem append_nil (c : Chunk) : c.append [] = c := by simp [append]

theorem append_append (c : Chunk) (bytes bytes' : List UInt8) :
    (c.append bytes).append bytes' = c.append (bytes ++ bytes') := by
  rw [append, append, append, Chunk.mk.injEq, ← Array.toList_inj]
  simp

theorem toList_append (c : Chunk) (bytes : List UInt8) :
    (c.append bytes).code.toList = c.code.toList ++ bytes := by simp [append]

theorem foldl_push (ops : List Op) (c : Chunk) :
    ops.foldl push c = c.append (ops.flatMap (Op.encode c.order)) := by
  induction ops generalizing c with
  | nil => exact c.append_nil.symm
  | cons op ops ih =>
    rw [List.foldl_cons, ih, List.flatMap_cons, ← append_append]
    rfl

theorem order_ofOps (order : ByteOrder) (ops : List Op) : (ofOps order ops).order = order := by
  rw [ofOps, foldl_push]
  rfl

theorem code_ofOps (order : ByteOrder) (ops : List Op) :
    (ofOps order ops).code.toList = ops.flatMap (Op.encode order) := by
  rw [ofOps, foldl_push, toList_append]
  rfl

theorem length_flatMap_encode (order : ByteOrder) (ops : List Op) :
    (ops.flatMap (Op.encode order)).length = opsSize ops := by
  simp [opsSize, List.length_flatMap, Op.length_encode]

theorem size_ofOps (order : ByteOrder) (ops : List Op) : (ofOps order ops).size = opsSize ops := by
  rw [Chunk.size, ← Array.length_toList, code_ofOps, length_flatMap_encode]

theorem holds_ofOps {order : ByteOrder} {ops : List Op} {n : Nat} {op : Op}
    (h : ops[n]? = some op) : (ofOps order ops).Holds (opsSize (ops.take n)) (op.encode order) := by
  intro i b hb
  obtain ⟨hn, rfl⟩ := List.getElem?_eq_some_iff.1 h
  have hcode : (ofOps order ops).code.toList = (ops.take n).flatMap (Op.encode order) ++
      (ops[n].encode order ++ (ops.drop (n + 1)).flatMap (Op.encode order)) := by
    rw [code_ofOps, ← List.flatMap_cons, ← List.flatMap_append, ← List.drop_eq_getElem_cons hn,
      List.take_append_drop]
  obtain ⟨hi, hb⟩ := List.getElem?_eq_some_iff.1 hb
  rw [← Array.getElem?_toList, hcode, ← length_flatMap_encode order,
    List.getElem?_append_right (by omega), Nat.add_sub_cancel_left, List.getElem?_append_left hi,
    List.getElem?_eq_getElem hi, hb]

/-- **At the offset of an instruction stands the instruction.** -/
theorem decode_ofOps {order : ByteOrder} {ops : List Op} {n : Nat} {op : Op}
    (h : ops[n]? = some op) : (ofOps order ops).decode (opsSize (ops.take n)) = .ok op := by
  apply decode_of_holds
  rw [order_ofOps]
  exact holds_ofOps h

/-- An instruction of a chunk starts before its end. -/
theorem opsSize_take_lt {ops : List Op} {n : Nat} {op : Op} (h : ops[n]? = some op) :
    opsSize (ops.take n) < opsSize ops := by
  have h₁ := opsSize_take_succ h
  have h₂ := opsSize_take_le ops (n + 1)
  have h₃ := op.size_pos
  omega

end Chunk

end Stackscript
