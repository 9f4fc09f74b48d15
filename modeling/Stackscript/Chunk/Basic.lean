import Stackscript.Chunk.Op

/-!
# Chunks

A chunk is the bytecode of one function or of the top level. Operands of more than one byte are
written in the byte order of the chunk.

* `ByteOrder`: `split`, `join`;
* `Chunk`: `size`, `append`, `pushByte`, `pushWord`, `pushNumber`, `push`;
* `Chunk.reserveAddress`, `Chunk.insertAddress?`, for an address that is known only later;
* reading: `byte?`, `word?`, `number?`.
-/

namespace Stackscript

/-- The order of the bytes of a wide operand. -/
inductive ByteOrder where
  | little
  | big
deriving DecidableEq, Inhabited

namespace ByteOrder

/-- The lowest `width` bytes of a number, lowest first. -/
def digits : (width : Nat) → Nat → List UInt8
  | 0, _ => []
  | width + 1, n => UInt8.ofNat n :: digits width (n / 256)

/-- The number with the given bytes, lowest first. -/
def ofDigits : List UInt8 → Nat
  | [] => 0
  | b :: bs => b.toNat + 256 * ofDigits bs

/-- The bytes of a number in this order. -/
def split (order : ByteOrder) (width n : Nat) : List UInt8 :=
  match order with
  | .little => digits width n
  | .big => (digits width n).reverse

/-- The number that bytes in this order stand for. -/
def join (order : ByteOrder) (bytes : List UInt8) : Nat :=
  match order with
  | .little => ofDigits bytes
  | .big => ofDigits bytes.reverse

end ByteOrder

/-- The bytes of an instruction. -/
def Op.encode (order : ByteOrder) (op : Op) : List UInt8 :=
  op.opcode.byte :: match op with
    | .goto w | .popJumpIfZero w | .popJumpIfNonzero w | .loadConst w | .makeArray w
    | .loadGlobal w | .storeGlobal w | .loadFrameVar w | .storeFrameVar w | .loadNative w =>
      order.split 4 w.toNat
    | .binary op => [op.tag]
    | .unary op => [op.tag]
    | .call n => [n]
    | .number n => order.split 8 n.bits.toNat
    | .pop | .pushTrue | .pushFalse | .pushNull | .getIndex | .setIndex | .ret | .makeFunction
    | .exit => []

/-- Bytecode, with the byte order of its wide operands. -/
structure Chunk where
  order : ByteOrder
  code : Array UInt8
deriving DecidableEq, Inhabited

namespace Chunk

/-- The chunk without code. -/
def empty (order : ByteOrder) : Chunk := ⟨order, #[]⟩

/-- The number of bytes. -/
def size (c : Chunk) : Nat := c.code.size

/-- The chunk with more bytes at its end. -/
def append (c : Chunk) (bytes : List UInt8) : Chunk := { c with code := c.code ++ bytes }

def pushByte (c : Chunk) (b : UInt8) : Chunk := c.append [b]

def pushWord (c : Chunk) (w : UInt32) : Chunk := c.append (c.order.split 4 w.toNat)

def pushNumber (c : Chunk) (n : Number) : Chunk := c.append (c.order.split 8 n.bits.toNat)

/-- The chunk with an instruction at its end. -/
def push (c : Chunk) (op : Op) : Chunk := c.append (op.encode c.order)

/-- The chunk of a list of instructions. -/
def ofOps (order : ByteOrder) (ops : List Op) : Chunk := ops.foldl push (empty order)

/-- Adds a zero address at the end, to be filled in later, and tells its offset. -/
def reserveAddress (c : Chunk) : Nat × Chunk := (c.size, c.pushWord 0)

/-- Writes an address over the four bytes at an offset, if there are four. -/
def insertAddress? (c : Chunk) (offset : Nat) (address : UInt32) : Option Chunk :=
  if offset + 4 ≤ c.size then
    let bytes := c.order.split 4 address.toNat
    some { c with
      code := bytes.zipIdx.foldl (fun code (b, i) => code.setIfInBounds (offset + i) b) c.code }
  else none

/-! ## Reading -/

/-- The byte at an offset. -/
def byte? (c : Chunk) (offset : Nat) : Option UInt8 := c.code[offset]?

/-- The bytes at an offset, if there are so many. -/
def bytes? (c : Chunk) (offset : Nat) : (width : Nat) → Option (List UInt8)
  | 0 => some []
  | width + 1 =>
    match c.code[offset]? with
    | none => none
    | some b => (c.bytes? (offset + 1) width).map (b :: ·)

/-- The four-byte operand at an offset. -/
def word? (c : Chunk) (offset : Nat) : Option UInt32 :=
  (c.bytes? offset 4).map fun bs => UInt32.ofNat (c.order.join bs)

/-- The number at an offset. -/
def number? (c : Chunk) (offset : Nat) : Option Number :=
  (c.bytes? offset 8).map fun bs => ⟨UInt64.ofNat (c.order.join bs)⟩

end Chunk

end Stackscript
