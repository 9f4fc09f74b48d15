import Stackscript.Chunk.Basic

/-!
# Decoding

Reading instructions back from the bytes of a chunk.

* `DecodeFault`, `DecodeFault.message?`;
* `Chunk.decode`, the instruction at an offset;
* `Chunk.instructions`, all instructions with their offsets, and `Chunk.listing`, their text.
-/

namespace Stackscript

/-- Why no instruction stands at an offset. -/
inductive DecodeFault where
  | unknownOpcode (byte : UInt8) (offset : Nat)
  | unknownBinary (tag : UInt8) (offset : Nat)
  | unknownUnary (tag : UInt8) (offset : Nat)
  /-- The chunk ends before the instruction does. -/
  | truncated
deriving DecidableEq

/-- A byte in hexadecimal, two digits wide. -/
def hexByte (b : UInt8) : String :=
  let ds := Nat.toDigits 16 b.toNat
  "0x" ++ (if ds.length < 2 then "0" else "") ++ String.ofList ds

/-- The wording of a decoding fault, if it has one. -/
def DecodeFault.message? : DecodeFault → Option String
  | .unknownOpcode b offset =>
    some ("internal error: unknown opcode " ++ hexByte b ++ " at " ++ toString offset)
  | .unknownBinary t offset =>
    some ("internal error: unknown binary operator " ++ toString t.toNat ++ " at " ++
      toString offset)
  | .unknownUnary t offset =>
    some ("internal error: unknown unary operator " ++ toString t.toNat ++ " at " ++
      toString offset)
  | .truncated => none

namespace Chunk

/-- An instruction whose operand is a word that starts at an offset. -/
def withWord (c : Chunk) (offset : Nat) (make : UInt32 → Op) : Except DecodeFault Op :=
  match c.word? offset with
  | some w => .ok (make w)
  | none => .error .truncated

/-- The instruction at an offset. -/
def decode (c : Chunk) (offset : Nat) : Except DecodeFault Op :=
  match c.byte? offset with
  | none => .error .truncated
  | some b =>
    match Opcode.ofByte? b with
    | none => .error (.unknownOpcode b offset)
    | some .pop => .ok .pop
    | some .goto => c.withWord (offset + 1) .goto
    | some .popJumpIfZero => c.withWord (offset + 1) .popJumpIfZero
    | some .popJumpIfNonzero => c.withWord (offset + 1) .popJumpIfNonzero
    | some .binaryOp =>
      match c.byte? (offset + 1) with
      | none => .error .truncated
      | some t =>
        match BinaryOperator.ofTag? t with
        | none => .error (.unknownBinary t offset)
        | some op => .ok (.binary op)
    | some .unaryOp =>
      match c.byte? (offset + 1) with
      | none => .error .truncated
      | some t =>
        match UnaryOperator.ofTag? t with
        | none => .error (.unknownUnary t offset)
        | some op => .ok (.unary op)
    | some .pushTrue => .ok .pushTrue
    | some .pushFalse => .ok .pushFalse
    | some .pushNull => .ok .pushNull
    | some .number =>
      match c.number? (offset + 1) with
      | none => .error .truncated
      | some n => .ok (.number n)
    | some .loadConst => c.withWord (offset + 1) .loadConst
    | some .makeArray => c.withWord (offset + 1) .makeArray
    | some .getIndex => .ok .getIndex
    | some .setIndex => .ok .setIndex
    | some .call =>
      match c.byte? (offset + 1) with
      | none => .error .truncated
      | some n => .ok (.call n)
    | some .ret => .ok .ret
    | some .makeFunction => .ok .makeFunction
    | some .loadGlobal => c.withWord (offset + 1) .loadGlobal
    | some .storeGlobal => c.withWord (offset + 1) .storeGlobal
    | some .loadFrameVar => c.withWord (offset + 1) .loadFrameVar
    | some .storeFrameVar => c.withWord (offset + 1) .storeFrameVar
    | some .loadNative => c.withWord (offset + 1) .loadNative
    | some .exit => .ok .exit

/-- The instructions from an offset to the end of the chunk, each with its offset. -/
def instructionsFrom (c : Chunk) (offset : Nat) : Except DecodeFault (List (Nat × Op)) :=
  if offset < c.size then
    match c.decode offset with
    | .error f => .error f
    | .ok op =>
      match c.instructionsFrom (offset + op.size) with
      | .error f => .error f
      | .ok rest => .ok ((offset, op) :: rest)
  else .ok []
termination_by c.size - offset
decreasing_by
  have := op.size_pos
  omega

/-- All instructions of the chunk, each with its offset. -/
def instructions (c : Chunk) : Except DecodeFault (List (Nat × Op)) := c.instructionsFrom 0

end Chunk

/-- A number in a column of six characters. -/
def column (n : Nat) : String :=
  let text := toString n
  String.ofList (List.replicate (6 - text.length) ' ') ++ text

namespace Chunk

/-- One line of a listing: the offset, the opcode and the operand. -/
def listingLine : Nat × Op → String
  | (offset, op) => column offset ++ "  " ++ op.opcode.name ++ " " ++ op.operandText ++ "\n"

/-- The listing of a chunk. -/
def listing (c : Chunk) : Except DecodeFault String :=
  match c.instructions with
  | .ok ops => .ok (String.join (ops.map listingLine))
  | .error f => .error f

end Chunk

end Stackscript
