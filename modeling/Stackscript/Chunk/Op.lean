import Stackscript.Number.Text
import Stackscript.Operator

/-!
# Byte instructions

An instruction of the stack machine is an opcode with the operand that the opcode takes. `Opcode`
names the first byte and fixes the width of what follows; `Op` is a whole instruction.

* `Opcode`: `name`, `byte`, `ofByte?`, `operandWidth`, `isJump`;
* `Op`: `opcode`, `size`, `operandText`.
-/

namespace Stackscript

/-- The first byte of an instruction. -/
inductive Opcode where
  | pop
  | goto
  | popJumpIfZero
  | popJumpIfNonzero
  | binaryOp
  | unaryOp
  | pushTrue
  | pushFalse
  | pushNull
  | number
  | loadConst
  | makeArray
  | getIndex
  | setIndex
  | call
  | ret
  | makeFunction
  | loadGlobal
  | storeGlobal
  | loadFrameVar
  | storeFrameVar
  | loadNative
  | exit
deriving DecidableEq, Inhabited

namespace Opcode

/-- Every opcode, in the order of the bytes. -/
def all : Array Opcode :=
  #[.pop, .goto, .popJumpIfZero, .popJumpIfNonzero, .binaryOp, .unaryOp, .pushTrue, .pushFalse,
    .pushNull, .number, .loadConst, .makeArray, .getIndex, .setIndex, .call, .ret, .makeFunction,
    .loadGlobal, .storeGlobal, .loadFrameVar, .storeFrameVar, .loadNative, .exit]

/-- The name of an opcode in listings. -/
def name : Opcode → String
  | .pop => "Pop"
  | .goto => "Goto"
  | .popJumpIfZero => "PopJumpIfZero"
  | .popJumpIfNonzero => "PopJumpIfNonzero"
  | .binaryOp => "BinaryOp"
  | .unaryOp => "UnaryOp"
  | .pushTrue => "True"
  | .pushFalse => "False"
  | .pushNull => "Null"
  | .number => "Number"
  | .loadConst => "LoadConst"
  | .makeArray => "MakeArray"
  | .getIndex => "GetIndex"
  | .setIndex => "SetIndex"
  | .call => "Call"
  | .ret => "Return"
  | .makeFunction => "MakeFunction"
  | .loadGlobal => "LoadGlobal"
  | .storeGlobal => "StoreGlobal"
  | .loadFrameVar => "LoadFrameVar"
  | .storeFrameVar => "StoreFrameVar"
  | .loadNative => "LoadNative"
  | .exit => "Exit"

def byte : Opcode → UInt8
  | .pop => 0
  | .goto => 1
  | .popJumpIfZero => 2
  | .popJumpIfNonzero => 3
  | .binaryOp => 4
  | .unaryOp => 5
  | .pushTrue => 6
  | .pushFalse => 7
  | .pushNull => 8
  | .number => 9
  | .loadConst => 10
  | .makeArray => 11
  | .getIndex => 12
  | .setIndex => 13
  | .call => 14
  | .ret => 15
  | .makeFunction => 16
  | .loadGlobal => 17
  | .storeGlobal => 18
  | .loadFrameVar => 19
  | .storeFrameVar => 20
  | .loadNative => 21
  | .exit => 22

/-- The opcode that a byte names. -/
def ofByte? (b : UInt8) : Option Opcode := all[b.toNat]?

/-- The number of operand bytes after the opcode. -/
def operandWidth : Opcode → Nat
  | .goto | .popJumpIfZero | .popJumpIfNonzero | .loadConst | .makeArray | .loadGlobal
  | .storeGlobal | .loadFrameVar | .storeFrameVar | .loadNative => 4
  | .binaryOp | .unaryOp | .call => 1
  | .number => 8
  | .pop | .pushTrue | .pushFalse | .pushNull | .getIndex | .setIndex | .ret | .makeFunction
  | .exit => 0

/-- The opcode names a jump. -/
def isJump : Opcode → Bool
  | .goto | .popJumpIfZero | .popJumpIfNonzero => true
  | _ => false

end Opcode

/-- An instruction of the stack machine. -/
inductive Op where
  /-- Discard the top value. -/
  | pop
  /-- Go on at an address. -/
  | goto (target : UInt32)
  /-- Pop a value and go on at an address if it counts as false. -/
  | popJumpIfZero (target : UInt32)
  /-- Pop a value and go on at an address if it counts as true. -/
  | popJumpIfNonzero (target : UInt32)
  | binary (op : BinaryOperator)
  | unary (op : UnaryOperator)
  | pushTrue
  | pushFalse
  | pushNull
  | number (n : Number)
  /-- Push an entry of the constant pool. -/
  | loadConst (index : UInt32)
  /-- Pop so many values and push a new array of them. -/
  | makeArray (count : UInt32)
  /-- Pop an index and a target and push the element. -/
  | getIndex
  /-- Pop a value, an index and a target, write the element and push the value. -/
  | setIndex
  /-- Pop the callee and call it with so many values below it. -/
  | call (count : UInt8)
  /-- Leave the current frame. -/
  | ret
  /-- Check that the top value is a function of the program. -/
  | makeFunction
  | loadGlobal (slot : UInt32)
  | storeGlobal (slot : UInt32)
  | loadFrameVar (slot : UInt32)
  | storeFrameVar (slot : UInt32)
  /-- Push an entry of the native table. -/
  | loadNative (index : UInt32)
  /-- End the run. -/
  | exit
deriving DecidableEq, Inhabited

namespace Op

def opcode : Op → Opcode
  | .pop => .pop
  | .goto _ => .goto
  | .popJumpIfZero _ => .popJumpIfZero
  | .popJumpIfNonzero _ => .popJumpIfNonzero
  | .binary _ => .binaryOp
  | .unary _ => .unaryOp
  | .pushTrue => .pushTrue
  | .pushFalse => .pushFalse
  | .pushNull => .pushNull
  | .number _ => .number
  | .loadConst _ => .loadConst
  | .makeArray _ => .makeArray
  | .getIndex => .getIndex
  | .setIndex => .setIndex
  | .call _ => .call
  | .ret => .ret
  | .makeFunction => .makeFunction
  | .loadGlobal _ => .loadGlobal
  | .storeGlobal _ => .storeGlobal
  | .loadFrameVar _ => .loadFrameVar
  | .storeFrameVar _ => .storeFrameVar
  | .loadNative _ => .loadNative
  | .exit => .exit

/-- The number of bytes of an instruction. -/
def size (op : Op) : Nat := 1 + op.opcode.operandWidth

theorem size_pos (op : Op) : 0 < op.size := by
  unfold size
  omega

/-- The operand of an instruction in listings, empty if there is none. -/
def operandText : Op → String
  | .goto a | .popJumpIfZero a | .popJumpIfNonzero a => "@" ++ toString a.toNat
  | .loadConst i | .loadGlobal i | .storeGlobal i | .loadFrameVar i | .storeFrameVar i
  | .loadNative i => "#" ++ toString i.toNat
  | .makeArray n => toString n.toNat
  | .call n => toString n.toNat
  | .binary op => op.symbol
  | .unary op => op.symbol
  | .number n => n.listing
  | .pop | .pushTrue | .pushFalse | .pushNull | .getIndex | .setIndex | .ret | .makeFunction
  | .exit => ""

end Op

end Stackscript
