/-!
# Operations of the machine

The operations come in families that differ in the type of number they work on, in the width of the
value they move, or in the place they move it to.  Each operation has a number, which is part of the
format of programs, and a mnemonic for listings.
-/

namespace StackScript.Bytecode

/-- Arithmetic with two operands. -/
inductive Arith where
  | add | sub | mul | div | mod | pow
deriving DecidableEq, Repr

/-- Comparisons. -/
inductive Relation where
  | eq | ne | lt | le | gt | ge
deriving DecidableEq, Repr

/-- The numbers an operation works on: integers, floats, or what it finds. -/
inductive Domain where
  | int | float | any
deriving DecidableEq, Repr

/-- The values that an equality test is meant for, numbers apart. -/
inductive Shape where
  | string | bool | object
deriving DecidableEq, Repr

/-- The width of a value in bits: a truth value, an integer, or anything else. -/
inductive Width where
  | w8 | w32 | w64
deriving DecidableEq, Repr

/-- The frame of a variable: that of the running function, or that of the top level. -/
inductive Area where
  | own | top
deriving DecidableEq, Repr

/-- Adding one in place, or taking one away. -/
inductive Update where
  | increment | decrement
deriving DecidableEq, Repr

/-- The operations. -/
inductive Opcode where
  | term | allocStack | popStack
  | loadNull | loadConst (w : Width)
  | arith (d : Domain) (op : Arith) | negate (d : Domain) | notAny | concat | notBool
  | compare (d : Domain) (r : Relation) | equal (s : Shape) | notEqual (s : Shape)
  | intToFloat | floatToInt | intToString | floatToString
  | jump | branchFalse | branchTrue | branchInt (r : Relation)
  | load (a : Area) (w : Width) | store (a : Area) (w : Width) | update (a : Area) (u : Update)
  | loadMember (w : Width) | storeMember (w : Width) | updateMember (u : Update)
  | loadElement (w : Width) | storeElement (w : Width) | updateElement (u : Update)
  | newArray | newObject | newSet | buildString
  | loadFunction | callInternal | callExternal | loadExternal
  | ret | retWith (w : Width) | pushReturn (w : Width)
deriving DecidableEq, Repr

/-! ### Numbers -/

def Arith.index : Arith → Nat
  | add => 0 | sub => 1 | mul => 2 | div => 3 | mod => 4 | pow => 5

def Relation.index : Relation → Nat
  | eq => 0 | ne => 1 | lt => 2 | le => 3 | gt => 4 | ge => 5

def Relation.branchIndex : Relation → Nat
  | eq => 0 | ne => 1 | gt => 2 | ge => 3 | lt => 4 | le => 5

def Width.index : Width → Nat
  | w8 => 0 | w32 => 1 | w64 => 2

def Update.index : Update → Nat
  | increment => 0 | decrement => 1

def Area.offset : Area → Nat
  | own => 0 | top => 8

def Domain.offset : Domain → Nat
  | int => 0 | float => 8 | any => 16

/-- How far the equality tests of a shape are from those of the first. -/
def Shape.offset : Shape → Nat
  | string => 0 | bool => 2 | object => 4

namespace Opcode

def number : Opcode → Nat
  | term => 0x00
  | allocStack => 0x01
  | popStack => 0x02
  | loadNull => 0x10
  | loadConst w => 0x11 + w.index
  | arith d op => 0x20 + d.offset + op.index
  | negate d => 0x26 + d.offset
  | notAny => 0x37
  | concat => 0x38
  | notBool => 0x39
  | compare d r => 0x40 + d.offset + r.index
  | equal s => 0x58 + s.offset
  | notEqual s => 0x59 + s.offset
  | intToFloat => 0x60
  | floatToInt => 0x61
  | intToString => 0x62
  | floatToString => 0x63
  | jump => 0x70
  | branchFalse => 0x71
  | branchTrue => 0x72
  | branchInt r => 0x73 + r.branchIndex
  | load a w => 0x80 + a.offset + w.index
  | store a w => 0x83 + a.offset + w.index
  | update a u => 0x86 + a.offset + u.index
  | loadMember w => 0x90 + w.index
  | storeMember w => 0x93 + w.index
  | updateMember u => 0x96 + u.index
  | loadElement w => 0x98 + w.index
  | storeElement w => 0x9B + w.index
  | updateElement u => 0x9E + u.index
  | newArray => 0xA0
  | newObject => 0xA1
  | newSet => 0xA2
  | buildString => 0xA3
  | loadFunction => 0xB0
  | callInternal => 0xB1
  | callExternal => 0xB2
  | loadExternal => 0xB3
  | ret => 0xB4
  | retWith w => 0xB5 + w.index
  | pushReturn w => 0xB8 + w.index

end Opcode

/-! ### Mnemonics -/

def Arith.mnemonic : Arith → String
  | add => "ADD" | sub => "SUB" | mul => "MUL" | div => "DIV" | mod => "MOD" | pow => "POW"

def Relation.mnemonic : Relation → String
  | eq => "EQ" | ne => "NE" | lt => "LT" | le => "LE" | gt => "GT" | ge => "GE"

def Relation.longMnemonic : Relation → String
  | eq => "EQUAL"
  | ne => "NOT_EQUAL"
  | lt => "LESS"
  | le => "LESS_OR_EQUAL"
  | gt => "GREATER"
  | ge => "GREATER_OR_EQUAL"

def Domain.mnemonic : Domain → String
  | int => "INT" | float => "FLOAT" | any => "ANY"

def Shape.mnemonic : Shape → String
  | string => "STRING" | bool => "BOOL" | object => "OBJECT"

def Width.mnemonic : Width → String
  | w8 => "8" | w32 => "32" | w64 => "64"

def Area.mnemonic : Area → String
  | own => "LOCAL" | top => "GLOBAL"

def Update.mnemonic : Update → String
  | increment => "INCREMENT" | decrement => "DECREMENT"

namespace Opcode

def mnemonic : Opcode → String
  | term => "TERM"
  | allocStack => "ALLOC_STACK"
  | popStack => "POP_STACK"
  | loadNull => "LOAD_NULL"
  | loadConst w => "LOAD_CONST" ++ w.mnemonic
  | arith d op => op.mnemonic ++ "_" ++ d.mnemonic
  | negate d => "NEG_" ++ d.mnemonic
  | notAny => "NOT_ANY"
  | concat => "CONCAT_STRING"
  | notBool => "NOT_BOOL"
  | compare d r => r.mnemonic ++ "_" ++ d.mnemonic
  | equal s => "EQ_" ++ s.mnemonic
  | notEqual s => "NE_" ++ s.mnemonic
  | intToFloat => "INT_TO_FLOAT"
  | floatToInt => "FLOAT_TO_INT"
  | intToString => "INT_TO_STRING"
  | floatToString => "FLOAT_TO_STRING"
  | jump => "JUMP"
  | branchFalse => "BRANCH_FALSE"
  | branchTrue => "BRANCH_TRUE"
  | branchInt r => "BRANCH_" ++ r.longMnemonic ++ "_INT"
  | load a w => "LOAD_" ++ a.mnemonic ++ w.mnemonic
  | store a w => "STORE_" ++ a.mnemonic ++ w.mnemonic
  | update a u => u.mnemonic ++ "_" ++ a.mnemonic
  | loadMember w => "LOAD_MEMBER" ++ w.mnemonic
  | storeMember w => "STORE_MEMBER" ++ w.mnemonic
  | updateMember u => u.mnemonic ++ "_MEMBER"
  | loadElement w => "LOAD_ELEMENT" ++ w.mnemonic
  | storeElement w => "STORE_ELEMENT" ++ w.mnemonic
  | updateElement u => u.mnemonic ++ "_ELEMENT"
  | newArray => "NEW_ARRAY"
  | newObject => "NEW_OBJECT"
  | newSet => "NEW_SET"
  | buildString => "BUILD_STRING"
  | loadFunction => "LOAD_INSTRUCTION_REFERENCE"
  | callInternal => "CALL_INTERNAL"
  | callExternal => "CALL_EXTERNAL"
  | loadExternal => "LOAD_EXTERNAL"
  | ret => "RETURN"
  | retWith w => "RETURN" ++ w.mnemonic
  | pushReturn w => "PUSH_RETURN" ++ w.mnemonic

/-- Does the operand name the instruction that may run next? -/
def isBranch : Opcode → Bool
  | jump | branchFalse | branchTrue | branchInt _ | callInternal => true
  | _ => false

end Opcode

/-! ### All operations -/

def Arith.all : List Arith := [.add, .sub, .mul, .div, .mod, .pow]

def Relation.all : List Relation := [.eq, .ne, .lt, .le, .gt, .ge]

def Domain.all : List Domain := [.int, .float, .any]

def Shape.all : List Shape := [.string, .bool, .object]

def Width.all : List Width := [.w8, .w32, .w64]

def Area.all : List Area := [.own, .top]

def Update.all : List Update := [.increment, .decrement]

namespace Opcode

def all : List Opcode :=
  [term, allocStack, popStack, loadNull, notAny, concat, notBool, intToFloat, floatToInt,
   intToString, floatToString, jump, branchFalse, branchTrue, newArray, newObject, newSet,
   buildString, loadFunction, callInternal, callExternal, loadExternal, ret]
  ++ Width.all.flatMap (fun w =>
    [loadConst w, loadMember w, storeMember w, loadElement w, storeElement w, retWith w,
     pushReturn w])
  ++ Domain.all.flatMap (fun d =>
    negate d :: Arith.all.map (arith d) ++ Relation.all.map (compare d))
  ++ Shape.all.flatMap (fun s => [equal s, notEqual s])
  ++ Relation.all.map branchInt
  ++ Area.all.flatMap (fun a =>
    Width.all.flatMap (fun w => [load a w, store a w]) ++ Update.all.map (update a))
  ++ Update.all.flatMap (fun u => [updateMember u, updateElement u])

def ofNumber? (n : Nat) : Option Opcode := all.find? fun op => op.number == n

def ofMnemonic? (s : String) : Option Opcode := all.find? fun op => op.mnemonic == s

end Opcode

end StackScript.Bytecode
