import ProcessorBench.ClassFile.Constant

/-!
# Instructions

A code array is a run of instructions without gaps. `Bytecode.decode` cuts an array into its
instructions and sets apart the reference to a constant that an instruction may hold; `Bytecode.encode`
puts them together again. Only the length of an instruction and the place of its reference are
decoded, since nothing else depends on the pool.

The type of the references is a parameter, as it is for constants.
-/

namespace ProcessorBench

/-- How many bytes a reference to a constant takes inside an instruction. -/
inductive OperandWidth where
  /-- One byte: the operand of `ldc`. -/
  | narrow
  /-- Two bytes. -/
  | wide
deriving DecidableEq, Repr

/-- An instruction: its opcode, the reference to a constant that comes first among its operands if it
has one, and all other operand bytes. -/
structure InstructionOf (ι : Type) where
  opcode : UInt8
  constant : Option (OperandWidth × ι)
  operands : Bytes
deriving DecidableEq

/-- An instruction as a code array stores it. -/
abbrev Instruction := InstructionOf PoolIndex

/-- Where a reference to a constant stands in a code array. -/
structure PoolOperand where
  /-- The offset of the operand, not of its opcode. -/
  offset : Nat
  width : OperandWidth
deriving DecidableEq, Repr

namespace Opcode

/-- The opcode of the one-byte load. -/
def ldc : UInt8 := 0x12

/-- The opcode of the switch over a range. -/
def tableswitch : UInt8 := 0xaa

/-- The opcode of the switch over keys. -/
def lookupswitch : UInt8 := 0xab

/-- The opcode that widens the next instruction. -/
def wide : UInt8 := 0xc4

/-- The opcode of the increment of a local variable. -/
def iinc : UInt8 := 0x84

/-- The instructions of fixed length: a first and a last opcode, and the operand bytes each opcode
between them takes. -/
def fixedOperands : List (UInt8 × UInt8 × Nat) :=
  [(0x00, 0x0f, 0), (0x10, 0x10, 1), (0x11, 0x11, 2), (0x12, 0x12, 1), (0x13, 0x14, 2),
   (0x15, 0x19, 1), (0x1a, 0x35, 0), (0x36, 0x3a, 1), (0x3b, 0x83, 0), (0x84, 0x84, 2),
   (0x85, 0x98, 0), (0x99, 0xa8, 2), (0xa9, 0xa9, 1), (0xac, 0xb1, 0), (0xb2, 0xb8, 2),
   (0xb9, 0xba, 4), (0xbb, 0xbb, 2), (0xbc, 0xbc, 1), (0xbd, 0xbd, 2), (0xbe, 0xbf, 0),
   (0xc0, 0xc1, 2), (0xc2, 0xc3, 0), (0xc5, 0xc5, 3), (0xc6, 0xc7, 2), (0xc8, 0xc9, 4),
   (0xca, 0xca, 0), (0xfe, 0xff, 0)]

/-- The number of operand bytes of an instruction of fixed length. -/
def fixedLength? (opcode : UInt8) : Option Nat :=
  (fixedOperands.find? fun (first, last, _) => first ≤ opcode && opcode ≤ last).map (·.2.2)

/-- Whether the operands of an instruction start with a reference to a constant, and how wide it
is. -/
def reference? (opcode : UInt8) : Option OperandWidth :=
  if opcode = ldc then some .narrow
  else if opcode = 0x13 || opcode = 0x14 || (0xb2 ≤ opcode && opcode ≤ 0xbb) || opcode = 0xbd
      || opcode = 0xc0 || opcode = 0xc1 || opcode = 0xc5 then some .wide
  else none

end Opcode

namespace Instruction

/-- The signed word at an offset. -/
def int32At? (offset : Nat) (bytes : Bytes) : Option Int :=
  match bytes.drop offset with
  | a :: b :: c :: d :: _ => some (UInt32.ofNat (Bytes.toNat [a, b, c, d])).toInt32.toInt
  | _ => none

/-- How many operand bytes the instruction at `pc` takes, where `rest` is what follows its opcode.
The operands of a switch start at a multiple of four from the start of the code. -/
def operandLength (pc : Nat) (opcode : UInt8) (rest : Bytes) : Except ClassError Nat :=
  match Opcode.fixedLength? opcode with
  | some n => .ok n
  | none =>
    let padding := (4 - (pc + 1) % 4) % 4
    let word (offset : Nat) : Except ClassError Int :=
      match int32At? (padding + offset) rest with
      | some word => .ok word
      | none => .error (.truncated (pc + 1 + padding + offset) 4)
    if opcode = Opcode.tableswitch then do
      let low ← word 4
      let high ← word 8
      if low ≤ high + 1 then return padding + 12 + (high + 1 - low).toNat * 4
      else throw (.badOpcode opcode pc)
    else if opcode = Opcode.lookupswitch then do
      let pairs ← word 4
      if 0 ≤ pairs then return padding + 8 + pairs.toNat * 8
      else throw (.badOpcode opcode pc)
    else if opcode = Opcode.wide then
      match rest with
      | [] => .error (.truncated (pc + 1) 1)
      | next :: _ => .ok (if next = Opcode.iinc then 5 else 3)
    else .error (.badOpcode opcode pc)

/-- An instruction with the given operand bytes. -/
def ofOperands (opcode : UInt8) (operands : Bytes) : Instruction :=
  match Opcode.reference? opcode, operands with
  | some .narrow, a :: rest => ⟨opcode, some (.narrow, a.toUInt16), rest⟩
  | some .wide, a :: b :: rest =>
    ⟨opcode, some (.wide, UInt16.ofNat (Bytes.toNat [a, b])), rest⟩
  | _, operands => ⟨opcode, none, operands⟩

/-- The bytes of a reference. -/
def referenceBytes : OperandWidth × PoolIndex → Bytes
  | (.narrow, index) => [UInt8.ofNat index.toNat]
  | (.wide, index) => Bytes.ofUInt16 index

/-- The bytes of an instruction. -/
def bytes (i : Instruction) : Bytes :=
  i.opcode :: ((i.constant.map referenceBytes).getD [] ++ i.operands)

end Instruction

/-- Replace the reference of an instruction. -/
def InstructionOf.mapRef {m : Type → Type} [Monad m] {ι κ : Type}
    (f : OperandWidth → ι → m κ) (i : InstructionOf ι) : m (InstructionOf κ) :=
  match i.constant with
  | none => return ⟨i.opcode, none, i.operands⟩
  | some (width, index) => return ⟨i.opcode, some (width, ← f width index), i.operands⟩

namespace Bytecode

/-- The instructions of a code array from offset `pc` on. -/
def decodeFrom (pc : Nat) : Bytes → Except ClassError (List Instruction)
  | [] => .ok []
  | opcode :: rest => do
    let n ← Instruction.operandLength pc opcode rest
    match h : Bytes.split? n rest with
    | none => throw (.truncated pc (n - rest.length))
    | some (operands, rest') =>
      return Instruction.ofOperands opcode operands :: (← decodeFrom (pc + 1 + n) rest')
termination_by code => code.length
decreasing_by
  have := Bytes.length_le_of_split? h
  simp only [List.length_cons]
  omega

/-- The instructions of a code array. -/
def decode (code : Bytes) : Except ClassError (List Instruction) := decodeFrom 0 code

/-- The code array of a run of instructions. -/
def encode (instructions : List Instruction) : Bytes := instructions.flatMap Instruction.bytes

/-- Where the references stand in a run of instructions that starts at offset `pc`. -/
def operandsFrom (pc : Nat) : List Instruction → List PoolOperand
  | [] => []
  | i :: instructions =>
    (i.constant.toList.map fun (width, _) => ⟨pc + 1, width⟩) ++
      operandsFrom (pc + i.bytes.length) instructions

/-- Where the references stand in a code array, in order. -/
def poolOperands (code : Bytes) : Except ClassError (List PoolOperand) :=
  return operandsFrom 0 (← decode code)

/-- The indices that a code array loads with one byte, in order. -/
def narrowRefs (code : Bytes) : Except ClassError (List PoolIndex) := do
  return (← decode code).filterMap fun i =>
    match i.constant with
    | some (.narrow, index) => some index
    | _ => none

end Bytecode

end ProcessorBench
