import Mathlib.Data.List.Forall2
import ProcessorBench.ClassFile.Instruction
import ProcessorBench.Proofs.Bytes
import ProcessorBench.Proofs.Steps

/-!
# Code arrays with other references

The length of an instruction depends on its opcode and on the operands that are no reference. So an
array whose references are replaced by references of the same widths is cut at the same places
(`decode_encode`), which is why jump distances and exception ranges stay what they were.
-/

namespace ProcessorBench

/-- Two instructions differ at most in what their references are. -/
structure InstructionOf.SameForm {ι κ : Type} (i : InstructionOf ι) (j : InstructionOf κ) : Prop where
  opcode : i.opcode = j.opcode
  width : i.constant.map (·.1) = j.constant.map (·.1)
  operands : i.operands = j.operands

/-- How many bytes an instruction takes. -/
def InstructionOf.size {ι : Type} (i : InstructionOf ι) : Nat :=
  1 + (match i.constant with
    | none => 0
    | some (.narrow, _) => 1
    | some (.wide, _) => 2) + i.operands.length

/-- Instructions of the same form are equally long. -/
theorem InstructionOf.SameForm.size_eq {ι κ : Type} {i : InstructionOf ι} {j : InstructionOf κ}
    (h : i.SameForm j) : i.size = j.size := by
  obtain ⟨opcode, constant, operands⟩ := i
  obtain ⟨opcode', constant', operands'⟩ := j
  obtain ⟨_, width, operands⟩ := h
  match constant, constant', width with
  | none, none, _ => simp_all [size]
  | some (.narrow, _), some (.narrow, _), _ => simp_all [size]
  | some (.wide, _), some (.wide, _), _ => simp_all [size]

/-- An instruction is written in as many bytes as it is long. -/
theorem Instruction.length_bytes (i : Instruction) : i.bytes.length = i.size := by
  obtain ⟨opcode, constant, operands⟩ := i
  match constant with
  | none | some (.narrow, _) | some (.wide, _) =>
    simp [bytes, referenceBytes, InstructionOf.size]
    try omega

/-- The reference of an instruction fits its operand. -/
def Instruction.Fits (i : Instruction) : Prop := ∀ k, i.constant = some (.narrow, k) → k < 256

namespace Instruction

/-- A number within the operands does not depend on what follows them. -/
theorem int32At?_append {offset : Nat} {operands : Bytes} (h : offset + 4 ≤ operands.length)
    (rest : Bytes) : int32At? offset (operands ++ rest) = int32At? offset operands := by
  have enough : 4 ≤ (operands.drop offset).length := by simp; omega
  rw [int32At?, int32At?, List.drop_append_of_le_length (by omega)]
  match operands.drop offset, enough with
  | a :: b :: c :: d :: tail, _ => rfl

/-- The length of an instruction is settled by its own bytes. -/
theorem operandLength_append {pc : Nat} {opcode : UInt8} {operands rest : Bytes}
    (h : operandLength pc opcode (operands ++ rest) = .ok operands.length) (rest' : Bytes) :
    operandLength pc opcode (operands ++ rest') = .ok operands.length := by
  unfold operandLength at h ⊢
  cases fixed : Opcode.fixedLength? opcode with
  | some n => simpa only [fixed] using h
  | none =>
    simp only [fixed] at h ⊢
    generalize (4 - (pc + 1) % 4) % 4 = padding at h ⊢
    -- The words that a switch is measured by lie inside the length that they give.
    split at h
    · next table =>
      have inside : padding + 12 ≤ operands.length := by
        obtain ⟨low, _, h⟩ := bind_eq_ok.mp h
        obtain ⟨high, _, h⟩ := bind_eq_ok.mp h
        split at h
        · have := Except.ok.inj h
          omega
        · cases h
      rw [int32At?_append (by omega), int32At?_append (by omega)] at h
      rw [if_pos table, int32At?_append (by omega), int32At?_append (by omega)]
      exact h
    · next table =>
      rw [if_neg table]
      split at h
      · next lookup =>
        have inside : padding + 8 ≤ operands.length := by
          obtain ⟨pairs, _, h⟩ := bind_eq_ok.mp h
          split at h
          · have := Except.ok.inj h
            omega
          · cases h
        rw [int32At?_append (by omega)] at h
        rw [if_pos lookup, int32At?_append (by omega)]
        exact h
      · next lookup =>
        rw [if_neg lookup]
        split at h
        · next wide =>
          rw [if_pos wide]
          cases operands with
          | nil =>
            rw [List.nil_append] at h
            cases rest with
            | nil => cases h
            | cons next _ => simp only [Except.ok.injEq, List.length_nil] at h; split at h <;> omega
          | cons next _ => exact h
        · cases h

/-- An opcode with a reference has operands of a fixed length that hold it. -/
theorem fixedLength?_of_reference? {opcode : UInt8} {width : OperandWidth}
    (h : Opcode.reference? opcode = some width) :
    ∃ n, Opcode.fixedLength? opcode = some n ∧
      match width with
      | .narrow => 1 ≤ n
      | .wide => 2 ≤ n := by
  have all : ∀ o : Fin 256, ∀ w, Opcode.reference? (UInt8.ofFin o) = some w →
      ((Opcode.fixedLength? (UInt8.ofFin o)).any fun n =>
        match w with
        | .narrow => decide (1 ≤ n)
        | .wide => decide (2 ≤ n)) = true := by
    intro o w
    cases w <;> revert o <;> decide +kernel
  have := all opcode.toFin width (by simpa using h)
  obtain ⟨n, fixed, enough⟩ := Option.any_eq_true _ _ |>.mp this
  exact ⟨n, by simpa using fixed, by cases width <;> simpa using enough⟩

/-- An instruction cut out of a code array is cut out of it again when its reference is replaced by
one that fits. -/
theorem ofOperands_of_sameForm {pc : Nat} {opcode : UInt8} {operands rest : Bytes} {i : Instruction}
    (length : operandLength pc opcode (operands ++ rest) = .ok operands.length)
    (same : (ofOperands opcode operands).SameForm i) (fits : Fits i) :
    ∃ operands', i.bytes = opcode :: operands' ∧ operands'.length = operands.length ∧
      ofOperands opcode operands' = i ∧
      ∀ rest', operandLength pc opcode (operands' ++ rest') = .ok operands.length := by
  obtain ⟨opcode', constant, operands'⟩ := i
  obtain ⟨sameOpcode, sameWidth, sameOperands⟩ := same
  unfold ofOperands at sameOpcode sameWidth sameOperands
  cases ref : Opcode.reference? opcode with
  | none =>
    simp only [ref, Option.map_none] at sameOpcode sameWidth sameOperands
    subst sameOpcode sameOperands
    obtain rfl : constant = none := by simpa using sameWidth.symm
    exact ⟨operands, rfl, rfl, by simp only [ofOperands, ref], operandLength_append length⟩
  -- The opcode alone settles the length, whatever is in the bytes of the reference.
  | some width =>
    obtain ⟨n, fixed, enough⟩ := fixedLength?_of_reference? ref
    have settled : ∀ bytes, operandLength pc opcode bytes = .ok n := fun bytes => by
      simp only [operandLength, fixed]
    obtain rfl : n = operands.length := by simpa [settled] using length
    cases width with
    | narrow =>
      obtain ⟨a, tail, rfl⟩ := List.exists_cons_of_length_pos enough
      simp only [ref] at sameOpcode sameWidth sameOperands
      subst sameOpcode sameOperands
      obtain ⟨⟨width, k⟩, rfl, rfl⟩ : ∃ p, constant = some p ∧ p.1 = .narrow := by
        simpa [eq_comm] using sameWidth
      have small : k < 256 := fits k rfl
      refine ⟨UInt8.ofNat k.toNat :: tail, rfl, rfl, ?_, fun _ => settled _⟩
      simp only [ofOperands, ref, InstructionOf.mk.injEq, Option.some.injEq, Prod.mk.injEq, true_and,
        and_true]
      refine UInt16.toNat_inj.mp ?_
      rw [UInt8.toNat_toUInt16, UInt8.toNat_ofNat', Nat.mod_eq_of_lt]
      exact UInt16.lt_iff_toNat_lt.mp small
    | wide =>
      have two : 2 ≤ operands.length := enough
      obtain ⟨a, tail, rfl⟩ := List.exists_cons_of_length_pos (Nat.lt_of_lt_of_le Nat.two_pos two)
      obtain ⟨b, tail, rfl⟩ := List.exists_cons_of_length_pos (Nat.lt_of_succ_lt_succ two)
      simp only [ref] at sameOpcode sameWidth sameOperands
      subst sameOpcode sameOperands
      obtain ⟨⟨width, k⟩, rfl, rfl⟩ : ∃ p, constant = some p ∧ p.1 = .wide := by
        simpa [eq_comm] using sameWidth
      refine ⟨Bytes.ofUInt16 k ++ tail, rfl, by simp; omega, ?_, fun _ => settled _⟩
      have written : Bytes.toNat (Bytes.ofUInt16 k) = k.toNat := Bytes.toNat_ofUInt16 k
      obtain ⟨high, low, two⟩ := List.length_eq_two.mp (Bytes.length_ofUInt16 k)
      rw [two] at written ⊢
      simp only [List.cons_append, List.nil_append, ofOperands, ref, written, UInt16.ofNat_toNat]

/-- An instruction is written as what it has been cut out of. -/
theorem bytes_ofOperands (opcode : UInt8) (operands : Bytes) :
    (ofOperands opcode operands).bytes = opcode :: operands := by
  unfold ofOperands
  split
  · next a rest _ =>
    show opcode :: ([UInt8.ofNat a.toUInt16.toNat] ++ rest) = opcode :: a :: rest
    rw [UInt8.toNat_toUInt16, UInt8.ofNat_toNat]
    rfl
  · next a b rest _ =>
    have fits : Bytes.toNat [a, b] < UInt16.size := by simpa using Bytes.toNat_lt [a, b]
    have written : Bytes.ofUInt16 (UInt16.ofNat (Bytes.toNat [a, b])) = [a, b] := by
      rw [Bytes.ofUInt16, UInt16.toNat_ofNat_of_lt' fits]
      exact Bytes.ofNat_toNat [a, b]
    show opcode :: (Bytes.ofUInt16 (UInt16.ofNat (Bytes.toNat [a, b])) ++ rest) =
      opcode :: a :: b :: rest
    rw [written]
    rfl
  · rfl

end Instruction

namespace Bytecode

/-- What a run of instructions refers to, in order. -/
def refs {ι : Type} (is : List (InstructionOf ι)) : List ι := is.filterMap fun i => i.constant.map (·.2)

/-- An instruction of fixed length is cut off at that length. -/
theorem decodeFrom_fixed {pc : Nat} {opcode : UInt8} {operands rest : Bytes}
    (fixed : Opcode.fixedLength? opcode = some operands.length) :
    decodeFrom pc (opcode :: (operands ++ rest)) = do
      return Instruction.ofOperands opcode operands ::
        (← decodeFrom (pc + 1 + operands.length) rest) := by
  have length : Instruction.operandLength pc opcode (operands ++ rest) = .ok operands.length := by
    simp only [Instruction.operandLength, fixed]
  rw [decodeFrom, length, ok_bind]
  split
  · next none =>
    rw [Bytes.split?_append rfl] at none
    cases none
  · next some =>
    rw [Bytes.split?_append rfl] at some
    cases some
    rfl

/-- **A code array is its instructions**, and nothing between them. -/
theorem encode_of_decodeFrom {code : Bytes} {pc : Nat} {instructions : List Instruction}
    (h : decodeFrom pc code = .ok instructions) : encode instructions = code := by
  induction pc, code using decodeFrom.induct generalizing instructions with
  | case1 pc =>
    rw [decodeFrom] at h
    cases h
    rfl
  | case2 pc opcode rest ih =>
    rw [decodeFrom] at h
    obtain ⟨n, _, h⟩ := bind_eq_ok.mp h
    split at h
    · cases h
    · next operands rest' split =>
      obtain ⟨is, decoded, h⟩ := bind_eq_ok.mp h
      cases h
      obtain ⟨rfl, _⟩ := Bytes.split?_eq_some split
      rw [encode, List.flatMap_cons, Instruction.bytes_ofOperands]
      exact congrArg (fun tail => opcode :: (operands ++ tail)) (ih _ _ _ split decoded)

/-- **Replacing references keeps the cuts**: a run of instructions that has the form of what a code
array was cut into, and whose references fit, is what its own array is cut into. -/
theorem decodeFrom_encode {code : Bytes} {instructions instructions' : List Instruction} {pc : Nat}
    (h : decodeFrom pc code = .ok instructions)
    (same : List.Forall₂ InstructionOf.SameForm instructions instructions')
    (fits : ∀ i ∈ instructions', Instruction.Fits i) :
    decodeFrom pc (encode instructions') = .ok instructions' := by
  induction same generalizing pc code with
  | nil => rw [encode, List.flatMap_nil, decodeFrom]
  | @cons i i' is is' head tail ih =>
    cases code with
    | nil => rw [decodeFrom] at h; cases h
    | cons opcode rest =>
      rw [decodeFrom] at h
      obtain ⟨n, length, h⟩ := bind_eq_ok.mp h
      split at h
      · cases h
      · next operands rest' split =>
        obtain ⟨rfl, rfl⟩ := Bytes.split?_eq_some split
        obtain ⟨is₀, decoded, h⟩ := bind_eq_ok.mp h
        cases h
        obtain ⟨operands', written, sameLength, again, length'⟩ :=
          Instruction.ofOperands_of_sameForm length head (fits i' (by simp))
        have encoded : encode (i' :: is') = opcode :: (operands' ++ encode is') := by
          rw [encode, List.flatMap_cons, written]
          rfl
        rw [encoded, decodeFrom, length', ok_bind]
        split
        · next none => rw [← sameLength, Bytes.split?_append rfl] at none; cases none
        · next operands₂ rest₂ some =>
          rw [← sameLength, Bytes.split?_append rfl] at some
          cases some
          rw [ih decoded (fun j mem => fits j (List.mem_cons_of_mem _ mem)), again]
          rfl

end Bytecode

end ProcessorBench
