import ProcessorBench.Proofs.Bytes
import ProcessorBench.ClassFile.Normal
import ProcessorBench.Proofs.Instructions

/-!
# Rewriting references in place

References are renumbered by decoding a code array, asking for the new index of each reference and
encoding the result. The same comes out when the indices are written over the old ones while the
array is walked, each reference read from what the steps before have left: `remapOperands_eq`. What
such a walk leaves as it was, and what it writes, is `Bytecode.walk_exact`; the indices may come from
any computation with a state, so an answer may depend on everything asked before.
-/

namespace ProcessorBench

namespace PoolOperand

/-- The index that a code array holds at a reference. -/
def value (op : PoolOperand) (code : Bytes) : PoolIndex :=
  UInt16.ofNat (Bytes.toNat ((code.drop op.offset).take op.width.size))

/-- The code array with another index at a reference. -/
def write (op : PoolOperand) (index : PoolIndex) (code : Bytes) : Bytes :=
  code.take op.offset ++ (Instruction.referenceBytes (op.width, index) ++ code.drop op.stop)

end PoolOperand

namespace Instruction

/-- A reference takes the bytes of its width. -/
theorem length_referenceBytes (width : OperandWidth) (index : PoolIndex) :
    (referenceBytes (width, index)).length = width.size := by
  cases width
  · rfl
  · exact Bytes.length_ofUInt16 index

/-- A reference is read as what was written, if that fits. -/
theorem toNat_referenceBytes {width : OperandWidth} {index : PoolIndex}
    (fits : width = .narrow → index < 256) :
    UInt16.ofNat (Bytes.toNat (referenceBytes (width, index))) = index := by
  cases width with
  | narrow =>
    have small : index.toNat < 256 := UInt16.lt_iff_toNat_lt.mp (fits rfl)
    have byte : Bytes.toNat (referenceBytes (.narrow, index)) = index.toNat := by
      rw [referenceBytes, Bytes.toNat_cons, UInt8.toNat_ofNat', Nat.mod_eq_of_lt small]
      exact Nat.mul_one _
    rw [byte, UInt16.ofNat_toNat]
  | wide => rw [referenceBytes, Bytes.toNat_ofUInt16, UInt16.ofNat_toNat]

/-- The reference that an instruction is cut out with fits. -/
theorem fits_ofOperands (opcode : UInt8) (operands : Bytes) : Fits (ofOperands opcode operands) := by
  intro k h
  unfold ofOperands at h
  split at h
  · next a _ _ =>
    cases h
    exact UInt16.lt_iff_toNat_lt.mpr (by simpa using a.toNat_lt)
  · cases h
  · cases h

end Instruction

namespace Bytecode

variable {σ : Type} (f : PoolIndex → StateT σ (Except ClassError) PoolIndex)

/-- The answer for a reference, which has to fit it. -/
def fitted : OperandWidth → PoolIndex → StateT σ (Except ClassError) PoolIndex
  | .wide, index => f index
  | .narrow, index => do
    let answer ← f index
    unless answer < 256 do throw (.overflow .renumberedLoadOperand)
    return answer

/-- Write the answers over the references, one after the other. -/
def rewrite : List PoolOperand → Bytes → StateT σ (Except ClassError) Bytes
  | [], code => return code
  | op :: ops, code => do
    let index ← fitted f op.width (op.value code)
    rewrite ops (op.write index code)

/-- Write the answers over all references of a code array. -/
def remapOperands (code : Bytes) : StateT σ (Except ClassError) Bytes := do
  rewrite f (← poolOperands code) code

variable {f} {is js : List Instruction}

/-- An answer that fits is the answer. -/
theorem fitted_eq_ok {width : OperandWidth} {index answer : PoolIndex} {s s' : σ}
    (h : fitted f width index s = .ok (answer, s')) :
    f index s = .ok (answer, s') ∧ (width = .narrow → answer < 256) := by
  cases width with
  | wide => exact ⟨h, nofun⟩
  | narrow =>
    obtain ⟨a, t, asked, h⟩ := stateBind_eq_ok.mp h
    split at h
    · next small =>
      cases h
      exact ⟨asked, fun _ => small⟩
    · cases h

/-! ## In place and instruction by instruction -/

/-- Bytes in the middle of an array are read where they stand. -/
theorem value_append {before middle : Bytes} {width : OperandWidth} (size : middle.length = width.size)
    (after : Bytes) :
    (PoolOperand.mk before.length width).value (before ++ (middle ++ after)) =
      UInt16.ofNat (Bytes.toNat middle) := by
  rw [PoolOperand.value, List.drop_left, ← size, List.take_left]

/-- Bytes in the middle of an array are overwritten where they stand. -/
theorem write_append {before middle : Bytes} {width : OperandWidth} (size : middle.length = width.size)
    (index : PoolIndex) (after : Bytes) :
    (PoolOperand.mk before.length width).write index (before ++ (middle ++ after)) =
      before ++ (Instruction.referenceBytes (width, index) ++ after) := by
  rw [PoolOperand.write, PoolOperand.stop, List.take_left, ← size, ← List.append_assoc before middle,
    ← List.length_append, List.drop_left]

theorem encode_cons (i : Instruction) (is : List Instruction) :
    encode (i :: is) = i.bytes ++ encode is := rfl

section MapRef

variable {m : Type → Type} [Monad m] {ι κ : Type} (g : OperandWidth → ι → m κ) (opcode : UInt8)
  (operands : Bytes)

theorem mapRef_none :
    InstructionOf.mapRef g ⟨opcode, none, operands⟩ = pure ⟨opcode, none, operands⟩ := rfl

theorem mapRef_some (width : OperandWidth) (k : ι) :
    InstructionOf.mapRef g ⟨opcode, some (width, k), operands⟩ = do
      return ⟨opcode, some (width, ← g width k), operands⟩ := rfl

end MapRef

/-- **Writing the answers over the references is asking for them instruction by instruction**: an
answer takes the place of its own reference, so the references that follow are read as they were. -/
theorem rewrite_operandsFrom (fits : ∀ i ∈ is, Instruction.Fits i) (before : Bytes) :
    rewrite f (operandsFrom before.length is) (before ++ encode is) = do
      return before ++ encode (← is.mapM (·.mapRef (fitted f))) := by
  induction is generalizing before with
  | nil => simp [operandsFrom, rewrite]
  | cons i is ih =>
    have fits' : ∀ j ∈ is, Instruction.Fits j := fun j mem => fits j (List.mem_cons_of_mem _ mem)
    obtain ⟨opcode, constant, operands⟩ := i
    rw [encode_cons, List.mapM_cons, operandsFrom]
    cases constant with
    | none =>
      have rest := ih fits' (before ++ Instruction.bytes ⟨opcode, none, operands⟩)
      rw [List.length_append, List.append_assoc] at rest
      rw [mapRef_none, pure_bind, Option.toList_none, List.map_nil, List.nil_append, rest]
      simp [encode_cons]
    | some ref =>
      obtain ⟨width, index⟩ := ref
      have size := Instruction.length_referenceBytes width
      have own : index = UInt16.ofNat (Bytes.toNat (Instruction.referenceBytes (width, index))) :=
        (Instruction.toNat_referenceBytes fun same => fits _ List.mem_cons_self index (by rw [same])).symm
      -- The array with an answer `k` in the place of the reference, in the way both sides cut it.
      have array : ∀ k, before ++ (Instruction.bytes ⟨opcode, some (width, k), operands⟩ ++ encode is) =
          (before ++ [opcode]) ++ (Instruction.referenceBytes (width, k) ++ (operands ++ encode is)) := by
        intro k
        simp [Instruction.bytes]
      have same : before.length + 1 = (before ++ [opcode]).length := by simp
      rw [array, Option.toList_some, List.map_singleton, List.singleton_append, same, rewrite,
        value_append (size index), ← own]
      simp only [write_append (size index), mapRef_some, bind_assoc, pure_bind]
      refine bind_congr fun k => ?_
      have rest := ih fits' (before ++ Instruction.bytes ⟨opcode, some (width, k), operands⟩)
      have length : before.length + (Instruction.bytes ⟨opcode, some (width, index), operands⟩).length =
          (before ++ Instruction.bytes ⟨opcode, some (width, k), operands⟩).length := by
        simp [Instruction.bytes, size]
      rw [← array, ← List.append_assoc before, length, rest]
      simp [encode_cons]

/-- The references of instructions cut out of a code array fit. -/
theorem fits_of_decodeFrom {code : Bytes} {pc : Nat} (h : decodeFrom pc code = .ok is) :
    ∀ i ∈ is, Instruction.Fits i := by
  induction pc, code using decodeFrom.induct generalizing is with
  | case1 pc =>
    rw [decodeFrom] at h
    cases h
    exact List.forall_mem_nil _
  | case2 pc opcode rest ih =>
    rw [decodeFrom] at h
    obtain ⟨n, _, h⟩ := bind_eq_ok.mp h
    split at h
    · cases h
    · next operands rest' split =>
      obtain ⟨js, decoded, h⟩ := bind_eq_ok.mp h
      cases h
      exact List.forall_mem_cons.mpr
        ⟨Instruction.fits_ofOperands opcode operands, ih _ _ _ split decoded⟩

/-- Walking a code array and rewriting it in place is decoding it, asking and encoding. -/
theorem remapOperands_eq (code : Bytes) :
    remapOperands f code = do
      return encode (← (← decode code).mapM (·.mapRef (fitted f))) := by
  cases h : decode code with
  | error e => simp [remapOperands, poolOperands, h]; rfl
  | ok is =>
    have whole := rewrite_operandsFrom (f := f) (fits_of_decodeFrom h) []
    rw [List.nil_append, encode_of_decodeFrom h] at whole
    simpa [remapOperands, poolOperands, h] using whole

/-- **What renumbering does to a code array** is writing the new indices over the old ones. -/
theorem renumbering_code_eq (old : ConstantPool) (code : Bytes) :
    Renumbering.code old code = remapOperands (Renumbering.required old) code := by
  have same : Renumbering.operand old = fitted (Renumbering.required old) := by
    funext width index
    cases width <;> rfl
  rw [remapOperands_eq, ← same]
  rfl

/-! ## What is left as it was and what is written -/

/-- The answers are put into instructions of the same form, in the order in which they were asked
for. -/
theorem mapM_mapRef_fitted {s s' : σ}
    (h : is.mapM (·.mapRef (fitted f)) s = .ok (js, s')) :
    List.Forall₂ InstructionOf.SameForm is js ∧ (∀ j ∈ js, Instruction.Fits j) ∧
      (refs is).mapM f s = .ok (refs js, s') := by
  induction is generalizing js s with
  | nil =>
    rw [List.mapM_nil] at h
    cases h
    exact ⟨.nil, nofun, rfl⟩
  | cons i is ih =>
    rw [List.mapM_cons] at h
    obtain ⟨j, t, first, h⟩ := stateBind_eq_ok.mp h
    obtain ⟨js, t', others, h⟩ := stateBind_eq_ok.mp h
    cases h
    obtain ⟨forms, fit, asked⟩ := ih others
    obtain ⟨opcode, constant, operands⟩ := i
    cases constant with
    | none =>
      rw [mapRef_none] at first
      cases first
      exact ⟨.cons ⟨rfl, rfl, rfl⟩ forms, List.forall_mem_cons.mpr ⟨nofun, fit⟩, asked⟩
    -- Only an instruction with a reference asks for something, and that is put in the place of the reference.
    | some ref =>
      obtain ⟨width, index⟩ := ref
      rw [mapRef_some] at first
      obtain ⟨answer, u, given, first⟩ := stateBind_eq_ok.mp first
      cases first
      obtain ⟨given, small⟩ := fitted_eq_ok given
      refine ⟨.cons ⟨rfl, rfl, rfl⟩ forms, List.forall_mem_cons.mpr ⟨?_, fit⟩, ?_⟩
      · rintro _ ⟨⟩
        exact small rfl
      · show (index :: refs is).mapM f s = .ok (answer :: refs js, s')
        rw [List.mapM_cons, stateBind_of_ok given, stateBind_of_ok asked]
        rfl

variable {pc : Nat}

/-- Instructions of the same form take the same number of bytes. -/
theorem length_encode_of_sameForm (h : List.Forall₂ InstructionOf.SameForm is js) :
    (encode is).length = (encode js).length := by
  induction h with
  | nil => rfl
  | cons head _ ih =>
    rw [encode_cons, encode_cons, List.length_append, List.length_append, Instruction.length_bytes,
      Instruction.length_bytes, head.size_eq, ih]

/-- Instructions of the same form have their references in the same places. -/
theorem operandsFrom_of_sameForm (h : List.Forall₂ InstructionOf.SameForm is js) :
    operandsFrom pc is = operandsFrom pc js := by
  induction h generalizing pc with
  | nil => rfl
  | @cons i j _ _ head _ ih =>
    have widths : i.constant.toList.map (·.1) = j.constant.toList.map (·.1) := by
      rw [← Option.toList_map, ← Option.toList_map, head.width]
    have own := congrArg (List.map (PoolOperand.mk (pc + 1))) widths
    rw [List.map_map, List.map_map] at own
    rw [operandsFrom, operandsFrom, Instruction.length_bytes, Instruction.length_bytes, head.size_eq, ih]
    exact congrArg (· ++ _) own

/-- Two instructions of the same form have the same bytes outside their reference. -/
theorem getElem?_bytes_of_sameForm {i j : Instruction} (h : i.SameForm j) {n : Nat}
    (outside : ∀ op ∈ i.constant.toList.map (fun (width, _) => PoolOperand.mk (pc + 1) width),
      ¬ op.Covers (pc + n)) : i.bytes[n]? = j.bytes[n]? := by
  obtain ⟨opcode, constant, operands⟩ := i
  obtain ⟨_, constant', _⟩ := j
  obtain ⟨rfl, width, rfl⟩ := h
  cases n with
  | zero => rfl
  | succ n =>
    simp only [Instruction.bytes, List.getElem?_cons_succ]
    cases constant with
    | none =>
      rw [Option.map_none, eq_comm, Option.map_eq_none_iff] at width
      subst width
      rfl
    | some c =>
      obtain ⟨⟨w, k'⟩, rfl, same⟩ := Option.map_eq_some_iff.mp width.symm
      obtain ⟨_, k⟩ := c
      cases same
      have length := Instruction.length_referenceBytes w
      have beyond : w.size ≤ n := by
        have := outside ⟨pc + 1, w⟩ (by simp)
        simp only [PoolOperand.Covers, PoolOperand.stop] at this
        omega
      simp only [Option.map_some, Option.getD_some]
      rw [List.getElem?_append_right (by rwa [length]), List.getElem?_append_right (by rwa [length]),
        length, length]

/-- Instructions of the same form have the same bytes outside their references. -/
theorem getElem?_encode_of_sameForm (h : List.Forall₂ InstructionOf.SameForm is js) (pc : Nat) {n : Nat}
    (outside : ∀ op ∈ operandsFrom pc is, ¬ op.Covers (pc + n)) :
    (encode is)[n]? = (encode js)[n]? := by
  induction h generalizing pc n with
  | nil => rfl
  | @cons i j is js head _ ih =>
    have length : i.bytes.length = j.bytes.length := by
      rw [Instruction.length_bytes, Instruction.length_bytes, head.size_eq]
    rw [operandsFrom, List.forall_mem_append] at outside
    rw [encode_cons, encode_cons]
    rcases Nat.lt_or_ge n i.bytes.length with within | beyond
    · rw [List.getElem?_append_left within, List.getElem?_append_left (length ▸ within)]
      exact getElem?_bytes_of_sameForm head outside.1
    · rw [List.getElem?_append_right beyond, List.getElem?_append_right (length ▸ beyond), ← length]
      refine ih (pc + i.bytes.length) fun op mem => ?_
      have position : pc + i.bytes.length + (n - i.bytes.length) = pc + n := by omega
      rw [position]
      exact outside.2 op mem

/-- What an encoded run of instructions holds at its references is what the instructions refer to. -/
theorem map_value_encode (fits : ∀ i ∈ is, Instruction.Fits i) (before : Bytes) :
    (operandsFrom before.length is).map (·.value (before ++ encode is)) = refs is := by
  induction is generalizing before with
  | nil => rfl
  | cons i is ih =>
    have rest := ih (fun j mem => fits j (List.mem_cons_of_mem _ mem)) (before ++ i.bytes)
    rw [List.length_append, List.append_assoc, ← encode_cons] at rest
    rw [operandsFrom, List.map_append, rest]
    obtain ⟨opcode, constant, operands⟩ := i
    cases constant with
    | none => rfl
    | some ref =>
      obtain ⟨width, index⟩ := ref
      have array : before ++ encode (⟨opcode, some (width, index), operands⟩ :: is) =
          (before ++ [opcode]) ++ (Instruction.referenceBytes (width, index) ++ (operands ++ encode is)) := by
        simp [encode_cons, Instruction.bytes]
      have same : before.length + 1 = (before ++ [opcode]).length := by simp
      rw [array, Option.toList_some, List.map_singleton, List.map_singleton, same,
        value_append (Instruction.length_referenceBytes width index),
        Instruction.toNat_referenceBytes fun narrow => fits _ List.mem_cons_self index (by rw [narrow])]
      rfl

theorem map_value_of_decode {code : Bytes} (h : decode code = .ok is) :
    (operandsFrom 0 is).map (·.value code) = refs is := by
  have values := map_value_encode (fits_of_decodeFrom h) []
  rwa [List.nil_append, encode_of_decodeFrom h] at values

theorem poolOperands_of_decode {code : Bytes} (h : decode code = .ok is) :
    poolOperands code = .ok (operandsFrom 0 is) := by
  rw [poolOperands, h]
  rfl

/-- **Rewriting cannot be seen by the walk**: the array keeps its length, its references and all
bytes outside them, and holds at each reference the answer for what stood there. -/
theorem of_remapOperands {code code' : Bytes} {s s' : σ}
    (h : remapOperands f code s = .ok (code', s')) :
    ∃ ops ks, poolOperands code = .ok ops ∧ poolOperands code' = .ok ops ∧
      code'.length = code.length ∧
      (∀ n, (∀ op ∈ ops, ¬ op.Covers n) → code'[n]? = code[n]?) ∧
      (ops.map (·.value code)).mapM f s = .ok (ks, s') ∧ ops.map (·.value code') = ks := by
  rw [remapOperands_eq] at h
  obtain ⟨is, t, decoded, h⟩ := stateBind_eq_ok.mp h
  obtain ⟨js, t', mapped, h⟩ := stateBind_eq_ok.mp h
  cases h
  cases decode_ok : decode code with
  | error e =>
    rw [decode_ok] at decoded
    cases decoded
  | ok is =>
    rw [decode_ok] at decoded
    cases decoded
    obtain ⟨forms, fit, asked⟩ := mapM_mapRef_fitted mapped
    have again : decode (encode js) = .ok js := decodeFrom_encode decode_ok forms fit
    have whole : encode is = code := encode_of_decodeFrom decode_ok
    have places : operandsFrom 0 is = operandsFrom 0 js := operandsFrom_of_sameForm forms
    refine ⟨operandsFrom 0 is, refs js, poolOperands_of_decode decode_ok, ?_, ?_, fun n outside => ?_,
      ?_, ?_⟩
    · rw [places]
      exact poolOperands_of_decode again
    · rw [← whole, length_encode_of_sameForm forms]
    · rw [← whole]
      exact (getElem?_encode_of_sameForm forms 0 (by simpa using outside)).symm
    · rwa [map_value_of_decode decode_ok]
    · rw [places]
      exact map_value_of_decode again

/-- **The walk over a code array is exact, and rewriting its references is invisible to it.** It
succeeds on the arrays that are cut into complete instructions and finds the references of these, all
of them inside the array and none overlapping another. Renumbering writes over these references one
after the other; whatever computation the new indices come from, a rewriting that succeeds leaves the
length, all other bytes and the result of the walk, and puts each answer in the place it was asked
for. -/
theorem walk_exact (code : Bytes) :
    (∀ ops, poolOperands code = .ok ops ↔
      ∃ is, Cut 0 code is ∧ ops = operandsIn 0 is) ∧
    (∀ ops, poolOperands code = .ok ops →
      (∀ op ∈ ops, op.stop ≤ code.length) ∧ ops.Pairwise fun a b => a.stop ≤ b.offset) ∧
    (∀ old, Renumbering.code old code = remapOperands (Renumbering.required old) code) ∧
    ∀ (σ : Type) (f : PoolIndex → StateT σ (Except ClassError) PoolIndex) (s s' : σ) (code' : Bytes),
      remapOperands f code s = .ok (code', s') →
      ∃ ops ks, poolOperands code = .ok ops ∧ poolOperands code' = .ok ops ∧
        code'.length = code.length ∧
        (∀ n, (∀ op ∈ ops, ¬ op.Covers n) → code'[n]? = code[n]?) ∧
        (ops.map (·.value code)).mapM f s = .ok (ks, s') ∧ ops.map (·.value code') = ks := by
  refine ⟨fun ops => poolOperands_eq_ok, fun ops h => ?_, fun old => renumbering_code_eq old code,
    fun σ f s s' code' h => of_remapOperands h⟩
  obtain ⟨is, cut, rfl⟩ := poolOperands_eq_ok.mp h
  exact ⟨fun op mem => by simpa using (cut.inside op mem).2, cut.apart⟩

/-- Asking for the indices of a load, of a field and of nothing, where the answer is the index plus
how many were asked for before. -/
theorem walk_exact_counting :
    let count : PoolIndex → StateT PoolIndex (Except ClassError) PoolIndex := fun k asked =>
      .ok (k + asked, asked + 1)
    remapOperands count [0x12, 7, 0xb2, 0, 3, 0xb1] 0 = .ok ([0x12, 7, 0xb2, 0, 4, 0xb1], 2) ∧
    ∃ ops ks, poolOperands [0x12, 7, 0xb2, 0, 3, 0xb1] = .ok ops ∧
      poolOperands [0x12, 7, 0xb2, 0, 4, 0xb1] = .ok ops ∧
      (ops.map (·.value [0x12, 7, 0xb2, 0, 3, 0xb1])).mapM count 0 = .ok (ks, 2) ∧
      ops.map (·.value [0x12, 7, 0xb2, 0, 4, 0xb1]) = ks := by
  intro count
  have rewritten : remapOperands count [0x12, 7, 0xb2, 0, 3, 0xb1] 0 =
      .ok ([0x12, 7, 0xb2, 0, 4, 0xb1], 2) := by decide +kernel
  obtain ⟨ops, ks, found, again, _, _, asked, held⟩ :=
    (walk_exact [0x12, 7, 0xb2, 0, 3, 0xb1]).2.2.2 _ count 0 2 _ rewritten
  exact ⟨rewritten, ops, ks, found, again, asked, held⟩

end Bytecode

end ProcessorBench
