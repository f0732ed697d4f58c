import ProcessorBench.Proofs.Bytecode

/-!
# Complete instructions

What `Bytecode.decode` takes for an instruction, said without decoding. `Instruction.Complete` is an
instruction with all of its operand bytes; where it starts matters, since the operands of a switch
are aligned. A code array can be walked exactly when it can be cut into complete instructions, and
what the walk finds are the references of these instructions, in order: `poolOperands_eq_ok`. A
reference lies behind its opcode and inside its instruction, so no two of them share a byte:
`Cut.apart`.
-/

namespace ProcessorBench

/-- The signed number that a word holds. -/
def Bytes.toInt32 (word : Bytes) : Int := (UInt32.ofNat (toNat word)).toInt32.toInt

namespace Instruction

/-! ## One instruction -/

/-- An instruction that starts at offset `pc`, with all of its bytes. -/
inductive Complete (pc : Nat) : Bytes → Prop
  | fixed {opcode : UInt8} {operands : Bytes} :
    Opcode.fixedLength? opcode = some operands.length → Complete pc (opcode :: operands)
  /-- One jump for each number from `low` to `high`; that there is no negative number of them is part
  of the equation. -/
  | tableswitch {padding fallback low high jumps : Bytes} :
    padding.length < 4 → 4 ∣ pc + 1 + padding.length →
    fallback.length = 4 → low.length = 4 → high.length = 4 →
    (jumps.length : Int) = 4 * (Bytes.toInt32 high - Bytes.toInt32 low + 1) →
    Complete pc (Opcode.tableswitch :: (padding ++ (fallback ++ (low ++ (high ++ jumps)))))
  /-- A key and a jump for each pair. -/
  | lookupswitch {padding fallback count pairs : Bytes} :
    padding.length < 4 → 4 ∣ pc + 1 + padding.length →
    fallback.length = 4 → count.length = 4 →
    (pairs.length : Int) = 8 * Bytes.toInt32 count →
    Complete pc (Opcode.lookupswitch :: (padding ++ (fallback ++ (count ++ pairs))))
  | wideIncrement {operands : Bytes} :
    operands.length = 4 → Complete pc (Opcode.wide :: Opcode.iinc :: operands)
  | wide {opcode : UInt8} {operands : Bytes} :
    opcode ≠ Opcode.iinc → operands.length = 2 → Complete pc (Opcode.wide :: opcode :: operands)

/-- A word is read where it stands. -/
theorem int32At?_append_word (before : Bytes) {word : Bytes} (length : word.length = 4) (after : Bytes) :
    int32At? before.length (before ++ (word ++ after)) = some (Bytes.toInt32 word) := by
  rw [int32At?, List.drop_left]
  obtain ⟨a, b, c, d, rfl⟩ := List.length_eq_four.mp length
  rfl

/-- A word behind another is read where it stands. -/
theorem int32At?_append_word_word (before : Bytes) {first word : Bytes} (four : first.length = 4)
    (length : word.length = 4) (after : Bytes) :
    int32At? (before.length + 4) (before ++ (first ++ (word ++ after))) =
      some (Bytes.toInt32 word) := by
  have found := int32At?_append_word (before ++ first) length after
  rwa [List.append_assoc, List.length_append, four] at found

/-- Bytes that are long enough can be cut after any number of them. -/
theorem exists_append {n : Nat} {bytes : Bytes} (h : n ≤ bytes.length) :
    ∃ head rest, bytes = head ++ rest ∧ head.length = n :=
  ⟨bytes.take n, bytes.drop n, (List.take_append_drop n bytes).symm, by simpa using h⟩

variable {pc : Nat} {opcode : UInt8} {operands : Bytes}

/-- A table switch is complete if it holds as many offsets as its bounds ask for. -/
theorem complete_of_tableswitch {low high : Int} {padding : Nat}
    (aligned : padding = (4 - (pc + 1) % 4) % 4)
    (hlow : int32At? (padding + 4) operands = some low)
    (hhigh : int32At? (padding + 8) operands = some high) (order : low ≤ high + 1)
    (length : padding + 12 + (high + 1 - low).toNat * 4 = operands.length) :
    Complete pc (Opcode.tableswitch :: operands) := by
  obtain ⟨gap, rest, rfl, hgap⟩ := @exists_append padding operands (by omega)
  obtain ⟨fallback, rest, rfl, hfallback⟩ := @exists_append 4 rest (by simp at length; omega)
  obtain ⟨low', rest, rfl, hlow'⟩ := @exists_append 4 rest (by simp at length; omega)
  obtain ⟨high', jumps, rfl, hhigh'⟩ := @exists_append 4 rest (by simp at length; omega)
  have same : low = Bytes.toInt32 low' := by
    rw [← hgap, int32At?_append_word_word gap hfallback hlow'] at hlow
    exact (Option.some.inj hlow).symm
  have same' : high = Bytes.toInt32 high' := by
    have found := int32At?_append_word_word (gap ++ fallback) hlow' hhigh' jumps
    rw [List.append_assoc, List.length_append, hgap, hfallback] at found
    exact Option.some.inj (hhigh.symm.trans found)
  simp only [List.length_append, hgap, hfallback, hlow', hhigh'] at length
  exact .tableswitch (by omega) (by omega) hfallback hlow' hhigh' (by omega)

/-- A lookup switch is complete if it holds as many pairs as it says. -/
theorem complete_of_lookupswitch {count : Int} {padding : Nat}
    (aligned : padding = (4 - (pc + 1) % 4) % 4)
    (hcount : int32At? (padding + 4) operands = some count) (positive : 0 ≤ count)
    (length : padding + 8 + count.toNat * 8 = operands.length) :
    Complete pc (Opcode.lookupswitch :: operands) := by
  obtain ⟨gap, rest, rfl, hgap⟩ := @exists_append padding operands (by omega)
  obtain ⟨fallback, rest, rfl, hfallback⟩ := @exists_append 4 rest (by simp at length; omega)
  obtain ⟨count', pairs, rfl, hcount'⟩ := @exists_append 4 rest (by simp at length; omega)
  have same : count = Bytes.toInt32 count' := by
    rw [← hgap, int32At?_append_word_word gap hfallback hcount'] at hcount
    exact (Option.some.inj hcount).symm
  simp only [List.length_append, hgap, hfallback, hcount'] at length
  exact .lookupswitch (by omega) (by omega) hfallback hcount' (by omega)

/-- A wide instruction is complete if it is as long as what it widens needs. -/
theorem complete_of_wide (length : operandLength pc Opcode.wide operands = .ok operands.length) :
    Complete pc (Opcode.wide :: operands) := by
  cases operands with
  | nil => cases length
  | cons next rest =>
    have size : (if next = Opcode.iinc then 5 else 3) = rest.length + 1 := Except.ok.inj length
    split at size
    · next same =>
      subst same
      exact .wideIncrement (by omega)
    · next other => exact .wide other (by omega)

/-- **The bytes that an instruction is measured to take complete it.** -/
theorem complete_of_operandLength (h : operandLength pc opcode operands = .ok operands.length) :
    Complete pc (opcode :: operands) := by
  have whole := h
  unfold operandLength at h
  cases fixed : Opcode.fixedLength? opcode with
  | some n =>
    simp only [fixed, Except.ok.injEq] at h
    exact .fixed (h ▸ fixed)
  | none =>
    simp only [fixed] at h
    split at h
    · next same =>
      obtain ⟨low, hlow, h⟩ := bind_eq_ok.mp h
      obtain ⟨high, hhigh, h⟩ := bind_eq_ok.mp h
      split at hlow <;> cases hlow
      split at hhigh <;> cases hhigh
      split at h
      · rw [same]
        exact complete_of_tableswitch rfl ‹_› ‹_› ‹_› (Except.ok.inj h)
      · cases h
    · split at h
      · next same =>
        obtain ⟨count, hcount, h⟩ := bind_eq_ok.mp h
        split at hcount <;> cases hcount
        split at h
        · rw [same]
          exact complete_of_lookupswitch rfl ‹_› ‹_› (Except.ok.inj h)
        · cases h
      · split at h
        · next same =>
          rw [same] at whole ⊢
          exact complete_of_wide whole
        · cases h

/-- The gap in front of the operands of a switch. -/
theorem padding_eq {padding : Nat} (short : padding < 4) (aligned : 4 ∣ pc + 1 + padding) :
    (4 - (pc + 1) % 4) % 4 = padding := by
  omega

/-- **A complete instruction is measured to take its bytes**, whatever follows. -/
theorem operandLength_of_complete (h : Complete pc (opcode :: operands)) (rest : Bytes) :
    operandLength pc opcode (operands ++ rest) = .ok operands.length := by
  cases h with
  | fixed length => simp only [operandLength, length]
  | @tableswitch padding fallback low high jumps short aligned hfallback hlow hhigh length =>
    have atLow := int32At?_append_word_word padding hfallback hlow
      (high ++ (jumps ++ rest))
    have atHigh := int32At?_append_word_word (padding ++ fallback) hlow hhigh
      (jumps ++ rest)
    simp only [List.append_assoc, List.length_append, hfallback] at atLow atHigh
    have order : Bytes.toInt32 low ≤ Bytes.toInt32 high + 1 := by omega
    have none : Opcode.fixedLength? Opcode.tableswitch = none := by decide
    simp only [operandLength, none, padding_eq short aligned, List.append_assoc, if_true, atLow, atHigh,
      ok_bind, order, List.length_append, hfallback, hlow, hhigh]
    exact congrArg Except.ok (by omega)
  | @lookupswitch padding fallback count pairs short aligned hfallback hcount length =>
    have atCount := int32At?_append_word_word padding hfallback hcount (pairs ++ rest)
    have positive : 0 ≤ Bytes.toInt32 count := by omega
    have none : Opcode.fixedLength? Opcode.lookupswitch = none := by decide
    have other : Opcode.lookupswitch ≠ Opcode.tableswitch := by decide
    simp only [operandLength, none, padding_eq short aligned, List.append_assoc, if_neg other, if_true,
      atCount, ok_bind, positive, List.length_append, hfallback, hcount]
    exact congrArg Except.ok (by omega)
  | wideIncrement length =>
    rw [List.length_cons, length]
    rfl
  | wide other length =>
    rw [List.length_cons, length]
    exact congrArg Except.ok (if_neg other)

/-! ## Its reference -/

/-- Where the reference of an instruction that starts at offset `pc` stands, if it has one. -/
def operandsAt (pc : Nat) : Bytes → List PoolOperand
  | [] => []
  | opcode :: _ => (Opcode.reference? opcode).toList.map (⟨pc + 1, ·⟩)

end Instruction

/-- How many bytes a reference takes. -/
def OperandWidth.size : OperandWidth → Nat
  | .narrow => 1
  | .wide => 2

namespace PoolOperand

/-- The offset behind a reference. -/
def stop (op : PoolOperand) : Nat := op.offset + op.width.size

/-- Whether a reference takes the byte at an offset. -/
def Covers (op : PoolOperand) (n : Nat) : Prop := op.offset ≤ n ∧ n < op.stop

end PoolOperand

namespace Instruction

variable {pc : Nat} {i : Bytes}

/-- The reference of a complete instruction stands behind its opcode and before its end. -/
theorem Complete.operand_inside (h : Complete pc i) {op : PoolOperand} (mem : op ∈ operandsAt pc i) :
    pc < op.offset ∧ op.stop ≤ pc + i.length := by
  cases i with
  | nil => cases mem
  | cons opcode operands =>
    obtain ⟨width, found, rfl⟩ := List.mem_map.mp mem
    obtain ⟨n, fixed, enough⟩ := fixedLength?_of_reference? (Option.mem_toList.mp found)
    have length := operandLength_of_complete h []
    simp only [operandLength, fixed, Except.ok.injEq] at length
    refine ⟨Nat.lt_succ_self pc, ?_⟩
    cases width <;> simp only [PoolOperand.stop, OperandWidth.size, List.length_cons] at enough ⊢ <;>
      omega

/-- An instruction that refers to a constant does so right behind its opcode. -/
theorem mem_operandsAt {opcode : UInt8} {operands : Bytes} {width : OperandWidth}
    (ref : Opcode.reference? opcode = some width) :
    PoolOperand.mk (pc + 1) width ∈ operandsAt pc (opcode :: operands) := by
  rw [operandsAt, ref]
  exact List.mem_singleton_self _

/-- A complete instruction is not empty. -/
theorem Complete.ne_nil (h : Complete pc i) : i ≠ [] := by
  cases h <;> exact List.cons_ne_nil _ _

/-- An instruction that is cut off has the reference that its opcode announces. -/
theorem operandsAt_ofOperands {opcode : UInt8} {operands : Bytes}
    (h : Complete pc (opcode :: operands)) :
    (ofOperands opcode operands).constant.toList.map (fun (width, _) => PoolOperand.mk (pc + 1) width) =
      operandsAt pc (opcode :: operands) := by
  have announced : operandsAt pc (opcode :: operands) =
      (Opcode.reference? opcode).toList.map (⟨pc + 1, ·⟩) := rfl
  have inside : ∀ width, Opcode.reference? opcode = some width → width.size ≤ operands.length := by
    intro width ref
    have stop := (h.operand_inside (mem_operandsAt ref)).2
    simp only [PoolOperand.stop, List.length_cons] at stop
    omega
  rw [announced]
  unfold ofOperands
  cases ref : Opcode.reference? opcode with
  | none => rfl
  | some width =>
    cases width with
    | narrow =>
      obtain ⟨a, rest, rfl⟩ := List.exists_cons_of_length_pos (inside _ ref)
      rfl
    | wide =>
      match operands, inside _ ref with
      | a :: b :: rest, _ => rfl

end Instruction

/-! ## A code array -/

namespace Bytecode

/-- A code array from offset `pc` on, cut into complete instructions. -/
inductive Cut : (pc : Nat) → Bytes → List Bytes → Prop
  | nil {pc : Nat} : Cut pc [] []
  | cons {pc : Nat} {i rest : Bytes} {is : List Bytes} :
    Instruction.Complete pc i → Cut (pc + i.length) rest is → Cut pc (i ++ rest) (i :: is)

/-- The references of a run of instructions that starts at offset `pc`, in order. -/
def operandsIn (pc : Nat) : List Bytes → List PoolOperand
  | [] => []
  | i :: is => Instruction.operandsAt pc i ++ operandsIn (pc + i.length) is

variable {pc : Nat} {code : Bytes} {is : List Bytes} {js : List Instruction}

/-- A code array that is decoded is cut into the instructions it is decoded to. -/
theorem cut_of_decodeFrom (h : decodeFrom pc code = .ok js) :
    Cut pc code (js.map Instruction.bytes) ∧
      operandsFrom pc js = operandsIn pc (js.map Instruction.bytes) := by
  -- By induction along the decoding, which stops where no instruction is left.
  induction pc, code using decodeFrom.induct generalizing js with
  | case1 pc =>
    rw [decodeFrom] at h
    cases h
    exact ⟨.nil, rfl⟩
  | case2 pc opcode rest ih =>
    rw [decodeFrom] at h
    obtain ⟨n, length, h⟩ := bind_eq_ok.mp h
    split at h
    · cases h
    · next operands rest' split =>
      obtain ⟨js, decoded, h⟩ := bind_eq_ok.mp h
      cases h
      obtain ⟨cut, same⟩ := ih _ _ _ split decoded
      obtain ⟨rfl, rfl⟩ := Bytes.split?_eq_some split
      have complete : Instruction.Complete pc (opcode :: operands) := by
        have alone := Instruction.operandLength_append length []
        rw [List.append_nil] at alone
        exact Instruction.complete_of_operandLength alone
      have next : pc + 1 + operands.length = pc + (opcode :: operands).length := by
        rw [List.length_cons]
        omega
      rw [next] at cut same
      rw [List.map_cons, Instruction.bytes_ofOperands, operandsFrom, operandsIn,
        Instruction.operandsAt_ofOperands complete, Instruction.bytes_ofOperands, same]
      exact ⟨.cons complete cut, rfl⟩

/-- A code array that can be cut into complete instructions is decoded to them. -/
theorem Cut.decodeFrom (h : Cut pc code is) :
    ∃ js, decodeFrom pc code = .ok js ∧ js.map Instruction.bytes = is := by
  induction h with
  | nil => exact ⟨[], by rw [Bytecode.decodeFrom], rfl⟩
  | @cons pc i rest is complete _ ih =>
    obtain ⟨opcode, operands, rfl⟩ := List.exists_cons_of_ne_nil complete.ne_nil
    obtain ⟨js, decoded, same⟩ := ih
    refine ⟨Instruction.ofOperands opcode operands :: js, ?_, ?_⟩
    · rw [List.cons_append, Bytecode.decodeFrom, Instruction.operandLength_of_complete complete, ok_bind]
      have next : pc + 1 + operands.length = pc + (opcode :: operands).length := by
        rw [List.length_cons]
        omega
      split
      · next none =>
        rw [Bytes.split?_append rfl] at none
        cases none
      · next some =>
        rw [Bytes.split?_append rfl] at some
        cases some
        rw [next, decoded]
        rfl
    · rw [List.map_cons, Instruction.bytes_ofOperands, same]

/-- **A code array can be walked exactly when it can be cut into complete instructions**, and then
the walk finds their references. -/
theorem poolOperands_eq_ok {ops : List PoolOperand} :
    poolOperands code = .ok ops ↔ ∃ is, Cut 0 code is ∧ ops = operandsIn 0 is := by
  constructor
  · intro h
    obtain ⟨js, decoded, h⟩ := bind_eq_ok.mp h
    cases h
    obtain ⟨cut, same⟩ := cut_of_decodeFrom decoded
    exact ⟨_, cut, same⟩
  · rintro ⟨is, cut, rfl⟩
    obtain ⟨js, decoded, rfl⟩ := cut.decodeFrom
    rw [poolOperands, decode, decoded, ok_bind, (cut_of_decodeFrom decoded).2]
    rfl

/-- Every reference lies inside the code. -/
theorem Cut.inside (h : Cut pc code is) :
    ∀ op ∈ operandsIn pc is, pc < op.offset ∧ op.stop ≤ pc + code.length := by
  induction h with
  | nil => nofun
  | cons complete _ ih =>
    intro op mem
    rw [List.length_append]
    rcases List.mem_append.mp mem with mem | mem
    · have inside := complete.operand_inside mem
      omega
    · have inside := ih op mem
      omega

/-- **References follow one another**: the next one starts behind the last one's end. -/
theorem Cut.apart (h : Cut pc code is) :
    (operandsIn pc is).Pairwise fun a b => a.stop ≤ b.offset := by
  induction h with
  | nil => exact .nil
  | @cons pc i rest is complete tail ih =>
    rw [operandsIn, List.pairwise_append]
    refine ⟨?_, ih, fun a ha b hb => ?_⟩
    · cases i with
      | nil => exact .nil
      | cons opcode operands =>
        rw [Instruction.operandsAt]
        cases Opcode.reference? opcode <;> simp
    · have first := complete.operand_inside ha
      have second := tail.inside b hb
      omega

end Bytecode

end ProcessorBench
