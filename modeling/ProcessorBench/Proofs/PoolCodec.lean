import ProcessorBench.ClassFile.Pool
import ProcessorBench.Proofs.Reading

/-!
# Constants and pools, written and read

A constant is read from its bytes and from no others; a pool is read as the constants that its slots
are filled with, one after another.
-/

namespace ProcessorBench

namespace Constant

open Reader

/-- A double is read as two words, and these are the words it is written as. -/
theorem double_eq_ok {bytes rest : Bytes} {c : Constant} :
    ((do
      let high ← number 4
      let low ← number 4
      return .double (UInt64.ofNat ((high <<< 32) + low)) : Reader ClassError Constant) bytes) =
        .ok (c, rest) ↔ ∃ bits, c = .double bits ∧ bytes = Bytes.ofUInt64 bits ++ rest := by
  have halves : ∀ n, Bytes.ofNat 8 n = Bytes.ofNat 4 (n / 2 ^ 32) ++ Bytes.ofNat 4 (n % 2 ^ 32) :=
    fun n => by
      rw [Bytes.ofNat_add 4 4 n]
      congr 1
      exact (Bytes.ofNat_mod 4 n).symm
  simp only [stateBind_eq_ok, number_eq_ok, pure_eq_ok]
  constructor
  · rintro ⟨high, _, ⟨hhigh, rfl⟩, low, _, ⟨hlow, rfl⟩, rfl, rfl⟩
    simp only [Nat.reducePow] at hhigh hlow
    have whole : (high <<< 32 + low) < UInt64.size := by
      rw [Nat.shiftLeft_eq]
      simp only [UInt64.size]
      omega
    have first : (high <<< 32 + low) / 2 ^ 32 = high := by rw [Nat.shiftLeft_eq]; omega
    have last : (high <<< 32 + low) % 2 ^ 32 = low := by rw [Nat.shiftLeft_eq]; omega
    refine ⟨_, rfl, ?_⟩
    rw [Bytes.ofUInt64, UInt64.toNat_ofNat_of_lt' whole, halves, first, last, List.append_assoc]
  · rintro ⟨bits, rfl, rfl⟩
    have small := bits.toNat_lt
    refine ⟨bits.toNat / 2 ^ 32, _, ⟨by simp only [Nat.reducePow] at *; omega, ?_⟩,
      bits.toNat % 2 ^ 32, rest, ⟨by simp only [Nat.reducePow]; omega, rfl⟩, ?_, rfl⟩
    · rw [Bytes.ofUInt64, halves, List.append_assoc]
    · rw [Nat.shiftLeft_eq, Nat.div_add_mod', UInt64.ofNat_toNat]

/-- What is read as a constant is the written form of it. -/
theorem of_read {index : PoolIndex} {bytes rest : Bytes} {c : Constant} (run : read index bytes = .ok (c, rest)) :
    c.check = .ok () ∧ bytes = c.bytes ++ rest := by
  unfold read at run
  rw [stateBind_eq_ok] at run
  simp only [u8_eq_ok] at run
  obtain ⟨tag, rest', rfl, run⟩ := run
  split at run
  case h_5 =>
    obtain ⟨bits, rfl, rfl⟩ := double_eq_ok.mp run
    exact ⟨rfl, rfl⟩
  -- No constant has any other tag.
  case h_18 => cases run
  all_goals simp only [stateBind_eq_ok, u8_eq_ok, u16_eq_ok, u32_eq_ok, number_eq_ok, take_eq_ok,
    pure_eq_ok] at run
  -- The length of a text is read before it, and written from it again.
  case h_1 =>
    obtain ⟨length, _, rfl, text, _, ⟨same, rfl⟩, rfl, rfl⟩ := run
    refine ⟨if_pos (same ▸ length.toNat_lt), ?_⟩
    simp [Constant.bytes, ConstantOf.tag, payload, same, Bytes.ofUInt16]
  case h_2 =>
    obtain ⟨w, _, rfl, rfl, rfl⟩ := run
    exact ⟨rfl, by simp [Constant.bytes, ConstantOf.tag, payload]⟩
  case h_3 =>
    obtain ⟨w, _, rfl, rfl, rfl⟩ := run
    exact ⟨rfl, rfl⟩
  case h_4 =>
    obtain ⟨n, _, ⟨small, rfl⟩, rfl, rfl⟩ := run
    refine ⟨rfl, ?_⟩
    simp [Constant.bytes, ConstantOf.tag, payload, Bytes.ofUInt64, UInt64.toNat_ofNat_of_lt' small]
  -- The constants with one reference, and then those with two, or with a kind and a reference.
  case h_6 | h_7 | h_13 | h_16 | h_17 =>
    obtain ⟨i, _, rfl, rfl, rfl⟩ := run
    exact ⟨rfl, rfl⟩
  all_goals
    obtain ⟨i, _, rfl, j, _, rfl, rfl, rfl⟩ := run
    exact ⟨rfl, by simp [Constant.bytes, ConstantOf.tag, payload]⟩

/-- The written form of a constant is read as the constant. -/
theorem read_bytes {c : Constant} (checked : c.check = .ok ()) (index : PoolIndex) (rest : Bytes) :
    read index (c.bytes ++ rest) = .ok (c, rest) := by
  unfold read
  rw [stateBind_eq_ok]
  simp only [u8_eq_ok]
  refine ⟨c.tag, payload c ++ rest, rfl, ?_⟩
  cases c with
  | utf8 text =>
    simp only [check] at checked
    split at checked
    · next small =>
      have length : (UInt16.ofNat text.length).toNat = text.length := UInt16.toNat_ofNat_of_lt' small
      have text' : Bytes.ofNat 2 text.length = Bytes.ofUInt16 (UInt16.ofNat text.length) := by
        rw [Bytes.ofUInt16, length]
      have again : (take text.length >>= fun text => pure (ConstantOf.utf8 text) :
          Reader ClassError Constant) (text ++ rest) = .ok (.utf8 text, rest) := take_bind text _
      rw [← length] at again
      simp only [payload, ConstantOf.tag, text', List.append_assoc, u16_bind]
      exact again
    · cases checked
  | double bits => exact double_eq_ok.mpr ⟨bits, rfl, rfl⟩
  | long value =>
    have small : value.toUInt64.toNat < 256 ^ 8 := value.toUInt64.toNat_lt
    simp only [payload, ConstantOf.tag, Bytes.ofUInt64, number_bind small, pure_eq_ok]
    simp
  | integer value =>
    simp only [payload, ConstantOf.tag, u32_bind, pure_eq_ok]
    simp
  | _ =>
    simp only [payload, ConstantOf.tag, List.append_assoc, List.cons_append, u8_bind, u16_bind,
      u32_bind]
    rfl

/-- **A constant is read from its bytes**, and only one that can be written is read. -/
theorem read_eq_ok {index : PoolIndex} {bytes rest : Bytes} {c : Constant} :
    read index bytes = .ok (c, rest) ↔ c.check = .ok () ∧ bytes = c.bytes ++ rest := by
  constructor
  · exact of_read
  · rintro ⟨checked, rfl⟩
    exact read_bytes checked index rest

end Constant

namespace ConstantPool

/-- The constants, put after `n` slots one by one, reach a count with the last of them. -/
def Reaches (count : Nat) : (n : Nat) → List Constant → Prop
  | n, [] => count ≤ n
  | n, c :: cs => n < count ∧ Reaches count (n + c.slots) cs

/-- **A pool is read as the constants that fill its slots.** -/
theorem readUpTo_eq_ok {count : Nat} {pool p : ConstantPool} {bytes rest : Bytes} :
    readUpTo count pool bytes = .ok (p, rest) ↔
      ∃ cs : List Constant, (Reaches count pool.slotCount cs ∧ ∀ c ∈ cs, c.check = .ok ()) ∧
        p = cs.foldl push pool ∧ bytes = cs.flatMap Constant.bytes ++ rest := by
  induction pool using readUpTo.induct count generalizing bytes with
  | case1 pool below ih =>
    rw [readUpTo, if_pos below]
    simp only [stateBind_eq_ok, Constant.read_eq_ok, ih, slotCount_push]
    constructor
    · rintro ⟨c, _, ⟨checked, rfl⟩, cs, ⟨reaches, all⟩, rfl, rfl⟩
      exact ⟨c :: cs, ⟨⟨below, reaches⟩, List.forall_mem_cons.mpr ⟨checked, all⟩⟩, rfl, by simp⟩
    · rintro ⟨cs, ⟨reaches, all⟩, rfl, rfl⟩
      cases cs with
      | nil => exact absurd below (Nat.not_lt.mpr reaches)
      | cons c cs =>
        obtain ⟨checked, all⟩ := List.forall_mem_cons.mp all
        exact ⟨c, _, ⟨checked, by simp⟩, cs, ⟨reaches.2, all⟩, rfl, rfl⟩
  | case2 pool reached =>
    rw [readUpTo, if_neg reached, Reader.pure_eq_ok]
    constructor
    · rintro ⟨rfl, rfl⟩
      exact ⟨[], ⟨Nat.not_lt.mp reached, nofun⟩, rfl, rfl⟩
    · rintro ⟨cs, ⟨reaches, _⟩, rfl, rfl⟩
      cases cs with
      | nil => exact ⟨rfl, rfl⟩
      | cons c cs => exact absurd reaches.1 reached

/-- Constants that are added take their slots. -/
theorem slotCount_foldl_push (cs : List Constant) (pool : ConstantPool) :
    (cs.foldl push pool).slotCount = pool.slotCount + (cs.map (·.slots)).sum := by
  induction cs generalizing pool with
  | nil => rfl
  | cons c cs ih =>
    rw [List.foldl_cons, ih, slotCount_push, List.map_cons, List.sum_cons, Nat.add_assoc]

/-- A constant is added behind all others. -/
theorem constants_push (pool : ConstantPool) (c : Constant) :
    (pool.push c).constants = pool.constants ++ [c] := by
  unfold push constants
  split <;> simp

/-- Constants are added behind all others, in their order. -/
theorem constants_foldl_push (cs : List Constant) (pool : ConstantPool) :
    (cs.foldl push pool).constants = pool.constants ++ cs := by
  induction cs generalizing pool with
  | nil => simp
  | cons c cs ih => rw [List.foldl_cons, ih, constants_push, List.append_assoc, List.singleton_append]

/-- Constants of one slot stand in one slot each. -/
theorem entries_foldl_push {cs : List Constant} (single : ∀ c ∈ cs, c.isWide = false)
    (pool : ConstantPool) :
    (cs.foldl push pool).entries.toList = pool.entries.toList ++ cs.map some := by
  induction cs generalizing pool with
  | nil => simp
  | cons c cs ih =>
    obtain ⟨first, rest⟩ := List.forall_mem_cons.mp single
    rw [List.foldl_cons, ih rest, push, first]
    simp

/-- Constants of one slot each stand in the slots from 1 on. -/
theorem get_built {cs : List Constant} (single : ∀ c ∈ cs, c.isWide = false) {n : Nat} {c : Constant}
    (h : cs[n]? = some c) (small : n + 1 < UInt16.size) :
    (cs.foldl push empty).get (UInt16.ofNat (n + 1)) = .ok c := by
  have entry : (cs.foldl push empty).entries[n + 1]? = some (some c) := by
    rw [← Array.getElem?_toList, entries_foldl_push single]
    simpa [empty] using h
  rw [get, UInt16.toNat_ofNat_of_lt' small, entry]

/-- Constants that fill the slots exactly reach their number. -/
theorem reaches_sum (cs : List Constant) (n : Nat) : Reaches (n + (cs.map (·.slots)).sum) n cs := by
  induction cs generalizing n with
  | nil => exact Nat.le_refl _
  | cons c cs ih =>
    have := c.slots_pos
    rw [List.map_cons, List.sum_cons, ← Nat.add_assoc]
    exact ⟨by omega, ih _⟩

/-- A pool can be written if its slots can be counted and its constants can be written. -/
theorem check_eq_ok {pool : ConstantPool} :
    pool.check = .ok () ↔
      pool.slotCount < UInt16.size ∧ ∀ c ∈ pool.constants, c.check = .ok () := by
  rw [check, ← forM_eq_ok, List.forM_eq_forM]
  split
  · next small => exact ⟨fun h => ⟨small, h⟩, fun h => h.2⟩
  · next large => exact ⟨nofun, fun h => absurd h.1 large⟩

/-- A pool that is read where `count` slots are announced. -/
structure Announced (count : Nat) (pool : ConstantPool) : Prop where
  small : count < UInt16.size
  built : ∃ cs : List Constant, Reaches count empty.slotCount cs ∧ pool = cs.foldl push empty
  checked : ∀ c ∈ pool.constants, c.check = .ok ()

/-- Only a wide constant goes beyond a count that it reaches, and by one slot. -/
theorem Reaches.sum_le {count n : Nat} {cs : List Constant} (h : Reaches count n cs)
    (le : n ≤ count + 1) : n + (cs.map (·.slots)).sum ≤ count + 1 := by
  induction cs generalizing n with
  | nil => exact le
  | cons c cs ih =>
    obtain ⟨below, rest⟩ := h
    have := c.slots_le_two
    have reached := ih rest (by omega)
    rw [List.map_cons, List.sum_cons, ← Nat.add_assoc]
    exact reached

/-- A pool that has been announced has no more slots than can be numbered. -/
theorem Announced.slotCount_le {count : Nat} {pool : ConstantPool} (h : pool.Announced count) :
    pool.slotCount ≤ UInt16.size := by
  obtain ⟨cs, reaches, rfl⟩ := h.built
  have reached := reaches.sum_le (Nat.le_add_left 1 count)
  rw [slotCount_foldl_push]
  exact Nat.le_trans reached h.small

/-- A constant that stands in a slot is one of the constants. -/
theorem mem_constants_of_get {pool : ConstantPool} {i : PoolIndex} {c : Constant}
    (h : pool.get i = .ok c) : c ∈ pool.constants := by
  unfold get at h
  split at h
  · next found =>
    cases h
    have mem : some c ∈ pool.entries.toList := by
      rw [Array.mem_toList_iff]
      exact Array.mem_of_getElem? found
    exact List.mem_filterMap.mpr ⟨_, mem, rfl⟩
  · cases h

/-- A pool has the constants that it has been built from. -/
theorem constants_built (cs : List Constant) : (cs.foldl push empty).constants = cs := by
  rw [constants_foldl_push]
  rfl

/-- **A pool is read from the count and its constants.** -/
theorem read_eq_ok {pool : ConstantPool} {bytes rest : Bytes} :
    read bytes = .ok (pool, rest) ↔ ∃ count, pool.Announced count ∧
      bytes = Bytes.ofNat 2 count ++ (pool.constants.flatMap Constant.bytes ++ rest) := by
  simp only [read, stateBind_eq_ok, Reader.u16_eq_ok, readUpTo_eq_ok]
  constructor
  · rintro ⟨count, _, rfl, cs, ⟨reaches, all⟩, rfl, rfl⟩
    refine ⟨count.toNat, ⟨count.toNat_lt, ⟨cs, reaches, rfl⟩, ?_⟩, ?_⟩
    · rwa [constants_built]
    · rw [constants_built]
      rfl
  · rintro ⟨count, ⟨small, ⟨cs, reaches, rfl⟩, checked⟩, rfl⟩
    rw [constants_built] at checked ⊢
    have number : (UInt16.ofNat count).toNat = count := UInt16.toNat_ofNat_of_lt' small
    exact ⟨UInt16.ofNat count, _, by rw [Bytes.ofUInt16, number], cs,
      ⟨by rwa [number], checked⟩, rfl, rfl⟩

/-- A pool that has been built and can be written announces its own slots. -/
theorem announced_slotCount {pool : ConstantPool}
    (built : ∃ cs : List Constant, pool = cs.foldl push empty) (checked : pool.check = .ok ()) :
    pool.Announced pool.slotCount := by
  obtain ⟨cs, rfl⟩ := built
  obtain ⟨small, all⟩ := check_eq_ok.mp checked
  refine ⟨small, ⟨cs, ?_, rfl⟩, all⟩
  rw [slotCount_foldl_push]
  exact reaches_sum cs _

end ConstantPool

end ProcessorBench
