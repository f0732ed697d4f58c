import ProcessorBench.Text.ModifiedUtf8
import ProcessorBench.Proofs.Steps

/-!
# Text in a constant pool

A text is encoded character by character, first as 16-bit units and these as bytes, and decoding
takes off one character, and one unit, at a time. So the encoding of every text is decoded to it:
`ModifiedUtf8.decode_encode`.
-/

namespace ProcessorBench

namespace Utf16

/-- The number of a character is no surrogate. -/
theorem not_surrogate (c : Char) : c.toNat < 0xD800 ∨ 0xDFFF < c.toNat ∧ c.toNat < 0x110000 := c.valid

/-- The first halves of pairs are in one range. -/
theorem isHigh_iff {unit : UInt16} : isHigh unit ↔ 0xD800 ≤ unit.toNat ∧ unit.toNat < 0xDC00 := by
  simp [isHigh, UInt16.le_iff_toNat_le, UInt16.lt_iff_toNat_lt]

/-- The second halves are in the next one. -/
theorem isLow_iff {unit : UInt16} : isLow unit ↔ 0xDC00 ≤ unit.toNat ∧ unit.toNat < 0xE000 := by
  simp [isLow, UInt16.le_iff_toNat_le, UInt16.lt_iff_toNat_lt]

/-- The units of a character are taken for it, whatever follows. -/
theorem decodeAfter_encodeChar (done : Nat) (c : Char) (rest : List UInt16) :
    decodeAfter done (encodeChar c ++ rest) = do return c :: (← decodeAfter (done + 1) rest) := by
  have valid := not_surrogate c
  unfold encodeChar
  split
  · next small =>
    have unit : (UInt16.ofNat c.toNat).toNat = c.toNat := UInt16.toNat_ofNat_of_lt' small
    have high : ¬ isHigh (UInt16.ofNat c.toNat) := by
      rw [isHigh_iff, unit]
      omega
    have low : ¬ isLow (UInt16.ofNat c.toNat) := by
      rw [isLow_iff, unit]
      omega
    rw [List.singleton_append, decodeAfter.eq_def]
    simp only [if_neg high, if_neg low, unit, Char.ofNat_toNat]
  · next large =>
    have first : (UInt16.ofNat (0xD800 + (c.toNat - 0x10000) / 0x400)).toNat =
        0xD800 + (c.toNat - 0x10000) / 0x400 := UInt16.toNat_ofNat_of_lt' (by unfold UInt16.size; omega)
    have second : (UInt16.ofNat (0xDC00 + (c.toNat - 0x10000) % 0x400)).toNat =
        0xDC00 + (c.toNat - 0x10000) % 0x400 := UInt16.toNat_ofNat_of_lt' (by unfold UInt16.size; omega)
    have high : isHigh (UInt16.ofNat (0xD800 + (c.toNat - 0x10000) / 0x400)) := by
      rw [isHigh_iff, first]
      omega
    have low : isLow (UInt16.ofNat (0xDC00 + (c.toNat - 0x10000) % 0x400)) := by
      rw [isLow_iff, second]
      omega
    have whole : 0x10000 + (0xD800 + (c.toNat - 0x10000) / 0x400 - 0xD800) * 0x400 +
        (0xDC00 + (c.toNat - 0x10000) % 0x400 - 0xDC00) = c.toNat := by omega
    rw [List.cons_append, List.singleton_append, decodeAfter.eq_def]
    simp only [if_pos high, if_pos low, pair, first, second, whole, Char.ofNat_toNat]

/-- **The units of a text are decoded to it.** -/
theorem decodeAfter_encode (done : Nat) (text : List Char) : decodeAfter done (encode text) = .ok text := by
  induction text generalizing done with
  | nil => rfl
  | cons c text ih =>
    have rest : decodeAfter (done + 1) (encode text) = .ok text := ih (done + 1)
    rw [encode, List.flatMap_cons, ← encode, decodeAfter_encodeChar, rest]
    rfl

end Utf16

namespace ModifiedUtf8

/-- A byte that continues a sequence gives its six low bits. -/
theorem continuation_of_lt (offset : Nat) {n : Nat} (h : n < 64) :
    continuation offset (UInt8.ofNat (0x80 + n)) = .ok n := by
  have byte : (UInt8.ofNat (0x80 + n)).toNat = 0x80 + n := by
    rw [UInt8.toNat_ofNat', Nat.mod_eq_of_lt (by omega)]
  have inside : 0x80 ≤ UInt8.ofNat (0x80 + n) ∧ UInt8.ofNat (0x80 + n) < 0xC0 := by
    rw [UInt8.le_iff_toNat_le, UInt8.lt_iff_toNat_lt, byte]
    exact ⟨by simp, by simp; omega⟩
  rw [continuation, if_pos inside, byte]
  exact congrArg Except.ok (by omega)

section
variable (offset : Nat) {a : UInt8} {m n : Nat} (rest : Bytes)

/-- One byte stands for itself. -/
theorem unitsFrom_one (first : 0 < a.toNat ∧ a.toNat < 0x80) :
    unitsFrom offset (a :: rest) = do
      return UInt16.ofNat a.toNat :: (← unitsFrom (offset + 1) rest) := by
  have one : 0 < a ∧ a < 0x80 := by
    rw [UInt8.lt_iff_toNat_lt, UInt8.lt_iff_toNat_lt]
    exact first
  rw [unitsFrom.eq_def]
  exact if_pos one

/-- A first byte and a continuation stand for their eleven bits. -/
theorem unitsFrom_two (first : 0xC0 ≤ a.toNat ∧ a.toNat < 0xE0) (low : n < 64) :
    unitsFrom offset (a :: UInt8.ofNat (0x80 + n) :: rest) = do
      return UInt16.ofNat (a.toNat % 32 * 64 + n) :: (← unitsFrom (offset + 2) rest) := by
  have one : ¬ (0 < a ∧ a < 0x80) := by
    rw [UInt8.lt_iff_toNat_lt (b := 0x80)]
    exact fun h => absurd h.2 (Nat.not_lt.mpr (Nat.le_trans (by decide) first.1))
  have two : 0xC0 ≤ a ∧ a < 0xE0 := by
    rw [UInt8.le_iff_toNat_le, UInt8.lt_iff_toNat_lt]
    exact first
  rw [unitsFrom, if_neg one, if_pos two, continuation_of_lt _ low]
  rfl

/-- A first byte and two continuations stand for their sixteen bits. -/
theorem unitsFrom_three (first : 0xE0 ≤ a.toNat ∧ a.toNat < 0xF0) (high : m < 64) (low : n < 64) :
    unitsFrom offset (a :: UInt8.ofNat (0x80 + m) :: UInt8.ofNat (0x80 + n) :: rest) = do
      return UInt16.ofNat ((a.toNat % 16 * 64 + m) * 64 + n) :: (← unitsFrom (offset + 3) rest) := by
  have one : ¬ (0 < a ∧ a < 0x80) := by
    rw [UInt8.lt_iff_toNat_lt (b := 0x80)]
    exact fun h => absurd h.2 (Nat.not_lt.mpr (Nat.le_trans (by decide) first.1))
  have two : ¬ (0xC0 ≤ a ∧ a < 0xE0) := by
    rw [UInt8.lt_iff_toNat_lt]
    exact fun h => absurd h.2 (Nat.not_lt.mpr first.1)
  have three : 0xE0 ≤ a ∧ a < 0xF0 := by
    rw [UInt8.le_iff_toNat_le, UInt8.lt_iff_toNat_lt]
    exact first
  rw [unitsFrom, if_neg one, if_neg two, if_pos three, continuation_of_lt _ high]
  simp only [ok_bind, continuation_of_lt _ low]

/-- The bytes of a unit are taken for it, whatever follows. -/
theorem unitsFrom_encodeUnit (unit : UInt16) :
    unitsFrom offset (encodeUnit unit ++ rest) = do
      return unit :: (← unitsFrom (offset + (encodeUnit unit).length) rest) := by
  have bound := unit.toNat_lt
  have byte : ∀ {n : Nat}, n < 256 → (UInt8.ofNat n).toNat = n := fun small => by
    rw [UInt8.toNat_ofNat', Nat.mod_eq_of_lt small]
  unfold encodeUnit
  by_cases one : 0 < unit.toNat ∧ unit.toNat < 0x80
  · have first := byte (n := unit.toNat) (by omega)
    simp only [if_pos one]
    rw [List.singleton_append, unitsFrom_one offset rest (by omega), first, UInt16.ofNat_toNat]
    rfl
  · by_cases two : unit.toNat < 0x800
    · have first := byte (n := 0xC0 + unit.toNat / 64) (by omega)
      have whole : (0xC0 + unit.toNat / 64) % 32 * 64 + unit.toNat % 64 = unit.toNat := by omega
      simp only [if_neg one, if_pos two]
      rw [List.cons_append, List.singleton_append, unitsFrom_two offset rest (by omega) (by omega), first,
        whole, UInt16.ofNat_toNat]
      rfl
    · have first := byte (n := 0xE0 + unit.toNat / 4096) (by omega)
      have whole : ((0xE0 + unit.toNat / 4096) % 16 * 64 + unit.toNat / 64 % 64) * 64 +
          unit.toNat % 64 = unit.toNat := by omega
      simp only [if_neg one, if_neg two]
      rw [List.cons_append, List.cons_append, List.singleton_append,
        unitsFrom_three offset rest (by omega) (by omega) (by omega), first, whole, UInt16.ofNat_toNat]
      rfl

end

/-- Units that have been encoded are decoded again, wherever the bytes begin. -/
theorem unitsFrom_encode (offset : Nat) (units : List UInt16) :
    unitsFrom offset (units.flatMap encodeUnit) = .ok units := by
  induction units generalizing offset with
  | nil => rfl
  | cons unit units ih =>
    rw [List.flatMap_cons, unitsFrom_encodeUnit, ih]
    rfl

/-- **The encoding of a text is decoded to it.** -/
theorem decode_encode (text : String) : decode (encode text) = .ok text := by
  have found : units (encode text) = .ok (Utf16.encode text.toList) := unitsFrom_encode 0 _
  have decoded : Utf16.decode (Utf16.encode text.toList) = .ok text.toList := Utf16.decodeAfter_encode 0 _
  rw [decode, found, ok_bind, decoded]
  exact congrArg Except.ok String.ofList_toList

end ModifiedUtf8

end ProcessorBench
