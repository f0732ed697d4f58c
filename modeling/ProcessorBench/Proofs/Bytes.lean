import Mathlib.Tactic.Positivity
import Mathlib.Tactic.Ring
import ProcessorBench.Bytes.Basic

/-!
# Big-endian numbers

Writing a number in a field that is wide enough and reading it back gives the number, and reading
any bytes and writing them back gives the bytes. So a fixed-width field has one written form for
each of its values.
-/

namespace ProcessorBench.Bytes

/-- Reading bytes on top of a number moves the number up by their count. -/
theorem foldl_toNat (bytes : Bytes) (acc : Nat) :
    bytes.foldl (fun acc b => acc * 256 + b.toNat) acc = acc * 256 ^ bytes.length + toNat bytes := by
  induction bytes generalizing acc with
  | nil => simp [toNat]
  | cons b bytes ih =>
    have whole : toNat (b :: bytes) = (0 * 256 + b.toNat) * 256 ^ bytes.length + toNat bytes := ih _
    rw [List.foldl_cons, ih, whole, List.length_cons, pow_succ]
    ring

/-- The first byte counts most. -/
theorem toNat_cons (b : UInt8) (bytes : Bytes) :
    toNat (b :: bytes) = b.toNat * 256 ^ bytes.length + toNat bytes := by
  rw [toNat, List.foldl_cons, foldl_toNat, Nat.zero_mul, Nat.zero_add]

/-- A number that has been read fits into its bytes. -/
theorem toNat_lt (bytes : Bytes) : toNat bytes < 256 ^ bytes.length := by
  induction bytes with
  | nil => simp [toNat]
  | cons b bytes ih =>
    have digit := b.toNat_lt
    rw [toNat_cons, List.length_cons, pow_succ]
    calc b.toNat * 256 ^ bytes.length + toNat bytes
        < b.toNat * 256 ^ bytes.length + 256 ^ bytes.length := Nat.add_lt_add_left ih _
      _ = (b.toNat + 1) * 256 ^ bytes.length := by ring
      _ ≤ 256 * 256 ^ bytes.length := Nat.mul_le_mul_right _ digit
      _ = 256 ^ bytes.length * 256 := Nat.mul_comm _ _

/-- Each byte of a number is one of its digits to the base 256. -/
theorem toNat_digit (n place : Nat) :
    (UInt8.ofNat (n >>> (8 * place))).toNat = n / 256 ^ place % 256 := by
  simp only [UInt8.toNat_ofNat', Nat.shiftRight_eq_div_pow, pow_mul, Nat.reducePow]

/-- A number is read back up to what its bytes hold. -/
theorem toNat_ofNat_mod (width n : Nat) : toNat (ofNat width n) = n % 256 ^ width := by
  induction width with
  | zero => simp [ofNat, toNat, Nat.mod_one]
  | succ width ih =>
    rw [ofNat, toNat_cons, ih, length_ofNat, toNat_digit, pow_succ, Nat.mod_mul]
    ring

/-- **A number that fits a field is read back from it.** -/
theorem toNat_ofNat {width n : Nat} (h : n < 256 ^ width) : toNat (ofNat width n) = n := by
  rw [toNat_ofNat_mod, Nat.mod_eq_of_lt h]

/-- What does not fit into the bytes makes no difference. -/
theorem ofNat_mod (width n : Nat) : ofNat width (n % 256 ^ width) = ofNat width n := by
  have digits : ∀ w ≤ width, ofNat w (n % 256 ^ width) = ofNat w n := by
    intro w hw
    induction w with
    | zero => rfl
    | succ w ih =>
      have byte : (n % 256 ^ width / 256 ^ w) % 256 = n / 256 ^ w % 256 := by
        obtain ⟨r, rfl⟩ := Nat.exists_eq_add_of_le hw
        rw [show w + 1 + r = w + (1 + r) by omega, pow_add, Nat.mod_mul_right_div_self, pow_add,
          pow_one, Nat.mod_mul_right_mod]
      rw [ofNat, ofNat, ih (Nat.le_of_succ_le hw)]
      congr 1
      exact UInt8.toNat_inj.mp (by rw [toNat_digit, toNat_digit, byte])
  exact digits width (Nat.le_refl _)

/-- **Bytes are the written form of the number they hold.** -/
theorem ofNat_toNat (bytes : Bytes) : ofNat bytes.length (toNat bytes) = bytes := by
  induction bytes with
  | nil => rfl
  | cons b bytes ih =>
    have low : toNat (b :: bytes) % 256 ^ bytes.length = toNat bytes := by
      rw [toNat_cons, Nat.add_comm, Nat.add_mul_mod_self_right, Nat.mod_eq_of_lt (toNat_lt bytes)]
    have high : toNat (b :: bytes) / 256 ^ bytes.length = b.toNat := by
      rw [toNat_cons, Nat.add_comm, Nat.add_mul_div_right _ _ (by positivity),
        Nat.div_eq_of_lt (toNat_lt bytes), Nat.zero_add]
    rw [List.length_cons, ofNat, ← ofNat_mod bytes.length (toNat (b :: bytes)), low, ih]
    congr 1
    refine UInt8.toNat_inj.mp ?_
    rw [toNat_digit, high, Nat.mod_eq_of_lt b.toNat_lt]

/-- A field is two fields side by side. -/
theorem ofNat_add (high low n : Nat) :
    ofNat (high + low) n = ofNat high (n / 256 ^ low) ++ ofNat low n := by
  induction high with
  | zero => simp [ofNat]
  | succ high ih =>
    rw [show high + 1 + low = (high + low) + 1 by omega, ofNat, ofNat, ih, List.cons_append]
    congr 1
    refine UInt8.toNat_inj.mp ?_
    rw [toNat_digit, toNat_digit, Nat.div_div_eq_div_mul, ← pow_add, Nat.add_comm low]

theorem toNat_ofUInt16 (w : UInt16) : toNat (ofUInt16 w) = w.toNat := toNat_ofNat w.toNat_lt

@[simp] theorem length_ofUInt16 (w : UInt16) : (ofUInt16 w).length = 2 := length_ofNat _ _

/-- Bytes are split where the first of them end. -/
theorem split?_append {n : Nat} {front : Bytes} (h : front.length = n) (rest : Bytes) :
    split? n (front ++ rest) = some (front, rest) := by
  rw [split?_eq, if_pos (by simp [← h])]
  simp [← h]

/-- What bytes are split into makes them up. -/
theorem split?_eq_some {n : Nat} {bytes front rest : Bytes}
    (h : split? n bytes = some (front, rest)) : bytes = front ++ rest ∧ front.length = n := by
  rw [split?_eq] at h
  split at h
  · next enough =>
    cases h
    exact ⟨(List.take_append_drop n bytes).symm, by simp [enough]⟩
  · cases h

end ProcessorBench.Bytes
