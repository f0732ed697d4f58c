/-!
# Byte strings

A file, an attribute body and a code array are all byte strings, held as lists so that a law about
them is an induction. Numbers in a class file are big-endian: `Bytes.ofNat` writes the low digits of
a number in base 256, most significant first, and `Bytes.toNat` reads them back.
-/

namespace ProcessorBench

/-- A byte string. -/
abbrev Bytes := List UInt8

namespace Bytes

/-- The `width` lowest base-256 digits of `n`, most significant first. -/
def ofNat : (width : Nat) → (n : Nat) → Bytes
  | 0, _ => []
  | width + 1, n => UInt8.ofNat (n >>> (8 * width)) :: ofNat width n

/-- The number whose base-256 digits are these bytes, most significant first. -/
def toNat (bytes : Bytes) : Nat :=
  bytes.foldl (fun acc b => acc * 256 + b.toNat) 0

/-- A 16-bit word, big-endian. -/
def ofUInt16 (w : UInt16) : Bytes := ofNat 2 w.toNat

/-- A 32-bit word, big-endian. -/
def ofUInt32 (w : UInt32) : Bytes := ofNat 4 w.toNat

/-- A 64-bit word, big-endian. -/
def ofUInt64 (w : UInt64) : Bytes := ofNat 8 w.toNat

/-- The first `n` bytes and what follows them, or nothing when there are fewer. -/
def split? : (n : Nat) → Bytes → Option (Bytes × Bytes)
  | 0, bytes => some ([], bytes)
  | _ + 1, [] => none
  | n + 1, b :: bytes => (split? n bytes).map fun (head, rest) => (b :: head, rest)

/-! ## Small laws -/

@[simp] theorem length_ofNat (width n : Nat) : (ofNat width n).length = width := by
  induction width with
  | zero => rfl
  | succ width ih => simp [ofNat, ih]

/-- Splitting succeeds exactly when there are bytes enough, and then loses none. -/
theorem split?_eq (n : Nat) (bytes : Bytes) :
    split? n bytes =
      if n ≤ bytes.length then some (bytes.take n, bytes.drop n) else none := by
  induction n generalizing bytes with
  | zero => simp [split?]
  | succ n ih =>
    cases bytes with
    | nil => simp [split?]
    | cons b bytes =>
      simp only [split?, ih, List.length_cons, Nat.add_le_add_iff_right, List.take_succ_cons,
        List.drop_succ_cons]
      split <;> rfl

/-- What follows a split is never longer than the whole. -/
theorem length_le_of_split? {n : Nat} {bytes head rest : Bytes}
    (h : split? n bytes = some (head, rest)) : rest.length ≤ bytes.length := by
  rw [split?_eq] at h
  split at h
  · injection h with h
    injection h with _ hrest
    subst hrest
    simp
  · exact absurd h (by simp)

end Bytes

end ProcessorBench
