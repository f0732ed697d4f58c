import Mathlib.Data.List.Forall2
import ProcessorBench.Bytes.Reader
import ProcessorBench.Proofs.Bytes
import ProcessorBench.Proofs.Steps

/-!
# What a reader takes

A reader of fields is described by what it takes: `read bytes = .ok (a, rest)` exactly when `bytes`
is the written form of `a` and then `rest`. Read from left to right this says that nothing is lost,
from right to left that what is written is read back. The description of a reader that is made of
others comes out of theirs by rewriting with the equivalences below.
-/

namespace ProcessorBench.Reader

variable {ε α β : Type} {bytes rest : Bytes}

theorem pure_eq_ok {a b : α} :
    (pure a : Reader ε α) bytes = .ok (b, rest) ↔ b = a ∧ bytes = rest := by
  constructor
  · intro h
    cases h
    exact ⟨rfl, rfl⟩
  · rintro ⟨rfl, rfl⟩
    rfl

/-- Taking bytes takes as many of them from the front. -/
theorem take_eq_ok {n : Nat} {front : Bytes} :
    (take n : Reader ε Bytes) bytes = .ok (front, rest) ↔
      front.length = n ∧ bytes = front ++ rest := by
  unfold take
  constructor
  · intro h
    split at h
    · next found =>
      cases h
      obtain ⟨whole, length⟩ := Bytes.split?_eq_some found
      exact ⟨length, whole⟩
    · cases h
  · rintro ⟨length, rfl⟩
    rw [Bytes.split?_append length]

/-- A number is read from the bytes that it is written as, and from no others. -/
theorem number_eq_ok {width n : Nat} :
    (number width : Reader ε Nat) bytes = .ok (n, rest) ↔
      n < 256 ^ width ∧ bytes = Bytes.ofNat width n ++ rest := by
  unfold number
  simp only [stateBind_eq_ok, take_eq_ok, pure_eq_ok]
  constructor
  · rintro ⟨front, _, ⟨rfl, rfl⟩, rfl, rfl⟩
    exact ⟨Bytes.toNat_lt front, by rw [Bytes.ofNat_toNat]⟩
  · rintro ⟨small, rfl⟩
    exact ⟨_, rest, ⟨Bytes.length_ofNat _ _, rfl⟩, (Bytes.toNat_ofNat small).symm, rfl⟩

/-- One byte is read as it is. -/
theorem u8_eq_ok {b : UInt8} : (u8 : Reader ε UInt8) bytes = .ok (b, rest) ↔ bytes = b :: rest := by
  unfold u8
  simp only [stateBind_eq_ok, number_eq_ok, pure_eq_ok]
  constructor
  · rintro ⟨n, _, ⟨small, rfl⟩, rfl, rfl⟩
    rfl
  · rintro rfl
    refine ⟨b.toNat, rest, ⟨b.toNat_lt, ?_⟩, by simp, rfl⟩
    simp [Bytes.ofNat]

/-- A number of two bytes is read from those that it is written as. -/
theorem u16_eq_ok {w : UInt16} :
    (u16 : Reader ε UInt16) bytes = .ok (w, rest) ↔ bytes = Bytes.ofUInt16 w ++ rest := by
  unfold u16
  simp only [stateBind_eq_ok, number_eq_ok, pure_eq_ok]
  constructor
  · rintro ⟨n, _, ⟨small, rfl⟩, rfl, rfl⟩
    rw [Bytes.ofUInt16, UInt16.toNat_ofNat_of_lt' small]
  · rintro rfl
    exact ⟨w.toNat, rest, ⟨w.toNat_lt, rfl⟩, by simp, rfl⟩

/-- A number of four bytes is read from those that it is written as. -/
theorem u32_eq_ok {w : UInt32} :
    (u32 : Reader ε UInt32) bytes = .ok (w, rest) ↔ bytes = Bytes.ofUInt32 w ++ rest := by
  unfold u32
  simp only [stateBind_eq_ok, number_eq_ok, pure_eq_ok]
  constructor
  · rintro ⟨n, _, ⟨small, rfl⟩, rfl, rfl⟩
    rw [Bytes.ofUInt32, UInt32.toNat_ofNat_of_lt' small]
  · rintro rfl
    exact ⟨w.toNat, rest, ⟨w.toNat_lt, rfl⟩, by simp, rfl⟩

/-- What needs no bytes takes none. -/
theorem ofExcept_eq_ok {x : Except ε α} {a : α} :
    ofExcept x bytes = .ok (a, rest) ↔ x = .ok a ∧ bytes = rest := by
  cases x with
  | error e => exact ⟨nofun, nofun⟩
  | ok b =>
    rw [ofExcept, pure_eq_ok, Except.ok.injEq, eq_comm]

/-! ## Reading back

The equivalences from right to left, for a field that is read before others. -/

theorem u8_bind (b : UInt8) (k : UInt8 → Reader ε β) : (u8 >>= k) (b :: rest) = k b rest :=
  stateBind_of_ok (u8_eq_ok.mpr rfl) k

theorem u16_bind (w : UInt16) (k : UInt16 → Reader ε β) :
    (u16 >>= k) (Bytes.ofUInt16 w ++ rest) = k w rest := stateBind_of_ok (u16_eq_ok.mpr rfl) k

theorem u32_bind (w : UInt32) (k : UInt32 → Reader ε β) :
    (u32 >>= k) (Bytes.ofUInt32 w ++ rest) = k w rest := stateBind_of_ok (u32_eq_ok.mpr rfl) k

/-- A number that has been written is read back, and reading goes on behind it. -/
theorem number_bind {width n : Nat} (small : n < 256 ^ width) (k : Nat → Reader ε β) :
    (number width >>= k) (Bytes.ofNat width n ++ rest) = k n rest :=
  stateBind_of_ok (number_eq_ok.mpr ⟨small, rfl⟩) k

/-- Bytes of a given length are read back, and reading goes on behind them. -/
theorem take_bind (front : Bytes) (k : Bytes → Reader ε β) :
    (take front.length >>= k) (front ++ rest) = k front rest :=
  stateBind_of_ok (take_eq_ok.mpr ⟨rfl, rfl⟩) k

/-! ## Lists -/

/-- What a reader takes, over and over. -/
theorem times_eq_ok {item : Reader ε α} {encode : α → Bytes} {Legal : α → Prop}
    (h : ∀ a bytes rest, item bytes = .ok (a, rest) ↔ Legal a ∧ bytes = encode a ++ rest) {n : Nat}
    {as : List α} : times item n bytes = .ok (as, rest) ↔
      (as.length = n ∧ ∀ a ∈ as, Legal a) ∧ bytes = as.flatMap encode ++ rest := by
  induction n generalizing bytes rest as with
  | zero =>
    rw [times, pure_eq_ok, List.length_eq_zero_iff]
    constructor
    · rintro ⟨rfl, rfl⟩
      simp
    · rintro ⟨⟨rfl, _⟩, rfl⟩
      simp
  | succ n ih =>
    simp only [times, stateBind_eq_ok, pure_eq_ok, h, ih]
    constructor
    · rintro ⟨a, _, ⟨legal, rfl⟩, as, _, ⟨⟨rfl, all⟩, rfl⟩, rfl, rfl⟩
      exact ⟨⟨rfl, List.forall_mem_cons.mpr ⟨legal, all⟩⟩, by simp⟩
    · rintro ⟨⟨length, all⟩, rfl⟩
      obtain ⟨a, as, rfl⟩ := List.exists_cons_of_length_eq_add_one length
      obtain ⟨legal, all⟩ := List.forall_mem_cons.mp all
      exact ⟨a, _, ⟨legal, by simp⟩, as, rest, ⟨⟨by simpa using length, all⟩, rfl⟩, rfl, rfl⟩

/-- What a reader takes behind a count. -/
theorem counted_eq_ok {item : Reader ε α} {encode : α → Bytes} {Legal : α → Prop}
    (h : ∀ a bytes rest, item bytes = .ok (a, rest) ↔ Legal a ∧ bytes = encode a ++ rest)
    {as : List α} : counted item bytes = .ok (as, rest) ↔
      (as.length < UInt16.size ∧ ∀ a ∈ as, Legal a) ∧
        bytes = Bytes.ofNat 2 as.length ++ (as.flatMap encode ++ rest) := by
  simp only [counted, stateBind_eq_ok, u16_eq_ok, times_eq_ok h]
  constructor
  · rintro ⟨count, _, rfl, ⟨length, all⟩, rfl⟩
    rw [length]
    exact ⟨⟨count.toNat_lt, all⟩, rfl⟩
  · rintro ⟨⟨small, all⟩, rfl⟩
    have count : (UInt16.ofNat as.length).toNat = as.length := by
      rw [UInt16.toNat_ofNat', Nat.mod_eq_of_lt small]
    exact ⟨UInt16.ofNat as.length, _, by rw [Bytes.ofUInt16, count], ⟨count.symm, all⟩, rfl⟩

end ProcessorBench.Reader
