import ProcessorBench.Proofs.ModifiedUtf8

/-!
# Which bytes are a text

A byte string is decoded exactly if it can be cut into sequences of one, two or three bytes
(`ModifiedUtf8.Sequence`) whose units, in their order, are those of a text; and then it is decoded to this text
(`ModifiedUtf8.decode_grammar`). So a unit may be spelled in more than one way, while encoding spells each in one
way only, and never by a byte that is zero.
-/

namespace ProcessorBench

/-! ## Units of a text -/

namespace Utf16

variable {done : Nat} {unit high low : UInt16} {units : List UInt16} {text : List Char}

/-- A character has the number that it is made from. -/
theorem toNat_charOfNat {n : Nat} (valid : n < 0xD800 ∨ 0xDFFF < n ∧ n < 0x110000) : (Char.ofNat n).toNat = n := by
  have isChar : n.isValidChar := valid
  rw [Char.ofNat, dif_pos isChar]
  rfl

/-- A unit that is no half of a pair stands for a character of its own. -/
theorem encodeChar_ofNat (notHigh : ¬ isHigh unit) (notLow : ¬ isLow unit) :
    encodeChar (Char.ofNat unit.toNat) = [unit] := by
  have bound := unit.toNat_lt
  rw [isHigh_iff] at notHigh
  rw [isLow_iff] at notLow
  have number : (Char.ofNat unit.toNat).toNat = unit.toNat := toNat_charOfNat (by omega)
  rw [encodeChar, if_pos (by omega), number, UInt16.ofNat_toNat]

/-- The two halves of a pair are those of its character. -/
theorem encodeChar_pair (isHigh : isHigh high) (isLow : isLow low) : encodeChar (pair high low) = [high, low] := by
  rw [isHigh_iff] at isHigh
  rw [isLow_iff] at isLow
  have number : (pair high low).toNat =
      0x10000 + (high.toNat - 0xD800) * 0x400 + (low.toNat - 0xDC00) := toNat_charOfNat (by omega)
  have first : 0xD800 + ((pair high low).toNat - 0x10000) / 0x400 = high.toNat := by omega
  have second : 0xDC00 + ((pair high low).toNat - 0x10000) % 0x400 = low.toNat := by omega
  rw [encodeChar, if_neg (by omega)]
  simp only [first, second, UInt16.ofNat_toNat]

/-- Characters are encoded one after the other. -/
theorem encode_cons (c : Char) (text : List Char) : encode (c :: text) = encodeChar c ++ encode text :=
  List.flatMap_cons

/-- Units that are decoded are those that the text is encoded as. -/
theorem eq_encode_of_decodeAfter (decoded : decodeAfter done units = .ok text) : units = encode text := by
  fun_induction decodeAfter done units generalizing text with
  | case1 =>
    cases decoded
    rfl
  | case2 done high isHigh low rest isLow ih =>
    obtain ⟨more, following, same⟩ := bind_eq_ok.mp decoded
    cases same
    rw [encode_cons, encodeChar_pair isHigh isLow, ← ih following]
    rfl
  | case3 => cases decoded
  | case4 => cases decoded
  | case5 => cases decoded
  | case6 done unit rest notHigh notLow ih =>
    obtain ⟨more, following, same⟩ := bind_eq_ok.mp decoded
    cases same
    rw [encode_cons, encodeChar_ofNat notHigh notLow, ← ih following]
    rfl

/-- Units are decoded to a text exactly if they are those of the text. -/
theorem decode_eq_ok : decode units = .ok text ↔ units = encode text := by
  refine ⟨eq_encode_of_decodeAfter, ?_⟩
  rintro rfl
  exact decodeAfter_encode 0 text

end Utf16

/-! ## Sequences of bytes -/

namespace ModifiedUtf8

/-- A sequence of bytes that stands for a unit. -/
inductive Sequence : UInt16 → Bytes → Prop where
  /-- 0xxxxxxx, where the bits are not all zero. -/
  | one {n : Nat} (nonzero : 0 < n) (bits : n < 0x80) : Sequence (.ofNat n) [.ofNat n]
  /-- 110xxxxx 10xxxxxx. -/
  | two {m n : Nat} (high : m < 32) (low : n < 64) :
    Sequence (.ofNat (m * 64 + n)) [.ofNat (0xC0 + m), .ofNat (0x80 + n)]
  /-- 1110xxxx 10xxxxxx 10xxxxxx. -/
  | three {l m n : Nat} (high : l < 16) (middle : m < 64) (low : n < 64) :
    Sequence (.ofNat ((l * 64 + m) * 64 + n)) [.ofNat (0xE0 + l), .ofNat (0x80 + m), .ofNat (0x80 + n)]

/-- Bytes that spell some units, by one sequence after the other. -/
inductive Spells : List UInt16 → Bytes → Prop where
  | nil : Spells [] []
  | cons {unit : UInt16} {units : List UInt16} {bytes rest : Bytes} (first : Sequence unit bytes)
    (more : Spells units rest) : Spells (unit :: units) (bytes ++ rest)

variable {offset n : Nat} {unit : UInt16} {units : List UInt16} {a b : UInt8} {bytes : Bytes}

/-- A byte has the number that it is made from. -/
theorem toNat_ofNat_byte (small : n < 256) : (UInt8.ofNat n).toNat = n := by
  rw [UInt8.toNat_ofNat', Nat.mod_eq_of_lt small]

/-- A byte is made from its number. -/
theorem eq_ofNat_of_toNat (value : b.toNat = n) : b = UInt8.ofNat n := by
  rw [← value, UInt8.ofNat_toNat]

/-- A byte that continues a sequence has six bits behind the first two. -/
theorem continuation_eq_ok : continuation offset b = .ok n ↔ n < 64 ∧ b = UInt8.ofNat (0x80 + n) := by
  constructor
  · intro given
    rw [continuation] at given
    split at given
    next inside =>
      rw [UInt8.le_iff_toNat_le, UInt8.lt_iff_toNat_lt] at inside
      cases given
      refine ⟨by omega, eq_ofNat_of_toNat ?_⟩
      have least : (0x80 : UInt8).toNat = 0x80 := rfl
      have most : (0xC0 : UInt8).toNat = 0xC0 := rfl
      omega
    next => cases given
  · rintro ⟨small, rfl⟩
    exact continuation_of_lt offset small

/-- The first of two bytes has five bits behind the first three. -/
theorem exists_bits_of_two (two : 0xC0 ≤ a ∧ a < 0xE0) :
    ∃ m < 32, a = UInt8.ofNat (0xC0 + m) ∧ a.toNat % 32 = m := by
  rw [UInt8.le_iff_toNat_le, UInt8.lt_iff_toNat_lt] at two
  have least : (0xC0 : UInt8).toNat = 0xC0 := rfl
  have most : (0xE0 : UInt8).toNat = 0xE0 := rfl
  exact ⟨a.toNat % 32, by omega, eq_ofNat_of_toNat (by omega), rfl⟩

/-- The first of three bytes has four bits behind the first four. -/
theorem exists_bits_of_three (three : 0xE0 ≤ a ∧ a < 0xF0) :
    ∃ l < 16, a = UInt8.ofNat (0xE0 + l) ∧ a.toNat % 16 = l := by
  rw [UInt8.le_iff_toNat_le, UInt8.lt_iff_toNat_lt] at three
  have least : (0xE0 : UInt8).toNat = 0xE0 := rfl
  have most : (0xF0 : UInt8).toNat = 0xF0 := rfl
  exact ⟨a.toNat % 16, by omega, eq_ofNat_of_toNat (by omega), rfl⟩

/-- What a sequence stands for is the first unit, whatever follows. -/
theorem unitsFrom_sequence (sequence : Sequence unit bytes) (offset : Nat) (rest : Bytes) :
    unitsFrom offset (bytes ++ rest) = do return unit :: (← unitsFrom (offset + bytes.length) rest) := by
  cases sequence with
  | @one n nonzero bits =>
    have first := toNat_ofNat_byte (n := n) (by omega)
    rw [List.singleton_append, unitsFrom_one offset rest (by omega), first]
    rfl
  | @two m n high low =>
    have first := toNat_ofNat_byte (n := 0xC0 + m) (by omega)
    have whole : (0xC0 + m) % 32 * 64 + n = m * 64 + n := by omega
    rw [List.cons_append, List.singleton_append, unitsFrom_two offset rest (by omega) low, first, whole]
    rfl
  | @three l m n high middle low =>
    have first := toNat_ofNat_byte (n := 0xE0 + l) (by omega)
    have whole : ((0xE0 + l) % 16 * 64 + m) * 64 + n = (l * 64 + m) * 64 + n := by omega
    rw [List.cons_append, List.cons_append, List.singleton_append,
      unitsFrom_three offset rest (by omega) middle low, first, whole]
    rfl

/-- Bytes that spell units are decoded to them. -/
theorem Spells.unitsFrom (spells : Spells units bytes) (offset : Nat) :
    unitsFrom offset bytes = .ok units := by
  induction spells generalizing offset with
  | nil => rfl
  | cons first more ih =>
    rw [unitsFrom_sequence first, ih]
    rfl

/-- Bytes spell what they are decoded to. -/
theorem spells_of_unitsFrom (taken : unitsFrom offset bytes = .ok units) : Spells units bytes := by
  fun_induction unitsFrom offset bytes generalizing units with
  | case1 =>
    cases taken
    exact .nil
  -- A byte, a pair of bytes or three bytes start with a unit; in the other cases nothing is taken.
  | case2 offset a rest one ih =>
    obtain ⟨more, following, same⟩ := bind_eq_ok.mp taken
    cases same
    rw [UInt8.lt_iff_toNat_lt, UInt8.lt_iff_toNat_lt] at one
    have sequence := Sequence.one one.1 one.2
    rw [UInt8.ofNat_toNat] at sequence
    exact .cons sequence (ih following)
  | case3 offset a _ two b rest ih =>
    obtain ⟨n, continued, behind⟩ := bind_eq_ok.mp taken
    obtain ⟨more, following, same⟩ := bind_eq_ok.mp behind
    cases same
    obtain ⟨low, rfl⟩ := continuation_eq_ok.mp continued
    obtain ⟨m, high, rfl, bits⟩ := exists_bits_of_two two
    rw [bits]
    exact .cons (.two high low) (ih following)
  | case4 => cases taken
  | case5 offset a _ _ three b rest ih =>
    obtain ⟨m, continued, behind⟩ := bind_eq_ok.mp taken
    obtain ⟨middle, rfl⟩ := continuation_eq_ok.mp continued
    cases rest with
    | nil => cases behind
    | cons c rest =>
      obtain ⟨n, continued', last⟩ := bind_eq_ok.mp behind
      obtain ⟨more, following, same⟩ := bind_eq_ok.mp last
      cases same
      obtain ⟨low, rfl⟩ := continuation_eq_ok.mp continued'
      obtain ⟨l, high, rfl, bits⟩ := exists_bits_of_three three
      rw [bits]
      exact .cons (.three high middle low) (ih following)
  | case6 => cases taken
  | case7 => cases taken

/-- Bytes are taken for some units exactly if they spell them. -/
theorem units_eq_ok : ModifiedUtf8.units bytes = .ok units ↔ Spells units bytes :=
  ⟨spells_of_unitsFrom, fun spells => spells.unitsFrom 0⟩

/-- **Bytes are decoded to a text exactly if they spell it.** -/
theorem decode_eq_ok {text : String} : decode bytes = .ok text ↔ Spells (Utf16.encode text.toList) bytes := by
  constructor
  · intro decoded
    obtain ⟨units, taken, decoded⟩ := bind_eq_ok.mp decoded
    cases read : Utf16.decode units with
    | error done =>
      rw [read] at decoded
      cases decoded
    | ok characters =>
      rw [read] at decoded
      cases decoded
      rw [String.toList_ofList, ← Utf16.decode_eq_ok.mp read]
      exact units_eq_ok.mp taken
  · intro spells
    rw [decode, units_eq_ok.mpr spells, ok_bind, Utf16.decode_eq_ok.mpr rfl]
    exact congrArg Except.ok String.ofList_toList

/-! ## Zeros -/

/-- A byte is zero only for zero. -/
theorem ofNat_ne_zero (positive : 0 < n) (small : n < 256) : UInt8.ofNat n ≠ 0 := by
  intro same
  have value := congrArg UInt8.toNat same
  rw [toNat_ofNat_byte small] at value
  exact absurd value (Nat.ne_of_gt positive)

/-- No sequence has a zero in it. -/
theorem Sequence.ne_zero (sequence : Sequence unit bytes) : ∀ b ∈ bytes, b ≠ 0 := by
  cases sequence with
  | one nonzero bits =>
    rw [List.forall_mem_singleton]
    exact ofNat_ne_zero nonzero (by omega)
  | two high low =>
    rw [List.forall_mem_cons, List.forall_mem_singleton]
    exact ⟨ofNat_ne_zero (by omega) (by omega), ofNat_ne_zero (by omega) (by omega)⟩
  | three high middle low =>
    rw [List.forall_mem_cons, List.forall_mem_cons, List.forall_mem_singleton]
    exact ⟨ofNat_ne_zero (by omega) (by omega), ofNat_ne_zero (by omega) (by omega),
      ofNat_ne_zero (by omega) (by omega)⟩

/-- No zero is needed to spell anything. -/
theorem Spells.zero_notMem (spells : Spells units bytes) : 0 ∉ bytes := by
  induction spells with
  | nil => exact List.not_mem_nil
  | cons first more ih =>
    rw [List.mem_append]
    rintro (mem | mem)
    · exact first.ne_zero 0 mem rfl
    · exact ih mem

/-- **Which bytes are a text.** The encoding of each text is decoded to it and holds no zero. And bytes are decoded to
a text exactly if they are a row of sequences of one, two or three bytes that stand for its units in UTF-16. -/
theorem decode_grammar : (∀ text, decode (encode text) = .ok text ∧ 0 ∉ encode text) ∧
    ∀ bytes text, decode bytes = .ok text ↔ Spells (Utf16.encode text.toList) bytes :=
  ⟨fun text => ⟨decode_encode text, (decode_eq_ok.mp (decode_encode text)).zero_notMem⟩, fun _ _ => decode_eq_ok⟩

/-- A unit that takes one byte may be spelled with two, though it never is. -/
example : decode [0xC1, 0x81] = .ok "A" ∧ encode "A" = [0x41] := by decide +kernel

end ModifiedUtf8

end ProcessorBench
