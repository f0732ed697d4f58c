import ProcessorBench.Proofs.TextGrammar

/-!
# Where bytes stop being a text

Bytes are no text for one of two reasons (`ModifiedUtf8.FaultAt`). Either no row of sequences spells them: then there
is a first byte that no sequence starts or goes on with, or the last sequence is cut short. Or they spell units that
are no UTF-16, because half of a pair stands alone. Decoding reports the place of the first kind as an offset of a byte,
and that of the second by the number of characters in front of it. This is the offset too as long as each of these takes
one byte, and smaller otherwise (`ModifiedUtf8.decode_faults`).
-/

namespace ProcessorBench

/-! ## Halves that stand alone -/

namespace Utf16

/-- A unit is half of a pair, and what follows does not begin with the other half. -/
inductive Unpaired : UInt16 → List UInt16 → Prop where
  | low {unit : UInt16} {rest : List UInt16} (isLow : isLow unit) : Unpaired unit rest
  | high {unit : UInt16} {rest : List UInt16} (isHigh : isHigh unit) (alone : ∀ low ∈ rest.head?, ¬ isLow low) :
    Unpaired unit rest

variable {done n : Nat} {unit : UInt16} {units rest : List UInt16}

/-- No half is both high and low. -/
theorem not_isHigh_of_isLow (low : isLow unit) : ¬ isHigh unit := by
  rw [isLow_iff] at low
  rw [isHigh_iff]
  omega

/-- What stands alone is half of a pair. -/
theorem Unpaired.isSurrogate (unpaired : Unpaired unit rest) : 0xD800 ≤ unit.toNat := by
  cases unpaired with
  | low isLow =>
    rw [isLow_iff] at isLow
    omega
  | high isHigh _ => exact (isHigh_iff.mp isHigh).1

/-- Decoding stops at a half that stands alone. -/
theorem Unpaired.decodeAfter (unpaired : Unpaired unit rest) (done : Nat) :
    decodeAfter done (unit :: rest) = .error done := by
  rw [decodeAfter.eq_def]
  cases unpaired with
  | low isLow =>
    simp only
    rw [if_neg (not_isHigh_of_isLow isLow), if_pos isLow]
  | high isHigh alone =>
    simp only
    rw [if_pos isHigh]
    cases rest with
    | nil => rfl
    | cons low rest => exact if_neg (alone low rfl)

/-- What text is encoded as is decoded, and decoding goes on behind it. -/
theorem decodeAfter_append (text : List Char) (done : Nat) (rest : List UInt16) :
    decodeAfter done (encode text ++ rest) = do return text ++ (← decodeAfter (done + text.length) rest) := by
  induction text generalizing done with
  | nil =>
    have here : encode [] ++ rest = rest := rfl
    rw [here, List.length_nil, Nat.add_zero]
    cases decodeAfter done rest <;> rfl
  | cons c text ih =>
    rw [encode_cons, List.append_assoc, decodeAfter_encodeChar, ih, List.length_cons, ← Nat.add_assoc,
      Nat.add_right_comm]
    cases decodeAfter (done + text.length + 1) rest <;> rfl

/-- Where decoding stops, a half stands alone behind text. -/
theorem exists_unpaired (failed : decodeAfter done units = .error n) : ∃ text unit rest,
    units = encode text ++ unit :: rest ∧ Unpaired unit rest ∧ n = done + text.length := by
  fun_induction decodeAfter done units with
  | case1 => cases failed
  -- Two halves, which are one character.
  | case2 done high isHigh low rest isLow ih =>
    rcases bind_eq_error.mp failed with later | ⟨more, _, same⟩
    · obtain ⟨text, unit, rest, rfl, unpaired, rfl⟩ := ih later
      refine ⟨pair high low :: text, unit, rest, ?_, unpaired, ?_⟩
      · rw [encode_cons, encodeChar_pair isHigh isLow]
        rfl
      · rw [List.length_cons]
        omega
    · cases same
  -- A first half in front of something else than a second one.
  | case3 done high isHigh low rest notLow =>
    cases failed
    refine ⟨[], high, low :: rest, rfl, .high isHigh ?_, rfl⟩
    rintro _ ⟨⟩
    exact notLow
  -- A first half at the end.
  | case4 done high isHigh =>
    cases failed
    refine ⟨[], high, [], rfl, .high isHigh ?_, rfl⟩
    intro low mem
    cases mem
  -- A second half that has no first one before it.
  | case5 done unit rest _ isLow =>
    cases failed
    exact ⟨[], unit, rest, rfl, .low isLow, rfl⟩
  -- A unit that is a character of its own.
  | case6 done unit rest notHigh notLow ih =>
    rcases bind_eq_error.mp failed with later | ⟨more, _, same⟩
    · obtain ⟨text, unit', rest, rfl, unpaired, rfl⟩ := ih later
      refine ⟨Char.ofNat unit.toNat :: text, unit', rest, ?_, unpaired, ?_⟩
      · rw [encode_cons, encodeChar_ofNat notHigh notLow]
        rfl
      · rw [List.length_cons]
        omega
    · cases same

/-- **Decoding stops at the first half that stands alone**, behind a text whose characters it counts. -/
theorem decode_eq_error : decode units = .error n ↔ ∃ text unit rest,
    units = encode text ++ unit :: rest ∧ Unpaired unit rest ∧ n = text.length := by
  constructor
  · intro failed
    obtain ⟨text, unit, rest, split, unpaired, count⟩ := exists_unpaired failed
    exact ⟨text, unit, rest, split, unpaired, count.trans (Nat.zero_add _)⟩
  · rintro ⟨text, unit, rest, rfl, unpaired, rfl⟩
    rw [decode, decodeAfter_append, unpaired.decodeAfter, Nat.zero_add]
    rfl

end Utf16

/-! ## Bytes that no sequences spell -/

namespace ModifiedUtf8

/-- Bytes that some row of sequences starts with. -/
def Viable (bytes : Bytes) : Prop := ∃ units more, Spells units (bytes ++ more)

/-- The first `i` bytes can be gone on with, and if there is one more, not by this one. -/
structure StopsAt (bytes : Bytes) (i : Nat) : Prop where
  inside : i ≤ bytes.length
  viable : Viable (bytes.take i)
  stuck : i < bytes.length → ¬ Viable (bytes.take (i + 1))

variable {offset i j : Nat} {unit : UInt16} {units units' : List UInt16} {a b : UInt8}
  {bytes bytes' more rest sequence : Bytes} {text : List Char} {e : ClassError}

/-- Bytes that spell units can be put together. -/
theorem Spells.append (first : Spells units bytes) (second : Spells units' bytes') :
    Spells (units ++ units') (bytes ++ bytes') := by
  induction first with
  | nil => exact second
  | cons head _ ih =>
    rw [List.cons_append, List.append_assoc]
    exact .cons head ih

/-- Bytes that spell units in a row can be taken apart between any of them. -/
theorem Spells.exists_append (spells : Spells (units ++ units') bytes) :
    ∃ front back, bytes = front ++ back ∧ Spells units front ∧ Spells units' back := by
  induction units generalizing bytes with
  | nil => exact ⟨[], bytes, rfl, .nil, spells⟩
  | cons unit units ih =>
    cases spells with
    | cons head more =>
      obtain ⟨front, back, rfl, first, second⟩ := ih more
      exact ⟨_, back, (List.append_assoc ..).symm, .cons head first, second⟩

/-- One sequence spells one unit. -/
theorem Sequence.spells (one : Sequence unit bytes) : Spells [unit] bytes := by
  have whole := Spells.cons one .nil
  rwa [List.append_nil] at whole

/-- What is the beginning of something viable is viable. -/
theorem Viable.of_append (viable : Viable (bytes ++ more)) : Viable bytes := by
  obtain ⟨units, rest, spells⟩ := viable
  rw [List.append_assoc] at spells
  exact ⟨units, more ++ rest, spells⟩

/-- The beginning of a sequence is viable. -/
theorem Sequence.viable (one : Sequence unit (bytes ++ more)) : Viable bytes := ⟨[unit], more, one.spells⟩

/-- A whole sequence says nothing about what can follow it. -/
theorem viable_append (one : Sequence unit sequence) : Viable (sequence ++ bytes) ↔ Viable bytes := by
  constructor
  · rintro ⟨units, more, spells⟩
    have taken := spells.unitsFrom 0
    rw [List.append_assoc, unitsFrom_sequence one] at taken
    obtain ⟨units', taken, _⟩ := bind_eq_ok.mp taken
    exact ⟨units', more, spells_of_unitsFrom taken⟩
  · rintro ⟨units, more, spells⟩
    exact ⟨unit :: units, more, by rw [List.append_assoc]; exact .cons one spells⟩

/-- Bytes that end in the middle of a sequence stop where they end. -/
theorem Viable.stopsAt (viable : Viable bytes) : StopsAt bytes bytes.length :=
  ⟨Nat.le_refl _, by rwa [List.take_length], fun further => absurd further (Nat.lt_irrefl _)⟩

/-- Bytes stop in front of one that is refused, whatever follows it. -/
theorem Viable.stopsAt_of_refused (viable : Viable bytes)
    (refused : ∀ more, ∃ e, unitsFrom 0 (bytes ++ b :: more) = .error e) (rest : Bytes) :
    StopsAt (bytes ++ b :: rest) bytes.length := by
  refine ⟨by simp, by rwa [List.take_left], fun _ => ?_⟩
  rw [List.take_length_add_append]
  rintro ⟨units, more, spells⟩
  obtain ⟨e, failed⟩ := refused more
  rw [List.append_assoc] at spells
  cases (spells.unitsFrom 0).symm.trans failed

/-- Another sequence in front moves the place where bytes stop being viable. -/
theorem StopsAt.append (stops : StopsAt bytes i) (one : Sequence unit sequence) :
    StopsAt (sequence ++ bytes) (sequence.length + i) := by
  refine ⟨?_, ?_, fun further => ?_⟩
  · rw [List.length_append]
    exact Nat.add_le_add_left stops.inside _
  · rw [List.take_length_add_append, viable_append one]
    exact stops.viable
  · rw [List.length_append] at further
    rw [Nat.add_assoc, List.take_length_add_append, viable_append one]
    exact stops.stuck (by omega)

/-- There is one place only at which bytes stop. -/
theorem StopsAt.unique (stops : StopsAt bytes i) (stops' : StopsAt bytes j) : i = j := by
  have before {i j : Nat} (stops : StopsAt bytes i) (stops' : StopsAt bytes j) : j ≤ i := by
    by_contra further
    have viable : Viable (bytes.take (i + 1) ++ (bytes.take j).drop (i + 1)) := by
      have same : bytes.take (i + 1) = (bytes.take j).take (i + 1) := by
        rw [List.take_take, Nat.min_eq_left (by omega)]
      rw [same, List.take_append_drop]
      exact stops'.viable
    have inside := stops'.inside
    exact stops.stuck (by omega) viable.of_append
  exact Nat.le_antisymm (before stops' stops) (before stops stops')

/-- A byte does not continue a sequence if it is none of those that may. -/
theorem continuation_eq_error : continuation offset b = .error e ↔
    ¬ (0x80 ≤ b ∧ b < 0xC0) ∧ e = .badUtf8 offset := by
  unfold continuation
  split
  next inside => exact ⟨nofun, fun h => absurd inside h.1⟩
  next outside =>
    rw [Except.error.injEq, eq_comm]
    exact ⟨fun same => ⟨outside, same⟩, fun h => h.2⟩

/-- The first of two bytes can be gone on with. -/
theorem viable_of_two (two : 0xC0 ≤ a ∧ a < 0xE0) : Viable [a] := by
  obtain ⟨m, high, rfl, _⟩ := exists_bits_of_two two
  exact Sequence.viable (.two high (n := 0) (by decide))

/-- The first of three bytes can be gone on with, and so can it and one that continues a sequence. -/
theorem viable_of_three (three : 0xE0 ≤ a ∧ a < 0xF0) :
    Viable [a] ∧ ∀ m < 64, Viable [a, UInt8.ofNat (0x80 + m)] := by
  obtain ⟨l, high, rfl, _⟩ := exists_bits_of_three three
  have both (m : Nat) (middle : m < 64) : Viable [UInt8.ofNat (0xE0 + l), UInt8.ofNat (0x80 + m)] :=
    Sequence.viable (.three high middle (n := 0) (by decide))
  have front : Viable ([UInt8.ofNat (0xE0 + l)] ++ [UInt8.ofNat (0x80 + 0)]) := both 0 (by decide)
  exact ⟨front.of_append, both⟩

/-- Each whole sequence moves the place on by its length. -/
theorem StopsAt.exists_moved (stops : StopsAt bytes i) (one : Sequence unit sequence) (offset : Nat) :
    ∃ j, StopsAt (sequence ++ bytes) j ∧
      ClassError.badUtf8 (offset + sequence.length + i) = .badUtf8 (offset + j) :=
  ⟨_, stops.append one, by rw [Nat.add_assoc]⟩

/-- **Bytes that no sequences spell are refused where they stop.** -/
theorem stopsAt_of_unitsFrom (failed : unitsFrom offset bytes = .error e) :
    ∃ i, StopsAt bytes i ∧ e = .badUtf8 (offset + i) := by
  fun_induction unitsFrom offset bytes with
  | case1 => cases failed
  -- A sequence of one byte, so it is behind it that the bytes stop.
  | case2 offset a rest one ih =>
    rcases bind_eq_error.mp failed with later | ⟨more, _, same⟩
    · obtain ⟨i, stops, rfl⟩ := ih later
      rw [UInt8.lt_iff_toNat_lt, UInt8.lt_iff_toNat_lt] at one
      have sequence := Sequence.one one.1 one.2
      rw [UInt8.ofNat_toNat] at sequence
      exact stops.exists_moved sequence offset
    · cases same
  -- The start of a sequence of two bytes, which the next byte may go on with or not.
  | case3 offset a one two b rest ih =>
    rcases bind_eq_error.mp failed with refused | ⟨n, continued, behind⟩
    · obtain ⟨outside, rfl⟩ := continuation_eq_error.mp refused
      refine ⟨1, (viable_of_two two).stopsAt_of_refused (fun more => ⟨.badUtf8 1, ?_⟩) rest, rfl⟩
      show unitsFrom 0 (a :: b :: more) = _
      rw [unitsFrom, if_neg one, if_pos two, continuation_eq_error.mpr ⟨outside, rfl⟩]
      rfl
    · rcases bind_eq_error.mp behind with later | ⟨more, _, same⟩
      · obtain ⟨i, stops, rfl⟩ := ih later
        obtain ⟨low, rfl⟩ := continuation_eq_ok.mp continued
        obtain ⟨m, high, rfl, _⟩ := exists_bits_of_two two
        exact stops.exists_moved (.two high low) offset
      · cases same
  | case4 offset a one two =>
    cases failed
    exact ⟨1, (viable_of_two two).stopsAt, rfl⟩
  -- The start of a sequence of three bytes, which may stop at the second byte or at the third.
  | case5 offset a one two three b rest ih =>
    obtain ⟨viable, viable'⟩ := viable_of_three three
    rcases bind_eq_error.mp failed with refused | ⟨m, continued, behind⟩
    · obtain ⟨outside, rfl⟩ := continuation_eq_error.mp refused
      refine ⟨1, viable.stopsAt_of_refused (fun more => ⟨.badUtf8 1, ?_⟩) rest, rfl⟩
      show unitsFrom 0 (a :: b :: more) = _
      rw [unitsFrom, if_neg one, if_neg two, if_pos three, continuation_eq_error.mpr ⟨outside, rfl⟩]
      rfl
    · obtain ⟨middle, rfl⟩ := continuation_eq_ok.mp continued
      cases rest with
      | nil =>
        cases behind
        exact ⟨2, (viable' m middle).stopsAt, rfl⟩
      | cons c rest =>
        rcases bind_eq_error.mp behind with refused | ⟨n, continued', last⟩
        · obtain ⟨outside, rfl⟩ := continuation_eq_error.mp refused
          refine ⟨2, (viable' m middle).stopsAt_of_refused (fun more => ⟨.badUtf8 2, ?_⟩) rest, rfl⟩
          show unitsFrom 0 (a :: UInt8.ofNat (0x80 + m) :: c :: more) = _
          rw [unitsFrom, if_neg one, if_neg two, if_pos three, continuation_of_lt _ middle, ok_bind]
          simp only
          rw [continuation_eq_error.mpr ⟨outside, rfl⟩]
          rfl
        · rcases bind_eq_error.mp last with later | ⟨more, _, same⟩
          · obtain ⟨i, stops, rfl⟩ := ih later
            obtain ⟨low, rfl⟩ := continuation_eq_ok.mp continued'
            obtain ⟨l, high, rfl, _⟩ := exists_bits_of_three three
            exact stops.exists_moved (.three high middle low) offset
          · cases same
  | case6 offset a one two three =>
    cases failed
    exact ⟨1, (viable_of_three three).1.stopsAt, rfl⟩
  -- A byte that starts no sequence.
  | case7 offset a rest one two three =>
    cases failed
    have viable : Viable [] := ⟨[], [], .nil⟩
    refine ⟨0, viable.stopsAt_of_refused (fun more => ⟨.badUtf8 0, ?_⟩) rest, rfl⟩
    show unitsFrom 0 (a :: more) = _
    rw [unitsFrom.eq_def]
    simp only
    rw [if_neg one, if_neg two, if_neg three]

/-! ## Lengths -/

/-- Small numbers are plain bytes. -/
theorem ascii_ofNat (small : i < 0x80) : UInt8.ofNat i < 0x80 := by
  rw [UInt8.lt_iff_toNat_lt, toNat_ofNat_byte (by omega)]
  exact small

/-- All other numbers are not. -/
theorem not_ascii_ofNat (large : 0x80 ≤ i) (byte : i < 256) : ¬ UInt8.ofNat i < 0x80 := by
  rw [UInt8.lt_iff_toNat_lt, toNat_ofNat_byte byte]
  exact Nat.not_lt.mpr large

/-- A sequence has one byte exactly if it has no byte above 7F. -/
theorem Sequence.length_eq_one_iff (one : Sequence unit sequence) :
    1 ≤ sequence.length ∧ (1 = sequence.length ↔ ∀ b ∈ sequence, b < 0x80) := by
  cases one with
  | one nonzero bits =>
    rw [List.forall_mem_singleton]
    exact ⟨Nat.le_refl 1, iff_of_true rfl (ascii_ofNat bits)⟩
  | two high low =>
    rw [List.forall_mem_cons]
    exact ⟨by simp, iff_of_false (by simp) fun all => not_ascii_ofNat (by omega) (by omega) all.1⟩
  | three high middle low =>
    rw [List.forall_mem_cons]
    exact ⟨by simp, iff_of_false (by simp) fun all => not_ascii_ofNat (by omega) (by omega) all.1⟩

/-- Half of a pair takes three bytes. -/
theorem Sequence.three_of_surrogate (one : Sequence unit sequence) (surrogate : 0xD800 ≤ unit.toNat) :
    ∃ a b c, sequence = [a, b, c] := by
  cases one with
  | one nonzero bits =>
    rw [UInt16.toNat_ofNat', Nat.mod_eq_of_lt (by omega)] at surrogate
    omega
  | two high low =>
    rw [UInt16.toNat_ofNat', Nat.mod_eq_of_lt (by omega)] at surrogate
    omega
  | three => exact ⟨_, _, _, rfl⟩

/-- A character takes one byte at least, and one only if it has no byte above 7F. -/
theorem Spells.length_char {c : Char} (spells : Spells (Utf16.encodeChar c) bytes) :
    1 ≤ bytes.length ∧ (1 = bytes.length ↔ ∀ b ∈ bytes, b < 0x80) := by
  unfold Utf16.encodeChar at spells
  split at spells
  · cases spells with
    | cons one more =>
      cases more
      rw [List.append_nil]
      exact one.length_eq_one_iff
  · next large =>
    have bound := Utf16.not_surrogate c
    cases spells with
    | cons high more =>
      obtain ⟨a, b, c', rfl⟩ := high.three_of_surrogate (by
        rw [UInt16.toNat_ofNat', Nat.mod_eq_of_lt (by omega)]
        omega)
      refine ⟨by simp, iff_of_false (by simp) fun all => ?_⟩
      have first := high.length_eq_one_iff.2.mpr fun b mem => all b (List.mem_append_left _ mem)
      exact absurd first (by simp)

/-- A text has no more characters than bytes, and as many only if no byte is above 7F. -/
theorem Spells.length_text (spells : Spells (Utf16.encode text) bytes) :
    text.length ≤ bytes.length ∧ (text.length = bytes.length ↔ ∀ b ∈ bytes, b < 0x80) := by
  induction text generalizing bytes with
  | nil =>
    cases spells
    simp
  | cons c text ih =>
    rw [Utf16.encode_cons] at spells
    obtain ⟨front, back, rfl, first, second⟩ := spells.exists_append
    obtain ⟨least, tight⟩ := first.length_char
    obtain ⟨least', tight'⟩ := ih second
    rw [List.length_cons, List.length_append, List.forall_mem_append, ← tight, ← tight']
    omega

/-! ## Faults -/

/-- The place of what is wrong with bytes that are no text. -/
inductive FaultAt (bytes : Bytes) : Nat → Prop where
  /-- No sequences spell them, and this is where they stop. -/
  | scan {i : Nat} (unspelled : ∀ units, ¬ Spells units bytes) (stops : StopsAt bytes i) : FaultAt bytes i
  /-- They spell a text and then half of a pair that stands alone, whose three bytes begin here. -/
  | surrogate {text : List Char} {unit : UInt16} {rest : List UInt16} {before after : Bytes} {a b c : UInt8}
    (split : bytes = before ++ ([a, b, c] ++ after)) (spellsText : Spells (Utf16.encode text) before)
    (half : Sequence unit [a, b, c]) (spellsRest : Spells rest after) (unpaired : Utf16.Unpaired unit rest) :
    FaultAt bytes before.length

/-- What the front of some bytes spells begins what they spell. -/
theorem Spells.exists_more (first : Spells units bytes) (whole : Spells units' (bytes ++ rest)) :
    ∃ more, units' = units ++ more ∧ Spells more rest := by
  induction first generalizing units' with
  | nil => exact ⟨units', rfl, whole⟩
  | cons one _ ih =>
    rw [List.append_assoc] at whole
    have taken := whole.unitsFrom 0
    rw [unitsFrom_sequence one] at taken
    obtain ⟨behind, taken', same⟩ := bind_eq_ok.mp taken
    cases same
    obtain ⟨more, rfl, spells⟩ := ih (spells_of_unitsFrom taken')
    exact ⟨more, rfl, spells⟩

/-- Bytes that go on behind a text spell more characters than the text has. -/
theorem Spells.eq_nil_of_length_le {text' : List Char} (first : Spells (Utf16.encode text) bytes)
    (whole : Spells (Utf16.encode text') (bytes ++ rest)) (length : text'.length ≤ text.length) : rest = [] := by
  obtain ⟨more, same, behind⟩ := first.exists_more whole
  have decoded := Utf16.decode_eq_ok.mpr same.symm
  rw [Utf16.decode, Utf16.decodeAfter_append] at decoded
  obtain ⟨text'', later, same⟩ := bind_eq_ok.mp decoded
  cases same
  rw [List.length_append] at length
  obtain rfl : text'' = [] := List.eq_nil_of_length_eq_zero (by omega)
  rw [Utf16.eq_encode_of_decodeAfter later] at behind
  cases behind
  rfl

/-- Half of a pair that stands alone stands in one place only. -/
theorem length_le_of_spells {text' : List Char} {before before' after after' : Bytes}
    (first : Spells (Utf16.encode text) before) (second : Spells (Utf16.encode text') before')
    (split : before ++ after = before' ++ after') (length : text'.length ≤ text.length) :
    before'.length ≤ before.length := by
  by_contra longer
  obtain ⟨rest, rfl⟩ : before <+: before' :=
    List.prefix_of_prefix_length_le ⟨after, rfl⟩ ⟨after', split.symm⟩ (by omega)
  rw [first.eq_nil_of_length_le second length, List.append_nil] at longer
  exact longer (Nat.le_refl _)

/-- Bytes that spell units are decoded as these units are. -/
theorem decode_of_spells (spells : Spells units bytes) : decode bytes = match Utf16.decode units with
    | .ok text => .ok (String.ofList text)
    | .error done => .error (.badUtf8 done) := by
  rw [decode, units_eq_ok.mpr spells]
  rfl

/-- **The report of a half that stands alone** counts the characters in front of it. -/
theorem decode_of_unpaired {before after : Bytes} (spellsText : Spells (Utf16.encode text) before)
    (spellsRest : Spells (unit :: units) after) (unpaired : Utf16.Unpaired unit units) :
    decode (before ++ after) = .error (.badUtf8 text.length) := by
  rw [decode_of_spells (spellsText.append spellsRest),
    Utf16.decode_eq_error.mpr ⟨text, unit, units, rfl, unpaired, rfl⟩]

/-- Bytes that spell nothing are at fault where they stop being viable. -/
theorem decode_of_unspelled (unspelled : ∀ units, ¬ Spells units bytes) (stops : StopsAt bytes i) :
    decode bytes = .error (.badUtf8 i) := by
  cases taken : ModifiedUtf8.units bytes with
  | error refused =>
    obtain ⟨j, stops', rfl⟩ := stopsAt_of_unitsFrom taken
    rw [decode, taken, stops.unique stops', Nat.zero_add]
    rfl
  | ok units => exact absurd (units_eq_ok.mp taken) (unspelled units)

/-- Bytes that are no text have a fault. -/
theorem exists_fault (failed : decode bytes = .error e) : ∃ i, FaultAt bytes i := by
  cases taken : ModifiedUtf8.units bytes with
  | error refused =>
    obtain ⟨i, stops, _⟩ := stopsAt_of_unitsFrom taken
    refine ⟨i, .scan (fun units spells => ?_) stops⟩
    cases (units_eq_ok.mpr spells).symm.trans taken
  | ok units =>
    have spells := units_eq_ok.mp taken
    rw [decode_of_spells spells] at failed
    cases decoded : Utf16.decode units with
    | ok text =>
      rw [decoded] at failed
      cases failed
    | error done =>
      obtain ⟨text, unit, rest, rfl, unpaired, _⟩ := Utf16.decode_eq_error.mp decoded
      obtain ⟨before, _, rfl, spellsText, more⟩ := spells.exists_append
      cases more with
      | cons half spellsRest =>
        obtain ⟨a, b, c, rfl⟩ := half.three_of_surrogate unpaired.isSurrogate
        exact ⟨before.length, .surrogate rfl spellsText half spellsRest unpaired⟩

/-- Bytes have one fault at most. -/
theorem FaultAt.unique (fault : FaultAt bytes i) (fault' : FaultAt bytes j) : i = j := by
  cases fault with
  | scan unspelled stops =>
    cases fault' with
    | scan _ stops' => exact stops.unique stops'
    | surrogate split spellsText half spellsRest _ =>
      rw [split] at unspelled
      exact absurd (spellsText.append (.cons half spellsRest)) (unspelled _)
  | @surrogate text unit rest before after a b c split spellsText half spellsRest unpaired =>
    have report := decode_of_unpaired spellsText (.cons half spellsRest) unpaired
    cases fault' with
    | scan unspelled _ =>
      rw [split] at unspelled
      exact absurd (spellsText.append (.cons half spellsRest)) (unspelled _)
    | surrogate split' spellsText' half' spellsRest' unpaired' =>
      have report' := decode_of_unpaired spellsText' (.cons half' spellsRest') unpaired'
      rw [← split', split, report, Except.error.injEq, ClassError.badUtf8.injEq] at report'
      rw [split] at split'
      exact Nat.le_antisymm (length_le_of_spells spellsText' spellsText split'.symm (Nat.le_of_eq report'))
        (length_le_of_spells spellsText spellsText' split' (Nat.le_of_eq report'.symm))

/-- **Decoding errors point at a byte.** Bytes that are no text have one fault, and its place `i` is an offset of them
or their end. If no sequences spell them, the place is reported. If they spell units that are no UTF-16, then the
bytes in front of the fault are a text, and what is reported is the number of its characters: this is the place
exactly if each of them takes one byte, which is one below 80. -/
theorem decode_faults (failed : decode bytes = .error e) :
    ∃ i ≤ bytes.length, (∀ j, FaultAt bytes j ↔ j = i) ∧
      (e = .badUtf8 i ↔ (∀ units, ¬ Spells units bytes) ∨ ∀ b ∈ bytes.take i, b < 0x80) ∧
      ((∃ units, Spells units bytes) →
        i < bytes.length ∧ ∃ text, decode (bytes.take i) = .ok text ∧ e = .badUtf8 text.length) := by
  obtain ⟨i, fault⟩ := exists_fault failed
  have places (j : Nat) : FaultAt bytes j ↔ j = i := ⟨fun other => other.unique fault, fun same => same ▸ fault⟩
  cases fault with
  | scan unspelled stops =>
    have report := failed.symm.trans (decode_of_unspelled unspelled stops)
    injection report with report
    exact ⟨i, stops.inside, places, iff_of_true report (.inl unspelled), fun ⟨units, spells⟩ =>
      absurd spells (unspelled units)⟩
  | @surrogate text unit rest before after a b c split spellsText half spellsRest unpaired =>
    subst split
    have report := failed.symm.trans (decode_of_unpaired spellsText (.cons half spellsRest) unpaired)
    injection report with report
    subst report
    obtain ⟨_, tight⟩ := spellsText.length_text
    refine ⟨before.length, by simp, places, ?_, fun _ => ⟨by simp, String.ofList text, ?_, ?_⟩⟩
    · have spells := spellsText.append (.cons half spellsRest)
      rw [List.take_left, ClassError.badUtf8.injEq, tight]
      exact ⟨.inr, fun | .inl unspelled => absurd spells (unspelled _) | .inr all => all⟩
    · rw [List.take_left, decode_eq_ok, String.toList_ofList]
      exact spellsText
    · rw [String.length_ofList]

/-- The bytes of U+D800, which is half of a pair. -/
theorem sequence_half : Sequence 0xD800 [0xED, 0xA0, 0x80] :=
  .three (l := 13) (m := 32) (n := 0) (by decide) (by decide) (by decide)

/-- One high half stands alone. -/
theorem unpaired_half : Utf16.Unpaired 0xD800 [] := .high (by decide) nofun

/-- A half behind a letter stands at byte 1, which is what is reported. -/
theorem decode_faults_letter : decode [0x61, 0xED, 0xA0, 0x80] = .error (.badUtf8 1) ∧
    (∀ i, FaultAt [0x61, 0xED, 0xA0, 0x80] i ↔ i = 1) ∧ decode [0x61] = .ok "a" := by
  have failed : decode [0x61, 0xED, 0xA0, 0x80] = .error (.badUtf8 1) := rfl
  have letter : Spells (Utf16.encode ['a']) [0x61] := units_eq_ok.mp (rfl)
  obtain ⟨i, _, places, _, _⟩ := decode_faults failed
  obtain rfl := (places 1).mp (.surrogate rfl letter sequence_half .nil unpaired_half)
  exact ⟨failed, places, rfl⟩

/-- A half behind a letter of two bytes stands at byte 2, and byte 1 is reported. -/
theorem decode_misplaced : decode [0xC3, 0xA9, 0xED, 0xA0, 0x80] = .error (.badUtf8 1) ∧
    FaultAt [0xC3, 0xA9, 0xED, 0xA0, 0x80] 2 ∧ ¬ FaultAt [0xC3, 0xA9, 0xED, 0xA0, 0x80] 1 := by
  have letter : Spells (Utf16.encode ['é']) [0xC3, 0xA9] := units_eq_ok.mp (rfl)
  have fault : FaultAt [0xC3, 0xA9, 0xED, 0xA0, 0x80] 2 :=
    .surrogate rfl letter sequence_half .nil unpaired_half
  refine ⟨rfl, fault, fun other => ?_⟩
  cases other.unique fault

end ModifiedUtf8

end ProcessorBench
