import ProcessorBench.Proofs.NormalForm
import ProcessorBench.Proofs.StoredLengths

/-!
# What is written is parsed back

A class is well-formed if its pool has the empty slots that the format prescribes and no others, and
if the names of its attributes announce the layouts that their bodies have. What is written of such
a class is parsed back as the class, so no length is ever cut to the size of its field; and writing
fails exactly where a length does not fit.
-/

namespace ProcessorBench

/-! ## Slots -/

/-- The slots that a constant fills: its own, and an empty one behind a wide constant. -/
def ConstantOf.entries (c : Constant) : List (Option Constant) :=
  if c.isWide then [some c, none] else [some c]

/-- Some slots in which exactly those behind wide constants are empty. -/
structure SlotsFilled (slots : List (Option Constant)) : Prop where
  first : slots[0]? ≠ some none
  behindWide : ∀ i c, slots[i]? = some (some c) → c.isWide = true → slots[i + 1]? = some none
  elsewhere : ∀ i, slots[i + 1]? = some none → ∃ c, slots[i]? = some (some c) ∧ c.isWide = true

/-- Slots that are filled are filled from any constant on. -/
theorem SlotsFilled.drop {slots : List (Option Constant)} (h : SlotsFilled slots) {n : Nat}
    (first : slots[n]? ≠ some none) : SlotsFilled (slots.drop n) where
  first := by simpa using first
  behindWide i c := by
    simp only [List.getElem?_drop, ← Nat.add_assoc]
    exact h.behindWide (n + i) c
  elsewhere i := by
    simp only [List.getElem?_drop, ← Nat.add_assoc]
    exact h.elsewhere (n + i)

/-- Such slots are filled by constants one after another. -/
theorem SlotsFilled.exists_constants {slots : List (Option Constant)} (h : SlotsFilled slots) :
    ∃ cs : List Constant, slots = cs.flatMap ConstantOf.entries := by
  -- A constant fills one slot or two, and those behind them are filled in the same way.
  induction n : slots.length using Nat.strong_induction_on generalizing slots with
  | _ n ih =>
    subst n
    match slots, h with
    | [], _ => exact ⟨[], rfl⟩
    | none :: _, h => exact absurd rfl h.first
    | some c :: rest, h =>
      by_cases wide : c.isWide = true
      · obtain ⟨_, rest', rfl⟩ : ∃ e rest', rest = e :: rest' := by
          cases rest with
          | nil => exact absurd (h.behindWide 0 c rfl wide) (by simp)
          | cons e rest' => exact ⟨e, rest', rfl⟩
        cases Option.some.inj (h.behindWide 0 c rfl wide)
        have filled : SlotsFilled rest' := h.drop (n := 2) fun empty => by
          obtain ⟨_, full, _⟩ := h.elsewhere 1 empty
          cases full
        obtain ⟨cs, rfl⟩ := ih rest'.length (by simp only [List.length_cons]; omega) filled rfl
        exact ⟨c :: cs, by simp [ConstantOf.entries, wide]⟩
      · have filled : SlotsFilled rest := h.drop (n := 1) fun empty => by
          obtain ⟨_, full, isWide⟩ := h.elsewhere 0 empty
          cases full
          exact wide isWide
        obtain ⟨cs, rfl⟩ := ih rest.length (by simp) filled rfl
        exact ⟨c :: cs, by simp [ConstantOf.entries, wide]⟩

/-- The slots of constants in a row are filled. -/
theorem slotsFilled_entries (cs : List Constant) : SlotsFilled (cs.flatMap ConstantOf.entries) := by
  -- What is true of a slot behind the first constant is true of the same slot of what follows it.
  induction cs with
  | nil => exact ⟨by simp, by simp, by simp⟩
  | cons c cs ih =>
    by_cases wide : c.isWide = true
    · have slots : (c :: cs).flatMap ConstantOf.entries =
          some c :: none :: cs.flatMap ConstantOf.entries := by simp [ConstantOf.entries, wide]
      rw [slots]
      refine ⟨by simp, fun i d full isWide => ?_, fun i empty => ?_⟩
      · match i with
        | 0 => rfl
        | 1 => cases full
        | i + 2 => exact ih.behindWide i d full isWide
      · match i with
        | 0 => exact ⟨c, rfl, wide⟩
        | 1 => exact absurd empty ih.first
        | i + 2 => exact ih.elsewhere i empty
    · have slots : (c :: cs).flatMap ConstantOf.entries =
          some c :: cs.flatMap ConstantOf.entries := by simp [ConstantOf.entries, wide]
      rw [slots]
      refine ⟨by simp, fun i d full isWide => ?_, fun i empty => ?_⟩
      · match i with
        | 0 => exact absurd ((Option.some.inj (Option.some.inj full)) ▸ isWide) wide
        | i + 1 => exact ih.behindWide i d full isWide
      · match i with
        | 0 => exact absurd empty ih.first
        | i + 1 => exact ih.elsewhere i empty

namespace ConstantPool

/-- Slot 0 is empty and so is the slot behind a wide constant, and no other slot is. -/
structure WellFormed (pool : ConstantPool) : Prop where
  zero : pool.entries[0]? = some none
  behindWide : ∀ i c, pool.entries[i]? = some (some c) → c.isWide = true →
    pool.entries[i + 1]? = some none
  elsewhere : ∀ i, pool.entries[i + 1]? = some none →
    ∃ c, pool.entries[i]? = some (some c) ∧ c.isWide = true

/-- A pool has the slots of its constants, in their order. -/
theorem entries_built (cs : List Constant) (pool : ConstantPool) :
    (cs.foldl push pool).entries.toList = pool.entries.toList ++ cs.flatMap ConstantOf.entries := by
  induction cs generalizing pool with
  | nil => simp
  | cons c cs ih =>
    rw [List.foldl_cons, ih, push, List.flatMap_cons, ConstantOf.entries]
    split <;> simp

/-- **A pool is well-formed if it is filled by constants, one after another.** -/
theorem wellFormed_iff {pool : ConstantPool} :
    pool.WellFormed ↔ ∃ cs : List Constant, pool = cs.foldl push empty := by
  constructor
  · rintro ⟨zero, behindWide, elsewhere⟩
    obtain ⟨slots⟩ := pool
    simp only [← Array.getElem?_toList] at zero behindWide elsewhere
    obtain ⟨rest, split⟩ : ∃ rest, slots.toList = none :: rest := by
      cases entries : slots.toList with
      | nil => simp [entries] at zero
      | cons e rest =>
        rw [entries] at zero
        cases zero
        exact ⟨rest, rfl⟩
    rw [split] at behindWide elsewhere
    have filled : SlotsFilled rest := by
      refine ⟨fun empty => ?_, fun i => behindWide (i + 1), fun i => elsewhere (i + 1)⟩
      obtain ⟨_, full, _⟩ := elsewhere 0 empty
      cases full
    obtain ⟨cs, rfl⟩ := filled.exists_constants
    refine ⟨cs, congrArg mk (Array.toList_inj.mp ?_)⟩
    rw [entries_built, split]
    rfl
  · rintro ⟨cs, rfl⟩
    have filled := slotsFilled_entries cs
    have slots : (cs.foldl push empty).entries.toList = none :: cs.flatMap ConstantOf.entries :=
      entries_built cs empty
    refine ⟨?_, fun i c => ?_, fun i => ?_⟩ <;> simp only [← Array.getElem?_toList, slots]
    · rfl
    · intro full isWide
      cases i with
      | zero => cases full
      | succ i => exact filled.behindWide i c full isWide
    · intro empty
      cases i with
      | zero => exact absurd empty filled.first
      | succ i => exact filled.elsewhere i empty

end ConstantPool

/-! ## Well-formed classes -/

namespace ClassFile

variable {bytes : Bytes} {c : ClassFile}

/-- The slots of the pool are filled as the format has it, and every attribute, at any depth, has the
layout that its name announces. -/
structure WellFormed (c : ClassFile) : Prop where
  pool : c.pool.WellFormed
  named : ∀ a ∈ c.all, Attribute.Named c.pool a

/-- A class that is parsed is well-formed. -/
theorem wellFormed_of_parse (parsed : parse bytes = .ok c) : c.WellFormed := by
  obtain ⟨count, legal, _⟩ := parse_eq_ok.mp parsed
  obtain ⟨cs, _, pool⟩ := legal.pool.built
  exact ⟨ConstantPool.wellFormed_iff.mpr ⟨cs, pool⟩, named_of_parse parsed⟩

/-- **Parsing undoes writing.** What is written of a well-formed class is parsed back as the class.
Writing fails exactly where one of the lengths does not fit its field, and the error names the limit
of such a length. -/
theorem parse_toBytes (wellFormed : c.WellFormed) :
    (∀ bytes, c.toBytes = .ok bytes → parse bytes = .ok c) ∧
      ((∃ e, c.toBytes = .error e) ↔ ∃ l ∈ c.lengths, l.Exceeds) ∧
      ∀ e, c.toBytes = .error e → ∃ l ∈ c.lengths, l.Exceeds ∧ e = .overflow l.limit := by
  have named (e : ClassError) (failed : c.toBytes = .error e) :
      ∃ l ∈ c.lengths, l.Exceeds ∧ e = .overflow l.limit := by
    rw [toBytes_eq] at failed
    split at failed
    · cases failed
    · next l found =>
      cases failed
      exact ⟨l, List.mem_of_find?_eq_some found, by simpa using List.find?_some found, rfl⟩
  refine ⟨fun bytes written => ?_, ⟨?_, ?_⟩, named⟩
  · exact parse_of_toBytes (ConstantPool.wellFormed_iff.mp wellFormed.pool) wellFormed.named written
  · rintro ⟨e, failed⟩
    obtain ⟨l, mem, large, _⟩ := named e failed
    exact ⟨l, mem, large⟩
  · rintro ⟨l, mem, large⟩
    rw [toBytes_eq]
    split
    · next none =>
      exact absurd large (by simpa using List.find?_eq_none.mp none l mem)
    · exact ⟨_, rfl⟩

/-- A class with one interface more than can be counted. -/
def crowded : ClassFile := { compiled with interfaces := List.replicate UInt16.size 1 }

/-- The class is well formed. -/
theorem wellFormed_crowded : crowded.WellFormed :=
  ⟨(wellFormed_of_parse parse_compiled).pool, (wellFormed_of_parse parse_compiled).named⟩

/-- A class with too many slots cannot be written, and a small one is read back. -/
theorem parse_toBytes_crowded : (∃ e, crowded.toBytes = .error e) ∧
    compiled.toBytes = .ok compiled.bytes ∧ parse compiled.bytes = .ok compiled := by
  refine ⟨(parse_toBytes wellFormed_crowded).2.1.mpr ⟨⟨.interfaces, UInt16.size⟩, ?_, Nat.le_refl _⟩,
    rfl, (parse_toBytes (wellFormed_of_parse parse_compiled)).1 _ rfl⟩
  simp [lengths, crowded]

end ClassFile

end ProcessorBench
