import ProcessorBench.Proofs.Reading

/-!
# Readers that know where their input ends

A reader is self-delimiting if the bytes that it takes decide everything: what follows them is not
looked at, and when they are cut short the reader is short of bytes, by no more than were cut off.
Reading one thing after another keeps this, so it holds of whatever is read field by field. It does
not hold of a reader that takes all there is; inside an attribute such a reader is given the bytes
of one body, and the attribute as a whole is self-delimiting again.

The second half compares readers whose attributes may nest to different depths. As each level takes
some bytes, bounds above the number of bytes make no difference, not even to the error.
-/

namespace ProcessorBench.Reader

variable {ε α β : Type}

/-- A reader gives `a` for `front`, whatever follows it, and is short of bytes when `front` is cut
short: it says how many were left where it stopped, and lacks no more than were cut off. -/
structure Takes (item : Reader ε α) (front : Bytes) (a : α) : Prop where
  whole : ∀ rest, item (front ++ rest) = .ok (a, rest)
  short : ∀ p q, front = p ++ q → q ≠ [] → ∃ left lacking,
    item p = .error (.shortfall left lacking) ∧
      left ≤ p.length ∧ 0 < lacking ∧ lacking ≤ q.length

/-- Whenever the reader succeeds, it has taken some front of its input. -/
def SelfDelimiting (item : Reader ε α) : Prop :=
  ∀ bytes a rest, item bytes = .ok (a, rest) → ∃ front, bytes = front ++ rest ∧ item.Takes front a

theorem Takes.pure (a : α) : Takes (pure a : Reader ε α) [] a where
  whole _ := rfl
  short p q split nonempty := by
    have none := congrArg List.length split
    have some := List.length_pos_iff.mpr nonempty
    simp only [List.length_nil, List.length_append] at none
    omega

/-- Readers in a row take what each of them takes. -/
theorem Takes.bind {x : Reader ε α} {k : α → Reader ε β} {front front' : Bytes} {a : α} {b : β}
    (h : x.Takes front a) (h' : (k a).Takes front' b) : (x >>= k).Takes (front ++ front') b where
  whole rest := by
    rw [List.append_assoc, stateBind_of_ok (h.whole _), h'.whole]
  short p q split nonempty := by
    rcases List.append_eq_append_iff.mp split with ⟨p', rfl, rfl⟩ | ⟨cut, rfl, rfl⟩
    · -- The cut is behind what `x` takes.
      obtain ⟨left, lacking, run, le, pos, enough⟩ := h'.short p' q rfl nonempty
      refine ⟨left, lacking, ?_, ?_, pos, enough⟩
      · rw [stateBind_of_ok (h.whole p'), run]
      · rw [List.length_append]
        omega
    · by_cases empty : cut = []
      · -- The cut is right behind it, so that `k a` is left with nothing.
        subst empty
        obtain ⟨left, lacking, run, le, pos, enough⟩ := h'.short [] front' rfl nonempty
        refine ⟨left, lacking, ?_, Nat.le_trans le (Nat.zero_le _), pos, enough⟩
        have all := h.whole []
        simp only [List.append_nil] at all
        rw [stateBind_of_ok all, run]
      · obtain ⟨left, lacking, run, le, pos, enough⟩ := h.short p cut rfl empty
        refine ⟨left, lacking, stateBind_of_error run k, le, pos, ?_⟩
        rw [List.length_append]
        omega

namespace SelfDelimiting

theorem pure (a : α) : SelfDelimiting (pure a : Reader ε α) := by
  intro bytes b rest run
  obtain ⟨rfl, rfl⟩ := pure_eq_ok.mp run
  exact ⟨[], rfl, .pure b⟩

/-- Readers that end where they end can be put together. -/
theorem bind {x : Reader ε α} {k : α → Reader ε β} (h : SelfDelimiting x)
    (h' : ∀ a, SelfDelimiting (k a)) : SelfDelimiting (x >>= k) := by
  intro bytes b rest run
  obtain ⟨a, between, first, last⟩ := stateBind_eq_ok.mp run
  obtain ⟨front, rfl, taken⟩ := h _ _ _ first
  obtain ⟨front', rfl, taken'⟩ := h' a _ _ _ last
  exact ⟨front ++ front', by rw [List.append_assoc], taken.bind taken'⟩

/-- A reader that never succeeds. -/
theorem of_failing {item : Reader ε α} (h : ∀ bytes p, item bytes ≠ .ok p) :
    SelfDelimiting item := fun bytes a rest run => absurd run (h bytes (a, rest))

theorem refuse (cause : ε) : SelfDelimiting (refuse cause : Reader ε α) :=
  of_failing fun _ _ => nofun

theorem ofExcept (x : Except ε α) : SelfDelimiting (ofExcept x) := by
  cases x with
  | ok a => exact pure a
  | error cause => exact refuse cause

/-- Bytes of a given length end where they end. -/
theorem take (n : Nat) : SelfDelimiting (take n : Reader ε Bytes) := by
  intro bytes front rest run
  obtain ⟨length, rfl⟩ := take_eq_ok.mp run
  refine ⟨front, rfl, ⟨fun rest => take_eq_ok.mpr ⟨length, rfl⟩, fun p q split nonempty => ?_⟩⟩
  have whole := congrArg List.length split
  rw [List.length_append, length] at whole
  have missing := List.length_pos_iff.mpr nonempty
  refine ⟨p.length, n - p.length, ?_, Nat.le_refl _, by omega, by omega⟩
  rw [Reader.take, Bytes.split?_eq, if_neg (by omega)]

/-- A number of a given width ends where it ends. -/
theorem number (width : Nat) : SelfDelimiting (number width : Reader ε Nat) :=
  (take width).bind fun _ => pure _

theorem u8 : SelfDelimiting (u8 : Reader ε UInt8) := (number 1).bind fun _ => pure _

theorem u16 : SelfDelimiting (u16 : Reader ε UInt16) := (number 2).bind fun _ => pure _

theorem u32 : SelfDelimiting (u32 : Reader ε UInt32) := (number 4).bind fun _ => pure _

/-- Items of a given number end where they end. -/
theorem times {item : Reader ε α} (h : SelfDelimiting item) (n : Nat) :
    SelfDelimiting (times item n) := by
  induction n with
  | zero => exact pure []
  | succ n ih => exact h.bind fun _ => ih.bind fun _ => pure _

/-- Items behind their number end where they end. -/
theorem counted {item : Reader ε α} (h : SelfDelimiting item) : SelfDelimiting (counted item) :=
  u16.bind fun count => h.times count.toNat

end SelfDelimiting

/-! ## Readers that agree -/

/-- On at most `n` bytes the readers do the same, and leave no more than they were given. -/
structure AgreeUpTo (n : Nat) (x y : Reader ε α) : Prop where
  same : ∀ bytes, bytes.length ≤ n → x bytes = y bytes
  leaves : ∀ bytes a rest, bytes.length ≤ n → x bytes = .ok (a, rest) → rest.length ≤ bytes.length

variable {n : Nat}

/-- A reader agrees with itself. -/
theorem SelfDelimiting.agree {x : Reader ε α} (h : SelfDelimiting x) : AgreeUpTo n x x where
  same _ _ := rfl
  leaves bytes a rest _ run := by
    obtain ⟨front, rfl, _⟩ := h bytes a rest run
    rw [List.length_append]
    omega

namespace AgreeUpTo

theorem pure (a : α) : AgreeUpTo n (pure a : Reader ε α) (pure a) := (SelfDelimiting.pure a).agree

/-- What comes second has to agree on what the first leaves. -/
theorem bind_of_ok {x y : Reader ε α} {k l : α → Reader ε β} (h : AgreeUpTo n x y)
    (h' : ∀ bytes a rest, bytes.length ≤ n → x bytes = .ok (a, rest) →
      AgreeUpTo rest.length (k a) (l a)) : AgreeUpTo n (x >>= k) (y >>= l) where
  same bytes few := by
    cases run : x bytes with
    | error e => rw [stateBind_of_error run, stateBind_of_error (h.same bytes few ▸ run)]
    | ok p =>
      obtain ⟨a, rest⟩ := p
      rw [stateBind_of_ok run, stateBind_of_ok (h.same bytes few ▸ run)]
      exact (h' bytes a rest few run).same rest (Nat.le_refl _)
  leaves bytes b rest few run := by
    obtain ⟨a, between, first, last⟩ := stateBind_eq_ok.mp run
    exact Nat.le_trans ((h' bytes a between few first).leaves _ _ _ (Nat.le_refl _) last)
      (h.leaves _ _ _ few first)

/-- What agrees on longer inputs agrees on shorter ones. -/
theorem mono {m : Nat} {x y : Reader ε α} (h : AgreeUpTo n x y) (le : m ≤ n) : AgreeUpTo m x y where
  same bytes few := h.same bytes (Nat.le_trans few le)
  leaves bytes a rest few := h.leaves bytes a rest (Nat.le_trans few le)

theorem bind {x y : Reader ε α} {k l : α → Reader ε β} (h : AgreeUpTo n x y)
    (h' : ∀ a, AgreeUpTo n (k a) (l a)) : AgreeUpTo n (x >>= k) (y >>= l) :=
  h.bind_of_ok fun bytes a rest few run =>
    (h' a).mono (Nat.le_trans (h.leaves bytes a rest few run) few)

theorem times {x y : Reader ε α} (h : AgreeUpTo n x y) (count : Nat) :
    AgreeUpTo n (times x count) (times y count) := by
  induction count with
  | zero => exact pure []
  | succ count ih => exact h.bind fun _ => ih.bind fun _ => pure _

theorem counted {x y : Reader ε α} (h : AgreeUpTo n x y) :
    AgreeUpTo n (counted x) (counted y) :=
  SelfDelimiting.u16.agree.bind fun count => h.times count.toNat

end AgreeUpTo

end ProcessorBench.Reader
