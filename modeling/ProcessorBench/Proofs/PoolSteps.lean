import ProcessorBench.Proofs.Interning
import ProcessorBench.Proofs.ModifiedUtf8
import ProcessorBench.Proofs.PoolCodec

/-!
# Steps on a pool under construction

Several callers share one builder, so an index that is handed out early has to keep its meaning
through whatever is added later. `PoolStep.Adds` says so of a computation on a builder: nothing is
taken back, and what the result is said to mean it means in every pool that the builder grows into.
It is closed under sequencing, and every operation of the builder has it.
-/

namespace ProcessorBench

/-! ## Pools that grow -/

namespace ConstantPool

variable {p q : ConstantPool} {i : PoolIndex} {text : String}

/-- A text stays where it is when constants are added. -/
theorem utf8Bytes_of_le (h : p ≤ q) {bytes : Bytes} (found : p.utf8Bytes i = .ok bytes) :
    q.utf8Bytes i = .ok bytes := by
  obtain ⟨c, hc, found⟩ := bind_eq_ok.mp found
  rw [utf8Bytes, h i c hc]
  exact found

/-- A text is read as it was from a pool that has grown. -/
theorem utf8_of_le (h : p ≤ q) (found : p.utf8 i = .ok text) : q.utf8 i = .ok text := by
  obtain ⟨bytes, hbytes, found⟩ := bind_eq_ok.mp found
  rw [utf8, utf8Bytes_of_le h hbytes]
  exact found

/-- The name of a class is read as it was from a pool that has grown. -/
theorem className_of_le (h : p ≤ q) (found : p.className i = .ok text) : q.className i = .ok text := by
  obtain ⟨c, hc, found⟩ := bind_eq_ok.mp found
  rw [className, h i c hc]
  cases c with
  | classInfo name => exact utf8_of_le h found
  | _ => cases found

/-- A constant with the encoding of a text is read as the text. -/
theorem utf8_of_get (h : p.get i = .ok (.utf8 (ModifiedUtf8.encode text))) : p.utf8 i = .ok text := by
  rw [utf8, utf8Bytes, h]
  exact ModifiedUtf8.decode_encode text

/-- A class is called what its name says. -/
theorem className_of_get {name : PoolIndex} (h : p.get i = .ok (.classInfo name))
    (found : p.utf8 name = .ok text) : p.className i = .ok text := by
  rw [className, h]
  exact found

end ConstantPool

/-! ## Steps that only add -/

namespace PoolStep

variable {α β : Type}

/-- Two steps in a row. -/
theorem bind_eq_ok {x : PoolStep α} {k : α → PoolStep β} {b b' : PoolBuilder} {c : β} :
    (x >>= k) b = .ok c b' ↔ ∃ a b₁, x b = .ok a b₁ ∧ k a b₁ = .ok c b' := by
  show EStateM.bind x k b = .ok c b' ↔ _
  unfold EStateM.bind
  cases x b with
  | ok a b₁ => simp
  | error e b₁ => simp

/-- Whatever the step has given has the property `Q`, in every pool that the builder grows into; what
was in the builder is still there. -/
def Adds (x : PoolStep α) (Q : α → ConstantPool → Prop) : Prop :=
  ∀ b a b', b.Coherent → x b = .ok a b' →
    b'.Coherent ∧ b.pool ≤ b'.pool ∧ ∀ F, b'.pool ≤ F → Q a F

/-- The step takes nothing back from the builder. -/
def OnlyAdds (x : PoolStep α) : Prop := x.Adds fun _ _ => True

namespace Adds

variable {x : PoolStep α} {Q Q' : α → ConstantPool → Prop} {R : β → ConstantPool → Prop}

/-- What has been added may be told by anything that follows from it. -/
theorem mono (h : x.Adds Q) (imp : ∀ a F, Q a F → Q' a F) : x.Adds Q' := by
  intro b a b' hb run
  obtain ⟨hb', grown, given⟩ := h b a b' hb run
  exact ⟨hb', grown, fun F below => imp a F (given F below)⟩

/-- A step that adds something takes nothing back. -/
theorem onlyAdds (h : x.Adds Q) : x.OnlyAdds := h.mono fun _ _ _ => trivial

theorem pure {a : α} (h : ∀ F, Q a F) : (Pure.pure a : PoolStep α).Adds Q := by
  intro b _ _ hb run
  cases run
  exact ⟨hb, ConstantPool.le_refl _, fun F _ => h F⟩

theorem throw (e : ClassError) : (MonadExcept.throw e : PoolStep α).Adds Q := by
  intro b _ _ _ run
  cases run

/-- What the first step has given it still gives after the second. -/
theorem bind {k : α → PoolStep β} (hx : x.Adds Q) (hk : ∀ a, (k a).Adds fun c F => Q a F → R c F) :
    (x >>= k).Adds R := by
  intro b c b' hb run
  obtain ⟨a, b₁, first, last⟩ := bind_eq_ok.mp run
  obtain ⟨hb₁, grown, given⟩ := hx b a b₁ hb first
  obtain ⟨hb', grown', given'⟩ := hk a b₁ c b' hb₁ last
  refine ⟨hb', ConstantPool.le_trans grown grown', ?_⟩
  intro F below
  exact given' F below (given F (ConstantPool.le_trans grown' below))

/-- The last step gives what the whole does. -/
theorem bind_pure {f : α → β} (hx : x.Adds fun a F => R (f a) F) :
    (x >>= fun a => Pure.pure (f a)).Adds R :=
  hx.bind fun _ => pure fun _ h => h

end Adds

/-- Steps that take nothing back can be put together. -/
theorem OnlyAdds.bind {x : PoolStep α} {k : α → PoolStep β} (hx : x.OnlyAdds)
    (hk : ∀ a, (k a).OnlyAdds) : (x >>= k).OnlyAdds :=
  Adds.bind hx fun a => (hk a).mono fun _ _ h _ => h

end PoolStep

/-! ## Steps that are run -/

namespace PoolStep

variable {α β : Type}

/-- On a builder with the pool `p` the step gives `a` and leaves the pool `q`. -/
def Yields (x : PoolStep α) (p : ConstantPool) (a : α) (q : ConstantPool) : Prop :=
  ∀ b, b.Coherent → b.pool = p → ∃ b', x b = .ok a b' ∧ b'.Coherent ∧ b'.pool = q

theorem Yields.pure (a : α) (p : ConstantPool) : (Pure.pure a : PoolStep α).Yields p a p :=
  fun b hb same => ⟨b, rfl, hb, same⟩

/-- Steps that are run one after the other lead from pool to pool. -/
theorem Yields.bind {x : PoolStep α} {k : α → PoolStep β} {p q r : ConstantPool} {a : α} {c : β}
    (hx : x.Yields p a q) (hk : (k a).Yields q c r) : (x >>= k).Yields p c r := by
  intro b hb same
  obtain ⟨b₁, first, hb₁, same₁⟩ := hx b hb same
  obtain ⟨b', last, hb', same'⟩ := hk b₁ hb₁ same₁
  exact ⟨b', bind_eq_ok.mpr ⟨a, b₁, first, last⟩, hb', same'⟩

end PoolStep

/-! ## The operations of a builder -/

namespace PoolBuilder

open PoolStep (Adds)

/-- Interning, in the three cases that there are. -/
theorem intern_cases (c : Constant) (b : PoolBuilder) :
    (∃ i, b.index[c]? = some i ∧ intern c b = .ok i b) ∨
    (b.index[c]? = none ∧ b.slotCount + c.slots < UInt16.size ∧
      intern c b = .ok (UInt16.ofNat b.slotCount) (b.append c)) ∨
    (b.index[c]? = none ∧ ¬ b.slotCount + c.slots < UInt16.size ∧
      intern c b = .error (.overflow .poolSlots) b) := by
  have read : (get : PoolStep PoolBuilder) b = .ok b b := rfl
  unfold intern
  simp only [bind, EStateM.bind, read]
  cases b.index[c]? with
  | some i => exact .inl ⟨i, rfl, rfl⟩
  | none =>
    by_cases room : b.slotCount + c.slots < UInt16.size
    · simp only [if_pos room]
      exact .inr (.inl ⟨trivial, room, rfl⟩)
    · simp only [if_neg room]
      exact .inr (.inr ⟨trivial, room, rfl⟩)

/-- **An index that is handed out is that of the constant, for good.** -/
theorem intern_adds (c : Constant) : (intern c).Adds fun i F => F.get i = .ok c := by
  intro b i b' hb run
  rcases intern_cases c b with ⟨k, found, same⟩ | ⟨absent, room, same⟩ | ⟨_, _, same⟩
  · rw [same] at run
    cases run
    exact ⟨hb, ConstantPool.le_refl _, fun F below => below _ _ ((hb.index_iff c _).mp found)⟩
  · rw [same] at run
    cases run
    refine ⟨hb.append absent room, le_append b c, ?_⟩
    intro F below
    exact below _ _ (get_append_slotCount hb)
  · rw [same] at run
    cases run

/-- A constant that there is room for is interned. -/
theorem intern_ok {c : Constant} {b : PoolBuilder} (room : b.slotCount + c.slots < UInt16.size) :
    ∃ i b', intern c b = .ok i b' ∧ b'.slotCount ≤ b.slotCount + c.slots := by
  rcases intern_cases c b with ⟨i, _, run⟩ | ⟨_, _, run⟩ | ⟨_, full, _⟩
  · exact ⟨i, b, run, Nat.le_add_right _ _⟩
  · exact ⟨_, _, run, (slotCount_append b c).le⟩
  · exact absurd room full

/-- A constant that is not there yet is put at the end. -/
theorem intern_new {b : PoolBuilder} (hb : b.Coherent) {c : Constant} (absent : c ∉ b.pool.constants)
    (room : b.slotCount + c.slots < UInt16.size) :
    intern c b = .ok (UInt16.ofNat b.slotCount) (b.append c) ∧ (b.append c).Coherent := by
  have unknown : b.index[c]? = none := by
    cases found : b.index[c]? with
    | none => rfl
    | some i => exact absurd (ConstantPool.mem_constants_of_get ((hb.index_iff c i).mp found)) absent
  refine ⟨?_, hb.append unknown room⟩
  rcases intern_cases c b with ⟨i, found, _⟩ | ⟨_, _, run⟩ | ⟨_, full, _⟩
  · rw [unknown] at found
    cases found
  · exact run
  · exact absurd room full

section
variable {p : ConstantPool} {c : Constant}

/-- A constant that is not there is put at the end. -/
theorem intern_yields_new (absent : c ∉ p.constants) (room : p.slotCount + c.slots < UInt16.size) :
    (intern c).Yields p (UInt16.ofNat p.slotCount) (p.push c) := by
  rintro b hb rfl
  obtain ⟨run, hb'⟩ := intern_new hb absent room
  exact ⟨_, run, hb', rfl⟩

/-- A constant that is there is found where it is. -/
theorem intern_yields_old {i : PoolIndex} (there : p.get i = .ok c) : (intern c).Yields p i p := by
  rintro b hb rfl
  have known := (hb.index_iff c i).mpr there
  rcases intern_cases c b with ⟨k, found, run⟩ | ⟨absent, _⟩ | ⟨absent, _⟩
  · cases known.symm.trans found
    exact ⟨b, run, hb, rfl⟩
  · cases known.symm.trans absent
  · cases known.symm.trans absent

end

section
variable {b : PoolBuilder}

theorem slots_utf8 (bytes : Bytes) : (ConstantOf.utf8 bytes : Constant).slots = 1 := rfl

theorem slots_classInfo (i : PoolIndex) : (ConstantOf.classInfo i : Constant).slots = 1 := rfl

/-- The name of a class takes a slot, and the class another. -/
theorem classInfo_ok (name : String) (room : b.slotCount + 2 < UInt16.size) :
    ∃ i b', classInfo name b = .ok i b' ∧ b'.slotCount ≤ b.slotCount + 2 := by
  obtain ⟨text, b₁, first, more⟩ := intern_ok (c := .utf8 (ModifiedUtf8.encode name)) (b := b)
    (by rw [slots_utf8]; omega)
  rw [slots_utf8] at more
  obtain ⟨i, b', last, more'⟩ := intern_ok (c := .classInfo text) (b := b₁)
    (by rw [slots_classInfo]; omega)
  rw [slots_classInfo] at more'
  exact ⟨i, b', PoolStep.bind_eq_ok.mpr ⟨text, b₁, first, last⟩, by omega⟩

end

/-- Adding a text gives an index under which it is found. -/
theorem utf8_adds (text : String) : (utf8 text).Adds fun i F => F.utf8 i = .ok text :=
  (intern_adds _).mono fun _ _ => ConstantPool.utf8_of_get

/-- Adding a class gives an index under which its name is found. -/
theorem classInfo_adds (name : String) : (classInfo name).Adds fun i F => F.className i = .ok name :=
  (utf8_adds name).bind fun _ => (intern_adds _).mono fun _ _ h found =>
    ConstantPool.className_of_get h found

/-- Adding a string takes nothing back. -/
theorem string_onlyAdds (text : String) : (string text).OnlyAdds :=
  (utf8_adds text).onlyAdds.bind fun _ => (intern_adds _).onlyAdds

/-- Adding a name with a type takes nothing back. -/
theorem nameAndType_onlyAdds (name descriptor : String) : (nameAndType name descriptor).OnlyAdds :=
  (utf8_adds name).onlyAdds.bind fun _ => (utf8_adds descriptor).onlyAdds.bind fun _ =>
    (intern_adds _).onlyAdds

end PoolBuilder

end ProcessorBench
