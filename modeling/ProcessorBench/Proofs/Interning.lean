import ProcessorBench.Proofs.View

/-!
# Putting trees into a pool

`ConstantTree.intern` puts a tree into a pool under construction, what it refers to first, each
constant once. What the builder then holds under the index it gives is the tree: `intern_sound`. And
a tree that is there already is found where it is: `intern_of_tree`. So interning after interning is
reading, and the pool at the end, not the way to it, says what every index means.

`PoolBuilder.Sound` is what every step keeps: the table of indices and the pool agree, which is
`PoolBuilder.Coherent` and kept by whatever is added, and a constant stands after those it refers to.
-/

namespace ProcessorBench

/-! ## Pools that grow -/

/-- A pool is below another when every constant of the first is in the second at the same index. -/
instance : LE ConstantPool := ⟨fun p q => ∀ i c, p.get i = .ok c → q.get i = .ok c⟩

namespace ConstantPool

variable {p q r : ConstantPool}

theorem le_refl (p : ConstantPool) : p ≤ p := fun _ _ h => h

theorem le_trans (h : p ≤ q) (h' : q ≤ r) : p ≤ r := fun i c hc => h' i c (h i c hc)

/-- A pool that has grown holds the trees it held. -/
theorem tree_of_le (hp : p.Acyclic) (hq : q.Acyclic) (h : p ≤ q) {i : PoolIndex} {t : ConstantTree}
    (ht : p.tree i = .ok t) : q.tree i = .ok t := by
  induction i using hp.induction generalizing t with
  | step i ih =>
    obtain ⟨c, hc, ht⟩ := hp.tree_eq_ok.mp ht
    exact hq.tree_eq_ok.mpr
      ⟨c, h i c hc, ConstantOf.mapRefs_eq_ok_of_imp ht fun j mem t => ih c hc j mem⟩

/-- The constant that is put at the end is there, and all others stay. -/
theorem get_push (p : ConstantPool) (c : Constant) (i : PoolIndex) :
    (p.push c).get i = if i.toNat = p.slotCount then .ok c else p.get i := by
  have entries : (p.push c).entries[i.toNat]? =
      if i.toNat = p.slotCount then some (some c)
      else if c.isWide ∧ i.toNat = p.slotCount + 1 then some none else p.entries[i.toNat]? := by
    unfold push slotCount
    split <;> simp only [Array.getElem?_push, Array.size_push] <;> grind
  unfold get
  by_cases last : i.toNat = p.slotCount
  · rw [entries, if_pos last, if_pos last]
  · rw [entries, if_neg last, if_neg last]
    by_cases second : c.isWide ∧ i.toNat = p.slotCount + 1
    · have past : p.entries[i.toNat]? = none := Array.getElem?_eq_none_iff.mpr (by
        have := second.2
        unfold slotCount at this
        omega)
      rw [if_pos second, past]
    · rw [if_neg second]

end ConstantPool

/-! ## Adding a constant -/

/-- A computation on a pool under construction. It fails with the limit that it meets, or with
nothing where a reference leads nowhere. -/
abbrev Interning := StateT PoolBuilder (Except (Option Limit))

namespace PoolBuilder

/-- The index of a constant, which is added if it is not there. -/
def add (c : Constant) : Interning PoolIndex := fun b =>
  match b.index[c]? with
  | some i => .ok (i, b)
  | none =>
    if b.slotCount + c.slots < UInt16.size then .ok (UInt16.ofNat b.slotCount, b.append c)
    else .error (some .poolSlots)

/-- What holds of a pool built from nothing. -/
structure Coherent (b : PoolBuilder) : Prop where
  index_iff : ∀ c i, b.index[c]? = some i ↔ b.pool.get i = .ok c
  get_zero : ∀ c, b.pool.get 0 ≠ .ok c
  slotCount_pos : 0 < b.slotCount
  slotCount_lt : b.slotCount < UInt16.size
  pushed : ∃ cs : List Constant, b.pool = cs.foldl ConstantPool.push .empty

/-- What holds of a pool built from nothing where references are added before what refers to them. -/
structure Sound (b : PoolBuilder) : Prop extends b.Coherent where
  earlier : ∀ i c, b.pool.get i = .ok c → ∀ j ∈ c.refs, j < i ∧ ∃ d, b.pool.get j = .ok d

/-- The pool of a sound builder has no cycles. -/
theorem Sound.acyclic {b : PoolBuilder} (h : b.Sound) : b.pool.Acyclic :=
  ConstantPool.acyclic_of_lt fun i c hc j mem => (h.earlier i c hc j mem).1

/-- An empty pool has no constants. -/
theorem get_empty (i : PoolIndex) (c : Constant) : ConstantPool.empty.get i ≠ .ok c := by
  unfold ConstantPool.get
  split
  · next found =>
    obtain ⟨small, found⟩ := Array.getElem?_eq_some_iff.mp found
    simp [ConstantPool.empty] at found
  · exact nofun

/-- An empty builder knows where all its constants are. -/
theorem coherent_empty : empty.Coherent where
  index_iff c i := by simpa [empty] using get_empty i c
  get_zero c := get_empty 0 c
  slotCount_pos := by decide
  slotCount_lt := by decide
  pushed := ⟨[], rfl⟩

/-- An empty builder is sound. -/
theorem sound_empty : empty.Sound where
  toCoherent := coherent_empty
  earlier i c h := absurd h (get_empty i c)

theorem slotCount_append (b : PoolBuilder) (c : Constant) :
    (b.append c).slotCount = b.slotCount + c.slots := ConstantPool.slotCount_push b.pool c

section
variable {b : PoolBuilder} {c : Constant}

/-- The next slot can be numbered. -/
theorem Coherent.toNat_ofNat_slotCount (hb : b.Coherent) :
    (UInt16.ofNat b.slotCount).toNat = b.slotCount := by
  rw [UInt16.toNat_ofNat', Nat.mod_eq_of_lt hb.slotCount_lt]

/-- A constant that is added stands in the next slot, and all others where they were. -/
theorem get_append (b : PoolBuilder) (c : Constant) (i : PoolIndex) :
    (b.append c).pool.get i = if i.toNat = b.slotCount then .ok c else b.pool.get i :=
  ConstantPool.get_push b.pool c i

/-- Adding a constant takes none away. -/
theorem le_append (b : PoolBuilder) (c : Constant) : b.pool ≤ (b.append c).pool := fun i d hd => by
  have inside : i.toNat < b.slotCount := ConstantPool.lt_slotCount_of_get hd
  rw [get_append, if_neg (Nat.ne_of_lt inside), hd]

/-- The constant that has been added is found in its slot. -/
theorem get_append_slotCount (hb : b.Coherent) :
    (b.append c).pool.get (UInt16.ofNat b.slotCount) = .ok c := by
  rw [get_append, if_pos hb.toNat_ofNat_slotCount]

/-- A constant of a builder that one has been added to is the new one or an old one. -/
theorem of_get_append (hb : b.Coherent) {i : PoolIndex} {d : Constant}
    (h : (b.append c).pool.get i = .ok d) :
    i = UInt16.ofNat b.slotCount ∧ d = c ∨ b.pool.get i = .ok d := by
  rw [get_append] at h
  split at h
  · next last =>
    cases h
    exact .inl ⟨UInt16.toNat_inj.mp (last.trans hb.toNat_ofNat_slotCount.symm), rfl⟩
  · exact .inr h

/-- The table of a builder that a new constant has been added to agrees with its pool. -/
theorem index_append (hb : b.Coherent) (absent : b.index[c]? = none) (d : Constant) (j : PoolIndex) :
    (b.append c).index[d]? = some j ↔ (b.append c).pool.get j = .ok d := by
  show (b.index.insert c (UInt16.ofNat b.slotCount))[d]? = some j ↔ _
  rw [Std.HashMap.getElem?_insert]
  by_cases same : c = d
  · subst same
    simp only [BEq.rfl, if_true, Option.some.injEq]
    constructor
    · rintro rfl
      exact get_append_slotCount hb
    · intro hj
      rcases of_get_append hb hj with ⟨rfl, _⟩ | hj
      · rfl
      · rw [(hb.index_iff c j).mpr hj] at absent
        cases absent
  · rw [if_neg (by simpa using same), hb.index_iff]
    constructor
    · exact le_append b c j d
    · intro hj
      rcases of_get_append hb hj with ⟨_, rfl⟩ | hj
      · exact absurd rfl same
      · exact hj

/-- A new constant whose references are there is put behind them. -/
theorem earlier_append (hb : b.Sound) (refs : ∀ j ∈ c.refs, ∃ d, b.pool.get j = .ok d)
    {j : PoolIndex} {d : Constant} (hd : (b.append c).pool.get j = .ok d) {k : PoolIndex}
    (mem : k ∈ d.refs) : k < j ∧ ∃ e, (b.append c).pool.get k = .ok e := by
  rcases of_get_append hb.toCoherent hd with ⟨rfl, rfl⟩ | hd
  · obtain ⟨e, he⟩ := refs k mem
    refine ⟨UInt16.lt_iff_toNat_lt.mpr ?_, e, le_append b d k e he⟩
    rw [hb.toNat_ofNat_slotCount]
    exact ConstantPool.lt_slotCount_of_get he
  · obtain ⟨lt, e, he⟩ := hb.earlier j d hd k mem
    exact ⟨lt, e, le_append b c k e he⟩

/-- Nothing is put into slot 0. -/
theorem get_zero_append (hb : b.Coherent) (d : Constant) : (b.append c).pool.get 0 ≠ .ok d := by
  intro hd
  rcases of_get_append hb hd with ⟨zero, _⟩ | hd
  · have pos := hb.slotCount_pos
    rw [← hb.toNat_ofNat_slotCount, ← zero] at pos
    exact absurd pos (by decide)
  · exact hb.get_zero d hd

/-- A builder stays coherent when a new constant is added that there is room for. -/
theorem Coherent.append (hb : b.Coherent) (absent : b.index[c]? = none)
    (room : b.slotCount + c.slots < UInt16.size) : (b.append c).Coherent where
  index_iff := index_append hb absent
  get_zero := get_zero_append hb
  slotCount_pos := by
    rw [slotCount_append]
    exact Nat.add_pos_left hb.slotCount_pos _
  slotCount_lt := by
    rw [slotCount_append]
    exact room
  pushed := by
    obtain ⟨cs, hcs⟩ := hb.pushed
    exact ⟨cs ++ [c], by simp [← hcs, PoolBuilder.append]⟩

/-- A builder stays sound when, besides, the references of the constant are there. -/
theorem Sound.append (hb : b.Sound) (refs : ∀ j ∈ c.refs, ∃ d, b.pool.get j = .ok d)
    (absent : b.index[c]? = none) (room : b.slotCount + c.slots < UInt16.size) :
    (b.append c).Sound where
  toCoherent := hb.toCoherent.append absent room
  earlier _ _ hd _ mem := earlier_append hb refs hd mem

end

/-- **Adding a constant whose references are there** keeps the builder sound and what it holds, and
the constant is at the index that is handed out. -/
theorem add_sound {b b' : PoolBuilder} {c : Constant} {i : PoolIndex} (hb : b.Sound)
    (refs : ∀ j ∈ c.refs, ∃ d, b.pool.get j = .ok d) (run : add c b = .ok (i, b')) :
    b'.Sound ∧ b.pool ≤ b'.pool ∧ b'.pool.get i = .ok c := by
  unfold add at run
  split at run
  · next i found =>
    cases run
    exact ⟨hb, ConstantPool.le_refl _, (hb.index_iff c i).mp found⟩
  · next absent =>
    split at run
    · next room =>
      cases run
      exact ⟨hb.append refs absent room, le_append b c, get_append_slotCount hb.toCoherent⟩
    · cases run

end PoolBuilder

/-- Adding a constant can only fail for want of slots. -/
theorem PoolBuilder.eq_of_add_error {c : Constant} {b : PoolBuilder} {o : Option Limit}
    (run : add c b = .error o) : o = some .poolSlots := by
  unfold add at run
  split at run
  · cases run
  · split at run <;> cases run
    rfl

/-- **A constant added over the references to some trees reads as the tree over these.** -/
theorem PoolBuilder.add_tree {b b' : PoolBuilder} (hb : b.Sound) {c : ConstantOf ConstantTree}
    {d : Constant} (trees : d.mapRefs b.pool.tree = .ok c) {k : PoolIndex}
    (run : add d b = .ok (k, b')) : b'.Sound ∧ b.pool ≤ b'.pool ∧ b'.pool.tree k = .ok ⟨c⟩ := by
  have there : ∀ j ∈ d.refs, ∃ e, b.pool.get j = .ok e := fun j mem => by
    obtain ⟨t, _, ht⟩ := ConstantOf.exists_of_mapRefs trees mem
    obtain ⟨e, he, _⟩ := hb.acyclic.tree_eq_ok.mp ht
    exact ⟨e, he⟩
  obtain ⟨hb', grown, added⟩ := add_sound hb there run
  refine ⟨hb', grown, hb'.acyclic.tree_eq_ok.mpr ⟨d, added, ?_⟩⟩
  exact ConstantOf.mapRefs_eq_ok_of_imp trees fun j _ t ht =>
    ConstantPool.tree_of_le hb.acyclic hb'.acyclic grown ht

/-! ## Interning a tree -/

/-- The index of a tree, after what it refers to has been put there. -/
def ConstantTree.intern : ConstantTree → Interning PoolIndex := fold PoolBuilder.add

/-- A tree is added after what its root refers to. -/
theorem ConstantTree.intern_mk (c : ConstantOf ConstantTree) :
    intern ⟨c⟩ = c.mapRefs intern >>= PoolBuilder.add := fold_mk _ c

/-- The value of a step that can fail, as a step on a builder. -/
def resolve {α : Type} : Except ClassError α → Interning α
  | .ok a => pure a
  | .error _ => throw none

/-- A computation `x` on a builder puts there what `z` reads, as far as a pool `F` that the builder
grows into goes. -/
structure Restores (F : ConstantPool) {α α' : Type} (r : α → α' → Prop) (x : Interning α)
    (z : Except ClassError α') : Prop where
  ok : ∀ b a b', b.Sound → x b = .ok (a, b') →
    b'.Sound ∧ b.pool ≤ b'.pool ∧ ∃ a', z = .ok a' ∧ (b'.pool ≤ F → r a a')
  none : ∀ b, b.Sound → x b = .error none → ∃ e, z = .error e

/-- Whatever restores step by step restores as a whole. -/
def restoring (F : ConstantPool) : Simulation Interning (Except ClassError) where
  rel := Restores F
  pure h :=
    { ok := fun b a b' hb run => by cases run; exact ⟨hb, ConstantPool.le_refl _, _, rfl, fun _ => h⟩
      none := fun b hb run => by cases run }
  bind {α α' β β' r q x z k k'} hx hk :=
    { ok := fun b c b' hb run => by
        obtain ⟨a, b₁, first, last⟩ := stateBind_eq_ok.mp run
        obtain ⟨hb₁, grown, a', ha', fromFirst⟩ := hx.ok b a b₁ hb first
        obtain ⟨hb', grown', c', hc', fromLast⟩ := (hk a a').ok b₁ c b' hb₁ last
        exact ⟨hb', ConstantPool.le_trans grown grown', c', by rw [ha', ok_bind, hc'], fun below =>
          fromLast below (fromFirst (ConstantPool.le_trans grown' below))⟩
      none := fun b hb run => by
        cases first : x b with
        | error o =>
          rw [stateBind_of_error first] at run
          cases run
          obtain ⟨e, he⟩ := hx.none b hb first
          exact ⟨e, by rw [he, error_bind]⟩
        | ok p =>
          obtain ⟨a, b₁⟩ := p
          rw [stateBind_of_ok first] at run
          obtain ⟨hb₁, _, a', ha', _⟩ := hx.ok b a b₁ hb first
          obtain ⟨e, he⟩ := (hk a a').none b₁ hb₁ run
          exact ⟨e, by rw [ha', ok_bind, he]⟩ }

/-- What goes on with a tree that has been found restores what goes on with it. -/
theorem Restores.resolve {F : ConstantPool} {α α' : Type} {r : α → α' → Prop}
    {z : Except ClassError α'} {k : α' → Interning α}
    (h : ∀ w, z = .ok w → Restores F r (k w) (pure w)) : Restores F r (resolve z >>= k) z := by
  cases z with
  | error e =>
    exact { ok := fun b a b' _ run => by cases run
            none := fun b _ _ => ⟨e, rfl⟩ }
  | ok w => exact h w rfl

/-- **An interned tree is there**, in every pool that the builder grows into. -/
theorem ConstantTree.intern_restores (t : ConstantTree) {F : ConstantPool} (hF : F.Acyclic) :
    (restoring F).rel (fun k t' => F.tree k = .ok t') t.intern (pure t) := by
  induction t using ConstantTree.induction generalizing F with
  | step c ih =>
    -- The references have to be there when the constant is added, not only at the end, so the last
    -- step is taken in the pool that the builder has got to by then.
    have refs : ∀ F : ConstantPool, F.Acyclic →
        (restoring F).rel (fun d d' => d.mapRefs F.tree = d'.mapRefs pure) (c.mapRefs intern)
          (pure c) := fun F hF =>
      ConstantOf.mapRefs_over (restoring F) F.tree pure fun t mem => ih t mem hF
    simp only [ConstantOf.mapRefs_pure] at refs
    rw [intern_mk]
    constructor
    · intro b i b' hb run
      obtain ⟨d, b₁, first, last⟩ := stateBind_eq_ok.mp run
      have hb₁ : b₁.Sound := ((refs F hF).ok b d b₁ hb first).1
      obtain ⟨_, grown, _, same, trees⟩ := (refs b₁.pool hb₁.acyclic).ok b d b₁ hb first
      cases same
      have trees : d.mapRefs b₁.pool.tree = .ok c := trees (ConstantPool.le_refl _)
      obtain ⟨hb', grown', there⟩ := PoolBuilder.add_tree hb₁ trees last
      exact ⟨hb', ConstantPool.le_trans grown grown', _, rfl, fun below =>
        ConstantPool.tree_of_le hb'.acyclic hF below there⟩
    · intro b hb run
      cases first : c.mapRefs intern b with
      | error o =>
        rw [stateBind_of_error first] at run
        cases run
        obtain ⟨e, he⟩ := (refs F hF).none b hb first
        cases he
      | ok p =>
        rw [stateBind_of_ok first] at run
        cases PoolBuilder.eq_of_add_error run

/-- **Adding a tree** keeps a builder sound, takes nothing away, and gives an index that leads to the tree. -/
theorem ConstantTree.intern_sound {t : ConstantTree} {b b' : PoolBuilder} {k : PoolIndex}
    (hb : b.Sound) (run : t.intern b = .ok (k, b')) :
    b'.Sound ∧ b.pool ≤ b'.pool ∧ b'.pool.tree k = .ok t := by
  have hb' : b'.Sound := ((t.intern_restores hb.acyclic).ok b k b' hb run).1
  obtain ⟨_, grown, _, same, there⟩ := (t.intern_restores hb'.acyclic).ok b k b' hb run
  cases same
  exact ⟨hb', grown, there (ConstantPool.le_refl _)⟩

/-- What a constant refers to, interned, is there. -/
theorem ConstantTree.mapRefs_intern_sound {c : ConstantOf ConstantTree} {d : Constant}
    {b b' : PoolBuilder} (hb : b.Sound) (run : c.mapRefs intern b = .ok (d, b')) :
    b'.Sound ∧ b.pool ≤ b'.pool ∧ d.mapRefs b'.pool.tree = .ok c := by
  have reads (F : ConstantPool) (hF : F.Acyclic) := ConstantOf.mapRefs_over (restoring F) F.tree pure
    fun t (_ : t ∈ c.refs) => t.intern_restores hF
  simp only [ConstantOf.mapRefs_pure] at reads
  have hb' : b'.Sound := ((reads b.pool hb.acyclic).ok b d b' hb run).1
  obtain ⟨_, grown, _, same, trees⟩ := (reads b'.pool hb'.acyclic).ok b d b' hb run
  cases same
  exact ⟨hb', grown, trees (ConstantPool.le_refl _)⟩

/-! ## Interning what is there -/

/-- Computations that leave a builder as it is. -/
def staying (b : PoolBuilder) : Simulation Interning Id where
  rel r x a' := ∃ a, x b = .ok (a, b) ∧ r a a'
  pure h := ⟨_, rfl, h⟩
  bind hx hk := by
    obtain ⟨a, ha, first⟩ := hx
    obtain ⟨c, hc, last⟩ := hk a _
    exact ⟨c, by rw [stateBind_of_ok ha, hc], last first⟩

/-- A constant over trees that are found where they are becomes one over their indices. -/
theorem ConstantTree.mapRefs_intern {b : PoolBuilder} {c : Constant} {d : ConstantOf ConstantTree}
    (trees : c.mapRefs b.pool.tree = .ok d)
    (found : ∀ j ∈ c.refs, ∀ t, b.pool.tree j = .ok t → t.intern b = .ok (j, b)) :
    d.mapRefs intern b = .ok (c, b) := by
  rw [ConstantOf.mapRefs_bind resolve (fun _ => rfl) trees]
  have stays : ∀ j ∈ c.refs, (staying b).rel (fun k k' => k = k') (resolve (b.pool.tree j) >>= intern)
      (pure j) := fun j mem => by
    obtain ⟨s, _, hs⟩ := ConstantOf.exists_of_mapRefs trees mem
    exact ⟨j, by rw [hs]; exact found j mem s hs, rfl⟩
  obtain ⟨c', hc', same⟩ := ConstantOf.mapRefs_same (staying b) stays
  rw [ConstantOf.mapRefs_pure] at same
  rw [hc']
  exact congrArg (fun x => Except.ok (x, b)) same

/-- **A tree that is in the pool is found there**, and nothing is added. -/
theorem ConstantTree.intern_of_tree {b : PoolBuilder} (hb : b.Sound) {k : PoolIndex}
    {t : ConstantTree} (h : b.pool.tree k = .ok t) : t.intern b = .ok (k, b) := by
  induction k using hb.acyclic.induction generalizing t with
  | step k ih =>
    obtain ⟨c, hc, trees⟩ := hb.acyclic.tree_eq_ok.mp h
    obtain ⟨d⟩ := t
    have refs : d.mapRefs intern b = .ok (c, b) :=
      mapRefs_intern trees fun j mem s hs => ih c hc j mem hs
    rw [intern_mk, stateBind_of_ok refs, PoolBuilder.add, (hb.index_iff c k).mpr hc]

/-- No two indices lead to one tree. -/
theorem PoolBuilder.Sound.tree_injective {b : PoolBuilder} (hb : b.Sound) {i j : PoolIndex}
    {t : ConstantTree} (hi : b.pool.tree i = .ok t) (hj : b.pool.tree j = .ok t) : i = j := by
  have found := ConstantTree.intern_of_tree hb hi
  rw [ConstantTree.intern_of_tree hb hj] at found
  cases found
  rfl

/-- No two constants are over the same trees. -/
theorem PoolBuilder.Sound.mapRefs_injective {b : PoolBuilder} (hb : b.Sound) {c c' : Constant}
    {d : ConstantOf ConstantTree} (h : c.mapRefs b.pool.tree = .ok d)
    (h' : c'.mapRefs b.pool.tree = .ok d) : c = c' := by
  have found := ConstantTree.mapRefs_intern h fun _ _ _ => ConstantTree.intern_of_tree hb
  rw [ConstantTree.mapRefs_intern h' fun _ _ _ => ConstantTree.intern_of_tree hb] at found
  cases found
  rfl

end ProcessorBench
