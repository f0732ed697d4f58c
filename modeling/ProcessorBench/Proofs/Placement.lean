import ProcessorBench.Proofs.Layout
import ProcessorBench.Proofs.Rebuilding

/-!
# Pools are filled as they are laid out

Interning a view and laying it out, side by side. As long as interning goes well, the builder holds
what has been laid out, every constant in its position. It stops at the first slot that cannot be
numbered or the first load whose byte is too narrow, and since a layout only grows, either is still
wrong with the layout of the whole class. So a view is written exactly when its layout fits:
`ClassView.rebuilt_outcome`.
-/

namespace ProcessorBench

/-! ## Layouts that grow -/

/-- A layout is below another that goes on from it. -/
instance : LE Layout := ⟨fun l l' => l.placed <+: l'.placed ∧ l.narrow ⊆ l'.narrow⟩

namespace Layout

variable {l l' l'' : Layout} {t s : ConstantTree}

theorem le_refl (l : Layout) : l ≤ l := ⟨List.prefix_rfl, List.Subset.refl _⟩

theorem le_trans (h : l ≤ l') (h' : l' ≤ l'') : l ≤ l'' :=
  ⟨h.1.trans h'.1, List.Subset.trans h.2 h'.2⟩

/-- A tree that has been placed is not placed again. -/
theorem add_of_mem (h : t ∈ l.placed) : l.add t = l := by
  rw [add, if_pos h]

/-- A tree that has not been placed is placed last. -/
theorem placed_add (h : t ∉ l.placed) : (l.add t).placed = l.placed ++ [t] := by
  rw [add, if_neg h]

/-- Placing a tree moves no other. -/
theorem le_add (l : Layout) (t : ConstantTree) : l ≤ l.add t := by
  by_cases h : t ∈ l.placed
  · rw [add_of_mem h]
    exact le_refl l
  · refine ⟨?_, List.Subset.refl _⟩
    rw [placed_add h]
    exact List.prefix_append _ _

/-- Loading a tree moves none. -/
theorem le_load (l : Layout) (t : ConstantTree) : l ≤ l.load t :=
  ⟨List.prefix_rfl, List.subset_append_left _ _⟩

/-- Trees take as many slots together as one after the other. -/
theorem slots_append (ts us : List ConstantTree) : slots (ts ++ us) = slots ts + slots us := by
  simp [slots]

/-- A layout that grows takes more slots. -/
theorem slotCount_le (h : l ≤ l') : l.slotCount ≤ l'.slotCount := by
  obtain ⟨⟨us, hus⟩, _⟩ := h
  rw [slotCount, slotCount, ← hus, slots_append]
  omega

/-- What stands before a tree goes on until the tree is met. -/
theorem takeWhile_append_of_not_mem {ts : List ConstantTree} (h : t ∉ ts) (us : List ConstantTree) :
    (ts ++ us).takeWhile (· ≠ t) = ts ++ us.takeWhile (· ≠ t) :=
  List.takeWhile_append_of_pos fun s mem => by
    have differs : s ≠ t := by
      rintro rfl
      exact h mem
    simpa using differs

/-- What stands before a tree does not depend on what is behind it. -/
theorem takeWhile_append_of_mem {ts : List ConstantTree} (h : t ∈ ts) (us : List ConstantTree) :
    (ts ++ us).takeWhile (· ≠ t) = ts.takeWhile (· ≠ t) := by
  induction ts with
  | nil => cases h
  | cons s ts ih =>
    by_cases same : s = t
    · simp [same]
    · have mem : t ∈ ts := (List.mem_cons.mp h).resolve_left (Ne.symm same)
      simpa [same] using ih mem

/-- A constant stays where it has been put. -/
theorem position_eq (h : l ≤ l') (mem : t ∈ l.placed) : l'.position t = l.position t := by
  obtain ⟨⟨us, hus⟩, _⟩ := h
  rw [position, position, ← hus, takeWhile_append_of_mem mem]

/-- A tree that has not been placed would be placed in the next slot. -/
theorem position_of_not_mem (h : t ∉ l.placed) : l.position t = l.slotCount := by
  have whole := takeWhile_append_of_not_mem h []
  rw [List.append_nil, List.takeWhile_nil, List.append_nil] at whole
  rw [position, whole, slotCount]

/-- A constant does not come to stand before the place that it would have been put at. -/
theorem position_le (h : l ≤ l') : l.position t ≤ l'.position t := by
  by_cases mem : t ∈ l.placed
  · exact Nat.le_of_eq (position_eq h mem).symm
  · obtain ⟨⟨us, hus⟩, _⟩ := h
    rw [position_of_not_mem mem, slotCount, position, ← hus, takeWhile_append_of_not_mem mem,
      slots_append]
    omega

/-- A tree that is placed is there. -/
theorem mem_add (l : Layout) (t : ConstantTree) : t ∈ (l.add t).placed := by
  by_cases h : t ∈ l.placed
  · rwa [add_of_mem h]
  · rw [placed_add h]
    exact List.mem_append_right _ (List.mem_singleton_self t)

/-- A constant that has been put somewhere does not stand behind all others. -/
theorem position_lt (h : t ∈ l.placed) : l.position t < l.slotCount := by
  obtain ⟨ts, us, split, first⟩ := List.eq_append_cons_of_mem h
  have before : l.placed.takeWhile (· ≠ t) = ts := by
    rw [split, takeWhile_append_of_not_mem first]
    simp
  have taken := t.constant.slots_pos
  rw [position, slotCount, before, split, slots_append]
  simp only [slots, List.map_cons, List.sum_cons]
  omega

/-- A new constant stands behind all others. -/
theorem position_add (h : t ∉ l.placed) : (l.add t).position t = l.slotCount := by
  rw [position, placed_add h, takeWhile_append_of_not_mem h]
  simp [slotCount]

end Layout

/-! ## What a builder holds -/

/-- A builder holds what has been laid out, every constant in its position. -/
structure PoolBuilder.Holds (b : PoolBuilder) (l : Layout) : Prop where
  sound : b.Sound
  slotCount : b.slotCount = l.slotCount
  placed : ∀ t ∈ l.placed, ∃ k, b.pool.tree k = .ok t
  position : ∀ k t, b.pool.tree k = .ok t → t ∈ l.placed ∧ k.toNat = l.position t
  loads : ∀ t ∈ l.narrow, t ∈ l.placed ∧ l.position t < 256

/-- How interning has ended that is to fill a layout. -/
inductive Layout.Filled (l : Layout) {α : Type} : Except (Option Limit) (α × PoolBuilder) → Prop
  | ok {a : α} {b : PoolBuilder} : b.Holds l → Filled l (.ok (a, b))
  | slots : UInt16.size ≤ l.slotCount → Filled l (.error (some .poolSlots))
  | load {t : ConstantTree} : t ∈ l.narrow → 256 ≤ l.position t →
    Filled l (.error (some .renumberedLoadOperand))
  | missing : Filled l (.error none)

/-- An empty builder holds the empty layout. -/
theorem PoolBuilder.holds_empty : empty.Holds .empty where
  sound := sound_empty
  slotCount := rfl
  placed _ mem := by cases mem
  position k t there := by
    obtain ⟨c, hc, _⟩ := sound_empty.acyclic.tree_eq_ok.mp there
    exact absurd hc (get_empty k c)
  loads _ mem := by cases mem

/-- What ends too early ends too early for every layout that goes on. -/
theorem Layout.Filled.of_error {l l' : Layout} (h : l ≤ l') {α β : Type} {e : Option Limit}
    (filled : l.Filled (.error e : Except (Option Limit) (α × PoolBuilder))) :
    l'.Filled (.error e : Except (Option Limit) (β × PoolBuilder)) := by
  cases filled with
  | slots few => exact .slots (few.trans (slotCount_le h))
  | load mem far => exact .load (h.2 mem) (far.trans (position_le h))
  | missing => exact .missing

/-- Interning `x` fills what `y` lays out. That `x` has a possible result is what makes the walk
after it say something about layouts even where `x` fails. -/
structure Fills {α α' : Type} (x : Interning α) (y : Placing α') : Prop where
  possible : Nonempty α
  grows : ∀ l, l ≤ (y l).2
  filled : ∀ b l, b.Holds l → (y l).2.Filled (x b)

theorem Fills.pure {α α' : Type} (a : α) (a' : α') :
    Fills (Pure.pure a : Interning α) (Pure.pure a' : Placing α') :=
  ⟨⟨a⟩, Layout.le_refl, fun _ _ hb => .ok hb⟩

/-- Steps that fill what others place can be put together. -/
theorem Fills.bind {α α' β β' : Type} {x : Interning α} {y : Placing α'} {k : α → Interning β}
    {k' : α' → Placing β'} (hx : Fills x y) (hk : ∀ a a', Fills (k a) (k' a')) :
    Fills (x >>= k) (y >>= k') := by
  obtain ⟨a⟩ := hx.possible
  have grows (l : Layout) : (y l).2 ≤ (k' (y l).1 (y l).2).2 := (hk a (y l).1).grows (y l).2
  refine ⟨(hk a (y .empty).1).possible, fun l => Layout.le_trans (hx.grows l) (grows l),
    fun b l hb => ?_⟩
  have first := hx.filled b l hb
  show (k' (y l).1 (y l).2).2.Filled _
  cases run : x b with
  | error e =>
    rw [run] at first
    rw [stateBind_of_error run]
    exact first.of_error (grows l)
  | ok p =>
    obtain ⟨a, b'⟩ := p
    rw [run] at first
    rw [stateBind_of_ok run]
    cases first with
    | ok hb' => exact (hk a (y l).1).filled b' (y l).2 hb'

/-- Whatever fills layouts step by step does so as a whole. -/
def filling : Simulation Interning Placing where
  rel _ x y := Fills x y
  pure _ := .pure _ _
  bind := .bind

/-! ## One constant -/

/-- Constants of two kinds take two slots. -/
theorem ConstantOf.isWide_eq {ι : Type} (c : ConstantOf ι) :
    c.isWide = (c.tag == 5 || c.tag == 6) := by
  cases c <;> rfl

/-- Replacing references does not change how many slots a constant takes. -/
theorem ConstantOf.slots_of_mapRefs {ι κ ε : Type} {f : ι → Except ε κ} {c : ConstantOf ι}
    {d : ConstantOf κ} (h : c.mapRefs f = .ok d) : d.slots = c.slots := by
  rw [slots, slots, isWide_eq, isWide_eq, tag_of_mapRefs h]

section
variable {b : PoolBuilder} {l : Layout} {c : Constant} {d : ConstantOf ConstantTree}

/-- A tree over an old constant was there before a constant has been added. -/
theorem tree_of_tree_append (hb : b.Sound) (hb' : (b.append c).Sound) {k : PoolIndex} {e : Constant}
    (old : b.pool.get k = .ok e) {t : ConstantTree} (h : (b.append c).pool.tree k = .ok t) :
    b.pool.tree k = .ok t := by
  induction k using hb.acyclic.induction generalizing e t with
  | step k ih =>
    obtain ⟨e', he', trees⟩ := hb'.acyclic.tree_eq_ok.mp h
    rw [PoolBuilder.le_append b c k e old] at he'
    cases he'
    refine hb.acyclic.tree_eq_ok.mpr
      ⟨e, old, ConstantOf.mapRefs_eq_ok_of_imp trees fun j mem s hs => ?_⟩
    obtain ⟨_, e', he'⟩ := hb.earlier k e old j mem
    exact ih e old j mem he' hs

/-- A constant that is not there is added behind all others. -/
theorem holds_append (hb : b.Holds l) (trees : c.mapRefs b.pool.tree = .ok d)
    (hb' : (b.append c).Sound) (new : ⟨d⟩ ∉ l.placed) : (b.append c).Holds (l.add ⟨d⟩) := by
  have grown := PoolBuilder.le_append b c
  have below := Layout.le_add l ⟨d⟩
  have placed := Layout.placed_add new
  have there : (b.append c).pool.tree (UInt16.ofNat b.slotCount) = .ok ⟨d⟩ :=
    hb'.acyclic.tree_eq_ok.mpr ⟨c, PoolBuilder.get_append_slotCount hb.sound.toCoherent,
      ConstantOf.mapRefs_eq_ok_of_imp trees fun j _ t =>
        ConstantPool.tree_of_le hb.sound.acyclic hb'.acyclic grown⟩
  refine ⟨hb', ?_, ?_, ?_, ?_⟩
  · rw [PoolBuilder.slotCount_append, hb.slotCount, Layout.slotCount, Layout.slotCount, placed,
      Layout.slots_append, Nat.add_assoc]
    simp [Layout.slots, ConstantOf.slots_of_mapRefs trees]
  · intro t mem
    rw [placed, List.mem_append, List.mem_singleton] at mem
    rcases mem with mem | rfl
    · obtain ⟨k, hk⟩ := hb.placed t mem
      exact ⟨k, ConstantPool.tree_of_le hb.sound.acyclic hb'.acyclic grown hk⟩
    · exact ⟨_, there⟩
  · intro k t hk
    obtain ⟨e, he, _⟩ := hb'.acyclic.tree_eq_ok.mp hk
    -- The index is that of the new constant, or it was there before and still leads to the same tree.
    rcases PoolBuilder.of_get_append hb.sound.toCoherent he with ⟨rfl, _⟩ | old
    · cases there.symm.trans hk
      refine ⟨by simp [placed], ?_⟩
      rw [hb.sound.toNat_ofNat_slotCount, hb.slotCount, Layout.position_add new]
    · obtain ⟨mem, position⟩ := hb.position k t (tree_of_tree_append hb.sound hb' old hk)
      exact ⟨below.1.subset mem, by rw [position, Layout.position_eq below mem]⟩
  · intro t mem
    obtain ⟨mem, small⟩ := hb.loads t mem
    exact ⟨below.1.subset mem, by rwa [Layout.position_eq below mem]⟩

/-- **A constant is added where it is laid out.** -/
theorem add_filled (hb : b.Holds l) (trees : c.mapRefs b.pool.tree = .ok d) :
    (l.add ⟨d⟩).Filled (PoolBuilder.add c b) := by
  cases found : b.index[c]? with
  | some k =>
    have there : b.pool.tree k = .ok ⟨d⟩ :=
      hb.sound.acyclic.tree_eq_ok.mpr ⟨c, (hb.sound.index_iff c k).mp found, trees⟩
    rw [PoolBuilder.add, found, Layout.add_of_mem (hb.position k _ there).1]
    exact .ok hb
  | none =>
    -- Otherwise the constant that stands there would be the same one, and in the index.
    have new : ⟨d⟩ ∉ l.placed := fun mem => by
      obtain ⟨k, hk⟩ := hb.placed _ mem
      obtain ⟨c', hc', trees'⟩ := hb.sound.acyclic.tree_eq_ok.mp hk
      cases hb.sound.mapRefs_injective trees trees'
      rw [(hb.sound.index_iff c k).mpr hc'] at found
      cases found
    by_cases room : b.slotCount + c.slots < UInt16.size
    · have run : PoolBuilder.add c b = .ok (UInt16.ofNat b.slotCount, b.append c) := by
        rw [PoolBuilder.add, found]
        exact if_pos room
      rw [run]
      exact .ok (holds_append hb trees (PoolBuilder.add_tree hb.sound trees run).1 new)
    · have run : PoolBuilder.add c b = .error (some .poolSlots) := by
        rw [PoolBuilder.add, found]
        exact if_neg room
      rw [run]
      refine .slots ?_
      rw [Layout.slotCount, Layout.placed_add new, Layout.slots_append, ← Nat.add_assoc,
        ← Layout.slotCount, ← hb.slotCount]
      simpa [Layout.slots, ConstantOf.slots_of_mapRefs trees] using room

end

/-! ## A tree -/

/-- Laying out gives back what it lays out. -/
def returning : Simulation Placing Id where
  rel r y a' := ∀ l, r (y l).1 a'
  pure h _ := h
  bind hx hk l := hk _ _ _ (hx l)

/-- A tree is placed after what its root refers to. -/
theorem ConstantTree.place_mk (c : ConstantOf ConstantTree) :
    place ⟨c⟩ = c.mapRefs place >>= fun c l => (⟨c⟩, l.add ⟨c⟩) := fold_mk _ c

/-- Placing what a constant refers to leaves the constant as it is. -/
theorem mapRefs_place_fst {c : ConstantOf ConstantTree}
    (h : ∀ t ∈ c.refs, ∀ l, (t.place l).1 = t) (l : Layout) :
    (c.mapRefs ConstantTree.place l).1 = c := by
  have step : ∀ t ∈ c.refs, returning.rel (fun s s' => s = s') t.place (pure t) := h
  have walk := ConstantOf.mapRefs_same returning step
  rw [ConstantOf.mapRefs_pure] at walk
  exact walk l

/-- Placing a tree leaves the tree as it is. -/
theorem ConstantTree.place_fst (t : ConstantTree) (l : Layout) : (t.place l).1 = t := by
  induction t using ConstantTree.induction generalizing l with
  | step c ih =>
    rw [place_mk]
    exact congrArg ConstantTree.mk (mapRefs_place_fst ih l)

/-- A tree that is placed is there. -/
theorem ConstantTree.mem_place (t : ConstantTree) (l : Layout) : t ∈ (t.place l).2.placed := by
  obtain ⟨c⟩ := t
  rw [place_mk]
  show ⟨c⟩ ∈ ((c.mapRefs place l).2.add ⟨(c.mapRefs place l).1⟩).placed
  rw [mapRefs_place_fst fun t _ => t.place_fst]
  exact Layout.mem_add _ _

/-- **A tree is interned where it is laid out.** -/
theorem ConstantTree.intern_fills (t : ConstantTree) : Fills t.intern t.place := by
  induction t using ConstantTree.induction with
  | step c ih =>
    have refs : filling.rel (fun d d' => d.mapRefs (fun _ => (pure () : Id Unit)) =
        d'.mapRefs fun _ => pure ()) (c.mapRefs intern) (c.mapRefs place) := c.mapRefs_related ih
    rw [intern_mk, place_mk]
    refine ⟨⟨0⟩, fun l => Layout.le_trans (refs.grows l) (Layout.le_add _ _), fun b l hb => ?_⟩
    have first := refs.filled b l hb
    show (((c.mapRefs place l).2).add ⟨(c.mapRefs place l).1⟩).Filled _
    rw [mapRefs_place_fst fun t _ => t.place_fst]
    cases run : c.mapRefs intern b with
    | error e =>
      rw [run] at first
      rw [stateBind_of_error run]
      exact first.of_error (Layout.le_add _ _)
    | ok p =>
      obtain ⟨d, b'⟩ := p
      rw [run] at first
      rw [stateBind_of_ok run]
      cases first with
      | ok hb' =>
        exact add_filled hb' (mapRefs_intern_sound hb.sound run).2.2

/-! ## A class -/

/-- A load with one byte is numbered when its constant stands below 256, and the layout says so. -/
theorem internOperand_fills (width : OperandWidth) (t : ConstantTree) :
    Fills (internOperand width t) (placeOperand width t) := by
  have placed := t.intern_fills
  cases width with
  | wide => exact placed
  | narrow =>
    have laid (l : Layout) : (placeOperand .narrow t l).2 = (t.place l).2.load t := by
      show (t.place l).2.load (t.place l).1 = _
      rw [t.place_fst]
    refine ⟨⟨0⟩, fun l => ?_, fun b l hb => ?_⟩
    · rw [laid]
      exact Layout.le_trans (placed.grows l) (Layout.le_load _ t)
    · have first := placed.filled b l hb
      rw [laid]
      cases run : t.intern b with
      | error e =>
        rw [run] at first
        rw [internOperand, stateBind_of_error run]
        exact first.of_error (Layout.le_load _ t)
      | ok p =>
        obtain ⟨k, b'⟩ := p
        rw [run] at first
        rw [internOperand, stateBind_of_ok run]
        cases first with
        | ok hb' =>
          obtain ⟨mem, position⟩ := hb'.position k t (t.intern_sound hb.sound run).2.2
          by_cases small : k < 256
          · simp only [small, if_true]
            refine .ok ⟨hb'.sound, hb'.slotCount, hb'.placed, hb'.position, fun s hs => ?_⟩
            rcases List.mem_append.mp hs with hs | hs
            · exact hb'.loads s hs
            · cases List.mem_singleton.mp hs
              exact ⟨mem, position ▸ UInt16.lt_iff_toNat_lt.mp small⟩
          · simp only [small, if_false]
            refine .load (t := t) (List.mem_append_right _ (List.mem_singleton_self t)) ?_
            show 256 ≤ (t.place l).2.position t
            rw [← position]
            exact Nat.le_of_not_lt fun h => small (UInt16.lt_iff_toNat_lt.mpr h)

/-- Adding the operand of an instruction fills what placing it takes. -/
theorem mapRef_internOperand_fills (i : InstructionOf ConstantTree) :
    Fills (i.mapRef internOperand) (i.mapRef placeOperand) := by
  obtain ⟨opcode, constant, operands⟩ := i
  match constant with
  | none => exact .pure _ _
  | some (width, t) => exact (internOperand_fills width t).bind fun _ _ => .pure _ _

/-- Adding what code refers to fills what placing it takes. -/
theorem internCode_fills (v : CodeView) : Fills (internCode v) (v.mapM (·.mapRef placeOperand)) := by
  have walk : Fills (v.mapM (·.mapRef internOperand)) (v.mapM (·.mapRef placeOperand)) :=
    filling.mapM_forall₂ (r := fun _ _ => True) v fun i _ => mapRef_internOperand_fills i
  rw [← bind_pure (v.mapM (·.mapRef placeOperand))]
  exact walk.bind fun _ _ => .pure _ _

/-- Adding a reference that may be missing fills what placing it takes. -/
theorem internReference_fills {k : Option ConstantTree → Interning PoolIndex}
    (some_eq : ∀ t, k (some t) = t.intern) (none_fills : Fills (k none) (placeReference none))
    (t : Option ConstantTree) : Fills (k t) (placeReference t) := by
  cases t with
  | none => exact none_fills
  | some t =>
    rw [some_eq, ← bind_pure t.intern]
    exact t.intern_fills.bind fun _ _ => .pure _ _

/-- Adding any reference of a class fills what placing it takes. -/
theorem internMap_fills : RefMap.Related filling internMap placeMap
    ⟨fun _ => (pure () : Id Unit), fun _ => pure (), fun _ => pure ()⟩
    ⟨fun _ => pure (), fun _ => pure (), fun _ => pure ()⟩ where
  required := internReference_fills (fun _ => rfl)
    ⟨⟨0⟩, Layout.le_refl, fun _ _ _ => .missing⟩
  optional := internReference_fills (fun _ => rfl) (.pure _ _)
  code := internCode_fills

/-- Adding what a method loads with one byte fills what placing it takes. -/
theorem internNarrow_fills (method : MemberOf (Option ConstantTree) CodeView) :
    Fills (internNarrow method) (placeNarrow method) := by
  have load (t : ConstantTree) : Fills (discard t.intern) (discard t.place) :=
    t.intern_fills.bind fun _ _ => .pure _ _
  refine filling.forM (fun a => ?_) method.attributes
  cases a.body with
  | code c => exact filling.forM load c.code.narrow
  | _ => exact .pure _ _

/-- **Numbering a view fills what placing it takes.** -/
theorem ClassView.numbered_fills (v : ClassView) : Fills v.numbered v.placing :=
  Fills.bind (filling.forM internNarrow_fills v.methods) fun _ _ =>
    ClassOf.mapRefs_related internMap_fills v

/-! ## What fits -/

/-- What a builder holds fits. -/
theorem PoolBuilder.Holds.fits {b : PoolBuilder} {l : Layout} (h : b.Holds l) : l.Fits where
  room := h.slotCount ▸ h.sound.slotCount_lt
  loads t mem := (h.loads t mem).2

/-- **A view is written exactly when its layout fits**, and otherwise for the reason that it does
not. -/
theorem ClassView.rebuilt_outcome {c : ClassFile} {v : ClassView} (h : c.view = .ok v) :
    ((∃ b : PoolBuilder, b.Holds v.layout) ∧ ∃ d, v.rebuilt = .ok d) ∨
      (UInt16.size ≤ v.layout.slotCount ∧ v.rebuilt = .error (.overflow .poolSlots)) ∨
      ((∃ t ∈ v.layout.narrow, 256 ≤ v.layout.position t) ∧
        v.rebuilt = .error (.overflow .renumberedLoadOperand)) := by
  have outcome := v.numbered_fills.filled .empty .empty PoolBuilder.holds_empty
  have resolves := (ClassFile.numbered_restores h PoolBuilder.sound_empty).none .empty
    PoolBuilder.sound_empty
  change v.layout.Filled _ at outcome
  rw [rebuilt]
  generalize v.numbered .empty = run at outcome resolves
  cases outcome with
  | ok held => exact .inl ⟨⟨_, held⟩, _, rfl⟩
  | slots few => exact .inr (.inl ⟨few, rfl⟩)
  | load mem far => exact .inr (.inr ⟨⟨_, mem, far⟩, rfl⟩)
  | missing =>
    obtain ⟨_, failed⟩ := resolves rfl
    cases failed

end ProcessorBench
