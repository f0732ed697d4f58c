import ProcessorBench.Proofs.Numbering

/-!
# Renumbering is numbering the view

`ClassFile.renumbered` walks over a class with its old pool at hand and remembers which old indices
it has met. `ClassView.numbered` knows neither. Side by side the two keep in step: what is
remembered under an old index is where its tree stands, so finding it and interning the tree again
come to the same.

Here the two are compared reference by reference: `required_follows` for a constant, `code_follows`
for a code array, `refMap_follows` for all steps of a walk over a class.
-/

namespace ProcessorBench

/-! ## In step -/

/-- What is remembered agrees with the old pool and with the new one. -/
structure Renumbering.Consistent (old : ConstantPool) (s : Renumbering) : Prop where
  sound : s.target.Sound
  seen : ∀ i k, s.seen[i]? = some k → ∃ t, old.tree i = .ok t ∧ s.target.pool.tree k = .ok t

/-- The outcome of a step of renumbering beside that of a step of interning. -/
inductive Renumbering.Outcome (old : ConstantPool) {α α' : Type} (r : α → α' → Prop) :
    Except ClassError (α × Renumbering) → Except (Option Limit) (α' × PoolBuilder) → Prop
  | ok {a : α} {a' : α'} {s : Renumbering} : s.Consistent old → r a a' →
    Outcome old r (.ok (a, s)) (.ok (a', s.target))
  | limit (l : Limit) : Outcome old r (.error (.overflow l)) (.error (some l))
  | missing (e : ClassError) : Outcome old r (.error e) (.error none)

/-- A step of renumbering keeps in step with a step of interning. -/
def Renumbering.Follows (old : ConstantPool) {α α' : Type} (r : α → α' → Prop) (x : Renumber α)
    (y : Interning α') : Prop :=
  ∀ s : Renumbering, s.Consistent old → Outcome old r (x s) (y s.target)

namespace Renumbering

/-- What comes out may be told by anything that follows from it. -/
theorem Outcome.mono {old : ConstantPool} {α α' : Type} {r q : α → α' → Prop}
    (imp : ∀ a a', r a a' → q a a') {x : Except ClassError (α × Renumbering)}
    {y : Except (Option Limit) (α' × PoolBuilder)} (h : Outcome old r x y) : Outcome old q x y := by
  cases h with
  | ok hs related => exact .ok hs (imp _ _ related)
  | limit l => exact .limit l
  | missing e => exact .missing e

/-- Steps that follow others can be put together. -/
theorem Follows.bind {old : ConstantPool} {α α' β β' : Type} {r : α → α' → Prop} {q : β → β' → Prop}
    {x : Renumber α} {y : Interning α'} {k : α → Renumber β} {k' : α' → Interning β'}
    (hx : Follows old r x y) (hk : ∀ a a', r a a' → Follows old q (k a) (k' a')) :
    Follows old q (x >>= k) (y >>= k') := by
  intro s hs
  have first := hx s hs
  generalize hxs : x s = xs at first
  generalize hys : y s.target = ys at first
  cases first with
  | ok hs' related =>
    rw [stateBind_of_ok hxs, stateBind_of_ok hys]
    exact hk _ _ related _ hs'
  | limit l =>
    rw [stateBind_of_error hxs, stateBind_of_error hys]
    exact .limit l
  | missing e =>
    rw [stateBind_of_error hxs, stateBind_of_error hys]
    exact .missing e

/-- Whatever keeps in step does so as a whole. -/
def following (old : ConstantPool) : Simulation Renumber Interning where
  rel := Follows old
  pure h _ hs := .ok hs h
  bind hx hk := hx.bind fun a a' related s hs => (hk a a' s hs).mono fun _ _ h => h related

variable {old : ConstantPool}

/-- What needs no pool follows what is resolved. -/
theorem follows_of_except {α : Type} (z : Except ClassError α) :
    Follows old (fun a a' => a = a') (liftM z) (resolve z) := by
  cases z with
  | error e => exact fun s _ => .missing e
  | ok a => exact fun s hs => .ok hs rfl

/-- What follows reading something step by step follows reading it first and going on with it. -/
theorem Follows.resolve {α α' ω : Type} {r : α → α' → Prop} {x : Renumber α} {y : Interning α'}
    {z : Except ClassError ω} {k : ω → Interning α'} (h : Follows old r x y)
    (same : ∀ w, z = .ok w → y = k w)
    (reads : ∀ b p, b.Sound → y b = .ok p → ∃ w, z = .ok w) : Follows old r x (resolve z >>= k) := by
  cases z with
  | ok w =>
    have := same w rfl
    subst this
    exact h
  | error e =>
    intro s hs
    have stuck := h s hs
    generalize x s = xs at stuck
    generalize hys : y s.target = ys at stuck
    show Outcome old r xs (.error none)
    cases stuck with
    | ok _ _ =>
      obtain ⟨w, hw⟩ := reads _ _ hs.sound hys
      cases hw
    | limit l => exact .missing _
    | missing e => exact .missing e

/-! ## One reference -/

/-- A pool that grows stays consistent with what has been seen. -/
theorem Consistent.of_grown {s : Renumbering} (hs : s.Consistent old) {b : PoolBuilder} (hb : b.Sound)
    (grown : s.target.pool ≤ b.pool) : Consistent old { s with target := b } where
  sound := hb
  seen i k found := by
    obtain ⟨t, ht, there⟩ := hs.seen i k found
    exact ⟨t, ht, ConstantPool.tree_of_le hs.sound.acyclic hb.acyclic grown there⟩

/-- An index may be remembered once it leads to the same tree. -/
theorem Consistent.remember {s : Renumbering} (hs : s.Consistent old) {i k : PoolIndex}
    {t : ConstantTree} (ht : old.tree i = .ok t) (there : s.target.pool.tree k = .ok t) :
    Consistent old { s with seen := s.seen.insert i k } where
  sound := hs.sound
  seen j l found := by
    rw [Std.HashMap.getElem?_insert] at found
    split at found
    · next same =>
      cases found
      rw [← LawfulBEq.eq_of_beq same]
      exact ⟨t, ht, there⟩
    · exact hs.seen j l found

/-- Adding a constant leaves what has been seen. -/
theorem intern_eq (c : Constant) (b : PoolBuilder) (seen : Std.HashMap PoolIndex PoolIndex) :
    intern c ⟨b, seen⟩ =
      match PoolBuilder.add c b with
      | .ok (k, b') => .ok (k, ⟨b', seen⟩)
      | .error _ => .error (.overflow .poolSlots) := by
  have read : (get : PoolStep PoolBuilder) b = .ok b b := rfl
  unfold intern PoolBuilder.intern PoolBuilder.add
  simp only [bind, EStateM.bind, read]
  cases b.index[c]? with
  | some i => rfl
  | none =>
    by_cases room : b.slotCount + c.slots < UInt16.size
    · simp only [room, if_true]
      rfl
    · simp only [room, if_false]
      rfl

/-- Adding a constant over moved references, and remembering where. -/
theorem intern_outcome {s : Renumbering} (hs : s.Consistent old) {i : PoolIndex}
    {c : ConstantOf ConstantTree} {d : Constant} (ht : old.tree i = .ok ⟨c⟩)
    (trees : d.mapRefs s.target.pool.tree = .ok c) :
    Outcome old (fun k k' => k = k')
      ((do
        let moved ← intern d
        modify fun r => { r with seen := r.seen.insert i moved }
        return moved : Renumber PoolIndex) s) (PoolBuilder.add d s.target) := by
  obtain ⟨b, seen⟩ := s
  have moved := intern_eq d b seen
  cases run : PoolBuilder.add d b with
  | error o =>
    cases PoolBuilder.eq_of_add_error run
    rw [run] at moved
    rw [stateBind_of_error moved]
    exact .limit _
  | ok p =>
    obtain ⟨k, b'⟩ := p
    rw [run] at moved
    rw [stateBind_of_ok moved]
    obtain ⟨hb', grown, there⟩ := PoolBuilder.add_tree hs.sound trees run
    exact .ok ((hs.of_grown hb' grown).remember ht there) rfl

/-- What the trees that an old constant refers to are interned as leads to them. -/
theorem interned_refs_restore (old : ConstantPool) {F : ConstantPool} (hF : F.Acyclic) (c : Constant) :
    Restores F (fun d d' => d.mapRefs F.tree = .ok d')
      (c.mapRefs fun j => resolve (old.tree j) >>= ConstantTree.intern) (c.mapRefs old.tree) := by
  have walk : (restoring F).rel (fun d d' => d.mapRefs F.tree = d'.mapRefs pure)
      (c.mapRefs fun j => resolve (old.tree j) >>= ConstantTree.intern) (c.mapRefs old.tree) :=
    c.mapRefs_related fun j _ => Restores.resolve fun t _ => t.intern_restores hF
  simp only [ConstantOf.mapRefs_pure] at walk
  exact walk

/-- Interning a tree is interning those it refers to and adding a constant over them. -/
theorem intern_tree_eq (h : old.Acyclic) {i : PoolIndex} {c : Constant} {d : ConstantOf ConstantTree}
    (hc : old.get i = .ok c) (hd : c.mapRefs old.tree = .ok d) :
    (resolve (old.tree i) >>= ConstantTree.intern) =
      c.mapRefs (fun j => resolve (old.tree j) >>= ConstantTree.intern) >>= PoolBuilder.add := by
  rw [h.tree_eq, hc, ok_bind, hd, ← ConstantOf.mapRefs_bind resolve (fun _ => rfl) hd]
  exact ConstantTree.intern_mk d

/-- An old constant that is met for the first time is moved as its tree is interned, if what it
refers to is. -/
theorem move_follows (h : old.Acyclic) {i : PoolIndex} {c : Constant} (hc : old.get i = .ok c)
    (walk : Follows old (fun d d' => d = d') (c.mapRefs (required old))
      (c.mapRefs fun j => resolve (old.tree j) >>= ConstantTree.intern)) :
    Follows old (fun k k' => k = k')
      (do
        let moved ← intern (← c.mapRefs (required old))
        modify fun r => { r with seen := r.seen.insert i moved }
        return moved) (resolve (old.tree i) >>= ConstantTree.intern) := by
  intro s hs
  have first := walk s hs
  generalize hxs : c.mapRefs (required old) s = xs at first
  generalize hys :
    c.mapRefs (fun j => resolve (old.tree j) >>= ConstantTree.intern) s.target = ys at first
  cases first with
  | @ok d d' s₁ hs₁ same =>
    subst same
    obtain ⟨_, _, c', hc', trees⟩ :=
      (interned_refs_restore old hs₁.sound.acyclic c).ok _ _ _ hs.sound hys
    have ht : old.tree i = .ok ⟨c'⟩ := h.tree_eq_ok.mpr ⟨c, hc, hc'⟩
    rw [stateBind_of_ok hxs, intern_tree_eq h hc hc', stateBind_of_ok hys]
    exact intern_outcome hs₁ ht (trees (ConstantPool.le_refl _))
  | limit l =>
    rw [stateBind_of_error hxs]
    cases hd : c.mapRefs old.tree with
    | ok d =>
      rw [intern_tree_eq h hc hd, stateBind_of_error hys]
      exact .limit l
    | error e =>
      rw [h.tree_eq, hc, ok_bind, hd]
      exact .missing _
  -- Where the tree of a reference is missing, so is that of the constant.
  | missing e =>
    obtain ⟨e', he'⟩ := (interned_refs_restore old hs.sound.acyclic c).none _ hs.sound hys
    rw [stateBind_of_error hxs, h.tree_eq, hc, ok_bind, he']
    exact .missing e

/-- **Moving an old constant keeps in step with interning its tree.** -/
theorem required_follows (h : old.Acyclic) (i : PoolIndex) :
    Follows old (fun k k' => k = k') (required old i)
      (resolve (old.tree i) >>= ConstantTree.intern) := by
  -- By induction on what constants refer to, which is well founded in a pool without cycles.
  induction i using h.induction with
  | step i ih =>
    rw [required_eq h]
    intro s hs
    rw [stateGet_bind]
    cases found : s.seen[i]? with
    | some k =>
      obtain ⟨t, ht, there⟩ := hs.seen i k found
      rw [ht]
      show Outcome old _ (.ok (k, s)) (t.intern s.target)
      rw [ConstantTree.intern_of_tree hs.sound there]
      exact .ok hs rfl
    | none =>
      cases hc : old.get i with
      | error e =>
        rw [h.tree_eq, hc]
        exact .missing e
      | ok c =>
        simp only [liftM_ok, pure_bind]
        have walk := ConstantOf.mapRefs_same (following old) fun j mem => ih c hc j mem
        exact move_follows h hc walk s hs

/-! ## A class -/

/-- A reference follows its view. -/
theorem requiredView_follows (h : old.Acyclic) {k : Option ConstantTree → Interning PoolIndex}
    (hk : ∀ t, k (some t) = t.intern) (i : PoolIndex) :
    Follows old (fun k k' => k = k') (required old i) (resolve (old.requiredView i) >>= k) := by
  have same : resolve (old.requiredView i) >>= k = resolve (old.tree i) >>= ConstantTree.intern := by
    unfold ConstantPool.requiredView
    cases old.tree i with
    | error e => rfl
    | ok t => exact hk t
  rw [same]
  exact required_follows h i

/-- The operand of an instruction follows its tree. -/
theorem operand_follows (h : old.Acyclic) (width : OperandWidth) (i : PoolIndex) :
    Follows old (fun k k' => k = k') (operand old width i)
      (resolve (old.tree i) >>= internOperand width) := by
  cases width with
  | wide => exact required_follows h i
  | narrow =>
    have checked : ∀ k k' : PoolIndex, k = k' → Follows old (fun l l' => l = l')
        (do unless k < 256 do throw (.overflow .renumberedLoadOperand)
            return k)
        (do unless k' < 256 do throw (some .renumberedLoadOperand)
            return k') := by
      rintro k _ rfl s hs
      by_cases small : k < 256
      · simp only [small, if_true]
        exact .ok hs rfl
      · simp only [small, if_false]
        exact .limit _
    have walk := (required_follows h i).bind checked
    rwa [bind_assoc] at walk

/-- A code array is walked over with the old pool or with the trees. -/
theorem instructions_follow (h : old.Acyclic) (instructions : List Instruction) :
    Follows old (fun is is' => is = is') (instructions.mapM (·.mapRef (operand old)))
      (instructions.mapM (·.mapRef fun width i => resolve (old.tree i) >>= internOperand width)) := by
  have step : ∀ i ∈ instructions, Follows old (fun j j' => j = j') (i.mapRef (operand old))
      (i.mapRef fun width index => resolve (old.tree index) >>= internOperand width) := by
    rintro ⟨opcode, constant, operands⟩ -
    match constant with
    | none => exact (following old).pure rfl
    | some (width, index) =>
      exact (following old).bind (operand_follows h width index) fun _ _ =>
        (following old).pure fun same => by rw [same]
  refine (following old).mono ((following old).mapM_forall₂ instructions step) fun is is' all => ?_
  rwa [List.forall₂_eq_eq_eq] at all

theorem mapRef_operand_restores {f : PoolBuilder} (hf : f.Sound) (old : ConstantPool)
    (i : Instruction) : Restores f.pool (fun _ _ => True)
      (i.mapRef fun width index => resolve (old.tree index) >>= internOperand width)
      (i.mapRef fun _ index => old.tree index) := by
  obtain ⟨opcode, constant, operands⟩ := i
  match constant with
  | none => exact (restoring f.pool).pure trivial
  | some (width, index) =>
    exact (restoring f.pool).bind (Restores.resolve fun t _ => internOperand_restores hf width t)
      fun _ _ => (restoring f.pool).pure fun _ => trivial

theorem code_follows (h : old.Acyclic) (bytes : Bytes) :
    Follows old (fun k k' => k = k') (code old bytes)
      (resolve (old.codeView bytes) >>= internCode) := by
  have walk : Follows old (fun k k' => k = k') (code old bytes) (do
      let instructions ← resolve (Bytecode.decode bytes)
      let is ← instructions.mapM (·.mapRef fun width i => resolve (old.tree i) >>= internOperand width)
      return Bytecode.encode is) :=
    (follows_of_except (Bytecode.decode bytes)).bind fun is _ same => by
      subst same
      exact (instructions_follow h is).bind fun js _ same => by
        subst same
        exact (following old).pure rfl
  refine walk.resolve ?_ ?_
  · intro v hv
    obtain ⟨instructions, decoded, views⟩ := bind_eq_ok.mp hv
    have fused := mapM_mapRef_bind resolve (fun _ => rfl) (g := internOperand) views
    rw [decoded, internCode, fused]
    rfl
  · intro b p hb run
    cases decoded : Bytecode.decode bytes with
    | error e =>
      rw [decoded] at run
      cases run
    | ok instructions =>
      rw [decoded] at run
      obtain ⟨_, _, same, run⟩ := stateBind_eq_ok.mp run
      cases same
      obtain ⟨is, b₁, run, _⟩ := stateBind_eq_ok.mp run
      have reads := (restoring b.pool).mapM_forall₂ (r := fun _ _ => True) instructions
        fun i _ => mapRef_operand_restores hb old i
      obtain ⟨_, _, v, hv, _⟩ := reads.ok b is b₁ hb run
      exact ⟨v, by rw [ConstantPool.codeView, decoded, ok_bind, hv]⟩

/-- The old pool and the trees give related steps. -/
theorem refMap_follows (h : old.Acyclic) :
    RefMap.Related (following old) (refMap old) (old.viewMap.andThen resolve internMap)
      (RefMap.id Id PoolIndex Bytes) (RefMap.id Id PoolIndex Bytes) where
  required i := (following old).mono (requiredView_follows h (fun _ => rfl) i) fun _ _ => congrArg pure
  optional i := by
    refine (following old).mono (r := fun k k' => k = k') ?_ fun _ _ => congrArg pure
    change Follows old _ (optional old i) (resolve (old.optionalView i) >>= internOptional)
    unfold optional ConstantPool.optionalView
    split
    · exact (following old).pure rfl
    · exact requiredView_follows h (fun _ => rfl) i
  code b := (following old).mono (code_follows h b) fun _ _ => congrArg pure

end Renumbering

end ProcessorBench
