import ProcessorBench.Proofs.Bytecode
import ProcessorBench.Proofs.NormalForm
import ProcessorBench.Proofs.Occurrences

/-!
# The order of a rebuilt pool

A rebuilt pool has each constant once, in the place where it is first used. `ConstantTree.uses` lists
what using a constant completes, first what it refers to and the constant itself last, and
`ClassFile.firstUses` is that for a whole class, without the repetitions. `Placing.Lays` compares the
layout of a view with such a list, step by step, and a pool that holds a layout has its slots
numbered by it.
-/

namespace ProcessorBench

/-! ## What a constant uses -/

/-- A tree, with what using it completes on the way, each constant behind what it refers to. -/
def ConstantTree.listed : ConstantTree → Listed ConstantTree ConstantTree := fold fun c => ⟨⟨c⟩, [⟨c⟩]⟩

/-- What using a constant completes, first what it refers to and the constant itself last. -/
def ConstantTree.uses (t : ConstantTree) : List ConstantTree := t.listed.items

/-- What a computation that lists something gives. -/
def valuing (ρ : Type) : Simulation (Listed ρ) Id where
  rel r x a' := r x.value a'
  pure h := h
  bind hx hk := hk _ _ hx

section
variable {ι κ ρ : Type}

/-- What a constant lists is what its references list, in their order. -/
theorem ConstantOf.items_mapRefs (f : ι → Listed ρ κ) (c : ConstantOf ι) :
    (c.mapRefs f).items = c.refs.flatMap fun i => (f i).items := by
  cases c <;> simp [mapRefs, refs]

/-- Listing references leaves the constant as it is. -/
theorem ConstantOf.value_mapRefs {f : ι → Listed ρ ι} {c : ConstantOf ι}
    (h : ∀ i ∈ c.refs, (f i).value = i) : (c.mapRefs f).value = c := by
  have walk : (valuing ρ).rel (fun d d' => d = d') (c.mapRefs f) (c.mapRefs (pure : ι → Id ι)) :=
    mapRefs_same _ h
  rwa [mapRefs_pure] at walk

end

namespace ConstantTree

/-- Listing the uses of a tree leaves the tree as it is. -/
theorem value_listed (t : ConstantTree) : t.listed.value = t := by
  induction t using ConstantTree.induction with
  | step c ih =>
    rw [listed, fold_mk]
    exact congrArg ConstantTree.mk (ConstantOf.value_mapRefs ih)

/-- A tree uses what it refers to before itself. -/
theorem uses_mk (c : ConstantOf ConstantTree) : uses ⟨c⟩ = c.refs.flatMap uses ++ [⟨c⟩] := by
  have same : (c.mapRefs listed).value = c := ConstantOf.value_mapRefs fun t _ => t.value_listed
  rw [uses, listed, fold_mk, Listed.items_bind, ConstantOf.items_mapRefs]
  exact congrArg (fun d => _ ++ [ConstantTree.mk d]) same

end ConstantTree

namespace ConstantPool

/-- An index leads to another through the constants between them. -/
def LeadsTo (pool : ConstantPool) : PoolIndex → PoolIndex → Prop := Relation.ReflTransGen pool.Refers

/-- What using an index completes. -/
def uses (pool : ConstantPool) (i : PoolIndex) : List ConstantTree :=
  match pool.tree i with
  | .ok t => t.uses
  | .error _ => []

variable {pool : ConstantPool}

/-- **A use completes what the index leads to.** -/
theorem mem_uses_iff (acyclic : pool.Acyclic) {i : PoolIndex} {s t : ConstantTree}
    (ht : pool.tree i = .ok t) : s ∈ t.uses ↔ ∃ j, pool.LeadsTo i j ∧ pool.tree j = .ok s := by
  induction i using acyclic.induction generalizing t with
  | step i ih =>
    obtain ⟨c, hc, trees⟩ := acyclic.tree_eq_ok.mp ht
    obtain ⟨d⟩ := t
    rw [ConstantTree.uses_mk, List.mem_append, List.mem_flatMap, List.mem_singleton]
    constructor
    · rintro (⟨u, mem, used⟩ | rfl)
      · obtain ⟨k, hk, there⟩ := ConstantOf.exists_of_mem_mapRefs trees mem
        obtain ⟨j, leads, hj⟩ := (ih c hc k hk there).mp used
        exact ⟨j, .head ⟨c, hc, hk⟩ leads, hj⟩
      · exact ⟨i, .refl, ht⟩
    · rintro ⟨j, leads, hj⟩
      rcases leads.cases_head with rfl | ⟨k, ⟨c', hc', hk⟩, leads⟩
      · rw [ht] at hj
        exact .inr (Except.ok.inj hj).symm
      · cases hc.symm.trans hc'
        obtain ⟨u, mem, there⟩ := ConstantOf.exists_of_mapRefs trees hk
        exact .inl ⟨u, mem, (ih c hc k hk there).mpr ⟨j, leads, hj⟩⟩

end ConstantPool

/-! ## What a layout places -/

section
variable {α : Type} [DecidableEq α]

/-- Put something at the end, unless it is there already. -/
def insertLast (us : List α) (t : α) : List α := if t ∈ us then us else us ++ [t]

/-- Putting one after the other at the end leaves each once, where it came first. -/
theorem foldl_insertLast (ts : List α) : ts.foldl insertLast [] = ts.eraseDups := by
  induction ts using List.reverseRecOn with
  | nil => rfl
  | append_singleton ts t ih =>
    rw [List.foldl_append, ih, List.eraseDups_append]
    by_cases old : t ∈ ts
    · simp [insertLast, old, List.removeAll]
    · simp [insertLast, old, List.removeAll, List.eraseDups_cons]

end

/-- A computation lays out some constants, one after the other. -/
def Placing.Lays {α : Type} (y : Placing α) (ts : List ConstantTree) : Prop :=
  ∀ l, (y l).2.placed = ts.foldl insertLast l.placed

namespace Placing.Lays

variable {α β : Type} {y : Placing α} {ts us : List ConstantTree}

theorem pure (a : α) : Placing.Lays (Pure.pure a) [] := fun _ => rfl

/-- What is laid by two steps is laid one after the other. -/
theorem bind {k : α → Placing β} (h : y.Lays ts) (h' : ∀ a, (k a).Lays us) :
    (y >>= k).Lays (ts ++ us) := by
  intro l
  show (k (y l).1 (y l).2).2.placed = _
  rw [h' _ _, h l, List.foldl_append]

/-- Making something of a result lays nothing more. -/
theorem map {f : α → β} (h : y.Lays ts) : (y >>= fun a => Pure.pure (f a)).Lays ts := by
  have whole := h.bind fun a => pure (f a)
  rwa [List.append_nil] at whole

/-- What is laid for each of some things is laid for all of them in a row. -/
theorem forM {f : α → Placing Unit} {g : α → List ConstantTree} (h : ∀ a, (f a).Lays (g a))
    (as : List α) : (as.forM f).Lays (as.flatMap g) := by
  induction as with
  | nil => exact pure ()
  | cons a as ih => exact (h a).bind fun _ => ih

/-- What is laid for each of some things is laid in a row, also where results are kept. -/
theorem mapM {f : α → Placing β} {g : α → List ConstantTree} (h : ∀ a, (f a).Lays (g a))
    (as : List α) : (as.mapM f).Lays (as.flatMap g) := by
  induction as with
  | nil => exact pure []
  | cons a as ih =>
    rw [List.mapM_cons]
    exact (h a).bind fun _ => ih.map

end Placing.Lays

/-- Computations that lay out what others list. -/
def laying : Simulation Placing (Listed ConstantTree) where
  rel _ y x := y.Lays x.items
  pure _ := .pure _
  bind {_ _ _ _ _ _ _ x' _ _} hx hk := hx.bind fun a => hk a x'.value

/-- A constant is laid out with what using it completes. -/
theorem ConstantTree.place_lays (t : ConstantTree) : t.place.Lays t.uses := by
  induction t using ConstantTree.induction with
  | step c ih =>
    intro l
    have refs : (c.mapRefs place).Lays (c.refs.flatMap uses) := by
      have walk : laying.rel (fun d d' => d.mapRefs (fun _ => (pure () : Id Unit)) =
          d'.mapRefs fun _ => pure ()) (c.mapRefs place)
            (c.mapRefs fun t => (⟨(), t.uses⟩ : Listed ConstantTree Unit)) := c.mapRefs_related ih
      intro l
      rw [walk l, ConstantOf.items_mapRefs]
    rw [place_mk, uses_mk, List.foldl_append, ← refs l]
    show ((c.mapRefs place l).2.add ⟨(c.mapRefs place l).1⟩).placed = _
    rw [mapRefs_place_fst fun t _ => t.place_fst]
    rfl

/-- A reference lays what it uses. -/
theorem placeReference_lays (t : Option ConstantTree) :
    (placeReference t).Lays (t.toList.flatMap ConstantTree.uses) := by
  cases t with
  | none => exact .pure none
  | some t =>
    rw [Option.toList_some, List.flatMap_singleton]
    exact t.place_lays.map

/-- The operand of an instruction lays what it uses. -/
theorem placeOperand_lays (width : OperandWidth) (t : ConstantTree) :
    (placeOperand width t).Lays t.uses := by
  cases width with
  | wide => exact t.place_lays
  | narrow =>
    have noted (t : ConstantTree) : Placing.Lays (modify fun l => l.load t) [] := fun _ => rfl
    have whole : (placeOperand .narrow t).Lays (t.uses ++ []) :=
      t.place_lays.bind fun t => (noted t).map
    rwa [List.append_nil] at whole

/-- Code lays what its operands use, in their order. -/
theorem placeCode_lays (v : CodeView) :
    (placeMap.code v).Lays ((Bytecode.refs v).flatMap ConstantTree.uses) := by
  have step (i : InstructionOf ConstantTree) :
      (i.mapRef placeOperand).Lays ((i.constant.map (·.2)).toList.flatMap ConstantTree.uses) := by
    obtain ⟨opcode, constant, operands⟩ := i
    match constant with
    | none => exact .pure _
    | some (width, t) =>
      simp only [Option.map_some, Option.toList_some, List.flatMap_singleton]
      exact (placeOperand_lays width t).map
  have walk := Placing.Lays.mapM step v
  rwa [← List.flatMap_assoc, ← List.filterMap_eq_flatMap_toList] at walk

namespace ClassView

variable {v : ClassView}

/-- A class is laid out with what its occurrences use. -/
theorem mapRefs_placeMap_lays (v : ClassView) :
    (v.mapRefs placeMap).Lays ((v.occurrences.flatMap Occurrence.trees).flatMap ConstantTree.uses) := by
  have walk : laying.rel (fun _ _ => True) (v.mapRefs placeMap)
      (v.mapRefs (listing fun o => o.trees.flatMap ConstantTree.uses)) :=
    ClassOf.mapRefs_side _ placeReference_lays placeReference_lays placeCode_lays v
  rw [List.flatMap_assoc, ← ClassOf.items_listing]
  exact walk

/-- What methods load with one byte is laid first. -/
theorem placeNarrow_lays (v : ClassView) :
    (v.methods.forM placeNarrow).Lays ((v.methodLoads CodeView.narrow).flatMap ConstantTree.uses) := by
  rw [ClassOf.methodLoads, List.flatMap_assoc]
  refine .forM (fun m => ?_) v.methods
  rw [List.flatMap_assoc]
  refine .forM (fun a => ?_) m.attributes
  cases a.body with
  | code x => exact .forM (fun t => t.place_lays.map) x.code.narrow
  | _ => exact .pure ()

/-- **A view is laid out in the order of first uses**: first what methods load with one byte, then
everything in the order of the walk. -/
theorem placed_layout (v : ClassView) :
    v.layout.placed = ((v.methodLoads CodeView.narrow ++ v.occurrences.flatMap Occurrence.trees).flatMap
      ConstantTree.uses).eraseDups := by
  have whole : v.placing.Lays _ := v.placeNarrow_lays.bind fun _ => v.mapRefs_placeMap_lays
  rw [List.flatMap_append, ← foldl_insertLast]
  exact whole .empty

end ClassView

/-! ## The pool of a rebuilt class -/

namespace ClassFile

/-- The constants of a class in the order in which their uses are completed, each once: first the
uses of what methods load with one byte, then those of all references in the order of the walk. -/
def firstUses (c : ClassFile) : List ConstantTree :=
  ((c.methodLoads Bytecode.loads ++ c.references).flatMap c.pool.uses).eraseDups

/-- The constants that some indices lead to are those of a pool below slot `n`. -/
def Leading (pool : ConstantPool) (is : List PoolIndex) (n : Nat) : Prop :=
  ∀ i c, pool.get i = .ok c → (i.toNat < n ↔ ∃ j ∈ is, pool.LeadsTo j i)

/-- A class with a pool that has each constant in the place where it is first used. -/
structure Canonical (d : ClassFile) : Prop where
  /-- No two slots hold equal constants. -/
  distinct : ∀ i j c, d.pool.get i = .ok c → d.pool.get j = .ok c → i = j
  /-- A constant stands behind what it refers to. -/
  earlier : ∀ i c, d.pool.get i = .ok c → ∀ j ∈ c.refs, j < i
  /-- Every constant is there for a reference of the class. -/
  used : ∀ i c, d.pool.get i = .ok c → ∃ j ∈ d.references, d.pool.LeadsTo j i
  /-- The slot of a constant is the one behind those of the constants that are used before it. -/
  ordered : ∀ i c, d.pool.get i = .ok c → ∃ t ∈ d.firstUses, d.pool.tree i = .ok t ∧
    i.toNat = 1 + Layout.slots (d.firstUses.takeWhile (· ≠ t))
  /-- What the code of methods loads with one byte comes first. -/
  methodLoads : ∃ n, Leading d.pool (d.methodLoads Bytecode.loads) n

variable {bytes : Bytes} {c d : ClassFile} {v : ClassView}

/-- The pool of a rebuilt class holds what has been laid out. -/
theorem holds_of_renumbered (acyclic : c.pool.Acyclic) (run : c.renumbered = .ok d) :
    ∃ v, c.view = .ok v ∧ d.view = .ok v ∧ ∃ b : PoolBuilder, b.Holds v.layout ∧ d.pool = b.pool := by
  obtain ⟨v, hv, after, _⟩ := view_of_renumbered acyclic run
  refine ⟨v, hv, after, ?_⟩
  rw [renumbered_eq acyclic hv, ClassView.rebuilt] at run
  have filled := v.numbered_fills.filled .empty .empty PoolBuilder.holds_empty
  change v.layout.Filled _ at filled
  generalize v.numbered .empty = outcome at run filled
  cases filled with
  | ok held =>
    cases run
    exact ⟨_, held, rfl⟩
  | slots | load | missing => cases run

/-- What is used by indices is used by the trees that they lead to. -/
theorem flatMap_uses {pool : ConstantPool} {is : List PoolIndex} {ts : List ConstantTree}
    (h : List.Forall₂ (fun i t => pool.tree i = .ok t) is ts) :
    is.flatMap pool.uses = ts.flatMap ConstantTree.uses := by
  induction h with
  | nil => rfl
  | cons head _ ih => rw [List.flatMap_cons, List.flatMap_cons, ih, ConstantPool.uses, head]

/-- The layout of a view is the order of first uses in a class that has it. -/
theorem placed_eq_firstUses (h : d.view = .ok v) : v.layout.placed = d.firstUses := by
  rw [ClassView.placed_layout, firstUses, List.flatMap_append, List.flatMap_append,
    flatMap_uses (methodLoads_of_view h), flatMap_uses (references_of_view h)]

end ClassFile

/-! ## What leads where -/

/-- A constant whose references have trees has one. -/
theorem ConstantOf.exists_mapRefs {ι κ ε : Type} {f : ι → Except ε κ} {c : ConstantOf ι}
    (h : ∀ i ∈ c.refs, ∃ k, f i = .ok k) : ∃ d, c.mapRefs f = .ok d := by
  cases c with
  | utf8 _ | integer _ | float _ | long _ | double _ => exact ⟨_, rfl⟩
  | classInfo i | string i | methodType i | moduleInfo i | packageInfo i
  | methodHandle _ i | dynamic _ i | invokeDynamic _ i =>
    obtain ⟨k, hk⟩ := h i (List.mem_singleton_self i)
    exact ⟨_, bind_eq_ok.mpr ⟨k, hk, rfl⟩⟩
  | fieldRef i j | methodRef i j | interfaceMethodRef i j | nameAndType i j =>
    obtain ⟨k, hk⟩ := h i (by simp [refs])
    obtain ⟨l, hl⟩ := h j (by simp [refs])
    exact ⟨_, bind_eq_ok.mpr ⟨k, hk, bind_eq_ok.mpr ⟨l, hl, rfl⟩⟩⟩

namespace PoolBuilder.Sound

variable {b : PoolBuilder} {i j : PoolIndex} {c : Constant} {t : ConstantTree}

/-- Every constant of a pool built from below has a tree. -/
theorem exists_tree (hb : b.Sound) (h : b.pool.get i = .ok c) : ∃ t, b.pool.tree i = .ok t := by
  induction i using hb.acyclic.induction generalizing c with
  | step i ih =>
    have refs : ∀ j ∈ c.refs, ∃ t, b.pool.tree j = .ok t := by
      intro j mem
      obtain ⟨_, e, he⟩ := hb.earlier i c h j mem
      exact ih c h j mem he
    obtain ⟨d, trees⟩ := ConstantOf.exists_mapRefs refs
    exact ⟨⟨d⟩, hb.acyclic.tree_eq_ok.mpr ⟨c, h, trees⟩⟩

/-- An index that leads to a constant leads to one itself. -/
theorem exists_get_of_leadsTo (h : b.pool.get i = .ok c) (leads : b.pool.LeadsTo j i) :
    ∃ e, b.pool.get j = .ok e := by
  rcases leads.cases_head with rfl | ⟨_, ⟨e, he, _⟩, _⟩
  · exact ⟨c, h⟩
  · exact ⟨e, he⟩

/-- **A constant is used by some indices when one of them leads to it.** -/
theorem mem_uses_iff (hb : b.Sound) (there : b.pool.tree i = .ok t) (is : List PoolIndex) :
    t ∈ is.flatMap b.pool.uses ↔ ∃ j ∈ is, b.pool.LeadsTo j i := by
  rw [List.mem_flatMap]
  refine exists_congr fun j => and_congr_right fun _ => ?_
  cases found : b.pool.tree j with
  | error e =>
    rw [ConstantPool.uses, found]
    refine ⟨nofun, fun leads => ?_⟩
    obtain ⟨c, hc, _⟩ := hb.acyclic.tree_eq_ok.mp there
    obtain ⟨e', he'⟩ := exists_get_of_leadsTo hc leads
    obtain ⟨s, hs⟩ := hb.exists_tree he'
    rw [found] at hs
    cases hs
  | ok s =>
    rw [ConstantPool.uses, found]
    refine (ConstantPool.mem_uses_iff hb.acyclic found).trans ⟨?_, fun leads => ⟨i, leads, there⟩⟩
    rintro ⟨k, leads, hk⟩
    rwa [hb.tree_injective there hk]

end PoolBuilder.Sound

/-- A constant stands in front of the slots that some constants take when it is among them. -/
theorem Layout.position_lt_iff (ts us : List ConstantTree) (t : ConstantTree) :
    1 + slots ((ts ++ us).takeWhile (· ≠ t)) < 1 + slots ts ↔ t ∈ ts := by
  by_cases mem : t ∈ ts
  · rw [takeWhile_append_of_mem mem]
    exact iff_of_true (position_lt (l := ⟨ts, []⟩) mem) mem
  · rw [takeWhile_append_of_not_mem mem, slots_append]
    exact iff_of_false (by omega) mem

namespace ClassFile

variable {bytes : Bytes} {c d : ClassFile} {v : ClassView}

/-- A class whose pool holds the layout of its view is canonical. -/
theorem canonical_of_holds {b : PoolBuilder} (after : d.view = .ok v) (held : b.Holds v.layout)
    (pool : d.pool = b.pool) : d.Canonical := by
  have order := placed_eq_firstUses after
  -- Each constant stands for one of the trees in the order of first use, at the slot behind those before it.
  have listed : ∀ i c, d.pool.get i = .ok c → ∃ t ∈ d.firstUses, d.pool.tree i = .ok t ∧
      i.toNat = 1 + Layout.slots (d.firstUses.takeWhile (· ≠ t)) := by
    intro i c hc
    rw [pool] at hc ⊢
    obtain ⟨t, ht⟩ := held.sound.exists_tree hc
    obtain ⟨mem, position⟩ := held.position i t ht
    rw [Layout.position, order] at position
    exact ⟨t, order ▸ mem, ht, position⟩
  refine ⟨?_, ?_, ?_, listed, ?_⟩
  · intro i j c hi hj
    rw [pool, ← held.sound.index_iff] at hi hj
    rw [hi] at hj
    exact Option.some.inj hj
  · intro i c hc j mem
    rw [pool] at hc
    exact (held.sound.earlier i c hc j mem).1
  · intro i c hc
    obtain ⟨t, mem, ht, _⟩ := listed i c hc
    rw [firstUses, List.mem_eraseDups] at mem
    rw [pool] at mem ht ⊢
    obtain ⟨j, hj, leads⟩ := (held.sound.mem_uses_iff ht _).mp mem
    refine ⟨j, ?_, leads⟩
    rcases List.mem_append.mp hj with hj | hj
    · exact d.byteLoads_subset (ClassOf.methodLoads_subset _ _ hj)
    · exact hj
  · refine ⟨1 + Layout.slots ((d.methodLoads Bytecode.loads).flatMap d.pool.uses).eraseDups, ?_⟩
    intro i c hc
    obtain ⟨t, _, ht, position⟩ := listed i c hc
    rw [position, firstUses, List.flatMap_append, List.eraseDups_append, Layout.position_lt_iff,
      List.mem_eraseDups]
    rw [pool] at ht ⊢
    exact held.sound.mem_uses_iff ht _

/-! ## Two small files that load a number -/

/-- The type of the member `f` below. -/
def loaderType (inMethod : Bool) : Bytes := if inMethod then [40, 41, 86] else [73]

/-- A class `A` with a method or a field `f` whose code loads the number 7 with one byte. -/
def loader (inMethod : Bool) : ClassFile where
  minorVersion := 0
  majorVersion := 52
  access := ⟨0x21⟩
  thisClass := 1
  superClass := 0
  interfaces := []
  fields := if inMethod then [] else [⟨⟨0⟩, 4, 5, [⟨3, .code ⟨1, 0, [0x12, 6, 0x57, 0xb1], [], []⟩⟩]⟩]
  methods := if inMethod then [⟨⟨0⟩, 4, 5, [⟨3, .code ⟨1, 0, [0x12, 6, 0x57, 0xb1], [], []⟩⟩]⟩] else []
  attributes := []
  pool := List.foldl ConstantPool.push .empty [.classInfo 2, .utf8 [65], .utf8 [67, 111, 100, 101],
    .utf8 [102], .utf8 (loaderType inMethod), .integer 7]

/-- The member of such a class, over its constants. -/
def loaderView (inMethod : Bool) : MemberOf (Option ConstantTree) CodeView :=
  ⟨⟨0⟩, some ⟨.utf8 [102]⟩, some ⟨.utf8 (loaderType inMethod)⟩,
    [⟨some ⟨.utf8 [67, 111, 100, 101]⟩, .code ⟨1, 0,
      [⟨0x12, some (.narrow, ⟨.integer 7⟩), []⟩, ⟨0x57, none, []⟩, ⟨0xb1, none, []⟩], [], []⟩⟩]⟩

/-- What such a class says. -/
def loadingView (inMethod : Bool) : ClassView where
  minorVersion := 0
  majorVersion := 52
  access := ⟨0x21⟩
  thisClass := some ⟨.classInfo ⟨.utf8 [65]⟩⟩
  superClass := none
  interfaces := []
  fields := if inMethod then [] else [loaderView inMethod]
  methods := if inMethod then [loaderView inMethod] else []
  attributes := []

section
variable (inMethod : Bool)

/-- The class has one attribute, the code of its member. -/
theorem all_loader :
    (loader inMethod).all = [⟨3, .code ⟨1, 0, [0x12, 6, 0x57, 0xb1], [], []⟩⟩] := by
  cases inMethod <;> rfl

/-- The class can be read back from its bytes. -/
theorem parse_loader : parse (loader inMethod).bytes = .ok (loader inMethod) := by
  refine parse_of_toBytes ⟨_, rfl⟩ (fun a mem => ?_) (by cases inMethod <;> rfl)
  rw [all_loader, List.mem_singleton] at mem
  subst mem
  cases inMethod <;> exact ⟨⟨"Code", rfl, rfl⟩, trivial⟩

/-- No constant of the class leads back to itself. -/
theorem acyclic_loader : (loader inMethod).pool.Acyclic :=
  ConstantPool.acyclic_of_toList (fun i => if i = 1 then 1 else 0) (by cases inMethod <;> decide)

/-- What the class says once it has been rid of debug attributes. -/
theorem view_loader : (loader inMethod).debugFree.view = .ok (loadingView inMethod) := by
  have kept : ∀ a ∈ (loader inMethod).all, (loader inMethod).pool.isDebugName a.name = false := by
    cases inMethod <;> decide +kernel
  have decoded : Bytecode.decode [0x12, 6, 0x57, 0xb1] =
      .ok [⟨0x12, some (.narrow, 6), []⟩, ⟨0x57, none, []⟩, ⟨0xb1, none, []⟩] := by decide +kernel
  rw [debugFree_eq_self kept, ClassFile.view]
  cases inMethod <;>
  · simp only [loader, ClassOf.mapRefs, MemberOf.mapRefs, AttributeOf.mapRefsList, AttributeOf.mapRefs,
      AttributeBodyOf.mapRefs, CodeOf.mapRefs, ConstantPool.viewMap, ConstantPool.codeView, decoded,
      ok_bind, List.mapM_cons, List.mapM_nil, if_true, if_false, Bool.false_eq_true]
    rfl

/-- Such a class can be rebuilt. -/
theorem exists_stripped_loader : ∃ d, (loader inMethod).stripped = .ok d := by
  have fits : (loadingView inMethod).layout.Fits := by
    cases inMethod <;> exact ⟨by decide +kernel, by decide +kernel⟩
  exact exists_stripped (parse_loader inMethod) (acyclic_loader inMethod) (view_loader inMethod) fits

/-- The rebuilt class says the same, over a pool that is laid out as it says. -/
theorem view_stripped_loader (run : (loader inMethod).stripped = .ok d) :
    d.view = .ok (loadingView inMethod) ∧
      ∃ b : PoolBuilder, b.Holds (loadingView inMethod).layout ∧ d.pool = b.pool := by
  rw [stripped_eq (parse_loader inMethod)] at run
  obtain ⟨v, hv, after, held⟩ :=
    holds_of_renumbered (c := (loader inMethod).debugFree) (acyclic_loader inMethod) run
  cases hv.symm.trans (view_loader inMethod)
  exact ⟨after, held⟩

/-- The only index that such a class loads with one byte is that of the number. -/
theorem byteLoads_of_loadingView (h : d.view = .ok (loadingView inMethod)) :
    ∃ i, d.byteLoads = [i] ∧ d.pool.tree i = .ok ⟨.integer 7⟩ := by
  have listed : (loadingView inMethod).occurrences.flatMap (Occurrence.loads CodeView.narrow) =
      [⟨.integer 7⟩] := by
    cases inMethod <;> rfl
  have loads := byteLoads_of_view h
  rw [listed] at loads
  obtain ⟨i, rest, number, none, same⟩ := List.forall₂_cons_right_iff.mp loads
  cases List.forall₂_nil_right_iff.mp none
  exact ⟨i, same, number⟩

end

/-! ## The order of a rebuilt pool -/

/-- **A rebuilt pool is canonical**: it has no constant twice, each behind what it refers to and each
for a reference of the class, in the order in which uses are completed, where what the code of
methods loads with one byte comes first. So what is loaded with one byte anywhere comes first if the
code of methods leads to all of it. -/
theorem stripped_canonical (h : parse bytes = .ok c) (acyclic : c.pool.Acyclic)
    (run : c.stripped = .ok d) :
    d.Canonical ∧
      ((∀ i ∈ d.byteLoads, ∃ j ∈ d.methodLoads Bytecode.loads, d.pool.LeadsTo j i) →
        ∃ n, Leading d.pool d.byteLoads n) := by
  rw [stripped_eq h] at run
  obtain ⟨v, _, after, b, held, pool⟩ := holds_of_renumbered (c := c.debugFree) acyclic run
  have canonical := canonical_of_holds after held pool
  refine ⟨canonical, fun covered => ?_⟩
  obtain ⟨n, leading⟩ := canonical.methodLoads
  refine ⟨n, fun i c hc => (leading i c hc).trans ⟨?_, ?_⟩⟩
  · rintro ⟨j, hj, leads⟩
    exact ⟨j, ClassOf.methodLoads_subset _ _ hj, leads⟩
  · rintro ⟨j, hj, leads⟩
    obtain ⟨k, hk, first⟩ := covered j hj
    exact ⟨k, hk, first.trans leads⟩

/-- A class whose method loads a number is rebuilt with the number in front. -/
theorem stripped_canonical_loader : ∃ d, (loader true).stripped = .ok d ∧ d.Canonical ∧
    ∃ n, Leading d.pool d.byteLoads n := by
  obtain ⟨d, run⟩ := exists_stripped_loader true
  obtain ⟨after, b, held, pool⟩ := view_stripped_loader true run
  obtain ⟨i, loads, number⟩ := byteLoads_of_loadingView true after
  obtain ⟨canonical, first⟩ := stripped_canonical (parse_loader true) (acyclic_loader true) run
  refine ⟨d, run, canonical, first fun k mem => ?_⟩
  -- The method loads the number too, and it stands in one slot only.
  have inMethod : List.Forall₂ (fun i t => d.pool.tree i = .ok t) (d.methodLoads Bytecode.loads)
      [⟨.integer 7⟩] := methodLoads_of_view after
  obtain ⟨j, _, number', _, same⟩ := List.forall₂_cons_right_iff.mp inMethod
  rw [pool] at number number'
  rw [loads, List.mem_singleton] at mem
  refine ⟨j, same ▸ List.mem_cons_self, ?_⟩
  rw [mem, held.sound.tree_injective number number']
  exact .refl

/-- **What code outside methods loads with one byte does not come first**: the number that the code
of a field loads stands behind the name of the class, which it does not lead to. -/
theorem stripped_loader : parse (loader false).bytes = .ok (loader false) ∧
    (loader false).pool.Acyclic ∧
      ∃ d, (loader false).stripped = .ok d ∧ ¬ ∃ n, Leading d.pool d.byteLoads n := by
  refine ⟨parse_loader false, acyclic_loader false, ?_⟩
  obtain ⟨d, run⟩ := exists_stripped_loader false
  refine ⟨d, run, ?_⟩
  obtain ⟨after, b, held, pool⟩ := view_stripped_loader false run
  obtain ⟨i, loads, number⟩ := byteLoads_of_loadingView false after
  rw [pool] at number
  rw [loads, pool]
  obtain ⟨k, name⟩ := held.placed ⟨.utf8 [65]⟩ (by decide +kernel)
  have front : k.toNat = 1 := (held.position k _ name).2.trans (by decide +kernel)
  have behind : i.toNat = 6 := (held.position i _ number).2.trans (by decide +kernel)
  obtain ⟨c, hc, trees⟩ := held.sound.acyclic.tree_eq_ok.mp number
  obtain ⟨e, he, _⟩ := held.sound.acyclic.tree_eq_ok.mp name
  rintro ⟨n, leading⟩
  have reached : i.toNat < n := (leading i c hc).mpr ⟨i, List.mem_singleton_self i, .refl⟩
  obtain ⟨j, mem, leads⟩ := (leading k e he).mp (by omega)
  cases List.mem_singleton.mp mem
  rcases leads.cases_head with rfl | ⟨_, ⟨c', hc', refers⟩, _⟩
  · omega
  · cases hc.symm.trans hc'
    obtain ⟨_, mem, _⟩ := ConstantOf.exists_of_mapRefs trees refers
    cases mem

end ClassFile

end ProcessorBench
