import Mathlib.Algebra.Order.BigOperators.Group.List
import Mathlib.Data.List.Perm.Subperm
import ProcessorBench.Proofs.ClassCodec
import ProcessorBench.Proofs.Placement

/-!
# A new pool is no longer than the old one

A layout lists constants of the pool that the class has been read with, and each of them once. So
its slots are among the slots of that pool: `ClassView.slotCount_layout_le`. What a class loses by
renumbering is room for one byte at most, not room for its constants.
-/

namespace ProcessorBench

/-! ## The constants of a pool -/

namespace ConstantPool

variable {pool : ConstantPool}

/-- The constants of a pool are those in its slots, in order. -/
theorem map_snd_toList (pool : ConstantPool) : pool.toList.map (·.2) = pool.constants := by
  rw [toList, constants, List.map_filterMap, ← List.zipIdx_map_fst 0 pool.entries.toList,
    List.filterMap_map, List.zipIdx_map_fst]
  refine congrArg (List.filterMap · _) (funext fun ⟨entry, _⟩ => ?_)
  cases entry <;> rfl

/-- A constant stands where the list of slots has it, if the slots can be numbered. -/
theorem get_of_mem_toList (few : pool.slotCount ≤ UInt16.size) {i : PoolIndex} {c : Constant}
    (mem : (i, c) ∈ pool.toList) : pool.get i = .ok c := by
  obtain ⟨⟨entry, n⟩, listed, same⟩ := List.mem_filterMap.mp mem
  obtain ⟨c, rfl, same⟩ := Option.map_eq_some_iff.mp same
  cases same
  have found := List.mk_mem_zipIdx_iff_getElem?.mp listed
  rw [Array.getElem?_toList] at found
  have small : n < UInt16.size := by
    obtain ⟨below, _⟩ := Array.getElem?_eq_some_iff.mp found
    exact Nat.lt_of_lt_of_le below few
  rw [get, UInt16.toNat_ofNat_of_lt' small, found]

/-- The trees of a pool, one for each constant that has one. -/
def trees (pool : ConstantPool) : List ConstantTree :=
  pool.toList.filterMap fun p => (pool.tree p.1).toOption

/-- A tree that an index leads to is one of the trees of the pool. -/
theorem mem_trees_of_tree (h : pool.Acyclic) {i : PoolIndex} {t : ConstantTree}
    (there : pool.tree i = .ok t) : t ∈ pool.trees := by
  obtain ⟨c, hc, _⟩ := h.tree_eq_ok.mp there
  exact List.mem_filterMap.mpr ⟨(i, c), mem_toList_of_get hc, by rw [there]; rfl⟩

/-- **The trees of a pool take no more slots than its constants.** -/
theorem slots_trees_le (h : pool.Acyclic) (few : pool.slotCount ≤ UInt16.size) :
    Layout.slots pool.trees ≤ (pool.constants.map (·.slots)).sum := by
  have walk : ∀ ps : List (PoolIndex × Constant), (∀ p ∈ ps, p ∈ pool.toList) →
      Layout.slots (ps.filterMap fun p => (pool.tree p.1).toOption) ≤ (ps.map (·.2.slots)).sum := by
    intro ps listed
    induction ps with
    | nil => exact Nat.le_refl _
    | cons p ps ih =>
      obtain ⟨first, rest⟩ := List.forall_mem_cons.mp listed
      have below := ih rest
      rw [List.map_cons, List.sum_cons]
      cases found : pool.tree p.1 with
      | error e =>
        rw [List.filterMap_cons_none (by rw [found]; rfl)]
        omega
      | ok t =>
        obtain ⟨c, hc, trees⟩ := h.tree_eq_ok.mp found
        cases hc.symm.trans (get_of_mem_toList few first)
        have same := ConstantOf.slots_of_mapRefs trees
        rw [List.filterMap_cons_some (b := t) (by rw [found]; rfl)]
        simp only [Layout.slots, List.map_cons, List.sum_cons, same] at below ⊢
        omega
  rw [← map_snd_toList, List.map_map]
  exact walk pool.toList fun _ mem => mem

/-- **Different constants of a pool take no more slots than the pool has.** -/
theorem slots_le_slotCount (h : pool.Acyclic)
    (built : ∃ cs : List Constant, pool = cs.foldl push empty) (few : pool.slotCount ≤ UInt16.size)
    {ts : List ConstantTree} (nodup : ts.Nodup) (there : ∀ t ∈ ts, ∃ i, pool.tree i = .ok t) :
    1 + Layout.slots ts ≤ pool.slotCount := by
  have inside : ts ⊆ pool.trees := fun t mem => by
    obtain ⟨i, hi⟩ := there t mem
    exact mem_trees_of_tree h hi
  obtain ⟨us, perm, sublist⟩ := nodup.subperm inside
  have below : Layout.slots ts ≤ Layout.slots pool.trees := by
    rw [Layout.slots, ← (perm.map _).sum_nat]
    exact (sublist.map _).sum_le_sum fun _ _ => Nat.zero_le _
  have room : pool.slotCount = 1 + (pool.constants.map (·.slots)).sum := by
    obtain ⟨cs, rfl⟩ := built
    rw [slotCount_foldl_push, constants_built]
    rfl
  have trees := slots_trees_le h few
  omega

end ConstantPool

/-! ## What is laid out is there -/

/-- A layout of constants of a pool, each of them once, and what one byte leads to among them. -/
structure Layout.Within (pool : ConstantPool) (l : Layout) : Prop where
  nodup : l.placed.Nodup
  there : ∀ t ∈ l.placed, ∃ i, pool.tree i = .ok t
  loaded : l.narrow ⊆ l.placed

/-- A step that lays out constants of a pool only. -/
def Placing.Confined (pool : ConstantPool) {α : Type} (y : Placing α) : Prop :=
  ∀ l, Layout.Within pool l → Layout.Within pool (y l).2

/-- Whatever lays out constants of a pool step by step does so as a whole. -/
def confining (pool : ConstantPool) : Simulation Placing Id where
  rel _ y _ := Placing.Confined pool y
  pure _ _ hl := hl
  bind {_ _ _ _ _ _ _ a' _ _} hx hk l hl := hk _ a' _ (hx l hl)

section
variable {pool : ConstantPool}

/-- A layout without constants is within every pool. -/
theorem Layout.within_empty : Layout.Within pool .empty := ⟨List.nodup_nil, nofun, List.nil_subset _⟩

/-- Adding a tree of the pool stays within it. -/
theorem Layout.Within.add {l : Layout} (h : Within pool l) {i : PoolIndex} {t : ConstantTree}
    (ht : pool.tree i = .ok t) : Within pool (l.add t) := by
  by_cases old : t ∈ l.placed
  · rwa [add_of_mem old]
  · refine ⟨?_, fun s hs => ?_, List.Subset.trans h.loaded (le_add l t).1.subset⟩
    · rw [placed_add old, List.nodup_append]
      refine ⟨h.nodup, List.nodup_singleton t, fun s hs s' hs' same => old ?_⟩
      rwa [← List.mem_singleton.mp hs', ← same]
    · rw [placed_add old, List.mem_append, List.mem_singleton] at hs
      rcases hs with hs | rfl
      · exact h.there s hs
      · exact ⟨i, ht⟩

/-- Loading what has been placed stays within the pool. -/
theorem Layout.Within.load {l : Layout} (h : Within pool l) {t : ConstantTree} (mem : t ∈ l.placed) :
    Within pool (l.load t) :=
  ⟨h.nodup, h.there, List.append_subset.mpr
    ⟨h.loaded, fun _ hs => List.mem_singleton.mp hs ▸ mem⟩⟩

variable (acyclic : pool.Acyclic)
include acyclic

/-- A constant of a pool is laid out after others of the pool. -/
theorem ConstantTree.place_confined (t : ConstantTree) {i : PoolIndex} (ht : pool.tree i = .ok t) :
    t.place.Confined pool := by
  induction t using ConstantTree.induction generalizing i with
  | step c ih =>
    intro l hl
    have refs : (c.mapRefs place).Confined pool := by
      refine ConstantOf.mapRefs_over (confining pool) (fun _ => (pure () : Id Unit)) (fun _ => pure ())
        fun s mem => ?_
      obtain ⟨e, _, trees⟩ := acyclic.tree_eq_ok.mp ht
      obtain ⟨j, _, hj⟩ := ConstantOf.exists_of_mem_mapRefs trees mem
      exact ih s mem hj
    rw [place_mk]
    show Layout.Within pool ((c.mapRefs place l).2.add ⟨(c.mapRefs place l).1⟩)
    rw [mapRefs_place_fst fun t _ => t.place_fst]
    exact (refs l hl).add ht

/-- Placing the operand of an instruction stays within the pool that the operand is from. -/
theorem placeOperand_confined (width : OperandWidth) {i : PoolIndex} {t : ConstantTree}
    (ht : pool.tree i = .ok t) : (placeOperand width t).Confined pool := by
  have placed := t.place_confined acyclic ht
  cases width with
  | wide => exact placed
  | narrow =>
    intro l hl
    show Layout.Within pool ((t.place l).2.load (t.place l).1)
    rw [t.place_fst]
    exact (placed l hl).load (t.mem_place l)

/-- Placing what code refers to stays within its pool. -/
theorem placeCode_confined {code : Bytes} {v : CodeView} (h : pool.codeView code = .ok v) :
    (placeMap.code v).Confined pool := by
  obtain ⟨is, _, views⟩ := bind_eq_ok.mp h
  have step : ∀ j ∈ v, (confining pool).rel (fun _ _ => True) (j.mapRef placeOperand) (pure j) := by
    intro j mem
    obtain ⟨⟨opcode, constant, operands⟩, _, hi⟩ :=
      exists_mem_of_forall₂ (mapM_eq_ok.mp views).flip mem
    match constant with
    | none =>
      cases hi
      exact fun _ hl => hl
    | some (width, k) =>
      obtain ⟨t, ht, hi⟩ := bind_eq_ok.mp hi
      cases hi
      exact fun l hl => placeOperand_confined acyclic width ht l hl
  exact (confining pool).mapM_forall₂ v step

/-- Placing a reference stays within its pool. -/
theorem placeRequired_confined {i : PoolIndex} {t : Option ConstantTree}
    (h : pool.requiredView i = .ok t) : (placeReference t).Confined pool := by
  obtain ⟨t, ht, h⟩ := bind_eq_ok.mp h
  cases h
  exact fun l hl => t.place_confined acyclic ht l hl

/-- Placing a reference that may be missing stays within its pool. -/
theorem placeOptional_confined {i : PoolIndex} {t : Option ConstantTree}
    (h : pool.optionalView i = .ok t) : (placeReference t).Confined pool := by
  unfold ConstantPool.optionalView at h
  split at h
  · cases h
    exact fun _ hl => hl
  · exact placeRequired_confined acyclic h

end

/-- Lay out what an index of a pool leads to, if it leads anywhere. -/
def placeFrom (pool : ConstantPool) :
    RefMap Placing PoolIndex (Option ConstantTree) Bytes CodeView where
  required i := (pool.requiredView i).toOption.elim (pure none) placeReference
  optional i := (pool.optionalView i).toOption.elim (pure none) placeReference
  code b := (pool.codeView b).toOption.elim (pure []) placeMap.code

/-- Laying out the view of a class is laying out what its indices lead to. -/
theorem ClassView.mapRefs_placeMap_eq {c : ClassFile} {v : ClassView} (h : c.view = .ok v) :
    v.mapRefs placeMap = c.toClassOf.mapRefs (placeFrom c.pool) := by
  have step {α β : Type} {x : Except ClassError α} {a : α} (ha : x = .ok a) (b : β) (k : α → β) :
      k a = x.toOption.elim b k := by
    rw [ha]
    rfl
  exact ClassOf.mapRefs_eq (f := c.pool.viewMap) (fun _ _ ha => step ha _ _)
    (fun _ _ ha => step ha _ _) (fun _ _ ha => step ha _ _) h

/-- What is done only if something has been found stays within a pool if it does so for all that can be found. -/
theorem elim_confined {pool : ConstantPool} {ε α β : Type} {x : Except ε α} {b : β}
    {k : α → Placing β} (h : ∀ a, x = .ok a → (k a).Confined pool) :
    (x.toOption.elim (pure b) k).Confined pool := by
  cases x with
  | error e => exact fun _ hl => hl
  | ok a => exact h a rfl

/-- Placing what a class refers to stays within its pool, reference by reference. -/
theorem placeFrom_confined {pool : ConstantPool} (acyclic : pool.Acyclic) :
    RefMap.Related (confining pool) (placeFrom pool) (RefMap.id Id PoolIndex Bytes)
      ⟨fun _ => (pure () : Id Unit), fun _ => pure (), fun _ => pure ()⟩
      ⟨fun _ => pure (), fun _ => pure (), fun _ => pure ()⟩ where
  required _ := elim_confined fun _ => placeRequired_confined acyclic
  optional _ := elim_confined fun _ => placeOptional_confined acyclic
  code _ := elim_confined fun _ => placeCode_confined acyclic

/-- What stays within a pool each time stays within it when it is repeated. -/
theorem forM_confined {pool : ConstantPool} {α : Type} {f : α → Placing Unit} {as : List α}
    (h : ∀ a ∈ as, (f a).Confined pool) : (as.forM f).Confined pool := by
  induction as with
  | nil => exact fun _ hl => hl
  | cons a as ih =>
    obtain ⟨first, rest⟩ := List.forall_mem_cons.mp h
    exact fun l hl => ih rest _ (first l hl)

/-- Placing what a method loads with one byte stays within its pool. -/
theorem placeNarrow_confined {pool : ConstantPool} (acyclic : pool.Acyclic) {method : Member}
    {method' : MemberOf (Option ConstantTree) CodeView}
    (h : method.mapRefs pool.viewMap = .ok method') : (placeNarrow method').Confined pool := by
  obtain ⟨_, _, _, attributes⟩ := MemberOf.parts_of_mapRefs h
  refine forM_confined fun a mem => ?_
  obtain ⟨⟨_, body⟩, _, same⟩ := exists_mem_of_forall₂ (mapM_eq_ok.mp attributes).flip mem
  have same := (AttributeOf.parts_of_mapRefs same).2
  obtain ⟨_, body'⟩ := a
  cases body' with
  | code c' =>
    cases body with
    | code c =>
      obtain ⟨_, hc, same⟩ := bind_eq_ok.mp same
      cases same
      obtain ⟨_, _, loads⟩ := narrow_of_codeView (CodeOf.code_of_mapRefs hc)
      refine forM_confined fun t mem => ?_
      obtain ⟨i, _, ht⟩ := exists_mem_of_forall₂ loads.flip mem
      exact fun l hl => t.place_confined acyclic ht l hl
    | _ => cases AttributeBodyOf.kind_of_mapRefs same
  | _ => exact fun _ hl => hl

/-- **What a view is laid out as is in the pool of the class**, each constant once. -/
theorem ClassView.layout_within {c : ClassFile} {v : ClassView} (acyclic : c.pool.Acyclic)
    (h : c.view = .ok v) : v.layout.Within c.pool := by
  obtain ⟨_, _, _, _, methods, _⟩ := ClassOf.parts_of_mapRefs h
  have narrow : (v.methods.forM placeNarrow).Confined c.pool := forM_confined fun m mem => by
    obtain ⟨_, _, hm⟩ := exists_mem_of_forall₂ (mapM_eq_ok.mp methods).flip mem
    exact placeNarrow_confined acyclic hm
  have whole : (v.mapRefs placeMap).Confined c.pool := by
    rw [mapRefs_placeMap_eq h]
    exact ClassOf.mapRefs_related (placeFrom_confined acyclic) c.toClassOf
  exact whole _ (narrow _ Layout.within_empty)

/-- **Renumbering needs no more slots than there were.** -/
theorem ClassView.slotCount_layout_le {c : ClassFile} {v : ClassView} (acyclic : c.pool.Acyclic)
    (built : ∃ cs : List Constant, c.pool = cs.foldl ConstantPool.push .empty)
    (few : c.pool.slotCount ≤ UInt16.size) (h : c.view = .ok v) :
    v.layout.slotCount ≤ c.pool.slotCount := by
  obtain ⟨nodup, there, _⟩ := layout_within acyclic h
  exact ConstantPool.slots_le_slotCount acyclic built few nodup there

end ProcessorBench
