import Mathlib.Data.Finset.Card
import Mathlib.Logic.Relation
import ProcessorBench.ClassFile.Normal
import ProcessorBench.Proofs.References

/-!
# Constants without a pool

A `ConstantTree` is a constant together with everything it refers to; two pools that differ in
order, in repetitions or in what nobody refers to hold the same trees. `ConstantPool.tree` reads the
tree at an index.

Reading and moving constants follow references, which ends when no constant is part of itself:
`ConstantPool.Acyclic` is the absence of a cycle, not the success of a search. Then the number of
constants below an index bounds every path, so the bounds that the recursions carry are never
reached, and `tree_eq` and `required_eq` are the recursions without them.
-/

namespace ProcessorBench

/-- A constant whose references are the constants themselves. -/
structure ConstantTree where
  constant : ConstantOf ConstantTree

/-- What holds of a constant whenever it holds of those it refers to holds of every constant. -/
@[elab_as_elim]
theorem ConstantTree.induction {P : ConstantTree → Prop}
    (step : ∀ c : ConstantOf ConstantTree, (∀ t ∈ c.refs, P t) → P ⟨c⟩) : ∀ t, P t
  | ⟨.utf8 _⟩ | ⟨.integer _⟩ | ⟨.float _⟩ | ⟨.long _⟩ | ⟨.double _⟩ =>
    step _ (by simp [ConstantOf.refs])
  | ⟨.classInfo t⟩ | ⟨.string t⟩ | ⟨.methodType t⟩ | ⟨.moduleInfo t⟩ | ⟨.packageInfo t⟩
  | ⟨.methodHandle _ t⟩ | ⟨.dynamic _ t⟩ | ⟨.invokeDynamic _ t⟩ =>
    step _ (by simpa [ConstantOf.refs] using induction step t)
  | ⟨.fieldRef s t⟩ | ⟨.methodRef s t⟩ | ⟨.interfaceMethodRef s t⟩ | ⟨.nameAndType s t⟩ =>
    step _ (by simpa [ConstantOf.refs] using ⟨induction step s, induction step t⟩)

namespace ConstantTree

variable {m : Type → Type} [Monad m] {α : Type}

/-- Take a constant apart from the bottom up: first what it refers to, in the order the format
stores it, then the constant over what became of that. -/
def fold (f : ConstantOf α → m α) : ConstantTree → m α
  | ⟨.utf8 bytes⟩ => f (.utf8 bytes)
  | ⟨.integer value⟩ => f (.integer value)
  | ⟨.float bits⟩ => f (.float bits)
  | ⟨.long value⟩ => f (.long value)
  | ⟨.double bits⟩ => f (.double bits)
  | ⟨.classInfo t⟩ => do f (.classInfo (← fold f t))
  | ⟨.string t⟩ => do f (.string (← fold f t))
  | ⟨.fieldRef s t⟩ => do f (.fieldRef (← fold f s) (← fold f t))
  | ⟨.methodRef s t⟩ => do f (.methodRef (← fold f s) (← fold f t))
  | ⟨.interfaceMethodRef s t⟩ => do f (.interfaceMethodRef (← fold f s) (← fold f t))
  | ⟨.nameAndType s t⟩ => do f (.nameAndType (← fold f s) (← fold f t))
  | ⟨.methodHandle kind t⟩ => do f (.methodHandle kind (← fold f t))
  | ⟨.methodType t⟩ => do f (.methodType (← fold f t))
  | ⟨.dynamic bootstrap t⟩ => do f (.dynamic bootstrap (← fold f t))
  | ⟨.invokeDynamic bootstrap t⟩ => do f (.invokeDynamic bootstrap (← fold f t))
  | ⟨.moduleInfo t⟩ => do f (.moduleInfo (← fold f t))
  | ⟨.packageInfo t⟩ => do f (.packageInfo (← fold f t))

/-- Folding a tree folds what its root refers to first. -/
theorem fold_mk [LawfulMonad m] (f : ConstantOf α → m α) (c : ConstantOf ConstantTree) :
    fold f ⟨c⟩ = c.mapRefs (fold f) >>= f := by
  cases c <;> simp [fold, ConstantOf.mapRefs]

end ConstantTree

namespace ConstantOf

variable {ι κ ε : Type}

/-- Only what becomes of the references of a constant matters. -/
theorem mapRefs_congr {m : Type → Type} [Monad m] {f g : ι → m κ} {c : ConstantOf ι}
    (h : ∀ i ∈ c.refs, f i = g i) : c.mapRefs f = c.mapRefs g := by
  cases c <;> simp_all [refs, mapRefs]

/-- The references of a constant are replaced one by one. -/
theorem forall₂_refs {f : ι → Except ε κ} {c : ConstantOf ι} {d : ConstantOf κ}
    (h : c.mapRefs f = .ok d) : List.Forall₂ (fun i k => f i = .ok k) c.refs d.refs := by
  cases c with
  | utf8 _ | integer _ | float _ | long _ | double _ =>
    cases h
    exact .nil
  | classInfo j | string j | methodType j | moduleInfo j | packageInfo j
  | methodHandle _ j | dynamic _ j | invokeDynamic _ j =>
    obtain ⟨k, hk, h⟩ := bind_eq_ok.mp h
    cases h
    exact .cons hk .nil
  | fieldRef j j' | methodRef j j' | interfaceMethodRef j j' | nameAndType j j' =>
    obtain ⟨k, hk, h⟩ := bind_eq_ok.mp h
    obtain ⟨k', hk', h⟩ := bind_eq_ok.mp h
    cases h
    exact .cons hk (.cons hk' .nil)

/-- Where the references of a constant can be replaced, each of them can. -/
theorem exists_of_mapRefs {f : ι → Except ε κ} {c : ConstantOf ι} {d : ConstantOf κ}
    (h : c.mapRefs f = .ok d) {i : ι} (mem : i ∈ c.refs) : ∃ k ∈ d.refs, f i = .ok k :=
  exists_mem_of_forall₂ (forall₂_refs h) mem

/-- What a constant refers to after a replacement is what one of its references is replaced by. -/
theorem exists_of_mem_mapRefs {f : ι → Except ε κ} {c : ConstantOf ι} {d : ConstantOf κ}
    (h : c.mapRefs f = .ok d) {k : κ} (mem : k ∈ d.refs) : ∃ i ∈ c.refs, f i = .ok k :=
  exists_mem_of_forall₂ (forall₂_refs h).flip mem

/-- Where each reference of a constant can be replaced, all can. -/
theorem mapRefs_eq_ok_of_imp {f g : ι → Except ε κ} {c : ConstantOf ι} {d : ConstantOf κ}
    (h : c.mapRefs f = .ok d) (imp : ∀ i ∈ c.refs, ∀ k, f i = .ok k → g i = .ok k) :
    c.mapRefs g = .ok d := by
  rw [← h]
  refine (mapRefs_congr fun i mem => ?_).symm
  obtain ⟨k, _, hk⟩ := exists_of_mapRefs h mem
  rw [hk, imp i mem k hk]

/-- Replacing references keeps the kind of a constant. -/
theorem tag_of_mapRefs {f : ι → Except ε κ} {c : ConstantOf ι} {d : ConstantOf κ}
    (h : c.mapRefs f = .ok d) : d.tag = c.tag := by
  cases c with
  | utf8 _ | integer _ | float _ | long _ | double _ => cases h; rfl
  | classInfo _ | string _ | methodType _ | moduleInfo _ | packageInfo _
  | methodHandle _ _ | dynamic _ _ | invokeDynamic _ _ =>
    obtain ⟨_, _, h⟩ := bind_eq_ok.mp h
    cases h
    rfl
  | fieldRef _ _ | methodRef _ _ | interfaceMethodRef _ _ | nameAndType _ _ =>
    obtain ⟨_, _, h⟩ := bind_eq_ok.mp h
    obtain ⟨_, _, h⟩ := bind_eq_ok.mp h
    cases h
    rfl

end ConstantOf

namespace ConstantPool

/-! ## Cycles -/

/-- The constant at `i` refers to index `j`. -/
def Refers (pool : ConstantPool) (i j : PoolIndex) : Prop := ∃ c, pool.get i = .ok c ∧ j ∈ c.refs

/-- No constant is part of itself. -/
def Acyclic (pool : ConstantPool) : Prop := ∀ i, ¬ Relation.TransGen pool.Refers i i

variable {pool : ConstantPool}

/-- A constant stands in one of the slots. -/
theorem lt_slotCount_of_get {i : PoolIndex} {c : Constant} (h : pool.get i = .ok c) :
    i.toNat < pool.slotCount := by
  unfold get at h
  split at h
  · next found => exact (Array.getElem?_eq_some_iff.mp found).1
  · cases h

open Classical in
/-- How many constants can follow one another from an index on, at most: none from an index without
a constant, and otherwise one more than there are slots below it. -/
noncomputable def rank (pool : ConstantPool) (i : PoolIndex) : Nat :=
  if ∃ c, pool.get i = .ok c then
    ((Finset.range pool.slotCount).filter fun k =>
      Relation.TransGen pool.Refers i (UInt16.ofNat k)).card + 1
  else 0

/-- Following a reference leaves less ahead. -/
theorem Acyclic.rank_lt (h : pool.Acyclic) {i j : PoolIndex} {c : Constant}
    (hc : pool.get i = .ok c) (mem : j ∈ c.refs) : pool.rank j < pool.rank i := by
  classical
  have edge : Relation.TransGen pool.Refers i j := .single ⟨c, hc, mem⟩
  rw [rank.eq_def pool i, if_pos ⟨c, hc⟩, rank]
  split
  · next found =>
    obtain ⟨d, hd⟩ := found
    refine Nat.add_lt_add_right (Finset.card_lt_card (Finset.ssubset_iff_of_subset ?_ |>.mpr ?_)) 1
    · intro k hk
      simp only [Finset.mem_filter] at hk ⊢
      exact ⟨hk.1, edge.trans hk.2⟩
    · refine ⟨j.toNat, ?_, ?_⟩
      · simpa using ⟨lt_slotCount_of_get hd, edge⟩
      · simpa using fun _ => h j
  · exact Nat.succ_pos _

/-- No path is longer than the pool. -/
theorem Acyclic.rank_le (h : pool.Acyclic) (i : PoolIndex) : pool.rank i ≤ pool.slotCount := by
  classical
  rw [rank]
  split
  · next found =>
    obtain ⟨c, hc⟩ := found
    have small := Finset.card_lt_card (Finset.filter_ssubset (s := Finset.range pool.slotCount)
      (p := fun k => Relation.TransGen pool.Refers i (UInt16.ofNat k)) |>.mpr
      ⟨i.toNat, by simpa using lt_slotCount_of_get hc, by simpa using h i⟩)
    rw [Finset.card_range] at small
    exact small
  · exact Nat.zero_le _

/-- What holds of an index whenever it holds of those its constant refers to holds of every index.
-/
@[elab_as_elim]
theorem Acyclic.induction (h : pool.Acyclic) {P : PoolIndex → Prop}
    (step : ∀ i, (∀ c, pool.get i = .ok c → ∀ j ∈ c.refs, P j) → P i) (i : PoolIndex) : P i := by
  induction hr : pool.rank i using Nat.strongRecOn generalizing i with
  | ind r ih => exact step i fun c hc j mem => ih _ (hr ▸ h.rank_lt hc mem) j rfl

/-- A pool in which references lead downwards has no cycle. -/
theorem acyclic_of_height (height : PoolIndex → Nat)
    (h : ∀ i c, pool.get i = .ok c → ∀ j ∈ c.refs, height j < height i) : pool.Acyclic := by
  have descends : ∀ i j, Relation.TransGen pool.Refers i j → height j < height i := by
    intro i j path
    induction path with
    | single edge =>
      obtain ⟨c, hc, mem⟩ := edge
      exact h i c hc _ mem
    | tail _ edge ih =>
      obtain ⟨c, hc, mem⟩ := edge
      exact Nat.lt_trans (h _ c hc _ mem) ih
  exact fun i path => Nat.lt_irrefl _ (descends i i path)

/-- A pool whose constants refer to earlier slots only has no cycle. -/
theorem acyclic_of_lt (h : ∀ i c, pool.get i = .ok c → ∀ j ∈ c.refs, j < i) : pool.Acyclic :=
  acyclic_of_height UInt16.toNat fun i c hc j mem => UInt16.lt_iff_toNat_lt.mp (h i c hc j mem)

/-- A pool whose constants refer to texts only has no cycle. -/
theorem acyclic_of_texts
    (h : ∀ i c, pool.get i = .ok c → ∀ j ∈ c.refs, ∃ bytes, pool.get j = .ok (.utf8 bytes)) :
    pool.Acyclic := by
  classical
  refine acyclic_of_height (fun i => if ∃ bytes, pool.get i = .ok (.utf8 bytes) then 0 else 1)
    fun i c hc j mem => ?_
  have refers : ¬ ∃ bytes, pool.get i = .ok (.utf8 bytes) := by
    rintro ⟨bytes, text⟩
    cases hc.symm.trans text
    cases mem
  simp only [if_neg refers, if_pos (h i c hc j mem), Nat.zero_lt_one]

/-- A constant that stands in a slot is in the list of slots. -/
theorem mem_toList_of_get {i : PoolIndex} {c : Constant} (h : pool.get i = .ok c) :
    (i, c) ∈ pool.toList := by
  unfold get at h
  split at h
  · next found =>
    cases h
    refine List.mem_filterMap.mpr ⟨(some c, i.toNat), List.mk_mem_zipIdx_iff_getElem?.mpr ?_, by simp⟩
    simpa using found
  · cases h

/-- It is enough to look at the constants that are there. -/
theorem acyclic_of_toList (height : PoolIndex → Nat)
    (h : (pool.toList.all fun p => p.2.refs.all fun j => height j < height p.1) = true) :
    pool.Acyclic := by
  simp only [List.all_eq_true, decide_eq_true_eq] at h
  exact acyclic_of_height height fun i c hc => h (i, c) (mem_toList_of_get hc)

/-! ## Reading trees -/

/-- The tree at an index, where `depth` bounds its height. -/
def treeAt (pool : ConstantPool) : (depth : Nat) → PoolIndex → Except ClassError ConstantTree
  | 0, index => throw (.cyclicConstant index)
  | depth + 1, index => do
    let c ← pool.get index
    return ⟨← c.mapRefs (treeAt pool depth)⟩

/-- The tree at an index. -/
def tree (pool : ConstantPool) (index : PoolIndex) : Except ClassError ConstantTree :=
  pool.treeAt (pool.slotCount + 1) index

/-- Any bound above the rank of an index gives the same tree. -/
theorem Acyclic.treeAt_eq (h : pool.Acyclic) {d d' : Nat} {i : PoolIndex} (hd : pool.rank i < d)
    (hd' : pool.rank i < d') : pool.treeAt d i = pool.treeAt d' i := by
  induction d generalizing i d' with
  | zero => exact absurd hd (Nat.not_lt_zero _)
  | succ d ih =>
    obtain ⟨d', rfl⟩ := Nat.exists_eq_succ_of_ne_zero (Nat.ne_of_gt (Nat.zero_lt_of_lt hd'))
    simp only [treeAt]
    cases hc : pool.get i with
    | error e => rfl
    | ok c =>
      have agree : ∀ j ∈ c.refs, pool.treeAt d j = pool.treeAt d' j := fun j mem => by
        have := h.rank_lt hc mem
        exact ih (by omega) (by omega)
      simp only [ok_bind, ConstantOf.mapRefs_congr agree]

/-- Without cycles the tree at an index is its constant over the trees it refers to. -/
theorem Acyclic.tree_eq (h : pool.Acyclic) (i : PoolIndex) :
    pool.tree i = do return ⟨← (← pool.get i).mapRefs pool.tree⟩ := by
  rw [tree, treeAt]
  cases hc : pool.get i with
  | error e => rfl
  | ok c =>
    have agree : ∀ j ∈ c.refs, pool.treeAt pool.slotCount j = pool.tree j := fun j mem => by
      have := h.rank_lt hc mem
      have := h.rank_le i
      exact h.treeAt_eq (by omega) (by omega)
    simp only [ok_bind, ConstantOf.mapRefs_congr agree]

/-- The tree at an index is there when the constant is and the trees it refers to are. -/
theorem Acyclic.tree_eq_ok (h : pool.Acyclic) {i : PoolIndex} {t : ConstantTree} :
    pool.tree i = .ok t ↔ ∃ c, pool.get i = .ok c ∧ c.mapRefs pool.tree = .ok t.constant := by
  obtain ⟨d⟩ := t
  rw [h.tree_eq]
  constructor
  · intro ht
    obtain ⟨c, hc, ht⟩ := bind_eq_ok.mp ht
    obtain ⟨d, hd, ht⟩ := bind_eq_ok.mp ht
    cases ht
    exact ⟨c, hc, hd⟩
  · rintro ⟨c, hc, hd⟩
    rw [hc, ok_bind, hd, ok_bind]
    rfl

/-- A text leads to itself. -/
theorem Acyclic.tree_utf8 (h : pool.Acyclic) {i : PoolIndex} {text : Bytes}
    (there : pool.get i = .ok (.utf8 text)) : pool.tree i = .ok ⟨.utf8 text⟩ :=
  h.tree_eq_ok.mpr ⟨_, there, rfl⟩

end ConstantPool

/-! ## Moving constants -/

/-- **What moving an old constant does** when it succeeds: nothing if that has happened, and else it moves what the
constant refers to, adds the constant to the new pool, and notes where it is. -/
theorem Renumbering.move_eq_ok {old : ConstantPool} {depth : Nat} {i k : PoolIndex} {s s' : Renumbering} :
    move old (depth + 1) i s = .ok (k, s') ↔ (s.seen[i]? = some k ∧ s = s') ∨
      (s.seen[i]? = none ∧ ∃ c d t t', old.get i = .ok c ∧ c.mapRefs (move old depth) s = .ok (d, t) ∧
        intern d t = .ok (k, t') ∧ s' = { t' with seen := t'.seen.insert i k }) := by
  rw [move, stateGet_bind]
  cases s.seen[i]? with
  | some moved =>
    simp only [Option.some.injEq, reduceCtorEq, false_and, or_false]
    constructor
    · intro run
      cases run
      exact ⟨rfl, rfl⟩
    · rintro ⟨rfl, rfl⟩
      rfl
  | none =>
    simp only [reduceCtorEq, false_and, false_or, true_and]
    cases old.get i with
    | error e =>
      refine iff_of_false (fun run => ?_) (fun ⟨_, _, _, _, got, _⟩ => ?_)
      · cases run
      · cases got
    | ok c =>
      simp only [liftM_ok, pure_bind, stateBind_eq_ok]
      constructor
      · rintro ⟨d, t, refs, k', t', added, _, _, noted, run⟩
        cases noted
        cases run
        exact ⟨c, d, t, t', rfl, refs, added, rfl⟩
      · rintro ⟨_, d, t, t', ⟨⟩, refs, added, rfl⟩
        exact ⟨d, t, refs, k, t', added, (), _, rfl, rfl⟩

/-- Any bound above the rank of an index moves it in the same way. -/
theorem Renumbering.move_eq {old : ConstantPool} (h : old.Acyclic) {d d' : Nat} {i : PoolIndex}
    (hd : old.rank i < d) (hd' : old.rank i < d') : move old d i = move old d' i := by
  induction d generalizing i d' with
  | zero => exact absurd hd (Nat.not_lt_zero _)
  | succ d ih =>
    obtain ⟨d', rfl⟩ := Nat.exists_eq_succ_of_ne_zero (Nat.ne_of_gt (Nat.zero_lt_of_lt hd'))
    simp only [move]
    congr 1
    funext r
    cases r.seen[i]? with
    | some moved => rfl
    | none =>
      cases hc : old.get i with
      | error e => rfl
      | ok c =>
        have agree : ∀ j ∈ c.refs, move old d j = move old d' j := fun j mem => by
          have := h.rank_lt hc mem
          exact ih (by omega) (by omega)
        simp only [liftM_ok, pure_bind, ConstantOf.mapRefs_congr agree]

/-- Without cycles an old constant that has not been moved is moved after what it refers to. -/
theorem Renumbering.required_eq {old : ConstantPool} (h : old.Acyclic) (i : PoolIndex) :
    required old i = do
      match (← get).seen[i]? with
      | some moved => return moved
      | none =>
        let moved ← intern (← (← old.get i).mapRefs (required old))
        modify fun r => { r with seen := r.seen.insert i moved }
        return moved := by
  rw [required, move]
  congr 1
  funext r
  cases r.seen[i]? with
  | some moved => rfl
  | none =>
    cases hc : old.get i with
    | error e => rfl
    | ok c =>
      have agree : ∀ j ∈ c.refs, move old old.slotCount j = required old j := fun j mem => by
        have := h.rank_lt hc mem
        have := h.rank_le i
        exact move_eq h (by omega) (by omega)
      simp only [liftM_ok, pure_bind, ConstantOf.mapRefs_congr agree]

end ProcessorBench
