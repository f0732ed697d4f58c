import ProcessorBench.Proofs.Lowering
import ProcessorBench.Proofs.Preservation

/-!
# Pools with cycles that nothing leads to

A constant that is part of itself cannot be moved, nor can one that leads to such a constant or out of
the pool. The others are grounded (`ConstantPool.Grounded`), and they alone make up a pool without
cycles, `ConstantPool.grounded`. Renumbering moves what it meets and fails if it cannot, so a class
that is renumbered is renumbered over this part of its pool as well, to the same class:
`ClassFile.renumbered_grounded`. So what holds of classes over pools without cycles holds of every
class that can be normalized, whatever else its pool may contain: `ClassFile.exists_of_normalize`.
-/

namespace ProcessorBench

namespace ConstantPool

variable {pool : ConstantPool} {i : PoolIndex} {c : Constant}

/-- There is a constant at the index, and each that it refers to is grounded. -/
inductive Grounded (pool : ConstantPool) : PoolIndex → Prop
  | mk {i : PoolIndex} {c : Constant} (there : pool.get i = .ok c)
    (refs : ∀ j ∈ c.refs, Grounded pool j) : Grounded pool i

open Classical in
/-- The pool with those of its constants that are grounded. -/
noncomputable def grounded (pool : ConstantPool) : ConstantPool :=
  ⟨pool.entries.mapIdx fun i entry => if pool.Grounded (UInt16.ofNat i) then entry else none⟩

/-- Clearing slots leaves their number. -/
theorem slotCount_grounded (pool : ConstantPool) : pool.grounded.slotCount = pool.slotCount :=
  Array.size_mapIdx

open Classical in
/-- The slots of constants that are not grounded are cleared, and no others. -/
theorem entries_grounded (pool : ConstantPool) (i : PoolIndex) :
    pool.grounded.entries[i.toNat]? =
      pool.entries[i.toNat]?.map fun entry => if pool.Grounded i then entry else none := by
  rw [grounded, Array.getElem?_mapIdx, UInt16.ofNat_toNat]

/-- A constant that is grounded is kept. -/
theorem get_grounded (h : pool.Grounded i) : pool.grounded.get i = pool.get i := by
  rw [get, get, entries_grounded]
  simp only [if_pos h, Option.map_id']

/-- Every constant that is kept is grounded. -/
theorem get_grounded_eq_ok : pool.grounded.get i = .ok c ↔ pool.Grounded i ∧ pool.get i = .ok c := by
  by_cases h : pool.Grounded i
  · rw [get_grounded h, and_iff_right h]
  · refine ⟨fun found => ?_, fun found => absurd found.1 h⟩
    rw [get, entries_grounded] at found
    simp only [if_neg h] at found
    cases there : pool.entries[i.toNat]? <;> rw [there] at found <;> cases found

/-- What is left refers to what is left. -/
theorem refs_grounded (h : pool.grounded.get i = .ok c) {j : PoolIndex} (mem : j ∈ c.refs) :
    pool.Grounded j := by
  obtain ⟨⟨there, refs⟩, found⟩ := get_grounded_eq_ok.mp h
  cases there.symm.trans found
  exact refs j mem

/-- **What is grounded is not part of itself.** -/
theorem acyclic_grounded (pool : ConstantPool) : pool.grounded.Acyclic := by
  have ends (i : PoolIndex) (h : pool.Grounded i) : Acc (fun j i => pool.grounded.Refers i j) i := by
    induction h with
    | mk there refs ih =>
      refine ⟨_, fun j ⟨d, found, mem⟩ => ih j ?_⟩
      cases there.symm.trans (get_grounded_eq_ok.mp found).2
      exact mem
  have wellFounded : WellFounded fun j i => pool.grounded.Refers i j :=
    ⟨fun i => ⟨i, fun j ⟨_, found, mem⟩ => ends j (refs_grounded found mem)⟩⟩
  intro i path
  have cycle := Relation.transGen_swap.mpr path
  exact wellFounded.transGen.asymmetric i i cycle cycle

end ConstantPool

/-- Where a constant can be replaced, every reference of it has been met, and what holds of a
reference that has been met holds of each. -/
theorem ConstantOf.forall_refs_of_mapRefs {σ ε ι κ : Type} {f : ι → StateT σ (Except ε) κ}
    {I : σ → Prop} {P : ι → Prop} (step : ∀ i s k s', I s → f i s = .ok (k, s') → I s' ∧ P i)
    {c : ConstantOf ι} {d : ConstantOf κ} {s s' : σ} (hs : I s) (run : c.mapRefs f s = .ok (d, s')) :
    ∀ i ∈ c.refs, P i := by
  cases c with
  | utf8 _ | integer _ | float _ | long _ | double _ => exact fun _ => nofun
  | classInfo j | string j | methodType j | moduleInfo j | packageInfo j
  | methodHandle _ j | dynamic _ j | invokeDynamic _ j =>
    obtain ⟨_, _, first, _⟩ := stateBind_eq_ok.mp run
    exact List.forall_mem_singleton.mpr (step j _ _ _ hs first).2
  | fieldRef j j' | methodRef j j' | interfaceMethodRef j j' | nameAndType j j' =>
    obtain ⟨_, _, first, run⟩ := stateBind_eq_ok.mp run
    obtain ⟨_, _, second, _⟩ := stateBind_eq_ok.mp run
    obtain ⟨hs', first⟩ := step j _ _ _ hs first
    exact List.forall_mem_cons.mpr
      ⟨first, List.forall_mem_singleton.mpr (step j' _ _ _ hs' second).2⟩

namespace Renumbering

variable {old : ConstantPool} {α α' β β' : Type}

/-- Every index that has been moved is grounded. -/
def OnGround (old : ConstantPool) (s : Renumbering) : Prop :=
  ∀ i k, s.seen[i]? = some k → old.Grounded i

/-- Where the first step succeeds, so does the second, and it does the same. -/
def Stays (old : ConstantPool) (r : α → α' → Prop) (x : Renumber α) (y : Renumber α') : Prop :=
  ∀ s a s', s.OnGround old → x s = .ok (a, s') →
    s'.OnGround old ∧ ∃ a', y s = .ok (a', s') ∧ r a a'

namespace Stays

variable {r : α → α' → Prop} {q : β → β' → Prop}

theorem pure {a : α} {a' : α'} (h : r a a') : Stays old r (Pure.pure a) (Pure.pure a') := by
  intro s _ _ hs run
  cases run
  exact ⟨hs, a', rfl, h⟩

theorem throw (e : ClassError) (y : Renumber α') : Stays old r (MonadExcept.throw e : Renumber α) y :=
  fun _ _ _ _ => nofun

theorem liftM (z : Except ClassError α) : Stays old (· = ·) (liftM z : Renumber α) (liftM z) := by
  cases z with
  | error e => exact fun _ _ _ _ => nofun
  | ok a => exact pure rfl

/-- Steps that go the same way can be put together. -/
theorem bind {x : Renumber α} {y : Renumber α'} {k : α → Renumber β} {k' : α' → Renumber β'}
    (hx : Stays old r x y) (hk : ∀ a a', r a a' → Stays old q (k a) (k' a')) :
    Stays old q (x >>= k) (y >>= k') := by
  intro s b s' hs run
  obtain ⟨a, t, first, last⟩ := stateBind_eq_ok.mp run
  obtain ⟨ht, a', first', related⟩ := hx s a t hs first
  obtain ⟨hs', b', last', related'⟩ := hk a a' related t b s' ht last
  exact ⟨hs', b', stateBind_eq_ok.mpr ⟨a', t, first', last'⟩, related'⟩

end Stays

/-- Whatever stays on the ground step by step does so as a whole. -/
def grounding (old : ConstantPool) : Simulation Renumber Renumber where
  rel := Stays old
  pure := Stays.pure
  bind hx hk := hx.bind fun a a' related s b s' hs run => by
    obtain ⟨hs', b', run', last⟩ := hk a a' s b s' hs run
    exact ⟨hs', b', run', last related⟩

/-- Adding a constant does not change what has been seen. -/
theorem seen_intern {c : Constant} {s s' : Renumbering} {k : PoolIndex}
    (run : intern c s = .ok (k, s')) : s'.seen = s.seen := by
  obtain ⟨b, seen⟩ := s
  rw [intern_eq] at run
  split at run <;> cases run
  rfl

/-- An index that is grounded is remembered. -/
theorem OnGround.insert {s : Renumbering} (hs : s.OnGround old) {i k : PoolIndex}
    (h : old.Grounded i) : OnGround old { s with seen := s.seen.insert i k } := by
  intro j l found
  rw [Std.HashMap.getElem?_insert] at found
  split at found
  · next same =>
    rw [← LawfulBEq.eq_of_beq same]
    exact h
  · exact hs j l found

/-- **A constant that is moved is grounded**, and is moved in the same way where nothing else is. -/
theorem move_stays (depth : Nat) (i : PoolIndex) :
    Stays old (fun k k' => k = k' ∧ old.Grounded i) (move old depth i)
      (move old.grounded depth i) := by
  induction depth generalizing i with
  | zero => exact .throw _ _
  | succ depth ih =>
    intro s k s' hs run
    rcases move_eq_ok.mp run with ⟨found, rfl⟩ | ⟨unseen, c, d, t, t', hc, moved, added, rfl⟩
    · exact ⟨hs, k, move_eq_ok.mpr (.inl ⟨found, rfl⟩), rfl, hs i k found⟩
    -- What the constant refers to has been moved before it, so that it is grounded by induction on the depth.
    · have refs : ∀ j ∈ c.refs, old.Grounded j :=
        ConstantOf.forall_refs_of_mapRefs (I := OnGround old)
          (fun j s k s' hs run => by
            obtain ⟨hs', _, _, _, grounded⟩ := ih j s k s' hs run
            exact ⟨hs', grounded⟩) hs moved
      have here : old.Grounded i := ⟨hc, refs⟩
      have walk := ConstantOf.mapRefs_same (grounding old) fun j (_ : j ∈ c.refs) =>
        (grounding old).mono (ih j) fun _ _ h => h.1
      obtain ⟨ht, _, moved', rfl⟩ := walk s d t hs moved
      have ht' : t'.OnGround old := by
        rw [OnGround, seen_intern added]
        exact ht
      have got := (ConstantPool.get_grounded here).trans hc
      exact ⟨ht'.insert here, k, move_eq_ok.mpr (.inr ⟨unseen, c, d, t, t', got, moved', added, rfl⟩), rfl, here⟩

/-- A reference is moved in the same way when what is not grounded has been cleared. -/
theorem required_stays (i : PoolIndex) :
    Stays old (· = ·) (required old i) (required old.grounded i) := by
  rw [required, required, ConstantPool.slotCount_grounded]
  exact (grounding old).mono (move_stays _ i) fun _ _ h => h.1

/-- The operand of an instruction is moved in the same way. -/
theorem operand_stays (width : OperandWidth) (i : PoolIndex) :
    Stays old (· = ·) (operand old width i) (operand old.grounded width i) := by
  cases width with
  | wide => exact required_stays i
  | narrow =>
    refine (required_stays i).bind fun k _ same => ?_
    subst same
    by_cases small : k < 256
    · simp only [small, if_true]
      exact .pure rfl
    · simp only [small, if_false]
      exact .throw _ _

/-- All that code refers to is moved in the same way. -/
theorem code_stays (bytes : Bytes) :
    Stays old (· = ·) (code old bytes) (code old.grounded bytes) := by
  have each (i : Instruction) :
      Stays old (· = ·) (i.mapRef (operand old)) (i.mapRef (operand old.grounded)) := by
    obtain ⟨opcode, constant, operands⟩ := i
    match constant with
    | none => exact .pure rfl
    | some (width, i) =>
      exact (operand_stays width i).bind fun _ _ same => .pure (by rw [same])
  refine (Stays.liftM _).bind fun is _ same => ?_
  subst same
  refine Stays.bind ((grounding old).mapM_forall₂ is fun i _ => each i) fun js js' same => ?_
  rw [List.forall₂_eq_eq_eq] at same
  exact .pure (by rw [same])

/-- Every reference of a class is moved in the same way. -/
theorem refMap_stays : RefMap.Related (grounding old) (refMap old) (refMap old.grounded)
    (RefMap.id Id PoolIndex Bytes) (RefMap.id Id PoolIndex Bytes) where
  required i := (grounding old).mono (required_stays i) fun _ _ => congrArg pure
  optional i := by
    refine (grounding old).mono (r := (· = ·)) ?_ fun _ _ => congrArg pure
    change Stays old _ (optional old i) (optional old.grounded i)
    unfold optional
    split
    · exact .pure rfl
    · exact required_stays i
  code b := (grounding old).mono (code_stays b) fun _ _ => congrArg pure

/-- What a method loads with one byte is moved in the same way. -/
theorem moveNarrow_stays (method : Member) :
    Stays old (fun _ _ => True) (moveNarrow old method) (moveNarrow old.grounded method) := by
  refine (grounding old).forM (fun a => ?_) method.attributes
  change Stays old _ _ _
  cases a.body with
  | code c =>
    refine (Stays.liftM _).bind fun is _ same => ?_
    subst same
    exact (grounding old).forM (fun i => (required_stays i).bind fun _ _ _ => .pure trivial) is
  | _ => exact .pure trivial

end Renumbering

namespace ClassFile

open ConstantPool

/-- The class over the grounded part of its pool. -/
noncomputable def grounded (c : ClassFile) : ClassFile := { c with pool := c.pool.grounded }

variable {bytes written : Bytes} {c d : ClassFile}

/-- **A class is renumbered over the grounded part of its pool as over the whole.** -/
theorem renumbered_grounded (run : c.renumbered = .ok d) : c.grounded.renumbered = .ok d := by
  rw [renumbered_eq_passes] at run ⊢
  obtain ⟨⟨moved, s⟩, pass, same⟩ := bind_eq_ok.mp run
  have walk : Renumbering.Stays c.pool (· = ·) c.passes c.grounded.passes := by
    refine Renumbering.Stays.bind (Simulation.forM (Renumbering.grounding c.pool)
      Renumbering.moveNarrow_stays c.methods) fun _ _ _ => ?_
    have whole := ClassOf.mapRefs_related (@Renumbering.refMap_stays c.pool) c.toClassOf
    simp only [ClassOf.mapRefs_pure] at whole
    exact whole
  have start : Renumbering.start.OnGround c.pool := fun i k found => by
    simp [Renumbering.start] at found
  obtain ⟨_, _, pass', rfl⟩ := walk _ _ _ start pass
  rw [pass']
  exact same

/-! ## What can be normalized -/

/-- Annotations depend only on constants that refer to nothing. -/
theorem visibleAnnotationsIn_of_leaves {p q : ConstantPool} (leaves : p.KeepsLeaves q) {a : Attribute}
    {r : List AnnotationContent} (h : visibleAnnotationsIn p a = .ok r) :
    visibleAnnotationsIn q a = .ok r := by
  obtain ⟨name, body⟩ := a
  cases body with
  | annotations as =>
    obtain ⟨text, htext, h⟩ := bind_eq_ok.mp h
    obtain ⟨bytes, hbytes, same⟩ := bind_eq_ok.mp htext
    cases same
    have text : Attribute.nameText q ⟨name, .annotations as⟩ = .ok (Utf8.decodeLossy bytes) := by
      rw [Attribute.nameText, leaves.utf8Bytes hbytes]
      rfl
    simp only [visibleAnnotationsIn, text, ok_bind]
    split at h
    · next visible =>
      rw [if_pos visible]
      refine mapM_eq_ok.mpr ((mapM_eq_ok.mp h).imp fun a content => ?_)
      exact AnnotationInfo.resolve_of_leaves leaves
    · next other =>
      rw [if_neg other]
      exact h
  | _ => exact h

/-- A class answers over another pool what it has answered, if that keeps what refers to nothing and
the names of classes. -/
theorem keepsAnswers_of_leaves {q : ConstantPool} (leaves : c.pool.KeepsLeaves q)
    (names : ∀ i name, c.pool.className i = .ok name → q.className i = .ok name) :
    c.KeepsAnswers { c with pool := q } := by
  have named (i : PoolIndex) (name : String)
      (h : (do return ClassName.ofInternal (← c.pool.className i)) = Except.ok name) :
      (do return ClassName.ofInternal (← q.className i)) = Except.ok name := by
    obtain ⟨n, hn, h⟩ := bind_eq_ok.mp h
    rw [names i n hn]
    exact h
  have signed (members : List Member) (r : List (String × String))
      (h : signatures c.pool members = .ok r) : signatures q members = .ok r := by
    refine mapM_eq_ok.mpr ((mapM_eq_ok.mp h).imp fun m s hm => ?_)
    obtain ⟨_, name, hm⟩ := bind_eq_ok.mp hm
    obtain ⟨_, descriptor, hm⟩ := bind_eq_ok.mp hm
    rw [leaves.utf8 name, ok_bind, leaves.utf8 descriptor]
    exact hm
  exact
    { name := fun r h => named c.thisClass r h
      superName := fun r h => by
        rw [superName] at h ⊢
        split
        · next none => rwa [if_pos none] at h
        · next some =>
          rw [if_neg some] at h
          obtain ⟨n, hn, h⟩ := bind_eq_ok.mp h
          rw [names _ n hn]
          exact h
      interfaceNames := fun r h => mapM_eq_ok.mpr ((mapM_eq_ok.mp h).imp fun i n => named i n)
      fieldSignatures := signed c.fields
      methodSignatures := signed c.methods
      visibleAnnotations := fun r h => by
        obtain ⟨rs, hrs, h⟩ := bind_eq_ok.mp h
        have kept : c.attributes.mapM (visibleAnnotationsIn q) = .ok rs :=
          mapM_eq_ok.mpr ((mapM_eq_ok.mp hrs).imp fun a r ha => visibleAnnotationsIn_of_leaves leaves ha)
        rw [visibleAnnotations, kept]
        exact h }

/-- A constant that refers to nothing is grounded. -/
theorem grounded_of_leaf {pool : ConstantPool} {i : PoolIndex} {k : Constant} (h : pool.get i = .ok k)
    (leaf : k.refs = []) : pool.Grounded i :=
  ⟨h, by rw [leaf]; exact fun _ => nofun⟩

/-- Clearing slots keeps the constants that refer to nothing. -/
theorem keepsLeaves_grounded (pool : ConstantPool) : pool.KeepsLeaves pool.grounded :=
  fun i c hc leaf => by rw [get_grounded (grounded_of_leaf hc leaf), hc]

/-- What is left stands where it has been. -/
theorem grounded_le (pool : ConstantPool) : pool.grounded ≤ pool :=
  fun _ _ found => (get_grounded_eq_ok.mp found).2

/-- A class answers over the grounded part of its pool what it answers over the whole. -/
theorem keepsAnswers_grounded (c : ClassFile) : c.KeepsAnswers c.grounded := by
  refine keepsAnswers_of_leaves (keepsLeaves_grounded c.pool) fun i name found => ?_
  obtain ⟨k, hk, found⟩ := bind_eq_ok.mp found
  cases k with
  | classInfo j =>
    obtain ⟨bytes, text, _⟩ := bind_eq_ok.mp found
    obtain ⟨t, ht, text⟩ := bind_eq_ok.mp text
    have inside : c.pool.Grounded j := grounded_of_leaf ht (by cases t <;> first | rfl | cases text)
    have here : c.pool.Grounded i := ⟨hk, List.forall_mem_singleton.mpr inside⟩
    rw [className, get_grounded here, hk]
    exact (keepsLeaves_grounded c.pool).utf8 found
  | _ => cases found

/-- Clearing slots does not change which names are those of debug attributes. -/
theorem isDebugName_grounded (pool : ConstantPool) : pool.grounded.isDebugName = pool.isDebugName := by
  funext i
  unfold isDebugName
  cases text : pool.utf8Bytes i with
  | ok bytes => rw [(keepsLeaves_grounded pool).utf8Bytes text]
  | error e =>
    cases text' : pool.grounded.utf8Bytes i with
    | ok bytes =>
      rw [utf8Bytes_of_le (grounded_le pool) text'] at text
      cases text
    | error e' => rfl

/-- Debug attributes can be deleted before slots are cleared or afterwards. -/
theorem debugFree_grounded (c : ClassFile) : c.grounded.debugFree = c.debugFree.grounded := by
  rw [debugFree, grounded, isDebugName_grounded]
  rfl

/-- A name that is known stays known. -/
theorem named_grounded {a : Attribute} (named : Attribute.Named c.pool a) :
    Attribute.Named c.pool.grounded a := by
  obtain ⟨⟨text, found, kind⟩, placed⟩ := named
  exact ⟨⟨text, (keepsLeaves_grounded c.pool).utf8 found, kind⟩, placed⟩

/-- **What is normalized is a class, before and after**, and it answers afterwards what it has
answered before. -/
theorem exists_of_normalize (run : normalize bytes = .ok written) :
    ∃ c d, parse bytes = .ok c ∧ parse written = .ok d ∧ c.KeepsAnswers d := by
  obtain ⟨c, parsed, _⟩ := bind_eq_ok.mp run
  rw [normalize_eq parsed] at run
  obtain ⟨d, renumbered, toBytes⟩ := bind_eq_ok.mp run
  have renumbered := renumbered_grounded renumbered
  rw [← debugFree_grounded] at renumbered
  have named : ∀ a ∈ c.grounded.all, Attribute.Named c.grounded.pool a :=
    fun a mem => named_grounded (named_of_parse parsed a mem)
  obtain ⟨v, normal⟩ := normal_of_named named (acyclic_grounded c.pool) renumbered
  refine ⟨c, d, parsed, parse_of_toBytes normal.built normal.named toBytes, ?_⟩
  exact (keepsAnswers_grounded c).trans ((keepsAnswers_debugFree _).trans
    (keepsAnswers_of_view (c := c.grounded.debugFree) (acyclic_grounded c.pool) normal.acyclic
      normal.before normal.after))

end ClassFile

end ProcessorBench
