import ProcessorBench.Proofs.Bytecode
import ProcessorBench.Proofs.Interning

/-!
# Giving a view a pool

`ClassView.numbered` writes a view as a class over a new pool: every tree is interned where it is
met, and before that those that the code of methods loads with one byte. It knows of no old pool, so
what it gives depends on the view alone. What it writes says what the view says:
`numbered_restores`.
-/

namespace ProcessorBench

/-! ## The walk -/

/-- The index of a tree that has to be there. -/
def internRequired : Option ConstantTree → Interning PoolIndex
  | some t => t.intern
  | none => throw none

/-- The index of a tree, 0 where there is none. -/
def internOptional : Option ConstantTree → Interning PoolIndex
  | some t => t.intern
  | none => pure 0

/-- The index of an operand, which has to fit it. -/
def internOperand : OperandWidth → ConstantTree → Interning PoolIndex
  | .wide, t => t.intern
  | .narrow, t => do
    let k ← t.intern
    unless k < 256 do throw (some .renumberedLoadOperand)
    return k

/-- The code array of a run of instructions over trees. -/
def internCode (v : CodeView) : Interning Bytes :=
  return Bytecode.encode (← v.mapM (·.mapRef internOperand))

/-- Interning as a map of references. -/
def internMap : RefMap Interning (Option ConstantTree) PoolIndex CodeView Bytes where
  required := internRequired
  optional := internOptional
  code := internCode

/-- The constant that an instruction loads with one byte, if it does. -/
def InstructionOf.narrow? {ι : Type} (i : InstructionOf ι) : Option ι :=
  match i.constant with
  | some (.narrow, index) => some index
  | _ => none

/-- What a run of instructions loads with one byte, in order. -/
def CodeView.narrow (v : CodeView) : List ConstantTree := v.filterMap (·.narrow?)

/-- Intern what a method's code loads with one byte. -/
def internNarrow (method : MemberOf (Option ConstantTree) CodeView) : Interning Unit :=
  method.attributes.forM fun a =>
    match a.body with
    | .code c => c.code.narrow.forM fun t => discard t.intern
    | _ => pure ()

/-- **The class over a new pool that a view is written as**. -/
def ClassView.numbered (v : ClassView) : Interning (ClassOf PoolIndex Bytes) := do
  v.methods.forM internNarrow
  v.mapRefs internMap

/-! ## What it writes -/

section
variable {f : PoolBuilder}

/-- An index that leads to a tree is viewed as that tree. -/
theorem ConstantPool.requiredView_of_tree {pool : ConstantPool} {k : PoolIndex} {t : ConstantTree}
    (h : pool.tree k = .ok t) : pool.requiredView k = .ok (some t) := by
  rw [requiredView, h]
  rfl

/-- An index that may be missing is viewed as the tree that it leads to, since nothing stands in slot 0. -/
theorem ConstantPool.optionalView_of_tree {pool : ConstantPool} (zero : ∀ c, pool.get 0 ≠ .ok c)
    (acyclic : pool.Acyclic) {k : PoolIndex} {t : ConstantTree} (h : pool.tree k = .ok t) :
    pool.optionalView k = .ok (some t) := by
  have nonzero : k ≠ 0 := by
    rintro rfl
    obtain ⟨c, hc, _⟩ := acyclic.tree_eq_ok.mp h
    exact zero c hc
  rw [optionalView, if_neg nonzero, requiredView_of_tree h]

/-- What is restored may be told by anything that follows from it. -/
theorem Restores.of_pure {F : ConstantPool} {α β γ : Type} {r : α → β → Prop} {q : α → γ → Prop}
    {x : Interning α} {w : β} {w' : γ} (h : Restores F r x (pure w)) (imp : ∀ a, r a w → q a w') :
    Restores F q x (pure w') where
  ok b a b' hb run := by
    obtain ⟨hb', grown, _, same, there⟩ := h.ok b a b' hb run
    cases same
    exact ⟨hb', grown, w', rfl, fun below => imp a (there below)⟩
  none b hb run := by
    obtain ⟨e, he⟩ := h.none b hb run
    cases he

/-- Adding the operand of an instruction gives an index that leads back to it, and fits. -/
theorem internOperand_restores (hf : f.Sound) (width : OperandWidth) (t : ConstantTree) :
    Restores f.pool (fun k t' => f.pool.tree k = .ok t' ∧ (width = .narrow → k < 256))
      (internOperand width t) (pure t) := by
  have interned := t.intern_restores hf.acyclic
  cases width with
  | wide => exact Restores.of_pure interned fun k there => ⟨there, nofun⟩
  | narrow =>
    have checked : ∀ (k : PoolIndex) (t : ConstantTree), Restores f.pool
        (fun k' t' => f.pool.tree k = .ok t → f.pool.tree k' = .ok t' ∧
          (OperandWidth.narrow = .narrow → k' < 256))
        (do unless k < 256 do throw (some .renumberedLoadOperand)
            return k) (pure t) := by
      intro k t
      by_cases small : k < 256
      · simp only [small, if_true]
        exact (restoring f.pool).pure fun there => ⟨there, fun _ => small⟩
      · simp only [small, if_false]
        exact { ok := fun b a b' _ run => by cases run
                none := fun b _ run => by cases run }
    exact (restoring f.pool).bind_pure pure interned checked

/-- An instruction over trees becomes one of the same form whose reference fits. -/
theorem mapRef_internOperand_restores (hf : f.Sound) (i : InstructionOf ConstantTree) :
    Restores f.pool (fun j i' => Instruction.Fits j ∧ i'.SameForm j ∧
      j.mapRef (fun _ index => f.pool.tree index) = .ok i') (i.mapRef internOperand) (pure i) := by
  obtain ⟨opcode, constant, operands⟩ := i
  match constant with
  | none => exact (restoring f.pool).pure ⟨nofun, ⟨rfl, rfl, rfl⟩, rfl⟩
  | some (width, t) =>
    refine (restoring f.pool).bind_pure
      (fun t => pure (⟨opcode, some (width, t), operands⟩ : InstructionOf ConstantTree))
      (internOperand_restores hf width t) fun k t' => (restoring f.pool).pure ?_
    rintro ⟨there, fits⟩
    refine ⟨?_, ⟨rfl, rfl, rfl⟩, ?_⟩
    · rintro _ ⟨⟩
      exact fits rfl
    · simp only [InstructionOf.mapRef, there, ok_bind]
      rfl

/-- Replacing the reference of an instruction leaves its form. -/
theorem sameForm_of_mapRef {ε ι κ : Type} {g : OperandWidth → ι → Except ε κ} {i : InstructionOf ι}
    {j : InstructionOf κ} (h : i.mapRef g = .ok j) : i.SameForm j := by
  obtain ⟨opcode, constant, operands⟩ := i
  match constant with
  | none => cases h; exact ⟨rfl, rfl, rfl⟩
  | some (width, index) =>
    obtain ⟨k, _, h⟩ := bind_eq_ok.mp h
    cases h
    exact ⟨rfl, rfl, rfl⟩

/-- Forms that are the same as a third one are the same. -/
theorem InstructionOf.SameForm.trans {ι κ τ : Type} {i : InstructionOf ι} {j : InstructionOf κ}
    {k : InstructionOf τ} (h : i.SameForm j) (h' : j.SameForm k) : i.SameForm k :=
  ⟨h.opcode.trans h'.opcode, h.width.trans h'.width, h.operands.trans h'.operands⟩

/-- A code array over a new pool is cut where the old one was, and its operands lead to the same
trees. -/
theorem internCode_restores (hf : f.Sound) {old : ConstantPool} {code : Bytes} {v : CodeView}
    (h : old.codeView code = .ok v) :
    Restores f.pool (fun code' v' => f.pool.codeView code' = .ok v') (internCode v) (pure v) := by
  obtain ⟨instructions, decoded, views⟩ := bind_eq_ok.mp h
  have interned := (restoring f.pool).mapM_forall₂ v fun i _ => mapRef_internOperand_restores hf i
  rw [mapM_pure_self] at interned
  have encoded : Restores f.pool (fun code' v' => ∃ is, code' = Bytecode.encode is ∧
      List.Forall₂ (fun j i' => Instruction.Fits j ∧ i'.SameForm j ∧
        j.mapRef (fun _ index => f.pool.tree index) = .ok i') is v') (internCode v) (pure v) :=
    (restoring f.pool).bind_pure pure interned fun is v' =>
      (restoring f.pool).pure fun all => ⟨is, rfl, all⟩
  refine Restores.of_pure (w := v) encoded ?_
  rintro _ ⟨is, rfl, all⟩
  obtain ⟨fits, all⟩ := (List.forall₂_and_left _ _).mp all
  have form : List.Forall₂ InstructionOf.SameForm instructions is := by
    refine forall₂_trans (fun _ _ _ h h' => ?_) (mapM_eq_ok.mp views) (List.Forall₂.flip all)
    exact (sameForm_of_mapRef h).trans h'.1
  rw [ConstantPool.codeView, Bytecode.decode, Bytecode.decodeFrom_encode decoded form fits, ok_bind,
    mapM_eq_ok]
  exact all.imp fun _ _ h => h.2

/-- **What a view is written as says what the view says**, step by step. -/
theorem internMap_restores (hf : f.Sound) (old : ConstantPool) :
    RefMap.Related (restoring f.pool) (old.viewMap.andThen resolve internMap) old.viewMap
      f.pool.viewMap (RefMap.id (Except ClassError) (Option ConstantTree) CodeView) where
  required i := Restores.resolve fun w hw => by
    obtain ⟨t, _, hw⟩ := bind_eq_ok.mp hw
    cases hw
    exact Restores.of_pure (t.intern_restores hf.acyclic) fun k => ConstantPool.requiredView_of_tree
  optional i := Restores.resolve fun w hw => by
    change old.optionalView i = .ok w at hw
    unfold ConstantPool.optionalView at hw
    split at hw
    · cases hw
      exact (restoring f.pool).pure rfl
    · obtain ⟨t, _, hw⟩ := bind_eq_ok.mp hw
      cases hw
      exact Restores.of_pure (t.intern_restores hf.acyclic) fun k =>
        ConstantPool.optionalView_of_tree hf.get_zero hf.acyclic
  code b := Restores.resolve fun v hv => internCode_restores hf hv

end

end ProcessorBench
