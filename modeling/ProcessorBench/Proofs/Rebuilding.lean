import ProcessorBench.Proofs.Renumbering

/-!
# A rebuilt class depends on its view

The two passes of `ClassFile.renumbered`, the loads with one byte and then the class, side by side
with those of `ClassView.numbered`. So a class over a pool without cycles is rebuilt to what its
view determines (`renumbered_eq`), and what it is rebuilt to has the same view
(`view_of_renumbered`).
-/

namespace ProcessorBench

/-! ## What the references of an attribute are replaced in -/

section
variable {ε ι κ β γ : Type} {f : RefMap (Except ε) ι κ β γ}

/-- The references of attributes are replaced one attribute after the other. -/
theorem AttributeOf.mapRefsList_eq {m : Type → Type} [Monad m] [LawfulMonad m] (f : RefMap m ι κ β γ)
    (as : List (AttributeOf ι β)) : mapRefsList f as = as.mapM (·.mapRefs f) := by
  induction as with
  | nil => rfl
  | cons a as ih => rw [mapRefsList, List.mapM_cons, ih]

/-- Replacing references keeps the layout of a body. -/
theorem AttributeBodyOf.kind_of_mapRefs {body : AttributeBodyOf ι β} {body' : AttributeBodyOf κ γ}
    (h : body.mapRefs f = .ok body') : body'.kind = body.kind := by
  cases body <;> rw [mapRefs] at h
  case marker | raw => cases h; rfl
  case enclosingMethod =>
    obtain ⟨_, _, h⟩ := bind_eq_ok.mp h
    obtain ⟨_, _, h⟩ := bind_eq_ok.mp h
    cases h
    rfl
  all_goals
    obtain ⟨_, _, h⟩ := bind_eq_ok.mp h
    cases h
    rfl

/-- Replacing the references of an attribute replaces its name and those of its body. -/
theorem AttributeOf.parts_of_mapRefs {a : AttributeOf ι β} {a' : AttributeOf κ γ}
    (h : a.mapRefs f = .ok a') :
    f.required a.name = .ok a'.name ∧ a.body.mapRefs f = .ok a'.body := by
  obtain ⟨name, body⟩ := a
  rw [mapRefs] at h
  obtain ⟨_, hname, h⟩ := bind_eq_ok.mp h
  obtain ⟨_, hbody, h⟩ := bind_eq_ok.mp h
  cases h
  exact ⟨hname, hbody⟩

/-- Replacing the references of code replaces those of its instructions. -/
theorem CodeOf.code_of_mapRefs {c : CodeOf ι β} {c' : CodeOf κ γ} (h : c.mapRefs f = .ok c') :
    f.code c.code = .ok c'.code := by
  obtain ⟨maxStack, maxLocals, code, handlers, attributes⟩ := c
  rw [mapRefs] at h
  obtain ⟨_, hcode, h⟩ := bind_eq_ok.mp h
  obtain ⟨_, _, h⟩ := bind_eq_ok.mp h
  obtain ⟨_, _, h⟩ := bind_eq_ok.mp h
  cases h
  exact hcode

/-- What replacing the references of a member comes to. -/
theorem MemberOf.parts_of_mapRefs {x : MemberOf ι β} {x' : MemberOf κ γ} (h : x.mapRefs f = .ok x') :
    x'.access = x.access ∧ f.required x.name = .ok x'.name ∧
      f.required x.descriptor = .ok x'.descriptor ∧
      x.attributes.mapM (·.mapRefs f) = .ok x'.attributes := by
  obtain ⟨_, hname, h⟩ := bind_eq_ok.mp h
  obtain ⟨_, hdescriptor, h⟩ := bind_eq_ok.mp h
  obtain ⟨_, hattributes, h⟩ := bind_eq_ok.mp h
  cases h
  exact ⟨rfl, hname, hdescriptor, AttributeOf.mapRefsList_eq f _ ▸ hattributes⟩

/-- What replacing the references of a class comes to. -/
theorem ClassOf.parts_of_mapRefs {c : ClassOf ι β} {d : ClassOf κ γ} (h : c.mapRefs f = .ok d) :
    f.required c.thisClass = .ok d.thisClass ∧ f.optional c.superClass = .ok d.superClass ∧
      c.interfaces.mapM f.required = .ok d.interfaces ∧
      c.fields.mapM (·.mapRefs f) = .ok d.fields ∧ c.methods.mapM (·.mapRefs f) = .ok d.methods ∧
      c.attributes.mapM (·.mapRefs f) = .ok d.attributes := by
  obtain ⟨_, hthis, h⟩ := bind_eq_ok.mp h
  obtain ⟨_, hsuper, h⟩ := bind_eq_ok.mp h
  obtain ⟨_, hinterfaces, h⟩ := bind_eq_ok.mp h
  obtain ⟨_, hfields, h⟩ := bind_eq_ok.mp h
  obtain ⟨_, hmethods, h⟩ := bind_eq_ok.mp h
  obtain ⟨_, hattributes, h⟩ := bind_eq_ok.mp h
  cases h
  exact ⟨hthis, hsuper, hinterfaces, hfields, hmethods,
    AttributeOf.mapRefsList_eq f _ ▸ hattributes⟩

end

/-! ## The loads with one byte -/

/-- Intern what a method's code loads with one byte, looked up in the old pool. -/
def internNarrowOf (old : ConstantPool) (method : Member) : Interning Unit :=
  method.attributes.forM fun a =>
    match a.body with
    | .code c => do
      (← resolve (Bytecode.narrowRefs c.code)).forM fun i =>
        discard (resolve (old.tree i) >>= ConstantTree.intern)
    | _ => pure ()

/-- What code loads with one byte is what its instructions do. -/
theorem narrowRefs_of_decode {code : Bytes} {is : List Instruction}
    (h : Bytecode.decode code = .ok is) :
    Bytecode.narrowRefs code = .ok (is.filterMap (·.narrow?)) := by
  rw [Bytecode.narrowRefs, h]
  refine congrArg Except.ok (congrArg (List.filterMap · is) (funext fun i => ?_))
  obtain ⟨opcode, constant, operands⟩ := i
  match constant with
  | none | some (.narrow, _) | some (.wide, _) => rfl

/-- Moving what a method loads with one byte follows the trees of it. -/
theorem Renumbering.moveNarrow_follows {old : ConstantPool} (h : old.Acyclic) (method : Member) :
    Follows old (fun _ _ => True) (moveNarrow old method) (internNarrowOf old method) := by
  refine (following old).forM (fun a => ?_) method.attributes
  cases a.body with
  | code c =>
    refine (follows_of_except (Bytecode.narrowRefs c.code)).bind fun is _ same => ?_
    subst same
    refine (following old).forM (fun i => ?_) is
    exact (required_follows h i).bind fun _ _ _ => (following old).pure trivial
  | _ => exact (following old).pure trivial

/-- An instruction loads with one byte what its view does. -/
theorem narrow?_of_mapRef {old : ConstantPool} {i : Instruction} {j : InstructionOf ConstantTree}
    (h : i.mapRef (fun _ index => old.tree index) = .ok j) :
    Option.Rel (fun k t => old.tree k = .ok t) i.narrow? j.narrow? := by
  obtain ⟨opcode, constant, operands⟩ := i
  match constant with
  | none =>
    cases h
    exact .none
  | some (.narrow, k) =>
    obtain ⟨t, ht, h⟩ := bind_eq_ok.mp h
    cases h
    exact .some ht
  | some (.wide, k) =>
    obtain ⟨t, ht, h⟩ := bind_eq_ok.mp h
    cases h
    exact .none

/-- What a code array loads with one byte is looked up one by one. -/
theorem narrow_of_codeView {old : ConstantPool} {code : Bytes} {v : CodeView}
    (h : old.codeView code = .ok v) :
    ∃ is, Bytecode.narrowRefs code = .ok is ∧
      List.Forall₂ (fun i t => old.tree i = .ok t) is v.narrow := by
  obtain ⟨is, decoded, views⟩ := bind_eq_ok.mp h
  refine ⟨_, narrowRefs_of_decode decoded, List.rel_filterMap (fun _ _ h => ?_) (mapM_eq_ok.mp views)⟩
  exact narrow?_of_mapRef h

/-- What a code array loads with one byte is what its view does. -/
theorem forM_narrow_eq {old : ConstantPool} {code : Bytes} {v : CodeView}
    (h : old.codeView code = .ok v) :
    (do (← resolve (Bytecode.narrowRefs code)).forM fun i =>
          discard (resolve (old.tree i) >>= ConstantTree.intern)) =
      v.narrow.forM fun t => discard t.intern := by
  obtain ⟨is, refs, loads⟩ := narrow_of_codeView h
  rw [refs]
  show is.forM (fun i => discard (resolve (old.tree i) >>= ConstantTree.intern)) = _
  refine forM_congr (loads.imp fun i t ht => ?_)
  rw [ht]
  rfl

/-- The loads of a method are what the loads of its view are. -/
theorem internNarrow_eq {old : ConstantPool} {method : Member}
    {method' : MemberOf (Option ConstantTree) CodeView}
    (h : method.mapRefs old.viewMap = .ok method') :
    internNarrowOf old method = internNarrow method' := by
  obtain ⟨_, _, _, attributes⟩ := MemberOf.parts_of_mapRefs h
  refine forM_congr ((mapM_eq_ok.mp attributes).imp ?_)
  rintro ⟨name, body⟩ ⟨name', body'⟩ h
  have h := (AttributeOf.parts_of_mapRefs h).2
  have kind := AttributeBodyOf.kind_of_mapRefs h
  cases body with
  | code c =>
    rw [AttributeBodyOf.mapRefs] at h
    obtain ⟨c', hc, h⟩ := bind_eq_ok.mp h
    cases h
    exact forM_narrow_eq (CodeOf.code_of_mapRefs hc)
  | _ => cases body' <;> first | rfl | cases kind

/-! ## Both passes -/

/-- A class over a new pool, its references looked up in the old one. -/
def ClassFile.interned (c : ClassFile) : Interning (ClassOf PoolIndex Bytes) := do
  c.methods.forM (internNarrowOf c.pool)
  c.toClassOf.mapRefs (c.pool.viewMap.andThen resolve internMap)

/-- Adding what a class refers to is numbering its view. -/
theorem ClassFile.interned_eq {c : ClassFile} {v : ClassView} (h : c.view = .ok v) :
    c.interned = v.numbered := by
  obtain ⟨_, _, _, _, methods, _⟩ := ClassOf.parts_of_mapRefs h
  have loads : c.methods.forM (internNarrowOf c.pool) = v.methods.forM internNarrow :=
    forM_congr ((mapM_eq_ok.mp methods).imp fun _ _ h => internNarrow_eq h)
  rw [interned, loads, ← ClassOf.mapRefs_bind resolve (fun _ => rfl) h]
  rfl

/-- The two passes of renumbering. -/
def ClassFile.passes (c : ClassFile) : Renumber (ClassOf PoolIndex Bytes) := do
  c.methods.forM (Renumbering.moveNarrow c.pool)
  c.toClassOf.mapRefs (Renumbering.refMap c.pool)

theorem ClassFile.renumbered_eq_passes (c : ClassFile) :
    c.renumbered = do
      let (moved, r) ← c.passes Renumbering.start
      return { moved with pool := r.target.pool } := rfl

/-- The passes keep in step with those over the trees. -/
theorem ClassFile.passes_follow {c : ClassFile} (h : c.pool.Acyclic) :
    Renumbering.Follows c.pool (fun d d' => d = d') c.passes c.interned := by
  have narrow := (Renumbering.following c.pool).forM (Renumbering.moveNarrow_follows h) c.methods
  have whole := ClassOf.mapRefs_related (Renumbering.refMap_follows h) c.toClassOf
  simp only [ClassOf.mapRefs_pure] at whole
  exact Renumbering.Follows.bind narrow fun _ _ _ => whole

/-- Adding what a method loads with one byte leaves what is there. -/
theorem internNarrow_restores {F : ConstantPool} (hF : F.Acyclic)
    (method : MemberOf (Option ConstantTree) CodeView) :
    Restores F (fun _ _ => True) (internNarrow method) (pure ()) := by
  have load (t : ConstantTree) : Restores F (fun _ _ => True) (discard t.intern) (pure ()) :=
    (restoring F).bind_pure (fun _ => pure ()) (t.intern_restores hF) fun _ _ =>
      (restoring F).pure fun _ => trivial
  refine (restoring F).forM_pure (fun a => ?_) method.attributes
  cases a.body with
  | code c => exact (restoring F).forM_pure load c.code.narrow
  | _ => exact (restoring F).pure trivial

/-- **What a view is written as has the view.** -/
theorem ClassFile.numbered_restores {c : ClassFile} {v : ClassView} (h : c.view = .ok v)
    {f : PoolBuilder} (hf : f.Sound) :
    Restores f.pool (fun d v' => d.mapRefs f.pool.viewMap = .ok v') v.numbered (pure v) := by
  have narrow := (restoring f.pool).forM_pure (internNarrow_restores hf.acyclic) v.methods
  have whole := ClassOf.mapRefs_related (internMap_restores hf c.pool) c.toClassOf
  simp only [ClassOf.mapRefs_pure] at whole
  rw [← ClassOf.mapRefs_bind resolve (fun _ => rfl) h] at whole
  change (restoring f.pool).rel _ _ c.view at whole
  rw [h] at whole
  exact (restoring f.pool).bind_pure (fun _ => pure v) narrow fun _ _ =>
    (restoring f.pool).mono whole fun _ _ there _ => there

/-- What a class is renumbered to, by its view. The last case is met by no view of a class. -/
def ClassView.rebuilt (v : ClassView) : Except ClassError ClassFile :=
  match v.numbered .empty with
  | .ok (moved, b) => .ok { moved with pool := b.pool }
  | .error (some l) => .error (.overflow l)
  | .error none => .error (.badConstantIndex 0)

namespace ClassFile

variable {c d : ClassFile} {v : ClassView}

/-- At the start nothing has been moved. -/
theorem start_consistent (old : ConstantPool) : Renumbering.start.Consistent old where
  sound := PoolBuilder.sound_empty
  seen i k found := by simp [Renumbering.start] at found

/-- **Renumbering depends on the view alone.** -/
theorem renumbered_eq (h : c.pool.Acyclic) (hv : c.view = .ok v) : c.renumbered = v.rebuilt := by
  have walk := passes_follow h Renumbering.start (start_consistent c.pool)
  have restores := (numbered_restores hv PoolBuilder.sound_empty).none .empty PoolBuilder.sound_empty
  rw [interned_eq hv] at walk
  rw [renumbered_eq_passes, ClassView.rebuilt]
  change Renumbering.Outcome _ _ _ (v.numbered .empty) at walk
  generalize v.numbered .empty = ys at walk restores ⊢
  generalize c.passes Renumbering.start = xs at walk ⊢
  cases walk with
  | ok hs same =>
    subst same
    rfl
  | limit l => rfl
  | missing e =>
    obtain ⟨_, he⟩ := restores rfl
    cases he

/-- **Renumbering keeps the view**, and its pool is one that a builder has built. -/
theorem view_of_renumbered (h : c.pool.Acyclic) (run : c.renumbered = .ok d) :
    ∃ v, c.view = .ok v ∧ d.view = .ok v ∧ ∃ b : PoolBuilder, b.Sound ∧ d.pool = b.pool := by
  rw [renumbered_eq_passes] at run
  obtain ⟨⟨moved, s⟩, pass, same⟩ := bind_eq_ok.mp run
  cases same
  obtain ⟨_, s₁, narrow, whole⟩ := stateBind_eq_ok.mp pass
  -- Only the second pass needs the whole view, so only there do both walks have to end well.
  have consistent : s₁.Consistent c.pool := by
    have walk := (Renumbering.following c.pool).forM (Renumbering.moveNarrow_follows h) c.methods
      Renumbering.start (start_consistent c.pool)
    rw [narrow] at walk
    generalize c.methods.forM (internNarrowOf c.pool) Renumbering.start.target = ys at walk
    cases walk with
    | ok hs _ => exact hs
  have walk := ClassOf.mapRefs_related (Renumbering.refMap_follows h) c.toClassOf s₁ consistent
  simp only [ClassOf.mapRefs_pure] at walk
  rw [whole] at walk
  generalize interned : c.toClassOf.mapRefs (c.pool.viewMap.andThen resolve internMap) s₁.target = ys
    at walk
  cases walk with
  | ok hs same =>
    have restores := ClassOf.mapRefs_related (internMap_restores hs.sound c.pool) c.toClassOf
    simp only [ClassOf.mapRefs_pure] at restores
    obtain ⟨_, _, v, hv, there⟩ := restores.ok _ _ _ consistent.sound interned
    cases same
    exact ⟨v, hv, there (ConstantPool.le_refl _), s.target, hs.sound, rfl⟩

end ClassFile

end ProcessorBench
