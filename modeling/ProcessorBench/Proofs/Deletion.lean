import ProcessorBench.Proofs.SameView

/-!
# Deleting and replacing

Attributes can be deleted before their references are replaced or after, if it can be told from what
a name is replaced by whether it is to be deleted. So the view of a class without its debug
attributes is its view without them.
-/

namespace ProcessorBench

section
variable {ε ι κ β γ : Type} {f : RefMap (Except ε) ι κ β γ} {p : ι → Bool} {q : κ → Bool}

mutual

/-- References within a body can be replaced before attributes are deleted or afterwards, if the names that are
deleted correspond. -/
theorem AttributeBodyOf.mapRefs_without (agree : ∀ i k, f.required i = .ok k → p i = q k) :
    ∀ {x : AttributeBodyOf ι β} {y : AttributeBodyOf κ γ}, x.mapRefs f = .ok y →
      (x.without p).mapRefs f = .ok (y.without q)
  | .code c, y, h => by
    rw [AttributeBodyOf.mapRefs] at h
    obtain ⟨d, hd, h⟩ := bind_eq_ok.mp h
    cases h
    rw [AttributeBodyOf.without, AttributeBodyOf.mapRefs, CodeOf.mapRefs_without agree hd]
    rfl
  | .record cs, y, h => by
    rw [AttributeBodyOf.mapRefs] at h
    obtain ⟨ds, hds, h⟩ := bind_eq_ok.mp h
    cases h
    rw [AttributeBodyOf.without, AttributeBodyOf.mapRefs,
      RecordComponentOf.mapRefsList_without agree hds]
    rfl
  | .constantValue _, y, h | .exceptions _, y, h | .signature _, y, h | .sourceFile _, y, h
  | .innerClasses _, y, h | .enclosingMethod _ _, y, h | .nestHost _, y, h | .nestMembers _, y, h
  | .permittedSubclasses _, y, h | .bootstrapMethods _, y, h | .annotationDefault _, y, h
  | .annotations _, y, h | .parameterAnnotations _, y, h | .typeAnnotations _, y, h | .marker, y, h
  | .raw _, y, h => by
    have kind := AttributeBodyOf.kind_of_mapRefs h
    have same : y.without q = y := by
      cases y <;> first | rfl | cases kind
    rw [same]
    exact h

/-- References of attributes can be replaced before some are deleted or afterwards. -/
theorem AttributeOf.mapRefsList_without (agree : ∀ i k, f.required i = .ok k → p i = q k) :
    ∀ {xs : List (AttributeOf ι β)} {ys : List (AttributeOf κ γ)},
      AttributeOf.mapRefsList f xs = .ok ys →
      AttributeOf.mapRefsList f (AttributeOf.withoutList p xs) = .ok (AttributeOf.withoutList q ys)
  | [], ys, h => by
    cases h
    rfl
  | ⟨name, body⟩ :: xs, ys, h => by
    rw [AttributeOf.mapRefsList, AttributeOf.mapRefs] at h
    obtain ⟨_, first, h⟩ := bind_eq_ok.mp h
    obtain ⟨_, hname, first⟩ := bind_eq_ok.mp first
    obtain ⟨_, hbody, first⟩ := bind_eq_ok.mp first
    cases first
    obtain ⟨_, hxs, h⟩ := bind_eq_ok.mp h
    cases h
    have rest := AttributeOf.mapRefsList_without agree hxs
    rw [AttributeOf.withoutList, AttributeOf.withoutList, agree _ _ hname]
    split
    · exact rest
    · rw [AttributeOf.mapRefsList, AttributeOf.mapRefs, hname,
        AttributeBodyOf.mapRefs_without agree hbody, rest]
      rfl

/-- References of code can be replaced before attributes are deleted or afterwards. -/
theorem CodeOf.mapRefs_without (agree : ∀ i k, f.required i = .ok k → p i = q k) :
    ∀ {x : CodeOf ι β} {y : CodeOf κ γ}, x.mapRefs f = .ok y →
      (x.without p).mapRefs f = .ok (y.without q)
  | ⟨_, _, _, _, attributes⟩, y, h => by
    rw [CodeOf.mapRefs] at h
    obtain ⟨_, hcode, h⟩ := bind_eq_ok.mp h
    obtain ⟨_, hhandlers, h⟩ := bind_eq_ok.mp h
    obtain ⟨_, hattributes, h⟩ := bind_eq_ok.mp h
    cases h
    rw [CodeOf.without, CodeOf.mapRefs, hcode, ok_bind, hhandlers, ok_bind,
      AttributeOf.mapRefsList_without agree hattributes]
    rfl

/-- References of components of a record can be replaced before attributes are deleted or afterwards. -/
theorem RecordComponentOf.mapRefsList_without (agree : ∀ i k, f.required i = .ok k → p i = q k) :
    ∀ {xs : List (RecordComponentOf ι β)} {ys : List (RecordComponentOf κ γ)},
      RecordComponentOf.mapRefsList f xs = .ok ys →
      RecordComponentOf.mapRefsList f (RecordComponentOf.withoutList p xs) =
        .ok (RecordComponentOf.withoutList q ys)
  | [], ys, h => by
    cases h
    rfl
  | ⟨name, descriptor, attributes⟩ :: xs, ys, h => by
    rw [RecordComponentOf.mapRefsList, RecordComponentOf.mapRefs] at h
    obtain ⟨_, first, h⟩ := bind_eq_ok.mp h
    obtain ⟨_, hname, first⟩ := bind_eq_ok.mp first
    obtain ⟨_, hdescriptor, first⟩ := bind_eq_ok.mp first
    obtain ⟨_, hattributes, first⟩ := bind_eq_ok.mp first
    cases first
    obtain ⟨_, hxs, h⟩ := bind_eq_ok.mp h
    cases h
    rw [RecordComponentOf.withoutList, RecordComponentOf.mapRefsList, RecordComponentOf.mapRefs, hname,
      ok_bind, hdescriptor, ok_bind, AttributeOf.mapRefsList_without agree hattributes,
      RecordComponentOf.mapRefsList_without agree hxs]
    rfl

end

/-- References of members can be replaced before attributes are deleted or afterwards. -/
theorem MemberOf.mapRefs_without (agree : ∀ i k, f.required i = .ok k → p i = q k)
    {xs : List (MemberOf ι β)} {ys : List (MemberOf κ γ)} (h : xs.mapM (·.mapRefs f) = .ok ys) :
    (xs.map (·.without p)).mapM (·.mapRefs f) = .ok (ys.map (·.without q)) := by
  rw [mapM_eq_ok] at h ⊢
  rw [List.forall₂_map_left_iff, List.forall₂_map_right_iff]
  refine h.imp fun x y hxy => ?_
  obtain ⟨_, hname, hxy⟩ := bind_eq_ok.mp hxy
  obtain ⟨_, hdescriptor, hxy⟩ := bind_eq_ok.mp hxy
  obtain ⟨_, hattributes, hxy⟩ := bind_eq_ok.mp hxy
  cases hxy
  rw [MemberOf.mapRefs, MemberOf.without, hname, ok_bind, hdescriptor, ok_bind,
    AttributeOf.mapRefsList_without agree hattributes]
  rfl

/-- **Attributes can be deleted before references are replaced or after.** -/
theorem ClassOf.mapRefs_without (agree : ∀ i k, f.required i = .ok k → p i = q k) {c : ClassOf ι β}
    {d : ClassOf κ γ} (h : c.mapRefs f = .ok d) : (c.without p).mapRefs f = .ok (d.without q) := by
  obtain ⟨_, hthis, h⟩ := bind_eq_ok.mp h
  obtain ⟨_, hsuper, h⟩ := bind_eq_ok.mp h
  obtain ⟨_, hinterfaces, h⟩ := bind_eq_ok.mp h
  obtain ⟨_, hfields, h⟩ := bind_eq_ok.mp h
  obtain ⟨_, hmethods, h⟩ := bind_eq_ok.mp h
  obtain ⟨_, hattributes, h⟩ := bind_eq_ok.mp h
  cases h
  rw [mapRefs, without, hthis, ok_bind, hsuper, ok_bind, hinterfaces, ok_bind,
    MemberOf.mapRefs_without agree hfields, ok_bind, MemberOf.mapRefs_without agree hmethods, ok_bind,
    AttributeOf.mapRefsList_without agree hattributes]
  rfl

end

/-- Whether what a name is replaced by in a view is the name of a debug attribute. -/
def isDebugView (name : Option ConstantTree) : Bool := name.any (·.isDebugName)

/-- A view without the debug attributes, at every depth. -/
def ClassView.debugFree (v : ClassView) : ClassView := v.without isDebugView

/-- **The view of a class without its debug attributes is its view without them.** -/
theorem ClassFile.view_debugFree {c : ClassFile} {v : ClassView} (acyclic : c.pool.Acyclic)
    (h : c.view = .ok v) : c.debugFree.view = .ok v.debugFree :=
  ClassOf.mapRefs_without (fun i k hk => by
    obtain ⟨t, ht, same⟩ := bind_eq_ok.mp hk
    cases same
    rw [ConstantPool.isDebugName_eq acyclic ht]
    rfl) h

end ProcessorBench
