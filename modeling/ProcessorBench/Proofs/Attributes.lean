import ProcessorBench.Proofs.Steps
import ProcessorBench.ClassFile.References

/-!
# Attributes at every depth

The attributes of a class hold attributes. `ClassOf.all` lists them, each before those inside it,
and what is said of all of them is said of the members of that list. Replacing references keeps the
list: `all_of_mapRefs` relates it member by member.
-/

namespace ProcessorBench

section
variable {ι β : Type}

mutual

/-- The attributes inside a body, at every depth. -/
def AttributeBodyOf.all : AttributeBodyOf ι β → List (AttributeOf ι β)
  | .code code => code.all
  | .record components => RecordComponentOf.allList components
  | _ => []

/-- An attribute and those inside it, at every depth. -/
def AttributeOf.all : AttributeOf ι β → List (AttributeOf ι β)
  | ⟨name, body⟩ => ⟨name, body⟩ :: body.all

/-- Some attributes and those inside them, at every depth. -/
def AttributeOf.allList : List (AttributeOf ι β) → List (AttributeOf ι β)
  | [] => []
  | a :: attributes => a.all ++ AttributeOf.allList attributes

/-- The attributes of a method's code, at every depth. -/
def CodeOf.all : CodeOf ι β → List (AttributeOf ι β)
  | ⟨_, _, _, _, attributes⟩ => AttributeOf.allList attributes

/-- The attributes of some record components, at every depth. -/
def RecordComponentOf.allList : List (RecordComponentOf ι β) → List (AttributeOf ι β)
  | [] => []
  | ⟨_, _, attributes⟩ :: components =>
    AttributeOf.allList attributes ++ RecordComponentOf.allList components

end

/-- The attributes of a class, at every depth. -/
def ClassOf.all (c : ClassOf ι β) : List (AttributeOf ι β) :=
  c.fields.flatMap (AttributeOf.allList ·.attributes) ++
    (c.methods.flatMap (AttributeOf.allList ·.attributes) ++ AttributeOf.allList c.attributes)

/-- All attributes within some are those within each of them. -/
theorem AttributeOf.allList_eq (as : List (AttributeOf ι β)) : allList as = as.flatMap all := by
  induction as with
  | nil => rfl
  | cons a as ih => rw [allList, ih, List.flatMap_cons]

/-- All attributes within components of a record are those within each of them. -/
theorem RecordComponentOf.allList_eq (cs : List (RecordComponentOf ι β)) :
    allList cs = cs.flatMap fun c => AttributeOf.allList c.attributes := by
  induction cs with
  | nil => rfl
  | cons c cs ih =>
    obtain ⟨name, descriptor, attributes⟩ := c
    rw [allList, ih, List.flatMap_cons]

end

section
variable {ε ι κ β γ : Type} {f : RefMap (Except ε) ι κ β γ}

mutual

/-- Replacing the references of a body replaces those of each attribute within it. -/
theorem AttributeBodyOf.all_of_mapRefs : ∀ {x : AttributeBodyOf ι β} {y : AttributeBodyOf κ γ},
    x.mapRefs f = .ok y → List.Forall₂ (fun a b => a.mapRefs f = .ok b) x.all y.all
  | .code c, y, h => by
    rw [AttributeBodyOf.mapRefs] at h
    obtain ⟨d, hd, h⟩ := bind_eq_ok.mp h
    cases h
    exact CodeOf.all_of_mapRefs hd
  | .record cs, y, h => by
    rw [AttributeBodyOf.mapRefs] at h
    obtain ⟨ds, hds, h⟩ := bind_eq_ok.mp h
    cases h
    exact RecordComponentOf.allList_of_mapRefs hds
  | .constantValue _, y, h | .exceptions _, y, h | .signature _, y, h | .sourceFile _, y, h
  | .innerClasses _, y, h | .nestHost _, y, h | .nestMembers _, y, h
  | .permittedSubclasses _, y, h | .bootstrapMethods _, y, h | .annotationDefault _, y, h
  | .annotations _, y, h | .parameterAnnotations _, y, h | .typeAnnotations _, y, h => by
    rw [AttributeBodyOf.mapRefs] at h
    obtain ⟨_, _, h⟩ := bind_eq_ok.mp h
    cases h
    exact .nil
  | .enclosingMethod _ _, y, h => by
    rw [AttributeBodyOf.mapRefs] at h
    obtain ⟨_, _, h⟩ := bind_eq_ok.mp h
    obtain ⟨_, _, h⟩ := bind_eq_ok.mp h
    cases h
    exact .nil
  | .marker, y, h | .raw _, y, h => by
    rw [AttributeBodyOf.mapRefs] at h
    cases h
    exact .nil

/-- Replacing the references of an attribute replaces those of each attribute within it. -/
theorem AttributeOf.all_of_mapRefs : ∀ {x : AttributeOf ι β} {y : AttributeOf κ γ},
    x.mapRefs f = .ok y → List.Forall₂ (fun a b => a.mapRefs f = .ok b) x.all y.all
  | ⟨name, body⟩, y, h => by
    have whole := h
    rw [AttributeOf.mapRefs] at h
    obtain ⟨_, _, h⟩ := bind_eq_ok.mp h
    obtain ⟨_, hbody, h⟩ := bind_eq_ok.mp h
    cases h
    exact .cons whole (AttributeBodyOf.all_of_mapRefs hbody)

/-- Replacing the references of attributes replaces those of each attribute within them. -/
theorem AttributeOf.allList_of_mapRefs : ∀ {xs : List (AttributeOf ι β)} {ys : List (AttributeOf κ γ)},
    AttributeOf.mapRefsList f xs = .ok ys →
      List.Forall₂ (fun a b => a.mapRefs f = .ok b) (AttributeOf.allList xs) (AttributeOf.allList ys)
  | [], ys, h => by
    cases h
    exact .nil
  | x :: xs, ys, h => by
    rw [AttributeOf.mapRefsList] at h
    obtain ⟨_, hx, h⟩ := bind_eq_ok.mp h
    obtain ⟨_, hxs, h⟩ := bind_eq_ok.mp h
    cases h
    exact List.rel_append (AttributeOf.all_of_mapRefs hx) (AttributeOf.allList_of_mapRefs hxs)

/-- Replacing the references of code replaces those of each attribute within it. -/
theorem CodeOf.all_of_mapRefs : ∀ {x : CodeOf ι β} {y : CodeOf κ γ},
    x.mapRefs f = .ok y → List.Forall₂ (fun a b => a.mapRefs f = .ok b) x.all y.all
  | ⟨_, _, _, _, attributes⟩, y, h => by
    rw [CodeOf.mapRefs] at h
    obtain ⟨_, _, h⟩ := bind_eq_ok.mp h
    obtain ⟨_, _, h⟩ := bind_eq_ok.mp h
    obtain ⟨_, hattributes, h⟩ := bind_eq_ok.mp h
    cases h
    exact AttributeOf.allList_of_mapRefs hattributes

/-- Replacing the references of components of a record replaces those of each attribute within them. -/
theorem RecordComponentOf.allList_of_mapRefs : ∀ {xs : List (RecordComponentOf ι β)}
    {ys : List (RecordComponentOf κ γ)}, RecordComponentOf.mapRefsList f xs = .ok ys →
      List.Forall₂ (fun a b => a.mapRefs f = .ok b) (RecordComponentOf.allList xs)
        (RecordComponentOf.allList ys)
  | [], ys, h => by
    cases h
    exact .nil
  | ⟨name, descriptor, attributes⟩ :: xs, ys, h => by
    rw [RecordComponentOf.mapRefsList, RecordComponentOf.mapRefs] at h
    obtain ⟨_, hx, h⟩ := bind_eq_ok.mp h
    obtain ⟨_, hxs, h⟩ := bind_eq_ok.mp h
    cases h
    obtain ⟨_, _, hx⟩ := bind_eq_ok.mp hx
    obtain ⟨_, _, hx⟩ := bind_eq_ok.mp hx
    obtain ⟨_, hattributes, hx⟩ := bind_eq_ok.mp hx
    cases hx
    exact List.rel_append (AttributeOf.allList_of_mapRefs hattributes)
      (RecordComponentOf.allList_of_mapRefs hxs)

end

end

end ProcessorBench
