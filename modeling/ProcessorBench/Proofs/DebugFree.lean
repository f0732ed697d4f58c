import ProcessorBench.ClassFile.Debug
import ProcessorBench.Proofs.ClassCodec

/-!
# Classes without debug attributes

`ClassOf.without` deletes the attributes of some names at every depth and changes nothing else. For
a file that parses, `ClassFile.withoutDebug` is this deletion (`withoutDebug_eq`): every name can be
read, so no attribute is refused. None of the deleted names is left (`all_without`), what is kept is
left if what is deleted holds no attributes (`all_prunes`), and where there is nothing to delete,
nothing is deleted (`without_eq_self`).
-/

namespace ProcessorBench

/-! ## Deleting attributes -/

section
variable {ι β : Type}

mutual

/-- A body without the attributes whose names satisfy `p`, at every depth. -/
def AttributeBodyOf.without (p : ι → Bool) : AttributeBodyOf ι β → AttributeBodyOf ι β
  | .code c => .code (c.without p)
  | .record components => .record (RecordComponentOf.withoutList p components)
  | body => body

/-- A list of attributes without those whose names satisfy `p`, at every depth. -/
def AttributeOf.withoutList (p : ι → Bool) : List (AttributeOf ι β) → List (AttributeOf ι β)
  | [] => []
  | ⟨name, body⟩ :: attributes =>
    if p name then AttributeOf.withoutList p attributes
    else ⟨name, body.without p⟩ :: AttributeOf.withoutList p attributes

/-- A method's code without the attributes whose names satisfy `p`. -/
def CodeOf.without (p : ι → Bool) : CodeOf ι β → CodeOf ι β
  | ⟨maxStack, maxLocals, code, handlers, attributes⟩ =>
    ⟨maxStack, maxLocals, code, handlers, AttributeOf.withoutList p attributes⟩

/-- Record components without the attributes whose names satisfy `p`. -/
def RecordComponentOf.withoutList (p : ι → Bool) :
    List (RecordComponentOf ι β) → List (RecordComponentOf ι β)
  | [] => []
  | ⟨name, descriptor, attributes⟩ :: components =>
    ⟨name, descriptor, AttributeOf.withoutList p attributes⟩ ::
      RecordComponentOf.withoutList p components

end

/-- A member without the attributes whose names satisfy `p`. -/
def MemberOf.without (p : ι → Bool) (m : MemberOf ι β) : MemberOf ι β :=
  { m with attributes := AttributeOf.withoutList p m.attributes }

/-- A class without the attributes whose names satisfy `p`. -/
def ClassOf.without (p : ι → Bool) (c : ClassOf ι β) : ClassOf ι β :=
  { c with
    fields := c.fields.map (·.without p)
    methods := c.methods.map (·.without p)
    attributes := AttributeOf.withoutList p c.attributes }

/-! ## What is left -/

variable {p : ι → Bool}

mutual

/-- What is left within a body has no name that is deleted, and comes from an attribute that was there. -/
theorem AttributeBodyOf.all_without : ∀ (body : AttributeBodyOf ι β), ∀ a ∈ (body.without p).all,
    p a.name = false ∧ ∃ b ∈ body.all, a.name = b.name ∧ a.body = b.body.without p
  | .code c => by
    rw [AttributeBodyOf.without, AttributeBodyOf.all]
    exact CodeOf.all_without c
  | .record components => by
    rw [AttributeBodyOf.without, AttributeBodyOf.all]
    exact RecordComponentOf.allList_without components
  | .constantValue _ | .exceptions _ | .signature _ | .sourceFile _ | .innerClasses _
  | .enclosingMethod _ _ | .nestHost _ | .nestMembers _ | .permittedSubclasses _
  | .bootstrapMethods _ | .annotationDefault _ | .annotations _ | .parameterAnnotations _
  | .typeAnnotations _ | .marker | .raw _ => nofun

/-- An attribute that is left has a name that is kept, and it was there with all it holds. -/
theorem AttributeOf.allList_without : ∀ (as : List (AttributeOf ι β)),
    ∀ a ∈ AttributeOf.allList (AttributeOf.withoutList p as),
      p a.name = false ∧ ∃ b ∈ AttributeOf.allList as, a.name = b.name ∧ a.body = b.body.without p
  | [] => nofun
  | ⟨name, body⟩ :: as => by
    intro a mem
    rw [AttributeOf.withoutList] at mem
    have later : ∀ b ∈ AttributeOf.allList as, b ∈ AttributeOf.allList (⟨name, body⟩ :: as) :=
      fun b hb => List.mem_append_right _ hb
    split at mem
    · obtain ⟨kept, b, hb, same⟩ := AttributeOf.allList_without as a mem
      exact ⟨kept, b, later b hb, same⟩
    · next kept =>
      rw [AttributeOf.allList, AttributeOf.all, List.cons_append, List.mem_cons,
        List.mem_append] at mem
      rcases mem with rfl | mem | mem
      · exact ⟨by simpa using kept, ⟨name, body⟩, by simp [AttributeOf.allList, AttributeOf.all],
          rfl, rfl⟩
      · obtain ⟨kept, b, hb, same⟩ := AttributeBodyOf.all_without body a mem
        exact ⟨kept, b, by simp [AttributeOf.allList, AttributeOf.all, hb], same⟩
      · obtain ⟨kept, b, hb, same⟩ := AttributeOf.allList_without as a mem
        exact ⟨kept, b, later b hb, same⟩

/-- What is left within code has no name that is deleted, and comes from an attribute that was there. -/
theorem CodeOf.all_without : ∀ (c : CodeOf ι β), ∀ a ∈ (c.without p).all,
    p a.name = false ∧ ∃ b ∈ c.all, a.name = b.name ∧ a.body = b.body.without p
  | ⟨_, _, _, _, attributes⟩ => by
    rw [CodeOf.without, CodeOf.all]
    exact AttributeOf.allList_without attributes

/-- What is left within components of a record has no name that is deleted, and comes from what was there. -/
theorem RecordComponentOf.allList_without : ∀ (cs : List (RecordComponentOf ι β)),
    ∀ a ∈ RecordComponentOf.allList (RecordComponentOf.withoutList p cs),
      p a.name = false ∧
        ∃ b ∈ RecordComponentOf.allList cs, a.name = b.name ∧ a.body = b.body.without p
  | [] => nofun
  | ⟨_, _, attributes⟩ :: cs => by
    intro a mem
    rw [RecordComponentOf.withoutList, RecordComponentOf.allList, List.mem_append] at mem
    rcases mem with mem | mem
    · obtain ⟨kept, b, hb, same⟩ := AttributeOf.allList_without attributes a mem
      exact ⟨kept, b, List.mem_append_left _ hb, same⟩
    · obtain ⟨kept, b, hb, same⟩ := RecordComponentOf.allList_without cs a mem
      exact ⟨kept, b, List.mem_append_right _ hb, same⟩

end

/-- **What is left of a class**: attributes whose names are kept, each of them one of the class. -/
theorem ClassOf.all_without {c : ClassOf ι β} {a : AttributeOf ι β} (mem : a ∈ (c.without p).all) :
    p a.name = false ∧ ∃ b ∈ c.all, a.name = b.name ∧ a.body = b.body.without p := by
  simp only [all, without, List.mem_append, List.mem_flatMap, List.mem_map] at mem ⊢
  rcases mem with ⟨_, ⟨m, hm, rfl⟩, ha⟩ | ⟨_, ⟨m, hm, rfl⟩, ha⟩ | ha
  · obtain ⟨kept, b, hb, same⟩ := AttributeOf.allList_without m.attributes a ha
    exact ⟨kept, b, .inl ⟨m, hm, hb⟩, same⟩
  · obtain ⟨kept, b, hb, same⟩ := AttributeOf.allList_without m.attributes a ha
    exact ⟨kept, b, .inr (.inl ⟨m, hm, hb⟩), same⟩
  · obtain ⟨kept, b, hb, same⟩ := AttributeOf.allList_without c.attributes a ha
    exact ⟨kept, b, .inr (.inr hb), same⟩

/-! ## Where leaves are deleted -/

/-- An attribute without those inside it whose names satisfy `p`. -/
def AttributeOf.without (p : ι → Bool) (a : AttributeOf ι β) : AttributeOf ι β := ⟨a.name, a.body.without p⟩

/-- Deleting attributes that hold no others leaves those that are kept, at every depth. -/
def Prunes (p : ι → Bool) (before after : List (AttributeOf ι β)) : Prop :=
  (∀ a ∈ before, p a.name = true → a.body.all = []) →
    after = (before.filter (!p ·.name)).map (·.without p)

/-- Leaves are deleted from two rows if they are from each. -/
theorem Prunes.append {before before' after after' : List (AttributeOf ι β)} (first : Prunes p before after)
    (second : Prunes p before' after') : Prunes p (before ++ before') (after ++ after') := by
  intro leaves
  obtain ⟨leaves, leaves'⟩ := List.forall_mem_append.mp leaves
  rw [List.filter_append, List.map_append, first leaves, second leaves']

mutual

/-- Deleting attributes deletes leaves from all that is within a body. -/
theorem AttributeBodyOf.all_prunes : ∀ (body : AttributeBodyOf ι β), Prunes p body.all (body.without p).all
  | .code c => CodeOf.all_prunes c
  | .record components => RecordComponentOf.allList_prunes components
  | .constantValue _ | .exceptions _ | .signature _ | .sourceFile _ | .innerClasses _
  | .enclosingMethod _ _ | .nestHost _ | .nestMembers _ | .permittedSubclasses _
  | .bootstrapMethods _ | .annotationDefault _ | .annotations _ | .parameterAnnotations _
  | .typeAnnotations _ | .marker | .raw _ => fun _ => rfl

/-- Deleting attributes deletes leaves from all that is within a row of them. -/
theorem AttributeOf.allList_prunes : ∀ (as : List (AttributeOf ι β)),
    Prunes p (AttributeOf.allList as) (AttributeOf.allList (AttributeOf.withoutList p as))
  | [] => fun _ => rfl
  | ⟨name, body⟩ :: as => by
    intro leaves
    rw [AttributeOf.allList, AttributeOf.all, List.cons_append, List.forall_mem_cons] at leaves
    obtain ⟨leaf, leaves⟩ := leaves
    have inside := (AttributeBodyOf.all_prunes body).append (AttributeOf.allList_prunes as) leaves
    rw [AttributeOf.withoutList, AttributeOf.allList, AttributeOf.all, List.cons_append, List.filter_cons]
    by_cases deleted : p name = true
    · have none : body.all = [] := leaf deleted
      rw [if_pos deleted, if_neg (by simp [deleted]), none, List.nil_append]
      exact AttributeOf.allList_prunes as fun a mem => leaves a (List.mem_append_right _ mem)
    · rw [if_neg deleted, if_pos (by simp [deleted]), AttributeOf.allList, AttributeOf.all, List.cons_append,
        List.map_cons, inside]
      rfl

/-- Deleting attributes deletes leaves from all that is within code. -/
theorem CodeOf.all_prunes : ∀ (c : CodeOf ι β), Prunes p c.all (c.without p).all
  | ⟨_, _, _, _, attributes⟩ => AttributeOf.allList_prunes attributes

/-- Deleting attributes deletes leaves from all that is within components of a record. -/
theorem RecordComponentOf.allList_prunes : ∀ (cs : List (RecordComponentOf ι β)),
    Prunes p (RecordComponentOf.allList cs) (RecordComponentOf.allList (RecordComponentOf.withoutList p cs))
  | [] => fun _ => rfl
  | ⟨_, _, attributes⟩ :: cs =>
    (AttributeOf.allList_prunes attributes).append (RecordComponentOf.allList_prunes cs)

end

/-- **What is left of a class is what is kept**, if what is deleted holds no attributes. -/
theorem ClassOf.all_prunes (c : ClassOf ι β) : Prunes p c.all (c.without p).all := by
  have members (ms : List (MemberOf ι β)) : Prunes p (ms.flatMap (AttributeOf.allList ·.attributes))
      ((ms.map (·.without p)).flatMap (AttributeOf.allList ·.attributes)) := by
    induction ms with
    | nil => exact fun _ => rfl
    | cons m ms ih => exact (AttributeOf.allList_prunes m.attributes).append ih
  exact (members c.fields).append ((members c.methods).append (AttributeOf.allList_prunes c.attributes))

/-! ## Where nothing is deleted -/

mutual

/-- A body in which no name is to be deleted stays as it is. -/
theorem AttributeBodyOf.without_eq_self : ∀ (body : AttributeBodyOf ι β),
    (∀ a ∈ body.all, p a.name = false) → body.without p = body
  | .code c, h => by
    rw [AttributeBodyOf.without, CodeOf.without_eq_self c h]
  | .record components, h => by
    rw [AttributeBodyOf.without, RecordComponentOf.withoutList_eq_self components h]
  | .constantValue _, _ | .exceptions _, _ | .signature _, _ | .sourceFile _, _ | .innerClasses _, _
  | .enclosingMethod _ _, _ | .nestHost _, _ | .nestMembers _, _ | .permittedSubclasses _, _
  | .bootstrapMethods _, _ | .annotationDefault _, _ | .annotations _, _
  | .parameterAnnotations _, _ | .typeAnnotations _, _ | .marker, _ | .raw _, _ => rfl

/-- Attributes in which no name is to be deleted stay as they are. -/
theorem AttributeOf.withoutList_eq_self : ∀ (as : List (AttributeOf ι β)),
    (∀ a ∈ AttributeOf.allList as, p a.name = false) → AttributeOf.withoutList p as = as
  | [], _ => rfl
  | ⟨name, body⟩ :: as, h => by
    simp only [AttributeOf.allList, AttributeOf.all, List.cons_append, List.forall_mem_cons,
      List.forall_mem_append] at h
    obtain ⟨kept, inside, rest⟩ := h
    rw [AttributeOf.withoutList, kept, AttributeBodyOf.without_eq_self body inside,
      AttributeOf.withoutList_eq_self as rest]
    rfl

/-- Code in which no name is to be deleted stays as it is. -/
theorem CodeOf.without_eq_self : ∀ (c : CodeOf ι β),
    (∀ a ∈ c.all, p a.name = false) → c.without p = c
  | ⟨_, _, _, _, attributes⟩, h => by
    rw [CodeOf.without, AttributeOf.withoutList_eq_self attributes h]

/-- Components of a record in which no name is to be deleted stay as they are. -/
theorem RecordComponentOf.withoutList_eq_self : ∀ (cs : List (RecordComponentOf ι β)),
    (∀ a ∈ RecordComponentOf.allList cs, p a.name = false) →
      RecordComponentOf.withoutList p cs = cs
  | [], _ => rfl
  | ⟨_, _, attributes⟩ :: cs, h => by
    rw [RecordComponentOf.allList, List.forall_mem_append] at h
    rw [RecordComponentOf.withoutList, AttributeOf.withoutList_eq_self attributes h.1,
      RecordComponentOf.withoutList_eq_self cs h.2]

end

/-- **Where no name satisfies `p`, nothing is deleted.** -/
theorem ClassOf.without_eq_self {c : ClassOf ι β} (h : ∀ a ∈ c.all, p a.name = false) :
    c.without p = c := by
  simp only [all, List.forall_mem_append, List.forall_mem_flatMap] at h
  obtain ⟨fields, methods, own⟩ := h
  have member : ∀ m : MemberOf ι β, (∀ a ∈ AttributeOf.allList m.attributes, p a.name = false) →
      m.without p = m := fun m hm => by
    rw [MemberOf.without, AttributeOf.withoutList_eq_self m.attributes hm]
  rw [without, List.map_congr_left fun m hm => member m (fields m hm),
    List.map_congr_left fun m hm => member m (methods m hm),
    AttributeOf.withoutList_eq_self c.attributes own, List.map_id', List.map_id']

/-! ## What a body stays -/

/-- A body stays of its kind. -/
theorem AttributeBodyOf.kind_without (body : AttributeBodyOf ι β) :
    (body.without p).kind = body.kind := by
  cases body <;> rfl

/-- What stands where it may stand does so after others have been deleted. -/
theorem AttributeBodyOf.placed_without {body : AttributeBodyOf ι β} (h : body.Placed) :
    (body.without p).Placed := by
  cases body <;> exact h

end

/-! ## Debug attributes -/

/-- Whether an index leads to the name of a debug attribute. -/
def ConstantPool.isDebugName (pool : ConstantPool) (index : PoolIndex) : Bool :=
  match pool.utf8Bytes index with
  | .ok bytes => debugAttributeNames.contains (Utf8.decodeLossy bytes)
  | .error _ => false

/-- A class without its debug attributes, at every depth. -/
def ClassFile.debugFree (c : ClassFile) : ClassFile :=
  { c with toClassOf := c.toClassOf.without c.pool.isDebugName }

section
variable {pool : ConstantPool}

/-- Whether an attribute is a debug attribute can be told if its name is a text. -/
theorem Attribute.isDebug_eq {a : Attribute} (h : ∃ bytes, pool.utf8Bytes a.name = .ok bytes) :
    a.isDebug pool = .ok (pool.isDebugName a.name) := by
  obtain ⟨bytes, h⟩ := h
  rw [isDebug, nameText, ConstantPool.isDebugName, h]
  rfl

mutual

/-- If all names within a body are texts, the debug attributes are deleted from it. -/
theorem AttributeBody.withoutDebug_eq : ∀ (body : AttributeBody),
    (∀ a ∈ body.all, ∃ bytes, pool.utf8Bytes a.name = .ok bytes) →
      AttributeBody.withoutDebug pool body = .ok (body.without pool.isDebugName)
  | .code ⟨_, _, _, _, attributes⟩, h => by
    rw [AttributeBody.withoutDebug, Attribute.withoutDebugList_eq attributes h]
    rfl
  | .record components, h => by
    rw [AttributeBody.withoutDebug, RecordComponent.withoutDebugList_eq components h]
    rfl
  | .constantValue _, _ | .exceptions _, _ | .signature _, _ | .sourceFile _, _ | .innerClasses _, _
  | .enclosingMethod _ _, _ | .nestHost _, _ | .nestMembers _, _ | .permittedSubclasses _, _
  | .bootstrapMethods _, _ | .annotationDefault _, _ | .annotations _, _
  | .parameterAnnotations _, _ | .typeAnnotations _, _ | .marker, _ | .raw _, _ => rfl

/-- If all names within attributes are texts, the debug attributes are deleted from them. -/
theorem Attribute.withoutDebugList_eq : ∀ (as : List Attribute),
    (∀ a ∈ AttributeOf.allList as, ∃ bytes, pool.utf8Bytes a.name = .ok bytes) →
      Attribute.withoutDebugList pool as = .ok (AttributeOf.withoutList pool.isDebugName as)
  | [], _ => rfl
  | ⟨name, body⟩ :: as, h => by
    simp only [AttributeOf.allList, AttributeOf.all, List.cons_append, List.forall_mem_cons,
      List.forall_mem_append] at h
    obtain ⟨named, inside, rest⟩ := h
    rw [Attribute.withoutDebugList, Attribute.withoutDebug,
      Attribute.isDebug_eq (a := ⟨name, body⟩) named, Attribute.withoutDebugList_eq as rest,
      AttributeBody.withoutDebug_eq body inside, AttributeOf.withoutList]
    cases pool.isDebugName name <;> rfl

/-- If all names within components of a record are texts, the debug attributes are deleted from them. -/
theorem RecordComponent.withoutDebugList_eq : ∀ (cs : List RecordComponent),
    (∀ a ∈ RecordComponentOf.allList cs, ∃ bytes, pool.utf8Bytes a.name = .ok bytes) →
      RecordComponent.withoutDebugList pool cs =
        .ok (RecordComponentOf.withoutList pool.isDebugName cs)
  | [], _ => rfl
  | ⟨_, _, attributes⟩ :: cs, h => by
    rw [RecordComponentOf.allList, List.forall_mem_append] at h
    rw [RecordComponent.withoutDebugList, Attribute.withoutDebugList_eq attributes h.1,
      RecordComponent.withoutDebugList_eq cs h.2]
    rfl

end

end

namespace ClassFile

variable {c : ClassFile}

/-- **Leaving the debug attributes out deletes them and nothing else**, where every name can be
read. -/
theorem withoutDebug_eq (h : ∀ a ∈ c.all, ∃ bytes, c.pool.utf8Bytes a.name = .ok bytes) :
    c.withoutDebug = .ok c.debugFree := by
  simp only [ClassOf.all, List.forall_mem_append, List.forall_mem_flatMap] at h
  obtain ⟨fields, methods, own⟩ := h
  have members : ∀ ms : List Member, (∀ m ∈ ms, ∀ a ∈ AttributeOf.allList m.attributes,
      ∃ bytes, c.pool.utf8Bytes a.name = .ok bytes) →
      ms.mapM (Member.withoutDebug c.pool) = .ok (ms.map (·.without c.pool.isDebugName)) :=
    fun ms hms => by
      rw [mapM_eq_ok, List.forall₂_map_right_iff, List.forall₂_same]
      intro m mem
      rw [Member.withoutDebug, Attribute.withoutDebugList_eq m.attributes (hms m mem)]
      rfl
  rw [withoutDebug, Attribute.withoutDebugList_eq c.attributes own, members c.fields fields,
    members c.methods methods]
  rfl

/-- A name that is known is a text. -/
theorem utf8Bytes_of_named {pool : ConstantPool} {a : Attribute} (h : a.Named pool) :
    ∃ bytes, pool.utf8Bytes a.name = .ok bytes := by
  obtain ⟨text, htext, _⟩ := h.kind
  obtain ⟨bytes, hbytes, _⟩ := bind_eq_ok.mp htext
  exact ⟨bytes, hbytes⟩

/-- The attributes that are left have names that announce their layouts. -/
theorem named_debugFree (h : ∀ a ∈ c.all, Attribute.Named c.pool a) :
    ∀ a ∈ c.debugFree.all, Attribute.Named c.pool a := by
  intro a mem
  obtain ⟨_, b, hb, name, body⟩ := ClassOf.all_without mem
  obtain ⟨⟨text, htext, kind⟩, placed⟩ := h b hb
  exact ⟨⟨text, name ▸ htext, by rw [body, AttributeBodyOf.kind_without, kind]⟩,
    by rw [body]; exact AttributeBodyOf.placed_without placed⟩

end ClassFile

end ProcessorBench
