import ProcessorBench.Proofs.ClassCodec
import ProcessorBench.Proofs.SameView

/-!
# Lengths do not depend on constants

What can be too long to be written is a list, a code array or a body, and none of them gets longer
when a class is renumbered: indices have one width, and an instruction keeps its bytes but for its
operand. So two classes with one view are written in forms of one length, part by part, and both can
be written or neither.
-/

namespace ProcessorBench

/-- Rows of pieces that are equally long one by one are equally long. -/
theorem length_flatMap_of_forall₂ {α β γ δ : Type} {f : α → List γ} {g : β → List δ} {as : List α}
    {bs : List β} (h : List.Forall₂ (fun a b => (g b).length = (f a).length) as bs) :
    (bs.flatMap g).length = (as.flatMap f).length := by
  induction h with
  | nil => rfl
  | cons head _ ih => simp only [List.flatMap_cons, List.length_append, head, ih]

/-- A list of indices takes two bytes for its length and for each of them. -/
theorem length_indexListBytes (indices : List PoolIndex) :
    (indexListBytes indices).length = 2 + 2 * indices.length := by
  induction indices with
  | nil => rfl
  | cons i indices ih =>
    simp only [indexListBytes, List.flatMap_cons, List.length_append, Bytes.length_ofUInt16,
      Bytes.length_ofNat, List.length_cons] at ih ⊢
    omega

/-! ## Replacing references -/

section
variable {ε : Type} {g : PoolIndex → Except ε PoolIndex}

mutual

/-- Replacing the references of a value changes neither its length nor whether it can be written. -/
theorem ElementValue.length_of_mapRefs : ∀ {v w : ElementValue}, v.mapRefs g = .ok w →
    w.check = v.check ∧ (ElementValue.bytes w).length = (ElementValue.bytes v).length
  | .const tag i, w, h | .classInfo i, w, h => by
    rw [ElementValueOf.mapRefs] at h
    obtain ⟨_, _, h⟩ := bind_eq_ok.mp h
    cases h
    simp [ElementValueOf.check, ElementValue.bytes, Bytes.length_ofUInt16]
  | .enumConst i j, w, h => by
    rw [ElementValueOf.mapRefs] at h
    obtain ⟨_, _, h⟩ := bind_eq_ok.mp h
    obtain ⟨_, _, h⟩ := bind_eq_ok.mp h
    cases h
    simp [ElementValueOf.check, ElementValue.bytes, Bytes.length_ofUInt16]
  | .nested a, w, h => by
    rw [ElementValueOf.mapRefs] at h
    obtain ⟨b, hb, h⟩ := bind_eq_ok.mp h
    cases h
    obtain ⟨check, length⟩ := AnnotationInfo.length_of_mapRefs hb
    simp [ElementValueOf.check, ElementValue.bytes, check, length]
  | .array vs, w, h => by
    rw [ElementValueOf.mapRefs] at h
    obtain ⟨ws, hws, h⟩ := bind_eq_ok.mp h
    cases h
    obtain ⟨count, check, length⟩ := ElementValue.length_of_mapRefsList hws
    simp [ElementValueOf.check, ElementValue.bytes, Bytes.length_ofNat, count, check, length]

/-- Replacing the references of values changes neither their length nor whether they can be written. -/
theorem ElementValue.length_of_mapRefsList : ∀ {vs ws : List ElementValue},
    ElementValueOf.mapRefsList g vs = .ok ws → ws.length = vs.length ∧
      ElementValueOf.checkList ws = ElementValueOf.checkList vs ∧
      (ElementValue.bytesList ws).length = (ElementValue.bytesList vs).length
  | [], ws, h => by
    cases h
    exact ⟨rfl, rfl, rfl⟩
  | v :: vs, ws, h => by
    rw [ElementValueOf.mapRefsList] at h
    obtain ⟨_, hv, h⟩ := bind_eq_ok.mp h
    obtain ⟨_, hvs, h⟩ := bind_eq_ok.mp h
    cases h
    obtain ⟨check, length⟩ := ElementValue.length_of_mapRefs hv
    obtain ⟨count, checks, lengths⟩ := ElementValue.length_of_mapRefsList hvs
    simp [ElementValueOf.checkList, ElementValue.bytesList, count, check, length, checks, lengths]

/-- Replacing the references of an annotation does not change its length. -/
theorem AnnotationInfo.length_of_mapRefs : ∀ {a b : AnnotationInfo}, a.mapRefs g = .ok b →
    b.check = a.check ∧ (AnnotationInfo.bytes b).length = (AnnotationInfo.bytes a).length
  | ⟨type, elements⟩, b, h => by
    rw [AnnotationOf.mapRefs] at h
    obtain ⟨_, _, h⟩ := bind_eq_ok.mp h
    obtain ⟨_, helements, h⟩ := bind_eq_ok.mp h
    cases h
    obtain ⟨count, checks, lengths⟩ := Element.length_of_mapRefsList helements
    simp [AnnotationOf.check, AnnotationInfo.bytes, Bytes.length_ofUInt16, Bytes.length_ofNat, count,
      checks, lengths]

/-- Replacing the references of elements does not change their length. -/
theorem Element.length_of_mapRefsList : ∀ {es fs : List Element},
    ElementOf.mapRefsList g es = .ok fs → fs.length = es.length ∧
      ElementOf.checkList fs = ElementOf.checkList es ∧
      (Element.bytesList fs).length = (Element.bytesList es).length
  | [], fs, h => by
    cases h
    exact ⟨rfl, rfl, rfl⟩
  | e :: es, fs, h => by
    rw [ElementOf.mapRefsList] at h
    obtain ⟨_, he, h⟩ := bind_eq_ok.mp h
    obtain ⟨_, hes, h⟩ := bind_eq_ok.mp h
    cases h
    obtain ⟨check, length⟩ := Element.length_of_mapRefs he
    obtain ⟨count, checks, lengths⟩ := Element.length_of_mapRefsList hes
    simp [ElementOf.checkList, Element.bytesList, count, check, length, checks, lengths]

/-- Replacing the references of an element does not change its length. -/
theorem Element.length_of_mapRefs : ∀ {e f : Element}, e.mapRefs g = .ok f →
    f.check = e.check ∧ (Element.bytes f).length = (Element.bytes e).length
  | ⟨name, value⟩, f, h => by
    rw [ElementOf.mapRefs] at h
    obtain ⟨_, _, h⟩ := bind_eq_ok.mp h
    obtain ⟨_, hvalue, h⟩ := bind_eq_ok.mp h
    cases h
    obtain ⟨check, length⟩ := ElementValue.length_of_mapRefs hvalue
    simp [ElementOf.check, Element.bytes, Bytes.length_ofUInt16, check, length]

end

/-- Replacing the references of an annotation of a type does not change its length. -/
theorem TypeAnnotationInfo.length_of_mapRefs {a b : TypeAnnotationInfo} (h : a.mapRefs g = .ok b) :
    b.content.check = a.content.check ∧
      (TypeAnnotationInfo.bytes b).length = (TypeAnnotationInfo.bytes a).length := by
  obtain ⟨_, content, h⟩ := bind_eq_ok.mp h
  cases h
  obtain ⟨check, length⟩ := AnnotationInfo.length_of_mapRefs content
  simp [TypeAnnotationInfo.bytes, check, length]

end

section
variable {ε : Type} {f : RefMap (Except ε) PoolIndex PoolIndex Bytes Bytes}

theorem length_of_mapM {α β : Type} {g : α → Except ε β} {as : List α} {bs : List β}
    (h : as.mapM g = .ok bs) : bs.length = as.length := (mapM_eq_ok.mp h).length_eq.symm

/-- A handler takes eight bytes. -/
theorem ExceptionHandler.length_bytes (x : ExceptionHandler) :
    (ExceptionHandler.bytes x).length = 8 := by
  simp [bytes]

/-- An inner class takes eight bytes. -/
theorem InnerClass.length_bytes (x : InnerClass) : (InnerClass.bytes x).length = 8 := by
  simp [bytes]

/-- Pieces of one length take as many times that length. -/
theorem length_flatMap_const {α β : Type} {g : α → List β} {n : Nat} (h : ∀ a, (g a).length = n)
    (as : List α) : (as.flatMap g).length = n * as.length := by
  induction as with
  | nil => rfl
  | cons a as ih =>
    rw [List.flatMap_cons, List.length_append, h, ih, List.length_cons, Nat.mul_succ, Nat.add_comm]

/-- Replacing the references of a bootstrap method does not change its length. -/
theorem BootstrapMethod.length_of_mapRefs {x y : BootstrapMethod} (h : x.mapRefs f = .ok y) :
    y.arguments.length = x.arguments.length ∧
      (BootstrapMethod.bytes y).length = (BootstrapMethod.bytes x).length := by
  obtain ⟨_, _, h⟩ := bind_eq_ok.mp h
  obtain ⟨_, arguments, h⟩ := bind_eq_ok.mp h
  cases h
  simp [bytes, length_indexListBytes, length_of_mapM arguments]

/-- Annotations over replaced references are checked alike and written in one length. -/
theorem length_of_annotations {as bs : List AnnotationInfo}
    (h : as.mapM (·.mapRefs f.required) = .ok bs) :
    bs.length = as.length ∧ bs.forM AnnotationOf.check = as.forM AnnotationOf.check ∧
      (bs.flatMap AnnotationInfo.bytes).length = (as.flatMap AnnotationInfo.bytes).length := by
  have each := (mapM_eq_ok.mp h).imp fun _ _ => AnnotationInfo.length_of_mapRefs
  exact ⟨length_of_mapM h, (forM_congr (each.imp fun _ _ h => h.1.symm)).symm,
    length_flatMap_of_forall₂ (each.imp fun _ _ h => h.2)⟩

-- Each of these is about one layout, and only two of them about code.
set_option linter.unusedSectionVars false

mutual

/-- **Replacing the references of a body does not change its length**, nor whether it can be written, if code keeps
its length. -/
theorem AttributeBody.length_of_mapRefs
    (code : ∀ b b', f.code b = .ok b' → b'.length = b.length) :
    ∀ {x y : AttributeBody}, x.mapRefs f = .ok y → AttributeBody.check y = AttributeBody.check x ∧
      (AttributeBody.bytes y).length = (AttributeBody.bytes x).length
  | .code ⟨_, _, _, _, _⟩, y, h => by
    rw [AttributeBodyOf.mapRefs, CodeOf.mapRefs] at h
    obtain ⟨_, hc, h⟩ := bind_eq_ok.mp h
    obtain ⟨_, hcode, hc⟩ := bind_eq_ok.mp hc
    obtain ⟨_, hhandlers, hc⟩ := bind_eq_ok.mp hc
    obtain ⟨_, hattributes, hc⟩ := bind_eq_ok.mp hc
    cases hc
    cases h
    obtain ⟨count, checks, lengths⟩ := Attribute.length_of_mapRefsList code hattributes
    simp [AttributeBody.check, AttributeBody.bytes, length_flatMap_const ExceptionHandler.length_bytes,
      code _ _ hcode, length_of_mapM hhandlers, count, checks, lengths]
  | .record _, y, h => by
    rw [AttributeBodyOf.mapRefs] at h
    obtain ⟨_, hcs, h⟩ := bind_eq_ok.mp h
    cases h
    obtain ⟨count, checks, lengths⟩ := RecordComponent.length_of_mapRefsList code hcs
    simp [AttributeBody.check, AttributeBody.bytes, count, checks, lengths]
  | .constantValue _, y, h | .signature _, y, h | .sourceFile _, y, h | .nestHost _, y, h => by
    rw [AttributeBodyOf.mapRefs] at h
    obtain ⟨_, _, h⟩ := bind_eq_ok.mp h
    cases h
    simp [AttributeBody.check, AttributeBody.bytes]
  | .exceptions _, y, h | .nestMembers _, y, h | .permittedSubclasses _, y, h => by
    rw [AttributeBodyOf.mapRefs] at h
    obtain ⟨_, hall, h⟩ := bind_eq_ok.mp h
    cases h
    simp [AttributeBody.check, AttributeBody.bytes, length_indexListBytes, length_of_mapM hall]
  | .innerClasses _, y, h => by
    rw [AttributeBodyOf.mapRefs] at h
    obtain ⟨_, hall, h⟩ := bind_eq_ok.mp h
    cases h
    simp [AttributeBody.check, AttributeBody.bytes, length_flatMap_const InnerClass.length_bytes,
      length_of_mapM hall]
  | .enclosingMethod _ _, y, h => by
    rw [AttributeBodyOf.mapRefs] at h
    obtain ⟨_, _, h⟩ := bind_eq_ok.mp h
    obtain ⟨_, _, h⟩ := bind_eq_ok.mp h
    cases h
    simp [AttributeBody.check, AttributeBody.bytes]
  | .bootstrapMethods ms, y, h => by
    rw [AttributeBodyOf.mapRefs] at h
    obtain ⟨ms', hall, h⟩ := bind_eq_ok.mp h
    cases h
    have each := (mapM_eq_ok.mp hall).imp fun _ _ => BootstrapMethod.length_of_mapRefs
    have checks : ms'.forM (fun m => checkCount m.arguments.length .bootstrapArguments) =
        ms.forM fun m => checkCount m.arguments.length .bootstrapArguments :=
      (forM_congr (each.imp fun _ _ h => by rw [h.1])).symm
    have lengths := length_flatMap_of_forall₂ (each.imp fun _ _ h => h.2)
    simp only [AttributeBody.check, AttributeBody.bytes, List.length_append, Bytes.length_ofNat,
      length_of_mapM hall, checks, lengths, and_self]
  | .annotationDefault _, y, h => by
    rw [AttributeBodyOf.mapRefs] at h
    obtain ⟨_, hv, h⟩ := bind_eq_ok.mp h
    cases h
    exact ElementValue.length_of_mapRefs hv
  | .annotations _, y, h => by
    rw [AttributeBodyOf.mapRefs] at h
    obtain ⟨_, hall, h⟩ := bind_eq_ok.mp h
    cases h
    obtain ⟨count, checks, lengths⟩ := length_of_annotations hall
    simp only [AttributeBody.check, AttributeBody.bytes, List.length_append, Bytes.length_ofNat, count,
      checks, lengths, and_self]
  | .parameterAnnotations ps, y, h => by
    rw [AttributeBodyOf.mapRefs] at h
    obtain ⟨ps', hall, h⟩ := bind_eq_ok.mp h
    cases h
    have each := (mapM_eq_ok.mp hall).imp fun _ _ => length_of_annotations
    have checks : (ps'.forM fun as => do
          checkCount as.length .annotations
          as.forM AnnotationOf.check) = (ps.forM fun as => do
          checkCount as.length .annotations
          as.forM AnnotationOf.check) :=
      (forM_congr (each.imp fun _ _ h => by rw [h.1, h.2.1])).symm
    have lengths :
        (ps'.flatMap fun as => Bytes.ofNat 2 as.length ++ as.flatMap AnnotationInfo.bytes).length =
        (ps.flatMap fun as => Bytes.ofNat 2 as.length ++ as.flatMap AnnotationInfo.bytes).length :=
      length_flatMap_of_forall₂ (each.imp fun _ _ h => by simp [h.2.2])
    simp only [AttributeBody.check, AttributeBody.bytes, List.length_append, Bytes.length_ofNat,
      length_of_mapM hall, checks, lengths, and_self]
  | .typeAnnotations _, y, h => by
    rw [AttributeBodyOf.mapRefs] at h
    obtain ⟨_, hall, h⟩ := bind_eq_ok.mp h
    cases h
    have each := (mapM_eq_ok.mp hall).imp fun _ _ => TypeAnnotationInfo.length_of_mapRefs
    have checks := forM_congr (each.imp fun _ _ h => h.1.symm)
    have lengths := length_flatMap_of_forall₂ (each.imp fun _ _ h => h.2)
    simp only [AttributeBody.check, AttributeBody.bytes, List.length_append, Bytes.length_ofNat,
      length_of_mapM hall, checks, lengths, and_self]
  | .marker, y, h | .raw _, y, h => by
    rw [AttributeBodyOf.mapRefs] at h
    cases h
    exact ⟨rfl, rfl⟩

/-- Replacing the references of attributes does not change their length, if code keeps its length. -/
theorem Attribute.length_of_mapRefsList
    (code : ∀ b b', f.code b = .ok b' → b'.length = b.length) :
    ∀ {xs ys : List Attribute}, AttributeOf.mapRefsList f xs = .ok ys → ys.length = xs.length ∧
      Attribute.checkList ys = Attribute.checkList xs ∧
      (Attribute.bytesList ys).length = (Attribute.bytesList xs).length
  | [], ys, h => by
    cases h
    exact ⟨rfl, rfl, rfl⟩
  | ⟨_, _⟩ :: xs, ys, h => by
    rw [AttributeOf.mapRefsList, AttributeOf.mapRefs] at h
    obtain ⟨_, first, h⟩ := bind_eq_ok.mp h
    obtain ⟨_, _, first⟩ := bind_eq_ok.mp first
    obtain ⟨_, hbody, first⟩ := bind_eq_ok.mp first
    cases first
    obtain ⟨_, hxs, h⟩ := bind_eq_ok.mp h
    cases h
    obtain ⟨check, length⟩ := AttributeBody.length_of_mapRefs code hbody
    obtain ⟨count, checks, lengths⟩ := Attribute.length_of_mapRefsList code hxs
    simp [Attribute.checkList, Attribute.bytesList, Attribute.check, Attribute.bytes, count, check,
      length, checks, lengths]

/-- Replacing the references of components of a record does not change their length, if code keeps its length. -/
theorem RecordComponent.length_of_mapRefsList
    (code : ∀ b b', f.code b = .ok b' → b'.length = b.length) :
    ∀ {xs ys : List RecordComponent}, RecordComponentOf.mapRefsList f xs = .ok ys →
      ys.length = xs.length ∧ RecordComponent.checkList ys = RecordComponent.checkList xs ∧
      (RecordComponent.bytesList ys).length = (RecordComponent.bytesList xs).length
  | [], ys, h => by
    cases h
    exact ⟨rfl, rfl, rfl⟩
  | ⟨_, _, _⟩ :: xs, ys, h => by
    rw [RecordComponentOf.mapRefsList, RecordComponentOf.mapRefs] at h
    obtain ⟨_, first, h⟩ := bind_eq_ok.mp h
    obtain ⟨_, _, first⟩ := bind_eq_ok.mp first
    obtain ⟨_, _, first⟩ := bind_eq_ok.mp first
    obtain ⟨_, hattributes, first⟩ := bind_eq_ok.mp first
    cases first
    obtain ⟨_, hxs, h⟩ := bind_eq_ok.mp h
    cases h
    obtain ⟨count, checks, lengths⟩ := Attribute.length_of_mapRefsList code hattributes
    obtain ⟨count', checks', lengths'⟩ := RecordComponent.length_of_mapRefsList code hxs
    simp [RecordComponent.checkList, RecordComponent.bytesList, RecordComponent.check,
      RecordComponent.bytes, count, checks, lengths, count', checks', lengths']

end

/-- A class over replaced references has lists of the same lengths, and attributes that can be
written where the old ones can. -/
theorem ClassOf.length_of_mapRefs (code : ∀ b b', f.code b = .ok b' → b'.length = b.length)
    {c d : ClassOf PoolIndex Bytes} (h : c.mapRefs f = .ok d) :
    (d.Counted ↔ c.Counted) ∧ ((∀ a ∈ d.nested, Attribute.check a = .ok ()) ↔
      ∀ a ∈ c.nested, Attribute.check a = .ok ()) := by
  obtain ⟨_, _, interfaces, fields, methods, attributes⟩ := parts_of_mapRefs h
  have each : ∀ {as bs : List Attribute}, as.mapM (·.mapRefs f) = .ok bs → bs.length = as.length ∧
      ((∀ b ∈ bs, Attribute.check b = .ok ()) ↔ ∀ a ∈ as, Attribute.check a = .ok ()) := by
    intro as bs h
    rw [← AttributeOf.mapRefsList_eq] at h
    obtain ⟨count, checks, _⟩ := Attribute.length_of_mapRefsList code h
    exact ⟨count, by rw [← Attribute.checkList_eq_ok, checks, Attribute.checkList_eq_ok]⟩
  have members : ∀ {ms ns : List Member}, ms.mapM (·.mapRefs f) = .ok ns → ns.length = ms.length ∧
      ((∀ n ∈ ns, n.attributes.length < UInt16.size) ↔ ∀ m ∈ ms, m.attributes.length < UInt16.size) ∧
      ((∀ n ∈ ns, ∀ b ∈ n.attributes, Attribute.check b = .ok ()) ↔
        ∀ m ∈ ms, ∀ a ∈ m.attributes, Attribute.check a = .ok ()) := by
    intro ms ns h
    have all := (mapM_eq_ok.mp h).imp fun _ _ h => each (MemberOf.parts_of_mapRefs h).2.2.2
    exact ⟨length_of_mapM h, forall_mem_congr (all.imp fun _ _ h => by rw [h.1]),
      forall_mem_congr (all.imp fun _ _ h => h.2)⟩
  obtain ⟨fieldCount, inFields, fieldChecks⟩ := members fields
  obtain ⟨methodCount, inMethods, methodChecks⟩ := members methods
  obtain ⟨attributeCount, attributeChecks⟩ := each attributes
  have interfaceCount := length_of_mapM interfaces
  constructor
  · constructor
    · rintro ⟨h₁, h₂, h₃, h₄, h₅, h₆⟩
      exact ⟨interfaceCount ▸ h₁, fieldCount ▸ h₂, methodCount ▸ h₃, attributeCount ▸ h₄,
        inFields.mp h₅, inMethods.mp h₆⟩
    · rintro ⟨h₁, h₂, h₃, h₄, h₅, h₆⟩
      exact ⟨interfaceCount.symm ▸ h₁, fieldCount.symm ▸ h₂, methodCount.symm ▸ h₃,
        attributeCount.symm ▸ h₄, inFields.mpr h₅, inMethods.mpr h₆⟩
  · rw [forall_nested, forall_nested, fieldChecks, methodChecks, attributeChecks]

end

/-! ## Deleting attributes -/

section
variable {p : PoolIndex → Bool}

mutual

/-- A body that can be written can be written without some of its attributes, and is not longer then. -/
theorem AttributeBody.check_without : ∀ {body : AttributeBody}, AttributeBody.check body = .ok () →
    AttributeBody.check (body.without p) = .ok () ∧
      (AttributeBody.bytes (body.without p)).length ≤ (AttributeBody.bytes body).length
  | .code ⟨_, _, _, _, attributes⟩, h => by
    obtain ⟨⟨code, handlers, count⟩, nested⟩ := AttributeBody.check_eq_ok.mp h
    have nested : Attribute.checkList attributes = .ok () := Attribute.checkList_eq_ok.mpr nested
    obtain ⟨fewer, checks, shorter⟩ := Attribute.check_withoutList nested
    refine ⟨AttributeBody.check_eq_ok.mpr ⟨⟨code, handlers, Nat.lt_of_le_of_lt fewer count⟩,
      Attribute.checkList_eq_ok.mp checks⟩, ?_⟩
    simp only [AttributeBodyOf.without, CodeOf.without, AttributeBody.bytes, List.length_append,
      Bytes.length_ofNat]
    omega
  | .record components, h => by
    rw [AttributeBody.check, andThen_eq_ok, checkCount_eq_ok] at h
    obtain ⟨fewer, checks, shorter⟩ := RecordComponent.check_withoutList h.2
    rw [AttributeBodyOf.without, AttributeBody.check, andThen_eq_ok, checkCount_eq_ok]
    refine ⟨⟨Nat.lt_of_le_of_lt fewer h.1, checks⟩, ?_⟩
    simp only [AttributeBody.bytes, List.length_append, Bytes.length_ofNat]
    omega
  | .constantValue _, h | .exceptions _, h | .signature _, h | .sourceFile _, h | .innerClasses _, h
  | .enclosingMethod _ _, h | .nestHost _, h | .nestMembers _, h | .permittedSubclasses _, h
  | .bootstrapMethods _, h | .annotationDefault _, h | .annotations _, h
  | .parameterAnnotations _, h | .typeAnnotations _, h | .marker, h | .raw _, h => ⟨h, Nat.le_refl _⟩

/-- Attributes that can be written can be written without some of them, and are not longer then. -/
theorem Attribute.check_withoutList : ∀ {as : List Attribute}, Attribute.checkList as = .ok () →
    (AttributeOf.withoutList p as).length ≤ as.length ∧
      Attribute.checkList (AttributeOf.withoutList p as) = .ok () ∧
      (Attribute.bytesList (AttributeOf.withoutList p as)).length ≤ (Attribute.bytesList as).length
  | [], _ => ⟨Nat.le_refl _, rfl, Nat.le_refl _⟩
  | ⟨name, body⟩ :: as, h => by
    rw [Attribute.checkList, andThen_eq_ok] at h
    obtain ⟨first, rest⟩ := h
    obtain ⟨fewer, checks, shorter⟩ := Attribute.check_withoutList rest
    rw [Attribute.check_eq_ok, ← AttributeBody.check_eq_ok] at first
    have checked : AttributeBody.check body = .ok () := first.1
    have short : (AttributeBody.bytes body).length < UInt32.size := first.2
    obtain ⟨kept, short'⟩ := AttributeBody.check_without checked
    rw [AttributeOf.withoutList]
    split
    · refine ⟨Nat.le_succ_of_le fewer, checks, ?_⟩
      rw [Attribute.bytesList, List.length_append]
      omega
    · refine ⟨Nat.succ_le_succ fewer, ?_, ?_⟩
      · rw [Attribute.checkList, andThen_eq_ok, Attribute.check_eq_ok, ← AttributeBody.check_eq_ok]
        exact ⟨⟨kept, Nat.lt_of_le_of_lt short' short⟩, checks⟩
      · simp only [Attribute.bytesList, Attribute.bytes, List.length_append, Bytes.length_ofNat,
          Bytes.length_ofUInt16]
        omega

/-- Components of a record that can be written can be written without some attributes, and are not longer then. -/
theorem RecordComponent.check_withoutList : ∀ {cs : List RecordComponent},
    RecordComponent.checkList cs = .ok () →
      (RecordComponentOf.withoutList p cs).length ≤ cs.length ∧
      RecordComponent.checkList (RecordComponentOf.withoutList p cs) = .ok () ∧
      (RecordComponent.bytesList (RecordComponentOf.withoutList p cs)).length ≤
        (RecordComponent.bytesList cs).length
  | [], _ => ⟨Nat.le_refl _, rfl, Nat.le_refl _⟩
  | ⟨_, _, attributes⟩ :: cs, h => by
    rw [RecordComponent.checkList, andThen_eq_ok, RecordComponent.check, andThen_eq_ok,
      checkCount_eq_ok] at h
    obtain ⟨⟨count, first⟩, rest⟩ := h
    obtain ⟨fewer, checks, shorter⟩ := Attribute.check_withoutList first
    obtain ⟨fewer', checks', shorter'⟩ := RecordComponent.check_withoutList rest
    rw [RecordComponentOf.withoutList, RecordComponent.checkList, andThen_eq_ok, RecordComponent.check,
      andThen_eq_ok, checkCount_eq_ok]
    refine ⟨Nat.succ_le_succ fewer', ⟨⟨Nat.lt_of_le_of_lt fewer count, checks⟩, checks'⟩, ?_⟩
    simp only [RecordComponent.bytesList, RecordComponent.bytes, List.length_append,
      Bytes.length_ofNat, Bytes.length_ofUInt16]
    omega

end

/-- Where a class can be written, it can be written with attributes deleted. -/
theorem ClassOf.check_without {c : ClassOf PoolIndex Bytes} (counted : c.Counted)
    (checks : ∀ a ∈ c.nested, Attribute.check a = .ok ()) :
    (c.without p).Counted ∧ ∀ a ∈ (c.without p).nested, Attribute.check a = .ok () := by
  obtain ⟨fields, methods, own⟩ := forall_nested.mp checks
  have deleted {as : List Attribute} (h : ∀ a ∈ as, Attribute.check a = .ok ()) :=
    Attribute.check_withoutList (p := p) (Attribute.checkList_eq_ok.mpr h)
  simp only [Attribute.checkList_eq_ok] at deleted
  constructor
  · refine ⟨counted.interfaces, ?_, ?_, ?_, ?_, ?_⟩
    · rw [without, List.length_map]
      exact counted.fields
    · rw [without, List.length_map]
      exact counted.methods
    · exact Nat.lt_of_le_of_lt (deleted own).1 counted.attributes
    · intro m mem
      obtain ⟨m', mem', rfl⟩ := List.mem_map.mp mem
      exact Nat.lt_of_le_of_lt (deleted (fields m' mem')).1 (counted.inFields m' mem')
    · intro m mem
      obtain ⟨m', mem', rfl⟩ := List.mem_map.mp mem
      exact Nat.lt_of_le_of_lt (deleted (methods m' mem')).1 (counted.inMethods m' mem')
  · refine forall_nested.mpr ⟨fun m mem => ?_, fun m mem => ?_, (deleted own).2.1⟩
    · obtain ⟨m', mem', rfl⟩ := List.mem_map.mp mem
      exact (deleted (fields m' mem')).2.1
    · obtain ⟨m', mem', rfl⟩ := List.mem_map.mp mem
      exact (deleted (methods m' mem')).2.1

end

/-! ## Equal views -/

/-- How many bytes a run of instructions takes. -/
def CodeView.size (v : CodeView) : Nat := (v.map (·.size)).sum

/-- The view of a code array takes as many bytes as the array. -/
theorem ConstantPool.length_of_codeView {pool : ConstantPool} {code : Bytes} {v : CodeView}
    (h : pool.codeView code = .ok v) : v.size = code.length := by
  obtain ⟨is, decoded, views⟩ := bind_eq_ok.mp h
  rw [← Bytecode.encode_of_decodeFrom decoded]
  have sizes := (mapM_eq_ok.mp views).imp fun _ _ h => (sameForm_of_mapRef h).size_eq
  clear h decoded views
  induction sizes with
  | nil => rfl
  | cons head _ ih =>
    simp only [CodeView.size, Bytecode.encode, List.map_cons, List.sum_cons, List.flatMap_cons,
      List.length_append, Instruction.length_bytes] at ih ⊢
    rw [ih, head]

/-- Replacing every reference by 0 and every code array by one that has its length. -/
def blankMap : RefMap (Except ClassError) (Option ConstantTree) PoolIndex CodeView Bytes where
  required _ := .ok 0
  optional _ := .ok 0
  code v := .ok (List.replicate v.size 0)

/-- Walks that cannot fail. -/
def succeeding (ε : Type) : Simulation (Except ε) Id where
  rel r x a' := ∃ a, x = .ok a ∧ r a a'
  pure h := ⟨_, rfl, h⟩
  bind hx hk := by
    obtain ⟨a, ha, first⟩ := hx
    obtain ⟨b, hb, last⟩ := hk a _
    exact ⟨b, by rw [ha, ok_bind, hb], last first⟩

/-- Every view has a class of its shape, with nothing to refer to. -/
theorem exists_blank (v : ClassView) : ∃ d, v.mapRefs blankMap = .ok d := by
  have related : RefMap.Related (succeeding ClassError) blankMap
      (⟨fun _ => pure (), fun _ => pure (), fun _ => pure ()⟩ :
        RefMap Id (Option ConstantTree) Unit CodeView Unit)
      ⟨fun _ => (pure () : Id Unit), fun _ => pure (), fun _ => pure ()⟩
      ⟨fun _ => pure (), fun _ => pure (), fun _ => pure ()⟩ :=
    ⟨fun _ => ⟨_, rfl, rfl⟩, fun _ => ⟨_, rfl, rfl⟩, fun _ => ⟨_, rfl, rfl⟩⟩
  obtain ⟨d, hd, _⟩ := ClassOf.mapRefs_related related v
  exact ⟨d, hd⟩

/-- **Of two classes with one view, both can be written or neither**, apart from their pools. -/
theorem ClassFile.length_of_view {c d : ClassFile} {v : ClassView} (h : c.view = .ok v)
    (h' : d.view = .ok v) : (d.Counted ↔ c.Counted) ∧
      ((∀ a ∈ d.nested, Attribute.check a = .ok ()) ↔ ∀ a ∈ c.nested, Attribute.check a = .ok ()) := by
  obtain ⟨e, blank⟩ := exists_blank v
  have step {x : ClassFile} (hx : x.view = .ok v) := by
    have walk := ClassOf.mapRefs_bind id (fun _ => rfl) hx (g := blankMap)
    rw [blank] at walk
    refine ClassOf.length_of_mapRefs (fun b b' hb => ?_) walk.symm
    obtain ⟨w, hw, hb⟩ := bind_eq_ok.mp hb
    cases hb
    rw [List.length_replicate, ConstantPool.length_of_codeView hw]
  exact ⟨(step h').1.symm.trans (step h).1, (step h').2.symm.trans (step h).2⟩

end ProcessorBench
