import ProcessorBench.ClassFile.Reflection
import ProcessorBench.Proofs.Deletion

/-!
# What a class says about itself depends on its view

Each question of `ClassFile.Reflection` has its counterpart on views, and over a pool without cycles
the two have one answer: both fail, or both give the same. So classes with one view answer alike.
Debug attributes answer nothing, so leaving them out keeps every answer that there was.
-/

namespace ProcessorBench

section
variable {ε α β : Type}

/-- Whether two steps give something is told step by step. -/
theorem toOption_bind (x : Except ε α) (k : α → Except ε β) :
    (x >>= k).toOption = x.toOption >>= fun a => (k a).toOption := by
  cases x <;> rfl

theorem toOption_pure (a : α) : (pure a : Except ε α).toOption = some a := rfl

theorem toOption_eq_some {x : Except ε α} {a : α} : x.toOption = some a ↔ x = .ok a := by
  cases x <;> simp [Except.toOption]

/-- Whether a row of steps gives something is told step by step. -/
theorem mapM_toOption {γ : Type} {f : α → Except ε β} {g : γ → Option β} {as : List α} {cs : List γ}
    (h : List.Forall₂ (fun a c => (f a).toOption = g c) as cs) : (as.mapM f).toOption = cs.mapM g := by
  induction h with
  | nil => rfl
  | cons head _ ih =>
    simp only [List.mapM_cons, toOption_bind, toOption_pure, head, ih]
    rfl

end

/-! ## Texts and names -/

namespace ConstantTree

/-- The text of a text constant, undecoded. -/
def bytes : ConstantTree → Option Bytes
  | ⟨.utf8 bytes⟩ => some bytes
  | _ => none

/-- The text of a text constant. -/
def text (t : ConstantTree) : Option String := do (ModifiedUtf8.decode (← t.bytes)).toOption

/-- The name that a class constant holds. -/
def className : ConstantTree → Option String
  | ⟨.classInfo name⟩ => name.text
  | _ => none

/-- The number that a constant is. Any other constant is like an empty text, which is none. -/
def literal : ConstantTree → Constant
  | ⟨.integer value⟩ => .integer value
  | ⟨.float bits⟩ => .float bits
  | ⟨.long value⟩ => .long value
  | ⟨.double bits⟩ => .double bits
  | _ => .utf8 []

end ConstantTree

namespace ConstantPool

variable {pool : ConstantPool} (h : pool.Acyclic) {i : PoolIndex} {t : ConstantTree}
  (ht : pool.tree i = .ok t)
include h ht

/-- The bytes of a text are those of its tree. -/
theorem utf8Bytes_toOption : (pool.utf8Bytes i).toOption = t.bytes := by
  obtain ⟨d⟩ := t
  obtain ⟨c, hc, hd⟩ := h.tree_eq_ok.mp ht
  have tag := ConstantOf.tag_of_mapRefs hd
  rw [utf8Bytes, hc, ok_bind]
  cases c with
  | utf8 text =>
    cases hd
    rfl
  | _ => cases d <;> first | rfl | cases tag

/-- A text is that of its tree. -/
theorem utf8_toOption : (pool.utf8 i).toOption = t.text := by
  rw [utf8, toOption_bind, utf8Bytes_toOption h ht, ConstantTree.text]

/-- The name of a class is that of its tree. -/
theorem className_toOption : (pool.className i).toOption = t.className := by
  obtain ⟨d⟩ := t
  obtain ⟨c, hc, hd⟩ := h.tree_eq_ok.mp ht
  have tag := ConstantOf.tag_of_mapRefs hd
  rw [className, hc, ok_bind]
  cases c with
  | classInfo name =>
    obtain ⟨t', ht', hd⟩ := bind_eq_ok.mp hd
    cases hd
    exact utf8_toOption h ht'
  | _ => cases d <;> first | rfl | cases tag

/-- A constant value is that of its tree, under every tag. -/
theorem literal_toOption (tag : ElementTag) :
    (do tag.resolve i (← pool.get i)).toOption = (tag.resolve 0 t.literal).toOption := by
  obtain ⟨d⟩ := t
  obtain ⟨c, hc, hd⟩ := h.tree_eq_ok.mp ht
  have kind := ConstantOf.tag_of_mapRefs hd
  rw [hc, ok_bind]
  cases c with
  | integer _ | float _ | long _ | double _ =>
    cases hd
    cases tag <;> rfl
  | _ =>
    -- No other constant is a number, in the pool or as a tree.
    cases d <;> first | (cases tag <;> rfl) | cases kind

end ConstantPool

/-! ## Annotations -/

/-- The text of what a reference has been replaced by. -/
def textOf (t : Option ConstantTree) : Option String := do (← t).text

mutual

/-- Look up an element value in its view. -/
def ElementValueOf.answer : ElementValueOf (Option ConstantTree) → Option AnnotationValue
  | .const .string t => return .string (← textOf t)
  | .const tag t => do (tag.resolve 0 (← t).literal).toOption
  | .enumConst typeName constName => return .enumConst (← textOf typeName) (← textOf constName)
  | .classInfo descriptor => return .classInfo (← textOf descriptor)
  | .nested value => return .nested (← value.answer)
  | .array values => return .array (← ElementValueOf.answerList values)

/-- Look up a list of element values in their views. -/
def ElementValueOf.answerList :
    List (ElementValueOf (Option ConstantTree)) → Option (List AnnotationValue)
  | [] => return []
  | value :: values => return (← value.answer) :: (← ElementValueOf.answerList values)

/-- Look up an annotation in its view. -/
def AnnotationOf.answer : AnnotationOf (Option ConstantTree) → Option AnnotationContent
  | ⟨type, elements⟩ => return ⟨← textOf type, ← ElementOf.answerList elements⟩

/-- Look up a list of elements in their views. -/
def ElementOf.answerList : List (ElementOf (Option ConstantTree)) → Option (List ResolvedElement)
  | [] => return []
  | element :: elements => return (← element.answer) :: (← ElementOf.answerList elements)

/-- Look up an element in its view. -/
def ElementOf.answer : ElementOf (Option ConstantTree) → Option ResolvedElement
  | ⟨name, value⟩ => return ⟨← textOf name, ← value.answer⟩

end

section
variable {pool : ConstantPool} (h : pool.Acyclic)
include h

/-- A text is read off the view of its index. -/
theorem ConstantPool.text_of_requiredView {i : PoolIndex} {t : Option ConstantTree}
    (ht : pool.requiredView i = .ok t) : (pool.utf8 i).toOption = textOf t := by
  obtain ⟨t, there, same⟩ := bind_eq_ok.mp ht
  cases same
  exact utf8_toOption h there

-- The theorems about lists need acyclicity only through those about their members.
set_option linter.unusedSectionVars false

mutual

/-- **A value says what its view says.** -/
theorem ElementValueOf.resolve_toOption :
    ∀ {v : ElementValue} {w : ElementValueOf (Option ConstantTree)},
    v.mapRefs pool.requiredView = .ok w → (ElementValue.resolve pool v).toOption = w.answer
  | .const tag i, w, hw => by
    rw [ElementValueOf.mapRefs] at hw
    obtain ⟨_, ht, hw⟩ := bind_eq_ok.mp hw
    cases hw
    obtain ⟨t, there, same⟩ := bind_eq_ok.mp ht
    cases same
    cases tag with
    | string =>
      simp only [ElementValue.resolve, ElementValueOf.answer, toOption_bind, toOption_pure,
        ConstantPool.text_of_requiredView h ht]
      rfl
    | _ => exact ConstantPool.literal_toOption h there _
  | .enumConst i j, w, hw => by
    rw [ElementValueOf.mapRefs] at hw
    obtain ⟨_, hi, hw⟩ := bind_eq_ok.mp hw
    obtain ⟨_, hj, hw⟩ := bind_eq_ok.mp hw
    cases hw
    simp only [ElementValue.resolve, ElementValueOf.answer, toOption_bind, toOption_pure,
      ConstantPool.text_of_requiredView h hi, ConstantPool.text_of_requiredView h hj]
    rfl
  | .classInfo i, w, hw => by
    rw [ElementValueOf.mapRefs] at hw
    obtain ⟨_, hi, hw⟩ := bind_eq_ok.mp hw
    cases hw
    simp only [ElementValue.resolve, ElementValueOf.answer, toOption_bind, toOption_pure,
      ConstantPool.text_of_requiredView h hi]
    rfl
  | .nested value, w, hw => by
    rw [ElementValueOf.mapRefs] at hw
    obtain ⟨_, hv, hw⟩ := bind_eq_ok.mp hw
    cases hw
    simp only [ElementValue.resolve, ElementValueOf.answer, toOption_bind, toOption_pure,
      AnnotationOf.resolve_toOption hv]
    rfl
  | .array values, w, hw => by
    rw [ElementValueOf.mapRefs] at hw
    obtain ⟨_, hv, hw⟩ := bind_eq_ok.mp hw
    cases hw
    simp only [ElementValue.resolve, ElementValueOf.answer, toOption_bind, toOption_pure,
      ElementValueOf.resolveList_toOption hv]
    rfl

/-- Values say what their views say. -/
theorem ElementValueOf.resolveList_toOption : ∀ {vs : List ElementValue}
    {ws : List (ElementValueOf (Option ConstantTree))},
    ElementValueOf.mapRefsList pool.requiredView vs = .ok ws →
      (ElementValue.resolveList pool vs).toOption = ElementValueOf.answerList ws
  | [], ws, hw => by
    cases hw
    rfl
  | v :: vs, ws, hw => by
    rw [ElementValueOf.mapRefsList] at hw
    obtain ⟨_, hv, hw⟩ := bind_eq_ok.mp hw
    obtain ⟨_, hvs, hw⟩ := bind_eq_ok.mp hw
    cases hw
    simp only [ElementValue.resolveList, ElementValueOf.answerList, toOption_bind, toOption_pure,
      ElementValueOf.resolve_toOption hv, ElementValueOf.resolveList_toOption hvs]
    rfl

/-- An annotation says what its view says. -/
theorem AnnotationOf.resolve_toOption :
    ∀ {a : AnnotationInfo} {w : AnnotationOf (Option ConstantTree)},
    a.mapRefs pool.requiredView = .ok w → (AnnotationInfo.resolve pool a).toOption = w.answer
  | ⟨type, elements⟩, w, hw => by
    rw [AnnotationOf.mapRefs] at hw
    obtain ⟨_, htype, hw⟩ := bind_eq_ok.mp hw
    obtain ⟨_, helements, hw⟩ := bind_eq_ok.mp hw
    cases hw
    simp only [AnnotationInfo.resolve, AnnotationOf.answer, toOption_bind, toOption_pure,
      ConstantPool.text_of_requiredView h htype, ElementOf.resolveList_toOption helements]
    rfl

/-- Elements say what their views say. -/
theorem ElementOf.resolveList_toOption : ∀ {es : List Element}
    {ws : List (ElementOf (Option ConstantTree))},
    ElementOf.mapRefsList pool.requiredView es = .ok ws →
      (Element.resolveList pool es).toOption = ElementOf.answerList ws
  | [], ws, hw => by
    cases hw
    rfl
  | e :: es, ws, hw => by
    rw [ElementOf.mapRefsList] at hw
    obtain ⟨_, he, hw⟩ := bind_eq_ok.mp hw
    obtain ⟨_, hes, hw⟩ := bind_eq_ok.mp hw
    cases hw
    simp only [Element.resolveList, ElementOf.answerList, toOption_bind, toOption_pure,
      ElementOf.resolve_toOption he, ElementOf.resolveList_toOption hes]
    rfl

/-- An element says what its view says. -/
theorem ElementOf.resolve_toOption : ∀ {e : Element} {w : ElementOf (Option ConstantTree)},
    e.mapRefs pool.requiredView = .ok w → (Element.resolve pool e).toOption = w.answer
  | ⟨name, value⟩, w, hw => by
    rw [ElementOf.mapRefs] at hw
    obtain ⟨_, hname, hw⟩ := bind_eq_ok.mp hw
    obtain ⟨_, hvalue, hw⟩ := bind_eq_ok.mp hw
    cases hw
    simp only [Element.resolve, ElementOf.answer, toOption_bind, toOption_pure,
      ConstantPool.text_of_requiredView h hname, ElementValueOf.resolve_toOption hvalue]
    rfl

end

end

/-! ## Classes -/

/-- The binary name that the class constant in place of a reference holds. -/
def nameOf (t : Option ConstantTree) : Option String := do
  return ClassName.ofInternal (← (← t).className)

namespace ClassView

/-- The binary name. -/
def name (v : ClassView) : Option String := nameOf v.thisClass

/-- The binary name of the superclass, if there is one. -/
def superName (v : ClassView) : Option (Option String) :=
  if v.superClass = none then return none else return some (← nameOf v.superClass)

/-- The binary names of the interfaces that the class declares. -/
def interfaceNames (v : ClassView) : Option (List String) := v.interfaces.mapM nameOf

/-- The name and the descriptor of each of a list of members. -/
def signatures (members : List (MemberOf (Option ConstantTree) CodeView)) :
    Option (List (String × String)) :=
  members.mapM fun m => return (← textOf m.name, ← textOf m.descriptor)

/-- The annotations an attribute holds that are visible at run time. -/
def visibleAnnotationsIn (a : AttributeOf (Option ConstantTree) CodeView) :
    Option (List AnnotationContent) :=
  match a.body with
  | .annotations annotations => do
    if Utf8.decodeLossy (← (← a.name).bytes) = ClassFile.visibleAnnotationsName then
      annotations.mapM (·.answer)
    else return []
  | _ => return []

/-- The annotations of the class that are visible at run time. -/
def visibleAnnotations (v : ClassView) : Option (List AnnotationContent) :=
  return (← v.attributes.mapM visibleAnnotationsIn).flatten

end ClassView

/-- Each question has one answer, or none, for a class and for its view. -/
structure ClassFile.AnsweredBy (c : ClassFile) (v : ClassView) : Prop where
  name : c.name.toOption = v.name
  superName : c.superName.toOption = v.superName
  interfaceNames : c.interfaceNames.toOption = v.interfaceNames
  fieldSignatures : c.fieldSignatures.toOption = ClassView.signatures v.fields
  methodSignatures : c.methodSignatures.toOption = ClassView.signatures v.methods
  visibleAnnotations : c.visibleAnnotations.toOption = v.visibleAnnotations

section
variable {pool : ConstantPool} (h : pool.Acyclic)
include h

/-- The name of a class is read off the view of its index. -/
theorem ConstantPool.name_of_requiredView {i : PoolIndex} {t : Option ConstantTree}
    (ht : pool.requiredView i = .ok t) :
    (pool.className i >>= fun n => pure (ClassName.ofInternal n)).toOption = nameOf t := by
  obtain ⟨t, there, same⟩ := bind_eq_ok.mp ht
  cases same
  rw [toOption_bind, className_toOption h there]
  rfl

/-- Signatures are read off the view of the members. -/
theorem ClassFile.signatures_toOption {members : List Member}
    {members' : List (MemberOf (Option ConstantTree) CodeView)}
    (hm : members.mapM (·.mapRefs pool.viewMap) = .ok members') :
    (signatures pool members).toOption = ClassView.signatures members' := by
  refine mapM_toOption ((mapM_eq_ok.mp hm).imp fun m m' hm => ?_)
  obtain ⟨_, name, descriptor, _⟩ := MemberOf.parts_of_mapRefs hm
  simp only [toOption_bind, toOption_pure, ConstantPool.text_of_requiredView h name,
    ConstantPool.text_of_requiredView h descriptor]
  rfl

/-- Annotations are read off the view of their attribute. -/
theorem ClassFile.visibleAnnotationsIn_toOption {a : Attribute}
    {a' : AttributeOf (Option ConstantTree) CodeView} (ha : a.mapRefs pool.viewMap = .ok a') :
    (visibleAnnotationsIn pool a).toOption = ClassView.visibleAnnotationsIn a' := by
  obtain ⟨name, body⟩ := a
  obtain ⟨name', body'⟩ := a'
  obtain ⟨hname, hbody⟩ := AttributeOf.parts_of_mapRefs ha
  have kind := AttributeBodyOf.kind_of_mapRefs hbody
  cases body with
  | annotations annotations =>
    rw [AttributeBodyOf.mapRefs] at hbody
    obtain ⟨annotations', hannotations, same⟩ := bind_eq_ok.mp hbody
    cases same
    obtain ⟨t, there, same⟩ := bind_eq_ok.mp hname
    cases same
    have answers : (annotations.mapM (AnnotationInfo.resolve pool)).toOption =
        annotations'.mapM (·.answer) :=
      mapM_toOption ((mapM_eq_ok.mp hannotations).imp fun _ _ => AnnotationOf.resolve_toOption h)
    simp only [visibleAnnotationsIn, ClassView.visibleAnnotationsIn, Attribute.nameText, toOption_bind,
      toOption_pure, ConstantPool.utf8Bytes_toOption h there, Option.bind_eq_bind, Option.bind_some]
    cases t.bytes with
    | none => rfl
    | some bytes =>
      simp only [Option.bind_some]
      split
      · exact answers
      · rfl
  | _ => cases body' <;> first | rfl | cases kind

end

/-- **What a class says about itself depends on its view.** -/
theorem ClassFile.answeredBy_of_view {c : ClassFile} {v : ClassView} (acyclic : c.pool.Acyclic)
    (h : c.view = .ok v) : c.AnsweredBy v := by
  obtain ⟨this, super, interfaces, fields, methods, attributes⟩ := ClassOf.parts_of_mapRefs h
  refine ⟨ConstantPool.name_of_requiredView acyclic this, ?_,
    mapM_toOption
      ((mapM_eq_ok.mp interfaces).imp fun _ _ => ConstantPool.name_of_requiredView acyclic),
    signatures_toOption acyclic fields, signatures_toOption acyclic methods, ?_⟩
  · change c.pool.optionalView c.superClass = .ok v.superClass at super
    rw [superName, ClassView.superName]
    unfold ConstantPool.optionalView at super
    split at super
    · next none =>
      rw [if_pos none, ← Except.ok.inj super, if_pos rfl]
      rfl
    · next some =>
      obtain ⟨t, there, same⟩ := bind_eq_ok.mp super
      rw [if_neg some, ← Except.ok.inj same, if_neg (Option.some_ne_none t), toOption_bind,
        ConstantPool.className_toOption acyclic there]
      simp only [nameOf, Option.bind_eq_bind, Option.bind_some, Option.bind_assoc]
      rfl
  · rw [visibleAnnotations, toOption_bind, mapM_toOption ((mapM_eq_ok.mp attributes).imp fun _ _ =>
      visibleAnnotationsIn_toOption acyclic)]
    rfl

end ProcessorBench
