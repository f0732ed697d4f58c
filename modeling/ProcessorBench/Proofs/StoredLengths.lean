import ProcessorBench.Proofs.ClassCodec

/-!
# The lengths that a class file stores

Writing fails for one reason only: a length does not fit the field that the format gives it.
`ClassFile.lengths` lists the lengths of a class in the order in which they are written, each with
the limit that it is under, and `ClassFile.toBytes_eq` says that writing stops at the first of them
that is too large and otherwise gives the written form.
-/

namespace ProcessorBench

/-- The least length that a limit excludes. -/
def Limit.bound : Limit → Nat
  | .parameters | .loadOperand | .renumberedLoadOperand => UInt8.size
  | .attributeLength | .codeLength => UInt32.size
  | _ => UInt16.size

/-- A length that is stored in a field of its own. -/
structure StoredLength where
  limit : Limit
  length : Nat

/-- Whether a length is too large for its field. -/
def StoredLength.Exceeds (l : StoredLength) : Prop := l.limit.bound ≤ l.length

instance (l : StoredLength) : Decidable l.Exceeds := inferInstanceAs (Decidable (_ ≤ _))

/-- Store a length, if it fits. -/
def StoredLength.check (l : StoredLength) : Except ClassError Unit :=
  if l.length < l.limit.bound then .ok () else .error (.overflow l.limit)

/-- Store some lengths, one after another. -/
def checkLengths : List StoredLength → Except ClassError Unit
  | [] => .ok ()
  | l :: ls => do
    l.check
    checkLengths ls

/-! ## The first that is too large -/

/-- A length is refused if it exceeds its limit. -/
theorem StoredLength.check_eq (l : StoredLength) :
    l.check = if l.Exceeds then .error (.overflow l.limit) else .ok () := by
  by_cases large : l.Exceeds
  · rw [if_pos large, check, if_neg (Nat.not_lt.mpr large)]
  · rw [if_neg large, check, if_pos (Nat.not_le.mp large)]

/-- Storing lengths fails with the first that is too large. -/
theorem checkLengths_eq (ls : List StoredLength) :
    checkLengths ls = match ls.find? fun l => decide l.Exceeds with
      | none => .ok ()
      | some l => .error (.overflow l.limit) := by
  induction ls with
  | nil => rfl
  | cons l ls ih =>
    rw [checkLengths, StoredLength.check_eq]
    by_cases large : l.Exceeds
    · simp [large]
    · simpa [large] using ih

/-- Lengths are checked one after the other. -/
theorem checkLengths_append (ls ls' : List StoredLength) :
    checkLengths (ls ++ ls') = (do
      checkLengths ls
      checkLengths ls') := by
  induction ls with
  | nil => rfl
  | cons l ls ih =>
    rw [List.cons_append, checkLengths, checkLengths, ih]
    cases l.check <;> rfl

theorem checkLengths_singleton (l : StoredLength) : checkLengths [l] = l.check := by
  rw [checkLengths, checkLengths]
  cases l.check <;> rfl

/-- A walk that stores the lengths of each member of a list stores all of them. -/
theorem forM_checkLengths {α : Type} {f : α → Except ClassError Unit} {g : α → List StoredLength}
    {as : List α} (h : ∀ a ∈ as, f a = checkLengths (g a)) :
    as.forM f = checkLengths (as.flatMap g) := by
  induction as with
  | nil => rfl
  | cons a as ih =>
    obtain ⟨first, rest⟩ := List.forall_mem_cons.mp h
    rw [List.flatMap_cons, checkLengths_append, ← first, ← ih rest]
    rfl

/-! ## The lengths of each part -/

section
variable {ι : Type}

mutual

/-- The lengths inside an element value. -/
def ElementValueOf.lengths : ElementValueOf ι → List StoredLength
  | .const .. | .enumConst .. | .classInfo _ => []
  | .nested value => value.lengths
  | .array values => ⟨.annotationArray, values.length⟩ :: ElementValueOf.lengthsList values

/-- The lengths inside some element values. -/
def ElementValueOf.lengthsList : List (ElementValueOf ι) → List StoredLength
  | [] => []
  | value :: values => value.lengths ++ ElementValueOf.lengthsList values

/-- The lengths inside an annotation. -/
def AnnotationOf.lengths : AnnotationOf ι → List StoredLength
  | ⟨_, elements⟩ => ⟨.annotationElements, elements.length⟩ :: ElementOf.lengthsList elements

/-- The lengths inside some elements. -/
def ElementOf.lengthsList : List (ElementOf ι) → List StoredLength
  | [] => []
  | element :: elements => element.lengths ++ ElementOf.lengthsList elements

/-- The lengths inside the value of an element. -/
def ElementOf.lengths : ElementOf ι → List StoredLength
  | ⟨_, value⟩ => value.lengths

end

mutual

/-- Checking a value is checking the lengths that it is stored with. -/
theorem ElementValueOf.check_eq : ∀ v : ElementValueOf ι, v.check = checkLengths v.lengths
  | .const .. | .enumConst .. | .classInfo _ => rfl
  | .nested value => AnnotationOf.check_eq value
  | .array values => by
    rw [ElementValueOf.check, ElementValueOf.lengths, checkLengths, ElementValueOf.checkList_eq]
    rfl

theorem ElementValueOf.checkList_eq : ∀ vs : List (ElementValueOf ι),
    ElementValueOf.checkList vs = checkLengths (ElementValueOf.lengthsList vs)
  | [] => rfl
  | v :: vs => by
    rw [ElementValueOf.checkList, ElementValueOf.lengthsList, checkLengths_append,
      ElementValueOf.check_eq, ElementValueOf.checkList_eq]

/-- Checking an annotation is checking the lengths that it is stored with. -/
theorem AnnotationOf.check_eq : ∀ a : AnnotationOf ι, a.check = checkLengths a.lengths
  | ⟨_, elements⟩ => by
    rw [AnnotationOf.check, AnnotationOf.lengths, checkLengths, ElementOf.checkList_eq]
    rfl

theorem ElementOf.checkList_eq : ∀ es : List (ElementOf ι),
    ElementOf.checkList es = checkLengths (ElementOf.lengthsList es)
  | [] => rfl
  | e :: es => by
    rw [ElementOf.checkList, ElementOf.lengthsList, checkLengths_append, ElementOf.check_eq,
      ElementOf.checkList_eq]

theorem ElementOf.check_eq : ∀ e : ElementOf ι, e.check = checkLengths e.lengths
  | ⟨_, value⟩ => ElementValueOf.check_eq value

end

end

/-- The lengths of a list of annotations, its own first. -/
def AnnotationInfo.lengthsList (annotations : List AnnotationInfo) : List StoredLength :=
  ⟨.annotations, annotations.length⟩ :: annotations.flatMap AnnotationOf.lengths

theorem AnnotationInfo.checkList_eq (annotations : List AnnotationInfo) :
    (do
      checkCount annotations.length .annotations
      annotations.forM AnnotationOf.check) =
      checkLengths (AnnotationInfo.lengthsList annotations) := by
  rw [lengthsList, checkLengths, forM_checkLengths fun a _ => AnnotationOf.check_eq a]
  rfl

mutual

/-- The lengths inside a body. -/
def AttributeBody.lengths : AttributeBody → List StoredLength
  | .code ⟨_, _, code, handlers, attributes⟩ =>
    ⟨.codeLength, code.length⟩ :: ⟨.exceptionTable, handlers.length⟩ ::
      ⟨.attributes, attributes.length⟩ :: Attribute.lengthsList attributes
  | .constantValue _ | .signature _ | .sourceFile _ | .nestHost _ | .enclosingMethod .. => []
  | .exceptions indices => [⟨.exceptions, indices.length⟩]
  | .nestMembers indices => [⟨.nestMembers, indices.length⟩]
  | .permittedSubclasses indices => [⟨.permittedSubclasses, indices.length⟩]
  | .innerClasses classes => [⟨.innerClasses, classes.length⟩]
  | .bootstrapMethods methods =>
    ⟨.bootstrapMethods, methods.length⟩ ::
      methods.flatMap fun method => [⟨.bootstrapArguments, method.arguments.length⟩]
  | .record components =>
    ⟨.recordComponents, components.length⟩ :: RecordComponent.lengthsList components
  | .annotationDefault value => value.lengths
  | .annotations annotations => AnnotationInfo.lengthsList annotations
  | .parameterAnnotations parameters =>
    ⟨.parameters, parameters.length⟩ :: parameters.flatMap AnnotationInfo.lengthsList
  | .typeAnnotations annotations =>
    ⟨.typeAnnotations, annotations.length⟩ :: annotations.flatMap (·.content.lengths)
  | .marker | .raw _ => []

/-- The lengths inside an attribute, and then that of its body. -/
def Attribute.lengths : Attribute → List StoredLength
  | ⟨_, body⟩ =>
    AttributeBody.lengths body ++ [⟨.attributeLength, (AttributeBody.bytes body).length⟩]

/-- The lengths inside some attributes. -/
def Attribute.lengthsList : List Attribute → List StoredLength
  | [] => []
  | a :: attributes => Attribute.lengths a ++ Attribute.lengthsList attributes

/-- The lengths inside a record component. -/
def RecordComponent.lengths : RecordComponent → List StoredLength
  | ⟨_, _, attributes⟩ => ⟨.attributes, attributes.length⟩ :: Attribute.lengthsList attributes

/-- The lengths inside some record components. -/
def RecordComponent.lengthsList : List RecordComponent → List StoredLength
  | [] => []
  | component :: components =>
    RecordComponent.lengths component ++ RecordComponent.lengthsList components

end

/-- The check of a length behind which others follow. -/
theorem check_then {p : Prop} [Decidable p] {l : StoredLength} {x : Except ClassError Unit}
    (h : p ↔ l.length < l.limit.bound) :
    (do
      unless p do throw (ClassError.overflow l.limit)
      x) = (do
        l.check
        x) := by
  unfold StoredLength.check
  by_cases small : p
  · rw [if_pos (h.mp small), if_pos small]
    rfl
  · rw [if_neg (fun fits => small (h.mpr fits)), if_neg small]
    rfl

mutual

/-- Checking a body is checking the lengths that it is stored with. -/
theorem AttributeBody.check_eq : ∀ body : AttributeBody,
    AttributeBody.check body = checkLengths (AttributeBody.lengths body)
  | .code ⟨_, _, code, handlers, attributes⟩ => by
    rw [AttributeBody.check, AttributeBody.lengths, checkLengths, checkLengths, checkLengths,
      ← Attribute.checkList_eq]
    exact check_then (l := ⟨.codeLength, code.length⟩) Iff.rfl
  | .constantValue _ | .signature _ | .sourceFile _ | .nestHost _ | .enclosingMethod .. => rfl
  | .exceptions _ | .nestMembers _ | .permittedSubclasses _ | .innerClasses _ => by
    rw [AttributeBody.lengths, checkLengths_singleton]
    rfl
  | .bootstrapMethods methods => by
    have inside (m : BootstrapMethod) : checkCount m.arguments.length .bootstrapArguments =
        checkLengths [⟨.bootstrapArguments, m.arguments.length⟩] :=
      (checkLengths_singleton ⟨.bootstrapArguments, m.arguments.length⟩).symm
    rw [AttributeBody.check, AttributeBody.lengths, checkLengths,
      forM_checkLengths fun m _ => inside m]
    rfl
  | .record components => by
    rw [AttributeBody.check, AttributeBody.lengths, checkLengths, ← RecordComponent.checkList_eq]
    rfl
  | .annotationDefault value => ElementValueOf.check_eq value
  | .annotations annotations => AnnotationInfo.checkList_eq annotations
  | .parameterAnnotations parameters => by
    rw [AttributeBody.check, AttributeBody.lengths, checkLengths,
      forM_checkLengths fun as _ => AnnotationInfo.checkList_eq as]
    exact check_then (l := ⟨.parameters, parameters.length⟩) Iff.rfl
  | .typeAnnotations annotations => by
    rw [AttributeBody.check, AttributeBody.lengths, checkLengths,
      forM_checkLengths fun a _ => AnnotationOf.check_eq a.content]
    rfl
  | .marker | .raw _ => rfl

/-- Checking an attribute is checking the lengths that it is stored with. -/
theorem Attribute.check_eq : ∀ a : Attribute, Attribute.check a = checkLengths (Attribute.lengths a)
  | ⟨_, body⟩ => by
    rw [Attribute.check, Attribute.lengths, checkLengths_append, checkLengths_singleton,
      AttributeBody.check_eq]
    rfl

theorem Attribute.checkList_eq : ∀ as : List Attribute,
    Attribute.checkList as = checkLengths (Attribute.lengthsList as)
  | [] => rfl
  | a :: as => by
    rw [Attribute.checkList, Attribute.lengthsList, checkLengths_append, Attribute.check_eq,
      Attribute.checkList_eq]

/-- Checking a component of a record is checking the lengths that it is stored with. -/
theorem RecordComponent.check_eq : ∀ c : RecordComponent,
    RecordComponent.check c = checkLengths (RecordComponent.lengths c)
  | ⟨_, _, attributes⟩ => by
    rw [RecordComponent.check, RecordComponent.lengths, checkLengths, Attribute.checkList_eq]
    rfl

theorem RecordComponent.checkList_eq : ∀ cs : List RecordComponent,
    RecordComponent.checkList cs = checkLengths (RecordComponent.lengthsList cs)
  | [] => rfl
  | c :: cs => by
    rw [RecordComponent.checkList, RecordComponent.lengthsList, checkLengths_append,
      RecordComponent.check_eq, RecordComponent.checkList_eq]

end

/-- The lengths of a list of attributes, its own first. -/
def Attribute.countedLengths (attributes : List Attribute) : List StoredLength :=
  ⟨.attributes, attributes.length⟩ :: Attribute.lengthsList attributes

theorem Attribute.checkCounted_eq (attributes : List Attribute) :
    Attribute.checkCounted attributes = checkLengths (Attribute.countedLengths attributes) := by
  rw [checkCounted, countedLengths, checkLengths, checkList_eq]
  rfl

/-- The length of a text. -/
def Constant.lengths : Constant → List StoredLength
  | .utf8 bytes => [⟨.utf8Length, bytes.length⟩]
  | _ => []

/-- Checking a constant is checking the length of its text, if it has one. -/
theorem Constant.check_eq (c : Constant) : c.check = checkLengths c.lengths := by
  cases c with
  | utf8 bytes =>
    rw [lengths, checkLengths_singleton]
    rfl
  | _ => rfl

/-- The number of slots, and the lengths of the texts. -/
def ConstantPool.lengths (pool : ConstantPool) : List StoredLength :=
  ⟨.poolSlots, pool.slotCount⟩ :: pool.constants.flatMap Constant.lengths

/-- Checking a pool is checking the number of its slots and its constants. -/
theorem ConstantPool.check_eq (pool : ConstantPool) : pool.check = checkLengths pool.lengths := by
  rw [check, lengths, checkLengths, ← forM_checkLengths fun c _ => Constant.check_eq c]
  exact check_then (l := ⟨.poolSlots, pool.slotCount⟩) Iff.rfl

/-! ## The lengths of a class -/

namespace ClassFile

/-- The lengths that a class file stores, in order. -/
def lengths (c : ClassFile) : List StoredLength :=
  c.pool.lengths ++
    (⟨.interfaces, c.interfaces.length⟩ ::
      ⟨.fields, c.fields.length⟩ ::
        ((c.fields.flatMap fun m => Attribute.countedLengths m.attributes) ++
          (⟨.methods, c.methods.length⟩ ::
            ((c.methods.flatMap fun m => Attribute.countedLengths m.attributes) ++
              Attribute.countedLengths c.attributes))))

/-- **Checking a class is checking its lengths**, in the order in which they are written. -/
theorem check_eq (c : ClassFile) : c.check = checkLengths c.lengths := by
  have members (ms : List Member) : (ms.forM fun m => Attribute.checkCounted m.attributes) =
      checkLengths (ms.flatMap fun m => Attribute.countedLengths m.attributes) :=
    forM_checkLengths fun m _ => Attribute.checkCounted_eq m.attributes
  rw [check, lengths, checkLengths_append, checkLengths, checkLengths, checkLengths_append,
    checkLengths, checkLengths_append, ConstantPool.check_eq, members, members,
    Attribute.checkCounted_eq]
  rfl

/-- **Writing stops at the first length that is too large**, and gives the written form if there is
none. -/
theorem toBytes_eq (c : ClassFile) :
    c.toBytes = match c.lengths.find? fun l => decide l.Exceeds with
      | none => .ok c.bytes
      | some l => .error (.overflow l.limit) := by
  rw [toBytes, check_eq, checkLengths_eq]
  split <;> rfl

end ClassFile

end ProcessorBench
