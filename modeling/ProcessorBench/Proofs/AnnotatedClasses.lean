import ProcessorBench.Proofs.ClassBuilding
import ProcessorBench.Proofs.Grounded

/-!
# The annotations that a builder is given

A builder puts all annotations of a class into one attribute, which it adds with the first of them.
`Annotated` says so of the attributes collected so far, by way of the pool, and each step keeps it, so
in the end a reader finds the annotations that the builder has been given, in their order; and so does
a reader of the normal form.
-/

namespace ProcessorBench

/-- The annotation that a step adds. -/
def BuildStep.annotation? : BuildStep → Option AnnotationContent
  | .annotate content => some content
  | _ => none

/-- Some attributes, looked up in a pool, hold the annotations that have been told: no attribute holds
any as long as nothing has been told, and then one holds them all. -/
inductive Annotated (pool : ConstantPool) : List AnnotationContent → List Attribute → Prop
  | nothing {as : List Attribute} (others : ∀ a ∈ as, ClassBuilder.holdsAnnotations a = false) :
    Annotated pool [] as
  | all {told : List AnnotationContent} {before after : List Attribute} {name : PoolIndex}
    {annotations : List AnnotationInfo}
    (others : ∀ a ∈ before ++ after, ClassBuilder.holdsAnnotations a = false)
    (visible : pool.get name = .ok (.utf8 (ModifiedUtf8.encode ClassFile.visibleAnnotationsName)))
    (resolved : List.Forall₂ (fun a content => AnnotationInfo.resolve pool a = .ok content)
      annotations told) :
    Annotated pool told (before ++ ⟨name, .annotations annotations⟩ :: after)

namespace Annotated

open ClassBuilder (holdsAnnotations addAnnotationTo)

variable {p q : ConstantPool} {told : List AnnotationContent} {as : List Attribute}

/-- Attributes tell the same when constants are added to the pool. -/
theorem mono (h : p ≤ q) (annotated : Annotated p told as) : Annotated q told as := by
  cases annotated with
  | nothing others => exact .nothing others
  | all others visible resolved =>
    refine .all others (h _ _ visible) (resolved.imp fun a content => ?_)
    exact AnnotationInfo.resolve_of_leaves (ConstantPool.keepsLeaves_of_le h)

/-- An attribute that holds no annotations changes nothing. -/
theorem push {a : Attribute} (annotated : Annotated p told as) (other : holdsAnnotations a = false) :
    Annotated p told (as ++ [a]) := by
  have last : ∀ x ∈ [a], holdsAnnotations x = false := List.forall_mem_singleton.mpr other
  cases annotated with
  | nothing others => exact .nothing (List.forall_mem_append.mpr ⟨others, last⟩)
  | all others visible resolved =>
    rw [List.append_assoc, List.cons_append]
    refine .all ?_ visible resolved
    rw [← List.append_assoc]
    exact List.forall_mem_append.mpr ⟨others, last⟩

/-- The first annotation comes into a new attribute. -/
theorem first {content : AnnotationContent} {a : AnnotationInfo} {name : PoolIndex}
    (annotated : Annotated p told as) (none : as.findIdx? holdsAnnotations = none)
    (resolved : AnnotationInfo.resolve p a = .ok content)
    (visible : p.get name = .ok (.utf8 (ModifiedUtf8.encode ClassFile.visibleAnnotationsName))) :
    Annotated p (told ++ [content]) (as ++ [⟨name, .annotations [a]⟩]) := by
  have others := List.findIdx?_eq_none_iff.mp none
  cases annotated with
  | nothing _ => exact .all (by rwa [List.append_nil]) visible (.cons resolved .nil)
  | all _ _ _ => cases others _ (List.mem_append_right _ List.mem_cons_self)

theorem modify_append {α : Type} (before : List α) (x : α) (after : List α) (f : α → α) :
    (before ++ x :: after).modify before.length f = before ++ f x :: after := by
  induction before with
  | nil => rfl
  | cons b before ih => exact congrArg (b :: ·) ih

/-- The first member that a predicate holds of is found at its place. -/
theorem findIdx?_append_of_others {α : Type} {holds : α → Bool} {before : List α} {x : α}
    (others : ∀ a ∈ before, holds a = false) (this : holds x = true) (after : List α) :
    (before ++ x :: after).findIdx? holds = some before.length := by
  rw [List.findIdx?_append, List.findIdx?_eq_none_iff.mpr others, List.findIdx?_cons, if_pos this]
  simp

/-- Each further one is put behind those that are there. -/
theorem further {content : AnnotationContent} {a : AnnotationInfo} {i : Nat}
    (annotated : Annotated p told as) (found : as.findIdx? holdsAnnotations = some i)
    (resolved : AnnotationInfo.resolve p a = .ok content) :
    Annotated p (told ++ [content]) (as.modify i (addAnnotationTo a)) := by
  cases annotated with
  | nothing others =>
    rw [List.findIdx?_eq_none_iff.mpr others] at found
    cases found
  | all others visible annotations =>
    rw [findIdx?_append_of_others (List.forall_mem_append.mp others).1 rfl] at found
    cases found
    rw [modify_append]
    exact .all others visible (List.rel_append annotations (.cons resolved .nil))

/-- **The annotations that have been told are found.** -/
theorem visibleAnnotations (annotated : Annotated p told as) :
    ∃ rs, as.mapM (ClassFile.visibleAnnotationsIn p) = .ok rs ∧ rs.flatten = told := by
  have other (as : List Attribute) (others : ∀ a ∈ as, holdsAnnotations a = false) :
      as.mapM (ClassFile.visibleAnnotationsIn p) = .ok (as.map fun _ => []) := by
    refine mapM_eq_ok.mpr (List.forall₂_map_right_iff.mpr (List.forall₂_same.mpr fun a mem => ?_))
    obtain ⟨name, body⟩ := a
    cases body with
    | annotations _ => cases others _ mem
    | _ => rfl
  have nothing (as : List Attribute) : (as.map fun _ => ([] : List AnnotationContent)).flatten = [] := by
    simp
  cases annotated with
  | nothing others => exact ⟨_, other as others, nothing as⟩
  | @all _ before after name annotations others visible resolved =>
    obtain ⟨first, last⟩ := List.forall_mem_append.mp others
    have text : Attribute.nameText p ⟨name, .annotations annotations⟩ =
        .ok ClassFile.visibleAnnotationsName := by
      have decoded : Utf8.decodeLossy (ModifiedUtf8.encode ClassFile.visibleAnnotationsName) =
          ClassFile.visibleAnnotationsName := by decide +kernel
      rw [Attribute.nameText, ConstantPool.utf8Bytes, visible]
      exact congrArg Except.ok decoded
    -- All annotations are in one attribute, and the others give none.
    have here : ClassFile.visibleAnnotationsIn p ⟨name, .annotations annotations⟩ = .ok told := by
      simp only [ClassFile.visibleAnnotationsIn, text, ok_bind, if_true]
      exact mapM_eq_ok.mpr resolved
    refine ⟨(before.map fun _ => []) ++ told :: after.map fun _ => [], ?_, ?_⟩
    · rw [List.mapM_append, other before first, ok_bind, List.mapM_cons, here, ok_bind, other after last]
      rfl
    · rw [List.flatten_append, List.flatten_cons, nothing, nothing, List.append_nil, List.nil_append]

end Annotated

namespace ClassBuilder

open PoolStep (Adds)

/-- A builder that no step has failed on holds the annotations that have been told. -/
def Annotates (b : ClassBuilder) (told : List AnnotationContent) : Prop :=
  b.failure = none → b.pool.Coherent ∧ Annotated b.pool.pool told b.parts.attributes.toList

variable {b : ClassBuilder} {x : PoolStep (ClassParts → ClassParts)}
  {told told' : List AnnotationContent}

/-- A step of a builder that adds what it should keeps track of what has been told. -/
theorem Annotates.extend (annotates : b.Annotates told)
    (adds : x.Adds fun add F => Annotated F told b.parts.attributes.toList →
      Annotated F told' (add b.parts).attributes.toList) : (b.extend x).Annotates told' := by
  intro fresh'
  cases fresh : b.failure with
  | some e =>
    rw [extend_of_failure fresh, fresh] at fresh'
    cases fresh'
  | none =>
    obtain ⟨coherent, annotated⟩ := annotates fresh
    obtain ⟨coherent', grown, add, same, given⟩ := extend_adds adds coherent fresh fresh'
    rw [same]
    exact ⟨coherent', given (annotated.mono grown)⟩

/-- A step that leaves the attributes alone. -/
theorem Annotates.keep (annotates : b.Annotates told)
    (keeps : x.Adds fun add _ => (add b.parts).attributes = b.parts.attributes) :
    (b.extend x).Annotates told :=
  annotates.extend (keeps.mono fun add F same annotated => by rwa [same])

/-- Adding a method does not change what the annotations of the class tell. -/
theorem Annotates.method (annotates : b.Annotates told) (access : AccessFlags)
    (method descriptor : String) {body : PoolStep MethodBody} (onlyAdds : body.OnlyAdds) :
    (b.method access method descriptor body).Annotates told := by
  refine annotates.keep ((member_adds access method descriptor).bind fun _ => ?_)
  refine Adds.bind onlyAdds fun body => Adds.bind (codeAttribute_adds body) fun _ => ?_
  exact Adds.pure fun _ _ _ _ => rfl

/-- Adding an annotation tells what is in it, after all that has been told before. -/
theorem Annotates.annotate (annotates : b.Annotates told) (content : AnnotationContent) :
    (b.annotate content).Annotates (told ++ [content]) := by
  refine annotates.extend (content.lower_adds.bind fun lowered => ?_)
  have toList : b.parts.attributes.findIdx? holdsAnnotations =
      b.parts.attributes.toList.findIdx? holdsAnnotations := by
    rw [← List.findIdx?_toArray, Array.toArray_toList]
  rw [toList]
  cases found : b.parts.attributes.toList.findIdx? holdsAnnotations with
  | some i =>
    refine Adds.pure fun F resolved annotated => ?_
    rw [Array.toList_modify]
    exact annotated.further found resolved
  | none =>
    refine Adds.bind_pure ((PoolBuilder.intern_adds _).mono fun i F visible resolved annotated => ?_)
    rw [Array.toList_push]
    exact annotated.first found resolved visible

/-- A step that is given no annotation adds none. -/
theorem Annotates.other (annotates : b.Annotates told) {step : BuildStep} (onlyAdds : step.OnlyAdds)
    (other : step.annotation? = none) : (step.apply b).Annotates told := by
  cases step with
  | annotate content => cases other
  | access | majorVersion => exact annotates
  | superClass super =>
    refine annotates.keep ?_
    cases super with
    | some super => exact (classIndex_adds super).bind fun _ => Adds.pure fun _ _ => rfl
    | none => exact Adds.pure fun _ => rfl
  | interface interface =>
    exact annotates.keep ((classIndex_adds interface).bind fun _ => Adds.pure fun _ _ => rfl)
  | field access field descriptor =>
    exact annotates.keep ((member_adds access field descriptor).bind fun _ => Adds.pure fun _ _ => rfl)
  | abstractMethod method descriptor =>
    exact annotates.keep ((member_adds _ method descriptor).bind fun _ => Adds.pure fun _ _ => rfl)
  | method access method descriptor body => exact annotates.method access method descriptor onlyAdds
  | defaultConstructor =>
    obtain ⟨body, onlyAdds, same⟩ := defaultConstructor_eq b
    rw [BuildStep.apply, same]
    exact annotates.method .isPublic "<init>" "()V" onlyAdds
  | stringMethod method value =>
    obtain ⟨body, onlyAdds, same⟩ := stringMethod_eq b method value
    rw [BuildStep.apply, same]
    exact annotates.method .isPublic method "()Ljava/lang/String;" onlyAdds
  | sourceFile file =>
    refine annotates.extend ((PoolBuilder.utf8_adds "SourceFile").bind fun i => ?_)
    refine Adds.bind_pure ((PoolBuilder.utf8_adds file).mono fun _ F _ _ annotated => ?_)
    rw [Array.toList_push]
    exact annotated.push rfl

/-- **A step adds the annotation that it is given**, behind those that are there. -/
theorem Annotates.apply (annotates : b.Annotates told) {step : BuildStep} (onlyAdds : step.OnlyAdds) :
    (step.apply b).Annotates (told ++ step.annotation?.toList) := by
  cases given : step.annotation? with
  | none =>
    rw [Option.toList_none, List.append_nil]
    exact annotates.other onlyAdds given
  | some content =>
    cases step with
    | annotate _ =>
      cases given
      exact annotates.annotate content
    | _ => cases given

/-- All steps add the annotations that they are given, in order. -/
theorem annotates_after (name : String) {steps : List BuildStep} (onlyAdd : ∀ step ∈ steps, step.OnlyAdds) :
    (after name steps).Annotates (steps.filterMap BuildStep.annotation?) := by
  have run : ∀ (b : ClassBuilder) (told : List AnnotationContent), b.Annotates told →
      (steps.foldl (fun b step => step.apply b) b).Annotates
        (told ++ steps.filterMap BuildStep.annotation?) := by
    induction steps with
    | nil =>
      intro b told annotates
      rwa [List.filterMap_nil, List.append_nil]
    | cons step steps ih =>
      obtain ⟨first, rest⟩ := List.forall_mem_cons.mp onlyAdd
      intro b told annotates
      have given : (step :: steps).filterMap BuildStep.annotation? =
          step.annotation?.toList ++ steps.filterMap BuildStep.annotation? := by
        rw [List.filterMap_cons]
        cases step.annotation? <;> rfl
      rw [List.foldl_cons, given, ← List.append_assoc]
      exact ih rest _ _ (annotates.apply first)
  have start : (ofName name).Annotates [] := by
    intro fresh
    obtain ⟨coherent, -, add, same, i, j, -, -, rfl⟩ :=
      extend_adds (naming_adds name) PoolBuilder.coherent_empty rfl fresh
    refine ⟨coherent, .nothing ?_⟩
    rw [ofName, same]
    exact List.forall_mem_nil _
  exact run _ _ start

/-- **Annotations survive building and normalizing.** If a class with some annotations, given in any
order with anything else, is written, then it is read back, and its annotations that are visible at
run time are those that were given, in their order. The same holds of its normal form, if it has one. -/
theorem visibleAnnotations_of_built {name : String} {steps : List BuildStep}
    (onlyAdd : ∀ step ∈ steps, step.OnlyAdds) {bytes : Bytes}
    (written : (after name steps).toBytes = .ok bytes) :
    (∃ c, ClassFile.parse bytes = .ok c ∧
        c.visibleAnnotations = .ok (steps.filterMap BuildStep.annotation?)) ∧
      ∀ normal, ClassFile.normalize bytes = .ok normal →
        ∃ d, ClassFile.parse normal = .ok d ∧
          d.visibleAnnotations = .ok (steps.filterMap BuildStep.annotation?) := by
  obtain ⟨fresh, parsed⟩ := parse_after onlyAdd written
  obtain ⟨-, annotated⟩ := annotates_after name onlyAdd fresh
  obtain ⟨rs, found, told⟩ := annotated.visibleAnnotations
  have answer : (after name steps).whole.visibleAnnotations =
      .ok (steps.filterMap BuildStep.annotation?) := by
    have found : (after name steps).whole.attributes.mapM
        (ClassFile.visibleAnnotationsIn (after name steps).whole.pool) = .ok rs := found
    rw [ClassFile.visibleAnnotations, found, ← told]
    rfl
  refine ⟨⟨_, parsed, answer⟩, fun normal run => ?_⟩
  obtain ⟨c, d, parsed', back, keeps⟩ := ClassFile.exists_of_normalize run
  cases parsed.symm.trans parsed'
  exact ⟨d, back, keeps.visibleAnnotations _ answer⟩

/-! ## One number for three values -/

open PoolBuilder (intern_yields_new intern_yields_old)

/-- An annotation in which one number serves an `int`, a `boolean` and a `char`. -/
def sharing : AnnotationContent :=
  ⟨"LMark;", [⟨"all", .array
    [.int 1, .bool true, .char '\x01', .int 4294967296, .nested ⟨"LMark;", []⟩]⟩]⟩

/-- The constants of a class `A` with the annotation, but for the name of its attribute. -/
def sharingPool : ConstantPool := List.foldl ConstantPool.push namedPool
  [.utf8 (ModifiedUtf8.encode "LMark;"), .utf8 (ModifiedUtf8.encode "all"), .integer 1,
    .long 4294967296]

/-- The annotation as it is lowered. -/
def shared : AnnotationInfo :=
  ⟨5, [⟨6, .array
    [.const .int 7, .const .boolean 7, .const .char 7, .const .long 8, .nested ⟨5, []⟩]⟩]⟩

/-- The class `A` with the annotation. -/
def marked : ClassFile where
  minorVersion := 0
  majorVersion := 52
  access := ⟨0x21⟩
  thisClass := 2
  superClass := 4
  interfaces := []
  fields := []
  methods := []
  attributes := [⟨10, .annotations [shared]⟩]
  pool := sharingPool.push (.utf8 (ModifiedUtf8.encode ClassFile.visibleAnnotationsName))

/-- The annotation is put into the pool with one number for its three values. -/
theorem lower_sharing : sharing.lower.Yields namedPool shared sharingPool := by
  have long : ((4294967296 : Int64).toInt = (4294967296 : Int64).toInt32.toInt) = False := by
    decide +kernel
  have int : ((1 : Int64).toInt = (1 : Int64).toInt32.toInt) = True := by decide +kernel
  simp only [sharing, AnnotationContent.lower, ResolvedElement.lowerList, ResolvedElement.lower,
    AnnotationValue.lower, AnnotationValue.lowerList, long, int, if_true, if_false]
  refine .bind (a := 5) (intern_yields_new (by decide +kernel) (by decide +kernel)) ?_
  refine .bind (.bind ?_ (.bind (.pure _ _) (.pure _ _))) (.pure _ _)
  refine .bind (a := 6) (intern_yields_new (by decide +kernel) (by decide +kernel)) ?_
  refine .bind (.bind ?_ (.pure _ _)) (.pure _ _)
  -- The values of the array, one after the other.
  refine .bind (.bind (a := 7) (intern_yields_new (by decide +kernel) (by decide +kernel))
    (.pure _ _)) (.bind ?_ (.pure _ _))
  refine .bind (.bind (a := 7) (intern_yields_old (by decide +kernel)) (.pure _ _))
    (.bind ?_ (.pure _ _))
  refine .bind (.bind (a := 7) (intern_yields_old (by decide +kernel)) (.pure _ _))
    (.bind ?_ (.pure _ _))
  refine .bind (.bind (a := 8) (intern_yields_new (by decide +kernel) (by decide +kernel))
    (.pure _ _)) (.bind ?_ (.pure _ _))
  refine .bind (.bind ?_ (.pure _ _)) (.bind (.pure _ _) (.pure _ _))
  exact .bind (a := 5) (intern_yields_old (by decide +kernel)) (.bind (.pure _ _) (.pure _ _))

/-- The parts of the class `A` with the annotation. -/
theorem reaches_sharing : (after "A" [.annotate sharing]).Reaches marked.pool
    { namedParts with attributes := #[⟨10, .annotations [shared]⟩] } := by
  have text := intern_yields_new (p := sharingPool)
    (c := .utf8 (ModifiedUtf8.encode ClassFile.visibleAnnotationsName)) (by decide +kernel)
    (by decide +kernel)
  -- No attribute holds annotations yet, so this one comes into a new one.
  have added := lower_sharing.bind (k := fun lowered => do
    let name ← PoolBuilder.utf8 ClassFile.visibleAnnotationsName
    return fun c : ClassParts =>
      { c with attributes := c.attributes.push ⟨name, .annotations [lowered]⟩ })
    (text.bind (.pure _ _))
  have none : namedParts.attributes.findIdx? holdsAnnotations = none := Array.findIdx?_empty
  obtain ⟨pool, start, -, -⟩ := reaches_ofName
  have run := reaches_ofName.extend added
  show ((ofName "A").annotate sharing).Reaches _ _
  rw [start] at run ⊢
  rw [annotate, none]
  exact run

/-- What is built of the annotation is the class. -/
theorem whole_sharing : (after "A" [.annotate sharing]).whole = marked := reaches_sharing.whole_eq

/-- The class with the annotation has a view, which fits. -/
theorem exists_view_marked : ∃ v, marked.debugFree.view = .ok v ∧ v.layout.Fits := by
  have kept : marked.debugFree = marked := by
    refine ClassFile.debugFree_eq_self fun a mem => ?_
    rw [show marked.all = [⟨10, .annotations [shared]⟩] from rfl, List.mem_singleton] at mem
    subst mem
    decide +kernel
  rw [kept]
  exact ⟨_, rfl, ⟨by decide +kernel, by decide +kernel⟩⟩

/-- An annotation with one number for three values is read back from the class and from its normal form. -/
theorem visibleAnnotations_of_built_sharing : ∃ bytes normal,
    (after "A" [.annotate sharing]).toBytes = .ok bytes ∧ ClassFile.normalize bytes = .ok normal ∧
      (∃ c, ClassFile.parse bytes = .ok c ∧ c.visibleAnnotations = .ok [sharing]) ∧
      ∃ d, ClassFile.parse normal = .ok d ∧ d.visibleAnnotations = .ok [sharing] := by
  have onlyAdd : ∀ step ∈ [BuildStep.annotate sharing], step.OnlyAdds := List.forall_mem_singleton.mpr trivial
  have written : (after "A" [.annotate sharing]).toBytes = .ok marked.bytes := by
    rw [toBytes, build?_eq reaches_sharing.fresh, ok_bind, whole_sharing]
    exact andThen_eq_ok.mpr ⟨by decide +kernel, rfl⟩
  have parsed := (parse_after onlyAdd written).2
  rw [whole_sharing] at parsed
  have acyclic : marked.pool.Acyclic := ConstantPool.acyclic_of_toList UInt16.toNat (by decide +kernel)
  obtain ⟨v, view, fits⟩ := exists_view_marked
  obtain ⟨normal, normalized⟩ := ClassFile.exists_normalize parsed acyclic view fits
  obtain ⟨before, after⟩ := visibleAnnotations_of_built onlyAdd written
  exact ⟨_, normal, written, normalized, before, after normal normalized⟩

end ClassBuilder

end ProcessorBench
