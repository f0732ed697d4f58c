import ProcessorBench.Proofs.ClassCodec
import ProcessorBench.Proofs.Lowering
import ProcessorBench.Proofs.PoolHistories

/-!
# What a builder is told

A class is built by a list of steps (`BuildStep`) that share one pool. `Told` is what the steps say
about the class, and `ClassParts.Tells` that the parts collected so far say the same by way of the
pool. A step adds to what is said and a pool that grows takes nothing back, so it holds after all
steps: `tells_after`. What is said in the end is what a reader finds in the written file.

The body of a method is handed the whole builder. If it is made of the operations of a builder
(`PoolProgram`), it takes nothing back either; if it puts another builder in the place of this one, the
indices that have been handed out before lead nowhere (`build_tells_emptied`).
-/

namespace ProcessorBench

/-! ## Steps -/

/-- A step of building a class. -/
inductive BuildStep where
  | access (flags : AccessFlags)
  | majorVersion (major : UInt16)
  | superClass (name : Option String)
  | interface (name : String)
  | field (access : AccessFlags) (name descriptor : String)
  | abstractMethod (name descriptor : String)
  /-- A body is handed the builder to intern what its code refers to. -/
  | method (access : AccessFlags) (name descriptor : String) (body : PoolStep MethodBody)
  | defaultConstructor
  | stringMethod (name value : String)
  | sourceFile (file : String)
  | annotate (content : AnnotationContent)

/-- Take a step. -/
def BuildStep.apply : BuildStep → ClassBuilder → ClassBuilder
  | .access flags, b => b.access flags
  | .majorVersion major, b => b.majorVersion major
  | .superClass name, b => b.superClass name
  | .interface name, b => b.interface name
  | .field flags name descriptor, b => b.field flags name descriptor
  | .abstractMethod name descriptor, b => b.abstractMethod name descriptor
  | .method flags name descriptor body, b => b.method flags name descriptor body
  | .defaultConstructor, b => b.defaultConstructor
  | .stringMethod name value, b => b.stringMethod name value
  | .sourceFile file, b => b.sourceFile file
  | .annotate content, b => b.annotate content

/-- A step takes nothing back from the builder. Only the body of a method could. -/
def BuildStep.OnlyAdds : BuildStep → Prop
  | .method _ _ _ body => body.OnlyAdds
  | _ => True

/-- What is made of the operations of a builder alone: it requests indices, looks how many slots there are, and
comes to an end, all of which may depend on what has come of the requests before. -/
inductive PoolProgram (α : Type) where
  | done (result : Except ClassError α)
  | request (r : PoolRequest) (next : Except ClassError PoolIndex → PoolProgram α)
  | count (next : Nat → PoolProgram α)

namespace PoolProgram

variable {α : Type}

/-- Carry out a program. -/
def run : PoolProgram α → PoolStep α
  | .done (.ok a) => return a
  | .done (.error e) => throw e
  | .request r next => fun b => (next (b.answer r).outcome).run (b.answer r).after
  | .count next => fun b => (next b.slotCount).run b

/-- **The operations of a builder take nothing back.** -/
theorem run_onlyAdds (program : PoolProgram α) : program.run.OnlyAdds := by
  induction program with
  | done result =>
    cases result with
    | ok a => exact .pure fun _ => trivial
    | error e => exact .throw e
  | request r next ih =>
    intro b a b' coherent run
    obtain ⟨coherent', grown⟩ := PoolBuilder.answer_coherent coherent r
    obtain ⟨coherent'', grown', given⟩ := ih _ _ a b' coherent' run
    exact ⟨coherent'', ConstantPool.le_trans grown grown', given⟩
  | count next ih => exact fun b => ih b.slotCount b

/-- A request that is answered is gone on from. -/
theorem run_request_yields {r : PoolRequest} {next : Except ClassError PoolIndex → PoolProgram α}
    {p q s : ConstantPool} {i : PoolIndex} {a : α} (asks : r.step.Yields p i q)
    (rest : (next (.ok i)).run.Yields q a s) : (request r next).run.Yields p a s := by
  intro b coherent same
  obtain ⟨b₁, answered, coherent₁, same₁⟩ := asks b coherent same
  obtain ⟨b', done, coherent', same'⟩ := rest b₁ coherent₁ same₁
  have goesOn : (request r next).run b = (next (.ok i)).run b₁ :=
    congrArg (fun x : PoolExchange => (next x.outcome).run x.after) (PoolBuilder.answer_of_ok answered)
  exact ⟨b', goesOn.trans done, coherent', same'⟩

end PoolProgram

/-- What the steps have said about a class, names as they were given. -/
structure Told where
  superName : Option String
  interfaces : List String
  fields : List (String × String)
  methods : List (String × String)

namespace Told

/-- A class about which nothing has been said. -/
def nothing : Told := ⟨some "java.lang.Object", [], [], []⟩

/-- What has been said after one more step. -/
def hear (told : Told) : BuildStep → Told
  | .superClass name => { told with superName := name }
  | .interface name => { told with interfaces := told.interfaces ++ [name] }
  | .field _ name descriptor => { told with fields := told.fields ++ [(name, descriptor)] }
  | .abstractMethod name descriptor | .method _ name descriptor _ =>
    { told with methods := told.methods ++ [(name, descriptor)] }
  | .defaultConstructor => { told with methods := told.methods ++ [("<init>", "()V")] }
  | .stringMethod name _ =>
    { told with methods := told.methods ++ [(name, "()Ljava/lang/String;")] }
  | .access _ | .majorVersion _ | .sourceFile _ | .annotate _ => told

/-- What some steps say. -/
def of (steps : List BuildStep) : Told := steps.foldl hear nothing

end Told

namespace ClassBuilder

/-- The builder of a class after some steps. -/
def after (name : String) (steps : List BuildStep) : ClassBuilder :=
  steps.foldl (fun b step => step.apply b) (ofName name)

/-- The failure of the first step that leaves one. -/
def firstFailure (b : ClassBuilder) : List BuildStep → Option ClassError
  | [] => none
  | step :: steps =>
    match (step.apply b).failure with
    | some e => some e
    | none => firstFailure (step.apply b) steps

/-! ## Failures -/

variable {b : ClassBuilder} {x : PoolStep (ClassParts → ClassParts)}

/-- A step that needs constants adds to the parts what it gives. -/
theorem extend_eq (fresh : b.failure = none) {add : ClassParts → ClassParts} {pool : PoolBuilder}
    (run : x b.pool = .ok add pool) : b.extend x = ⟨pool, add b.parts, none⟩ := by
  obtain ⟨_, _, _⟩ := b
  cases fresh
  simp only [extend, run]

/-- After a failure no step does anything. -/
theorem extend_of_failure {e : ClassError} (failed : b.failure = some e) : b.extend x = b := by
  obtain ⟨_, _, _⟩ := b
  cases failed
  rfl

/-- A failure stays. -/
theorem failure_apply {e : ClassError} (failed : b.failure = some e) (step : BuildStep) :
    (step.apply b).failure = some e := by
  cases step with
  | access | majorVersion => exact failed
  | _ => exact (congrArg failure (extend_of_failure failed)).trans failed

/-- A failure stays the first one, whatever steps follow. -/
theorem failure_foldl {e : ClassError} (failed : b.failure = some e) (steps : List BuildStep) :
    (steps.foldl (fun b step => step.apply b) b).failure = some e := by
  induction steps generalizing b with
  | nil => exact failed
  | cons step steps ih => exact ih (failure_apply failed step)

/-- **The failure in the end is the first one.** -/
theorem failure_eq_firstFailure (fresh : b.failure = none) (steps : List BuildStep) :
    (steps.foldl (fun b step => step.apply b) b).failure = firstFailure b steps := by
  induction steps generalizing b with
  | nil => exact fresh
  | cons step steps ih =>
    rw [List.foldl_cons, firstFailure]
    cases failed : (step.apply b).failure with
    | some e => exact failure_foldl failed steps
    | none => exact ih failed

end ClassBuilder

/-! ## What the parts say -/

/-- The attribute and those inside it have names that announce their layouts. -/
def Attribute.AllNamed (pool : ConstantPool) (a : Attribute) : Prop :=
  ∀ x ∈ a.all, Attribute.Named pool x

/-- A member has the name and the descriptor given. -/
structure Member.Tells (pool : ConstantPool) (m : Member) (signature : String × String) : Prop where
  name : pool.utf8 m.name = .ok signature.1
  descriptor : pool.utf8 m.descriptor = .ok signature.2
  attributes : ∀ a ∈ m.attributes, Attribute.AllNamed pool a

/-- The parts of a class, looked up in a pool, say what has been told. -/
structure ClassParts.Tells (pool : ConstantPool) (name : String) (told : Told) (parts : ClassParts) :
    Prop where
  thisClass : pool.className parts.thisClass = .ok (ClassName.toInternal name)
  superClass : match told.superName with
    | some name => pool.className parts.superClass = .ok (ClassName.toInternal name)
    | none => parts.superClass = 0
  interfaces : List.Forall₂ (fun i name => pool.className i = .ok (ClassName.toInternal name))
    parts.interfaces.toList told.interfaces
  fields : List.Forall₂ (Member.Tells pool) parts.fields.toList told.fields
  methods : List.Forall₂ (Member.Tells pool) parts.methods.toList told.methods
  attributes : ∀ a ∈ parts.attributes.toList, Attribute.AllNamed pool a

section
variable {p q : ConstantPool}

/-- A name that is known stays known when constants are added. -/
theorem Attribute.Named.mono (h : p ≤ q) {a : Attribute} (named : Attribute.Named p a) :
    Attribute.Named q a := by
  obtain ⟨⟨text, found, kind⟩, placed⟩ := named
  exact ⟨⟨text, ConstantPool.utf8_of_le h found, kind⟩, placed⟩

/-- All names within an attribute stay known when constants are added. -/
theorem Attribute.AllNamed.mono (h : p ≤ q) {a : Attribute} (named : Attribute.AllNamed p a) :
    Attribute.AllNamed q a :=
  fun x mem => (named x mem).mono h

/-- A member says the same when constants are added. -/
theorem Member.Tells.mono (h : p ≤ q) {m : Member} {signature : String × String}
    (tells : Member.Tells p m signature) : Member.Tells q m signature where
  name := ConstantPool.utf8_of_le h tells.name
  descriptor := ConstantPool.utf8_of_le h tells.descriptor
  attributes a mem := (tells.attributes a mem).mono h

/-- What is said stays said when the pool grows. -/
theorem ClassParts.Tells.mono (h : p ≤ q) {name : String} {told : Told} {parts : ClassParts}
    (tells : parts.Tells p name told) : parts.Tells q name told where
  thisClass := ConstantPool.className_of_le h tells.thisClass
  superClass := by
    have said := tells.superClass
    cases found : told.superName with
    | some name =>
      rw [found] at said
      exact ConstantPool.className_of_le h said
    | none =>
      rw [found] at said
      exact said
  interfaces := tells.interfaces.imp fun _ _ => ConstantPool.className_of_le h
  fields := tells.fields.imp fun _ _ => Member.Tells.mono h
  methods := tells.methods.imp fun _ _ => Member.Tells.mono h
  attributes a mem := (tells.attributes a mem).mono h

end

/-! ## What one step adds -/

namespace ClassBuilder

open PoolStep (Adds)

/-- Adding the name of a class gives an index under which its internal form is found. -/
theorem classIndex_adds (name : String) :
    (classIndex name).Adds fun i F => F.className i = .ok (ClassName.toInternal name) :=
  PoolBuilder.classInfo_adds _

/-- Adding a member gives one that has the name and the descriptor, and no attributes. -/
theorem member_adds (access : AccessFlags) (name descriptor : String) :
    (member access name descriptor).Adds fun m F =>
      Member.Tells F m (name, descriptor) ∧ m.attributes = [] := by
  refine (PoolBuilder.utf8_adds name).bind fun _ => (PoolBuilder.utf8_adds descriptor).bind fun _ => ?_
  exact Adds.pure fun F hdescriptor hname => ⟨⟨hname, hdescriptor, nofun⟩, rfl⟩

/-- An attribute without others in it has a name that announces its layout. -/
theorem allNamed_of_named {F : ConstantPool} {a : Attribute} (alone : a.body.all = [])
    (named : Attribute.Named F a) : Attribute.AllNamed F a := by
  obtain ⟨name, body⟩ := a
  intro x mem
  rw [AttributeOf.all, alone] at mem
  rwa [List.mem_singleton.mp mem]

/-- All names in the attributes with line numbers are known. -/
theorem lineNumberAttributes_adds (lines : List (UInt16 × UInt16)) :
    (lineNumberAttributes lines).Adds fun as F => ∀ a ∈ as, Attribute.AllNamed F a := by
  unfold lineNumberAttributes
  by_cases empty : lines.isEmpty
  · rw [if_pos empty]
    exact Adds.pure fun F => nofun
  · rw [if_neg empty]
    by_cases few : lines.length < UInt16.size
    · simp only [if_pos few]
      refine Adds.bind_pure ((PoolBuilder.utf8_adds "LineNumberTable").mono ?_)
      intro i F found a mem
      rw [List.mem_singleton.mp mem]
      exact allNamed_of_named rfl ⟨⟨_, found, rfl⟩, trivial⟩
    · simp only [if_neg few]
      intro b _ _ _ run
      cases run

/-- All names in the attribute with the code are known. -/
theorem codeAttribute_adds (body : MethodBody) :
    (codeAttribute body).Adds fun a F => Attribute.AllNamed F a := by
  refine (lineNumberAttributes_adds body.lines).bind fun inner => ?_
  refine Adds.bind_pure ((PoolBuilder.utf8_adds "Code").mono ?_)
  intro i F found inside x mem
  rw [AttributeOf.all, AttributeBodyOf.all, CodeOf.all, AttributeOf.allList_eq] at mem
  rcases List.mem_cons.mp mem with rfl | mem
  · exact ⟨⟨_, found, rfl⟩, trivial⟩
  · obtain ⟨a, ha, mem⟩ := List.mem_flatMap.mp mem
    exact inside a ha x mem

/-! ## All steps -/

/-- A builder that no step has failed on says what has been told. -/
def Tells (b : ClassBuilder) (name : String) (told : Told) : Prop :=
  b.failure = none → b.pool.Coherent ∧ b.parts.Tells b.pool.pool name told

variable {b : ClassBuilder} {x : PoolStep (ClassParts → ClassParts)} {name : String}
  {told told' : Told}

/-- What a step gives, if it has not failed. -/
theorem extend_adds {Q : (ClassParts → ClassParts) → ConstantPool → Prop} (adds : x.Adds Q)
    (coherent : b.pool.Coherent) (fresh : b.failure = none) (fresh' : (b.extend x).failure = none) :
    (b.extend x).pool.Coherent ∧ b.pool.pool ≤ (b.extend x).pool.pool ∧
      ∃ add, (b.extend x).parts = add b.parts ∧ Q add (b.extend x).pool.pool := by
  cases run : x b.pool with
  | error e pool =>
    obtain ⟨_, _, _⟩ := b
    cases fresh
    simp only [extend, run] at fresh'
    cases fresh'
  | ok add pool =>
    obtain ⟨coherent', grown, given⟩ := adds b.pool add pool coherent run
    rw [extend_eq fresh run]
    exact ⟨coherent', grown, add, rfl, given pool.pool (ConstantPool.le_refl _)⟩

/-- A step that adds what is told to parts of any kind adds it to those of the builder. -/
theorem Tells.extend (tells : b.Tells name told)
    (adds : x.Adds fun add F => ∀ parts, parts.Tells F name told → (add parts).Tells F name told') :
    (b.extend x).Tells name told' := by
  intro fresh'
  cases fresh : b.failure with
  | some e =>
    rw [extend_of_failure fresh, fresh] at fresh'
    cases fresh'
  | none =>
    obtain ⟨coherent, said⟩ := tells fresh
    obtain ⟨coherent', grown, add, same, given⟩ := extend_adds adds coherent fresh fresh'
    rw [same]
    exact ⟨coherent', given b.parts (said.mono grown)⟩

/-- Putting one more at the end of an array, and of what is told about it. -/
theorem forall₂_push {α β : Type} {r : α → β → Prop} {as : Array α} {bs : List β} {a : α} {b : β}
    (h : List.Forall₂ r as.toList bs) (last : r a b) :
    List.Forall₂ r (as.push a).toList (bs ++ [b]) := by
  rw [Array.toList_push]
  exact List.rel_append h (.cons last .nil)

/-- A method that is told about is put behind the others. -/
theorem adds_method {m : PoolStep Member} {signature : String × String}
    (adds : m.Adds fun m F => Member.Tells F m signature) :
    PoolStep.Adds (do
      let m ← m
      return fun c : ClassParts => { c with methods := c.methods.push m }) fun add F =>
        ∀ parts, parts.Tells F name told →
          (add parts).Tells F name { told with methods := told.methods ++ [signature] } := by
  refine Adds.bind_pure (adds.mono ?_)
  intro m F tells parts said
  exact { said with methods := forall₂_push said.methods tells }

/-- A method is told after all others, whatever its body adds. -/
theorem Tells.method (tells : b.Tells name told) (access : AccessFlags) (method descriptor : String)
    {body : PoolStep MethodBody} (onlyAdds : body.OnlyAdds) :
    (b.method access method descriptor body).Tells name
      { told with methods := told.methods ++ [(method, descriptor)] } := by
  refine tells.extend ?_
  refine (member_adds access method descriptor).bind fun m => ?_
  refine Adds.bind onlyAdds fun body => ?_
  refine Adds.bind_pure ((codeAttribute_adds body).mono ?_)
  intro code F named _ ⟨tells, _⟩ parts said
  refine { said with methods := forall₂_push said.methods ⟨tells.name, tells.descriptor, ?_⟩ }
  intro a mem
  rwa [List.mem_singleton.mp mem]

/-- Putting an attribute at the end. -/
theorem forall_mem_push {α : Type} {P : α → Prop} {as : Array α} {a : α} (h : ∀ x ∈ as.toList, P x)
    (last : P a) : ∀ x ∈ (as.push a).toList, P x := by
  rw [Array.toList_push]
  exact List.forall_mem_append.mpr ⟨h, List.forall_mem_singleton.mpr last⟩

/-- Replacing an element. -/
theorem forall_mem_modify {α : Type} {P : α → Prop} {as : Array α} {f : α → α}
    (h : ∀ x ∈ as.toList, P x) (keeps : ∀ x, P x → P (f x)) (i : Nat) :
    ∀ x ∈ (as.modify i f).toList, P x := by
  intro x mem
  rw [Array.toList_modify, List.mem_iff_getElem?] at mem
  obtain ⟨j, found⟩ := mem
  rw [List.getElem?_modify, Option.map_eq_map, Option.map_eq_some_iff] at found
  obtain ⟨y, hy, rfl⟩ := found
  have old := h y (List.mem_of_getElem? hy)
  by_cases replaced : i = j
  · rw [if_pos replaced]
    exact keeps y old
  · rw [if_neg replaced]
    exact old

/-- Adding an annotation to an attribute makes no name unknown. -/
theorem allNamed_addAnnotationTo {F : ConstantPool} (added : AnnotationInfo) {a : Attribute}
    (named : Attribute.AllNamed F a) : Attribute.AllNamed F (addAnnotationTo added a) := by
  obtain ⟨i, body⟩ := a
  cases body with
  | annotations as =>
    obtain ⟨kind, _⟩ := named ⟨i, .annotations as⟩ (by rw [AttributeOf.all]; exact List.mem_cons_self)
    exact allNamed_of_named rfl ⟨kind, trivial⟩
  | _ => exact named

/-- An annotation changes nothing of what the members say. -/
theorem Tells.annotate (tells : b.Tells name told) (content : AnnotationContent) :
    (b.annotate content).Tells name told := by
  refine tells.extend (Adds.bind content.lower_adds.onlyAdds fun lowered => ?_)
  cases b.parts.attributes.findIdx? holdsAnnotations with
  | some i =>
    refine Adds.pure fun F _ parts said => ?_
    exact { said with
      attributes := forall_mem_modify said.attributes (fun _ => allNamed_addAnnotationTo lowered) i }
  | none =>
    refine Adds.bind_pure ((PoolBuilder.utf8_adds _).mono ?_)
    intro i F found _ parts said
    exact { said with
      attributes := forall_mem_push said.attributes (allNamed_of_named rfl ⟨⟨_, found, rfl⟩, trivial⟩) }

/-- The constructor that is added by default is a method like any other. -/
theorem defaultConstructor_eq (b : ClassBuilder) :
    ∃ body, body.OnlyAdds ∧ b.defaultConstructor = b.method .isPublic "<init>" "()V" body := by
  refine ⟨_, (PoolBuilder.nameAndType_onlyAdds "<init>" "()V").bind fun _ => ?_, rfl⟩
  exact (PoolBuilder.intern_adds _).onlyAdds.bind fun _ => Adds.pure fun _ => trivial

/-- So is one that returns a string. -/
theorem stringMethod_eq (b : ClassBuilder) (method value : String) :
    ∃ body, body.OnlyAdds ∧
      b.stringMethod method value = b.method .isPublic method "()Ljava/lang/String;" body := by
  refine ⟨_, (PoolBuilder.string_onlyAdds value).bind fun i => ?_, rfl⟩
  refine PoolStep.OnlyAdds.bind ?_ fun _ => Adds.pure fun _ => trivial
  unfold narrowOperand
  split
  · exact Adds.pure fun _ => trivial
  · exact Adds.throw _

/-- **A step says what it is told**, and leaves what has been said, if it takes nothing back. -/
theorem Tells.apply (tells : b.Tells name told) {step : BuildStep} (onlyAdds : step.OnlyAdds) :
    (step.apply b).Tells name (told.hear step) := by
  cases step with
  | access flags => exact fun fresh => ⟨(tells fresh).1, { (tells fresh).2 with }⟩
  | majorVersion major => exact fun fresh => ⟨(tells fresh).1, { (tells fresh).2 with }⟩
  | superClass super =>
    refine tells.extend ?_
    cases super with
    | some super =>
      refine Adds.bind_pure ((classIndex_adds super).mono ?_)
      intro i F found parts said
      exact { said with superClass := found }
    | none =>
      exact Adds.pure fun F parts said => { said with superClass := rfl }
  | interface interface =>
    refine tells.extend (Adds.bind_pure ((classIndex_adds interface).mono ?_))
    intro i F found parts said
    exact { said with interfaces := forall₂_push said.interfaces found }
  | field access field descriptor =>
    refine tells.extend (Adds.bind_pure ((member_adds access field descriptor).mono ?_))
    rintro m F ⟨tells, -⟩ parts said
    exact { said with fields := forall₂_push said.fields tells }
  | abstractMethod method descriptor =>
    exact tells.extend (adds_method ((member_adds _ method descriptor).mono fun _ _ h => h.1))
  | method access method descriptor body => exact tells.method access method descriptor onlyAdds
  | defaultConstructor =>
    obtain ⟨body, onlyAdds, same⟩ := defaultConstructor_eq b
    rw [BuildStep.apply, same]
    exact tells.method .isPublic "<init>" "()V" onlyAdds
  | stringMethod method value =>
    obtain ⟨body, onlyAdds, same⟩ := stringMethod_eq b method value
    rw [BuildStep.apply, same]
    exact tells.method .isPublic method "()Ljava/lang/String;" onlyAdds
  | sourceFile file =>
    refine tells.extend ((PoolBuilder.utf8_adds "SourceFile").bind fun i => ?_)
    refine Adds.bind_pure ((PoolBuilder.utf8_adds file).mono ?_)
    intro _ F _ found parts said
    exact { said with
      attributes := forall_mem_push said.attributes (allNamed_of_named rfl ⟨⟨_, found, rfl⟩, trivial⟩) }
  | annotate content => exact tells.annotate content

/-! ## From the first step to the last -/

/-- The first step of a builder names the class and its superclass. -/
theorem naming_adds (name : String) :
    (naming name).Adds fun add F => ∃ i j,
      F.className i = .ok (ClassName.toInternal name) ∧
      F.className j = .ok (ClassName.toInternal "java.lang.Object") ∧
      add = fun c => { c with thisClass := i, superClass := j } := by
  refine (classIndex_adds name).bind fun i => ?_
  refine Adds.bind_pure ((PoolBuilder.classInfo_adds "java/lang/Object").mono ?_)
  intro j F super this
  exact ⟨i, j, this, super, rfl⟩

/-- There is always room for these names. -/
theorem naming_ok (name : String) : ∃ add b, naming name .empty = .ok add b := by
  obtain ⟨i, b₁, first, few⟩ := PoolBuilder.classInfo_ok (b := .empty) (ClassName.toInternal name)
    (by decide)
  have start : PoolBuilder.empty.slotCount = 1 := rfl
  obtain ⟨j, b₂, last, _⟩ := PoolBuilder.classInfo_ok (b := b₁) "java/lang/Object"
    (by unfold UInt16.size; omega)
  refine ⟨fun c => { c with thisClass := i, superClass := j }, b₂, ?_⟩
  exact PoolStep.bind_eq_ok.mpr ⟨i, b₁, first, PoolStep.bind_eq_ok.mpr ⟨j, b₂, last, rfl⟩⟩

/-- A class can always be given a name. -/
theorem failure_ofName (name : String) : (ofName name).failure = none := by
  obtain ⟨add, b, named⟩ := naming_ok name
  rw [ofName, extend_eq (b := unnamed) rfl named]

/-- A new builder has been told nothing but the name. -/
theorem tells_ofName (name : String) : (ofName name).Tells name .nothing := by
  intro fresh
  obtain ⟨coherent, -, add, same, i, j, this, super, rfl⟩ :=
    extend_adds (naming_adds name) PoolBuilder.coherent_empty rfl fresh
  refine ⟨coherent, ?_⟩
  rw [ofName, same]
  exact ⟨this, super, .nil, .nil, .nil, nofun⟩

/-- **All steps say what they are told**, if none takes anything back. -/
theorem tells_after (name : String) {steps : List BuildStep} (onlyAdd : ∀ step ∈ steps, step.OnlyAdds) :
    (after name steps).Tells name (Told.of steps) := by
  have run : ∀ (b : ClassBuilder) (told : Told), b.Tells name told →
      (steps.foldl (fun b step => step.apply b) b).Tells name (steps.foldl Told.hear told) := by
    induction steps with
    | nil => exact fun _ _ tells => tells
    | cons step steps ih =>
      obtain ⟨first, rest⟩ := List.forall_mem_cons.mp onlyAdd
      exact fun b told tells => ih rest _ _ (tells.apply first)
  exact run _ _ (tells_ofName name)

end ClassBuilder

/-! ## Reading the class -/

/-- Points and slashes in a name come to the same once it is read back. -/
theorem ClassName.ofInternal_toInternal (name : String) :
    ofInternal (toInternal name) = ofInternal name := by
  have slash : ∀ c : Char, (if (if c = '.' then '/' else c) = '/' then '.' else
      if c = '.' then '/' else c) = if c = '/' then '.' else c := by
    intro c
    by_cases dot : c = '.'
    · subst dot
      rfl
    · rw [if_neg dot]
  unfold ofInternal toInternal replaceChar
  rw [String.toList_ofList, List.map_map]
  exact congrArg String.ofList (List.map_congr_left fun c _ => slash c)

/-- The signatures that are read are those that the members tell. -/
theorem ClassFile.signatures_of_tells {pool : ConstantPool} {members : List Member}
    {told : List (String × String)} (tells : List.Forall₂ (Member.Tells pool) members told) :
    ClassFile.signatures pool members = .ok told := by
  refine mapM_eq_ok.mpr (tells.imp fun m signature tells => ?_)
  simp only [tells.name, tells.descriptor, ok_bind]
  rfl

namespace ClassBuilder

/-- The class that the parts make up. -/
def whole (b : ClassBuilder) : ClassFile :=
  { minorVersion := 0, majorVersion := b.parts.majorVersion, access := b.parts.access
    thisClass := b.parts.thisClass, superClass := b.parts.superClass
    interfaces := b.parts.interfaces.toList, fields := b.parts.fields.toList
    methods := b.parts.methods.toList, attributes := b.parts.attributes.toList
    pool := b.pool.pool }

/-- A builder without a failure gives its whole class. -/
theorem build?_eq {b : ClassBuilder} (fresh : b.failure = none) : b.build? = .ok b.whole := by
  rw [build?, fresh]
  rfl

/-- A builder with a failure gives that failure. -/
theorem build?_of_failure {b : ClassBuilder} {e : ClassError} (failed : b.failure = some e) :
    b.build? = .error e := by
  rw [build?, failed]

section
variable {b : ClassBuilder} {name : String} {told : Told}

/-- The attributes of a class that is built have names that announce their layouts. -/
theorem named_whole (said : b.parts.Tells b.pool.pool name told) :
    ∀ a ∈ b.whole.all, Attribute.Named b.whole.pool a := by
  have members : ∀ (ms : Array Member) (ts : List (String × String)),
      List.Forall₂ (Member.Tells b.pool.pool) ms.toList ts →
      ∀ m ∈ ms.toList, ∀ a ∈ m.attributes, Attribute.AllNamed b.pool.pool a := by
    intro ms ts tells m mem a ha
    obtain ⟨t, _, tells⟩ := exists_mem_of_forall₂ tells mem
    exact tells.attributes a ha
  intro a mem
  rw [ClassOf.all_eq, List.mem_flatMap] at mem
  obtain ⟨outer, within, mem⟩ := mem
  simp only [ClassOf.nested, List.mem_append, List.mem_flatMap] at within
  rcases within with ⟨m, hm, within⟩ | ⟨m, hm, within⟩ | within
  · exact members _ _ said.fields m hm outer within a mem
  · exact members _ _ said.methods m hm outer within a mem
  · exact said.attributes outer within a mem

/-- The superclass is read back as it has been told. -/
theorem superName_whole (coherent : b.pool.Coherent) (said : b.parts.Tells b.pool.pool name told) :
    b.whole.superName = .ok (told.superName.map ClassName.ofInternal) := by
  have super := said.superClass
  cases known : told.superName with
  | none =>
    rw [known] at super
    exact if_pos super
  | some n =>
    rw [known] at super
    have set : b.whole.superClass ≠ 0 := by
      intro zero
      have zero : b.parts.superClass = 0 := zero
      rw [zero] at super
      obtain ⟨c, hc, _⟩ := bind_eq_ok.mp super
      exact coherent.get_zero c hc
    have found : b.whole.pool.className b.whole.superClass = .ok (ClassName.toInternal n) := super
    rw [ClassFile.superName, if_neg set, found, ok_bind, ClassName.ofInternal_toInternal]
    rfl

/-- The interfaces are read back as they have been told. -/
theorem interfaceNames_whole (said : b.parts.Tells b.pool.pool name told) :
    b.whole.interfaceNames = .ok (told.interfaces.map ClassName.ofInternal) := by
  refine mapM_eq_ok.mpr (List.forall₂_map_right_iff.mpr (said.interfaces.imp fun i n found => ?_))
  have found : b.whole.pool.className i = .ok (ClassName.toInternal n) := found
  rw [found, ok_bind, ClassName.ofInternal_toInternal]
  rfl

end

/-- What is written of a class that is built is read back. -/
theorem parse_after {name : String} {steps : List BuildStep} (onlyAdd : ∀ step ∈ steps, step.OnlyAdds)
    {bytes : Bytes} (written : (after name steps).toBytes = .ok bytes) :
    (after name steps).failure = none ∧ ClassFile.parse bytes = .ok (after name steps).whole := by
  cases failed : (after name steps).failure with
  | some e =>
    rw [toBytes, build?_of_failure failed] at written
    cases written
  | none =>
    obtain ⟨coherent, said⟩ := tells_after name onlyAdd failed
    rw [toBytes, build?_eq failed, ok_bind] at written
    exact ⟨rfl, ClassFile.parse_of_toBytes coherent.pushed (named_whole said) written⟩

/-- **What a builder is told is what a reader finds.** If a step fails, building reports the failure
of the first one that does. Otherwise, if no body of a method takes anything back from the builder, there is
a class, which is read back from its written form if it has one, and which bears the names and has the
members that the steps have given it, in their order. -/
theorem build_tells (name : String) (steps : List BuildStep) :
    match firstFailure (ofName name) steps with
    | some e => (after name steps).build? = .error e ∧ (after name steps).toBytes = .error e
    | none => (∀ step ∈ steps, step.OnlyAdds) → ∃ c, (after name steps).build? = .ok c ∧
      (∀ bytes, (after name steps).toBytes = .ok bytes → ClassFile.parse bytes = .ok c) ∧
      c.name = .ok (ClassName.ofInternal name) ∧
      c.superName = .ok ((Told.of steps).superName.map ClassName.ofInternal) ∧
      c.interfaceNames = .ok ((Told.of steps).interfaces.map ClassName.ofInternal) ∧
      c.fieldSignatures = .ok (Told.of steps).fields ∧
      c.methodSignatures = .ok (Told.of steps).methods := by
  have outcome : (after name steps).failure = firstFailure (ofName name) steps :=
    failure_eq_firstFailure (failure_ofName name) steps
  cases failed : firstFailure (ofName name) steps with
  | some e =>
    rw [failed] at outcome
    have built := build?_of_failure outcome
    exact ⟨built, by rw [toBytes, built, error_bind]⟩
  | none =>
    intro onlyAdd
    rw [failed] at outcome
    obtain ⟨coherent, said⟩ := tells_after name onlyAdd outcome
    have built := build?_eq outcome
    have this : (after name steps).whole.pool.className (after name steps).whole.thisClass =
        .ok (ClassName.toInternal name) := said.thisClass
    refine ⟨_, built, ?_, ?_, superName_whole coherent said, interfaceNames_whole said,
      ClassFile.signatures_of_tells said.fields, ClassFile.signatures_of_tells said.methods⟩
    · exact fun bytes written => (parse_after onlyAdd written).2
    · rw [ClassFile.name, this, ok_bind, ClassName.ofInternal_toInternal]
      rfl

/-! ## Classes of a few steps -/

open PoolBuilder (intern_yields_new intern_yields_old)

/-- The constants that the class `A` gets its name with. -/
def namedPool : ConstantPool := List.foldl ConstantPool.push .empty
  [.utf8 (ModifiedUtf8.encode "A"), .classInfo 1, .utf8 (ModifiedUtf8.encode "java/lang/Object"),
    .classInfo 3]

/-- The parts of the class `A` before any step. -/
def namedParts : ClassParts := { unnamed.parts with thisClass := 2, superClass := 4 }

/-- What the first step adds for a class `A`. -/
theorem naming_yields :
    (naming "A").Yields .empty (fun c => { c with thisClass := 2, superClass := 4 }) namedPool := by
  have new {p : ConstantPool} {c : Constant} := @intern_yields_new p c
  refine .bind (a := 2) (.bind (a := 1) (new ?_ ?_) (new ?_ ?_)) ?_
  rotate_right
  · exact .bind (a := 4) (.bind (a := 3) (new (by decide +kernel) (by decide +kernel))
      (new (by decide +kernel) (by decide +kernel))) (.pure _ _)
  all_goals decide +kernel

/-- A builder that has come to a pool and to some parts, and has not failed. -/
def Reaches (b : ClassBuilder) (p : ConstantPool) (parts : ClassParts) : Prop :=
  ∃ pool, b = ⟨pool, parts, none⟩ ∧ pool.Coherent ∧ pool.pool = p

/-- Where a builder for `A` begins. -/
theorem reaches_ofName : (ofName "A").Reaches namedPool namedParts := by
  obtain ⟨pool, named, coherent, same⟩ := naming_yields _ PoolBuilder.coherent_empty rfl
  exact ⟨pool, extend_eq (b := unnamed) rfl named, coherent, same⟩

/-- What has been reached, has been reached without a failure. -/
theorem Reaches.fresh {b : ClassBuilder} {p : ConstantPool} {parts : ClassParts} (reaches : b.Reaches p parts) :
    b.failure = none := by
  obtain ⟨pool, rfl, -, -⟩ := reaches
  rfl

/-- The class is made up of the parts and the pool. -/
theorem Reaches.whole_eq {b : ClassBuilder} {p : ConstantPool} {parts : ClassParts} (reaches : b.Reaches p parts) :
    b.whole = whole ⟨{ PoolBuilder.empty with pool := p }, parts, none⟩ := by
  obtain ⟨pool, rfl, -, rfl⟩ := reaches
  rfl

/-- A step leads from what has been reached to what it adds. -/
theorem Reaches.extend {b : ClassBuilder} {p q : ConstantPool} {parts : ClassParts}
    {x : PoolStep (ClassParts → ClassParts)} {add : ClassParts → ClassParts} (reaches : b.Reaches p parts)
    (yields : x.Yields p add q) : (b.extend x).Reaches q (add parts) := by
  obtain ⟨pool, rfl, coherent, same⟩ := reaches
  obtain ⟨pool', run, coherent', same'⟩ := yields pool coherent same
  exact ⟨pool', extend_eq (b := ⟨pool, parts, none⟩) rfl run, coherent', same'⟩

/-- A method whose body is known is put behind the others. -/
theorem Reaches.method {b : ClassBuilder} {p q r s : ConstantPool} {parts : ClassParts} {flags : AccessFlags}
    {name descriptor : String} {m : Member} {body : PoolStep MethodBody} {c : MethodBody} {a : Attribute}
    (reaches : b.Reaches p parts) (named : (member flags name descriptor).Yields p m q)
    (makes : body.Yields q c r) (coded : (codeAttribute c).Yields r a s) :
    (b.method flags name descriptor body).Reaches s
      { parts with methods := parts.methods.push { m with attributes := [a] } } := by
  have given : PoolStep.Yields (do
      let m ← member flags name descriptor
      let code ← codeAttribute (← body)
      return fun c : ClassParts => { c with methods := c.methods.push { m with attributes := [code] } }) p
      (fun c => { c with methods := c.methods.push { m with attributes := [a] } }) s :=
    .bind named (.bind makes (.bind coded (.pure _ _)))
  exact reaches.extend given

/-- A body that returns a text. -/
def returning (text : String) : PoolProgram MethodBody :=
  .request (.string text) fun
    | .ok i => .done (.ok ⟨1, 1, [0x12, UInt8.ofNat i.toNat, 0xb0], []⟩)
    | .error e => .done (.error e)

/-- Steps of all kinds that a reader can tell: there is no superclass, but an interface and a method. -/
def fewSteps : List BuildStep :=
  [.superClass none, .interface "b.B", .method .isPublic "m" "()Ljava/lang/String;" (returning "x").run]

/-- The constants of the class `A` with these steps. -/
def fewPool : ConstantPool := List.foldl ConstantPool.push namedPool
  [.utf8 (ModifiedUtf8.encode "b/B"), .classInfo 5, .utf8 (ModifiedUtf8.encode "m"),
    .utf8 (ModifiedUtf8.encode "()Ljava/lang/String;"), .utf8 (ModifiedUtf8.encode "x"), .string 9,
    .utf8 (ModifiedUtf8.encode "Code")]

/-- Its parts. -/
def fewParts : ClassParts :=
  { namedParts with
    superClass := 0, interfaces := #[6]
    methods := #[⟨.isPublic, 7, 8, [⟨11, .code ⟨1, 1, [0x12, 10, 0xb0], [], []⟩⟩]⟩] }

/-- What the few steps lead to. -/
theorem reaches_fewSteps : (after "A" fewSteps).Reaches fewPool fewParts := by
  have new {p : ConstantPool} {c : Constant} := @intern_yields_new p c
  have bare : ((ofName "A").superClass none).Reaches namedPool { namedParts with superClass := 0 } :=
    reaches_ofName.extend (.pure _ _)
  have listed := bare.extend (x := do
      let index ← classIndex "b.B"
      return fun c : ClassParts => { c with interfaces := c.interfaces.push index })
    (.bind (a := 6) (.bind (a := 5) (new (by decide +kernel) (by decide +kernel))
      (new (by decide +kernel) (by decide +kernel))) (.pure _ _))
  exact listed.method (m := ⟨.isPublic, 7, 8, []⟩) (c := ⟨1, 1, [0x12, 10, 0xb0], []⟩)
    (a := ⟨11, .code ⟨1, 1, [0x12, 10, 0xb0], [], []⟩⟩)
    (.bind (a := 7) (new (by decide +kernel) (by decide +kernel))
      (.bind (a := 8) (new (by decide +kernel) (by decide +kernel)) (.pure _ _)))
    (PoolProgram.run_request_yields (i := 10)
      (.bind (a := 9) (new (by decide +kernel) (by decide +kernel))
        (new (by decide +kernel) (by decide +kernel))) (.pure _ _))
    (.bind (a := []) (.pure _ _)
      (.bind (a := 11) (new (by decide +kernel) (by decide +kernel)) (.pure _ _)))

/-- The class `A` with these steps is written and read back, with what it has been told. -/
theorem build_tells_fewSteps : (∀ step ∈ fewSteps, step.OnlyAdds) ∧ ∃ bytes c,
    (after "A" fewSteps).toBytes = .ok bytes ∧ ClassFile.parse bytes = .ok c ∧
      c.name = .ok "A" ∧ c.superName = .ok none ∧ c.interfaceNames = .ok ["b.B"] ∧
      c.fieldSignatures = .ok [] ∧ c.methodSignatures = .ok [("m", "()Ljava/lang/String;")] := by
  have onlyAdd : ∀ step ∈ fewSteps, step.OnlyAdds := by
    refine List.forall_mem_cons.mpr ⟨trivial, List.forall_mem_cons.mpr ⟨trivial, ?_⟩⟩
    exact List.forall_mem_singleton.mpr (PoolProgram.run_onlyAdds _)
  have fresh : firstFailure (ofName "A") fewSteps = none :=
    (failure_eq_firstFailure (failure_ofName "A") fewSteps).symm.trans reaches_fewSteps.fresh
  have tells := build_tells "A" fewSteps
  rw [fresh] at tells
  obtain ⟨c, built, back, told⟩ := tells onlyAdd
  have same : c = _ := (Except.ok.inj (built.symm.trans (build?_eq reaches_fewSteps.fresh))).trans
    reaches_fewSteps.whole_eq
  have written : (after "A" fewSteps).toBytes = .ok c.bytes := by
    rw [toBytes, built, ok_bind, same]
    exact andThen_eq_ok.mpr ⟨by decide +kernel, rfl⟩
  exact ⟨onlyAdd, _, c, written, back _ written, told⟩

/-- A body that puts an empty builder in the place of the one that it is handed. -/
def emptying : PoolStep MethodBody := fun _ => .ok ⟨0, 1, [0xb1], []⟩ .empty

/-- The parts of the class `A` with a method that has this body. -/
def emptiedParts : ClassParts :=
  { namedParts with methods := #[⟨.isPublic, 5, 6, [⟨1, .code ⟨0, 1, [0xb1], [], []⟩⟩]⟩] }

/-- The class itself. -/
def emptied : ClassFile :=
  whole ⟨{ PoolBuilder.empty with pool := .push .empty (.utf8 (ModifiedUtf8.encode "Code")) },
    emptiedParts, none⟩

/-- What is left when a body has replaced the pool by an empty one. -/
theorem reaches_emptied : (after "A" [.method .isPublic "m" "()V" emptying]).Reaches emptied.pool
    emptiedParts := by
  have new {p : ConstantPool} {c : Constant} := @intern_yields_new p c
  exact reaches_ofName.method (m := ⟨.isPublic, 5, 6, []⟩) (c := ⟨0, 1, [0xb1], []⟩)
    (a := ⟨1, .code ⟨0, 1, [0xb1], [], []⟩⟩)
    (.bind (a := 5) (new (by decide +kernel) (by decide +kernel))
      (.bind (a := 6) (new (by decide +kernel) (by decide +kernel)) (.pure _ _)))
    (fun _ _ _ => ⟨.empty, rfl, PoolBuilder.coherent_empty, rfl⟩)
    (.bind (a := []) (.pure _ _) (.bind (a := 1) (new (by decide +kernel) (by decide +kernel)) (.pure _ _)))

/-- **A body can take back what has been said**: no step fails, and the class is written and read back, but
its name is lost. -/
theorem build_tells_emptied :
    firstFailure (ofName "A") [.method .isPublic "m" "()V" emptying] = none ∧
      (after "A" [.method .isPublic "m" "()V" emptying]).toBytes = .ok emptied.bytes ∧
      ClassFile.parse emptied.bytes = .ok emptied ∧ emptied.name = .error (.badConstantIndex 2) := by
  have fresh := reaches_emptied.fresh
  have written : emptied.toBytes = .ok emptied.bytes := andThen_eq_ok.mpr ⟨by decide +kernel, rfl⟩
  refine ⟨(failure_eq_firstFailure (failure_ofName "A") _).symm.trans fresh, ?_, ?_, rfl⟩
  · rw [toBytes, build?_eq fresh, ok_bind, reaches_emptied.whole_eq]
    exact written
  · refine ClassFile.parse_of_toBytes ⟨[.utf8 (ModifiedUtf8.encode "Code")], rfl⟩ (fun a mem => ?_) written
    obtain rfl : a = ⟨1, .code ⟨0, 1, [0xb1], [], []⟩⟩ := List.mem_singleton.mp mem
    exact ⟨⟨"Code", by decide +kernel, rfl⟩, trivial⟩

end ClassBuilder

end ProcessorBench
