import ProcessorBench.Proofs.Extent
import ProcessorBench.Proofs.Grounded
import ProcessorBench.Proofs.PrimaryArtifact

/-!
# What a mismatch says

A case fails with a mismatch if the two classes that it compares have different normal forms. The report names
the first place where these differ, and there always is one, since both are class files and no class file is the
start of another one (`Difference.exists_positionOf`). It lists the members that only one of the classes has, as
far as their names can be found out (`TestCase.run_mismatch`).
-/

namespace ProcessorBench

/-! ## The first difference -/

namespace Difference

variable {a b : Bytes} {i : Nat}

/-- Bytes that begin alike differ one place later than what follows. -/
theorem positionOf_cons (x y : UInt8) (a b : Bytes) :
    positionOf (x :: a) (y :: b) = if x = y then (positionOf a b).map (· + 1) else some 0 := by
  rw [positionOf, List.zip_cons_cons, List.findIdx?_cons]
  by_cases same : x = y
  · rw [if_neg (by simp [same]), if_pos same]
    rfl
  · rw [if_pos (by simp [same]), if_neg same]

/-- There is no first difference exactly if one of the texts is the start of the other. -/
theorem positionOf_eq_none : positionOf a b = none ↔ a <+: b ∨ b <+: a := by
  induction a generalizing b with
  | nil => exact ⟨fun _ => .inl List.nil_prefix, fun _ => rfl⟩
  | cons x a ih =>
    cases b with
    | nil => exact ⟨fun _ => .inr List.nil_prefix, fun _ => rfl⟩
    | cons y b =>
      rw [positionOf_cons, List.cons_prefix_cons, List.cons_prefix_cons]
      by_cases same : x = y
      · rw [if_pos same, Option.map_eq_none_iff, ih]
        simp [same]
      · rw [if_neg same]
        simp [same, Ne.symm same]

/-- The first difference has the same bytes before it, and different ones at it. -/
theorem of_positionOf_eq_some (found : positionOf a b = some i) :
    i < a.length ∧ i < b.length ∧ a.take i = b.take i ∧ a[i]? ≠ b[i]? := by
  induction a generalizing b i with
  | nil => cases found
  | cons x a ih =>
    cases b with
    | nil => cases found
    | cons y b =>
      rw [positionOf_cons] at found
      by_cases same : x = y
      · rw [if_pos same] at found
        obtain ⟨j, later, rfl⟩ := Option.map_eq_some_iff.mp found
        obtain ⟨inside, inside', before, differ⟩ := ih later
        refine ⟨Nat.succ_lt_succ inside, Nat.succ_lt_succ inside', ?_, ?_⟩
        · rw [List.take_succ_cons, List.take_succ_cons, before, same]
        · rw [List.getElem?_cons_succ, List.getElem?_cons_succ]
          exact differ
      · rw [if_neg same] at found
        cases found
        exact ⟨Nat.succ_pos _, Nat.succ_pos _, rfl, fun equal => same (Option.some.inj equal)⟩

/-- **Different class files** have a first difference: neither is the start of the other. -/
theorem exists_positionOf {c d : ClassFile} (parsed : ClassFile.parse a = .ok c)
    (parsed' : ClassFile.parse b = .ok d) (differ : a ≠ b) : ∃ i, positionOf a b = some i := by
  cases found : positionOf a b with
  | some i => exact ⟨i, rfl⟩
  | none =>
    rcases positionOf_eq_none.mp found with start | start
    · exact absurd (ClassFile.eq_of_prefix parsed parsed' start).symm differ
    · exact absurd (ClassFile.eq_of_prefix parsed' parsed start) differ

end Difference

/-! ## Members -/

/-- The members of a class as a report lists them, fields first, each kind in the order in which they are
declared. There is no such list if the name or the descriptor of one cannot be found out. -/
def ClassFile.Lists (c : ClassFile) (members : List String) : Prop :=
  ∃ fields methods, c.fieldSignatures = .ok fields ∧ c.methodSignatures = .ok methods ∧
    members = fields.map (fun (name, descriptor) => "field " ++ name ++ ":" ++ descriptor) ++
      methods.map (fun (name, descriptor) => "method " ++ name ++ descriptor)

/-- What is listed of a class is listed of each class that answers what it answers. -/
theorem ClassFile.KeepsAnswers.lists {c d : ClassFile} (keeps : c.KeepsAnswers d) {members : List String}
    (lists : c.Lists members) : d.Lists members := by
  obtain ⟨fields, methods, first, second, rfl⟩ := lists
  exact ⟨fields, methods, keeps.fieldSignatures _ first, keeps.methodSignatures _ second, rfl⟩

/-- The members that are compared are those that the class lists. -/
theorem Difference.membersOf_eq {bytes : Bytes} {c : ClassFile} {members : List String}
    (parsed : ClassFile.parse bytes = .ok c) (lists : c.Lists members) : membersOf bytes = members := by
  obtain ⟨fields, methods, first, second, rfl⟩ := lists
  simp only [membersOf, parsed, first, second]
  rfl

/-- Members that are listed for one class and not for another. -/
theorem Difference.filter_contains (members members' : List String) :
    members.filter (!members'.contains ·) = members.filter (· ∉ members') := by
  apply List.filter_congr
  intro member _
  simp

/-! ## What is compared -/

/-- A class in normal form: the file that has been compiled, the file that is compared, and the classes that they
hold. What the first says of itself is said by the second too. -/
structure NormalizedClass where
  compiled : Bytes
  normal : Bytes
  before : ClassFile
  after : ClassFile
  normalized : ClassFile.normalize compiled = .ok normal
  parsed : ClassFile.parse compiled = .ok before
  parsed_normal : ClassFile.parse normal = .ok after
  keeps : before.KeepsAnswers after

/-- What has been normalized is a normalized class. -/
theorem NormalizedClass.exists_of_normalize {compiled normal : Bytes}
    (run : ClassFile.normalize compiled = .ok normal) :
    ∃ x : NormalizedClass, x.compiled = compiled ∧ x.normal = normal := by
  obtain ⟨c, d, parsed, parsed', keeps⟩ := ClassFile.exists_of_normalize run
  exact ⟨⟨compiled, normal, c, d, run, parsed, parsed', keeps⟩, rfl, rfl⟩

/-- What is listed of a class as it has been compiled is listed of its normal form. -/
theorem NormalizedClass.lists (x : NormalizedClass) {c : ClassFile} {members : List String}
    (parsed : ClassFile.parse x.compiled = .ok c) (lists : c.Lists members) : x.after.Lists members := by
  obtain rfl := Except.ok.inj (x.parsed.symm.trans parsed)
  exact x.keeps.lists lists

namespace TestCase

variable {b : Workbench} {h h' : Host} {name name' : String} {d : Difference}

/-- Classes do not match exactly if their normal forms are different. -/
theorem compareClasses_eq_mismatch {compiled compiled' : Bytes} :
    compareClasses name compiled compiled' = .error (.mismatch name' d) ↔
      name' = name ∧ ∃ normal normal', ClassFile.normalize compiled = .ok normal ∧
        ClassFile.normalize compiled' = .ok normal' ∧ normal ≠ normal' ∧ d = .between normal normal' := by
  constructor
  · intro failed
    rcases compareClasses_eq_error failed with ⟨_, _, same⟩ | ⟨normal, normal', run, run', differ, same⟩
    · cases same
    · cases same
      exact ⟨rfl, normal, normal', run, run', differ, rfl⟩
  · rintro ⟨rfl, normal, normal', run, run', differ, rfl⟩
    rw [compareClasses, mapError_eq_ok.mpr run, ok_bind, mapError_eq_ok.mpr run', ok_bind, if_neg differ]
    rfl

/-- A compilation does not end in a mismatch. -/
theorem compileSide_ne_mismatch {side : Side} {source : String} {processor : Option Processor} :
    (compileSide b side source processor).outcome h ≠ (.error (.mismatch name d), h') := by
  rw [compileSide_outcome]
  unfold classOf
  split
  · nofun
  · nofun
  · split <;> nofun

/-- A case fails with a mismatch exactly if both sources compile and the normal forms of the classes are
different. -/
theorem run_eq_mismatch {c : TestCase} :
    (c.run b).outcome h = (.error (.mismatch name d), h') ↔
      ∃ processor stub expected middle compiled compiled',
        c = ⟨name, .compare processor stub expected⟩ ∧
        (compileSide b .generated stub (some processor)).outcome h = (.ok compiled, middle) ∧
        (compileSide b .expected expected none).outcome middle = (.ok compiled', h') ∧
        compareClasses name compiled compiled' = .error (.mismatch name d) := by
  constructor
  · intro failed
    obtain ⟨name₀, plan⟩ := c
    cases plan with
    | missingExpected => cases failed
    | compare processor stub expected =>
      rcases HostStep.outcome_bind_eq_error.mp failed with failed | ⟨compiled, middle, first, failed⟩
      · exact absurd failed compileSide_ne_mismatch
      rcases HostStep.outcome_bind_eq_error.mp failed with failed | ⟨compiled', last, second, failed⟩
      · exact absurd failed compileSide_ne_mismatch
      rw [HostStep.outcome_ofExcept] at failed
      obtain ⟨differ, rfl⟩ := Prod.mk.inj failed
      obtain ⟨rfl, _⟩ := compareClasses_eq_mismatch.mp differ
      exact ⟨processor, stub, expected, middle, compiled, compiled', rfl, first, second, differ⟩
  · rintro ⟨processor, stub, expected, middle, compiled, compiled', rfl, first, second, failed⟩
    refine HostStep.outcome_bind_eq_error.mpr (.inr ⟨compiled, middle, first, ?_⟩)
    refine HostStep.outcome_bind_eq_error.mpr (.inr ⟨compiled', h', second, ?_⟩)
    rw [HostStep.outcome_ofExcept, failed]

/-- **A mismatch is reported exactly.** Both sources have been compiled, and the report is about the normal forms
of the two classes: it has their sizes and the first place where they differ, which is inside of both, with the
same bytes before it and different ones at it. If the names and the descriptors of all members can be found out,
it lists the members of each class that the other one does not have, in the order in which they are declared. -/
theorem run_mismatch {c : TestCase} (failed : (c.run b).outcome h = (.error (.mismatch name d), h')) :
    ∃ (processor : Processor) (stub expected : String) (middle : Host) (x y : NormalizedClass),
      c = ⟨name, .compare processor stub expected⟩ ∧
      (compileSide b .generated stub (some processor)).outcome h = (.ok x.compiled, middle) ∧
      (compileSide b .expected expected none).outcome middle = (.ok y.compiled, h') ∧
      d.generatedSize = x.normal.length ∧ d.expectedSize = y.normal.length ∧
      (∃ i, d.position = some i ∧ i < x.normal.length ∧ i < y.normal.length ∧
        x.normal.take i = y.normal.take i ∧ x.normal[i]? ≠ y.normal[i]?) ∧
      ∀ members members', x.after.Lists members → y.after.Lists members' →
        d.onlyGenerated = members.filter (· ∉ members') ∧
          d.onlyExpected = members'.filter (· ∉ members) := by
  obtain ⟨processor, stub, expected, middle, _, _, case, first, second, failed⟩ := run_eq_mismatch.mp failed
  obtain ⟨-, _, _, run, run', differ, rfl⟩ := compareClasses_eq_mismatch.mp failed
  obtain ⟨x, rfl, rfl⟩ := NormalizedClass.exists_of_normalize run
  obtain ⟨y, rfl, rfl⟩ := NormalizedClass.exists_of_normalize run'
  obtain ⟨i, found⟩ := Difference.exists_positionOf x.parsed_normal y.parsed_normal differ
  refine ⟨processor, stub, expected, middle, x, y, case, first, second, rfl, rfl,
    ⟨i, found, Difference.of_positionOf_eq_some found⟩, fun members members' lists lists' => ?_⟩
  rw [← Difference.filter_contains, ← Difference.filter_contains,
    ← Difference.membersOf_eq x.parsed_normal lists, ← Difference.membersOf_eq y.parsed_normal lists']
  exact ⟨rfl, rfl⟩

/-! ## A class with a field more -/

/-- The class `A` with a field `a` of type `int`. -/
def widened : ClassFile :=
  { ClassFile.rearranged with
    thisClass := 2
    fields := [⟨⟨0⟩, 3, 4, []⟩]
    pool := List.foldl ConstantPool.push .empty [.utf8 [65], .classInfo 1, .utf8 [97], .utf8 [73]] }

/-- The class with a field more can be read back from its bytes. -/
theorem parse_widened : ClassFile.parse widened.bytes = .ok widened :=
  ClassFile.parse_of_toBytes ⟨_, rfl⟩ nofun rfl

/-- The class has no members. -/
theorem lists_compiled : ClassFile.compiled.Lists [] := ⟨[], [], rfl, rfl, rfl⟩

/-- The other one has a field. -/
theorem lists_widened : widened.Lists ["field a:I"] :=
  ⟨[("a", "I")], [], by decide +kernel, rfl, by decide +kernel⟩

/-- The class with a field more can be normalized. -/
theorem exists_normalize_widened : ∃ normal, ClassFile.normalize widened.bytes = .ok normal := by
  have acyclic : widened.pool.Acyclic :=
    ConstantPool.acyclic_of_toList (fun i => if i = 2 then 1 else 0) (by decide)
  exact ClassFile.exists_normalize parse_widened acyclic rfl ⟨by decide, by decide⟩

/-- A workbench whose compiler makes the class without the field if a processor is attached, and the class with it
otherwise. -/
def driftingBench : Workbench where
  sourceRoot := ⟨"/src"⟩
  classPath := []
  compiler := RuleCompiler.ofRules
    [{ processor := some "P", outputs := [(⟨"Example.class"⟩, some ClassFile.compiled.bytes)] },
      { source := some "class A", outputs := [(⟨"Example.class"⟩, some widened.bytes)] }]

/-- A case that compares the two classes. -/
def drifting : TestCase := ⟨"P", .compare Workbench.smallProcessor "class A" "class A"⟩

/-- With the processor, the compiler makes the class without the field. -/
theorem compile_drifting :
    ((compileSide driftingBench .generated "class A" (some Workbench.smallProcessor)).outcome
      Workbench.bareHost).1 = .ok ClassFile.compiled.bytes := by decide +kernel

/-- Without it, the compiler makes the class with the field. -/
theorem compile_drifting_expected :
    ((compileSide driftingBench .expected "class A" none).outcome
      ((compileSide driftingBench .generated "class A" (some Workbench.smallProcessor)).outcome
        Workbench.bareHost).2).1 = .ok widened.bytes := by decide +kernel

/-- A case fails for the field that is expected and not generated. -/
theorem run_mismatch_drifting : ∃ d h', (drifting.run driftingBench).outcome Workbench.bareHost =
      (.error (.mismatch "P" d), h') ∧
    (∃ i, d.position = some i) ∧ d.onlyGenerated = [] ∧ d.onlyExpected = ["field a:I"] := by
  obtain ⟨middle, first⟩ := HostStep.exists_outcome compile_drifting
  have second := compile_drifting_expected
  rw [first] at second
  obtain ⟨h', second⟩ := HostStep.exists_outcome second
  obtain ⟨normal, run⟩ := ClassFile.exists_normalize ClassFile.parse_compiled ClassFile.acyclic_compiled
    ClassFile.view_compiled ClassFile.plainView_fits
  obtain ⟨normal', run'⟩ := exists_normalize_widened
  have parsed {bytes : Bytes} (same : bytes = ClassFile.compiled.bytes) :
      ClassFile.parse bytes = .ok ClassFile.compiled := same ▸ ClassFile.parse_compiled
  have parsed' {bytes : Bytes} (same : bytes = widened.bytes) : ClassFile.parse bytes = .ok widened :=
    same ▸ parse_widened
  have differ : normal ≠ normal' := by
    obtain ⟨x, compiled, rfl⟩ := NormalizedClass.exists_of_normalize run
    obtain ⟨y, compiled', rfl⟩ := NormalizedClass.exists_of_normalize run'
    intro same
    have members := Difference.membersOf_eq x.parsed_normal (x.lists (parsed compiled) lists_compiled)
    rw [same, Difference.membersOf_eq y.parsed_normal (y.lists (parsed' compiled') lists_widened)] at members
    cases members
  have failed : (drifting.run driftingBench).outcome Workbench.bareHost =
      (.error (.mismatch "P" (.between normal normal')), h') :=
    run_eq_mismatch.mpr ⟨_, _, _, middle, _, _, rfl, first, second,
      compareClasses_eq_mismatch.mpr ⟨rfl, normal, normal', run, run', differ, rfl⟩⟩
  obtain ⟨processor, stub, expected, middle', x, y, case, compiled, compiled', -, -, ⟨i, found, -⟩, members⟩ :=
    run_mismatch failed
  simp only [drifting, TestCase.mk.injEq, CasePlan.compare.injEq, true_and] at case
  obtain ⟨rfl, rfl, rfl⟩ := case
  obtain ⟨same, rfl⟩ := Prod.mk.inj (first.symm.trans compiled)
  obtain ⟨same', -⟩ := Prod.mk.inj (second.symm.trans compiled')
  obtain ⟨onlyGenerated, onlyExpected⟩ := members [] ["field a:I"]
    (x.lists (parsed (Except.ok.inj same).symm) lists_compiled)
    (y.lists (parsed' (Except.ok.inj same').symm) lists_widened)
  exact ⟨_, h', failed, ⟨i, found⟩, onlyGenerated, onlyExpected⟩

end TestCase

end ProcessorBench
