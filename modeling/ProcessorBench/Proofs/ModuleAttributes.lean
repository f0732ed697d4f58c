import ProcessorBench.Proofs.AttributeNames
import ProcessorBench.Proofs.FirstUse

/-!
# Attributes that are not taken apart

Three attributes of a module hold indices, and their bodies are kept as bytes (`ModuleLayout`). So stripping, which
renumbers all indices that it knows, leaves theirs as they are, and leaves a constant out that only they lead to. What
such an index leads to afterwards is what stands in its slot in the order of first uses: the constant that it has led to
exactly if the known indices use this too and put it there (`ClassFile.stripped_modules`).
-/

namespace ProcessorBench

/-! ## The attributes of a module -/

/-- A module that another one requires. -/
structure Requirement where
  module : PoolIndex
  access : UInt16
  /-- Index 0 when no version is recorded. -/
  version : PoolIndex

/-- A package that is exported or opened, to all modules or to some. -/
structure OfferedPackage where
  package : PoolIndex
  access : UInt16
  modules : List PoolIndex

/-- A service and the classes that implement it. -/
structure ProvidedService where
  service : PoolIndex
  classes : List PoolIndex

/-- The bodies that the attributes of a module have. -/
inductive ModuleBody where
  | declaration (name : PoolIndex) (access : UInt16) (version : PoolIndex) (requires : List Requirement)
    (exports opens : List OfferedPackage) (uses : List PoolIndex) (provides : List ProvidedService)
  | packages (indices : List PoolIndex)
  | mainClass (index : PoolIndex)

/-- The layouts of the attributes of a module. -/
inductive ModuleLayout where
  | declaration
  | packages
  | mainClass

/-- The name that announces a layout. -/
def ModuleLayout.name : ModuleLayout → String
  | .declaration => "Module"
  | .packages => "ModulePackages"
  | .mainClass => "ModuleMainClass"

section
open Reader

/-- Read a module that is required. -/
def Requirement.read : Reader ClassError Requirement :=
  return ⟨← u16, ← u16, ← u16⟩

/-- Read a package that is exported or opened. -/
def OfferedPackage.read : Reader ClassError OfferedPackage :=
  return ⟨← u16, ← u16, ← counted u16⟩

/-- Read a service that is provided. -/
def ProvidedService.read : Reader ClassError ProvidedService :=
  return ⟨← u16, ← counted u16⟩

/-- Read the body of an attribute of a module. -/
def ModuleLayout.read : ModuleLayout → Reader ClassError ModuleBody
  | .declaration =>
    return .declaration (← u16) (← u16) (← u16) (← counted Requirement.read) (← counted OfferedPackage.read)
      (← counted OfferedPackage.read) (← counted u16) (← counted ProvidedService.read)
  | .packages => return .packages (← counted u16)
  | .mainClass => return .mainClass (← u16)

end

/-- Where a body refers to constants. -/
def ModuleBody.occurrences : ModuleBody → List (Occurrence PoolIndex Bytes)
  | .declaration name _ version requires exports opens uses provides =>
    .required name :: .optional version ::
      (requires.flatMap (fun r => [.required r.module, .optional r.version]) ++
        ((exports ++ opens).flatMap (fun o => .required o.package :: o.modules.map .required) ++
          (uses.map .required ++ provides.flatMap fun p => .required p.service :: p.classes.map .required)))
  | .packages indices => indices.map .required
  | .mainClass index => [.required index]

/-- The indices that a body holds. -/
def ModuleBody.references (m : ModuleBody) : List PoolIndex := m.occurrences.flatMap Occurrence.indices

/-- No attribute of a module is taken apart, and none is a debug attribute. -/
theorem ModuleLayout.ofName_name (l : ModuleLayout) :
    AttributeKind.ofName l.name = .raw ∧ l.name ∉ debugAttributeNames := by
  cases l <;> exact ⟨rfl, by simp [name, debugAttributeNames]⟩

/-! ## What is left of them -/

namespace ClassFile

variable {bytes : Bytes} {c d : ClassFile} {v : ClassView} {i : PoolIndex} {t : ConstantTree}

/-- **What an index leads to after stripping** is what has been laid out in its slot. -/
theorem tree_stripped_iff (parsed : parse bytes = .ok c) (acyclic : c.pool.Acyclic) (run : c.stripped = .ok d)
    (before : c.debugFree.view = .ok v) :
    d.pool.tree i = .ok t ↔ t ∈ v.layout.placed ∧ i.toNat = v.layout.position t := by
  rw [stripped_eq parsed] at run
  obtain ⟨w, viewed, _, b, held, pool⟩ := holds_of_renumbered (c := c.debugFree) acyclic run
  cases before.symm.trans viewed
  rw [pool]
  constructor
  · intro there
    exact held.position i t there
  · rintro ⟨placed, slot⟩
    obtain ⟨k, there⟩ := held.placed t placed
    have same : k = i := UInt16.toNat_inj.mp ((held.position k t there).2.trans slot.symm)
    rwa [same] at there

/-- A class is left with each attribute whose body is kept as bytes, unless it is a debug attribute. -/
theorem exists_raw_stripped {name : String} {data : Bytes} (parsed : parse bytes = .ok c)
    (acyclic : c.pool.Acyclic) (run : c.stripped = .ok d) (mem : ⟨i, .raw data⟩ ∈ c.all)
    (named : c.pool.utf8 i = .ok name) (other : name ∉ debugAttributeNames) :
    ∃ k, ⟨k, .raw data⟩ ∈ d.all ∧ d.pool.utf8 k = .ok name := by
  have kept := Attribute.isDebugName_eq_false (a := ⟨i, .raw data⟩) named other
  have left : ⟨i, .raw data⟩ ∈ c.debugFree.all := by
    have all : c.debugFree.all = _ := c.toClassOf.all_prunes fun b hb debug =>
      Attribute.all_of_debug (named_of_parse parsed b hb) debug
    rw [all]
    exact List.mem_map.mpr ⟨_, List.mem_filter.mpr ⟨mem, by simp [kept]⟩, rfl⟩
  rw [stripped_eq parsed] at run
  obtain ⟨v, normal⟩ := normal_of_renumbered parsed acyclic run
  obtain ⟨⟨k, body⟩, hb, w, hbw, haw⟩ := exists_same_view normal.after normal.before left
  obtain ⟨t, ht, first⟩ := tree_of_name haw
  obtain ⟨t', ht', second⟩ := tree_of_name hbw
  obtain rfl : t = t' := Option.some.inj (first.symm.trans second)
  have raw : .ok (.raw data) = Except.ok w.body := (AttributeOf.parts_of_mapRefs haw).2
  have same := (AttributeOf.parts_of_mapRefs hbw).2
  have kind := AttributeBodyOf.kind_of_mapRefs same
  rw [← Except.ok.inj raw] at same kind
  cases body with
  | raw data' =>
    cases same
    refine ⟨k, hb, ?_⟩
    rw [ConstantPool.utf8_eq_ok normal.acyclic ht', ← ConstantPool.utf8_eq_ok acyclic ht]
    exact named
  | _ => cases kind

/-- **Attributes of a module are left with their bytes**, whatever the indices in them lead to then. All other
references lead to what they led to before; and so does an index in the body of such an attribute exactly if other
references use the constant, and its slot in the order of first uses is this index. -/
theorem stripped_modules (parsed : parse bytes = .ok c) (acyclic : c.pool.Acyclic) (run : c.stripped = .ok d) :
    (∃ v, c.debugFree.view = .ok v ∧ d.view = .ok v) ∧
    ∀ a ∈ c.all, ∀ l : ModuleLayout, c.pool.utf8 a.name = .ok l.name → ∃ data k, a.body = .raw data ∧
      ⟨k, .raw data⟩ ∈ d.all ∧ d.pool.utf8 k = .ok l.name ∧
      ∀ m, l.read data = .ok (m, []) → ∀ i ∈ m.references, ∀ t, c.pool.tree i = .ok t →
        (d.pool.tree i = .ok t ↔ t ∈ c.debugFree.firstUses ∧
          i.toNat = 1 + Layout.slots (c.debugFree.firstUses.takeWhile (· ≠ t))) := by
  have stripped := run
  rw [stripped_eq parsed] at stripped
  obtain ⟨v, normal⟩ := normal_of_renumbered parsed acyclic stripped
  refine ⟨⟨v, normal.before, normal.after⟩, fun a mem l named => ?_⟩
  obtain ⟨⟨text, dispatched, kind⟩, _⟩ := named_of_parse parsed a mem
  cases named.symm.trans dispatched
  rw [l.ofName_name.1] at kind
  obtain ⟨name, body⟩ := a
  cases body with
  | raw data =>
    obtain ⟨k, left, same⟩ := exists_raw_stripped parsed acyclic run mem named l.ofName_name.2
    refine ⟨data, k, rfl, left, same, fun m _ i _ t _ => ?_⟩
    rw [tree_stripped_iff parsed acyclic run normal.before, Layout.position, placed_eq_firstUses normal.before]
  | _ => cases kind

/-! ## A main class that stays, and a module that does not -/

/-- The class `A`, with itself for the main class of its module. -/
def launching : ClassFile where
  minorVersion := 0
  majorVersion := 53
  access := ⟨0x21⟩
  thisClass := 2
  superClass := 0
  interfaces := []
  fields := []
  methods := []
  attributes := [⟨3, .raw [0, 2]⟩]
  pool := List.foldl ConstantPool.push .empty
    [.utf8 [65], .classInfo 1,
      .utf8 [77, 111, 100, 117, 108, 101, 77, 97, 105, 110, 67, 108, 97, 115, 115]]

/-- The class can be read back from its bytes. -/
theorem parse_launching : parse launching.bytes = .ok launching := by
  refine parse_of_toBytes ⟨_, rfl⟩ (fun a mem => ?_) rfl
  rw [show launching.all = launching.attributes from rfl] at mem
  obtain rfl := List.mem_singleton.mp mem
  exact ⟨⟨"ModuleMainClass", rfl, rfl⟩, trivial⟩

/-- No constant of it leads back to itself. -/
theorem acyclic_launching : launching.pool.Acyclic :=
  ConstantPool.acyclic_of_toList UInt16.toNat (by decide)

/-- What it says once it has been rid of debug attributes. -/
theorem view_launching : launching.debugFree.view = .ok { plainView with
    majorVersion := 53
    attributes := [⟨some ⟨.utf8 [77, 111, 100, 117, 108, 101, 77, 97, 105, 110, 67, 108, 97, 115, 115]⟩,
      .raw [0, 2]⟩] } := by
  have kept : ∀ a ∈ launching.all, launching.pool.isDebugName a.name = false :=
    List.forall_mem_singleton.mpr (Attribute.isDebugName_eq_false rfl ModuleLayout.mainClass.ofName_name.2)
  rw [debugFree_eq_self kept]
  rfl

/-- The class stands in slot 2 before and after. -/
theorem stripped_modules_launching : ∃ d, launching.stripped = .ok d ∧
    (∃ k, ⟨k, .raw [0, 2]⟩ ∈ d.all ∧ d.pool.utf8 k = .ok "ModuleMainClass") ∧
    ModuleLayout.mainClass.read [0, 2] = .ok (.mainClass 2, []) ∧
    launching.pool.tree 2 = .ok ⟨.classInfo ⟨.utf8 [65]⟩⟩ ∧
    d.pool.tree 2 = .ok ⟨.classInfo ⟨.utf8 [65]⟩⟩ := by
  obtain ⟨d, run⟩ := exists_stripped parse_launching acyclic_launching view_launching
    ⟨by decide, by decide⟩
  have there : launching.pool.tree 2 = .ok ⟨.classInfo ⟨.utf8 [65]⟩⟩ := rfl
  obtain ⟨_, modules⟩ := stripped_modules parse_launching acyclic_launching run
  obtain ⟨data, k, raw, left, named, leads⟩ :=
    modules _ (List.mem_singleton_self _) .mainClass rfl
  cases raw
  refine ⟨d, run, ⟨k, left, named⟩, rfl, there, ?_⟩
  refine (leads (.mainClass 2) rfl 2 (List.mem_singleton_self _) _ there).mpr ?_
  rw [← placed_eq_firstUses view_launching]
  exact ⟨by decide, by decide⟩

/-- A module `m` that requires `java.base`. -/
def declaring : ClassFile where
  minorVersion := 0
  majorVersion := 53
  access := ⟨0x8000⟩
  thisClass := 1
  superClass := 0
  interfaces := []
  fields := []
  methods := []
  attributes := [⟨7, .raw [0, 3, 0, 0, 0, 0, 0, 1, 0, 5, 0x80, 0, 0, 0, 0, 0, 0, 0, 0, 0, 0, 0]⟩]
  pool := List.foldl ConstantPool.push .empty
    [.classInfo 2, .utf8 [109, 111, 100, 117, 108, 101, 45, 105, 110, 102, 111], .moduleInfo 4, .utf8 [109],
      .moduleInfo 6, .utf8 [106, 97, 118, 97, 46, 98, 97, 115, 101], .utf8 [77, 111, 100, 117, 108, 101]]

/-- What it says, as far as it is taken apart. -/
def declaringView : ClassView where
  minorVersion := 0
  majorVersion := 53
  access := ⟨0x8000⟩
  thisClass := some ⟨.classInfo ⟨.utf8 [109, 111, 100, 117, 108, 101, 45, 105, 110, 102, 111]⟩⟩
  superClass := none
  interfaces := []
  fields := []
  methods := []
  attributes := [⟨some ⟨.utf8 [77, 111, 100, 117, 108, 101]⟩,
    .raw [0, 3, 0, 0, 0, 0, 0, 1, 0, 5, 0x80, 0, 0, 0, 0, 0, 0, 0, 0, 0, 0, 0]⟩]

/-- The other class can be read back as well. -/
theorem parse_declaring : parse declaring.bytes = .ok declaring := by
  refine parse_of_toBytes ⟨_, rfl⟩ (fun a mem => ?_) rfl
  rw [show declaring.all = declaring.attributes from rfl] at mem
  obtain rfl := List.mem_singleton.mp mem
  exact ⟨⟨"Module", rfl, rfl⟩, trivial⟩

/-- No constant of it leads back to itself. -/
theorem acyclic_declaring : declaring.pool.Acyclic :=
  ConstantPool.acyclic_of_toList (fun i => if i = 1 ∨ i = 3 ∨ i = 5 then 1 else 0) (by decide)

/-- What it says once it has been rid of debug attributes. -/
theorem view_declaring : declaring.debugFree.view = .ok declaringView := by
  have kept : ∀ a ∈ declaring.all, declaring.pool.isDebugName a.name = false :=
    List.forall_mem_singleton.mpr (Attribute.isDebugName_eq_false rfl ModuleLayout.declaration.ofName_name.2)
  rw [debugFree_eq_self kept]
  rfl

/-- **A module is lost**: its attribute stays, and what the first index in it has led to is no constant any more. -/
theorem stripped_declaring : parse declaring.bytes = .ok declaring ∧ declaring.pool.Acyclic ∧
    ∃ d, declaring.stripped = .ok d ∧ ∃ a ∈ declaring.all, declaring.pool.utf8 a.name = .ok "Module" ∧
      ∃ data m, a.body = .raw data ∧ ModuleLayout.declaration.read data = .ok (m, []) ∧
        ∃ i ∈ m.references, ∃ t, declaring.pool.tree i = .ok t ∧ d.pool.tree i ≠ .ok t := by
  obtain ⟨d, run⟩ := exists_stripped parse_declaring acyclic_declaring view_declaring
    ⟨by decide, by decide⟩
  have name : declaring.pool.tree 3 = .ok ⟨.moduleInfo ⟨.utf8 [109]⟩⟩ := rfl
  refine ⟨parse_declaring, acyclic_declaring, d, run, _, List.mem_singleton_self _, rfl, _,
    .declaration 3 0 0 [⟨5, 0x8000, 0⟩] [] [] [] [], rfl, rfl, 3, by decide, _, name, fun there => ?_⟩
  have placed := (tree_stripped_iff parse_declaring acyclic_declaring run view_declaring).mp there
  exact absurd placed.1 (by decide)

end ClassFile

end ProcessorBench
