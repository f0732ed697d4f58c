import ProcessorBench.Proofs.Placement
import ProcessorBench.Proofs.Writing

/-!
# Normal forms

What `ClassFile.normalize` gives depends on the class without its debug attributes and without its
pool, and a normal form is its own normal form. For the latter the two pools need not be compared:
the second run starts from another pool, but the view is the same and there is nothing left to
delete, so renumbering gives the same class. How a run ends can be told from the layout of the view:
`normalize_outcome`.
-/

namespace ProcessorBench.ClassFile

variable {bytes bytes' written : Bytes} {c d : ClassFile} {v : ClassView}

/-- For a file that parses, leaving out the debug attributes cannot fail. -/
theorem stripped_eq (h : parse bytes = .ok c) : c.stripped = c.debugFree.renumbered := by
  rw [stripped, withoutDebug_eq fun a mem => utf8Bytes_of_named (named_of_parse h a mem)]
  rfl

/-- Normalizing rebuilds what is left without debug attributes, and writes it. -/
theorem normalize_eq (h : parse bytes = .ok c) :
    normalize bytes = c.debugFree.renumbered >>= toBytes := by
  rw [normalize, h, ok_bind, stripped_eq h]

/-- A class without debug attributes stays as it is. -/
theorem debugFree_eq_self (h : ∀ a ∈ c.all, c.pool.isDebugName a.name = false) : c.debugFree = c := by
  rw [debugFree, ClassOf.without_eq_self h]

/-- What a class without debug attributes and with a new pool is like. -/
structure Normal (c d : ClassFile) (v : ClassView) : Prop where
  before : c.debugFree.view = .ok v
  after : d.view = .ok v
  acyclic : d.pool.Acyclic
  built : ∃ cs : List Constant, d.pool = cs.foldl ConstantPool.push .empty
  named : ∀ a ∈ d.all, Attribute.Named d.pool a
  kept : ∀ a ∈ d.all, d.pool.isDebugName a.name = false

/-- A class whose names are known is rebuilt into a normal form. -/
theorem normal_of_named (named : ∀ a ∈ c.all, Attribute.Named c.pool a) (acyclic : c.pool.Acyclic)
    (run : c.debugFree.renumbered = .ok d) : ∃ v, Normal c d v := by
  obtain ⟨v, hv, hd, b, sound, pool⟩ := view_of_renumbered (c := c.debugFree) acyclic run
  have dAcyclic : d.pool.Acyclic := pool ▸ sound.acyclic
  refine ⟨v, hv, hd, dAcyclic, pool ▸ sound.pushed, ?_, ?_⟩
  · exact named_of_same_view (c := c.debugFree) acyclic dAcyclic hv hd (named_debugFree named)
  · exact kept_of_same_view (c := c.debugFree) acyclic dAcyclic hv hd
      fun a mem => (ClassOf.all_without mem).1

/-- A class that has been read is rebuilt into a normal form. -/
theorem normal_of_renumbered (h : parse bytes = .ok c) (acyclic : c.pool.Acyclic)
    (run : c.debugFree.renumbered = .ok d) : ∃ v, Normal c d v :=
  normal_of_named (named_of_parse h) acyclic run

/-- A normal form is the normal form of the class it holds. -/
theorem Normal.renumbered (h : Normal c d v) (acyclic : c.pool.Acyclic) :
    d.debugFree.renumbered = c.debugFree.renumbered := by
  rw [debugFree_eq_self h.kept, renumbered_eq h.acyclic h.after,
    renumbered_eq (c := c.debugFree) acyclic h.before]

/-- How normalizing a class ends, by its view: well when its layout can be filled, and otherwise for
want of a slot or of room in one byte. -/
theorem normalize_outcome (h : parse bytes = .ok c) (acyclic : c.pool.Acyclic)
    (hv : c.debugFree.view = .ok v) :
    ((∃ b : PoolBuilder, b.Holds v.layout) ∧ ∃ written, normalize bytes = .ok written) ∨
      (UInt16.size ≤ v.layout.slotCount ∧ normalize bytes = .error (.overflow .poolSlots)) ∨
      ((∃ t ∈ v.layout.narrow, 256 ≤ v.layout.position t) ∧
        normalize bytes = .error (.overflow .renumberedLoadOperand)) := by
  have run := renumbered_eq (c := c.debugFree) acyclic hv
  rw [normalize_eq h, run]
  rcases ClassView.rebuilt_outcome (c := c.debugFree) hv with
    ⟨held, d, hd⟩ | ⟨few, failed⟩ | ⟨far, failed⟩
  · refine .inl ⟨held, d.bytes, ?_⟩
    rw [hd, ok_bind, toBytes, check_of_renumbered h acyclic (run.trans hd)]
    rfl
  · refine .inr (.inl ⟨few, ?_⟩)
    rw [failed, error_bind]
  · refine .inr (.inr ⟨far, ?_⟩)
    rw [failed, error_bind]

/-- Where the layout fits, a normal form is written. -/
theorem exists_normalize (h : parse bytes = .ok c) (acyclic : c.pool.Acyclic)
    (hv : c.debugFree.view = .ok v) (fits : v.layout.Fits) :
    ∃ written, normalize bytes = .ok written := by
  rcases normalize_outcome h acyclic hv with ⟨_, written⟩ | ⟨few, _⟩ | ⟨⟨t, mem, far⟩, _⟩
  · exact written
  · exact absurd fits.room (Nat.not_lt.mpr few)
  · exact absurd (fits.loads t mem) (Nat.not_lt.mpr far)

/-- Where the layout fits, the pool can be rebuilt. -/
theorem exists_stripped (h : parse bytes = .ok c) (acyclic : c.pool.Acyclic)
    (hv : c.debugFree.view = .ok v) (fits : v.layout.Fits) : ∃ d, c.stripped = .ok d := by
  obtain ⟨written, run⟩ := exists_normalize h acyclic hv fits
  rw [normalize_eq h, ← stripped_eq h] at run
  obtain ⟨d, stripped, _⟩ := bind_eq_ok.mp run
  exact ⟨d, stripped⟩

/-! ## Two small files -/

/-- The class `A` without members, compiled from a file `A.java`. -/
def compiled : ClassFile where
  minorVersion := 0
  majorVersion := 52
  access := ⟨0x21⟩
  thisClass := 1
  superClass := 0
  interfaces := []
  fields := []
  methods := []
  attributes := [⟨3, .sourceFile 4⟩]
  pool := List.foldl ConstantPool.push .empty
    [.classInfo 2, .utf8 [65], .utf8 [83, 111, 117, 114, 99, 101, 70, 105, 108, 101],
      .utf8 [65, 46, 106, 97, 118, 97]]

/-- The same class without a debug attribute, with its name twice in another pool and a number that
nobody refers to. -/
def rearranged : ClassFile :=
  { compiled with
    thisClass := 4
    attributes := []
    pool := List.foldl ConstantPool.push .empty [.utf8 [65], .integer 7, .utf8 [65], .classInfo 3] }

/-- What both say. -/
def plainView : ClassView where
  minorVersion := 0
  majorVersion := 52
  access := ⟨0x21⟩
  thisClass := some ⟨.classInfo ⟨.utf8 [65]⟩⟩
  superClass := none
  interfaces := []
  fields := []
  methods := []
  attributes := []

/-- The first class can be read back from its bytes. -/
theorem parse_compiled : parse compiled.bytes = .ok compiled := by
  refine parse_of_toBytes ⟨_, rfl⟩ (fun a mem => ?_) rfl
  rw [show compiled.all = [⟨3, .sourceFile 4⟩] from rfl, List.mem_singleton] at mem
  subst mem
  exact ⟨⟨"SourceFile", rfl, rfl⟩, trivial⟩

/-- No constant of it leads back to itself. -/
theorem acyclic_compiled : compiled.pool.Acyclic :=
  ConstantPool.acyclic_of_toList (fun i => if i = 1 then 1 else 0) (by decide)

/-- What it says once it has been rid of debug attributes. -/
theorem view_compiled : compiled.debugFree.view = .ok plainView := by
  have debug : compiled.pool.isDebugName 3 = true := by decide +kernel
  have kept : AttributeOf.withoutList compiled.pool.isDebugName compiled.attributes = [] :=
    if_pos debug
  rw [debugFree, ClassOf.without, kept]
  rfl

/-- The second class can be read back as well. -/
theorem parse_rearranged : parse rearranged.bytes = .ok rearranged :=
  parse_of_toBytes ⟨_, rfl⟩ nofun rfl

/-- No constant of it leads back to itself. -/
theorem acyclic_rearranged : rearranged.pool.Acyclic :=
  ConstantPool.acyclic_of_toList UInt16.toNat (by decide)

/-- The second class says the same as the first one. -/
theorem view_rearranged : rearranged.debugFree.view = .ok plainView := rfl

/-- What both say fits into a pool. -/
theorem plainView_fits : plainView.layout.Fits := ⟨by decide, by decide⟩

/-! ## Idempotent and canonical -/

/-- **Normalizing is idempotent**: a normal form parses, and its normal form is itself. -/
theorem normalize_idempotent (h : parse bytes = .ok c) (acyclic : c.pool.Acyclic)
    (run : normalize bytes = .ok written) :
    (∃ d, parse written = .ok d) ∧ normalize written = .ok written := by
  rw [normalize_eq h] at run
  obtain ⟨d, renumbered, toBytes⟩ := bind_eq_ok.mp run
  obtain ⟨v, normal⟩ := normal_of_renumbered h acyclic renumbered
  have back : parse written = .ok d := parse_of_toBytes normal.built normal.named toBytes
  refine ⟨⟨d, back⟩, ?_⟩
  rw [normalize_eq back, normal.renumbered acyclic, renumbered, ok_bind, toBytes]

/-- The normal form of the first class is its own. -/
theorem normalize_idempotent_compiled : ∃ written, normalize compiled.bytes = .ok written ∧
    (∃ d, parse written = .ok d) ∧ normalize written = .ok written := by
  obtain ⟨written, run⟩ :=
    exists_normalize parse_compiled acyclic_compiled view_compiled plainView_fits
  exact ⟨written, run, normalize_idempotent parse_compiled acyclic_compiled run⟩

/-- **Normalizing is canonical**: files with one view have one outcome, the same bytes or the same
limit that is exceeded. -/
theorem normalize_canonical (h : parse bytes = .ok c) (h' : parse bytes' = .ok d)
    (acyclic : c.pool.Acyclic) (acyclic' : d.pool.Acyclic) (hv : c.debugFree.view = .ok v)
    (hv' : d.debugFree.view = .ok v) :
    normalize bytes = normalize bytes' ∧
      ((∃ written, normalize bytes = .ok written) ∨ ∃ l, normalize bytes = .error (.overflow l)) := by
  constructor
  · rw [normalize_eq h, normalize_eq h', renumbered_eq (c := c.debugFree) acyclic hv,
      renumbered_eq (c := d.debugFree) acyclic' hv']
  · rcases normalize_outcome h acyclic hv with ⟨_, written⟩ | ⟨_, failed⟩ | ⟨_, failed⟩
    · exact .inl written
    · exact .inr ⟨_, failed⟩
    · exact .inr ⟨_, failed⟩

/-- Both classes have one normal form, although their bytes differ. -/
theorem normalize_canonical_compiled : compiled.bytes ≠ rearranged.bytes ∧
    normalize compiled.bytes = normalize rearranged.bytes ∧
      ((∃ written, normalize compiled.bytes = .ok written) ∨
        ∃ l, normalize compiled.bytes = .error (.overflow l)) :=
  ⟨by decide, normalize_canonical parse_compiled parse_rearranged acyclic_compiled acyclic_rearranged
    view_compiled view_rearranged⟩

end ProcessorBench.ClassFile
