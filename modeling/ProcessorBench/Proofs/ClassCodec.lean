import ProcessorBench.ClassFile.Basic
import ProcessorBench.Proofs.AttributeCodec
import ProcessorBench.Proofs.PoolCodec

/-!
# Class files, written and read

`ClassFile.read_eq_ok` says what a class file is read from: the written form of the class, except
that the announced number of slots may be one less than the pool has, when the last constant is a
wide one. From left to right, a file that parses is such a form (`parse_eq_ok`); from right to left,
what is written is read back (`parse_of_toBytes`).
-/

namespace ProcessorBench

open Reader

/-! ## What fits -/

/-- The attributes directly inside a class: those of its members and its own. -/
def ClassOf.nested {ι β : Type} (c : ClassOf ι β) : List (AttributeOf ι β) :=
  c.fields.flatMap (·.attributes) ++ (c.methods.flatMap (·.attributes) ++ c.attributes)

/-- All attributes of a class are those directly in it, with all that is within them. -/
theorem ClassOf.all_eq {ι β : Type} (c : ClassOf ι β) : c.all = c.nested.flatMap AttributeOf.all := by
  rw [all, nested, List.flatMap_append, List.flatMap_append, List.flatMap_assoc, List.flatMap_assoc]
  simp only [AttributeOf.allList_eq]

/-- The attributes directly in a class are those of its fields, its methods and its own. -/
theorem ClassOf.forall_nested {ι β : Type} {c : ClassOf ι β} {P : AttributeOf ι β → Prop} :
    (∀ a ∈ c.nested, P a) ↔ (∀ m ∈ c.fields, ∀ a ∈ m.attributes, P a) ∧
      (∀ m ∈ c.methods, ∀ a ∈ m.attributes, P a) ∧ ∀ a ∈ c.attributes, P a := by
  simp only [nested, List.forall_mem_append, List.forall_mem_flatMap]

/-- The counts of a class fit, those inside its attributes left aside. -/
structure ClassOf.Counted {ι β : Type} (c : ClassOf ι β) : Prop where
  interfaces : c.interfaces.length < UInt16.size
  fields : c.fields.length < UInt16.size
  methods : c.methods.length < UInt16.size
  attributes : c.attributes.length < UInt16.size
  inFields : ∀ m ∈ c.fields, m.attributes.length < UInt16.size
  inMethods : ∀ m ∈ c.methods, m.attributes.length < UInt16.size

/-- Attributes can be written behind their number if two bytes hold it. -/
theorem Attribute.checkCounted_eq_ok {as : List Attribute} :
    Attribute.checkCounted as = .ok () ↔
      as.length < UInt16.size ∧ ∀ a ∈ as, Attribute.check a = .ok () := by
  rw [checkCounted, andThen_eq_ok, checkCount_eq_ok, checkList_eq_ok]

/-- A class can be written if its pool can, its counts are small enough, and its attributes can. -/
theorem ClassFile.check_eq_ok {c : ClassFile} :
    c.check = .ok () ↔ c.pool.check = .ok () ∧ c.Counted ∧
      ∀ a ∈ c.nested, Attribute.check a = .ok () := by
  simp only [check, andThen_eq_ok, checkCount_eq_ok, Attribute.checkCounted_eq_ok, List.forM_eq_forM,
    forM_eq_ok, ClassOf.forall_nested]
  constructor
  · rintro ⟨pool, interfaces, fields, inFields, methods, inMethods, attributes, own⟩
    exact ⟨pool, ⟨interfaces, fields, methods, attributes, fun m mem => (inFields m mem).1,
      fun m mem => (inMethods m mem).1⟩, fun m mem => (inFields m mem).2,
      fun m mem => (inMethods m mem).2, own⟩
  · rintro ⟨pool, counted, inFields, inMethods, own⟩
    exact ⟨pool, counted.interfaces, counted.fields,
      fun m mem => ⟨counted.inFields m mem, inFields m mem⟩, counted.methods,
      fun m mem => ⟨counted.inMethods m mem, inMethods m mem⟩, counted.attributes, own⟩

/-! ## Reading -/

/-- A member is read from its bytes. -/
theorem Member.read_eq_ok {pool : ConstantPool} {depth : Nat} {m : Member} {bytes rest : Bytes} :
    Member.read pool depth bytes = .ok (m, rest) ↔
      (m.attributes.length < UInt16.size ∧ ∀ a ∈ m.attributes, Attribute.LegalAt pool depth a) ∧
        bytes = Member.bytes m ++ rest := by
  obtain ⟨⟨access⟩, name, descriptor, attributes⟩ := m
  simp only [Member.read, Member.bytes, Attribute.countedBytes, Attribute.bytesList_eq,
    stateBind_eq_ok, u16_eq_ok, counted_eq_ok (fun _ _ _ => Attribute.read_eq_ok), pure_eq_ok,
    List.append_assoc]
  constructor
  · rintro ⟨_, _, rfl, _, _, rfl, _, _, rfl, _, _, ⟨legal, rfl⟩, same, rfl⟩
    cases same
    exact ⟨legal, rfl⟩
  · rintro ⟨legal, rfl⟩
    exact ⟨access, _, rfl, name, _, rfl, descriptor, _, rfl, attributes, rest, ⟨legal, rfl⟩, rfl, rfl⟩

/-- The written form of a class with the given number of slots announced. -/
def ClassFile.bytesWith (count : Nat) (c : ClassFile) : Bytes :=
  Bytes.ofUInt32 magic ++ (Bytes.ofUInt16 c.minorVersion ++ (Bytes.ofUInt16 c.majorVersion ++
    (Bytes.ofNat 2 count ++ (c.pool.constants.flatMap Constant.bytes ++
      (Bytes.ofUInt16 c.access.bits ++ (Bytes.ofUInt16 c.thisClass ++
        (Bytes.ofUInt16 c.superClass ++ (indexListBytes c.interfaces ++
          (Bytes.ofNat 2 c.fields.length ++ (c.fields.flatMap Member.bytes ++
            (Bytes.ofNat 2 c.methods.length ++ (c.methods.flatMap Member.bytes ++
              Attribute.countedBytes c.attributes))))))))))))

/-- A class is written with the number of slots that its pool has. -/
theorem ClassFile.bytes_eq (c : ClassFile) : c.bytes = c.bytesWith c.pool.slotCount := by
  simp only [bytes, bytesWith, ConstantPool.bytes, List.append_assoc]

/-- A class that is read where `count` slots are announced and attributes may nest below `depth`. -/
structure ClassFile.Legal (count depth : Nat) (c : ClassFile) : Prop where
  pool : c.pool.Announced count
  counted : c.Counted
  nested : ∀ a ∈ c.nested, Attribute.LegalAt c.pool depth a

/-- **A class file is read from the written form of its class.** -/
theorem ClassFile.read_eq_ok {depth : Nat} {c : ClassFile} {bytes rest : Bytes} :
    ClassFile.read depth bytes = .ok (c, rest) ↔
      ∃ count, c.Legal count depth ∧ bytes = c.bytesWith count ++ rest := by
  have members := fun (pool : ConstantPool) (ms : List Member) (bytes rest : Bytes) =>
    @counted_eq_ok _ _ bytes rest _ _ _
      (fun m bytes rest => @Member.read_eq_ok pool depth m bytes rest) ms
  have attributes := fun (pool : ConstantPool) (as : List Attribute) (bytes rest : Bytes) =>
    @counted_eq_ok _ _ bytes rest _ _ _
      (fun a bytes rest => @Attribute.read_eq_ok pool depth a bytes rest) as
  rw [ClassFile.read, stateBind_eq_ok]
  simp only [u32_eq_ok]
  constructor
  · rintro ⟨found, _, rfl, run⟩
    split at run
    · next same =>
      subst same
      simp only [stateBind_eq_ok, u16_eq_ok, ConstantPool.read_eq_ok, indexList_eq_ok, members,
        attributes, pure_eq_ok] at run
      obtain ⟨minor, _, rfl, major, _, rfl, pool, _, ⟨count, announced, rfl⟩, access, _, rfl,
        this, _, rfl, super, _, rfl, interfaces, _, ⟨few, rfl⟩,
        fields, _, ⟨⟨fewFields, allFields⟩, rfl⟩, methods, _,
        ⟨⟨fewMethods, allMethods⟩, rfl⟩, own, _, ⟨⟨fewOwn, allOwn⟩, rfl⟩, rfl, rfl⟩ := run
      refine ⟨count, ⟨announced, ⟨few, fewFields, fewMethods, fewOwn, fun m mem => (allFields m mem).1,
        fun m mem => (allMethods m mem).1⟩, ?_⟩, ?_⟩
      · exact ClassOf.forall_nested.mpr
          ⟨fun m mem => (allFields m mem).2, fun m mem => (allMethods m mem).2, allOwn⟩
      · simp only [bytesWith, Attribute.countedBytes, Attribute.bytesList_eq, List.append_assoc]
    · obtain ⟨_, _, refused, _⟩ := stateBind_eq_ok.mp run
      cases refused
  · rintro ⟨count, ⟨announced, counted, nested⟩, rfl⟩
    obtain ⟨inFields, inMethods, own⟩ := ClassOf.forall_nested.mp nested
    simp only [bytesWith, Attribute.countedBytes, Attribute.bytesList_eq, List.append_assoc]
    refine ⟨magic, _, rfl, ?_⟩
    rw [if_pos rfl, u16_bind, u16_bind,
      stateBind_of_ok (ConstantPool.read_eq_ok.mpr ⟨count, announced, rfl⟩), u16_bind, u16_bind,
      u16_bind,
      stateBind_of_ok (indexList_eq_ok.mpr ⟨counted.interfaces, rfl⟩),
      stateBind_of_ok ((members c.pool _ _ _).mpr ⟨⟨counted.fields, fun m mem =>
        ⟨counted.inFields m mem, inFields m mem⟩⟩, rfl⟩),
      stateBind_of_ok ((members c.pool _ _ _).mpr ⟨⟨counted.methods, fun m mem =>
        ⟨counted.inMethods m mem, inMethods m mem⟩⟩, rfl⟩),
      stateBind_of_ok ((attributes c.pool _ _ _).mpr ⟨⟨counted.attributes, own⟩, rfl⟩)]
    rfl

/-! ## Whole files -/

/-- A file parses when reading its class takes all of it. -/
theorem ClassFile.parse_eq_ok_iff_read {bytes : Bytes} {c : ClassFile} :
    ClassFile.parse bytes = .ok c ↔ ClassFile.read (bytes.length + 1) bytes = .ok (c, []) := by
  unfold parse
  split <;> simp_all

/-- **A file that parses is the written form of its class**, up to the announced number of slots. -/
theorem ClassFile.parse_eq_ok {bytes : Bytes} {c : ClassFile} :
    ClassFile.parse bytes = .ok c ↔
      ∃ count, c.Legal count (bytes.length + 1) ∧ bytes = c.bytesWith count := by
  rw [parse_eq_ok_iff_read, read_eq_ok]
  simp only [List.append_nil]

/-- An attribute is not longer than the class that it is in. -/
theorem Attribute.length_le_of_class {c : ClassFile} {a : Attribute} (mem : a ∈ c.nested) :
    (Attribute.bytes a).length ≤ c.bytes.length := by
  have inMember : ∀ m : Member, a ∈ m.attributes →
      (Attribute.bytes a).length ≤ (Member.bytes m).length := fun m ha => by
    have := length_le_length_flatMap Attribute.bytes ha
    simp only [Member.bytes, Attribute.countedBytes, Attribute.bytesList_eq, List.length_append]
    omega
  simp only [ClassOf.nested, List.mem_append, List.mem_flatMap] at mem
  simp only [ClassFile.bytes, Attribute.countedBytes, Attribute.bytesList_eq, List.length_append]
  rcases mem with ⟨m, hm, ha⟩ | ⟨m, hm, ha⟩ | ha
  · have := inMember m ha
    have := length_le_length_flatMap Member.bytes hm
    omega
  · have := inMember m ha
    have := length_le_length_flatMap Member.bytes hm
    omega
  · have := length_le_length_flatMap Attribute.bytes ha
    omega

/-- **What is written is read back.** -/
theorem ClassFile.parse_of_toBytes {c : ClassFile} {bytes : Bytes}
    (built : ∃ cs : List Constant, c.pool = cs.foldl ConstantPool.push .empty)
    (named : ∀ a ∈ c.all, Attribute.Named c.pool a) (run : c.toBytes = .ok bytes) :
    ClassFile.parse bytes = .ok c := by
  obtain ⟨checked, same⟩ := andThen_eq_ok.mp run
  cases same
  obtain ⟨pool, counted, nested⟩ := check_eq_ok.mp checked
  rw [ClassOf.all_eq, List.forall_mem_flatMap] at named
  refine parse_eq_ok.mpr ⟨c.pool.slotCount,
    ⟨ConstantPool.announced_slotCount built pool, counted, fun a mem => ?_⟩, bytes_eq c⟩
  exact Attribute.legalAt_of_check (nested a mem) (named a mem)
    (Nat.le_succ_of_le (Attribute.length_le_of_class mem))

/-- The attributes of a file that parses have names that announce their layouts. -/
theorem ClassFile.named_of_parse {bytes : Bytes} {c : ClassFile} (h : ClassFile.parse bytes = .ok c) :
    ∀ a ∈ c.all, Attribute.Named c.pool a := by
  obtain ⟨count, legal, _⟩ := parse_eq_ok.mp h
  rw [ClassOf.all_eq, List.forall_mem_flatMap]
  exact fun a mem => (legal.nested a mem).written.2

end ProcessorBench
