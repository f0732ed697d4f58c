import ProcessorBench.Proofs.Grounded
import ProcessorBench.Proofs.TextGrammar

/-!
# Two readings of a name

The name of an attribute is read in two ways. As modified UTF-8 it announces the layout of the body; as UTF-8 in which
U+FFFD stands for what is none, it tells whether the attribute is deleted and whether its annotations are visible. The
names that matter are plain: they have no character but U+0001 to U+007F. The second reading finds such a name in its
own encoding and nowhere else (`Utf8.decodeLossy_eq_iff`), and the first also where a character takes more bytes than
it needs. So the two agree where a name is well spelled, and only there (`ClassFile.names_agree_iff`).
-/

namespace ProcessorBench

/-! ## Plain names -/

/-- The text has no character but U+0001 to U+007F. -/
def Plain (text : List Char) : Prop := ∀ c ∈ text, 0 < c.toNat ∧ c.toNat < 0x80

namespace Utf8

variable {a b : UInt8} {n : Nat} {c : Char} {text : List Char} {bytes rest : Bytes}

/-- The character of a number is of this number, or it is U+0000. -/
theorem toNat_charOfNat_le (n : Nat) : (Char.ofNat n).toNat = n ∨ (Char.ofNat n).toNat = 0 := by
  by_cases valid : n.isValidChar
  · rw [Char.ofNat, dif_pos valid]
    exact .inl rfl
  · rw [Char.ofNat, dif_neg valid]
    exact .inr rfl

/-- A character above U+0000 that is given by a large number is no plain one. -/
theorem not_plain_of_large (large : 0x80 ≤ n) (same : Char.ofNat n = c) (plain : 0 < c.toNat ∧ c.toNat < 0x80) :
    False := by
  subst same
  rcases toNat_charOfNat_le n with number | zero <;> omega

theorem range_eq_true {low high : UInt8} : (decide (low ≤ a) && decide (a < high)) = true ↔
    low.toNat ≤ a.toNat ∧ a.toNat < high.toNat := by
  rw [Bool.and_eq_true, decide_eq_true_iff, decide_eq_true_iff, UInt8.le_iff_toNat_le, UInt8.lt_iff_toNat_lt]

/-- Three bytes that are no overlong form have a bit above those of two. -/
theorem large_of_three (first : 0xE0 ≤ a.toNat ∧ a.toNat < 0xF0) (second : isSecondOfThree a b = true) :
    0x20 ≤ a.toNat % 16 * 64 + low b := by
  unfold isSecondOfThree at second
  rw [low]
  split at second
  · have second : 0xA0 ≤ b.toNat ∧ b.toNat < 0xC0 := range_eq_true.mp second
    omega
  · next other =>
    have other : a.toNat ≠ 0xE0 := fun same => other (UInt8.toNat_inj.mp same)
    omega

/-- Four bytes that are no overlong form have a bit above those of three. -/
theorem large_of_four (first : 0xF0 ≤ a.toNat ∧ a.toNat < 0xF5) (second : isSecondOfFour a b = true) :
    0x10 ≤ a.toNat % 8 * 64 + low b := by
  unfold isSecondOfFour at second
  rw [low]
  split at second
  · have second : 0x90 ≤ b.toNat ∧ b.toNat < 0xC0 := range_eq_true.mp second
    omega
  · next other =>
    have other : a.toNat ≠ 0xF0 := fun same => other (UInt8.toNat_inj.mp same)
    omega

/-- Bytes begin with a plain character that is the first of them, with a larger one, or with an ill-formed piece. -/
theorem leading_cases (a : UInt8) (rest : Bytes) :
    (a.toNat < 0x80 ∧ leading a rest = (some (Char.ofNat a.toNat), 0)) ∨
      (leading a rest).1 = none ∨ ∃ n, 0x80 ≤ n ∧ (leading a rest).1 = some (Char.ofNat n) := by
  fun_cases leading a rest with
  | case1 _ one => exact .inl ⟨UInt8.lt_iff_toNat_lt.mp one, rfl⟩
  | case2 _ two b _ _ =>
    have first : 0xC2 ≤ a.toNat ∧ a.toNat < 0xE0 := range_eq_true.mp two
    exact .inr (.inr ⟨_, by omega, rfl⟩)
  | case7 _ _ three b c _ second _ =>
    have large := large_of_three (range_eq_true.mp three) (by simpa using second)
    exact .inr (.inr ⟨_, by omega, rfl⟩)
  | case13 _ _ _ four b c d _ second _ _ =>
    have large := large_of_four (range_eq_true.mp four) (by simpa using second)
    exact .inr (.inr ⟨_, by omega, rfl⟩)
  | _ => exact .inr (.inl rfl)

/-- **Only its own byte is read as a plain character.** -/
theorem eq_of_leading (plain : 0 < c.toNat ∧ c.toNat < 0x80)
    (read : (leading a rest).1.getD '\uFFFD' = c) : a = UInt8.ofNat c.toNat := by
  rcases leading_cases a rest with ⟨one, own⟩ | none | ⟨n, large, other⟩
  · rw [own, Option.getD_some] at read
    rw [← read, Utf16.toNat_charOfNat (by omega), UInt8.ofNat_toNat]
  · rw [none] at read
    subst read
    exact absurd plain.2 (by decide)
  · rw [other] at read
    exact (not_plain_of_large large read plain).elim

/-- A plain character is decoded from its one byte, whatever follows. -/
theorem leading_of_plain (plain : c.toNat < 0x80) (rest : Bytes) :
    leading (UInt8.ofNat c.toNat) rest = (some c, 0) := by
  have value : (UInt8.ofNat c.toNat).toNat = c.toNat := ModifiedUtf8.toNat_ofNat_byte (by omega)
  have one : UInt8.ofNat c.toNat < 0x80 := by
    rw [UInt8.lt_iff_toNat_lt, value]
    exact plain
  rw [leading.eq_def, if_pos one, value, Char.ofNat_toNat]

/-- Plain text is decoded from its own bytes only, also when wrong bytes are replaced. -/
theorem pieces_eq_plain (plain : Plain text) :
    (pieces bytes).map (·.getD '\uFFFD') = text ↔ bytes = text.map fun c => UInt8.ofNat c.toNat := by
  induction text generalizing bytes with
  | nil => cases bytes <;> simp [pieces]
  | cons c text ih =>
    obtain ⟨first, others⟩ := List.forall_mem_cons.mp plain
    cases bytes with
    | nil => simp [pieces]
    | cons a rest =>
      rw [pieces, List.map_cons, List.map_cons, List.cons.injEq, List.cons.injEq]
      constructor
      · rintro ⟨read, later⟩
        obtain rfl := eq_of_leading first read
        rw [leading_of_plain first.2, List.drop_zero] at later
        exact ⟨rfl, (ih others).mp later⟩
      · rintro ⟨rfl, later⟩
        rw [leading_of_plain first.2, List.drop_zero]
        exact ⟨rfl, (ih others).mpr later⟩

end Utf8

/-- Plain text is encoded as one byte for each character. -/
theorem ModifiedUtf8.encodeUnits_of_plain {text : List Char} (plain : Plain text) :
    (Utf16.encode text).flatMap encodeUnit = text.map fun c => UInt8.ofNat c.toNat := by
  induction text with
  | nil => rfl
  | cons c text ih =>
    obtain ⟨first, others⟩ := List.forall_mem_cons.mp plain
    have unit : (UInt16.ofNat c.toNat).toNat = c.toNat := by
      rw [UInt16.toNat_ofNat', Nat.mod_eq_of_lt (by omega)]
    rw [Utf16.encode_cons, List.flatMap_append, ih others, Utf16.encodeChar, if_pos (by omega),
      List.flatMap_singleton, encodeUnit, unit, if_pos first]
    rfl

/-- **Other bytes than its encoding are not read as a plain text**, in spite of U+FFFD. -/
theorem Utf8.decodeLossy_eq_iff {bytes : Bytes} {name : String} (plain : Plain name.toList) :
    decodeLossy bytes = name ↔ bytes = ModifiedUtf8.encode name := by
  rw [ModifiedUtf8.encode, ModifiedUtf8.encodeUnits_of_plain plain, ← pieces_eq_plain plain, decodeLossy,
    ← String.toList_inj, String.toList_ofList]

/-! ## Names of attributes -/

/-- The text at an index is stored as the encoding of a text, and not by other bytes that are decoded to it. -/
def ConstantPool.WellSpelled (pool : ConstantPool) (i : PoolIndex) : Prop :=
  ∃ text, pool.utf8Bytes i = .ok (ModifiedUtf8.encode text)

namespace Attribute

variable {pool : ConstantPool} {a : Attribute} {name text : String} {bytes : Bytes}

/-- The names of debug attributes are plain. -/
theorem plain_debugAttributeNames : ∀ name ∈ debugAttributeNames, Plain name.toList := by
  simp [debugAttributeNames, Plain]

/-- The name of the attribute with the annotations is plain. -/
theorem plain_visibleAnnotationsName : Plain ClassFile.visibleAnnotationsName.toList := by
  simp [ClassFile.visibleAnnotationsName, Plain]

/-- A name is well spelled if its bytes are those that its text is encoded as. -/
theorem wellSpelled_iff (dispatched : pool.utf8 a.name = .ok text) :
    pool.WellSpelled a.name ↔ pool.utf8Bytes a.name = .ok (ModifiedUtf8.encode text) := by
  constructor
  · rintro ⟨spelled, encoded⟩
    rw [ConstantPool.utf8, encoded, ok_bind, ModifiedUtf8.decode_encode] at dispatched
    rwa [← Except.ok.inj dispatched]
  · intro encoded
    exact ⟨text, encoded⟩

/-- **When the two readings of a name give the same plain text.** -/
theorem decodeLossy_name (stored : pool.utf8Bytes a.name = .ok bytes) (dispatched : pool.utf8 a.name = .ok text)
    (plain : Plain name.toList) : Utf8.decodeLossy bytes = name ↔ text = name ∧ pool.WellSpelled a.name := by
  rw [Utf8.decodeLossy_eq_iff plain, wellSpelled_iff dispatched, stored, Except.ok.injEq]
  rw [ConstantPool.utf8, stored, ok_bind] at dispatched
  constructor
  · rintro rfl
    rw [ModifiedUtf8.decode_encode] at dispatched
    cases dispatched
    exact ⟨rfl, rfl⟩
  · rintro ⟨rfl, encoded⟩
    exact encoded

/-- An attribute counts as a debug attribute if it is read as one and its name is well spelled. -/
theorem isDebugName_iff (dispatched : pool.utf8 a.name = .ok text) :
    pool.isDebugName a.name = true ↔ text ∈ debugAttributeNames ∧ pool.WellSpelled a.name := by
  obtain ⟨bytes, stored, _⟩ := bind_eq_ok.mp dispatched
  have same (name : String) (mem : name ∈ debugAttributeNames) :=
    decodeLossy_name stored dispatched (plain_debugAttributeNames name mem)
  rw [ConstantPool.isDebugName, stored]
  simp only [List.contains_iff_mem]
  constructor
  · intro mem
    obtain ⟨own, spelled⟩ := (same _ mem).mp rfl
    exact ⟨own ▸ mem, spelled⟩
  · rintro ⟨mem, spelled⟩
    rwa [(same text mem).mpr ⟨rfl, spelled⟩]

/-- **A debug attribute is one by its spelling**: it has the name of one, and the name is well spelled. -/
theorem isDebug_iff (dispatched : pool.utf8 a.name = .ok text) : ∃ debug, isDebug pool a = .ok debug ∧
    (debug = true ↔ text ∈ debugAttributeNames ∧ pool.WellSpelled a.name) := by
  obtain ⟨bytes, stored, _⟩ := bind_eq_ok.mp dispatched
  exact ⟨_, isDebug_eq ⟨bytes, stored⟩, isDebugName_iff dispatched⟩

/-- Comparing names after wrong bytes have been replaced is comparing texts, if they are well spelled. -/
theorem nameText_iff (dispatched : pool.utf8 a.name = .ok text) (plain : Plain name.toList) :
    ∃ lossy, nameText pool a = .ok lossy ∧ (lossy = name ↔ text = name ∧ pool.WellSpelled a.name) := by
  obtain ⟨bytes, stored, _⟩ := bind_eq_ok.mp dispatched
  refine ⟨Utf8.decodeLossy bytes, ?_, decodeLossy_name stored dispatched plain⟩
  rw [nameText, stored]
  rfl

/-- A name that is decoded to no name of a debug attribute is not read as one. -/
theorem isDebugName_eq_false (dispatched : pool.utf8 a.name = .ok text) (other : text ∉ debugAttributeNames) :
    pool.isDebugName a.name = false := by
  rw [← Bool.not_eq_true, isDebugName_iff dispatched]
  exact fun debug => other debug.1

/-- What has the name of a debug attribute is kept as bytes or names a source file. -/
theorem ofName_debug : ∀ name ∈ debugAttributeNames,
    AttributeKind.ofName name = .sourceFile ∨ AttributeKind.ofName name = .raw := by
  simp [debugAttributeNames, AttributeKind.ofName]

/-- Only one name stands for the name of a source file. -/
theorem ofName_eq_sourceFile : AttributeKind.ofName name = .sourceFile ↔ name = "SourceFile" := by
  unfold AttributeKind.ofName
  split <;> simp_all

/-- No attributes are inside a debug attribute. -/
theorem all_of_debug (named : Named pool a) (debug : pool.isDebugName a.name = true) : a.body.all = [] := by
  obtain ⟨⟨text, dispatched, kind⟩, _⟩ := named
  have leaf := ofName_debug text ((isDebugName_iff dispatched).mp debug).1
  rw [kind] at leaf
  revert leaf
  cases a.body <;> first | exact fun _ => rfl | exact fun leaf => by rcases leaf with h | h <;> cases h

end Attribute

namespace ClassFile

variable {bytes : Bytes} {c d : ClassFile}

/-- The attributes that are left after stripping have the layouts that they had. -/
theorem map_kind_stripped (parsed : parse bytes = .ok c) (run : c.stripped = .ok d) :
    d.all.map (·.body.kind) = c.debugFree.all.map (·.body.kind) := by
  rw [stripped_eq parsed] at run
  have grounded := renumbered_grounded run
  rw [← debugFree_grounded] at grounded
  obtain ⟨v, normal⟩ := normal_of_named (c := c.grounded)
    (fun a mem => named_grounded (named_of_parse parsed a mem)) c.pool.acyclic_grounded grounded
  have kinds {pool : ConstantPool} {as : List Attribute} {ws : List (AttributeOf (Option ConstantTree) CodeView)}
      (viewed : List.Forall₂ (fun a w => a.mapRefs pool.viewMap = .ok w) as ws) :
      ws.map (·.body.kind) = as.map (·.body.kind) := by
    induction viewed with
    | nil => rfl
    | cons head _ ih =>
      rw [List.map_cons, List.map_cons, ih, AttributeBodyOf.kind_of_mapRefs (AttributeOf.parts_of_mapRefs head).2]
  have before := normal.before
  rw [debugFree_grounded] at before
  exact (kinds (ClassOf.all_of_mapRefs normal.after)).symm.trans (kinds (ClassOf.all_of_mapRefs before))

/-- A source file is named after stripping exactly if the name of the attribute is not well spelled. -/
theorem exists_sourceFile_iff (parsed : parse bytes = .ok c) (run : c.stripped = .ok d) :
    (∃ a ∈ d.all, a.body.kind = .sourceFile) ↔
      ∃ a ∈ c.all, a.body.kind = .sourceFile ∧ ¬ c.pool.WellSpelled a.name := by
  have named := named_of_parse parsed
  have left : c.debugFree.all = _ :=
    c.toClassOf.all_prunes fun a mem debug => Attribute.all_of_debug (named a mem) debug
  rw [← List.mem_map (f := fun a : Attribute => a.body.kind), map_kind_stripped parsed run, left, List.map_map,
    List.mem_map]
  simp only [List.mem_filter, Function.comp, AttributeOf.without, AttributeBodyOf.kind_without, and_assoc]
  refine exists_congr fun a => and_congr_right fun mem => ?_
  rw [and_comm]
  refine and_congr_right fun kind => ?_
  obtain ⟨⟨text, dispatched, announced⟩, _⟩ := named a mem
  rw [kind, Attribute.ofName_eq_sourceFile] at announced
  rw [Bool.not_eq_true', ← Bool.not_eq_true, Attribute.isDebugName_iff dispatched, announced]
  have debug : "SourceFile" ∈ debugAttributeNames := List.mem_cons_self
  exact not_congr (and_iff_right debug)

/-- An attribute that is read as one of visible annotations gives those that it holds, if its name is well spelled,
and none otherwise. -/
theorem visibleAnnotationsIn_of_name {pool : ConstantPool} {a : Attribute} (named : Attribute.Named pool a)
    (dispatched : pool.utf8 a.name = .ok visibleAnnotationsName) : ∃ as, a.body = .annotations as ∧
      (pool.WellSpelled a.name → visibleAnnotationsIn pool a = as.mapM (AnnotationInfo.resolve pool)) ∧
      (¬ pool.WellSpelled a.name → visibleAnnotationsIn pool a = .ok []) := by
  obtain ⟨lossy, read, same⟩ := Attribute.nameText_iff dispatched Attribute.plain_visibleAnnotationsName
  rw [and_iff_right rfl] at same
  obtain ⟨⟨text, dispatched', kind⟩, _⟩ := named
  cases dispatched.symm.trans dispatched'
  obtain ⟨name, body⟩ := a
  cases body with
  | annotations as =>
    refine ⟨as, rfl, fun spelled => ?_, fun unspelled => ?_⟩
    · simp only [visibleAnnotationsIn, read, ok_bind]
      exact if_pos (same.mpr spelled)
    · simp only [visibleAnnotationsIn, read, ok_bind]
      exact if_neg fun visible => unspelled (same.mp visible)
  | _ => cases kind

/-- **The two readings of a name agree on what is deleted and on what is visible exactly where it is well spelled.** So
a source file is named after stripping, or an annotation overlooked, where a name is spelled in another way, and only
there. -/
theorem names_agree_iff (parsed : parse bytes = .ok c) :
    (∀ a ∈ c.all, ∃ text, c.pool.utf8 a.name = .ok text ∧
      (∃ debug, Attribute.isDebug c.pool a = .ok debug ∧
        (debug = true ↔ text ∈ debugAttributeNames ∧ c.pool.WellSpelled a.name)) ∧
      ∃ lossy, Attribute.nameText c.pool a = .ok lossy ∧
        (lossy = visibleAnnotationsName ↔ text = visibleAnnotationsName ∧ c.pool.WellSpelled a.name)) ∧
    (∀ d, c.stripped = .ok d → ((∃ a ∈ d.all, a.body.kind = .sourceFile) ↔
      ∃ a ∈ c.all, a.body.kind = .sourceFile ∧ ¬ c.pool.WellSpelled a.name)) ∧
    ∀ a ∈ c.all, c.pool.utf8 a.name = .ok visibleAnnotationsName → ∃ as, a.body = .annotations as ∧
      (c.pool.WellSpelled a.name → visibleAnnotationsIn c.pool a = as.mapM (AnnotationInfo.resolve c.pool)) ∧
      (¬ c.pool.WellSpelled a.name → visibleAnnotationsIn c.pool a = .ok []) := by
  have named := named_of_parse parsed
  refine ⟨fun a mem => ?_, fun d run => exists_sourceFile_iff parsed run,
    fun a mem => visibleAnnotationsIn_of_name (named a mem)⟩
  obtain ⟨⟨text, dispatched, _⟩, _⟩ := named a mem
  exact ⟨text, dispatched, Attribute.isDebug_iff dispatched,
    Attribute.nameText_iff dispatched Attribute.plain_visibleAnnotationsName⟩

/-- The name of the source file is well spelled in a small file, and it is gone after stripping. -/
theorem names_agree_compiled : ∃ d, compiled.stripped = .ok d ∧ ∀ a ∈ d.all, a.body.kind ≠ .sourceFile := by
  obtain ⟨d, stripped⟩ := exists_stripped parse_compiled acyclic_compiled view_compiled plainView_fits
  refine ⟨d, stripped, fun a mem kind => ?_⟩
  obtain ⟨_, survives, _⟩ := names_agree_iff parse_compiled
  obtain ⟨b, hb, _, unspelled⟩ := (survives d stripped).mp ⟨a, mem, kind⟩
  rw [show compiled.all = compiled.attributes from rfl] at hb
  obtain rfl := List.mem_singleton.mp hb
  exact unspelled ⟨"SourceFile", rfl⟩

/-- The class `A` compiled from a file `A.java`, where the name of the attribute has its first letter in two bytes. -/
def misspelled : ClassFile :=
  { compiled with
    pool := List.foldl ConstantPool.push .empty
      [.classInfo 2, .utf8 [65], .utf8 [193, 147, 111, 117, 114, 99, 101, 70, 105, 108, 101],
        .utf8 [65, 46, 106, 97, 118, 97]] }

/-- The attribute is taken for the name of a source file when the class is read. -/
theorem name_misspelled : misspelled.pool.utf8 3 = .ok "SourceFile" := rfl

/-- The attribute is not taken for a debug attribute when these are deleted. -/
theorem isDebugName_misspelled : misspelled.pool.isDebugName 3 = false := by
  rw [← Bool.not_eq_true, Attribute.isDebugName_iff (a := ⟨3, .sourceFile 4⟩) name_misspelled,
    Attribute.wellSpelled_iff (a := ⟨3, .sourceFile 4⟩) name_misspelled]
  rintro ⟨_, spelled⟩
  exact absurd (Except.ok.inj spelled) (by decide)

/-- The class can be read back from its bytes. -/
theorem parse_misspelled : parse misspelled.bytes = .ok misspelled := by
  refine parse_of_toBytes ⟨_, rfl⟩ (fun a mem => ?_) rfl
  rw [show misspelled.all = misspelled.attributes from rfl] at mem
  obtain rfl := List.mem_singleton.mp mem
  exact ⟨⟨"SourceFile", name_misspelled, rfl⟩, trivial⟩

/-- The class can be rebuilt. -/
theorem exists_stripped_misspelled : ∃ d, misspelled.stripped = .ok d := by
  have acyclic : misspelled.pool.Acyclic :=
    ConstantPool.acyclic_of_toList (fun i => if i = 1 then 1 else 0) (by decide)
  have kept : ∀ a ∈ misspelled.all, misspelled.pool.isDebugName a.name = false :=
    List.forall_mem_singleton.mpr isDebugName_misspelled
  have view : misspelled.debugFree.view = .ok { plainView with
      attributes := [⟨some ⟨.utf8 [193, 147, 111, 117, 114, 99, 101, 70, 105, 108, 101]⟩,
        .sourceFile (some ⟨.utf8 [65, 46, 106, 97, 118, 97]⟩)⟩] } := by
    rw [debugFree_eq_self kept]
    rfl
  exact exists_stripped parse_misspelled acyclic view ⟨by decide, by decide⟩

/-- **A misspelled name keeps its attribute**: it is read as that of a source file, and not deleted. -/
theorem stripped_misspelled : parse misspelled.bytes = .ok misspelled ∧
    (∃ a ∈ misspelled.all, misspelled.pool.utf8 a.name = .ok "SourceFile" ∧
      Attribute.isDebug misspelled.pool a = .ok false) ∧
    ∃ d, misspelled.stripped = .ok d ∧ ∃ a ∈ d.all, a.body.kind = .sourceFile := by
  have here : ⟨3, .sourceFile 4⟩ ∈ misspelled.all := List.mem_singleton_self _
  obtain ⟨d, run⟩ := exists_stripped_misspelled
  refine ⟨parse_misspelled, ⟨_, here, name_misspelled, ?_⟩, d, run, ?_⟩
  · rw [Attribute.isDebug_eq ⟨_, rfl⟩, isDebugName_misspelled]
  · refine (exists_sourceFile_iff parse_misspelled run).mpr ⟨_, here, rfl, fun spelled => ?_⟩
    have debug := (Attribute.isDebugName_iff (a := ⟨3, .sourceFile 4⟩) name_misspelled).mpr
      ⟨List.mem_cons_self, spelled⟩
    cases isDebugName_misspelled.symm.trans debug

end ClassFile

end ProcessorBench
