import ProcessorBench.Proofs.ClassCodec
import ProcessorBench.Proofs.NormalForm

/-!
# What is parsed is written back

A file that parses is the written form of its class, but for one number: the file may announce one
slot less than its pool has, when the last constant is a wide one, or none at all. Writing announces
the slots that there are, so it gives the file back with that number put right, and the file itself
exactly if the number was right.
-/

namespace ProcessorBench.ClassFile

variable {bytes : Bytes} {c : ClassFile} {count : Nat}

/-! ## The announced number of slots -/

/-- The number of slots that a file announces. It stands behind the magic number and the version. -/
def announcedSlots (bytes : Bytes) : Nat := Bytes.toNat ((bytes.drop 8).take 2)

/-- A file with another number of slots announced, and no other byte changed. -/
def withAnnounced (bytes : Bytes) (count : Nat) : Bytes :=
  bytes.take 8 ++ (Bytes.ofNat 2 count ++ bytes.drop 10)

/-- What stands before the announced number of slots. -/
def headerBytes (c : ClassFile) : Bytes :=
  Bytes.ofUInt32 magic ++ (Bytes.ofUInt16 c.minorVersion ++ Bytes.ofUInt16 c.majorVersion)

/-- Eight bytes stand before the number of slots. -/
theorem length_headerBytes (c : ClassFile) : c.headerBytes.length = 8 := by
  simp [headerBytes, Bytes.ofUInt32]

/-- What stands behind the announced number of slots. -/
def contentBytes (c : ClassFile) : Bytes :=
  c.pool.constants.flatMap Constant.bytes ++ (Bytes.ofUInt16 c.access.bits ++
    (Bytes.ofUInt16 c.thisClass ++ (Bytes.ofUInt16 c.superClass ++ (indexListBytes c.interfaces ++
      (Bytes.ofNat 2 c.fields.length ++ (c.fields.flatMap Member.bytes ++
        (Bytes.ofNat 2 c.methods.length ++ (c.methods.flatMap Member.bytes ++
          Attribute.countedBytes c.attributes))))))))

/-- The announced number stands between bytes that do not depend on it. -/
theorem bytesWith_eq (c : ClassFile) (count : Nat) :
    c.bytesWith count = c.headerBytes ++ (Bytes.ofNat 2 count ++ c.contentBytes) := by
  simp only [bytesWith, headerBytes, contentBytes, List.append_assoc]

/-- The number of slots that has been written is read. -/
theorem announcedSlots_bytesWith (small : count < UInt16.size) :
    announcedSlots (c.bytesWith count) = count := by
  rw [announcedSlots, bytesWith_eq, List.drop_left' (length_headerBytes c),
    List.take_left' (Bytes.length_ofNat 2 count), Bytes.toNat_ofNat small]

/-- Announcing another number changes nothing else. -/
theorem withAnnounced_bytesWith (count' : Nat) :
    withAnnounced (c.bytesWith count) count' = c.bytesWith count' := by
  have behind : (c.bytesWith count).drop 10 = c.contentBytes := by
    rw [bytesWith_eq, ← List.append_assoc]
    exact List.drop_left' (by simp [length_headerBytes])
  rw [withAnnounced, behind, bytesWith_eq, bytesWith_eq, List.take_left' (length_headerBytes c)]

/-! ## Writing -/

/-- A class that is read can be written if its slots can be counted. -/
theorem Legal.check_eq_ok {depth : Nat} (h : c.Legal count depth)
    (few : c.pool.slotCount < UInt16.size) : c.check = .ok () :=
  ClassFile.check_eq_ok.mpr ⟨ConstantPool.check_eq_ok.mpr ⟨few, h.pool.checked⟩, h.counted,
    fun a mem => (h.nested a mem).written.1⟩

/-- Slots that cannot be counted are found before anything else. -/
theorem toBytes_of_many_slots (many : UInt16.size ≤ c.pool.slotCount) :
    c.toBytes = .error (.overflow .poolSlots) := by
  have pool : c.pool.check = .error (.overflow .poolSlots) := by
    rw [ConstantPool.check, if_neg (Nat.not_lt.mpr many)]
    rfl
  rw [toBytes, check, pool]
  rfl

/-- **Writing undoes parsing.** What is written of a file that parses is the file with the number of
its slots announced, so it is the file itself exactly if that number was announced already. There is
one slot more than can be counted in one case, and then nothing is written. -/
theorem toBytes_of_parse (parsed : parse bytes = .ok c) :
    (c.pool.slotCount ≤ 65535 → c.toBytes = .ok (withAnnounced bytes c.pool.slotCount)) ∧
      (c.toBytes = .ok bytes ↔ announcedSlots bytes = c.pool.slotCount) ∧
      (c.pool.slotCount = 65536 → c.toBytes = .error (.overflow .poolSlots)) ∧
      c.pool.slotCount ≤ 65536 := by
  obtain ⟨count, legal, rfl⟩ := parse_eq_ok.mp parsed
  have written (few : c.pool.slotCount ≤ 65535) :
      c.toBytes = .ok (withAnnounced (c.bytesWith count) c.pool.slotCount) := by
    rw [toBytes, legal.check_eq_ok (Nat.lt_succ_of_le few), withAnnounced_bytesWith, ← bytes_eq]
    rfl
  refine ⟨written, ?_, fun many => toBytes_of_many_slots many.ge, legal.pool.slotCount_le⟩
  rw [announcedSlots_bytesWith legal.pool.small]
  constructor
  · intro same
    -- Something was written, so the slots can be counted, and what was written announces them.
    have few : c.pool.slotCount ≤ 65535 := by
      by_contra many
      rw [toBytes_of_many_slots (Nat.lt_of_not_le many)] at same
      cases same
    rw [written few, withAnnounced_bytesWith] at same
    have announced := congrArg announcedSlots (Except.ok.inj same)
    rw [announcedSlots_bytesWith (Nat.lt_succ_of_le few),
      announcedSlots_bytesWith legal.pool.small] at announced
    exact announced.symm
  · intro same
    subst same
    rw [written (Nat.le_of_lt_succ legal.pool.small), withAnnounced_bytesWith]

/-- The class `A` with a wide constant behind its name. -/
def wideLast : ClassFile :=
  { compiled with
    attributes := []
    pool := List.foldl ConstantPool.push .empty [.classInfo 2, .utf8 [65], .long 7] }

/-- Announced by its first slot alone, the wide constant is read all the same. -/
theorem parse_wideLast : parse (wideLast.bytesWith 4) = .ok wideLast := by
  have none {α : Type} {P : α → Prop} : ∀ a ∈ ([] : List α), P a := List.forall_mem_nil P
  refine parse_eq_ok.mpr ⟨4, ⟨⟨by decide, ⟨_, ?_, rfl⟩, ?_⟩, ?_, none⟩, rfl⟩
  · exact ⟨by decide, by decide, by decide, Nat.le_succ 4⟩
  · rw [show wideLast.pool.constants = [.classInfo 2, .utf8 [65], .long 7] from rfl]
    simp [Constant.check]
  · exact ⟨by decide, by decide, by decide, by decide, none, none⟩

/-- A pool whose last constant is wide is written with the number of slots that it has. -/
theorem toBytes_of_parse_wideLast :
    wideLast.toBytes = .ok (withAnnounced (wideLast.bytesWith 4) 5) ∧
      wideLast.toBytes ≠ .ok (wideLast.bytesWith 4) := by
  obtain ⟨written, same, _, _⟩ := toBytes_of_parse parse_wideLast
  exact ⟨written (by decide), fun h => absurd (same.mp h) (by decide)⟩

end ProcessorBench.ClassFile
