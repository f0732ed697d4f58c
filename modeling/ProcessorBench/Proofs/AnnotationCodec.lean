import ProcessorBench.ClassFile.AnnotationInfo
import ProcessorBench.Proofs.Reading

/-!
# Annotations, written and read

An element value is read from its bytes and from no others, as long as it nests no deeper than the
reader's bound; and a value never nests deeper than it has bytes, so a bound from the length of the
input is none.
-/

namespace ProcessorBench

/-! ## Nesting -/

section
variable {ι : Type}

mutual

/-- How deep a value nests. -/
def ElementValueOf.height : ElementValueOf ι → Nat
  | .const .. | .enumConst .. | .classInfo _ => 1
  | .nested value => value.height + 1
  | .array values => ElementValueOf.heightList values + 1

/-- How deep the deepest of some values nests. -/
def ElementValueOf.heightList : List (ElementValueOf ι) → Nat
  | [] => 0
  | value :: values => max value.height (ElementValueOf.heightList values)

/-- How deep the values of an annotation nest. -/
def AnnotationOf.height : AnnotationOf ι → Nat
  | ⟨_, elements⟩ => ElementOf.heightList elements

/-- How deep the values of some elements nest. -/
def ElementOf.heightList : List (ElementOf ι) → Nat
  | [] => 0
  | element :: elements => max element.height (ElementOf.heightList elements)

/-- How deep the value of an element nests. -/
def ElementOf.height : ElementOf ι → Nat
  | ⟨_, value⟩ => value.height

end

/-- Every value is nested at least once. -/
theorem ElementValueOf.height_pos (v : ElementValueOf ι) : 0 < v.height := by
  cases v <;> simp [height]

/-- Values are not nested deeper than a bound if none of them is. -/
theorem ElementValueOf.heightList_le {d : Nat} {vs : List (ElementValueOf ι)} :
    heightList vs ≤ d ↔ ∀ v ∈ vs, v.height ≤ d := by
  induction vs with
  | nil => simp [heightList]
  | cons v vs ih => rw [heightList, Nat.max_le, ih, List.forall_mem_cons]

/-- Elements are not nested deeper than a bound if none of them is. -/
theorem ElementOf.heightList_le {d : Nat} {es : List (ElementOf ι)} :
    heightList es ≤ d ↔ ∀ e ∈ es, e.height ≤ d := by
  induction es with
  | nil => simp [heightList]
  | cons e es ih => rw [heightList, Nat.max_le, ih, List.forall_mem_cons]

/-! ## Counts -/

/-- A count can be written if two bytes hold it. -/
theorem checkCount_eq_ok {count : Nat} {limit : Limit} :
    checkCount count limit = .ok () ↔ count < UInt16.size := by
  unfold checkCount
  split
  · next small => exact ⟨fun _ => small, fun _ => rfl⟩
  · next large => exact ⟨nofun, fun small => absurd small large⟩

/-- Values can be written if each of them can. -/
theorem ElementValueOf.checkList_eq_ok {vs : List (ElementValueOf ι)} :
    checkList vs = .ok () ↔ ∀ v ∈ vs, v.check = .ok () := by
  induction vs with
  | nil => simp [checkList]
  | cons v vs ih =>
    rw [checkList, andThen_eq_ok, List.forall_mem_cons, ih]

/-- Elements can be written if each of them can. -/
theorem ElementOf.checkList_eq_ok {es : List (ElementOf ι)} :
    checkList es = .ok () ↔ ∀ e ∈ es, e.check = .ok () := by
  induction es with
  | nil => simp [checkList]
  | cons e es ih =>
    rw [checkList, andThen_eq_ok, List.forall_mem_cons, ih]

/-- An annotation can be written if it does not have too many elements and all their values can be written. -/
theorem AnnotationOf.check_eq_ok {a : AnnotationOf ι} :
    a.check = .ok () ↔ a.elements.length < UInt16.size ∧ ∀ e ∈ a.elements, e.value.check = .ok () := by
  obtain ⟨type, elements⟩ := a
  have elementwise : (∀ e ∈ elements, e.check = .ok ()) ↔ ∀ e ∈ elements, e.value.check = .ok () := by
    refine forall₂_congr fun e _ => ?_
    obtain ⟨name, value⟩ := e
    rw [ElementOf.check]
  rw [check, andThen_eq_ok, checkCount_eq_ok, ElementOf.checkList_eq_ok, elementwise]

theorem AnnotationOf.height_le {d : Nat} {a : AnnotationOf ι} :
    a.height ≤ d ↔ ∀ e ∈ a.elements, e.value.height ≤ d := by
  obtain ⟨type, elements⟩ := a
  rw [height, ElementOf.heightList_le]
  refine forall₂_congr fun e _ => ?_
  obtain ⟨name, value⟩ := e
  rw [ElementOf.height]

end

/-! ## Written forms -/

/-- Values are written one after the other. -/
theorem ElementValue.bytesList_eq (vs : List ElementValue) :
    bytesList vs = vs.flatMap ElementValue.bytes := by
  induction vs with
  | nil => rfl
  | cons v vs ih => rw [bytesList, ih, List.flatMap_cons]

/-- Elements are written one after the other. -/
theorem Element.bytesList_eq (es : List Element) : bytesList es = es.flatMap Element.bytes := by
  induction es with
  | nil => rfl
  | cons e es ih => rw [bytesList, ih, List.flatMap_cons]

/-- An annotation is written as its type, the number of its elements, and the elements. -/
theorem AnnotationInfo.bytes_eq (a : AnnotationInfo) :
    AnnotationInfo.bytes a = Bytes.ofUInt16 a.type ++
      (Bytes.ofNat 2 a.elements.length ++ a.elements.flatMap Element.bytes) := by
  obtain ⟨type, elements⟩ := a
  rw [AnnotationInfo.bytes, Element.bytesList_eq]

theorem Element.bytes_eq (e : Element) :
    Element.bytes e = Bytes.ofUInt16 e.name ++ ElementValue.bytes e.value := by
  obtain ⟨name, value⟩ := e
  rw [Element.bytes]

/-! ## Reading -/

open Reader

/-- A tag is written as the byte that it has been read from. -/
theorem ElementTag.toByte_of_ofByte? {b : UInt8} {tag : ElementTag}
    (h : ElementTag.ofByte? b = some tag) : tag.toByte = b := by
  unfold ofByte? at h
  split at h <;> cases h
  all_goals rfl

/-- An annotation is read from its bytes when its values are read from theirs. -/
theorem AnnotationInfo.readWith_eq_ok {value : Reader ClassError ElementValue}
    {Legal : ElementValue → Prop} (h : ∀ v bytes rest, value bytes = .ok (v, rest) ↔
      Legal v ∧ bytes = ElementValue.bytes v ++ rest) {a : AnnotationInfo} {bytes rest : Bytes} :
    AnnotationInfo.readWith value bytes = .ok (a, rest) ↔
      (a.elements.length < UInt16.size ∧ ∀ e ∈ a.elements, Legal e.value) ∧
        bytes = AnnotationInfo.bytes a ++ rest := by
  have element : ∀ (e : Element) bytes rest, (do
      let name ← u16
      return ⟨name, ← value⟩ : Reader ClassError Element) bytes = .ok (e, rest) ↔
      Legal e.value ∧ bytes = Element.bytes e ++ rest := by
    rintro ⟨name, v⟩ bytes rest
    simp only [stateBind_eq_ok, u16_eq_ok, h, pure_eq_ok, Element.bytes]
    constructor
    · rintro ⟨_, _, rfl, _, _, ⟨legal, rfl⟩, same, rfl⟩
      cases same
      exact ⟨legal, by simp⟩
    · rintro ⟨legal, rfl⟩
      exact ⟨name, _, by rw [List.append_assoc], v, rest, ⟨legal, rfl⟩, rfl, rfl⟩
  obtain ⟨type, elements⟩ := a
  unfold AnnotationInfo.readWith
  simp only [stateBind_eq_ok, u16_eq_ok, counted_eq_ok element, pure_eq_ok, AnnotationInfo.bytes_eq]
  constructor
  · rintro ⟨_, _, rfl, _, _, ⟨legal, rfl⟩, same, rfl⟩
    cases same
    exact ⟨legal, by simp⟩
  · rintro ⟨legal, rfl⟩
    exact ⟨type, _, by simp only [List.append_assoc], elements, rest, ⟨legal, rfl⟩, rfl, rfl⟩

section
variable {d : Nat} (h : ∀ v bytes rest, ElementValue.read d bytes = .ok (v, rest) ↔
  (v.check = .ok () ∧ v.height ≤ d) ∧ bytes = ElementValue.bytes v ++ rest)
include h

/-- What is read as an element value is the written form of it, if this is so of the values inside it. -/
theorem ElementValue.of_read {v : ElementValue} {bytes rest : Bytes}
    (run : ElementValue.read (d + 1) bytes = .ok (v, rest)) :
    (v.check = .ok () ∧ v.height ≤ d + 1) ∧ bytes = ElementValue.bytes v ++ rest := by
  have inside := fun a bytes rest => @AnnotationInfo.readWith_eq_ok _ _ h a bytes rest
  have values := fun vs bytes rest => @counted_eq_ok _ _ bytes rest _ _ _ h vs
  rw [ElementValue.read, stateBind_eq_ok] at run
  simp only [u8_eq_ok] at run
  obtain ⟨byte, _, rfl, run⟩ := run
  cases announced : ElementTag.ofByte? byte with
  | some tag =>
    simp only [announced, stateBind_eq_ok, u16_eq_ok, pure_eq_ok] at run
    obtain ⟨i, _, rfl, rfl, rfl⟩ := run
    refine ⟨⟨rfl, by simp [ElementValueOf.height]⟩, ?_⟩
    rw [ElementValue.bytes, ElementTag.toByte_of_ofByte? announced, List.cons_append]
  | none =>
    simp only [announced] at run
    split at run
    · simp only [stateBind_eq_ok, u16_eq_ok, pure_eq_ok] at run
      obtain ⟨i, _, rfl, j, _, rfl, rfl, rfl⟩ := run
      exact ⟨⟨rfl, by simp [ElementValueOf.height]⟩, by simp [ElementValue.bytes]⟩
    · simp only [stateBind_eq_ok, u16_eq_ok, pure_eq_ok] at run
      obtain ⟨i, _, rfl, rfl, rfl⟩ := run
      exact ⟨⟨rfl, by simp [ElementValueOf.height]⟩, by simp [ElementValue.bytes]⟩
    · simp only [stateBind_eq_ok, inside, pure_eq_ok] at run
      obtain ⟨a, _, ⟨⟨count, all⟩, rfl⟩, rfl, rfl⟩ := run
      refine ⟨⟨?_, ?_⟩, by simp [ElementValue.bytes]⟩
      · rw [ElementValueOf.check, AnnotationOf.check_eq_ok]
        exact ⟨count, fun e mem => (all e mem).1⟩
      · rw [ElementValueOf.height, Nat.add_le_add_iff_right, AnnotationOf.height_le]
        exact fun e mem => (all e mem).2
    · simp only [stateBind_eq_ok, values, pure_eq_ok] at run
      obtain ⟨vs, _, ⟨⟨count, all⟩, rfl⟩, rfl, rfl⟩ := run
      refine ⟨⟨?_, ?_⟩, by simp [ElementValue.bytes, ElementValue.bytesList_eq]⟩
      · rw [ElementValueOf.check, checkCount_eq_ok.mpr count, ok_bind, ElementValueOf.checkList_eq_ok]
        exact fun v mem => (all v mem).1
      · rw [ElementValueOf.height, Nat.add_le_add_iff_right, ElementValueOf.heightList_le]
        exact fun v mem => (all v mem).2
    · cases run

/-- The written form of an element value is read as the value, if this is so of the values inside it. -/
theorem ElementValue.read_bytes {v : ElementValue} (checked : v.check = .ok ()) (low : v.height ≤ d + 1)
    (rest : Bytes) : ElementValue.read (d + 1) (ElementValue.bytes v ++ rest) = .ok (v, rest) := by
  rw [ElementValue.read, stateBind_eq_ok]
  simp only [u8_eq_ok]
  cases v with
  | const tag i =>
    refine ⟨tag.toByte, Bytes.ofUInt16 i ++ rest, rfl, ?_⟩
    simp only [ElementTag.ofByte?_toByte, u16_bind]
    rfl
  | enumConst i j =>
    refine ⟨101, Bytes.ofUInt16 i ++ (Bytes.ofUInt16 j ++ rest), by simp [ElementValue.bytes], ?_⟩
    show ((u16 >>= fun i => u16 >>= fun j => pure (.enumConst i j) : Reader _ ElementValue) _) = _
    rw [u16_bind, u16_bind]
    rfl
  | classInfo i =>
    refine ⟨99, Bytes.ofUInt16 i ++ rest, by simp [ElementValue.bytes], ?_⟩
    show ((u16 >>= fun i => pure (.classInfo i) : Reader _ ElementValue) _) = _
    rw [u16_bind]
    rfl
  | nested a =>
    rw [ElementValueOf.check, AnnotationOf.check_eq_ok] at checked
    rw [ElementValueOf.height, Nat.add_le_add_iff_right, AnnotationOf.height_le] at low
    refine ⟨64, AnnotationInfo.bytes a ++ rest, by simp [ElementValue.bytes], ?_⟩
    exact stateBind_of_ok ((AnnotationInfo.readWith_eq_ok h).mpr
      ⟨⟨checked.1, fun e mem => ⟨checked.2 e mem, low e mem⟩⟩, rfl⟩) _
  | array vs =>
    obtain ⟨count, checked⟩ := andThen_eq_ok.mp checked
    rw [ElementValueOf.checkList_eq_ok] at checked
    rw [ElementValueOf.height, Nat.add_le_add_iff_right, ElementValueOf.heightList_le] at low
    refine ⟨91, Bytes.ofNat 2 vs.length ++ (vs.flatMap ElementValue.bytes ++ rest),
      by simp [ElementValue.bytes, ElementValue.bytesList_eq], ?_⟩
    exact stateBind_of_ok ((counted_eq_ok h).mpr
      ⟨⟨checkCount_eq_ok.mp count, fun v mem => ⟨checked v mem, low v mem⟩⟩, rfl⟩) _

end

/-- **An element value is read from its bytes**, and only one that can be written is read. -/
theorem ElementValue.read_eq_ok {d : Nat} {v : ElementValue} {bytes rest : Bytes} :
    ElementValue.read d bytes = .ok (v, rest) ↔
      (v.check = .ok () ∧ v.height ≤ d) ∧ bytes = ElementValue.bytes v ++ rest := by
  -- The depth bounds the height of what is read, so the values inside are read with one less.
  induction d generalizing v bytes rest with
  | zero =>
    have := v.height_pos
    constructor
    · intro h
      cases h
    · rintro ⟨⟨_, low⟩, _⟩
      omega
  | succ d ih =>
    have inside := fun v bytes rest => @ih v bytes rest
    constructor
    · exact ElementValue.of_read inside
    · rintro ⟨⟨checked, low⟩, rfl⟩
      exact ElementValue.read_bytes inside checked low rest

/-- An annotation is read from its bytes. -/
theorem AnnotationInfo.read_eq_ok {d : Nat} {a : AnnotationInfo} {bytes rest : Bytes} :
    AnnotationInfo.read d bytes = .ok (a, rest) ↔
      (a.check = .ok () ∧ a.height ≤ d) ∧ bytes = AnnotationInfo.bytes a ++ rest := by
  rw [AnnotationInfo.read, AnnotationInfo.readWith_eq_ok fun v _ _ => ElementValue.read_eq_ok,
    AnnotationOf.check_eq_ok, AnnotationOf.height_le]
  simp only [forall₂_and, and_assoc]

/-! ## Nesting and length -/

mutual

/-- Each level of nesting takes a byte. -/
theorem ElementValue.height_le_length : ∀ v : ElementValue, v.height ≤ (ElementValue.bytes v).length
  | .const .. | .enumConst .. | .classInfo _ => by
    simp [ElementValueOf.height, ElementValue.bytes]
  | .nested value => by
    have := AnnotationInfo.height_le_length value
    simp only [ElementValueOf.height, ElementValue.bytes, List.length_cons]
    omega
  | .array values => by
    have := ElementValue.heightList_le_length values
    simp only [ElementValueOf.height, ElementValue.bytes, List.length_cons, List.length_append]
    omega

/-- Values are not nested deeper than the number of bytes that they are written in. -/
theorem ElementValue.heightList_le_length : ∀ vs : List ElementValue,
    ElementValueOf.heightList vs ≤ (ElementValue.bytesList vs).length
  | [] => Nat.le_refl _
  | v :: vs => by
    have := ElementValue.height_le_length v
    have := ElementValue.heightList_le_length vs
    simp only [ElementValueOf.heightList, ElementValue.bytesList, List.length_append]
    omega

/-- An annotation is not nested deeper than the number of its bytes. -/
theorem AnnotationInfo.height_le_length : ∀ a : AnnotationInfo,
    a.height ≤ (AnnotationInfo.bytes a).length
  | ⟨_, elements⟩ => by
    have := Element.heightList_le_length elements
    simp only [AnnotationOf.height, AnnotationInfo.bytes, List.length_append]
    omega

/-- Elements are not nested deeper than the number of their bytes. -/
theorem Element.heightList_le_length : ∀ es : List Element,
    ElementOf.heightList es ≤ (Element.bytesList es).length
  | [] => Nat.le_refl _
  | e :: es => by
    have := Element.height_le_length e
    have := Element.heightList_le_length es
    simp only [ElementOf.heightList, Element.bytesList, List.length_append]
    omega

/-- An element is not nested deeper than the number of its bytes. -/
theorem Element.height_le_length : ∀ e : Element, e.height ≤ (Element.bytes e).length
  | ⟨_, value⟩ => by
    have := ElementValue.height_le_length value
    simp only [ElementOf.height, Element.bytes, List.length_append]
    omega

end

/-! ## Type annotations -/

/-- A description of a target has the layout's length. -/
def TargetLayout.Fits : TargetLayout → Bytes → Prop
  | .fixed length, info => info.length = length
  | .table, info => ∃ entries table, info = Bytes.ofUInt16 entries ++ table ∧
      table.length = entries.toNat * 6

/-- What a type annotation holds before its annotation has the length that it announces. -/
structure TypeAnnotationOf.Placed {ι : Type} (a : TypeAnnotationOf ι) : Prop where
  target : ∃ layout, TargetLayout.ofTargetType? a.targetType = some layout ∧ layout.Fits a.targetInfo
  path : ∃ steps path, a.typePath = steps :: path ∧ path.length = steps.toNat * 2

/-- Looking ahead takes nothing from the input. -/
theorem peek_eq_ok {ε α : Type} {item : Reader ε α} {a : α} {bytes rest : Bytes} :
    peek item bytes = .ok (a, rest) ↔ rest = bytes ∧ ∃ rest', item bytes = .ok (a, rest') := by
  unfold peek
  cases item bytes with
  | error e => simp
  | ok p =>
    obtain ⟨b, rest'⟩ := p
    simp [eq_comm, and_comm]

/-- Bytes are read as the target of a type annotation exactly if they fit its layout. -/
theorem TargetLayout.read_eq_ok {layout : TargetLayout} {info bytes rest : Bytes} :
    layout.read bytes = .ok (info, rest) ↔ layout.Fits info ∧ bytes = info ++ rest := by
  cases layout with
  | fixed length => exact take_eq_ok
  | table =>
    simp only [TargetLayout.read, stateBind_eq_ok, peek_eq_ok, u16_eq_ok, take_eq_ok, Fits]
    constructor
    · rintro ⟨entries, _, ⟨rfl, rest', same⟩, length, rfl⟩
      refine ⟨⟨entries, info.drop 2, ?_, by simp [length]⟩, rfl⟩
      have count := congrArg (List.take 2) same
      rw [List.take_append_of_le_length (by omega), List.take_append_of_le_length (by simp)] at count
      rw [← List.take_append_drop 2 info, count]
      simp [List.take_of_length_le]
    · rintro ⟨⟨entries, table, rfl, length⟩, rfl⟩
      exact ⟨entries, _, ⟨rfl, table ++ rest, by simp⟩, by simp [length], rfl⟩

/-- A path is the number of its steps, followed by two bytes for each of them. -/
theorem TypeAnnotationInfo.readPath_eq_ok {path bytes rest : Bytes} :
    TypeAnnotationInfo.readPath bytes = .ok (path, rest) ↔
      (∃ steps tail, path = steps :: tail ∧ tail.length = steps.toNat * 2) ∧ bytes = path ++ rest := by
  simp only [TypeAnnotationInfo.readPath, stateBind_eq_ok, u8_eq_ok, take_eq_ok, pure_eq_ok]
  constructor
  · rintro ⟨steps, _, rfl, tail, _, ⟨length, rfl⟩, rfl, rfl⟩
    exact ⟨⟨steps, tail, rfl, length⟩, rfl⟩
  · rintro ⟨⟨steps, tail, rfl, length⟩, rfl⟩
    exact ⟨steps, tail ++ rest, rfl, tail, rest, ⟨length, rfl⟩, rfl, rfl⟩

/-- **A type annotation is read from its bytes**, and only one that can be written is read. -/
theorem TypeAnnotationInfo.read_eq_ok {d : Nat} {a : TypeAnnotationInfo} {bytes rest : Bytes} :
    TypeAnnotationInfo.read d bytes = .ok (a, rest) ↔
      (a.Placed ∧ a.content.check = .ok () ∧ a.content.height ≤ d) ∧
        bytes = TypeAnnotationInfo.bytes a ++ rest := by
  rw [TypeAnnotationInfo.read, stateBind_eq_ok]
  simp only [u8_eq_ok]
  constructor
  · rintro ⟨targetType, _, rfl, h⟩
    cases announced : TargetLayout.ofTargetType? targetType with
    | none =>
      rw [announced] at h
      cases h
    | some layout =>
      simp only [announced, stateBind_eq_ok, TargetLayout.read_eq_ok, readPath_eq_ok,
        AnnotationInfo.read_eq_ok, pure_eq_ok] at h
      obtain ⟨info, _, ⟨fits, rfl⟩, path, _, ⟨steps, rfl⟩, content, _, ⟨legal, rfl⟩, rfl, rfl⟩ := h
      exact ⟨⟨⟨⟨layout, announced, fits⟩, steps⟩, legal⟩, by simp [TypeAnnotationInfo.bytes]⟩
  · rintro ⟨⟨⟨⟨layout, announced, fits⟩, steps⟩, legal⟩, rfl⟩
    refine ⟨a.targetType, a.targetInfo ++ (a.typePath ++ (AnnotationInfo.bytes a.content ++ rest)),
      by simp [TypeAnnotationInfo.bytes], ?_⟩
    simp only [announced]
    rw [stateBind_of_ok (TargetLayout.read_eq_ok.mpr ⟨fits, rfl⟩),
      stateBind_of_ok (readPath_eq_ok.mpr ⟨steps, rfl⟩),
      stateBind_of_ok (AnnotationInfo.read_eq_ok.mpr ⟨legal, rfl⟩)]
    rfl

end ProcessorBench
