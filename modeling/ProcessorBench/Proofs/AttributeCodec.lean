import ProcessorBench.Proofs.AnnotationCodec
import ProcessorBench.Proofs.Attributes

/-!
# Attributes, written and read

An attribute is read from its bytes and from no others, given that its name announces the layout of
its body: `Attribute.Named`. A file that parses has such attributes only, and a class with such
attributes is read back from what it is written as.
-/

namespace ProcessorBench

open Reader

/-! ## What fits -/

section
variable {ι β : Type}

/-- The attributes directly inside a body. -/
def AttributeBodyOf.nested : AttributeBodyOf ι β → List (AttributeOf ι β)
  | .code c => c.attributes
  | .record components => components.flatMap (·.attributes)
  | _ => []

/-- All attributes within a body are those directly in it, with all that is within them. -/
theorem AttributeBodyOf.all_eq (body : AttributeBodyOf ι β) :
    body.all = body.nested.flatMap AttributeOf.all := by
  cases body with
  | code c =>
    obtain ⟨maxStack, maxLocals, code, handlers, attributes⟩ := c
    rw [all, CodeOf.all, AttributeOf.allList_eq, nested]
  | record components =>
    rw [all, RecordComponentOf.allList_eq, nested, List.flatMap_assoc]
    simp only [AttributeOf.allList_eq]
  | _ => rfl

/-- What type annotations hold before their annotations has the length it announces. -/
def AttributeBodyOf.Placed : AttributeBodyOf ι β → Prop
  | .typeAnnotations as => ∀ a ∈ as, a.Placed
  | _ => True

end

/-- The counts of a body fit, those of the attributes inside it left aside. -/
def AttributeBody.Counted : AttributeBody → Prop
  | .code c => c.code.length < UInt32.size ∧ c.handlers.length < UInt16.size ∧
      c.attributes.length < UInt16.size
  | .exceptions indices => indices.length < UInt16.size
  | .nestMembers indices => indices.length < UInt16.size
  | .permittedSubclasses indices => indices.length < UInt16.size
  | .innerClasses classes => classes.length < UInt16.size
  | .bootstrapMethods methods =>
    methods.length < UInt16.size ∧ ∀ m ∈ methods, m.arguments.length < UInt16.size
  | .record components =>
    components.length < UInt16.size ∧ ∀ c ∈ components, c.attributes.length < UInt16.size
  | .annotationDefault value => value.check = .ok ()
  | .annotations as => as.length < UInt16.size ∧ ∀ a ∈ as, a.check = .ok ()
  | .parameterAnnotations parameters =>
    parameters.length < UInt8.size ∧ ∀ as ∈ parameters,
      as.length < UInt16.size ∧ ∀ a ∈ as, a.check = .ok ()
  | .typeAnnotations as => as.length < UInt16.size ∧ ∀ a ∈ as, a.content.check = .ok ()
  | _ => True

/-- Attributes can be written if each of them can. -/
theorem Attribute.checkList_eq_ok {as : List Attribute} :
    checkList as = .ok () ↔ ∀ a ∈ as, check a = .ok () := by
  induction as with
  | nil => simp [checkList]
  | cons a as ih => rw [checkList, andThen_eq_ok, List.forall_mem_cons, ih]

/-- Components of a record can be written if none has too many attributes and all of these can be written. -/
theorem RecordComponent.checkList_eq_ok {cs : List RecordComponent} :
    checkList cs = .ok () ↔ ∀ c ∈ cs, c.attributes.length < UInt16.size ∧
      ∀ a ∈ c.attributes, Attribute.check a = .ok () := by
  induction cs with
  | nil => simp [checkList]
  | cons c cs ih =>
    obtain ⟨name, descriptor, attributes⟩ := c
    rw [checkList, andThen_eq_ok, List.forall_mem_cons, ih, check, andThen_eq_ok, checkCount_eq_ok,
      Attribute.checkList_eq_ok]

/-- A body can be written if its counts are small enough and the attributes in it can be written. -/
theorem AttributeBody.check_eq_ok {body : AttributeBody} :
    AttributeBody.check body = .ok () ↔
      body.Counted ∧ ∀ a ∈ body.nested, Attribute.check a = .ok () := by
  cases body with
  | code c =>
    obtain ⟨maxStack, maxLocals, code, handlers, attributes⟩ := c
    simp only [check, Counted, AttributeBodyOf.nested]
    split
    · next small =>
      simp only [andThen_eq_ok, checkCount_eq_ok, Attribute.checkList_eq_ok, small, true_and,
        and_assoc]
    · next large => exact ⟨nofun, fun h => absurd h.1.1 large⟩
  | record components =>
    simp only [check, Counted, AttributeBodyOf.nested, andThen_eq_ok, checkCount_eq_ok,
      RecordComponent.checkList_eq_ok, forall₂_and, List.mem_flatMap, and_assoc]
    grind
  | parameterAnnotations parameters =>
    simp only [check, Counted, AttributeBodyOf.nested]
    split
    · next small =>
      simp [forM_eq_ok, andThen_eq_ok, checkCount_eq_ok, small]
    · next large => exact ⟨nofun, fun h => absurd h.1.1 large⟩
  | _ => simp [check, Counted, AttributeBodyOf.nested, andThen_eq_ok, checkCount_eq_ok, forM_eq_ok]

/-! ## Entries of tables -/

/-- A handler is read from the bytes that it is written as, and from no others. -/
theorem ExceptionHandler.read_eq_ok {h : ExceptionHandler} {bytes rest : Bytes} :
    ExceptionHandler.read bytes = .ok (h, rest) ↔ True ∧ bytes = ExceptionHandler.bytes h ++ rest := by
  obtain ⟨i, j, k, l⟩ := h
  simp only [ExceptionHandler.read, ExceptionHandler.bytes, stateBind_eq_ok, u16_eq_ok, pure_eq_ok,
    List.append_assoc, true_and]
  constructor
  · rintro ⟨_, _, rfl, _, _, rfl, _, _, rfl, _, _, rfl, same, rfl⟩
    cases same
    rfl
  · rintro rfl
    exact ⟨i, _, rfl, j, _, rfl, k, _, rfl, l, _, rfl, rfl, rfl⟩

/-- An inner class is read from the bytes that it is written as, and from no others. -/
theorem InnerClass.read_eq_ok {c : InnerClass} {bytes rest : Bytes} :
    InnerClass.read bytes = .ok (c, rest) ↔ True ∧ bytes = InnerClass.bytes c ++ rest := by
  obtain ⟨i, j, k, l⟩ := c
  simp only [InnerClass.read, InnerClass.bytes, stateBind_eq_ok, u16_eq_ok, pure_eq_ok,
    List.append_assoc, true_and]
  constructor
  · rintro ⟨_, _, rfl, _, _, rfl, _, _, rfl, _, _, rfl, same, rfl⟩
    cases same
    rfl
  · rintro rfl
    exact ⟨i, _, rfl, j, _, rfl, k, _, rfl, l, _, rfl, rfl, rfl⟩

/-- Indices behind their count. -/
theorem indexList_eq_ok {indices : List PoolIndex} {bytes rest : Bytes} :
    (counted u16 : Reader ClassError _) bytes = .ok (indices, rest) ↔
      indices.length < UInt16.size ∧ bytes = indexListBytes indices ++ rest := by
  have index (i : PoolIndex) (bytes rest : Bytes) : (u16 : Reader ClassError _) bytes = .ok (i, rest) ↔
      True ∧ bytes = Bytes.ofUInt16 i ++ rest := by
    rw [u16_eq_ok, true_and]
  rw [counted_eq_ok index]
  simp [indexListBytes]

/-- So is a bootstrap method that does not have too many arguments. -/
theorem BootstrapMethod.read_eq_ok {m : BootstrapMethod} {bytes rest : Bytes} :
    BootstrapMethod.read bytes = .ok (m, rest) ↔
      m.arguments.length < UInt16.size ∧ bytes = BootstrapMethod.bytes m ++ rest := by
  obtain ⟨handle, arguments⟩ := m
  simp only [BootstrapMethod.read, BootstrapMethod.bytes, stateBind_eq_ok, u16_eq_ok, indexList_eq_ok,
    pure_eq_ok, List.append_assoc]
  constructor
  · rintro ⟨_, _, rfl, _, _, ⟨count, rfl⟩, same, rfl⟩
    cases same
    exact ⟨count, rfl⟩
  · rintro ⟨count, rfl⟩
    exact ⟨handle, _, rfl, arguments, rest, ⟨count, rfl⟩, rfl, rfl⟩

/-! ## Bodies -/

/-- Attributes are written one after the other. -/
theorem Attribute.bytesList_eq (as : List Attribute) : bytesList as = as.flatMap Attribute.bytes := by
  induction as with
  | nil => rfl
  | cons a as ih => rw [bytesList, ih, List.flatMap_cons]

/-- Components of a record are written one after the other. -/
theorem RecordComponent.bytesList_eq (cs : List RecordComponent) :
    bytesList cs = cs.flatMap RecordComponent.bytes := by
  induction cs with
  | nil => rfl
  | cons c cs ih => rw [bytesList, ih, List.flatMap_cons]

/-- The element values of a body nest below a bound. -/
def AttributeBody.Below (d : Nat) : AttributeBody → Prop
  | .annotationDefault value => value.height ≤ d
  | .annotations as => ∀ a ∈ as, a.height ≤ d
  | .parameterAnnotations parameters => ∀ as ∈ parameters, ∀ a ∈ as, a.height ≤ d
  | .typeAnnotations as => ∀ a ∈ as, a.content.height ≤ d
  | _ => True

/-- A body that is read from its bytes, where the attributes inside it satisfy `Legal`. -/
structure AttributeBody.Readable (Legal : Attribute → Prop) (d : Nat) (body : AttributeBody) :
    Prop where
  counted : body.Counted
  placed : body.Placed
  below : body.Below d
  nested : ∀ a ∈ body.nested, Legal a

section
variable {nested : Reader ClassError Attribute} {Legal : Attribute → Prop} {d : Nat}
  {body : AttributeBody} {data rest : Bytes}

/-- Annotations behind their count. -/
theorem annotationList_eq_ok {as : List AnnotationInfo} {bytes rest : Bytes} :
    counted (AnnotationInfo.read d) bytes = .ok (as, rest) ↔
      (as.length < UInt16.size ∧ ∀ a ∈ as, a.check = .ok () ∧ a.height ≤ d) ∧
        bytes = (Bytes.ofNat 2 as.length ++ as.flatMap AnnotationInfo.bytes) ++ rest := by
  rw [counted_eq_ok fun _ _ _ => AnnotationInfo.read_eq_ok, List.append_assoc]

/-- A record component is read from its bytes when its attributes are read from theirs. -/
theorem RecordComponent.read_eq_ok (h : ∀ a bytes rest, nested bytes = .ok (a, rest) ↔
      Legal a ∧ bytes = Attribute.bytes a ++ rest) (c : RecordComponent) (bytes rest : Bytes) :
    (do
      let name ← u16
      let descriptor ← u16
      let attributes ← counted nested
      return { name, descriptor, attributes } : Reader ClassError RecordComponent) bytes =
        .ok (c, rest) ↔
      (c.attributes.length < UInt16.size ∧ ∀ a ∈ c.attributes, Legal a) ∧
        bytes = RecordComponent.bytes c ++ rest := by
  obtain ⟨name, descriptor, attributes⟩ := c
  simp only [stateBind_eq_ok, u16_eq_ok, counted_eq_ok h, pure_eq_ok, RecordComponent.bytes,
    Attribute.bytesList_eq, List.append_assoc]
  constructor
  · rintro ⟨_, _, rfl, _, _, rfl, _, _, ⟨legal, rfl⟩, same, rfl⟩
    cases same
    exact ⟨legal, rfl⟩
  · rintro ⟨legal, rfl⟩
    exact ⟨name, _, rfl, descriptor, _, rfl, attributes, rest, ⟨legal, rfl⟩, rfl, rfl⟩

/-- What is read as a body is the written form of it. -/
theorem AttributeBody.of_read (h : ∀ a bytes rest, nested bytes = .ok (a, rest) ↔
      Legal a ∧ bytes = Attribute.bytes a ++ rest) {kind : AttributeKind}
    (run : AttributeBody.read nested d kind data = .ok (body, rest)) :
    body.kind = kind ∧ body.Readable Legal d ∧ data = AttributeBody.bytes body ++ rest := by
  cases kind with
  | code =>
    simp only [AttributeBody.read, stateBind_eq_ok, u16_eq_ok, number_eq_ok, take_eq_ok,
      counted_eq_ok (fun _ _ _ => ExceptionHandler.read_eq_ok), counted_eq_ok h, pure_eq_ok] at run
    obtain ⟨stack, _, rfl, locals, _, rfl, length, _, ⟨small, rfl⟩, code, _, ⟨rfl, rfl⟩, handlers, _,
      ⟨⟨few, _⟩, rfl⟩, attributes, _, ⟨⟨fewer, all⟩, rfl⟩, rfl, rfl⟩ := run
    refine ⟨rfl, ⟨⟨small, few, fewer⟩, trivial, trivial, all⟩, ?_⟩
    simp [AttributeBody.bytes, Attribute.bytesList_eq]
  | constantValue | signature | sourceFile | nestHost =>
    simp only [AttributeBody.read, stateBind_eq_ok, u16_eq_ok, pure_eq_ok] at run
    obtain ⟨i, _, rfl, rfl, rfl⟩ := run
    exact ⟨rfl, ⟨trivial, trivial, trivial, List.forall_mem_nil _⟩, rfl⟩
  | exceptions | nestMembers | permittedSubclasses =>
    simp only [AttributeBody.read, stateBind_eq_ok, indexList_eq_ok, pure_eq_ok] at run
    obtain ⟨indices, _, ⟨few, rfl⟩, rfl, rfl⟩ := run
    exact ⟨rfl, ⟨few, trivial, trivial, List.forall_mem_nil _⟩, rfl⟩
  | innerClasses =>
    simp only [AttributeBody.read, stateBind_eq_ok,
      counted_eq_ok (fun _ _ _ => InnerClass.read_eq_ok), pure_eq_ok] at run
    obtain ⟨classes, _, ⟨⟨few, _⟩, rfl⟩, rfl, rfl⟩ := run
    exact ⟨rfl, ⟨few, trivial, trivial, List.forall_mem_nil _⟩, by simp [AttributeBody.bytes]⟩
  | enclosingMethod =>
    simp only [AttributeBody.read, stateBind_eq_ok, u16_eq_ok, pure_eq_ok] at run
    obtain ⟨i, _, rfl, j, _, rfl, rfl, rfl⟩ := run
    exact ⟨rfl, ⟨trivial, trivial, trivial, List.forall_mem_nil _⟩, by simp [AttributeBody.bytes]⟩
  | bootstrapMethods =>
    simp only [AttributeBody.read, stateBind_eq_ok,
      counted_eq_ok (fun _ _ _ => BootstrapMethod.read_eq_ok), pure_eq_ok] at run
    obtain ⟨methods, _, ⟨legal, rfl⟩, rfl, rfl⟩ := run
    exact ⟨rfl, ⟨legal, trivial, trivial, List.forall_mem_nil _⟩, by simp [AttributeBody.bytes]⟩
  | record =>
    simp only [AttributeBody.read, stateBind_eq_ok,
      counted_eq_ok (RecordComponent.read_eq_ok h), pure_eq_ok] at run
    obtain ⟨components, _, ⟨⟨few, all⟩, rfl⟩, rfl, rfl⟩ := run
    refine ⟨rfl, ⟨⟨few, fun c mem => (all c mem).1⟩, trivial, trivial, ?_⟩, ?_⟩
    · intro a mem
      obtain ⟨c, hc, ha⟩ := List.mem_flatMap.mp mem
      exact (all c hc).2 a ha
    · simp [AttributeBody.bytes, RecordComponent.bytesList_eq]
  | annotationDefault =>
    simp only [AttributeBody.read, stateBind_eq_ok, ElementValue.read_eq_ok, pure_eq_ok] at run
    obtain ⟨value, _, ⟨⟨checked, low⟩, rfl⟩, rfl, rfl⟩ := run
    exact ⟨rfl, ⟨checked, trivial, low, List.forall_mem_nil _⟩, rfl⟩
  | annotations =>
    simp only [AttributeBody.read, stateBind_eq_ok, annotationList_eq_ok, pure_eq_ok] at run
    obtain ⟨as, _, ⟨⟨few, all⟩, rfl⟩, rfl, rfl⟩ := run
    exact ⟨rfl, ⟨⟨few, fun a mem => (all a mem).1⟩, trivial, fun a mem => (all a mem).2,
      List.forall_mem_nil _⟩,
      by simp [AttributeBody.bytes]⟩
  | parameterAnnotations =>
    simp only [AttributeBody.read, stateBind_eq_ok, u8_eq_ok,
      times_eq_ok (fun _ _ _ => annotationList_eq_ok), pure_eq_ok] at run
    obtain ⟨count, _, rfl, ps, _, ⟨⟨length, all⟩, rfl⟩, rfl, rfl⟩ := run
    refine ⟨rfl, ⟨⟨length ▸ count.toNat_lt, fun as mem => ⟨(all as mem).1, fun a ha =>
      ((all as mem).2 a ha).1⟩⟩, trivial, fun as mem a ha => ((all as mem).2 a ha).2,
      List.forall_mem_nil _⟩, ?_⟩
    simp [AttributeBody.bytes, length, Bytes.ofNat]
  | typeAnnotations =>
    simp only [AttributeBody.read, stateBind_eq_ok,
      counted_eq_ok (fun _ _ _ => TypeAnnotationInfo.read_eq_ok), pure_eq_ok] at run
    obtain ⟨as, _, ⟨⟨few, all⟩, rfl⟩, rfl, rfl⟩ := run
    exact ⟨rfl, ⟨⟨few, fun a mem => (all a mem).2.1⟩, fun a mem => (all a mem).1,
      fun a mem => (all a mem).2.2, List.forall_mem_nil _⟩, by simp [AttributeBody.bytes]⟩
  | marker =>
    obtain ⟨rfl, rfl⟩ := pure_eq_ok.mp run
    exact ⟨rfl, ⟨trivial, trivial, trivial, List.forall_mem_nil _⟩, rfl⟩
  | raw =>
    cases run
    exact ⟨rfl, ⟨trivial, trivial, trivial, List.forall_mem_nil _⟩, by simp [AttributeBody.bytes]⟩

/-- The written form of a body is read as the body. A body that is not taken apart is read to the
end of the data. -/
theorem AttributeBody.read_bytes (h : ∀ a bytes rest, nested bytes = .ok (a, rest) ↔
      Legal a ∧ bytes = Attribute.bytes a ++ rest) (readable : body.Readable Legal d) :
    AttributeBody.read nested d body.kind (AttributeBody.bytes body) = .ok (body, []) := by
  obtain ⟨counted, placed, below, inside⟩ := readable
  rw [← List.append_nil (AttributeBody.bytes body)]
  cases body with
  | code c =>
    obtain ⟨stack, locals, code, handlers, attributes⟩ := c
    simp only [AttributeBody.read, AttributeBodyOf.kind, AttributeBody.bytes, List.append_assoc,
      u16_bind, Attribute.bytesList_eq]
    have small : code.length < 256 ^ 4 := counted.1
    rw [number_bind small, take_bind, stateBind_of_ok ((counted_eq_ok
      (fun _ _ _ => ExceptionHandler.read_eq_ok)).mpr ⟨⟨counted.2.1, fun _ _ => trivial⟩, rfl⟩),
      stateBind_of_ok ((counted_eq_ok h).mpr ⟨⟨counted.2.2, inside⟩, rfl⟩)]
    rfl
  | constantValue i | signature i | sourceFile i | nestHost i =>
    simp only [AttributeBody.read, AttributeBodyOf.kind, AttributeBody.bytes, u16_bind]
    rfl
  | exceptions is | nestMembers is | permittedSubclasses is =>
    exact stateBind_of_ok (indexList_eq_ok.mpr ⟨counted, rfl⟩) _
  | innerClasses cs =>
    refine stateBind_of_ok ((counted_eq_ok (fun _ _ _ => InnerClass.read_eq_ok)).mpr
      ⟨⟨counted, fun _ _ => trivial⟩, ?_⟩) _
    simp [AttributeBody.bytes]
  | enclosingMethod i j =>
    simp only [AttributeBody.read, AttributeBodyOf.kind, AttributeBody.bytes, List.append_assoc,
      u16_bind]
    rfl
  | bootstrapMethods ms =>
    refine stateBind_of_ok ((counted_eq_ok (fun _ _ _ => BootstrapMethod.read_eq_ok)).mpr
      ⟨counted, ?_⟩) _
    simp [AttributeBody.bytes]
  | record cs =>
    refine stateBind_of_ok ((counted_eq_ok (RecordComponent.read_eq_ok h)).mpr
      ⟨⟨counted.1, fun c mem => ⟨counted.2 c mem, fun a ha => inside a ?_⟩⟩, ?_⟩) _
    · exact List.mem_flatMap.mpr ⟨c, mem, ha⟩
    · simp [AttributeBody.bytes, RecordComponent.bytesList_eq]
  | annotationDefault v =>
    exact stateBind_of_ok (ElementValue.read_eq_ok.mpr ⟨⟨counted, below⟩, rfl⟩) _
  | annotations as =>
    exact stateBind_of_ok (annotationList_eq_ok.mpr
      ⟨⟨counted.1, fun a mem => ⟨counted.2 a mem, below a mem⟩⟩, rfl⟩) _
  | parameterAnnotations ps =>
    have count : (UInt8.ofNat ps.length).toNat = ps.length := UInt8.toNat_ofNat_of_lt' counted.1
    have written : Bytes.ofNat 1 ps.length = [UInt8.ofNat ps.length] := by simp [Bytes.ofNat]
    simp only [AttributeBody.read, AttributeBodyOf.kind, AttributeBody.bytes, written,
      List.cons_append, List.nil_append, u8_bind]
    refine stateBind_of_ok ((times_eq_ok (fun _ _ _ => annotationList_eq_ok)).mpr
      ⟨⟨count.symm, fun as mem => ⟨(counted.2 as mem).1, fun a ha =>
        ⟨(counted.2 as mem).2 a ha, below as mem a ha⟩⟩⟩, rfl⟩) _
  | typeAnnotations as =>
    refine stateBind_of_ok ((counted_eq_ok (fun _ _ _ => TypeAnnotationInfo.read_eq_ok)).mpr
      ⟨⟨counted.1, fun a mem => ⟨placed a mem, counted.2 a mem, below a mem⟩⟩, ?_⟩) _
    simp [AttributeBody.bytes]
  | marker => rfl
  | raw bytes =>
    rw [List.append_nil]
    rfl

end

/-- One of the texts that are put in a row is no longer than the row. -/
theorem length_le_length_flatMap {α β : Type} (f : α → List β) {as : List α} {a : α} (mem : a ∈ as) :
    (f a).length ≤ (as.flatMap f).length := by
  rw [List.length_flatMap]
  exact List.single_le_sum (fun _ _ => Nat.zero_le _) _ (List.mem_map_of_mem mem)

/-- Within a body nothing is nested deeper than the number of its bytes. -/
theorem AttributeBody.below_length (body : AttributeBody) :
    body.Below (AttributeBody.bytes body).length := by
  cases body with
  | annotationDefault v => exact ElementValue.height_le_length v
  | annotations as =>
    intro a mem
    have := AnnotationInfo.height_le_length a
    have := length_le_length_flatMap AnnotationInfo.bytes mem
    simp only [AttributeBody.bytes, List.length_append]
    omega
  | parameterAnnotations ps =>
    intro as mem a ha
    have := AnnotationInfo.height_le_length a
    have := length_le_length_flatMap AnnotationInfo.bytes ha
    have whole : (Bytes.ofNat 2 as.length ++ as.flatMap AnnotationInfo.bytes).length ≤
        (AttributeBody.bytes (.parameterAnnotations ps)).length := by
      refine Nat.le_trans (length_le_length_flatMap (fun as : List AnnotationInfo =>
        Bytes.ofNat 2 as.length ++ as.flatMap AnnotationInfo.bytes) mem) ?_
      rw [AttributeBody.bytes]
      exact (List.suffix_append _ _).length_le
    rw [List.length_append] at whole
    omega
  | typeAnnotations as =>
    intro a mem
    have := AnnotationInfo.height_le_length a.content
    have := length_le_length_flatMap TypeAnnotationInfo.bytes mem
    simp only [AttributeBody.bytes, TypeAnnotationInfo.bytes, List.length_append,
      List.length_cons] at *
    omega
  | _ => trivial

/-- What is nested below a depth is nested below every greater one. -/
theorem AttributeBody.Below.mono {body : AttributeBody} {d d' : Nat} (h : body.Below d)
    (le : d ≤ d') : body.Below d' := by
  cases body with
  | annotationDefault v => exact Nat.le_trans h le
  | annotations as => exact fun a mem => Nat.le_trans (h a mem) le
  | parameterAnnotations ps => exact fun as mem a ha => Nat.le_trans (h as mem a ha) le
  | typeAnnotations as => exact fun a mem => Nat.le_trans (h a mem) le
  | _ => trivial

/-! ## Attributes -/

/-- The name of an attribute announces the layout of its body. -/
structure Attribute.Named (pool : ConstantPool) (a : Attribute) : Prop where
  kind : ∃ text, pool.utf8 a.name = .ok text ∧ AttributeKind.ofName text = a.body.kind
  placed : a.body.Placed

/-- An attribute that is read from its bytes, nested below a bound. -/
def Attribute.LegalAt (pool : ConstantPool) : (depth : Nat) → Attribute → Prop
  | 0, _ => False
  | depth + 1, a => a.Named pool ∧ AttributeBody.Counted a.body ∧
    (AttributeBody.bytes a.body).length < UInt32.size ∧
      ∀ x ∈ a.body.nested, LegalAt pool depth x

/-- The body of an attribute has to be read to its end. -/
theorem AttributeBody.readWhole_eq_ok {name : String} {reader : Reader ClassError AttributeBody}
    {data : Bytes} {body : AttributeBody} :
    AttributeBody.readWhole name reader data = .ok body ↔ reader data = .ok (body, []) := by
  unfold AttributeBody.readWhole
  split <;> simp_all

/-- **An attribute is read from its bytes**, and only one that can be written is read. -/
theorem Attribute.read_eq_ok {pool : ConstantPool} {depth : Nat} {a : Attribute} {bytes rest : Bytes} :
    Attribute.read pool depth bytes = .ok (a, rest) ↔
      a.LegalAt pool depth ∧ bytes = Attribute.bytes a ++ rest := by
  induction depth generalizing a bytes rest with
  | zero => exact ⟨nofun, fun h => h.1.elim⟩
  | succ depth ih =>
    have nested := fun a bytes rest => @ih a bytes rest
    obtain ⟨name, body⟩ := a
    simp only [Attribute.read, stateBind_eq_ok, u16_eq_ok, number_eq_ok, take_eq_ok, ofExcept_eq_ok,
      AttributeBody.readWhole_eq_ok, pure_eq_ok, Attribute.bytes, List.append_assoc]
    constructor
    · rintro ⟨_, _, rfl, _, _, ⟨small, rfl⟩, data, _, ⟨rfl, rfl⟩, text, _, ⟨htext, rfl⟩, _, _,
        ⟨run, rfl⟩, same, rfl⟩
      cases same
      obtain ⟨kind, readable, whole⟩ := AttributeBody.of_read nested run
      rw [List.append_nil] at whole
      subst whole
      exact ⟨⟨⟨⟨text, htext, kind.symm⟩, readable.placed⟩, readable.counted, small,
        readable.nested⟩, rfl⟩
    · rintro ⟨⟨⟨⟨text, htext, kind⟩, placed⟩, counted, small, inside⟩, rfl⟩
      refine ⟨name, _, rfl, _, _, ⟨small, rfl⟩, _, _, ⟨rfl, rfl⟩, text, _, ⟨htext, rfl⟩, body, _,
        ⟨?_, rfl⟩, rfl, rfl⟩
      rw [kind]
      exact AttributeBody.read_bytes nested
        ⟨counted, placed, (AttributeBody.below_length body).mono (Nat.le_succ _), inside⟩

/-! ## Bounds that are never reached -/

/-- An attribute can be written if its body can, and four bytes hold the length. -/
theorem Attribute.check_eq_ok {a : Attribute} :
    Attribute.check a = .ok () ↔ (AttributeBody.Counted a.body ∧
      ∀ x ∈ a.body.nested, Attribute.check x = .ok ()) ∧
        (AttributeBody.bytes a.body).length < UInt32.size := by
  obtain ⟨name, body⟩ := a
  rw [check, andThen_eq_ok, AttributeBody.check_eq_ok]
  split
  · next small => exact ⟨fun h => ⟨h.1, small⟩, fun h => ⟨h.1, rfl⟩⟩
  · next large => exact ⟨nofun, fun h => absurd h.2 large⟩

/-- All attributes within one are itself and those within its body. -/
theorem AttributeOf.all_eq {ι β : Type} (a : AttributeOf ι β) :
    a.all = a :: a.body.nested.flatMap AttributeOf.all := by
  obtain ⟨name, body⟩ := a
  rw [all, AttributeBodyOf.all_eq]

/-- What a reader accepts can be written, and all names in it are known. -/
theorem Attribute.LegalAt.written {pool : ConstantPool} {depth : Nat} {a : Attribute}
    (h : a.LegalAt pool depth) : Attribute.check a = .ok () ∧ ∀ x ∈ a.all, Attribute.Named pool x := by
  induction depth generalizing a with
  | zero => exact h.elim
  | succ depth ih =>
    obtain ⟨named, counted, small, inside⟩ := h
    refine ⟨Attribute.check_eq_ok.mpr ⟨⟨counted, fun x mem => (ih (inside x mem)).1⟩, small⟩, ?_⟩
    rw [AttributeOf.all_eq]
    refine List.forall_mem_cons.mpr ⟨named, fun y mem => ?_⟩
    obtain ⟨x, hx, hy⟩ := List.mem_flatMap.mp mem
    exact (ih (inside x hx)).2 y hy

/-- An attribute is not longer than the body that it is in. -/
theorem Attribute.length_le_of_nested {body : AttributeBody} {x : Attribute} (mem : x ∈ body.nested) :
    (Attribute.bytes x).length ≤ (AttributeBody.bytes body).length := by
  cases body with
  | code c =>
    obtain ⟨stack, locals, code, handlers, attributes⟩ := c
    have mem : x ∈ attributes := mem
    have := length_le_length_flatMap Attribute.bytes mem
    simp only [AttributeBody.bytes, Attribute.bytesList_eq, List.length_append]
    omega
  | record components =>
    obtain ⟨c, hc, hx⟩ := List.mem_flatMap.mp mem
    have outer := length_le_length_flatMap RecordComponent.bytes hc
    obtain ⟨name, descriptor, attributes⟩ := c
    have hx : x ∈ attributes := hx
    have inner := length_le_length_flatMap Attribute.bytes hx
    rw [RecordComponent.bytes, Attribute.bytesList_eq] at outer
    simp only [AttributeBody.bytes, RecordComponent.bytesList_eq, List.length_append] at outer ⊢
    omega
  | _ => cases mem

/-- An attribute that can be written is legal below a bound that is at least its length. -/
theorem Attribute.legalAt_of_check {pool : ConstantPool} {depth : Nat} {a : Attribute}
    (checked : Attribute.check a = .ok ()) (named : ∀ x ∈ a.all, Attribute.Named pool x)
    (deep : (Attribute.bytes a).length ≤ depth) : a.LegalAt pool depth := by
  induction depth generalizing a with
  | zero =>
    obtain ⟨name, body⟩ := a
    simp [Attribute.bytes] at deep
  | succ depth ih =>
    obtain ⟨⟨counted, inside⟩, small⟩ := Attribute.check_eq_ok.mp checked
    rw [AttributeOf.all_eq] at named
    obtain ⟨first, rest⟩ := List.forall_mem_cons.mp named
    refine ⟨first, counted, small, fun x mem => ih (inside x mem) (fun y hy => ?_) ?_⟩
    · exact rest y (List.mem_flatMap.mpr ⟨x, mem, hy⟩)
    · obtain ⟨name, body⟩ := a
      have mem : x ∈ body.nested := mem
      have := Attribute.length_le_of_nested mem
      simp only [Attribute.bytes, List.length_append, Bytes.length_ofUInt16] at deep
      omega

end ProcessorBench
