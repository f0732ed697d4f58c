import ProcessorBench.ClassFile.Builder
import ProcessorBench.Proofs.PoolSteps

/-!
# What an annotation is lowered to

Lowering an annotation interns its texts and numbers, and resolving looks them up again, so an
annotation that has been lowered resolves to what it was: `AnnotationContent.lower_adds`. Values of
several kinds may share one integer constant; which of them it stands for is said beside the index.

An annotation refers to texts and numbers only, and these refer to nothing. So it resolves as before
in any pool that has kept these, wherever other constants lead: `AnnotationInfo.resolve_of_leaves`.
-/

namespace ProcessorBench

open PoolStep (Adds)

/-! ## Constants that refer to nothing -/

namespace ConstantPool

variable {p q : ConstantPool} {i : PoolIndex} {text : String}

/-- The constants of a pool that refer to nothing are in the other at the same index. -/
def KeepsLeaves (p q : ConstantPool) : Prop := ∀ i c, p.get i = .ok c → c.refs = [] → q.get i = .ok c

/-- A pool that grows keeps the constants that refer to nothing. -/
theorem keepsLeaves_of_le (h : p ≤ q) : p.KeepsLeaves q := fun i c hc _ => h i c hc

/-- The bytes of a text are kept. -/
theorem KeepsLeaves.utf8Bytes (h : p.KeepsLeaves q) {bytes : Bytes}
    (found : p.utf8Bytes i = .ok bytes) : q.utf8Bytes i = .ok bytes := by
  obtain ⟨c, hc, found⟩ := bind_eq_ok.mp found
  cases c with
  | utf8 text =>
    rw [ConstantPool.utf8Bytes, h i _ hc rfl]
    exact found
  | _ => cases found

/-- A text is kept. -/
theorem KeepsLeaves.utf8 (h : p.KeepsLeaves q) (found : p.utf8 i = .ok text) :
    q.utf8 i = .ok text := by
  obtain ⟨bytes, hbytes, found⟩ := bind_eq_ok.mp found
  rw [ConstantPool.utf8, h.utf8Bytes hbytes]
  exact found

end ConstantPool

/-- A constant that has a value as an element refers to nothing. -/
theorem ElementTag.refs_of_resolve {tag : ElementTag} {i : PoolIndex} {c : Constant}
    {value : AnnotationValue} (h : tag.resolve i c = .ok value) : c.refs = [] := by
  cases c with
  | utf8 _ | integer _ | float _ | long _ | double _ => rfl
  | _ => cases tag <;> cases h

section
variable {p q : ConstantPool} (h : p.KeepsLeaves q)
include h

-- The theorems about lists need the hypothesis only through those about their members.
set_option linter.unusedSectionVars false

mutual

/-- A value says the same in a pool that keeps the constants that refer to nothing. -/
theorem ElementValue.resolve_of_leaves : ∀ {v : ElementValue} {value : AnnotationValue},
    ElementValue.resolve p v = .ok value → ElementValue.resolve q v = .ok value
  | .const tag i, value, found => by
    cases tag with
    | string =>
      obtain ⟨text, htext, found⟩ := bind_eq_ok.mp found
      rw [ElementValue.resolve, h.utf8 htext]
      exact found
    | _ =>
      obtain ⟨c, hc, found⟩ := bind_eq_ok.mp found
      rw [ElementValue.resolve, h i c hc (ElementTag.refs_of_resolve found)]
      · exact found
      · exact nofun
  | .enumConst i j, value, found => by
    obtain ⟨_, hi, found⟩ := bind_eq_ok.mp found
    obtain ⟨_, hj, found⟩ := bind_eq_ok.mp found
    rw [ElementValue.resolve, h.utf8 hi, ok_bind, h.utf8 hj]
    exact found
  | .classInfo i, value, found => by
    obtain ⟨_, hi, found⟩ := bind_eq_ok.mp found
    rw [ElementValue.resolve, h.utf8 hi]
    exact found
  | .nested a, value, found => by
    obtain ⟨_, ha, found⟩ := bind_eq_ok.mp found
    rw [ElementValue.resolve, AnnotationInfo.resolve_of_leaves ha]
    exact found
  | .array vs, value, found => by
    obtain ⟨_, hvs, found⟩ := bind_eq_ok.mp found
    rw [ElementValue.resolve, ElementValue.resolveList_of_leaves hvs]
    exact found

/-- Values say the same in a pool that keeps the constants that refer to nothing. -/
theorem ElementValue.resolveList_of_leaves : ∀ {vs : List ElementValue}
    {values : List AnnotationValue},
    ElementValue.resolveList p vs = .ok values → ElementValue.resolveList q vs = .ok values
  | [], _, found => found
  | v :: vs, values, found => by
    obtain ⟨_, hv, found⟩ := bind_eq_ok.mp found
    obtain ⟨_, hvs, found⟩ := bind_eq_ok.mp found
    rw [ElementValue.resolveList, ElementValue.resolve_of_leaves hv, ok_bind,
      ElementValue.resolveList_of_leaves hvs]
    exact found

/-- **An annotation resolves as before** where texts and numbers are kept. -/
theorem AnnotationInfo.resolve_of_leaves : ∀ {a : AnnotationInfo} {content : AnnotationContent},
    AnnotationInfo.resolve p a = .ok content → AnnotationInfo.resolve q a = .ok content
  | ⟨type, elements⟩, content, found => by
    obtain ⟨_, htype, found⟩ := bind_eq_ok.mp found
    obtain ⟨_, helements, found⟩ := bind_eq_ok.mp found
    rw [AnnotationInfo.resolve, h.utf8 htype, ok_bind, Element.resolveList_of_leaves helements]
    exact found

/-- Elements say the same in a pool that keeps the constants that refer to nothing. -/
theorem Element.resolveList_of_leaves : ∀ {es : List Element} {elements : List ResolvedElement},
    Element.resolveList p es = .ok elements → Element.resolveList q es = .ok elements
  | [], _, found => found
  | e :: es, elements, found => by
    obtain ⟨_, he, found⟩ := bind_eq_ok.mp found
    obtain ⟨_, hes, found⟩ := bind_eq_ok.mp found
    rw [Element.resolveList, Element.resolve_of_leaves he, ok_bind,
      Element.resolveList_of_leaves hes]
    exact found

/-- An element says the same in a pool that keeps the constants that refer to nothing. -/
theorem Element.resolve_of_leaves : ∀ {e : Element} {element : ResolvedElement},
    Element.resolve p e = .ok element → Element.resolve q e = .ok element
  | ⟨name, v⟩, element, found => by
    obtain ⟨_, hname, found⟩ := bind_eq_ok.mp found
    obtain ⟨_, hv, found⟩ := bind_eq_ok.mp found
    rw [Element.resolve, h.utf8 hname, ok_bind, ElementValue.resolve_of_leaves hv]
    exact found

end

end

/-! ## Numbers -/

/-- A number that fits 32 bits is what it was when it is taken for a longer one again. -/
theorem toInt64_toInt32 {value : Int64} (narrow : value.toInt = value.toInt32.toInt) :
    value.toInt32.toInt64 = value :=
  Int64.toInt_inj.mp (by rw [Int32.toInt_toInt64, narrow])

/-- Every character is that of its number. -/
theorem charOfInt_val (value : Char) : charOfInt value.val.toInt32.toInt = value := by
  have valid : value.val.toNat.isValidChar := value.valid
  have number : value.val.toInt32.toInt = value.val.toNat := by
    have small : value.val.toNat < 0x110000 := by
      rcases valid with low | high
      · omega
      · exact high.2
    show value.val.toBitVec.toInt = _
    rw [BitVec.toInt_eq_toNat_bmod, UInt32.toNat_toBitVec]
    exact Int.bmod_eq_of_le (by omega) (by omega)
  rw [number, charOfInt, if_pos (Int.natCast_nonneg _), Int.toNat_natCast]
  exact dif_pos valid

/-! ## Lowering and resolving -/

/-- A constant value is what its tag makes of the constant. -/
theorem ElementValue.resolve_const {F : ConstantPool} {tag : ElementTag} {i : PoolIndex}
    {c : Constant} {value : AnnotationValue} (there : F.get i = .ok c)
    (stands : tag.resolve i c = .ok value) : ElementValue.resolve F (.const tag i) = .ok value := by
  cases tag with
  | string => cases stands
  | _ =>
    rw [ElementValue.resolve, there]
    · exact stands
    · exact nofun

/-- A value that is a constant is what the constant stands for. -/
theorem lower_const {tag : ElementTag} {c : Constant} {value : AnnotationValue}
    (stands : ∀ i, tag.resolve i c = .ok value) :
    PoolStep.Adds (do return ElementValueOf.const tag (← PoolBuilder.intern c)) fun v F =>
      ElementValue.resolve F v = .ok value :=
  Adds.bind_pure ((PoolBuilder.intern_adds c).mono fun i _ there =>
    ElementValue.resolve_const there (stands i))

mutual

/-- **Lowering a value adds what it is resolved from.** -/
theorem AnnotationValue.lower_adds : ∀ value : AnnotationValue,
    value.lower.Adds fun v F => ElementValue.resolve F v = .ok value
  | .int value => by
    rw [AnnotationValue.lower]
    split
    · next narrow => exact lower_const fun _ => by rw [ElementTag.resolve, toInt64_toInt32 narrow]
    · exact lower_const fun _ => rfl
  | .float bits => lower_const fun _ => rfl
  | .bool value => lower_const fun _ => by cases value <;> rfl
  | .char value => lower_const fun _ => by rw [ElementTag.resolve, charOfInt_val]
  | .string text => by
    refine Adds.bind_pure ((PoolBuilder.utf8_adds text).mono fun i F there => ?_)
    rw [ElementValue.resolve, there]
    rfl
  | .enumConst descriptor constant => by
    refine (PoolBuilder.utf8_adds descriptor).bind fun i => Adds.bind_pure ?_
    refine (PoolBuilder.utf8_adds constant).mono fun j F hj hi => ?_
    rw [ElementValue.resolve, hi, ok_bind, hj]
    rfl
  | .classInfo descriptor => by
    refine Adds.bind_pure ((PoolBuilder.utf8_adds descriptor).mono fun i F there => ?_)
    rw [ElementValue.resolve, there]
    rfl
  | .nested content => by
    refine Adds.bind_pure (content.lower_adds.mono fun a F there => ?_)
    rw [ElementValue.resolve, there]
    rfl
  | .array values => by
    refine Adds.bind_pure ((AnnotationValue.lowerList_adds values).mono fun vs F there => ?_)
    rw [ElementValue.resolve, there]
    rfl

/-- Lowering values adds what they are resolved from. -/
theorem AnnotationValue.lowerList_adds : ∀ values : List AnnotationValue,
    (AnnotationValue.lowerList values).Adds fun vs F => ElementValue.resolveList F vs = .ok values
  | [] => Adds.pure fun _ => rfl
  | value :: values => by
    refine value.lower_adds.bind fun v => Adds.bind_pure ?_
    refine (AnnotationValue.lowerList_adds values).mono fun vs F hvs hv => ?_
    rw [ElementValue.resolveList, hv, ok_bind, hvs]
    rfl

/-- **An annotation that has been lowered resolves to what it was**, in every pool that the builder
grows into. -/
theorem AnnotationContent.lower_adds : ∀ content : AnnotationContent,
    content.lower.Adds fun a F => AnnotationInfo.resolve F a = .ok content
  | ⟨descriptor, elements⟩ => by
    refine (PoolBuilder.utf8_adds descriptor).bind fun type => Adds.bind_pure ?_
    refine (ResolvedElement.lowerList_adds elements).mono fun es F hes htype => ?_
    rw [AnnotationInfo.resolve, htype, ok_bind, hes]
    rfl

/-- Lowering elements adds what they are resolved from. -/
theorem ResolvedElement.lowerList_adds : ∀ elements : List ResolvedElement,
    (ResolvedElement.lowerList elements).Adds fun es F => Element.resolveList F es = .ok elements
  | [] => Adds.pure fun _ => rfl
  | element :: elements => by
    refine element.lower_adds.bind fun e => Adds.bind_pure ?_
    refine (ResolvedElement.lowerList_adds elements).mono fun es F hes he => ?_
    rw [Element.resolveList, he, ok_bind, hes]
    rfl

/-- Lowering an element adds what it is resolved from. -/
theorem ResolvedElement.lower_adds : ∀ element : ResolvedElement,
    element.lower.Adds fun e F => Element.resolve F e = .ok element
  | ⟨name, value⟩ => by
    refine (PoolBuilder.utf8_adds name).bind fun i => Adds.bind_pure ?_
    refine value.lower_adds.mono fun v F hv hname => ?_
    rw [Element.resolve, hname, ok_bind, hv]
    rfl

end

end ProcessorBench
