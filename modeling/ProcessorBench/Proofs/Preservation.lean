import ProcessorBench.Proofs.NormalForm
import ProcessorBench.Proofs.ReflectionView

/-!
# What normalizing keeps

Normalizing deletes debug attributes and moves constants, and that is all: the view of what is left
is the view of the class with the debug attributes deleted. So a class still answers what it
answered before, and two files with one normal form differ in their debug attributes and their pools
at most.
-/

namespace ProcessorBench.ClassFile

/-- Where `c` has an answer to a question, `d` has the same. -/
structure KeepsAnswers (c d : ClassFile) : Prop where
  name : ∀ r, c.name = .ok r → d.name = .ok r
  superName : ∀ r, c.superName = .ok r → d.superName = .ok r
  interfaceNames : ∀ r, c.interfaceNames = .ok r → d.interfaceNames = .ok r
  fieldSignatures : ∀ r, c.fieldSignatures = .ok r → d.fieldSignatures = .ok r
  methodSignatures : ∀ r, c.methodSignatures = .ok r → d.methodSignatures = .ok r
  visibleAnnotations : ∀ r, c.visibleAnnotations = .ok r → d.visibleAnnotations = .ok r

variable {bytes bytes' written : Bytes} {c d e : ClassFile} {v : ClassView}

/-- Answers that are kept twice are kept. -/
theorem KeepsAnswers.trans (h : c.KeepsAnswers d) (h' : d.KeepsAnswers e) : c.KeepsAnswers e where
  name r hr := h'.name r (h.name r hr)
  superName r hr := h'.superName r (h.superName r hr)
  interfaceNames r hr := h'.interfaceNames r (h.interfaceNames r hr)
  fieldSignatures r hr := h'.fieldSignatures r (h.fieldSignatures r hr)
  methodSignatures r hr := h'.methodSignatures r (h.methodSignatures r hr)
  visibleAnnotations r hr := h'.visibleAnnotations r (h.visibleAnnotations r hr)

/-- Classes with one view answer alike. -/
theorem keepsAnswers_of_view (acyclic : c.pool.Acyclic) (acyclic' : d.pool.Acyclic)
    (h : c.view = .ok v) (h' : d.view = .ok v) : c.KeepsAnswers d := by
  have answers := answeredBy_of_view acyclic h
  have answers' := answeredBy_of_view acyclic' h'
  have same {α : Type} {x y : Except ClassError α} {o : Option α} (hx : x.toOption = o)
      (hy : y.toOption = o) (r : α) (hr : x = .ok r) : y = .ok r := by
    rw [← toOption_eq_some, hy, ← hx, toOption_eq_some, hr]
  exact ⟨same answers.name answers'.name, same answers.superName answers'.superName,
    same answers.interfaceNames answers'.interfaceNames,
    same answers.fieldSignatures answers'.fieldSignatures,
    same answers.methodSignatures answers'.methodSignatures,
    same answers.visibleAnnotations answers'.visibleAnnotations⟩

/-! ## Debug attributes answer nothing -/

section
variable {pool : ConstantPool}

/-- Annotations do not depend on attributes that are deleted within their own. -/
theorem visibleAnnotationsIn_without {p : PoolIndex → Bool} {name : PoolIndex} {body : AttributeBody} :
    visibleAnnotationsIn pool ⟨name, body.without p⟩ = visibleAnnotationsIn pool ⟨name, body⟩ := by
  cases body <;> rfl

/-- A debug attribute has no annotations. -/
theorem visibleAnnotationsIn_of_debug {a : Attribute} (h : pool.isDebugName a.name = true) :
    visibleAnnotationsIn pool a = .ok [] := by
  have other : debugAttributeNames.contains visibleAnnotationsName = false := by decide
  obtain ⟨name, body⟩ := a
  cases body with
  | annotations annotations =>
    unfold ConstantPool.isDebugName at h
    split at h
    · next bytes found =>
      have differs : Utf8.decodeLossy bytes ≠ visibleAnnotationsName := by
        intro same
        rw [same, other] at h
        cases h
      rw [visibleAnnotationsIn, Attribute.nameText, found]
      simp only [ok_bind, pure_bind, if_neg differs]
      rfl
    · cases h
  | _ => rfl

/-- Deleting debug attributes loses no annotation. -/
theorem visibleAnnotations_withoutList : ∀ {as : List Attribute} {rs : List (List AnnotationContent)},
    as.mapM (visibleAnnotationsIn pool) = .ok rs →
      ∃ rs', (AttributeOf.withoutList pool.isDebugName as).mapM (visibleAnnotationsIn pool) = .ok rs' ∧
        rs'.flatten = rs.flatten
  | [], rs, h => ⟨rs, h, rfl⟩
  | ⟨name, body⟩ :: as, rs, h => by
    rw [List.mapM_cons] at h
    obtain ⟨r, first, h⟩ := bind_eq_ok.mp h
    obtain ⟨rest, others, h⟩ := bind_eq_ok.mp h
    cases h
    obtain ⟨rest', kept, same⟩ := visibleAnnotations_withoutList others
    rw [AttributeOf.withoutList]
    split
    · next debug =>
      rw [visibleAnnotationsIn_of_debug debug] at first
      cases first
      exact ⟨rest', kept, same⟩
    · refine ⟨r :: rest', ?_, by rw [List.flatten_cons, List.flatten_cons, same]⟩
      rw [List.mapM_cons, visibleAnnotationsIn_without, first, ok_bind, kept]
      rfl

end

/-- A class answers without its debug attributes what it answers with them. -/
theorem keepsAnswers_debugFree (c : ClassFile) : c.KeepsAnswers c.debugFree where
  name _ h := h
  superName _ h := h
  interfaceNames _ h := h
  fieldSignatures r h := by
    rw [fieldSignatures, signatures, mapM_eq_ok] at h ⊢
    exact List.forall₂_map_left_iff.mpr h
  methodSignatures r h := by
    rw [methodSignatures, signatures, mapM_eq_ok] at h ⊢
    exact List.forall₂_map_left_iff.mpr h
  visibleAnnotations r h := by
    obtain ⟨rs, hrs, h⟩ := bind_eq_ok.mp h
    cases h
    obtain ⟨rs', hrs', same⟩ := visibleAnnotations_withoutList hrs
    rw [← same]
    exact congrArg (· >>= _) hrs'

/-! ## Nothing else is lost -/

/-- **Normalizing preserves meaning**: the view of what is left is the view of the class with
exactly the debug attributes deleted, every other file with the same normal form has this view too,
and what the class says about itself is what it said before. -/
theorem stripped_preserves (h : parse bytes = .ok c) (acyclic : c.pool.Acyclic)
    (run : c.stripped = .ok d) :
    ∃ v, d.view = .ok v ∧ c.debugFree.view = .ok v ∧ (∀ w, c.view = .ok w → v = w.debugFree) ∧
      (∀ bytes' c' written, parse bytes' = .ok c' → c'.pool.Acyclic → normalize bytes = .ok written →
        normalize bytes' = .ok written → c'.debugFree.view = .ok v) ∧
      c.KeepsAnswers d := by
  rw [stripped_eq h] at run
  obtain ⟨v, normal⟩ := normal_of_renumbered h acyclic run
  refine ⟨v, normal.after, normal.before, ?_, ?_, ?_⟩
  · intro w hw
    exact Except.ok.inj (normal.before.symm.trans (view_debugFree acyclic hw))
  · intro bytes' c' written h' acyclic' first second
    rw [normalize_eq h, run, ok_bind] at first
    rw [normalize_eq h'] at second
    obtain ⟨d', run', toBytes⟩ := bind_eq_ok.mp second
    obtain ⟨v', normal'⟩ := normal_of_renumbered h' acyclic' run'
    have back : parse written = .ok d := parse_of_toBytes normal.built normal.named first
    have back' : parse written = .ok d' := parse_of_toBytes normal'.built normal'.named toBytes
    cases back.symm.trans back'
    rw [normal'.before, ← normal'.after, normal.after]
  · exact (keepsAnswers_debugFree c).trans
      (keepsAnswers_of_view (c := c.debugFree) acyclic normal.acyclic normal.before normal.after)

/-- A small class without debug attributes loses nothing. -/
theorem stripped_preserves_compiled : ∃ d, compiled.stripped = .ok d ∧
    ∃ v, d.view = .ok v ∧ compiled.debugFree.view = .ok v ∧
      (∀ w, compiled.view = .ok w → v = w.debugFree) ∧
      (∀ bytes' c' written, parse bytes' = .ok c' → c'.pool.Acyclic →
        normalize compiled.bytes = .ok written → normalize bytes' = .ok written →
          c'.debugFree.view = .ok v) ∧
      compiled.KeepsAnswers d := by
  obtain ⟨d, stripped⟩ := exists_stripped parse_compiled acyclic_compiled view_compiled plainView_fits
  exact ⟨d, stripped, stripped_preserves parse_compiled acyclic_compiled stripped⟩

end ProcessorBench.ClassFile
