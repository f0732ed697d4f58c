import ProcessorBench.Proofs.DebugFree
import ProcessorBench.Proofs.Rebuilding

/-!
# What equal views share

Two classes over pools without cycles that have one view have the same attributes at every depth:
with names of the same text, so of the same layouts, and so debug attributes in the same places.
-/

namespace ProcessorBench

/-! ## Texts -/

namespace ConstantPool

variable {pool : ConstantPool}

theorem utf8Bytes_eq_ok (h : pool.Acyclic) {i : PoolIndex} {t : ConstantTree}
    (ht : pool.tree i = .ok t) {bytes : Bytes} : pool.utf8Bytes i = .ok bytes ↔ t = ⟨.utf8 bytes⟩ := by
  obtain ⟨d⟩ := t
  obtain ⟨c, hc, hd⟩ := h.tree_eq_ok.mp ht
  have tag := ConstantOf.tag_of_mapRefs hd
  rw [utf8Bytes, hc, ok_bind]
  cases c with
  | utf8 text =>
    cases hd
    simp [pure, Except.pure]
  | _ =>
    refine ⟨nofun, fun same => ?_⟩
    cases same
    cases tag

theorem utf8_eq_ok (h : pool.Acyclic) {i : PoolIndex} {t : ConstantTree} (ht : pool.tree i = .ok t)
    {text : String} : pool.utf8 i = .ok text ↔
      ∃ bytes, t = ⟨.utf8 bytes⟩ ∧ ModifiedUtf8.decode bytes = .ok text := by
  simp only [utf8, bind_eq_ok, utf8Bytes_eq_ok h ht]

end ConstantPool

/-- Whether a constant is the name of a debug attribute. -/
def ConstantTree.isDebugName : ConstantTree → Bool
  | ⟨.utf8 bytes⟩ => debugAttributeNames.contains (Utf8.decodeLossy bytes)
  | _ => false

theorem ConstantPool.isDebugName_eq {pool : ConstantPool} (h : pool.Acyclic) {i : PoolIndex}
    {t : ConstantTree} (ht : pool.tree i = .ok t) : pool.isDebugName i = t.isDebugName := by
  unfold isDebugName
  split
  · next bytes found =>
    rw [(utf8Bytes_eq_ok h ht).mp found]
    rfl
  · next e found =>
    unfold ConstantTree.isDebugName
    split
    · rw [(utf8Bytes_eq_ok h ht).mpr rfl] at found
      cases found
    · rfl

/-! ## Attributes -/

theorem mapM_flatMap_forall₂ {α β γ δ ε : Type} {f : α → Except ε β} {g : α → List γ} {g' : β → List δ}
    {r : γ → δ → Prop} {as : List α} {bs : List β} (h : as.mapM f = .ok bs)
    (step : ∀ a b, f a = .ok b → List.Forall₂ r (g a) (g' b)) :
    List.Forall₂ r (as.flatMap g) (bs.flatMap g') :=
  List.rel_flatMap (mapM_eq_ok.mp h) fun a b hb => step a b hb

/-- Replacing references keeps the attributes of a class, at every depth. -/
theorem ClassOf.all_of_mapRefs {ε ι κ β γ : Type} {f : RefMap (Except ε) ι κ β γ} {c : ClassOf ι β}
    {d : ClassOf κ γ} (h : c.mapRefs f = .ok d) :
    List.Forall₂ (fun a b => a.mapRefs f = .ok b) c.all d.all := by
  obtain ⟨_, _, _, fields, methods, own⟩ := parts_of_mapRefs h
  have member : ∀ (m : MemberOf ι β) (m' : MemberOf κ γ), m.mapRefs f = .ok m' →
      List.Forall₂ (fun a b => a.mapRefs f = .ok b) (AttributeOf.allList m.attributes)
        (AttributeOf.allList m'.attributes) := fun m m' hm => by
    obtain ⟨_, _, _, attributes⟩ := MemberOf.parts_of_mapRefs hm
    rw [← AttributeOf.mapRefsList_eq] at attributes
    exact AttributeOf.allList_of_mapRefs attributes
  rw [← AttributeOf.mapRefsList_eq] at own
  exact List.rel_append (mapM_flatMap_forall₂ fields member)
    (List.rel_append (mapM_flatMap_forall₂ methods member) (AttributeOf.allList_of_mapRefs own))

theorem placed_of_mapRefs {ε ι κ : Type} {f : ι → Except ε κ} {a : TypeAnnotationOf ι}
    {b : TypeAnnotationOf κ} (h : a.mapRefs f = .ok b) : b.Placed ↔ a.Placed := by
  obtain ⟨_, _, h⟩ := bind_eq_ok.mp h
  cases h
  exact ⟨fun h => ⟨h.target, h.path⟩, fun h => ⟨h.target, h.path⟩⟩

theorem AttributeBodyOf.placed_of_mapRefs {ε ι κ β γ : Type} {f : RefMap (Except ε) ι κ β γ}
    {x : AttributeBodyOf ι β} {y : AttributeBodyOf κ γ} (h : x.mapRefs f = .ok y) :
    y.Placed ↔ x.Placed := by
  have kind := kind_of_mapRefs h
  cases x with
  | typeAnnotations as =>
    rw [mapRefs] at h
    obtain ⟨bs, hbs, h⟩ := bind_eq_ok.mp h
    cases h
    exact forall_mem_congr ((mapM_eq_ok.mp hbs).imp fun _ _ h => ProcessorBench.placed_of_mapRefs h)
  | _ => cases y <;> first | exact Iff.rfl | cases kind

/-! ## Two classes with one view -/

namespace ClassFile

variable {c d : ClassFile} {v : ClassView}

/-- Every attribute of the one class has a counterpart in the other. -/
theorem exists_same_view (hc : c.view = .ok v) (hd : d.view = .ok v) {a : Attribute}
    (mem : a ∈ d.all) : ∃ b ∈ c.all, ∃ w, b.mapRefs c.pool.viewMap = .ok w ∧
      a.mapRefs d.pool.viewMap = .ok w := by
  obtain ⟨w, hw, ha⟩ := exists_mem_of_forall₂ (ClassOf.all_of_mapRefs hd) mem
  obtain ⟨b, hb, same⟩ := exists_mem_of_forall₂ (ClassOf.all_of_mapRefs hc).flip hw
  exact ⟨b, hb, w, same, ha⟩

/-- The name of an attribute with a view is a tree. -/
theorem tree_of_name {pool : ConstantPool} {a : Attribute}
    {w : AttributeOf (Option ConstantTree) CodeView} (h : a.mapRefs pool.viewMap = .ok w) :
    ∃ t, pool.tree a.name = .ok t ∧ w.name = some t := by
  obtain ⟨t, ht, same⟩ := bind_eq_ok.mp (AttributeOf.parts_of_mapRefs h).1
  exact ⟨t, ht, (Except.ok.inj same).symm⟩

variable (cAcyclic : c.pool.Acyclic) (dAcyclic : d.pool.Acyclic) (hc : c.view = .ok v)
  (hd : d.view = .ok v)
include cAcyclic dAcyclic hc hd

/-- **Names announce layouts in both classes or in neither.** -/
theorem named_of_same_view (h : ∀ a ∈ c.all, Attribute.Named c.pool a) :
    ∀ a ∈ d.all, Attribute.Named d.pool a := by
  intro a mem
  obtain ⟨b, hb, w, hbw, haw⟩ := exists_same_view hc hd mem
  obtain ⟨⟨text, htext, kind⟩, placed⟩ := h b hb
  obtain ⟨t, ht, name⟩ := tree_of_name hbw
  obtain ⟨t', ht', name'⟩ := tree_of_name haw
  obtain rfl : t = t' := Option.some.inj (name.symm.trans name')
  have bodyOfB := (AttributeOf.parts_of_mapRefs hbw).2
  have bodyOfA := (AttributeOf.parts_of_mapRefs haw).2
  refine ⟨⟨text, ?_, ?_⟩, ?_⟩
  · rw [ConstantPool.utf8_eq_ok dAcyclic ht', ← ConstantPool.utf8_eq_ok cAcyclic ht, htext]
  · rw [kind, ← AttributeBodyOf.kind_of_mapRefs bodyOfB, AttributeBodyOf.kind_of_mapRefs bodyOfA]
  · rw [← AttributeBodyOf.placed_of_mapRefs bodyOfA, AttributeBodyOf.placed_of_mapRefs bodyOfB]
    exact placed

/-- **Debug attributes are in both classes or in neither.** -/
theorem kept_of_same_view (h : ∀ a ∈ c.all, c.pool.isDebugName a.name = false) :
    ∀ a ∈ d.all, d.pool.isDebugName a.name = false := by
  intro a mem
  obtain ⟨b, hb, w, hbw, haw⟩ := exists_same_view hc hd mem
  obtain ⟨t, ht, name⟩ := tree_of_name hbw
  obtain ⟨t', ht', name'⟩ := tree_of_name haw
  obtain rfl : t = t' := Option.some.inj (name.symm.trans name')
  rw [ConstantPool.isDebugName_eq dAcyclic ht', ← ConstantPool.isDebugName_eq cAcyclic ht, h b hb]

end ClassFile

end ProcessorBench
