import ProcessorBench.Proofs.Bytecode
import ProcessorBench.Proofs.Rebuilding

/-!
# What a class refers to

`ClassOf.mapRefs` comes upon the references and the code arrays of a class in one fixed order.
`ClassOf.occurrences` lists them in that order, and whatever else a walk collects on its way is
collected from this list (`ClassOf.items_listing`). Replacing references replaces the members of the
list: `ClassOf.occurrences_of_mapRefs`. So what is said of the indices of a class and of the trees of
its view is said list by list, and the shape of a class no longer matters.
-/

namespace ProcessorBench

/-! ## Lists made on the way -/

/-- A value, with a list of what has been come upon on the way to it. -/
structure Listed (ρ α : Type) where
  value : α
  items : List ρ

namespace Listed

variable {ρ α β : Type}

instance : Monad (Listed ρ) where
  pure a := ⟨a, []⟩
  bind x k := ⟨(k x.value).value, x.items ++ (k x.value).items⟩

@[simp] theorem items_pure (a : α) : (pure a : Listed ρ α).items = [] := rfl

@[simp] theorem items_bind (x : Listed ρ α) (k : α → Listed ρ β) :
    (x >>= k).items = x.items ++ (k x.value).items := rfl

/-- Making something of a result lists nothing more. -/
@[simp] theorem items_map (f : α → β) (x : Listed ρ α) : (f <$> x).items = x.items :=
  List.append_nil x.items

instance : LawfulMonad (Listed ρ) := .mk' _ (fun x => congrArg (Listed.mk x.value) (items_map id x))
  (fun _ _ => rfl) fun _ _ _ => congrArg (Listed.mk _) (List.append_assoc _ _ _)

/-- What is listed for each of some things is listed in a row. -/
@[simp] theorem items_mapM (f : α → Listed ρ β) (as : List α) :
    (as.mapM f).items = as.flatMap fun a => (f a).items := by
  induction as with
  | nil => rfl
  | cons a as ih => simp [List.mapM_cons, ih]

end Listed

/-! ## Occurrences -/

/-- A reference or a code array of a class. -/
inductive Occurrence (ι β : Type) where
  /-- A reference that has to name a constant. -/
  | required (reference : ι)
  /-- A reference that index 0 leaves out. -/
  | optional (reference : ι)
  | code (code : β)

/-- Collecting something from each reference and each code array. -/
def listing {ι β ρ : Type} (f : Occurrence ι β → List ρ) : RefMap (Listed ρ) ι Unit β Unit where
  required i := ⟨(), f (.required i)⟩
  optional i := ⟨(), f (.optional i)⟩
  code b := ⟨(), f (.code b)⟩

section
variable {ι β ρ : Type}

section
variable (f : Occurrence ι β → List ρ)

@[simp] theorem items_listing_required (i : ι) : ((listing f).required i).items = f (.required i) := rfl

@[simp] theorem items_listing_optional (i : ι) : ((listing f).optional i).items = f (.optional i) := rfl

@[simp] theorem items_listing_code (b : β) : ((listing f).code b).items = f (.code b) := rfl

end

/-- The occurrences in an attribute, in the order of the walk. -/
def AttributeOf.occurrences (a : AttributeOf ι β) : List (Occurrence ι β) :=
  (a.mapRefs (listing ([·]))).items

/-- The occurrences in a field or a method, in the order of the walk. -/
def MemberOf.occurrences (m : MemberOf ι β) : List (Occurrence ι β) :=
  (m.mapRefs (listing ([·]))).items

/-- The references and the code arrays of a class, in the order of the walk. -/
def ClassOf.occurrences (c : ClassOf ι β) : List (Occurrence ι β) :=
  (c.mapRefs (listing ([·]))).items

/-- A member refers to its name, its descriptor, and what its attributes refer to. -/
theorem MemberOf.occurrences_eq (m : MemberOf ι β) :
    m.occurrences = .required m.name :: .required m.descriptor ::
      m.attributes.flatMap AttributeOf.occurrences := by
  simp only [occurrences, mapRefs, AttributeOf.mapRefsList_eq, Listed.items_bind, Listed.items_pure,
    Listed.items_mapM, items_listing_required, List.append_nil, List.singleton_append]
  rfl

/-- **The order of the walk**: the class and its superclass, interfaces, fields, methods and
attributes. -/
theorem ClassOf.occurrences_eq (c : ClassOf ι β) :
    c.occurrences = .required c.thisClass :: .optional c.superClass :: (c.interfaces.map .required ++
      (c.fields.flatMap MemberOf.occurrences ++ (c.methods.flatMap MemberOf.occurrences ++
        c.attributes.flatMap AttributeOf.occurrences))) := by
  simp only [occurrences, mapRefs, AttributeOf.mapRefsList_eq, Listed.items_bind, Listed.items_pure,
    Listed.items_mapM, items_listing_required, items_listing_optional, List.append_nil,
    List.singleton_append, ← List.map_eq_flatMap]
  rfl

/-- An attribute that holds code is come upon with it. -/
theorem AttributeOf.code_mem_occurrences {name : ι} {x : CodeOf ι β} :
    .code x.code ∈ (AttributeOf.mk name (.code x)).occurrences := by
  obtain ⟨maxStack, maxLocals, code, handlers, attributes⟩ := x
  simp [occurrences, mapRefs, AttributeBodyOf.mapRefs, CodeOf.mapRefs]

/-- The code directly inside a method is among what its class refers to. -/
theorem ClassOf.code_mem_occurrences {c : ClassOf ι β} {m : MemberOf ι β} (method : m ∈ c.methods)
    {name : ι} {x : CodeOf ι β} (body : AttributeOf.mk name (.code x) ∈ m.attributes) :
    .code x.code ∈ c.occurrences := by
  have inMember : .code x.code ∈ m.occurrences := by
    rw [MemberOf.occurrences_eq]
    exact List.mem_cons_of_mem _ (List.mem_cons_of_mem _
      (List.mem_flatMap.mpr ⟨_, body, AttributeOf.code_mem_occurrences⟩))
  rw [occurrences_eq]
  simp only [List.mem_cons, List.mem_append]
  exact .inr (.inr (.inr (.inr (.inl (List.mem_flatMap.mpr ⟨m, method, inMember⟩)))))

end

/-! ## Walks side by side -/

section
variable {m n : Type → Type} [Monad m] [Monad n] [LawfulMonad m] [LawfulMonad n]
  {ι κ κ' β γ γ' : Type}

/-- Walks over a class are related if their steps are, whatever they replace the references by. -/
theorem ClassOf.mapRefs_side (S : Simulation m n) {f : RefMap m ι κ β γ} {f' : RefMap n ι κ' β γ'}
    (required : ∀ i, S.rel (fun _ _ => True) (f.required i) (f'.required i))
    (optional : ∀ i, S.rel (fun _ _ => True) (f.optional i) (f'.optional i))
    (code : ∀ b, S.rel (fun _ _ => True) (f.code b) (f'.code b)) (c : ClassOf ι β) :
    S.rel (fun _ _ => True) (c.mapRefs f) (c.mapRefs f') := by
  have step {α α' : Type} {x : m α} {y : n α'} (h : S.rel (fun _ _ => True) x y) :
      S.rel (fun _ _ => (pure () : Id Unit) = pure ()) x y := S.mono h fun _ _ _ => rfl
  have related : RefMap.Related S f f' ⟨fun _ => (pure () : Id Unit), fun _ => pure (), fun _ => pure ()⟩
      ⟨fun _ => pure (), fun _ => pure (), fun _ => pure ()⟩ :=
    ⟨fun i => step (required i), fun i => step (optional i), fun b => step (code b)⟩
  exact S.mono (ClassOf.mapRefs_related related c) fun _ _ _ => trivial

end

section
variable {m : Type → Type} [Monad m] [LawfulMonad m] {ι κ β γ ρ : Type}

/-- Computations that do what they are to, if what others list is good. -/
def guarding (S : Simulation m Id) (good : ρ → Prop) : Simulation m (Listed ρ) where
  rel _ x y := (∀ o ∈ y.items, good o) → S.rel (fun _ _ => True) x (pure () : Id Unit)
  pure _ _ := S.pure trivial
  bind {_ _ _ _ _ _ _ y k k'} hx hk all := by
    have first := hx fun o mem => all o (List.mem_append_left _ mem)
    have rest (a) := hk a y.value fun o mem => all o (List.mem_append_right _ mem)
    exact S.bind_pure (fun _ => (pure () : Id Unit)) first fun a _ =>
      S.mono (rest a) fun _ _ _ _ => trivial

/-- A walk over a class does what its steps at the occurrences do. -/
theorem ClassOf.mapRefs_over (S : Simulation m Id) {f : RefMap m ι κ β γ}
    {c : ClassOf ι β}
    (required : ∀ i, .required i ∈ c.occurrences →
      S.rel (fun _ _ => True) (f.required i) (pure () : Id Unit))
    (optional : ∀ i, .optional i ∈ c.occurrences →
      S.rel (fun _ _ => True) (f.optional i) (pure () : Id Unit))
    (code : ∀ b, .code b ∈ c.occurrences →
      S.rel (fun _ _ => True) (f.code b) (pure () : Id Unit)) :
    S.rel (fun _ _ => True) (c.mapRefs f) (pure () : Id Unit) := by
  have walk : (guarding S (· ∈ c.occurrences)).rel (fun _ _ => True) (c.mapRefs f)
      (c.mapRefs (listing ([·]))) :=
    ClassOf.mapRefs_side _ (fun i listed => required i (listed _ (List.mem_singleton_self _)))
      (fun i listed => optional i (listed _ (List.mem_singleton_self _)))
      (fun b listed => code b (listed _ (List.mem_singleton_self _))) c
  exact walk fun _ mem => mem

end

section
variable {ε ι κ β γ ρ : Type}

/-- Computations that list what others list, each replaced by some. -/
def expanding {ο : Type} (f : ο → List ρ) : Simulation (Listed ρ) (Listed ο) where
  rel _ x y := x.items = y.items.flatMap f
  pure _ := rfl
  bind {_ _ _ _ _ _ x x' _ _} hx hk := by
    rw [Listed.items_bind, Listed.items_bind, List.flatMap_append, hx, hk x.value x'.value]

/-- **What a walk collects is collected from the occurrences.** -/
theorem ClassOf.items_listing (f : Occurrence ι β → List ρ) (c : ClassOf ι β) :
    (c.mapRefs (listing f)).items = c.occurrences.flatMap f := by
  have step (o : Occurrence ι β) : f o = [o].flatMap f := (List.flatMap_singleton f o).symm
  have walk : (expanding f).rel (fun _ _ => True) (c.mapRefs (listing f)) (c.mapRefs (listing ([·]))) :=
    ClassOf.mapRefs_side _ (fun i => step (.required i)) (fun i => step (.optional i))
      (fun b => step (.code b)) c
  exact walk

/-- What an occurrence is replaced by. -/
def Occurrence.mapRef (g : RefMap (Except ε) ι κ β γ) : Occurrence ι β → Except ε (Occurrence κ γ)
  | .required i => return .required (← g.required i)
  | .optional i => return .optional (← g.optional i)
  | .code b => return .code (← g.code b)

/-- What is collected from a class with other references. -/
theorem ClassOf.flatMap_of_mapRefs {g : RefMap (Except ε) ι κ β γ} {c : ClassOf ι β} {d : ClassOf κ γ}
    (h : c.mapRefs g = .ok d) (f : Occurrence ι β → List ρ) (f' : Occurrence κ γ → List ρ)
    (same : ∀ o p, o.mapRef g = .ok p → f' p = f o) :
    d.occurrences.flatMap f' = c.occurrences.flatMap f := by
  have step {α : Type} {x : Except ε α} {mk : α → Occurrence κ γ} {a : α} (ha : x = .ok a) :
      (do return mk (← x) : Except ε _) = .ok (mk a) := by
    rw [ha]
    rfl
  have walk : d.mapRefs (listing f') = c.mapRefs (listing f) :=
    ClassOf.mapRefs_eq (f := g) (fun i k hk => congrArg (Listed.mk ()) (same (.required i) _ (step hk)))
      (fun i k hk => congrArg (Listed.mk ()) (same (.optional i) _ (step hk)))
      (fun b k hk => congrArg (Listed.mk ()) (same (.code b) _ (step hk))) h
  rw [← items_listing, walk, items_listing]

/-- **The occurrences are replaced as the class is**, one by one. -/
theorem ClassOf.occurrences_of_mapRefs {g : RefMap (Except ε) ι κ β γ} {c : ClassOf ι β}
    {d : ClassOf κ γ} (h : c.mapRefs g = .ok d) :
    c.occurrences.mapM (Occurrence.mapRef g) = .ok d.occurrences := by
  have found : ∀ o ∈ c.occurrences, ∃ p, o.mapRef g = .ok p := by
    have none : c.occurrences.flatMap
        (fun o => match o.mapRef g with | .ok _ => [] | .error _ => [o]) = [] := by
      rw [← flatMap_of_mapRefs h _ fun _ => []]
      · exact List.flatMap_eq_nil_iff.mpr fun _ _ => rfl
      · intro o p hp
        rw [hp]
    intro o mem
    have good := List.flatMap_eq_nil_iff.mp none o mem
    cases replaced : o.mapRef g with
    | ok p => exact ⟨p, rfl⟩
    | error e =>
      rw [replaced] at good
      cases good
  have whole : d.occurrences =
      c.occurrences.flatMap fun o => match o.mapRef g with | .ok p => [p] | .error _ => [] := by
    rw [← flatMap_of_mapRefs h _ ([·]), List.flatMap_singleton']
    intro o p hp
    rw [hp]
  rw [whole, mapM_eq_ok]
  generalize c.occurrences = os at found
  induction os with
  | nil => exact .nil
  | cons o os ih =>
    obtain ⟨⟨p, hp⟩, others⟩ := List.forall_mem_cons.mp found
    rw [List.flatMap_cons, hp, List.singleton_append]
    exact .cons hp (ih others)

end

/-! ## Indices and trees -/

/-- The indices that a code array loads with one byte; there are none in an array that cannot be cut
into instructions. -/
def Bytecode.loads (code : Bytes) : List PoolIndex :=
  match narrowRefs code with
  | .ok is => is
  | .error _ => []

namespace Occurrence

/-- The indices at an occurrence; there are none in a code array that cannot be cut into
instructions. -/
def indices : Occurrence PoolIndex Bytes → List PoolIndex
  | .required i => [i]
  | .optional i => if i = 0 then [] else [i]
  | .code b =>
    match Bytecode.decode b with
    | .ok is => Bytecode.refs is
    | .error _ => []

/-- What is loaded with one byte at an occurrence. -/
def loads {ι β ρ : Type} (load : β → List ρ) : Occurrence ι β → List ρ
  | .code b => load b
  | _ => []

/-- The trees at an occurrence in a view. -/
def trees : Occurrence (Option ConstantTree) CodeView → List ConstantTree
  | .required t | .optional t => t.toList
  | .code v => Bytecode.refs v

end Occurrence

/-- What the code directly inside methods loads with one byte. -/
def ClassOf.methodLoads {ι β ρ : Type} (load : β → List ρ) (c : ClassOf ι β) : List ρ :=
  c.methods.flatMap fun m => m.attributes.flatMap fun a =>
    match a.body with
    | .code x => load x.code
    | _ => []

namespace ClassFile

/-- The indices that a class refers to from its header, its members, its attributes and its code, in
the order of the walk. -/
def references (c : ClassFile) : List PoolIndex := c.occurrences.flatMap Occurrence.indices

/-- The indices that a class loads with one byte, wherever the code stands. -/
def byteLoads (c : ClassFile) : List PoolIndex := c.occurrences.flatMap (Occurrence.loads Bytecode.loads)

end ClassFile

/-- What the code directly inside methods loads is loaded by the class. -/
theorem ClassOf.methodLoads_subset {ι β ρ : Type} (load : β → List ρ) (c : ClassOf ι β) :
    c.methodLoads load ⊆ c.occurrences.flatMap (Occurrence.loads load) := by
  intro i mem
  obtain ⟨m, method, mem⟩ := List.mem_flatMap.mp mem
  obtain ⟨⟨name, body⟩, inside, mem⟩ := List.mem_flatMap.mp mem
  cases body with
  | code x => exact List.mem_flatMap.mpr ⟨_, code_mem_occurrences method inside, mem⟩
  | _ => cases mem

/-- What is loaded with one byte is referred to. -/
theorem Bytecode.loads_subset (code : Bytes) :
    loads code ⊆ Occurrence.indices (.code code) := by
  intro i mem
  cases decoded : decode code with
  | error e =>
    rw [loads, narrowRefs, decoded] at mem
    cases mem
  | ok is =>
    rw [loads, narrowRefs_of_decode decoded] at mem
    rw [Occurrence.indices, decoded]
    obtain ⟨⟨opcode, constant, operands⟩, listed, found⟩ := List.mem_filterMap.mp mem
    refine List.mem_filterMap.mpr ⟨_, listed, ?_⟩
    rcases constant with _ | ⟨_ | _, k⟩
    · cases found
    · exact found
    · cases found

/-- What is loaded with one byte is referred to. -/
theorem ClassFile.byteLoads_subset (c : ClassFile) : c.byteLoads ⊆ c.references := by
  intro i mem
  obtain ⟨o, listed, mem⟩ := List.mem_flatMap.mp mem
  refine List.mem_flatMap.mpr ⟨o, listed, ?_⟩
  cases o with
  | code b => exact Bytecode.loads_subset b mem
  | _ => cases mem

section
variable {pool : ConstantPool}

/-- What code loads with one byte leads to what its view loads. -/
theorem ConstantPool.loads_of_codeView {code : Bytes} {v : CodeView} (h : pool.codeView code = .ok v) :
    List.Forall₂ (fun i t => pool.tree i = .ok t) (Bytecode.loads code) v.narrow := by
  obtain ⟨is, found, trees⟩ := narrow_of_codeView h
  rw [Bytecode.loads, found]
  exact trees

/-- The indices of a code array are looked up one by one. -/
theorem ConstantPool.refs_of_codeView {code : Bytes} {v : CodeView} (h : pool.codeView code = .ok v) :
    ∃ is, Bytecode.decode code = .ok is ∧
      List.Forall₂ (fun i t => pool.tree i = .ok t) (Bytecode.refs is) (Bytecode.refs v) := by
  obtain ⟨is, decoded, views⟩ := bind_eq_ok.mp h
  refine ⟨is, decoded, List.rel_filterMap (fun i j h => ?_) (mapM_eq_ok.mp views)⟩
  obtain ⟨opcode, constant, operands⟩ := i
  match constant with
  | none =>
    cases h
    exact .none
  | some (width, k) =>
    obtain ⟨t, ht, h⟩ := bind_eq_ok.mp h
    cases h
    exact .some ht

/-- The indices at an occurrence are looked up one by one. -/
theorem Occurrence.forall₂_trees {o : Occurrence PoolIndex Bytes}
    {p : Occurrence (Option ConstantTree) CodeView} (h : o.mapRef pool.viewMap = .ok p) :
    List.Forall₂ (fun i t => pool.tree i = .ok t) o.indices p.trees := by
  have required : ∀ {i k}, pool.requiredView i = .ok k →
      List.Forall₂ (fun i t => pool.tree i = .ok t) [i] k.toList := by
    intro i k h
    obtain ⟨t, ht, h⟩ := bind_eq_ok.mp h
    cases h
    exact .cons ht .nil
  cases o with
  | required i =>
    obtain ⟨k, hk, h⟩ := bind_eq_ok.mp h
    cases h
    exact required hk
  | optional i =>
    obtain ⟨k, hk, h⟩ := bind_eq_ok.mp h
    cases h
    have hk : (if i = 0 then .ok none else pool.requiredView i) = .ok k := hk
    by_cases zero : i = 0
    · rw [if_pos zero] at hk
      cases hk
      rw [indices, if_pos zero]
      exact .nil
    · rw [if_neg zero] at hk
      rw [indices, if_neg zero]
      exact required hk
  | code b =>
    obtain ⟨k, hk, h⟩ := bind_eq_ok.mp h
    cases h
    obtain ⟨is, decoded, trees⟩ := ConstantPool.refs_of_codeView hk
    rw [indices, decoded]
    exact trees

end

section
variable {c : ClassFile} {v : ClassView}

/-- **The references of a class lead to those of its view**, one by one. -/
theorem ClassFile.references_of_view (h : c.view = .ok v) :
    List.Forall₂ (fun i t => c.pool.tree i = .ok t) c.references
      (v.occurrences.flatMap Occurrence.trees) :=
  List.rel_flatMap (mapM_eq_ok.mp (ClassOf.occurrences_of_mapRefs h)) fun _ _ =>
    Occurrence.forall₂_trees

/-- What a class loads with one byte leads to what its view loads so. -/
theorem ClassFile.byteLoads_of_view (h : c.view = .ok v) :
    List.Forall₂ (fun i t => c.pool.tree i = .ok t) c.byteLoads
      (v.occurrences.flatMap (Occurrence.loads CodeView.narrow)) := by
  refine List.rel_flatMap (mapM_eq_ok.mp (ClassOf.occurrences_of_mapRefs h)) fun o p h => ?_
  cases o with
  | code b =>
    obtain ⟨k, hk, h⟩ := bind_eq_ok.mp h
    cases h
    exact ConstantPool.loads_of_codeView hk
  | _ =>
    obtain ⟨k, hk, h⟩ := bind_eq_ok.mp h
    cases h
    exact .nil

/-- What methods load with one byte leads to what their view loads so. -/
theorem ClassFile.methodLoads_of_view (h : c.view = .ok v) :
    List.Forall₂ (fun i t => c.pool.tree i = .ok t) (c.methodLoads Bytecode.loads)
      (v.methodLoads CodeView.narrow) := by
  obtain ⟨_, _, _, _, methods, _⟩ := ClassOf.parts_of_mapRefs h
  refine List.rel_flatMap (mapM_eq_ok.mp methods) fun m m' hm => ?_
  obtain ⟨_, _, _, attributes⟩ := MemberOf.parts_of_mapRefs hm
  refine List.rel_flatMap (mapM_eq_ok.mp attributes) ?_
  rintro ⟨name, body⟩ ⟨name', body'⟩ ha
  have ha := (AttributeOf.parts_of_mapRefs ha).2
  have kind := AttributeBodyOf.kind_of_mapRefs ha
  cases body with
  | code x =>
    rw [AttributeBodyOf.mapRefs] at ha
    obtain ⟨x', hx, ha⟩ := bind_eq_ok.mp ha
    cases ha
    exact ConstantPool.loads_of_codeView (CodeOf.code_of_mapRefs hx)
  | _ => cases body' <;> first | exact .nil | cases kind

end

end ProcessorBench
