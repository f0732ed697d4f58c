import ProcessorBench.ClassFile.Instruction
import ProcessorBench.ClassFile.References
import ProcessorBench.Proofs.Simulation

/-!
# Laws of replacing references

Two facts carry everything said here about walks over the references of a class.

`mapRefs_pure`: replacing each reference by itself gives the class back, so a walk loses nothing,
moves nothing and invents nothing.

`mapRefs_related`: two walks over one class are related when their steps are. What the relation says
of two replaced references is that they agree when looked at through two further maps, and then the
two replaced classes agree when those maps replace their references in turn. With one of the maps
the identity this relates a walk to a walk over its result; with both, it says that two walks give
the same class.
-/

namespace ProcessorBench

section
variable {m n l : Type → Type} [Monad m] [Monad n] [Monad l] {S : Simulation m n}
  {ι κ κ' τ : Type} {f : ι → m κ} {f' : ι → n κ'} {g : κ → l τ} {g' : κ' → l τ}

/-! ## Constants -/

/-- Replacing the references of a constant is related if replacing each of them is. -/
theorem ConstantOf.mapRefs_related (c : ConstantOf ι)
    (h : ∀ i ∈ c.refs, S.rel (fun a a' => g a = g' a') (f i) (f' i)) :
    S.rel (fun d d' => d.mapRefs g = d'.mapRefs g') (c.mapRefs f) (c.mapRefs f') := by
  cases c with
  | utf8 _ | integer _ | float _ | long _ | double _ => exact S.pure rfl
  | classInfo i | string i | methodType i | moduleInfo i | packageInfo i
  | methodHandle _ i | dynamic _ i | invokeDynamic _ i =>
    simp only [refs, List.mem_singleton, forall_eq] at h
    exact S.bind h fun _ _ => S.pure fun e => by simp only [mapRefs, e]
  | fieldRef i j | methodRef i j | interfaceMethodRef i j | nameAndType i j =>
    simp only [refs, List.mem_cons, List.not_mem_nil, or_false, forall_eq_or_imp, forall_eq] at h
    exact S.bind h.1 fun _ _ => S.bind h.2 fun _ _ => S.pure fun e e' => by simp only [mapRefs, e, e']

/-! ## Annotations -/

mutual

/-- Replacing the references of a value is related if replacing each of them is. -/
theorem ElementValueOf.mapRefs_related
    (h : ∀ i, S.rel (fun a a' => g a = g' a') (f i) (f' i)) : ∀ v : ElementValueOf ι,
    S.rel (fun d d' => d.mapRefs g = d'.mapRefs g') (v.mapRefs f) (v.mapRefs f')
  | .const tag value => by
    simp only [ElementValueOf.mapRefs]
    exact S.bind (h value) fun _ _ => S.pure fun e => by simp only [ElementValueOf.mapRefs, e]
  | .enumConst typeName constName => by
    simp only [ElementValueOf.mapRefs]
    exact S.bind (h typeName) fun _ _ => S.bind (h constName) fun _ _ => S.pure fun e e' => by
      simp only [ElementValueOf.mapRefs, e, e']
  | .classInfo descriptor => by
    simp only [ElementValueOf.mapRefs]
    exact S.bind (h descriptor) fun _ _ => S.pure fun e => by simp only [ElementValueOf.mapRefs, e]
  | .nested value => by
    simp only [ElementValueOf.mapRefs]
    exact S.bind (value.mapRefs_related h) fun _ _ => S.pure fun e => by
      simp only [ElementValueOf.mapRefs, e]
  | .array values => by
    simp only [ElementValueOf.mapRefs]
    exact S.bind (ElementValueOf.mapRefsList_related h values) fun _ _ => S.pure fun e => by
      simp only [ElementValueOf.mapRefs, e]

theorem ElementValueOf.mapRefsList_related
    (h : ∀ i, S.rel (fun a a' => g a = g' a') (f i) (f' i)) : ∀ vs : List (ElementValueOf ι),
    S.rel (fun d d' => ElementValueOf.mapRefsList g d = ElementValueOf.mapRefsList g' d')
      (ElementValueOf.mapRefsList f vs) (ElementValueOf.mapRefsList f' vs)
  | [] => S.pure rfl
  | v :: vs => by
    simp only [ElementValueOf.mapRefsList]
    exact S.bind (v.mapRefs_related h) fun _ _ =>
      S.bind (ElementValueOf.mapRefsList_related h vs) fun _ _ => S.pure fun e e' => by
        simp only [ElementValueOf.mapRefsList, e, e']

/-- Replacing the references of an annotation is related if replacing each of them is. -/
theorem AnnotationOf.mapRefs_related
    (h : ∀ i, S.rel (fun a a' => g a = g' a') (f i) (f' i)) : ∀ a : AnnotationOf ι,
    S.rel (fun d d' => d.mapRefs g = d'.mapRefs g') (a.mapRefs f) (a.mapRefs f')
  | ⟨type, elements⟩ => by
    simp only [AnnotationOf.mapRefs]
    exact S.bind (h type) fun _ _ => S.bind (ElementOf.mapRefsList_related h elements) fun _ _ =>
      S.pure fun e e' => by simp only [AnnotationOf.mapRefs, e, e']

theorem ElementOf.mapRefsList_related
    (h : ∀ i, S.rel (fun a a' => g a = g' a') (f i) (f' i)) : ∀ es : List (ElementOf ι),
    S.rel (fun d d' => ElementOf.mapRefsList g d = ElementOf.mapRefsList g' d')
      (ElementOf.mapRefsList f es) (ElementOf.mapRefsList f' es)
  | [] => S.pure rfl
  | e :: es => by
    simp only [ElementOf.mapRefsList]
    exact S.bind (e.mapRefs_related h) fun _ _ =>
      S.bind (ElementOf.mapRefsList_related h es) fun _ _ => S.pure fun e e' => by
        simp only [ElementOf.mapRefsList, e, e']

theorem ElementOf.mapRefs_related
    (h : ∀ i, S.rel (fun a a' => g a = g' a') (f i) (f' i)) : ∀ e : ElementOf ι,
    S.rel (fun d d' => d.mapRefs g = d'.mapRefs g') (e.mapRefs f) (e.mapRefs f')
  | ⟨name, value⟩ => by
    simp only [ElementOf.mapRefs]
    exact S.bind (h name) fun _ _ => S.bind (value.mapRefs_related h) fun _ _ =>
      S.pure fun e e' => by simp only [ElementOf.mapRefs, e, e']

end

/-- Replacing the references of an annotation of a type is related if replacing each of them is. -/
theorem TypeAnnotationOf.mapRefs_related [LawfulMonad l]
    (h : ∀ i, S.rel (fun a a' => g a = g' a') (f i) (f' i)) (a : TypeAnnotationOf ι) :
    S.rel (fun d d' => d.mapRefs g = d'.mapRefs g') (a.mapRefs f) (a.mapRefs f') := by
  simp only [TypeAnnotationOf.mapRefs]
  exact S.bind (a.content.mapRefs_related h) fun _ _ => S.pure fun e => by
    simp only [e]

end

/-! ## Attributes, members, classes -/

section
variable {m n l : Type → Type} [Monad m] [Monad n] [Monad l] {ι κ κ' τ β γ γ' δ : Type}

/-- The steps of two walks are related, where the results of the first are looked at through `g` and
those of the second through `g'`. -/
structure RefMap.Related (S : Simulation m n) (f : RefMap m ι κ β γ) (f' : RefMap n ι κ' β γ')
    (g : RefMap l κ τ γ δ) (g' : RefMap l κ' τ γ' δ) : Prop where
  required : ∀ i, S.rel (fun a a' => g.required a = g'.required a') (f.required i) (f'.required i)
  optional : ∀ i, S.rel (fun a a' => g.optional a = g'.optional a') (f.optional i) (f'.optional i)
  code : ∀ b, S.rel (fun a a' => g.code a = g'.code a') (f.code b) (f'.code b)

variable {S : Simulation m n} {f : RefMap m ι κ β γ} {f' : RefMap n ι κ' β γ'}
  {g : RefMap l κ τ γ δ} {g' : RefMap l κ' τ γ' δ}

theorem ExceptionHandlerOf.mapRefs_related (h : RefMap.Related S f f' g g')
    (x : ExceptionHandlerOf ι) :
    S.rel (fun d d' => d.mapRefs g = d'.mapRefs g') (x.mapRefs f) (x.mapRefs f') :=
  S.bind (h.optional x.catchType) fun _ _ => S.pure fun e => by
    simp only [ExceptionHandlerOf.mapRefs, e]

theorem InnerClassOf.mapRefs_related (h : RefMap.Related S f f' g g') (x : InnerClassOf ι) :
    S.rel (fun d d' => d.mapRefs g = d'.mapRefs g') (x.mapRefs f) (x.mapRefs f') :=
  S.bind (h.required x.inner) fun _ _ => S.bind (h.optional x.outer) fun _ _ =>
    S.bind (h.optional x.name) fun _ _ => S.pure fun e₁ e₂ e₃ => by
      simp only [InnerClassOf.mapRefs, e₁, e₂, e₃]

variable [LawfulMonad m] [LawfulMonad n] [LawfulMonad l]

theorem BootstrapMethodOf.mapRefs_related (h : RefMap.Related S f f' g g')
    (x : BootstrapMethodOf ι) :
    S.rel (fun d d' => d.mapRefs g = d'.mapRefs g') (x.mapRefs f) (x.mapRefs f') :=
  S.bind (h.required x.handle) fun _ _ => S.bind (S.mapM h.required x.arguments) fun _ _ =>
    S.pure fun e e' => by simp only [BootstrapMethodOf.mapRefs, e, e']

-- Of the theorems below some walk over no list, and those do not need the laws of the monads.
set_option linter.unusedSectionVars false

mutual

/-- Replacing the references of a body is related if replacing each kind of them is. -/
theorem AttributeBodyOf.mapRefs_related (h : RefMap.Related S f f' g g') :
    ∀ x : AttributeBodyOf ι β,
    S.rel (fun d d' => d.mapRefs g = d'.mapRefs g') (x.mapRefs f) (x.mapRefs f')
  | .code code => by
    simp only [AttributeBodyOf.mapRefs]
    exact S.bind (code.mapRefs_related h) fun _ _ => S.pure fun e => by
      simp only [AttributeBodyOf.mapRefs, e]
  | .constantValue i => by
    simp only [AttributeBodyOf.mapRefs]
    exact S.bind (h.required i) fun _ _ => S.pure fun e => by simp only [AttributeBodyOf.mapRefs, e]
  | .exceptions is => by
    simp only [AttributeBodyOf.mapRefs]
    exact S.bind (S.mapM h.required is) fun _ _ => S.pure fun e => by
      simp only [AttributeBodyOf.mapRefs, e]
  | .signature i => by
    simp only [AttributeBodyOf.mapRefs]
    exact S.bind (h.required i) fun _ _ => S.pure fun e => by simp only [AttributeBodyOf.mapRefs, e]
  | .sourceFile i => by
    simp only [AttributeBodyOf.mapRefs]
    exact S.bind (h.required i) fun _ _ => S.pure fun e => by simp only [AttributeBodyOf.mapRefs, e]
  | .innerClasses cs => by
    simp only [AttributeBodyOf.mapRefs]
    exact S.bind (S.mapM (InnerClassOf.mapRefs_related h) cs) fun _ _ => S.pure fun e => by
      simp only [AttributeBodyOf.mapRefs, e]
  | .enclosingMethod i j => by
    simp only [AttributeBodyOf.mapRefs]
    exact S.bind (h.required i) fun _ _ => S.bind (h.optional j) fun _ _ => S.pure fun e e' => by
      simp only [AttributeBodyOf.mapRefs, e, e']
  | .nestHost i => by
    simp only [AttributeBodyOf.mapRefs]
    exact S.bind (h.required i) fun _ _ => S.pure fun e => by simp only [AttributeBodyOf.mapRefs, e]
  | .nestMembers is => by
    simp only [AttributeBodyOf.mapRefs]
    exact S.bind (S.mapM h.required is) fun _ _ => S.pure fun e => by
      simp only [AttributeBodyOf.mapRefs, e]
  | .permittedSubclasses is => by
    simp only [AttributeBodyOf.mapRefs]
    exact S.bind (S.mapM h.required is) fun _ _ => S.pure fun e => by
      simp only [AttributeBodyOf.mapRefs, e]
  | .bootstrapMethods bs => by
    simp only [AttributeBodyOf.mapRefs]
    exact S.bind (S.mapM (BootstrapMethodOf.mapRefs_related h) bs) fun _ _ => S.pure fun e => by
      simp only [AttributeBodyOf.mapRefs, e]
  | .record cs => by
    simp only [AttributeBodyOf.mapRefs]
    exact S.bind (RecordComponentOf.mapRefsList_related h cs) fun _ _ => S.pure fun e => by
      simp only [AttributeBodyOf.mapRefs, e]
  | .annotationDefault v => by
    simp only [AttributeBodyOf.mapRefs]
    exact S.bind (v.mapRefs_related h.required) fun _ _ => S.pure fun e => by
      simp only [AttributeBodyOf.mapRefs, e]
  | .annotations as => by
    simp only [AttributeBodyOf.mapRefs]
    exact S.bind (S.mapM (AnnotationOf.mapRefs_related h.required) as) fun _ _ =>
      S.pure fun e => by simp only [AttributeBodyOf.mapRefs, e]
  | .parameterAnnotations ps => by
    simp only [AttributeBodyOf.mapRefs]
    exact S.bind (S.mapM (S.mapM (AnnotationOf.mapRefs_related h.required)) ps) fun _ _ =>
      S.pure fun e => by simp only [AttributeBodyOf.mapRefs, e]
  | .typeAnnotations as => by
    simp only [AttributeBodyOf.mapRefs]
    exact S.bind (S.mapM (TypeAnnotationOf.mapRefs_related h.required) as) fun _ _ =>
      S.pure fun e => by simp only [AttributeBodyOf.mapRefs, e]
  | .marker => by
    simp only [AttributeBodyOf.mapRefs]
    exact S.pure (by simp only [AttributeBodyOf.mapRefs])
  | .raw bytes => by
    simp only [AttributeBodyOf.mapRefs]
    exact S.pure (by simp only [AttributeBodyOf.mapRefs])

/-- Replacing the references of an attribute is related if replacing each kind of them is. -/
theorem AttributeOf.mapRefs_related (h : RefMap.Related S f f' g g') : ∀ x : AttributeOf ι β,
    S.rel (fun d d' => d.mapRefs g = d'.mapRefs g') (x.mapRefs f) (x.mapRefs f')
  | ⟨name, body⟩ => by
    simp only [AttributeOf.mapRefs]
    exact S.bind (h.required name) fun _ _ => S.bind (body.mapRefs_related h) fun _ _ =>
      S.pure fun e e' => by simp only [AttributeOf.mapRefs, e, e']

theorem AttributeOf.mapRefsList_related (h : RefMap.Related S f f' g g') :
    ∀ xs : List (AttributeOf ι β),
    S.rel (fun d d' => AttributeOf.mapRefsList g d = AttributeOf.mapRefsList g' d')
      (AttributeOf.mapRefsList f xs) (AttributeOf.mapRefsList f' xs)
  | [] => S.pure rfl
  | x :: xs => by
    simp only [AttributeOf.mapRefsList]
    exact S.bind (x.mapRefs_related h) fun _ _ =>
      S.bind (AttributeOf.mapRefsList_related h xs) fun _ _ => S.pure fun e e' => by
        simp only [AttributeOf.mapRefsList, e, e']

/-- Replacing the references of code is related if replacing each kind of them is. -/
theorem CodeOf.mapRefs_related (h : RefMap.Related S f f' g g') : ∀ x : CodeOf ι β,
    S.rel (fun d d' => d.mapRefs g = d'.mapRefs g') (x.mapRefs f) (x.mapRefs f')
  | ⟨maxStack, maxLocals, code, handlers, attributes⟩ => by
    simp only [CodeOf.mapRefs]
    exact S.bind (h.code code) fun _ _ =>
      S.bind (S.mapM (ExceptionHandlerOf.mapRefs_related h) handlers) fun _ _ =>
        S.bind (AttributeOf.mapRefsList_related h attributes) fun _ _ => S.pure fun e₁ e₂ e₃ => by
          simp only [CodeOf.mapRefs, e₁, e₂, e₃]

/-- Replacing the references of a component of a record is related if replacing each kind of them is. -/
theorem RecordComponentOf.mapRefs_related (h : RefMap.Related S f f' g g') :
    ∀ x : RecordComponentOf ι β,
    S.rel (fun d d' => d.mapRefs g = d'.mapRefs g') (x.mapRefs f) (x.mapRefs f')
  | ⟨name, descriptor, attributes⟩ => by
    simp only [RecordComponentOf.mapRefs]
    exact S.bind (h.required name) fun _ _ => S.bind (h.required descriptor) fun _ _ =>
      S.bind (AttributeOf.mapRefsList_related h attributes) fun _ _ => S.pure fun e₁ e₂ e₃ => by
        simp only [RecordComponentOf.mapRefs, e₁, e₂, e₃]

theorem RecordComponentOf.mapRefsList_related (h : RefMap.Related S f f' g g') :
    ∀ xs : List (RecordComponentOf ι β),
    S.rel (fun d d' => RecordComponentOf.mapRefsList g d = RecordComponentOf.mapRefsList g' d')
      (RecordComponentOf.mapRefsList f xs) (RecordComponentOf.mapRefsList f' xs)
  | [] => S.pure rfl
  | x :: xs => by
    simp only [RecordComponentOf.mapRefsList]
    exact S.bind (x.mapRefs_related h) fun _ _ =>
      S.bind (RecordComponentOf.mapRefsList_related h xs) fun _ _ => S.pure fun e e' => by
        simp only [RecordComponentOf.mapRefsList, e, e']

end

/-- Replacing the references of a member is related if replacing each kind of them is. -/
theorem MemberOf.mapRefs_related (h : RefMap.Related S f f' g g') (x : MemberOf ι β) :
    S.rel (fun d d' => d.mapRefs g = d'.mapRefs g') (x.mapRefs f) (x.mapRefs f') :=
  S.bind (h.required x.name) fun _ _ => S.bind (h.required x.descriptor) fun _ _ =>
    S.bind (AttributeOf.mapRefsList_related h x.attributes) fun _ _ => S.pure fun e₁ e₂ e₃ => by
      simp only [MemberOf.mapRefs, e₁, e₂, e₃]

/-- **Related steps give related walks**: what two walks over one class make of it agrees, looked at
through `g` and `g'`, when what they make of each reference and each code array does. -/
theorem ClassOf.mapRefs_related (h : RefMap.Related S f f' g g') (c : ClassOf ι β) :
    S.rel (fun d d' => d.mapRefs g = d'.mapRefs g') (c.mapRefs f) (c.mapRefs f') :=
  S.bind (h.required c.thisClass) fun _ _ => S.bind (h.optional c.superClass) fun _ _ =>
    S.bind (S.mapM h.required c.interfaces) fun _ _ =>
      S.bind (S.mapM (MemberOf.mapRefs_related h) c.fields) fun _ _ =>
        S.bind (S.mapM (MemberOf.mapRefs_related h) c.methods) fun _ _ =>
          S.bind (AttributeOf.mapRefsList_related h c.attributes) fun _ _ =>
            S.pure fun e₁ e₂ e₃ e₄ e₅ e₆ => by
              simp only [ClassOf.mapRefs, e₁, e₂, e₃, e₄, e₅, e₆]

end

/-! ## The walk that changes nothing -/

section
variable {l : Type → Type} [Monad l] [LawfulMonad l] {ι β : Type}

/-- Replacing each reference of a constant by itself changes nothing. -/
@[simp] theorem ConstantOf.mapRefs_pure (c : ConstantOf ι) : c.mapRefs (pure : ι → l ι) = pure c := by
  cases c <;> simp [ConstantOf.mapRefs]

section
variable {m n : Type → Type} [Monad m] [Monad n] [LawfulMonad n] (S : Simulation m n) {κ κ' τ : Type}

omit [LawfulMonad l] in
/-- A walk over a constant beside doing nothing. -/
theorem ConstantOf.mapRefs_over {f : ι → m κ} (g : κ → l τ) (g' : ι → l τ) {c : ConstantOf ι}
    (h : ∀ i ∈ c.refs, S.rel (fun a i' => g a = g' i') (f i) (pure i)) :
    S.rel (fun d c' => d.mapRefs g = c'.mapRefs g') (c.mapRefs f) (pure c) := by
  have walk := c.mapRefs_related h
  rwa [ConstantOf.mapRefs_pure] at walk

/-- Two walks over a constant give the same when their steps do. -/
theorem ConstantOf.mapRefs_same [LawfulMonad m] {f : ι → m κ} {f' : ι → n κ} {c : ConstantOf ι}
    (h : ∀ i ∈ c.refs, S.rel (fun a a' => a = a') (f i) (f' i)) :
    S.rel (fun d d' => d = d') (c.mapRefs f) (c.mapRefs f') := by
  have walk := c.mapRefs_related fun i mem => S.mono (h i mem) fun _ _ => congrArg (pure : κ → Id κ)
  simp only [ConstantOf.mapRefs_pure] at walk
  exact walk

end

mutual

/-- Replacing each reference of a value by itself changes nothing. -/
theorem ElementValueOf.mapRefs_pure : ∀ v : ElementValueOf ι, v.mapRefs (pure : ι → l ι) = pure v
  | .const .. | .enumConst .. | .classInfo _ => by simp [ElementValueOf.mapRefs]
  | .nested value => by simp [ElementValueOf.mapRefs, value.mapRefs_pure]
  | .array values => by simp [ElementValueOf.mapRefs, ElementValueOf.mapRefsList_pure values]

theorem ElementValueOf.mapRefsList_pure : ∀ vs : List (ElementValueOf ι),
    ElementValueOf.mapRefsList (pure : ι → l ι) vs = pure vs
  | [] => rfl
  | v :: vs => by
    simp [ElementValueOf.mapRefsList, v.mapRefs_pure, ElementValueOf.mapRefsList_pure vs]

theorem AnnotationOf.mapRefs_pure : ∀ a : AnnotationOf ι, a.mapRefs (pure : ι → l ι) = pure a
  | ⟨_, elements⟩ => by simp [AnnotationOf.mapRefs, ElementOf.mapRefsList_pure elements]

theorem ElementOf.mapRefsList_pure : ∀ es : List (ElementOf ι),
    ElementOf.mapRefsList (pure : ι → l ι) es = pure es
  | [] => rfl
  | e :: es => by simp [ElementOf.mapRefsList, e.mapRefs_pure, ElementOf.mapRefsList_pure es]

theorem ElementOf.mapRefs_pure : ∀ e : ElementOf ι, e.mapRefs (pure : ι → l ι) = pure e
  | ⟨_, value⟩ => by simp [ElementOf.mapRefs, value.mapRefs_pure]

end

/-- The steps that change nothing. -/
def RefMap.id (l : Type → Type) [Monad l] (ι β : Type) : RefMap l ι ι β β := ⟨pure, pure, pure⟩

omit [LawfulMonad l] in
@[simp] theorem RefMap.id_required : (RefMap.id l ι β).required = pure := rfl

omit [LawfulMonad l] in
@[simp] theorem RefMap.id_optional : (RefMap.id l ι β).optional = pure := rfl

omit [LawfulMonad l] in
@[simp] theorem RefMap.id_code : (RefMap.id l ι β).code = pure := rfl

@[simp] theorem mapM_pure_self {α : Type} (as : List α) : as.mapM (pure : α → l α) = pure as := by
  rw [List.mapM_pure, List.map_id']

/-- A walk over a list whose steps change nothing changes nothing. -/
theorem mapM_eq_pure {α : Type} {g : α → l α} (h : ∀ a, g a = pure a) (as : List α) :
    as.mapM g = pure as := by
  rw [funext h, List.mapM_pure, List.map_id']

mutual

/-- Replacing each reference of a body by itself changes nothing. -/
theorem AttributeBodyOf.mapRefs_pure : ∀ x : AttributeBodyOf ι β,
    x.mapRefs (RefMap.id l ι β) = pure x
  | .code code => by simp [AttributeBodyOf.mapRefs, code.mapRefs_pure]
  | .constantValue _ | .signature _ | .sourceFile _ | .enclosingMethod .. | .nestHost _ => by
    simp [AttributeBodyOf.mapRefs]
  | .exceptions is | .nestMembers is | .permittedSubclasses is => by
    simp [AttributeBodyOf.mapRefs]
  | .innerClasses cs => by
    simp [AttributeBodyOf.mapRefs,
      mapM_eq_pure (g := (·.mapRefs (RefMap.id l ι β)))
        (fun c => by simp [InnerClassOf.mapRefs]) cs]
  | .bootstrapMethods bs => by
    simp [AttributeBodyOf.mapRefs,
      mapM_eq_pure (g := (·.mapRefs (RefMap.id l ι β)))
        (fun b => by simp [BootstrapMethodOf.mapRefs]) bs]
  | .record cs => by simp [AttributeBodyOf.mapRefs, RecordComponentOf.mapRefsList_pure cs]
  | .annotationDefault v => by
    simp [AttributeBodyOf.mapRefs, v.mapRefs_pure]
  | .annotations as => by
    simp [AttributeBodyOf.mapRefs, mapM_eq_pure AnnotationOf.mapRefs_pure as]
  | .parameterAnnotations ps => by
    simp [AttributeBodyOf.mapRefs, RefMap.id,
      mapM_eq_pure (mapM_eq_pure AnnotationOf.mapRefs_pure) ps]
  | .typeAnnotations as => by
    simp [AttributeBodyOf.mapRefs, RefMap.id,
      mapM_eq_pure (g := TypeAnnotationOf.mapRefs (pure : ι → l ι))
        (fun a => by simp [TypeAnnotationOf.mapRefs, a.content.mapRefs_pure]) as]
  | .marker | .raw _ => by simp [AttributeBodyOf.mapRefs]

/-- Replacing each reference of an attribute by itself changes nothing. -/
theorem AttributeOf.mapRefs_pure : ∀ x : AttributeOf ι β, x.mapRefs (RefMap.id l ι β) = pure x
  | ⟨_, body⟩ => by simp [AttributeOf.mapRefs, body.mapRefs_pure]

theorem AttributeOf.mapRefsList_pure : ∀ xs : List (AttributeOf ι β),
    AttributeOf.mapRefsList (RefMap.id l ι β) xs = pure xs
  | [] => rfl
  | x :: xs => by simp [AttributeOf.mapRefsList, x.mapRefs_pure, AttributeOf.mapRefsList_pure xs]

/-- Replacing each reference of code by itself changes nothing. -/
theorem CodeOf.mapRefs_pure : ∀ x : CodeOf ι β, x.mapRefs (RefMap.id l ι β) = pure x
  | ⟨_, _, _, handlers, attributes⟩ => by
    simp [CodeOf.mapRefs, AttributeOf.mapRefsList_pure attributes,
      mapM_eq_pure (g := (·.mapRefs (RefMap.id l ι β)))
        (fun h => by simp [ExceptionHandlerOf.mapRefs]) handlers]

theorem RecordComponentOf.mapRefs_pure : ∀ x : RecordComponentOf ι β,
    x.mapRefs (RefMap.id l ι β) = pure x
  | ⟨_, _, attributes⟩ => by
    simp [RecordComponentOf.mapRefs, AttributeOf.mapRefsList_pure attributes]

theorem RecordComponentOf.mapRefsList_pure : ∀ xs : List (RecordComponentOf ι β),
    RecordComponentOf.mapRefsList (RefMap.id l ι β) xs = pure xs
  | [] => rfl
  | x :: xs => by
    simp [RecordComponentOf.mapRefsList, x.mapRefs_pure, RecordComponentOf.mapRefsList_pure xs]

end

/-- Replacing each reference of a member by itself changes nothing. -/
theorem MemberOf.mapRefs_pure (x : MemberOf ι β) : x.mapRefs (RefMap.id l ι β) = pure x := by
  simp [MemberOf.mapRefs, AttributeOf.mapRefsList_pure]

/-- **Replacing each reference by itself gives the class back.** -/
theorem ClassOf.mapRefs_pure (c : ClassOf ι β) : c.mapRefs (RefMap.id l ι β) = pure c := by
  simp [ClassOf.mapRefs, AttributeOf.mapRefsList_pure, mapM_eq_pure MemberOf.mapRefs_pure]

end

/-! ## Two walks in a row -/

/-- What is said of the result of a step that can fail is said if it has one. -/
def Simulation.result (ε : Type) : Simulation (Except ε) Id where
  rel r x a' := ∀ a, x = .ok a → r a a'
  pure h a e := by
    cases e
    exact h
  bind hx hk c e := by
    obtain ⟨a, ha, e⟩ := bind_eq_ok.mp e
    exact hk a _ c e (hx a ha)

section
variable {l : Type → Type} [Monad l] [LawfulMonad l] {ε ι κ τ β γ δ : Type}

/-- A walk over what a walk has made of a constant is one walk. -/
theorem ConstantOf.mapRefs_bind (lift : {α : Type} → Except ε α → l α)
    (lift_ok : ∀ {α : Type} (a : α), lift (.ok a) = pure a) {f : ι → Except ε κ} {g : κ → l τ}
    {c : ConstantOf ι} {d : ConstantOf κ} (h : c.mapRefs f = .ok d) :
    d.mapRefs g = c.mapRefs fun i => lift (f i) >>= g := by
  have step : ∀ i a, f i = .ok a → g a = lift (f i) >>= g := fun i a ha => by
    rw [ha, lift_ok, pure_bind]
  exact ConstantOf.mapRefs_over (Simulation.result ε) g (fun i => lift (f i) >>= g)
    (fun i _ => step i) d h

/-- A walk over what a walk has made of a run of instructions is one walk. -/
theorem mapM_mapRef_bind (lift : {α : Type} → Except ε α → l α)
    (lift_ok : ∀ {α : Type} (a : α), lift (.ok a) = pure a) {f : OperandWidth → ι → Except ε κ}
    {g : OperandWidth → κ → l τ} {is : List (InstructionOf ι)} {js : List (InstructionOf κ)}
    (h : is.mapM (·.mapRef f) = .ok js) :
    js.mapM (·.mapRef g) = is.mapM (·.mapRef fun width i => lift (f width i) >>= g width) := by
  have step : ∀ (i : InstructionOf ι) (j : InstructionOf κ), i.mapRef f = .ok j →
      j.mapRef g = i.mapRef fun width i => lift (f width i) >>= g width := by
    rintro ⟨opcode, constant, operands⟩ j h
    match constant with
    | none =>
      cases h
      rfl
    | some (width, i) =>
      obtain ⟨k, hk, h⟩ := bind_eq_ok.mp h
      cases h
      simp only [InstructionOf.mapRef, hk, lift_ok, pure_bind]
  exact (mapM_congr ((mapM_eq_ok.mp h).imp fun i j hj => (step i j hj).symm)).symm

/-- The steps of one walk and then those of another. -/
def RefMap.andThen (lift : {α : Type} → Except ε α → l α) (f : RefMap (Except ε) ι κ β γ)
    (g : RefMap l κ τ γ δ) : RefMap l ι τ β δ where
  required i := lift (f.required i) >>= g.required
  optional i := lift (f.optional i) >>= g.optional
  code b := lift (f.code b) >>= g.code

/-- A walk over what a walk has made of a class is one walk, if it is so for each step. -/
theorem ClassOf.mapRefs_eq {f : RefMap (Except ε) ι κ β γ} {g : RefMap l κ τ γ δ}
    {k : RefMap l ι τ β δ}
    (required : ∀ i a, f.required i = .ok a → g.required a = k.required i)
    (optional : ∀ i a, f.optional i = .ok a → g.optional a = k.optional i)
    (code : ∀ b a, f.code b = .ok a → g.code a = k.code b) {c : ClassOf ι β} {d : ClassOf κ γ}
    (h : c.mapRefs f = .ok d) : d.mapRefs g = c.mapRefs k := by
  have related : RefMap.Related (Simulation.result ε) f (RefMap.id Id ι β) g k :=
    ⟨required, optional, code⟩
  have walk := ClassOf.mapRefs_related related c
  simp only [ClassOf.mapRefs_pure] at walk
  exact walk d h

/-- **A walk over what a walk has made of a class is one walk.** -/
theorem ClassOf.mapRefs_bind (lift : {α : Type} → Except ε α → l α)
    (lift_ok : ∀ {α : Type} (a : α), lift (.ok a) = pure a) {f : RefMap (Except ε) ι κ β γ}
    {g : RefMap l κ τ γ δ} {c : ClassOf ι β} {d : ClassOf κ γ} (h : c.mapRefs f = .ok d) :
    d.mapRefs g = c.mapRefs (f.andThen lift g) := by
  have step : ∀ {α ω : Type} (x : Except ε α) (k : α → l ω) a, x = .ok a → k a = lift x >>= k :=
    fun x k a ha => by rw [ha, lift_ok, pure_bind]
  exact mapRefs_eq (fun i => step _ _) (fun i => step _ _) (fun b => step _ _) h

end

end ProcessorBench
