import Mathlib.Data.List.Forall2

/-!
# Opening steps that can fail

A step that succeeds is taken apart bind by bind: what came first succeeded, and what followed
succeeded on its result. The laws are stated for a step without state and for a step with one, and
for a list of steps without state.
-/

namespace ProcessorBench

variable {ε σ α β : Type}

/-- Two steps in a row succeed when the first does and the second does on its result. -/
theorem bind_eq_ok {x : Except ε α} {k : α → Except ε β} {b : β} :
    (x >>= k) = .ok b ↔ ∃ a, x = .ok a ∧ k a = .ok b := by
  cases x with
  | error e =>
    constructor
    · intro h
      cases h
    · rintro ⟨_, h, _⟩
      cases h
  | ok a =>
    constructor
    · exact fun h => ⟨a, rfl, h⟩
    · rintro ⟨_, h, h'⟩
      cases h
      exact h'

/-- Two checks in a row pass when both do. -/
theorem andThen_eq_ok {x : Except ε Unit} {y : Except ε β} {b : β} :
    (x >>= fun _ => y) = .ok b ↔ x = .ok () ∧ y = .ok b := by
  rw [bind_eq_ok]
  constructor
  · rintro ⟨_, first, last⟩
    exact ⟨first, last⟩
  · rintro ⟨first, last⟩
    exact ⟨(), first, last⟩

@[simp] theorem ok_bind (a : α) (k : α → Except ε β) : (Except.ok a >>= k) = k a := rfl

@[simp] theorem error_bind (e : ε) (k : α → Except ε β) : (Except.error e >>= k) = .error e := rfl

/-- Two steps in a row fail when the first does, or the second on its result. -/
theorem bind_eq_error {x : Except ε α} {k : α → Except ε β} {e : ε} :
    (x >>= k) = .error e ↔ x = .error e ∨ ∃ a, x = .ok a ∧ k a = .error e := by
  cases x <;> simp

theorem mapError_eq_ok {ε' : Type} {f : ε → ε'} {x : Except ε α} {a : α} :
    x.mapError f = .ok a ↔ x = .ok a := by
  cases x <;> simp [Except.mapError]

theorem mapError_eq_error {ε' : Type} {f : ε → ε'} {x : Except ε α} {e' : ε'} :
    x.mapError f = .error e' ↔ ∃ e, x = .error e ∧ f e = e' := by
  cases x <;> simp [Except.mapError]

/-- Two steps in a row with a state. -/
theorem stateBind_eq_ok {x : StateT σ (Except ε) α} {k : α → StateT σ (Except ε) β} {s s' : σ}
    {b : β} : (x >>= k) s = .ok (b, s') ↔ ∃ a t, x s = .ok (a, t) ∧ k a t = .ok (b, s') := by
  refine bind_eq_ok.trans ⟨?_, ?_⟩
  · rintro ⟨⟨a, t⟩, h, h'⟩
    exact ⟨a, t, h, h'⟩
  · rintro ⟨a, t, h, h'⟩
    exact ⟨(a, t), h, h'⟩

theorem stateBind_of_ok {x : StateT σ (Except ε) α} {s t : σ} {a : α} (h : x s = .ok (a, t))
    (k : α → StateT σ (Except ε) β) : (x >>= k) s = k a t := by
  show (x s >>= fun p => k p.1 p.2) = k a t
  rw [h]
  rfl

theorem stateBind_of_error {x : StateT σ (Except ε) α} {s : σ} {e : ε} (h : x s = .error e)
    (k : α → StateT σ (Except ε) β) : (x >>= k) s = .error e := by
  show (x s >>= fun p => k p.1 p.2) = .error e
  rw [h]
  rfl

/-- Looking at a state and going on. -/
theorem stateGet_bind (k : σ → StateT σ (Except ε) β) (s : σ) :
    ((get : StateT σ (Except ε) σ) >>= k) s = k s s := rfl

@[simp] theorem liftM_ok (a : α) :
    (liftM (Except.ok a : Except ε α) : StateT σ (Except ε) α) = pure a := rfl

/-- A list of steps succeeds when each does. -/
theorem mapM_eq_ok {f : α → Except ε β} {as : List α} {bs : List β} :
    as.mapM f = .ok bs ↔ List.Forall₂ (fun a b => f a = .ok b) as bs := by
  induction as generalizing bs with
  | nil => exact ⟨fun h => by cases h; exact .nil, fun h => by cases h; rfl⟩
  | cons a as ih =>
    rw [List.mapM_cons]
    constructor
    · intro h
      obtain ⟨b, hb, h⟩ := bind_eq_ok.mp h
      obtain ⟨bs', hbs, h⟩ := bind_eq_ok.mp h
      cases h
      exact .cons hb (ih.mp hbs)
    · intro h
      cases h with
      | cons hb hbs => rw [hb, ok_bind, ih.mpr hbs]; rfl

/-- Two lists related one by one to a third are related one by one. -/
theorem forall₂_trans {γ : Type} {r : α → β → Prop} {q : β → γ → Prop} {p : α → γ → Prop}
    (trans : ∀ a b c, r a b → q b c → p a c) {as : List α} {bs : List β} {cs : List γ}
    (h : List.Forall₂ r as bs) (h' : List.Forall₂ q bs cs) : List.Forall₂ p as cs := by
  induction h generalizing cs with
  | nil =>
    cases h'
    exact .nil
  | cons head _ ih =>
    cases h' with
    | cons head' tail' => exact .cons (trans _ _ _ head head') (ih tail')

/-- Walks over two lists are one walk when their steps are, one by one. -/
theorem mapM_congr {m : Type → Type} [Monad m] [LawfulMonad m] {γ : Type} {f : α → m γ} {g : β → m γ}
    {as : List α} {bs : List β} (h : List.Forall₂ (fun a b => f a = g b) as bs) :
    as.mapM f = bs.mapM g := by
  induction h with
  | nil => rfl
  | cons head _ ih => rw [List.mapM_cons, List.mapM_cons, head, ih]

theorem forM_congr {m : Type → Type} [Monad m] {f : α → m PUnit} {g : β → m PUnit} {as : List α}
    {bs : List β} (h : List.Forall₂ (fun a b => f a = g b) as bs) : as.forM f = bs.forM g := by
  induction h with
  | nil => rfl
  | @cons a b as bs head _ ih =>
    show (f a >>= fun _ => as.forM f) = g b >>= fun _ => bs.forM g
    rw [head, ih]

/-- A walk over a list that gives nothing succeeds when each of its steps does. -/
theorem forM_eq_ok {f : α → Except ε Unit} {as : List α} :
    forM as f = .ok () ↔ ∀ a ∈ as, f a = .ok () := by
  induction as with
  | nil => simp [pure, Except.pure]
  | cons a as ih => rw [List.forM_cons, andThen_eq_ok, List.forall_mem_cons, ih]

/-- What holds of two lists one by one holds of all of the one if of all of the other. -/
theorem forall_mem_congr {r : α → Prop} {q : β → Prop} {as : List α} {bs : List β}
    (h : List.Forall₂ (fun a b => q b ↔ r a) as bs) : (∀ b ∈ bs, q b) ↔ ∀ a ∈ as, r a := by
  induction h with
  | nil => simp
  | cons head _ ih => rw [List.forall_mem_cons, List.forall_mem_cons, head, ih]

theorem exists_mem_of_forall₂ {r : α → β → Prop} {as : List α} {bs : List β}
    (h : List.Forall₂ r as bs) {a : α} (mem : a ∈ as) : ∃ b ∈ bs, r a b := by
  induction h with
  | nil => cases mem
  | @cons a' b as bs head tail ih =>
    rcases List.mem_cons.mp mem with rfl | mem
    · exact ⟨b, List.mem_cons_self, head⟩
    · obtain ⟨b', hb', h⟩ := ih mem
      exact ⟨b', List.mem_cons_of_mem _ hb', h⟩

end ProcessorBench
