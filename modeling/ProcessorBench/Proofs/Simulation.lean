import ProcessorBench.Proofs.Steps

/-!
# Computations side by side

Two walks over one structure are compared step by step: if their steps are related, so are the
walks, and whatever the relation says of the results of the steps it says of the results of the
walks. A `Simulation` is such a relation between the computations of two monads. It need only
respect what a walk is made of, a value that is there already and two computations in a row; the
rest of a walk goes on whatever its first part gives, so the second law asks for the continuations
on all results and lets the relation of the first results stand as a premise of what is said about
the last ones.
-/

namespace ProcessorBench

/-- A relation between the computations of two monads, given a relation between their results. -/
structure Simulation (m n : Type → Type) [Monad m] [Monad n] where
  rel : {α α' : Type} → (α → α' → Prop) → m α → n α' → Prop
  pure : ∀ {α α' : Type} {r : α → α' → Prop} {a : α} {a' : α'}, r a a' → rel r (pure a) (pure a')
  bind : ∀ {α α' β β' : Type} {r : α → α' → Prop} {q : β → β' → Prop} {x : m α} {x' : n α'}
    {k : α → m β} {k' : α' → n β'}, rel r x x' →
    (∀ a a', rel (fun b b' => r a a' → q b b') (k a) (k' a')) → rel q (x >>= k) (x' >>= k')

section
variable {m n l : Type → Type} [Monad m] [Monad n] [Monad l] [LawfulMonad m] [LawfulMonad n]
  [LawfulMonad l] (S : Simulation m n) {α α' β β' γ : Type}

theorem Simulation.mono {r q : α → α' → Prop} {x : m α} {x' : n α'} (h : S.rel r x x')
    (imp : ∀ a a', r a a' → q a a') : S.rel q x x' := by
  have := S.bind h fun a a' => S.pure (imp a a')
  simpa only [bind_pure] using this

omit [LawfulMonad m] in
/-- Two computations in a row beside one result and then something else. -/
theorem Simulation.bind_pure {r : α → α' → Prop} {q : β → β' → Prop} {x : m α} {a' : α'} {k : α → m β}
    (k' : α' → n β') (h : S.rel r x (Pure.pure a'))
    (step : ∀ a a', S.rel (fun b b' => r a a' → q b b') (k a) (k' a')) :
    S.rel q (x >>= k) (k' a') := by
  have := S.bind h step
  rwa [LawfulMonad.pure_bind] at this

/-- Walks over a list give results that are related one by one, if those of the steps are. -/
theorem Simulation.mapM_forall₂ {r : β → β' → Prop} {f : α → m β} {f' : α → n β'} (as : List α)
    (h : ∀ a ∈ as, S.rel r (f a) (f' a)) : S.rel (List.Forall₂ r) (as.mapM f) (as.mapM f') := by
  induction as with
  | nil => exact S.pure .nil
  | cons a as ih =>
    simp only [List.mapM_cons]
    exact S.bind (h a (by simp)) fun _ _ =>
      S.bind (ih fun a mem => h a (List.mem_cons_of_mem _ mem)) fun _ _ => S.pure fun hs h =>
        .cons h hs

/-- Walks over a list that give nothing are related if their steps are. -/
theorem Simulation.forM {f : α → m PUnit} {f' : α → n PUnit}
    (h : ∀ a, S.rel (fun _ _ => True) (f a) (f' a)) (as : List α) :
    S.rel (fun _ _ => True) (as.forM f) (as.forM f') := by
  induction as with
  | nil => exact S.pure trivial
  | cons a as ih => exact S.bind (h a) fun _ _ => S.mono ih fun _ _ _ _ => trivial

/-- A walk over a list that gives nothing is related to doing nothing if its steps are. -/
theorem Simulation.forM_pure {f : α → m PUnit}
    (h : ∀ a, S.rel (fun _ _ => True) (f a) (Pure.pure ⟨⟩ : n PUnit)) (as : List α) :
    S.rel (fun _ _ => True) (as.forM f) (Pure.pure ⟨⟩ : n PUnit) := by
  induction as with
  | nil => exact S.pure trivial
  | cons a as ih =>
    have walk := S.bind (q := fun _ _ => True) (h a) fun _ _ => S.mono ih fun _ _ _ _ => trivial
    rwa [pure_bind] at walk

/-- Walks over a list whose results agree, looked at through `g` and `g'`, if those of the steps do.
-/
theorem Simulation.mapM {f : α → m β} {f' : α → n β'} {g : β → l γ} {g' : β' → l γ}
    (h : ∀ a, S.rel (fun b b' => g b = g' b') (f a) (f' a)) (as : List α) :
    S.rel (fun bs bs' => bs.mapM g = bs'.mapM g') (as.mapM f) (as.mapM f') := by
  induction as with
  | nil => exact S.pure rfl
  | cons a as ih =>
    simp only [List.mapM_cons]
    exact S.bind (h a) fun _ _ => S.bind ih fun _ _ => S.pure fun e e' => by
      simp only [List.mapM_cons, e, e']

end

end ProcessorBench
