import ProcessorBench.Proofs.Capacity
import ProcessorBench.Proofs.FirstUse
import ProcessorBench.Proofs.PoolSteps

/-!
# What a pool cannot be rebuilt for

While a pool is rebuilt, the new one holds nothing but constants of the old one, each of them once:
`Renumbering.Confined`. So it is never longer than the old one, and slots do not run out before the
old pool has run out of them. What is left to go wrong is what a class holds itself, at one of its
references or in one of its code arrays (`Occurrence.Refuses`), and `ClassFile.stripped_outcome` says
that nothing else does.
-/

namespace ProcessorBench

/-! ## Code that cannot be cut -/

namespace Instruction

/-- The length of an instruction is not known for an opcode that is none or for want of bytes. -/
theorem error_of_operandLength {pc : Nat} {opcode : UInt8} {rest : Bytes} {e : ClassError}
    (h : operandLength pc opcode rest = .error e) :
    (∃ opcode offset, e = .badOpcode opcode offset) ∨ ∃ offset needed, e = .truncated offset needed := by
  unfold operandLength at h
  split at h
  · cases h
  · dsimp only at h
    split at h
    · rcases bind_eq_error.mp h with h | ⟨low, _, h⟩
      · split at h <;> cases h
        exact .inr ⟨_, _, rfl⟩
      rcases bind_eq_error.mp h with h | ⟨high, _, h⟩
      · split at h <;> cases h
        exact .inr ⟨_, _, rfl⟩
      split at h
      · cases h
      · cases h
        exact .inl ⟨_, _, rfl⟩
    · split at h
      · rcases bind_eq_error.mp h with h | ⟨pairs, _, h⟩
        · split at h <;> cases h
          exact .inr ⟨_, _, rfl⟩
        split at h
        · cases h
        · cases h
          exact .inl ⟨_, _, rfl⟩
      · split at h
        · split at h
          · cases h
            exact .inr ⟨_, _, rfl⟩
          · cases h
        · cases h
          exact .inl ⟨_, _, rfl⟩

end Instruction

/-- **A code array cannot be cut into instructions** at an opcode that is none, or where it ends in
the middle of an instruction. -/
theorem Bytecode.error_of_decodeFrom {pc : Nat} {code : Bytes} {e : ClassError}
    (h : decodeFrom pc code = .error e) :
    (∃ opcode offset, e = .badOpcode opcode offset) ∨ ∃ offset needed, e = .truncated offset needed := by
  induction pc, code using decodeFrom.induct with
  | case1 pc =>
    rw [decodeFrom] at h
    cases h
  | case2 pc opcode rest ih =>
    rw [decodeFrom] at h
    rcases bind_eq_error.mp h with h | ⟨n, _, h⟩
    · exact Instruction.error_of_operandLength h
    split at h
    · cases h
      exact .inr ⟨_, _, rfl⟩
    · next operands rest' split =>
      rcases bind_eq_error.mp h with h | ⟨_, _, h⟩
      · exact ih _ _ _ split h
      · cases h

/-! ## Reasons -/

/-- An index that leads nowhere is named in the fault. -/
theorem ConstantPool.error_of_get {pool : ConstantPool} {i : PoolIndex} {e : ClassError}
    (h : pool.get i = .error e) : e = .badConstantIndex i := by
  unfold get at h
  split at h <;> cases h
  rfl

/-- An index leads to one that no constant stands at. -/
inductive ConstantPool.Lost (pool : ConstantPool) (i : PoolIndex) : ClassError → Prop
  | absent {k : PoolIndex} : pool.LeadsTo i k → (∀ c, pool.get k ≠ .ok c) →
    Lost pool i (.badConstantIndex k)

/-- Why a pool cannot be rebuilt for a reference or for a code array. -/
inductive Occurrence.Refuses (old : ConstantPool) :
    Occurrence PoolIndex Bytes → ClassError → Prop
  /-- An index leads nowhere. -/
  | lost {o : Occurrence PoolIndex Bytes} {i : PoolIndex} {e : ClassError} : i ∈ o.indices →
    old.Lost i e → Refuses old o e
  | badOpcode {code : Bytes} {opcode : UInt8} {offset : Nat} :
    Bytecode.decode code = .error (.badOpcode opcode offset) →
    Refuses old (.code code) (.badOpcode opcode offset)
  | truncated {code : Bytes} {offset needed : Nat} :
    Bytecode.decode code = .error (.truncated offset needed) →
    Refuses old (.code code) (.truncated offset needed)
  /-- One byte does not hold the new index of what it loads, for which there have to be more slots
  than it can number. -/
  | load {code : Bytes} {i : PoolIndex} {t : ConstantTree} : i ∈ Bytecode.loads code →
    old.tree i = .ok t → 256 < old.slotCount →
    Refuses old (.code code) (.overflow .renumberedLoadOperand)

/-- Why the pool of a class cannot be rebuilt. -/
def ClassFile.Refused (c : ClassFile) (e : ClassError) : Prop := ∃ o ∈ c.occurrences, o.Refuses c.pool e

/-- Code that cannot be cut refuses, for an opcode or for want of bytes. -/
theorem Occurrence.Refuses.of_decode {old : ConstantPool} {code : Bytes} {e : ClassError}
    (h : Bytecode.decode code = .error e) : (Occurrence.code code).Refuses old e := by
  rcases Bytecode.error_of_decodeFrom h with ⟨_, _, rfl⟩ | ⟨_, _, rfl⟩
  · exact .badOpcode h
  · exact .truncated h

/-! ## New pools within old ones -/

/-- A pool without cycles whose slots can be counted. -/
structure ConstantPool.Counted (pool : ConstantPool) : Prop where
  acyclic : pool.Acyclic
  built : ∃ cs : List Constant, pool = cs.foldl push empty
  room : pool.slotCount < UInt16.size

namespace Renumbering

variable {old : ConstantPool} {α β : Type} {reason reason' : ClassError → Prop}

/-- The new pool holds constants of the old one only, each of them once. -/
structure Confined (old : ConstantPool) (s : Renumbering) : Prop where
  consistent : s.Consistent old
  held : ∃ l, s.target.Holds l ∧ l.Within old

/-- At the start the new pool is empty. -/
theorem start_confined (old : ConstantPool) : start.Confined old :=
  ⟨ClassFile.start_consistent old, .empty, PoolBuilder.holds_empty, Layout.within_empty⟩

/-- A layout within an old pool needs no more slots. -/
theorem slotCount_le_of_within (h : old.Counted) {l : Layout} (within : l.Within old) :
    l.slotCount ≤ old.slotCount :=
  ConstantPool.slots_le_slotCount h.acyclic h.built (Nat.le_of_lt h.room) within.nodup within.there

/-- **The new pool is not longer than the old one.** -/
theorem Confined.slotCount_le (h : old.Counted) {s : Renumbering} (hs : s.Confined old) :
    s.target.slotCount ≤ old.slotCount := by
  obtain ⟨l, held, within⟩ := hs.held
  rw [held.slotCount]
  exact slotCount_le_of_within h within

/-- How a step of rebuilding ends: the new pool is confined, or the step has failed for a reason. -/
inductive Ends (old : ConstantPool) (reason : ClassError → Prop) :
    Except ClassError (α × Renumbering) → Prop
  | ok {a : α} {s : Renumbering} : s.Confined old → Ends old reason (.ok (a, s))
  | error {e : ClassError} : reason e → Ends old reason (.error e)

/-- A step keeps the new pool confined and fails for some reasons only. -/
def Bounded (old : ConstantPool) (reason : ClassError → Prop) (x : Renumber α) : Prop :=
  ∀ s : Renumbering, s.Confined old → Ends old reason (x s)

theorem Bounded.pure (a : α) : Bounded old reason (Pure.pure a) := fun _ hs => .ok hs

/-- Steps that are bounded can be put together. -/
theorem Bounded.bind {x : Renumber α} {k : α → Renumber β} (hx : Bounded old reason x)
    (hk : ∀ a, Bounded old reason (k a)) : Bounded old reason (x >>= k) := by
  intro s hs
  have first := hx s hs
  cases run : x s with
  | error e =>
    rw [run] at first
    rw [stateBind_of_error run]
    cases first with
    | error why => exact .error why
  | ok p =>
    obtain ⟨a, s'⟩ := p
    rw [run] at first
    rw [stateBind_of_ok run]
    cases first with
    | ok hs' => exact hk a s' hs'

/-- There may be more reasons to fail than needed. -/
theorem Bounded.mono {x : Renumber α} (h : Bounded old reason x) (imp : ∀ e, reason e → reason' e) :
    Bounded old reason' x := by
  intro s hs
  have ends := h s hs
  generalize x s = run at ends
  cases ends with
  | ok hs' => exact .ok hs'
  | error why => exact .error (imp _ why)

/-- What is bounded each time is bounded when it is repeated. -/
theorem Bounded.forM {f : α → Renumber Unit} {as : List α} (h : ∀ a ∈ as, Bounded old reason (f a)) :
    Bounded old reason (as.forM f) := by
  induction as with
  | nil => exact .pure ()
  | cons a as ih =>
    obtain ⟨first, rest⟩ := List.forall_mem_cons.mp h
    exact first.bind fun _ => ih rest

/-- Whatever is bounded step by step is as a whole. -/
def bounding (old : ConstantPool) (reason : ClassError → Prop) : Simulation Renumber Id where
  rel _ x _ := Bounded old reason x
  pure _ := .pure _
  bind {_ _ _ _ _ _ _ x' _ _} hx hk := hx.bind fun a => hk a x'

/-! ## One constant -/

/-- A constant that is missing cannot be moved. -/
theorem required_of_absent {i : PoolIndex} {e : ClassError} (absent : old.get i = .error e) :
    required old i .start = .error e := by
  have unseen : Renumbering.start.seen[i]? = none := Std.HashMap.getElem?_empty
  rw [required, move, stateGet_bind, unseen, absent]
  rfl

section
variable (h : old.Counted)
include h

/-- A constant over constants that have been moved has room in the new pool. -/
theorem intern_bounded {s : Renumbering} (hs : s.Confined old) {i : PoolIndex} {d : Constant}
    {c : ConstantOf ConstantTree} (ht : old.tree i = .ok ⟨c⟩)
    (trees : d.mapRefs s.target.pool.tree = .ok c) :
    Ends old reason ((do
      let moved ← intern d
      modify fun r => { r with seen := r.seen.insert i moved }
      return moved : Renumber PoolIndex) s) := by
  obtain ⟨l, held, within⟩ := hs.held
  have outcome := intern_outcome hs.consistent ht trees
  have filled := add_filled held trees
  have within' := within.add ht
  have fits : ¬ UInt16.size ≤ (l.add ⟨c⟩).slotCount :=
    Nat.not_le.mpr (Nat.lt_of_le_of_lt (slotCount_le_of_within h within') h.room)
  generalize (do
    let moved ← intern d
    modify fun r => { r with seen := r.seen.insert i moved }
    return moved : Renumber PoolIndex) s = run at outcome ⊢
  generalize added : PoolBuilder.add d s.target = there at outcome filled
  cases outcome with
  | ok consistent =>
    cases filled with
    | ok held' => exact .ok ⟨consistent, _, held', within'⟩
  | limit l =>
    cases PoolBuilder.eq_of_add_error added
    cases filled with
    | slots few => exact absurd few fits
  | missing e => cases PoolBuilder.eq_of_add_error added

/-- What the constants that have been moved lead to is what the old ones do. -/
theorem trees_of_moved {s s' : Renumbering} (hs : s.Consistent old) {c d : Constant}
    (run : c.mapRefs (required old) s = .ok (d, s')) :
    ∃ t, c.mapRefs old.tree = .ok t ∧ d.mapRefs s'.target.pool.tree = .ok t := by
  have walk : Follows old (fun d d' => d = d') (c.mapRefs (required old))
      (c.mapRefs fun j => resolve (old.tree j) >>= ConstantTree.intern) :=
    ConstantOf.mapRefs_same (following old) fun j _ => required_follows h.acyclic j
  have outcome := walk s hs
  rw [run] at outcome
  generalize interned :
    c.mapRefs (fun j => resolve (old.tree j) >>= ConstantTree.intern) s.target = there at outcome
  cases outcome with
  | ok hs' same =>
    subst same
    obtain ⟨_, _, t, ht, trees⟩ :=
      (interned_refs_restore old hs'.sound.acyclic c).ok _ _ _ hs.sound interned
    exact ⟨t, ht, trees (ConstantPool.le_refl _)⟩

/-- An old constant that is met for the first time has room in the new pool, if what it refers to
has. -/
theorem move_bounded {i : PoolIndex} {c : Constant} (hc : old.get i = .ok c)
    (refs : Bounded old (old.Lost i) (c.mapRefs (required old))) :
    Bounded old (old.Lost i) (do
      let moved ← intern (← c.mapRefs (required old))
      modify fun r => { r with seen := r.seen.insert i moved }
      return moved) := by
  intro s hs
  have first := refs s hs
  cases run : c.mapRefs (required old) s with
  | error e =>
    rw [run] at first
    rw [stateBind_of_error run]
    cases first with
    | error why => exact .error why
  | ok p =>
    obtain ⟨d, s'⟩ := p
    rw [run] at first
    rw [stateBind_of_ok run]
    obtain ⟨t, ht, trees⟩ := trees_of_moved h hs.consistent run
    cases first with
    | ok hs' => exact intern_bounded h hs' (h.acyclic.tree_eq_ok.mpr ⟨c, hc, ht⟩) trees

/-- **Moving an old constant keeps the new pool confined**, and fails only where a constant is
missing. -/
theorem required_bounded (i : PoolIndex) : Bounded old (old.Lost i) (required old i) := by
  induction i using h.acyclic.induction with
  | step i ih =>
    rw [required_eq h.acyclic]
    intro s hs
    rw [stateGet_bind]
    cases s.seen[i]? with
    | some moved => exact .ok hs
    | none =>
      cases hc : old.get i with
      | error e =>
        have absent : ∀ c, old.get i ≠ .ok c := by
          intro c there
          rw [hc] at there
          cases there
        cases ConstantPool.error_of_get hc
        exact .error (.absent .refl absent)
      | ok c =>
        have refs : Bounded old (old.Lost i) (c.mapRefs (required old)) := by
          refine ConstantOf.mapRefs_over (bounding old (old.Lost i)) (fun _ => (pure () : Id Unit))
            (fun _ => pure ()) fun j mem => ?_
          refine (ih c hc j mem).mono fun e why => ?_
          cases why with
          | absent leads nothing => exact .absent (leads.head ⟨c, hc, mem⟩) nothing
        simp only [liftM_ok, pure_bind]
        exact move_bounded h hc refs s hs

/-- An index that has been moved leads to the same tree as before. -/
theorem tree_of_required {s s' : Renumbering} (hs : s.Consistent old) {i k : PoolIndex}
    (run : required old i s = .ok (k, s')) :
    ∃ t, old.tree i = .ok t ∧ s'.target.pool.tree k = .ok t := by
  have outcome := required_follows h.acyclic i s hs
  rw [run] at outcome
  generalize interned : (resolve (old.tree i) >>= ConstantTree.intern) s.target = there at outcome
  cases found : old.tree i with
  | error e =>
    rw [found] at interned
    subst interned
    cases outcome
  | ok t =>
    rw [found] at interned
    cases outcome with
    | ok hs' same =>
      subst same
      exact ⟨t, rfl, (t.intern_sound hs.sound interned).2.2⟩

/-- Whichever old constants are moved one after the other, the new pool is not longer than the old
one, and nothing stops it but a constant that is missing. -/
theorem moves_outcome (is : List PoolIndex) :
    (∃ ks s, is.mapM (required old) start = .ok (ks, s) ∧ s.target.slotCount ≤ old.slotCount) ∨
      ∃ k, is.mapM (required old) start = .error (.badConstantIndex k) := by
  have step : ∀ i ∈ is, (bounding old fun e => ∃ k, e = .badConstantIndex k).rel (fun _ _ => True)
      (required old i) (pure i) := by
    intro i _
    refine (required_bounded h i).mono fun e lost => ?_
    cases lost with
    | @absent k _ _ => exact ⟨k, rfl⟩
  have walk : Bounded old (fun e => ∃ k, e = .badConstantIndex k) (is.mapM (required old)) :=
    (bounding old _).mapM_forall₂ is step
  have ends := walk start (start_confined old)
  generalize is.mapM (required old) start = run at ends ⊢
  cases ends with
  | ok confined => exact .inl ⟨_, _, rfl, confined.slotCount_le h⟩
  | error why =>
    obtain ⟨k, rfl⟩ := why
    exact .inr ⟨k, rfl⟩

/-! ## Code and classes -/

/-- The operand of an instruction fails for an index that leads nowhere, or for a new index that its byte does not
hold. -/
theorem operand_bounded (width : OperandWidth) (i : PoolIndex) :
    Bounded old (fun e => old.Lost i e ∨ width = .narrow ∧ 256 < old.slotCount ∧
      (∃ t, old.tree i = .ok t) ∧ e = .overflow .renumberedLoadOperand) (operand old width i) := by
  cases width with
  | wide => exact (required_bounded h i).mono fun _ => .inl
  | narrow =>
    intro s hs
    have first := required_bounded h i s hs
    cases run : required old i s with
    | error e =>
      rw [run] at first
      rw [operand, stateBind_of_error run]
      cases first with
      | error why => exact .error (.inl why)
    | ok p =>
      obtain ⟨k, s'⟩ := p
      rw [run] at first
      rw [operand, stateBind_of_ok run]
      cases first with
      | ok hs' =>
        by_cases small : k < 256
        · simp only [small, if_true]
          exact .ok hs'
        · simp only [small, if_false]
          obtain ⟨t, ht, there⟩ := tree_of_required h hs.consistent run
          -- The slot of what has been moved is one of the new pool, which is not longer.
          obtain ⟨l, held, _⟩ := hs'.held
          obtain ⟨mem, position⟩ := held.position k t there
          have inside := Layout.position_lt mem
          have shorter := hs'.slotCount_le h
          have large : 256 ≤ k.toNat := Nat.le_of_not_lt fun h => small (UInt16.lt_iff_toNat_lt.mpr h)
          rw [held.slotCount] at shorter
          exact .error (.inr ⟨trivial, by omega, ⟨t, ht⟩, rfl⟩)

/-- Code fails for what it holds itself. -/
theorem code_bounded (bytes : Bytes) :
    Bounded old ((Occurrence.code bytes).Refuses old) (code old bytes) := by
  cases decoded : Bytecode.decode bytes with
  | error e =>
    rw [code, decoded]
    exact fun s _ => .error (.of_decode decoded)
  | ok is =>
    have indices : (Occurrence.code bytes).indices = Bytecode.refs is := by
      rw [Occurrence.indices, decoded]
    have loads : Bytecode.loads bytes = is.filterMap (·.narrow?) := by
      rw [Bytecode.loads, narrowRefs_of_decode decoded]
    -- An instruction is refused for an index of its own, which is one of the code array.
    have step : ∀ i ∈ is, (bounding old ((Occurrence.code bytes).Refuses old)).rel (fun _ _ => True)
        (i.mapRef (operand old)) (pure i) := by
      rintro ⟨opcode, constant, operands⟩ mem
      rcases constant with _ | ⟨width, k⟩
      · exact .pure _
      · refine Bounded.bind ?_ fun _ => .pure _
        refine (operand_bounded h width k).mono fun e why => ?_
        rcases why with lost | ⟨rfl, room, ⟨t, ht⟩, rfl⟩
        · refine .lost ?_ lost
          rw [indices]
          exact List.mem_filterMap.mpr ⟨_, mem, rfl⟩
        · refine .load ?_ ht room
          rw [loads]
          exact List.mem_filterMap.mpr ⟨_, mem, rfl⟩
    have walk : Bounded old ((Occurrence.code bytes).Refuses old) (is.mapM (·.mapRef (operand old))) :=
      (bounding old _).mapM_forall₂ is step
    rw [code, decoded]
    exact walk.bind fun _ => .pure _

end

section
variable {c : ClassFile} (h : c.pool.Counted)
include h

/-- What a method loads with one byte is moved before, and fails for nothing else. -/
theorem moveNarrow_bounded {m : Member} (method : m ∈ c.methods) :
    Bounded c.pool c.Refused (moveNarrow c.pool m) := by
  refine .forM fun a inside => ?_
  obtain ⟨name, body⟩ := a
  cases body with
  | code x =>
    have occurs : .code x.code ∈ c.occurrences := ClassOf.code_mem_occurrences method inside
    show Bounded _ _ ((liftM (Bytecode.narrowRefs x.code) : Renumber _) >>= _)
    cases found : Bytecode.narrowRefs x.code with
    | error e =>
      rcases bind_eq_error.mp found with failed | ⟨_, _, failed⟩
      · exact fun s _ => .error ⟨_, occurs, .of_decode failed⟩
      · cases failed
    | ok is =>
      rw [liftM_ok, pure_bind]
      refine .forM fun i listed => ?_
      refine Bounded.bind ((required_bounded h i).mono fun e lost => ?_) fun _ => .pure _
      have loaded : i ∈ Bytecode.loads x.code := by rwa [Bytecode.loads, found]
      exact ⟨_, occurs, .lost (Bytecode.loads_subset _ loaded) lost⟩
  | _ => exact .pure ()

/-- **Both passes keep the new pool confined**, and fail for what the class holds itself. -/
theorem passes_bounded : Bounded c.pool c.Refused c.passes := by
  have named (o : Occurrence PoolIndex Bytes) (mem : o ∈ c.occurrences) {x : Renumber PoolIndex}
      {i : PoolIndex} (listed : i ∈ o.indices) (hx : Bounded c.pool (c.pool.Lost i) x) :
      Bounded c.pool c.Refused x := hx.mono fun e lost => ⟨o, mem, .lost listed lost⟩
  refine Bounded.bind (.forM fun _ => moveNarrow_bounded h) fun _ => ?_
  refine ClassOf.mapRefs_over (bounding c.pool c.Refused) (f := refMap c.pool) ?_ ?_ ?_
  · intro i mem
    exact named _ mem (List.mem_singleton_self i) (required_bounded h i)
  · intro i mem
    by_cases zero : i = 0
    · show Bounded c.pool c.Refused (optional c.pool i)
      rw [optional, if_pos zero]
      exact .pure _
    · show Bounded c.pool c.Refused (optional c.pool i)
      rw [optional, if_neg zero]
      refine named _ mem ?_ (required_bounded h i)
      rw [Occurrence.indices, if_neg zero]
      exact List.mem_singleton_self i
  · intro b mem
    exact (code_bounded h b).mono fun e why => ⟨_, mem, why⟩

end

end Renumbering

namespace ClassFile

variable {bytes : Bytes} {c : ClassFile}

/-- The pool of a class that has been read can be counted, if its slots can. -/
theorem counted_of_parse (h : parse bytes = .ok c) (acyclic : c.pool.Acyclic)
    (room : c.pool.slotCount < UInt16.size) : c.pool.Counted := by
  obtain ⟨count, legal, _⟩ := parse_eq_ok.mp h
  obtain ⟨cs, _, built⟩ := legal.pool.built
  exact ⟨acyclic, ⟨cs, built⟩, room⟩

/-- How rebuilding the pool of a class ends. -/
theorem renumbered_outcome (counted : c.pool.Counted) :
    (∃ d, c.renumbered = .ok d ∧ d.pool.slotCount ≤ c.pool.slotCount) ∨
      ∃ e, c.renumbered = .error e ∧ c.Refused e := by
  have ends := Renumbering.passes_bounded counted .start (Renumbering.start_confined c.pool)
  rw [renumbered_eq_passes]
  generalize c.passes .start = run at ends ⊢
  cases ends with
  | ok confined => exact .inl ⟨_, rfl, confined.slotCount_le counted⟩
  | error why => exact .inr ⟨_, rfl, why⟩

/-- **Rebuilding does not make the pool of a class longer, and fails for what the class holds only**:
an index that leads nowhere, a code array that cannot be cut into instructions, or the operand of a
load with one byte. The slots of the new pool never run out, whichever constants have been moved. -/
theorem stripped_outcome (h : parse bytes = .ok c) (acyclic : c.pool.Acyclic)
    (room : c.pool.slotCount < UInt16.size) :
    ((∃ d written, c.stripped = .ok d ∧ d.pool.slotCount ≤ c.pool.slotCount ∧
        d.toBytes = .ok written) ∨
      ∃ e, c.stripped = .error e ∧ c.debugFree.Refused e) ∧
    c.stripped ≠ .error (.overflow .poolSlots) ∧
    ∀ is : List PoolIndex,
      (∃ ks s, is.mapM (Renumbering.required c.pool) .start = .ok (ks, s) ∧
        s.target.slotCount ≤ c.pool.slotCount) ∨
      ∃ k, is.mapM (Renumbering.required c.pool) .start = .error (.badConstantIndex k) := by
  have counted := counted_of_parse h acyclic room
  have outcome : (∃ d written, c.stripped = .ok d ∧ d.pool.slotCount ≤ c.pool.slotCount ∧
        d.toBytes = .ok written) ∨ ∃ e, c.stripped = .error e ∧ c.debugFree.Refused e := by
    rw [stripped_eq h]
    rcases renumbered_outcome (c := c.debugFree) counted with ⟨d, run, shorter⟩ | failed
    · refine .inl ⟨d, d.bytes, run, shorter, ?_⟩
      rw [toBytes, check_of_renumbered h acyclic run]
      rfl
    · exact .inr failed
  refine ⟨outcome, ?_, ?_⟩
  · intro failed
    rcases outcome with ⟨d, _, run, _⟩ | ⟨e, run, o, _, why⟩
    · cases failed.symm.trans run
    · cases failed.symm.trans run
      cases why with
      | lost _ nothing => cases nothing
  · exact Renumbering.moves_outcome counted

/-! ### A class whose own name leads nowhere -/

/-- The class, which has no other references. -/
def nameless : ClassFile where
  minorVersion := 0
  majorVersion := 52
  access := ⟨0x21⟩
  thisClass := 9
  superClass := 0
  interfaces := []
  fields := []
  methods := []
  attributes := []
  pool := List.foldl ConstantPool.push .empty [.classInfo 2, .utf8 [65]]

/-- The class can be read back from its bytes. -/
theorem parse_nameless : parse nameless.bytes = .ok nameless :=
  parse_of_toBytes ⟨_, rfl⟩ (fun _ mem => nomatch mem) rfl

/-- No constant of it leads back to itself. -/
theorem acyclic_nameless : nameless.pool.Acyclic :=
  ConstantPool.acyclic_of_toList (fun i => if i = 1 then 1 else 0) (by decide)

/-- The class cannot be rebuilt, because of its name. -/
theorem stripped_nameless : nameless.stripped = .error (.badConstantIndex 9) := by
  have lost : Renumbering.required nameless.pool 9 .start = .error (.badConstantIndex 9) :=
    Renumbering.required_of_absent rfl
  have stops : nameless.debugFree.passes .start = .error (.badConstantIndex 9) :=
    (stateBind_of_ok (a := ()) rfl _).trans (stateBind_of_error lost _)
  rw [stripped_eq parse_nameless, renumbered_eq_passes, stops]
  rfl

/-- The number that the code loads can be moved. -/
theorem required_number : ∃ k s, Renumbering.required (loader true).pool 6 .start = .ok (k, s) := by
  obtain ⟨k, b, added, _⟩ := @PoolBuilder.intern_ok (.integer 7) .empty (by decide)
  have interned : Renumbering.intern (.integer 7) .start = .ok (k, ⟨b, ∅⟩) := by
    unfold Renumbering.intern Renumbering.start
    simp only [added]
  have unseen : Renumbering.start.seen[(6 : PoolIndex)]? = none := Std.HashMap.getElem?_empty
  have entry : (loader true).pool.get 6 = .ok (.integer 7) := rfl
  rw [Renumbering.required, Renumbering.move, stateGet_bind, unseen]
  simp only [entry, liftM_ok, pure_bind, ConstantOf.mapRefs]
  exact ⟨_, _, stateBind_of_ok interned _⟩

/-- A class whose code loads a number can be rebuilt, and one whose name leads nowhere cannot. The number can be moved
on its own, and a constant that is not there cannot. -/
theorem stripped_outcome_loader :
    (∃ d written, (loader true).stripped = .ok d ∧ d.pool.slotCount ≤ 7 ∧ d.toBytes = .ok written) ∧
    (nameless.stripped = .error (.badConstantIndex 9) ∧ nameless.debugFree.Refused (.badConstantIndex 9)) ∧
    (loader true).stripped ≠ .error (.overflow .poolSlots) ∧
    (∃ ks s, [6].mapM (Renumbering.required (loader true).pool) .start = .ok (ks, s) ∧ s.target.slotCount ≤ 7) ∧
    ∃ k, [9].mapM (Renumbering.required (loader true).pool) .start = .error (.badConstantIndex k) := by
  obtain ⟨rebuilt, slots, moves⟩ := stripped_outcome (parse_loader true) (acyclic_loader true) (by decide)
  obtain ⟨refused, _⟩ := stripped_outcome parse_nameless acyclic_nameless (by decide)
  obtain ⟨d, run⟩ := exists_stripped_loader true
  have lost : Renumbering.required (loader true).pool 9 .start = .error (.badConstantIndex 9) :=
    Renumbering.required_of_absent rfl
  obtain ⟨k, s, moved⟩ := required_number
  refine ⟨?_, ?_, slots, ?_, ?_⟩
  · rcases rebuilt with given | ⟨e, failed, _⟩
    · exact given
    · cases run.symm.trans failed
  · rcases refused with ⟨d, _, run, _⟩ | ⟨e, failed, why⟩
    · cases stripped_nameless.symm.trans run
    · cases stripped_nameless.symm.trans failed
      exact ⟨failed, why⟩
  · rcases moves [6] with given | ⟨k, failed⟩
    · exact given
    · rw [List.mapM_cons, stateBind_of_ok moved] at failed
      cases failed
  · rcases moves [9] with ⟨ks, s, given, _⟩ | failed
    · rw [List.mapM_cons, stateBind_of_error lost] at given
      cases given
    · exact failed

end ClassFile

end ProcessorBench
