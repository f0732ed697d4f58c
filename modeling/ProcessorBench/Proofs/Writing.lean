import ProcessorBench.Proofs.Lengths
import ProcessorBench.Proofs.Rebuilding

/-!
# What is renumbered can be written

Only a text can be too long among constants, and the texts of a new pool are texts of the old one.
With the lengths of everything else kept, a class that has been read, its debug attributes deleted
and its pool rebuilt, can be written: `ClassFile.check_of_renumbered`.
-/

namespace ProcessorBench

namespace Renumbering

/-- Every text of the new pool can be written. -/
def Writable (s : Renumbering) : Prop := ∀ c ∈ s.target.pool.constants, c.check = .ok ()

/-- A step of renumbering adds no constant that cannot be written. -/
def Keeps {α : Type} (x : Renumber α) : Prop :=
  ∀ s a s', s.Writable → x s = .ok (a, s') → s'.Writable

variable {α β : Type}

theorem Keeps.pure (a : α) : Keeps (Pure.pure a) := fun s _ _ hs run => by
  cases run
  exact hs

/-- Steps that keep what can be written can be put together. -/
theorem Keeps.bind {x : Renumber α} {k : α → Renumber β} (hx : Keeps x) (hk : ∀ a, Keeps (k a)) :
    Keeps (x >>= k) := fun s b s' hs run => by
  obtain ⟨a, t, first, last⟩ := stateBind_eq_ok.mp run
  exact hk a t b s' (hx s a t hs first) last

theorem Keeps.liftM (x : Except ClassError α) : Keeps (liftM x : Renumber α) := fun s a s' hs run => by
  cases x with
  | error e => cases run
  | ok a' =>
    cases run
    exact hs

theorem Keeps.throw (e : ClassError) : Keeps (throw e : Renumber α) := fun _ _ _ _ run => by cases run

/-- A row of steps that keep what can be written keeps it. -/
theorem Keeps.mapM {f : α → Renumber β} (as : List α) (h : ∀ a, Keeps (f a)) : Keeps (as.mapM f) := by
  induction as with
  | nil => exact .pure _
  | cons a as ih =>
    rw [List.mapM_cons]
    exact (h a).bind fun _ => ih.bind fun _ => .pure _

/-- Whatever keeps texts writable step by step does so as a whole. -/
def keeping : Simulation Renumber Id where
  rel _ x _ := Keeps x
  pure _ := .pure _
  bind {_ _ _ _ _ _ _ a' _ _} hx hk := hx.bind fun a => hk a a'

/-- Adding a constant that can be written keeps the pool so. -/
theorem intern_keeps {c : Constant} (h : c.check = .ok ()) : Keeps (intern c) := by
  intro s k s' hs run
  obtain ⟨b, seen⟩ := s
  rw [intern_eq] at run
  unfold PoolBuilder.add at run
  split at run
  · next run' =>
    cases run
    split at run'
    · cases run'
      exact hs
    · split at run'
      · cases run'
        intro d mem
        rw [PoolBuilder.append, ConstantPool.constants_push, List.mem_append,
          List.mem_singleton] at mem
        rcases mem with mem | rfl
        · exact hs d mem
        · exact h
      · cases run'
  · cases run

/-- A constant whose references are replaced can be written when the constant can. -/
theorem check_of_mapRefs {f : PoolIndex → Renumber PoolIndex} {c d : Constant} {s s' : Renumbering}
    (checked : c.check = .ok ()) (h : c.mapRefs f s = .ok (d, s')) : d.check = .ok () := by
  cases c with
  | utf8 _ =>
    cases h
    exact checked
  | integer _ | float _ | long _ | double _ =>
    cases h
    rfl
  | classInfo _ | string _ | methodType _ | moduleInfo _ | packageInfo _
  | methodHandle _ _ | dynamic _ _ | invokeDynamic _ _ =>
    obtain ⟨_, _, _, h⟩ := stateBind_eq_ok.mp h
    cases h
    rfl
  | fieldRef _ _ | methodRef _ _ | interfaceMethodRef _ _ | nameAndType _ _ =>
    obtain ⟨_, _, _, h⟩ := stateBind_eq_ok.mp h
    obtain ⟨_, _, _, h⟩ := stateBind_eq_ok.mp h
    cases h
    rfl

section
variable {old : ConstantPool} (texts : ∀ c ∈ old.constants, c.check = .ok ())
include texts

/-- Moving a constant of a pool that can be written keeps the new one so. -/
theorem move_keeps (depth : Nat) (i : PoolIndex) : Keeps (move old depth i) := by
  induction depth generalizing i with
  | zero => exact .throw _
  | succ depth ih =>
    intro s k s' hs run
    rcases move_eq_ok.mp run with ⟨_, rfl⟩ | ⟨_, c, d, t, t', hc, moved, added, rfl⟩
    · exact hs
    -- The references differ, but the checks do not look at them.
    · have checked := texts c (ConstantPool.mem_constants_of_get hc)
      have ht : t.Writable := by
        have walk := ConstantOf.mapRefs_over keeping (fun _ => (pure () : Id Unit)) (fun _ => pure ())
          fun i (_ : i ∈ c.refs) => ih i
        exact walk s d t hs moved
      exact intern_keeps (check_of_mapRefs checked moved) t _ t' ht added

/-- Moving a reference keeps what can be written. -/
theorem required_keeps (i : PoolIndex) : Keeps (required old i) := move_keeps texts _ i

/-- Moving the operand of an instruction keeps what can be written. -/
theorem operand_keeps (width : OperandWidth) (i : PoolIndex) : Keeps (operand old width i) := by
  cases width with
  | wide => exact required_keeps texts i
  | narrow =>
    refine (required_keeps texts i).bind fun k => ?_
    by_cases small : k < 256
    · simp only [small, if_true]
      exact .pure _
    · simp only [small, if_false]
      exact .throw _

/-- Moving all that code refers to keeps what can be written. -/
theorem code_keeps (bytes : Bytes) : Keeps (code old bytes) := by
  refine (Keeps.liftM _).bind fun is => Keeps.bind ?_ fun _ => .pure _
  have each (i : Instruction) : Keeps (i.mapRef (operand old)) := by
    obtain ⟨opcode, constant, operands⟩ := i
    match constant with
    | none => exact .pure _
    | some (width, index) => exact (operand_keeps texts width index).bind fun _ => .pure _
  exact .mapM is each

/-- Moving every reference of a class keeps what can be written. -/
theorem refMap_keeps : RefMap.Related keeping (refMap old)
    (⟨fun _ => pure (), fun _ => pure (), fun _ => pure ()⟩ : RefMap Id PoolIndex Unit Bytes Unit)
    ⟨fun _ => (pure () : Id Unit), fun _ => pure (), fun _ => pure ()⟩
    ⟨fun _ => pure (), fun _ => pure (), fun _ => pure ()⟩ where
  required := required_keeps texts
  optional i := by
    change Keeps (optional old i)
    unfold optional
    split
    · exact .pure _
    · exact required_keeps texts i
  code := code_keeps texts

/-- Moving what a method loads with one byte keeps what can be written. -/
theorem moveNarrow_keeps (method : Member) : Keeps (moveNarrow old method) := by
  refine keeping.forM_pure (fun a => ?_) method.attributes
  change Keeps _
  cases a.body with
  | code c =>
    exact (Keeps.liftM _).bind fun is => keeping.forM_pure (fun i =>
      (required_keeps texts i).bind fun _ => .pure _) is
  | _ => exact .pure _

end

end Renumbering

namespace ClassFile

variable {bytes : Bytes} {c d : ClassFile}

/-- Both passes keep what can be written. -/
theorem passes_keep (texts : ∀ k ∈ c.pool.constants, k.check = .ok ()) :
    Renumbering.Keeps c.passes :=
  Renumbering.Keeps.bind
    (Renumbering.keeping.forM_pure (Renumbering.moveNarrow_keeps texts) c.methods)
    fun _ => ClassOf.mapRefs_related (Renumbering.refMap_keeps texts) c.toClassOf

/-- **A file that parses can be written again** when it has been renumbered without its debug
attributes. -/
theorem check_of_renumbered (h : parse bytes = .ok c) (acyclic : c.pool.Acyclic)
    (run : c.debugFree.renumbered = .ok d) : d.check = .ok () := by
  obtain ⟨v, hv, hd, b, sound, pool⟩ := view_of_renumbered (c := c.debugFree) acyclic run
  obtain ⟨count, legal, _⟩ := parse_eq_ok.mp h
  obtain ⟨counted, checks⟩ := ClassOf.check_without (p := c.pool.isDebugName) legal.counted
    fun a mem => (legal.nested a mem).written.1
  have lengths := length_of_view (c := c.debugFree) hv hd
  refine check_eq_ok.mpr ⟨?_, lengths.1.mpr counted, lengths.2.mpr checks⟩
  rw [ConstantPool.check_eq_ok]
  refine ⟨pool ▸ sound.slotCount_lt, ?_⟩
  rw [renumbered_eq_passes] at run
  obtain ⟨⟨moved, s⟩, pass, same⟩ := bind_eq_ok.mp run
  cases same
  exact passes_keep (c := c.debugFree) legal.pool.checked Renumbering.start moved s nofun pass

end ClassFile

end ProcessorBench
