import ProcessorBench.Proofs.Relocation

/-!
# The requests made to a compiler

No step goes by the requests that have been made to the compiler so far: it only adds to them
(`HostStep.Appends`). A compilation by a compiler that goes by content adds at most one, and leaves nothing else
(`Workbench.compile_leaves`).
-/

namespace ProcessorBench

namespace HostStep

variable {ε ε' α β : Type} {n m : Nat} {P : CompilerCall → Prop}

/-- What a step does does not depend on the requests so far, and it adds a number of them at most, all of one
kind. -/
def Appends (n : Nat) (P : CompilerCall → Prop) (x : HostStep ε α) : Prop :=
  ∀ h : Host, ∃ (r : Except ε α) (h' : Host) (log : List CompilerCall), log.length ≤ n ∧ (∀ c ∈ log, P c) ∧
    ∀ calls, x.outcome { h with calls := calls } = (r, { h' with calls := log ++ calls })

namespace Appends

theorem pure (a : α) : Appends n P (Pure.pure a : HostStep ε α) := fun h =>
  ⟨.ok a, h, [], Nat.zero_le n, nofun, fun _ => rfl⟩

theorem throw (e : ε) : Appends n P (MonadExcept.throw e : HostStep ε α) := fun h =>
  ⟨.error e, h, [], Nat.zero_le n, nofun, fun _ => rfl⟩

theorem ofExcept (result : Except ε α) : Appends n P (HostStep.ofExcept result) := fun h =>
  ⟨result, h, [], Nat.zero_le n, nofun, fun _ => outcome_ofExcept result _⟩

theorem disk : Appends n P (HostStep.disk : HostStep ε Disk) := fun h =>
  ⟨.ok h.disk, h, [], Nat.zero_le n, nofun, fun _ => rfl⟩

/-- A step on the disk asks the compiler for nothing. -/
theorem onDisk (fault : FileFault → ε) (step : DiskStep α) : Appends n P (HostStep.onDisk fault step) := by
  intro h
  simp only [outcome_onDisk]
  cases step h.disk with
  | ok a d => exact ⟨.ok a, { h with disk := d }, [], Nat.zero_le n, nofun, fun _ => rfl⟩
  | error e d => exact ⟨.error (fault e), { h with disk := d }, [], Nat.zero_le n, nofun, fun _ => rfl⟩

theorem doing (action : FileAction) (path : Path) (step : DiskStep α) :
    Appends n P (HostStep.doing action path step) := onDisk _ step

/-- Calls add up over steps one after the other. -/
theorem bind {x : HostStep ε α} {k : α → HostStep ε β} (first : Appends n P x)
    (rest : ∀ a, Appends m P (k a)) : Appends (n + m) P (x >>= k) := by
  intro h
  obtain ⟨r, h', log, few, each, here⟩ := first h
  simp only [outcome_bind, here]
  cases r with
  | error e => exact ⟨.error e, h', log, Nat.le_add_right_of_le few, each, fun _ => rfl⟩
  | ok a =>
    obtain ⟨r, h'', log', few', each', later⟩ := rest a h'
    refine ⟨r, h'', log' ++ log, ?_, ?_, ?_⟩
    · rw [List.length_append, Nat.add_comm n m]
      exact Nat.add_le_add few' few
    · intro c mem
      exact (List.mem_append.mp mem).elim (each' c) (each c)
    · intro calls
      rw [List.append_assoc]
      exact later (log ++ calls)

/-- Going on after a step without requests. -/
theorem seq {x : HostStep ε α} {k : α → HostStep ε β} (first : Appends 0 P x)
    (rest : ∀ a, Appends n P (k a)) : Appends n P (x >>= k) := by
  have both := bind first rest
  rwa [Nat.zero_add] at both

/-- Going on after a fault takes back no call. -/
theorem attempt {x : HostStep ε α} (appends : Appends n P x) :
    Appends n P (HostStep.attempt x : HostStep ε' (Except ε α)) := by
  intro h
  obtain ⟨r, h', log, few, each, here⟩ := appends h
  exact ⟨.ok r, h', log, few, each, fun calls => by rw [outcome_attempt, here]⟩

/-- Steps that ask for nothing can be repeated. -/
theorem forM {as : List α} {f : α → HostStep ε PUnit} (each : ∀ a ∈ as, Appends 0 P (f a)) :
    Appends 0 P (as.forM f) := by
  induction as with
  | nil => exact pure _
  | cons a as ih =>
    obtain ⟨first, each⟩ := List.forall_mem_cons.mp each
    exact seq first fun _ => ih each

end Appends

end HostStep

open HostStep (Appends)

variable {P : CompilerCall → Prop}

namespace Workspace

/-- Making room for a workspace asks the compiler for nothing. -/
theorem reserve_appends : Appends 0 P reserve := by
  intro h
  refine ⟨(reserve.outcome h).1, { h with disk := (reserve.outcome h).2.disk }, [], Nat.zero_le 0,
    nofun, fun calls => ?_⟩
  obtain ⟨same, same'⟩ := reserve_congr h { h with calls := calls } rfl rfl
  generalize reserve.outcome h = outcome at same same' ⊢
  generalize reserve.outcome { h with calls := calls } = outcome' at same same' ⊢
  exact Prod.ext same same'

/-- Removing a workspace asks the compiler for nothing. -/
theorem close_appends (w : Workspace) : Appends 0 P w.close := by
  rw [close_eq]
  exact .doing _ _ _

/-- Creating a workspace asks the compiler for nothing. -/
theorem create_appends : Appends 0 P create := by
  rw [create_eq]
  refine .seq reserve_appends fun w => ?_
  refine .seq (.attempt (.forM fun dir _ => .doing _ _ _)) fun r => ?_
  cases r with
  | ok => exact .pure w
  | error fault => exact .seq (.attempt w.close_appends) fun _ => .throw fault

/-- Writing a file asks the compiler for nothing. -/
theorem writeFile_appends (path : Path) (content : Bytes) : Appends 0 P (writeFile path content) := by
  unfold writeFile
  cases path.parent? with
  | none => exact .doing _ _ _
  | some parent => exact .seq (.doing _ _ _) fun _ => .doing _ _ _

/-- The source of a unit is written without a call. -/
theorem writeSource_appends (w : Workspace) (unit source : String) :
    Appends 0 P (w.writeSource unit source) := by
  unfold writeSource
  cases UnitName.path? unit "java" with
  | none => exact .throw _
  | some place => exact .seq (writeFile_appends _ _) fun _ => .pure _

end Workspace

namespace ContentCompiler

/-- A compiler that goes by content is asked once. -/
theorem call_appends (answer : RequestContent → CompilerAnswer) {request : CompileRequest}
    (kind : ∀ d, P ⟨request, d⟩) : Appends 1 P (Compiler.call (ofAnswers answer) request) := by
  have log : Appends 1 P (modify fun h => { h with calls := ⟨request, h.disk⟩ :: h.calls } :
      HostStep CompileError Unit) := fun h =>
    ⟨.ok (), h, [⟨request, h.disk⟩], le_refl 1, by simpa using kind h.disk, fun _ => rfl⟩
  have leaves (dir : Path) (entries : List DirEntry) : Appends 0 P (leave dir entries) :=
    .seq (.attempt (.onDisk _ _)) fun _ => .pure ()
  refine .bind (m := 0) log fun _ => .seq .disk fun d => ?_
  exact .seq (leaves _ _) fun _ => .seq (leaves _ _) fun _ => .ofExcept _

end ContentCompiler

namespace Workbench

variable {b : Workbench} {answer : RequestContent → CompilerAnswer}

/-- A processor is put into place without a call. -/
theorem provideProcessor_appends (w : Workspace) (processor : Option Processor) (sourceFile : Path) :
    Appends 0 P (do
      if let some p := processor then p.artifacts.writeTo w.processorDir
      return sourceFile) := by
  cases processor with
  | none => exact .pure sourceFile
  | some p => exact .seq (.forM fun _ _ => Workspace.writeFile_appends _ _) fun _ => .pure sourceFile

/-- All that is prepared for a compilation is prepared without a call. -/
theorem prepare_appends (b : Workbench) (w : Workspace) (unit : String) (place : Path)
    (source : Option String) (processor : Option Processor) :
    Appends 0 P (b.prepare w unit place source processor) := by
  unfold prepare
  cases source with
  | none => exact .seq (.pure _) (provideProcessor_appends w processor)
  | some text =>
    exact .seq (Workspace.writeSource_appends w unit text) (provideProcessor_appends w processor)

/-- The end of a compilation asks for nothing more. -/
theorem settle_appends {α : Type} (w : Workspace) (result : Except CompileError α) :
    Appends 0 P (settle w result) := by
  rw [settle_eq]
  refine .seq (.attempt w.close_appends) fun r => ?_
  cases r with
  | ok => exact .ofExcept result
  | error fault => cases result <;> exact .throw _

/-- A compilation makes at most one request, which is for the given processor. -/
theorem compile_appends (content : b.compiler = ContentCompiler.ofAnswers answer) (unit : String)
    (source : Option String) (processor : Option Processor) :
    Appends 1 (fun c => c.request.processor.map (·.className) = processor.map (·.className))
      (b.compile unit source processor) := by
  rw [compile_eq]
  cases UnitName.path? unit "java" with
  | none => exact .throw _
  | some place =>
    refine .seq Workspace.create_appends fun w => .bind (m := 0) (.attempt ?_) (settle_appends w)
    refine .seq (prepare_appends b w unit place source processor) fun sourceFile => ?_
    rw [content]
    refine .bind (m := 0) (ContentCompiler.call_appends answer fun _ => ?_) fun _ =>
      .seq .disk fun _ => .ofExcept _
    cases processor <;> rfl

/-- **A compilation leaves nothing** but the one request, if it has got that far. What it gives does not depend on
the requests before. -/
theorem compile_leaves (content : b.compiler = ContentCompiler.ofAnswers answer) (unit source : String)
    (processor : Option Processor) (plain : ∀ p ∈ processor, p.artifacts.IsPlain) {h : Host}
    (wf : h.disk.tree.WellFormed) :
    ∃ (r : Except CompileError (Option ArtifactSet)) (log : List CompilerCall), log.length ≤ 1 ∧
      (∀ c ∈ log, c.request.processor.map (·.className) = processor.map (·.className)) ∧
      (∀ set, r = .ok (some set) → set.IsPlain) ∧
      ∀ calls, (b.compile unit (some source) processor).outcome { h with calls := calls } =
        (r, { h with calls := log ++ calls }) := by
  obtain ⟨r, h', log, few, kind, appends⟩ := compile_appends content unit (some source) processor h
  have called (request : CompileRequest) :
      (ContentCompiler.call answer request).run = b.compiler.call request :=
    content ▸ ContentCompiler.run_call answer request
  obtain ⟨made, calls', left⟩ := (Job.similar_compile h.disk.tree b answer unit source plain).run wf
    h h (t := default) (.outside rfl) (.outside rfl) rfl
  have here := appends h.calls
  rw [Job.run_compile called] at made left
  have same : ({ h' with calls := log ++ h.calls } : Host) = { h with calls := calls' ++ h.calls } :=
    (congrArg Prod.snd here).symm.trans left
  have given : ((b.compile unit (some source) processor).outcome h).1 = r := congrArg Prod.fst here
  refine ⟨r, log, few, kind, fun set some_ => ?_, fun calls => ?_⟩
  · rw [given, some_] at made
    cases made with
    | ok same => exact same.2 set rfl
  rw [appends]
  exact congrArg (fun h : Host => (r, { h with calls := log ++ calls })) same

end Workbench

end ProcessorBench
