import Porla.Workflows.Workflow

/-! The runner against the sequential executor of the spec: steps are invoked in
order, each after the previous one's `Complete`, and renders see the outputs so
far under `steps`. Two things differ from the spec's words: a caller's own
`steps` provider wins over the runner's, and before the first `Complete` the
runner's provider holds the default-constructed JSON value. An exception leaves
`Execute` only when there are no steps: `Run` reads `m_step_instances.at(0)` before
its `try`. -/

namespace Porla.Proofs.WorkflowSequencing
open Porla.Workflows

/-- What §4.F says renders read for `steps` once the outputs `done` are in: the
caller's own provider if it passed one, else the outputs as a JSON array. -/
def stepsSeen (contexts : Contexts) (done : List Json) : Option Json :=
  match contexts.lookup "steps" with
  | some value => some value
  | none => some (.array done)

/-- The run of §4.F: the step at the cursor is invoked; its `Complete(output)`
appends `output` and invokes the next step, unless it was the last; a throw
halts the run, and so does an action that never calls back. -/
def sequential (seen : List Json → Option Json) : List Step → List Json → List Outcome → List Workflows.Event
  | [], _, _ => []
  | step :: rest, done, outcomes =>
    .invoked done.length step.uses (seen done) ::
    match outcomes with
    | [] => []
    | .throws :: _ => [.failed done.length step.uses]
    | .completes output :: later =>
      .completed done.length output :: sequential seen rest (done ++ [output]) later

/-- `m_outputs` once the outputs `done` are in. -/
def outputsAfter : List Json → Json
  | [] => .null
  | done => .array done

/-- What the runner's renders read for `steps` once the outputs `done` are in. -/
def runnerSeen (contexts : Contexts) (done : List Json) : Option Json :=
  match contexts.lookup "steps" with
  | some value => some value
  | none => some (outputsAfter done)

theorem pushBack_outputsAfter (done : List Json) (output : Json) :
    (outputsAfter done).pushBack output = .ok (outputsAfter (done ++ [output])) := by
  cases done <;> rfl

private theorem dlookup_map_external (key : String) :
    ∀ entries : List (Σ _ : String, Json),
      (entries.map fun entry => (⟨entry.1, .external entry.2⟩ : Σ _ : String, ContextProvider)).dlookup key =
        (entries.dlookup key).map .external
  | [] => rfl
  | ⟨name, value⟩ :: entries => by
    by_cases same : key = name
    · subst same; simp [List.dlookup_cons_eq]
    · simp [List.dlookup, Ne.symm same, dlookup_map_external key entries]

theorem lookup_toProviders (contexts : Contexts) (key : String) :
    (toProviders contexts).lookup key = (contexts.lookup key).map .external :=
  dlookup_map_external key contexts.entries

/-- `std::map::insert` keeps the caller's `steps`; otherwise renders read `m_outputs`. -/
theorem provide_steps (contexts : Contexts) (runner : LoopingWorkflowRunner)
    (built : runner.contexts = mapInsert (toProviders contexts) "steps" .steps) :
    runner.provide "steps" =
      match contexts.lookup "steps" with
      | some value => some value
      | none => some runner.outputs := by
  have member : "steps" ∈ toProviders contexts ↔ "steps" ∈ contexts := by
    rw [← AList.lookup_isSome, ← AList.lookup_isSome, lookup_toProviders, Option.isSome_map']
  unfold LoopingWorkflowRunner.provide
  rw [built]
  by_cases bound : "steps" ∈ contexts
  · obtain ⟨value, found⟩ := Option.isSome_iff_exists.mp (AList.lookup_isSome.mpr bound)
    rw [mapInsert_of_mem _ (member.mpr bound), lookup_toProviders, found]
    rfl
  · rw [mapInsert_of_not_mem _ (mt member.mp bound), AList.lookup_insert,
      AList.lookup_eq_none.mpr bound]
    rfl

theorem current_ahead {runner : LoopingWorkflowRunner} {done : List Json}
    {inst : StepInstance} {later : List StepInstance} (index : runner.currentIndex = done.length)
    (ahead : runner.stepInstances.drop done.length = inst :: later) : runner.current = .ok inst := by
  have found : runner.stepInstances[done.length]? = some inst := by
    rw [← List.head?_drop, ahead]; rfl
  simp [LoopingWorkflowRunner.current, index, found]

theorem complete_ahead {runner : LoopingWorkflowRunner} {done : List Json}
    {inst : StepInstance} {later : List StepInstance} (output : Json)
    (outputs : runner.outputs = outputsAfter done) (index : runner.currentIndex = done.length)
    (ahead : runner.stepInstances.drop done.length = inst :: later) :
    runner.complete output =
      .ok ({ runner with currentIndex := done.length + 1, outputs := outputsAfter (done ++ [output]) },
        !later.isEmpty) := by
  have size : runner.stepInstances.length = done.length + 1 + later.length := by
    have := congrArg List.length ahead
    simp only [List.length_drop, List.length_cons] at this
    omega
  simp only [LoopingWorkflowRunner.complete, current_ahead index ahead, outputs,
    pushBack_outputsAfter, index, size, bind, Except.bind, pure, Except.pure]
  cases later <;> simp

/-- A runner whose cursor stands after the outputs `done`, with the steps `rest`
still ahead of it, emits the spec's run of `rest`. -/
theorem drive_sequential (contexts : Contexts) :
    ∀ (outcomes : List Outcome) (runner : LoopingWorkflowRunner) (done : List Json)
      (inst : StepInstance) (later : List StepInstance),
      runner.contexts = mapInsert (toProviders contexts) "steps" .steps →
      runner.outputs = outputsAfter done → runner.currentIndex = done.length →
      runner.stepInstances.drop done.length = inst :: later →
      runner.drive outcomes =
        sequential (runnerSeen contexts) ((inst :: later).map (·.step)) done outcomes := by
  intro outcomes
  induction outcomes with
  | nil =>
    intro runner done inst later built outputs index ahead
    simp [LoopingWorkflowRunner.drive, current_ahead index ahead, sequential,
      provide_steps contexts runner built, runnerSeen, outputs, index]
  | cons outcome outcomes ih =>
    intro runner done inst later built outputs index ahead
    have seen : runner.provide "steps" = runnerSeen contexts done := by
      rw [provide_steps contexts runner built, outputs]; rfl
    cases outcome with
    | throws =>
      simp [LoopingWorkflowRunner.drive, current_ahead index ahead, sequential, seen, index]
    | completes output =>
      unfold LoopingWorkflowRunner.drive
      simp only [current_ahead index ahead, seen, index, complete_ahead output outputs index ahead,
        List.map_cons, sequential]
      cases later with
      | nil => simp [sequential]
      | cons next rest =>
        let advanced : LoopingWorkflowRunner :=
          { runner with currentIndex := done.length + 1, outputs := outputsAfter (done ++ [output]) }
        have later := ih advanced (done ++ [output]) next rest built rfl (by simp [advanced])
          (by simp [advanced, ← List.tail_drop, ahead])
        simp only [List.isEmpty_cons, Bool.not_false]
        rw [later]

theorem resolve_steps {factory : ActionFactory} :
    ∀ {steps : List Step} {instances : List StepInstance},
      resolve factory steps = .ok instances → instances.map (·.step) = steps
  | [], _, resolved => by cases resolved; rfl
  | step :: rest, instances, resolved => by
    unfold resolve at resolved
    split at resolved
    · cases resolved
    · cases found : resolve factory rest with
      | error _ => simp [found] at resolved; cases resolved
      | ok tail =>
        simp only [found, Except.map] at resolved
        cases resolved
        simp [resolve_steps found]

/-- A caller that already passes a provider named `steps` keeps it: the second
step's renders read the caller's value, not the first step's output. -/
theorem execute_keeps_caller_steps :
    Workflow.execute ⟨["torrent-finished"], "", [⟨"log", .null⟩, ⟨"log", .null⟩]⟩
        (fun name => some ⟨name⟩) (AList.singleton "steps" (.string "caller"))
        [.completes (.number 1), .completes (.number 2)] =
      [.invoked 0 "log" (some (.string "caller")), .completed 0 (.number 1),
       .invoked 1 "log" (some (.string "caller")), .completed 1 (.number 2)] :=
  rfl

/-- `Execute` on resolvable, non-empty steps is the sequential run of the spec:
each step is invoked once, in order, only after the previous one's `Complete`,
nothing after the last `Complete` or a throw, and renders read the spec's `steps`
everywhere except, when the caller has no `steps` of its own, before the first
`Complete`. -/
theorem execute_sequential (workflow : Workflow) (factory : ActionFactory)
    (contexts : Contexts) (outcomes : List Outcome) (instances : List StepInstance)
    (resolved : resolve factory workflow.steps = .ok instances) (nonempty : workflow.steps ≠ []) :
    ∃ seen : List Json → Option Json,
      (∀ done, done ≠ [] ∨ "steps" ∈ contexts → seen done = stepsSeen contexts done) ∧
      workflow.execute factory contexts outcomes = sequential seen workflow.steps [] outcomes := by
  refine ⟨runnerSeen contexts, ?_, ?_⟩
  · intro done shown
    unfold runnerSeen stepsSeen
    split
    · rfl
    · next missing =>
      have progressed : done ≠ [] := shown.resolve_right (by
        rw [← AList.lookup_isSome, missing]; exact Bool.false_ne_true)
      cases done with
      | nil => exact absurd rfl progressed
      | cons => rfl
  · have steps := resolve_steps resolved
    obtain ⟨inst, later, rfl⟩ := List.exists_cons_of_ne_nil
      (fun empty : instances = [] => nonempty (by rw [← steps, empty]; rfl))
    simp only [Workflow.execute, resolved]
    rw [← steps]
    exact drive_sequential contexts outcomes (.create contexts (inst :: later)) [] inst later
      rfl rfl rfl rfl

theorem execute_sequential_two_logs :
    resolve (fun name => some ⟨name⟩) [⟨"log", .null⟩, ⟨"log", .null⟩] =
        .ok [⟨⟨"log"⟩, ⟨"log", .null⟩⟩, ⟨⟨"log"⟩, ⟨"log", .null⟩⟩] ∧
      [(⟨"log", .null⟩ : Step), ⟨"log", .null⟩] ≠ [] ∧
      ∃ seen : List Json → Option Json,
        (∀ done, done ≠ [] ∨ "steps" ∈ (∅ : Contexts) → seen done = stepsSeen ∅ done) ∧
        Workflow.execute ⟨["torrent-finished"], "", [⟨"log", .null⟩, ⟨"log", .null⟩]⟩
            (fun name => some ⟨name⟩) ∅ [.completes (.number 1)] =
          sequential seen [⟨"log", .null⟩, ⟨"log", .null⟩] [] [.completes (.number 1)] :=
  ⟨rfl, List.cons_ne_nil _ _,
    execute_sequential ⟨["torrent-finished"], "", [⟨"log", .null⟩, ⟨"log", .null⟩]⟩ _ ∅ _ _ rfl
      (List.cons_ne_nil _ _)⟩

/-- The spec's run raises nothing: every `at` of the runner it stands for is in range. -/
theorem sequential_never_escapes (seen : List Json → Option Json) (what : String) :
    ∀ (steps : List Step) (done : List Json) (outcomes : List Outcome),
      Workflows.Event.escaped what ∉ sequential seen steps done outcomes
  | [], _, _ => List.not_mem_nil _
  | step :: rest, done, outcomes => by
    cases outcomes with
    | nil => simp [sequential]
    | cons outcome later =>
      cases outcome with
      | throws => simp [sequential]
      | completes output => simpa [sequential] using sequential_never_escapes seen what rest _ later

/-- `Execute` lets an exception out exactly when the workflow has no steps, whatever
the factory, the contexts and the actions do; it is then `at(0)` of the empty list. -/
theorem execute_escapes_iff_no_steps (workflow : Workflow) (factory : ActionFactory)
    (contexts : Contexts) (outcomes : List Outcome) :
    (∃ what, Workflows.Event.escaped what ∈ workflow.execute factory contexts outcomes) ↔
      workflow.steps = [] := by
  unfold Workflow.execute
  split
  · next uses failed =>
    refine ⟨fun ⟨what, mem⟩ => by simp at mem, fun empty => ?_⟩
    rw [empty] at failed
    cases failed
  · next instances resolved =>
    cases instances with
    | nil =>
      have empty := resolve_steps resolved
      exact ⟨fun _ => empty.symm, fun _ => ⟨"vector::_M_range_check", by
        unfold LoopingWorkflowRunner.drive; exact List.mem_singleton_self _⟩⟩
    | cons inst later =>
      have steps := resolve_steps resolved
      rw [drive_sequential contexts outcomes (.create contexts (inst :: later)) [] inst later
        rfl rfl rfl rfl, steps]
      exact ⟨fun ⟨what, mem⟩ => absurd mem (sequential_never_escapes _ what _ _ _),
        fun empty => absurd (steps.trans empty) (List.cons_ne_nil _ _)⟩

end Porla.Proofs.WorkflowSequencing
