import Porla.Proofs.WorkflowSequencing

/-! `Complete` called by any action, at any time and as often as it likes. The
runner does not know who calls it: the `k`-th call is taken as the output of step
`k` and runs step `k + 1`, whichever action made it. An action that calls back
twice hands its second output to the step after it, and has the step after that
run while the other is still going. Once every step has an output, `Complete`
throws `out_of_range` from `m_step_instances.at` and changes nothing, so
`m_current_index` never passes the number of steps. -/

namespace Porla.Proofs.WorkflowCallbacks
open Porla.Workflows WorkflowSequencing LoopingWorkflowRunner

/-- The runner built by `Execute` once the calls `done` of `Complete` are in. -/
def after (contexts : Contexts) (instances : List StepInstance) (done : List Json) : LoopingWorkflowRunner :=
  { LoopingWorkflowRunner.create contexts instances with
    currentIndex := min done.length instances.length
    outputs := outputsAfter (done.take instances.length) }

/-- What the call of `Complete` made after the calls `done` shows: while a step has
no output, the call is that step's and runs the next one, whose renders see every
output so far; after the last step it throws. -/
def callEvents (contexts : Contexts) (instances : List StepInstance) (done : List Json) (output : Json) :
    List Workflows.Event :=
  if done.length < instances.length then
    .completed done.length output ::
      match instances.get? (done.length + 1) with
      | some inst => [.invoked (done.length + 1) inst.step.uses (runnerSeen contexts (done ++ [output]))]
      | none => []
  else [.completed instances.length output, .escaped "vector::_M_range_check"]

/-- The calls `later`, made after the calls `done`. -/
def callLog (contexts : Contexts) (instances : List StepInstance) : List Json → List Json → List Workflows.Event
  | _, [] => []
  | done, output :: later =>
    callEvents contexts instances done output ++ callLog contexts instances (done ++ [output]) later

section
variable (contexts : Contexts) (instances : List StepInstance)

theorem after_nil : after contexts instances [] = LoopingWorkflowRunner.create contexts instances := by
  simp [after, LoopingWorkflowRunner.create, outputsAfter]

theorem after_currentIndex {done : List Json} (within : done.length ≤ instances.length) :
    (after contexts instances done).currentIndex = done.length :=
  Nat.min_eq_left within

theorem after_outputs {done : List Json} (within : done.length ≤ instances.length) :
    (after contexts instances done).outputs = outputsAfter done := by
  simp only [after, List.take_of_length_le within]

theorem provide_after {done : List Json} (within : done.length ≤ instances.length) :
    (after contexts instances done).provide "steps" = runnerSeen contexts done := by
  rw [provide_steps contexts _ rfl, after_outputs contexts instances within]
  rfl

theorem after_current {done : List Json} (pending : done.length < instances.length) :
    (after contexts instances done).current = .ok instances[done.length] := by
  rw [LoopingWorkflowRunner.current, after_currentIndex contexts instances pending.le]
  simp [after, LoopingWorkflowRunner.create, pending]

theorem after_current_past {done : List Json} (finished : instances.length ≤ done.length) :
    (after contexts instances done).current = .error "vector::_M_range_check" := by
  simp [LoopingWorkflowRunner.current, after, LoopingWorkflowRunner.create, Nat.min_eq_right finished]

/-- While a step has no output, `Run` invokes it with every output so far. -/
theorem run_after {done : List Json} (pending : done.length < instances.length) :
    (after contexts instances done).run =
      .invoked done.length instances[done.length].step.uses (runnerSeen contexts done) := by
  rw [run, after_current contexts instances pending, after_currentIndex contexts instances pending.le,
    provide_after contexts instances pending.le]

theorem complete_after {done : List Json} (output : Json) (pending : done.length < instances.length) :
    (after contexts instances done).complete output =
      .ok (after contexts instances (done ++ [output]), decide (done.length + 1 < instances.length)) := by
  have grown : (done ++ [output]).length ≤ instances.length := by simpa using pending
  simp only [LoopingWorkflowRunner.complete, after_current contexts instances pending,
    after_outputs contexts instances pending.le, pushBack_outputsAfter, after_currentIndex contexts instances pending.le,
    bind, Except.bind, pure, Except.pure]
  simp only [after, List.take_of_length_le grown, List.length_append, List.length_singleton,
    Nat.min_eq_left (pending : done.length + 1 ≤ instances.length)]
  rfl

/-- A call while a step has no output: that step's output, and the next step's
`Run` when there is one. -/
theorem onComplete_ahead (done : List Json) (output : Json) (pending : done.length < instances.length) :
    (after contexts instances done).onComplete output =
      (after contexts instances (done ++ [output]), callEvents contexts instances done output) := by
  rw [onComplete, complete_after contexts instances output pending, callEvents, if_pos pending,
    after_currentIndex contexts instances pending.le, List.get?_eq_getElem?]
  by_cases more : done.length + 1 < instances.length
  · have grown : (done ++ [output]).length < instances.length := by simpa using more
    simp only [more, decide_True, List.getElem?_eq_getElem more, run_after contexts instances grown,
      List.length_append, List.length_singleton]
  · simp only [more, decide_False, List.getElem?_eq_none (Nat.not_lt.mp more)]

/-- A call once every step has its output throws and changes nothing. -/
theorem onComplete_past (done : List Json) (output : Json) (finished : instances.length ≤ done.length) :
    (after contexts instances done).onComplete output =
      (after contexts instances (done ++ [output]), callEvents contexts instances done output) := by
  have unchanged : after contexts instances (done ++ [output]) = after contexts instances done := by
    simp only [after, List.length_append, List.length_singleton, List.take_append_of_le_length finished,
      Nat.min_eq_right finished, Nat.min_eq_right (Nat.le_succ_of_le finished)]
  have index : (after contexts instances done).currentIndex = instances.length := Nat.min_eq_right finished
  simp only [onComplete, LoopingWorkflowRunner.complete, after_current_past contexts instances finished, bind,
    Except.bind, unchanged, callEvents, if_neg (Nat.not_lt.mpr finished), index]

theorem onComplete_after (done : List Json) (output : Json) :
    (after contexts instances done).onComplete output =
      (after contexts instances (done ++ [output]), callEvents contexts instances done output) :=
  if pending : done.length < instances.length then onComplete_ahead contexts instances done output pending
  else onComplete_past contexts instances done output (Nat.not_lt.mp pending)

theorem onCompletes_after : ∀ (later done : List Json),
    (after contexts instances done).onCompletes later =
      (after contexts instances (done ++ later), callLog contexts instances done later)
  | [], done => by simp [onCompletes, callLog]
  | output :: later, done => by
    simp only [onCompletes, onComplete_after, onCompletes_after later, callLog, List.append_assoc,
      List.singleton_append]

end

/-- Whoever calls `Complete`, and however often: after the calls `payloads` the
runner is `after payloads`, and the calls show `callLog`. The `k`-th call is taken
as step `k`'s output and runs step `k + 1`, whose renders see the first `k + 1`
outputs; a call after the last step throws `out_of_range` and changes nothing. -/
theorem complete_calls_taken_in_order (contexts : Contexts) (instances : List StepInstance)
    (payloads : List Json) :
    (LoopingWorkflowRunner.create contexts instances).onCompletes payloads =
      (after contexts instances payloads, callLog contexts instances [] payloads) := by
  rw [← after_nil, onCompletes_after, List.nil_append]

/-- Step `a`'s action calls back twice: its second output is taken as step `b`'s,
and step `c` runs while `b` is still going. -/
example :
    let step : String → StepInstance := fun uses => ⟨⟨uses⟩, ⟨uses, .null⟩⟩
    callLog ∅ [step "a", step "b", step "c"] [] [.number 1, .number 2] =
      [.completed 0 (.number 1), .invoked 1 "b" (some (.array [.number 1])),
       .completed 1 (.number 2), .invoked 2 "c" (some (.array [.number 1, .number 2]))] := rfl

/-- The steps a log shows invoked, in the order it shows them. -/
def invocations (events : List Workflows.Event) : List Nat :=
  events.filterMap fun
    | .invoked index _ _ => some index
    | _ => none

theorem invocations_callEvents (contexts : Contexts) (instances : List StepInstance) (done : List Json)
    (output : Json) :
    invocations (callEvents contexts instances done output) =
      if done.length + 1 < instances.length then [done.length + 1] else [] := by
  unfold callEvents
  split
  · cases found : instances.get? (done.length + 1) with
    | none =>
      have past : instances.length ≤ done.length + 1 := List.get?_eq_none.mp found
      simp [invocations, Nat.not_lt.mpr past]
    | some inst =>
      have within : done.length + 1 < instances.length := (List.get?_eq_some.mp found).1
      simp [invocations, within]
  · simp [invocations, show ¬done.length + 1 < instances.length by omega]

theorem invocations_callLog (contexts : Contexts) (instances : List StepInstance) :
    ∀ (later done : List Json), invocations (callLog contexts instances done later) =
      (List.range' (done.length + 1) later.length).filter (· < instances.length)
  | [], _ => rfl
  | output :: later, done => by
    rw [callLog, invocations, List.filterMap_append, ← invocations, ← invocations, invocations_callEvents,
      invocations_callLog contexts instances later, List.length_cons, List.range'_succ, List.filter_cons,
      List.length_append, List.length_singleton]
    by_cases within : done.length + 1 < instances.length <;> simp [within]

/-- Whatever the actions do with their callbacks, the runner invokes each step at
most once and in order: after `Run` and `m` calls of `Complete`, the steps invoked
are exactly `0, …, m`, as far as there are steps. -/
theorem steps_invoked_once_in_order (contexts : Contexts) (instances : List StepInstance)
    (payloads : List Json) :
    invocations ((LoopingWorkflowRunner.create contexts instances).run ::
      ((LoopingWorkflowRunner.create contexts instances).onCompletes payloads).2) =
      (List.range (payloads.length + 1)).filter (· < instances.length) := by
  have log := invocations_callLog contexts instances payloads []
  rw [List.length_nil] at log
  rw [complete_calls_taken_in_order, List.range_eq_range', List.range'_succ, List.filter_cons, ← log]
  cases instances with
  | nil => rfl
  | cons first rest => simp [invocations, run, LoopingWorkflowRunner.current, LoopingWorkflowRunner.create]

end Porla.Proofs.WorkflowCallbacks
