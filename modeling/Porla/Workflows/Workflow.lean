import Porla.Map

/-! The workflow runner of `src/workflows/workflow.cpp`. `Execute` constructs every
step's action, then a `LoopingWorkflowRunner` invokes them one at a time: each
step's `Complete` appends its output to the `steps` provider and runs the next. -/

namespace Porla.Workflows

/-- An `nlohmann::json` value. -/
inductive Json
  | null
  | boolean (value : Bool)
  | number (value : Int)
  | string (value : String)
  | array (items : List Json)
  | object (fields : List (String × Json))

/-- `nlohmann::json::push_back`: `null` becomes a one-element array, an array grows
at its end, and any other value throws `type_error`. -/
def Json.pushBack : Json → Json → Except String Json
  | .null, item => .ok (.array [item])
  | .array items, item => .ok (.array (items ++ [item]))
  | _, _ => .error "[json.exception.type_error.308] cannot use push_back()"

structure Step where
  uses : String
  with' : Json

/-- An action the factory constructed, known by the name it was built for. -/
structure Action where
  name : String

/-- `ActionFactory::Construct`: `none` for a name the factory does not know. -/
def ActionFactory := String → Option Action

structure StepInstance where
  action : Action
  step : Step

/-- A provider in the runner's map: its own `steps` provider, whose value is the
runner's `m_outputs`, or one of the caller's, with the value it provides. -/
inductive ContextProvider
  | steps
  | external (value : Json)

/-- The caller's map of context providers, each given by the value it provides. -/
abbrev Contexts := AList (fun _ : String => Json)

def toProviders (contexts : Contexts) : AList (fun _ : String => ContextProvider) :=
  ⟨contexts.entries.map fun entry => ⟨entry.1, .external entry.2⟩, by
    simpa [List.NodupKeys, List.keys, Function.comp_def] using contexts.nodupKeys⟩

structure LoopingWorkflowRunner where
  contexts : AList (fun _ : String => ContextProvider)
  outputs : Json
  stepInstances : List StepInstance
  currentIndex : Nat

namespace LoopingWorkflowRunner

/-- The constructor: the caller's map with the fresh `steps` provider inserted by
`std::map::insert`, and the default-constructed `m_outputs`. -/
def create (contexts : Contexts) (stepInstances : List StepInstance) : LoopingWorkflowRunner where
  contexts := mapInsert (toProviders contexts) "steps" .steps
  outputs := .null
  stepInstances := stepInstances
  currentIndex := 0

/-- What a render through the step's params reads for `name`. -/
def provide (runner : LoopingWorkflowRunner) (name : String) : Option Json :=
  (runner.contexts.lookup name).map fun
    | .steps => runner.outputs
    | .external value => value

/-- `m_step_instances.at(m_current_index)`. -/
def current (runner : LoopingWorkflowRunner) : Except String StepInstance :=
  match runner.stepInstances.get? runner.currentIndex with
  | some inst => .ok inst
  | none => .error "vector::_M_range_check"

/-- `Complete(j)`: the runner and whether it goes on to `Run` the next step. -/
def complete (runner : LoopingWorkflowRunner) (output : Json) :
    Except String (LoopingWorkflowRunner × Bool) := do
  let _ ← runner.current
  let outputs ← runner.outputs.pushBack output
  let next := { runner with currentIndex := runner.currentIndex + 1, outputs := outputs }
  pure (next, next.currentIndex < next.stepInstances.length)

end LoopingWorkflowRunner

/-- What an invoked action does: call `Complete` once with an output, inside
`Invoke` or later, or throw from `Invoke` before calling it. -/
inductive Outcome
  | completes (output : Json)
  | throws

/-- What a workflow run shows: the log lines, the invocations with what renders
read for `steps` while the step runs, and an exception that leaves the runner. -/
inductive Event
  | invalidAction (uses : String)
  | invoked (index : Nat) (uses : String) (steps : Option Json)
  | completed (index : Nat) (output : Json)
  | failed (index : Nat) (uses : String)
  | escaped (what : String)

namespace LoopingWorkflowRunner

/-- `Run`, then the invoked actions' outcomes in the order they happen; the list
ends where an action has not called back. -/
def drive (runner : LoopingWorkflowRunner) (outcomes : List Outcome) : List Event :=
  match runner.current, outcomes with
  | .error what, _ => [.escaped what]
  | .ok inst, [] => [.invoked runner.currentIndex inst.step.uses (runner.provide "steps")]
  | .ok inst, .throws :: _ =>
    [.invoked runner.currentIndex inst.step.uses (runner.provide "steps"),
     .failed runner.currentIndex inst.step.uses]
  | .ok inst, .completes output :: later =>
    .invoked runner.currentIndex inst.step.uses (runner.provide "steps") ::
    .completed runner.currentIndex output ::
    match runner.complete output with
    | .error what => [.escaped what]
    | .ok (next, true) => next.drive later
    | .ok (_, false) => []

/-- `Run` on its own: the current step's invocation, or the `out_of_range` of
`m_step_instances.at`, which leaves `Run` before its `try`. -/
def run (runner : LoopingWorkflowRunner) : Event :=
  match runner.current with
  | .ok inst => .invoked runner.currentIndex inst.step.uses (runner.provide "steps")
  | .error what => .escaped what

/-- `Complete(j)` from any action at any time, inside its `Invoke` or later, once or
more often: the call, then the exception that leaves `Complete` or the next
step's `Run`. `Complete` does not know which action calls it. -/
def onComplete (runner : LoopingWorkflowRunner) (output : Json) : LoopingWorkflowRunner × List Event :=
  match runner.complete output with
  | .error what => (runner, [.completed runner.currentIndex output, .escaped what])
  | .ok (next, true) => (next, [.completed runner.currentIndex output, next.run])
  | .ok (next, false) => (next, [.completed runner.currentIndex output])

/-- Calls of `Complete` in the order they are made. -/
def onCompletes (runner : LoopingWorkflowRunner) : List Json → LoopingWorkflowRunner × List Event
  | [] => (runner, [])
  | output :: later =>
    let first := runner.onComplete output
    let rest := first.1.onCompletes later
    (rest.1, first.2 ++ rest.2)

end LoopingWorkflowRunner

structure Workflow where
  on' : List String
  condition : String
  steps : List Step

/-- The construction loop of `Execute`: the first unknown `uses` aborts it. -/
def resolve (factory : ActionFactory) : List Step → Except String (List StepInstance)
  | [] => .ok []
  | step :: rest =>
    match factory step.uses with
    | none => .error step.uses
    | some action => (resolve factory rest).map (⟨action, step⟩ :: ·)

namespace Workflow

/-- `ShouldExecute`, with `render` the raw-expression rendering of the condition
over the given contexts. -/
def shouldExecute (workflow : Workflow) (render : String → Json) (eventName : String) : Bool :=
  if eventName ∉ workflow.on' then false
  else if workflow.condition = "" then true
  else
    match render workflow.condition with
    | .boolean false | .null | .number 0 => false
    | _ => true

def execute (workflow : Workflow) (factory : ActionFactory) (contexts : Contexts)
    (outcomes : List Outcome) : List Event :=
  match resolve factory workflow.steps with
  | .error uses => [.invalidAction uses]
  | .ok instances => (LoopingWorkflowRunner.create contexts instances).drive outcomes

end Workflow

end Porla.Workflows
