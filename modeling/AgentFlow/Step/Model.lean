import AgentFlow.Retry
import AgentFlow.Step.Conversation
import AgentFlow.Tool.Invoke

/-!
# Model nodes

The conversation of a node with its model. A round handles the tool calls of the last turn, sends
their results, and asks the model again; an answer without tool calls is read into the declared
fields and ends the conversation. A call that needs the caller's approval suspends it: what is
needed to go on is a `Checkpoint`.

Both kinds of rounds that ask again are counted, rounds of tool calls and rounds after an answer
of no use, so that the conversation ends whatever the model answers.
-/

namespace AgentFlow

/-- What a node can use while it runs. -/
structure Setting where
  config : Config
  toolbox : Toolbox

/-- A conversation that waits for the caller's approval of a tool call. -/
structure Checkpoint where
  brief : Brief
  talk : Talk
  /-- The call that waits. -/
  awaiting : Option ToolUse
  /-- The calls of the same turn behind it. -/
  pending : List ToolUse
  /-- The turns with tool calls so far. -/
  steps : Nat
  /-- The answers of no use so far. -/
  parseAttempts : Nat
deriving DecidableEq

/-- How a conversation stops. -/
inductive ModelOutcome where
  | complete (result : NodeResult)
  | awaitApproval (request : ApprovalRequest) (checkpoint : Checkpoint)

namespace ModelStep

/-! ## The gate -/

/-- What happens to a tool call of the model. -/
inductive Gate where
  | run
  | ask
  | refuse (reason : String)
deriving DecidableEq

/-- A call has to be on the node's list of tools and then passes by the policy. -/
def gate (step : ModelStep) (policy : ApprovalPolicy) (call : ToolUse) : Gate :=
  if !step.tools.contains call.name then
    .refuse s!"Tool '{call.name}' is not available to this node"
  else match policy.decide call.name step.requireApproval with
    | .allow => .run
    | .needsApproval => .ask
    | .deny => .refuse (Error.approvalDenied call.name "blocked by policy").message

/-! ## Tool calls -/

/-- Runs a call and notes its result. -/
def runCall (setting : Setting) (node : Node) (step : ModelStep) (brief : Brief) (talk : Talk)
    (call : ToolUse) : Work Talk := do
  let toolCall : ToolCall := ⟨call.name, call.input, node.name, brief.itemIndex⟩
  let result ← toolCall.observed setting.toolbox
  return talk.record node step setting.config.engine.maxToolOutputChars call result

/-- Where handling the calls of a turn stops: at a call that needs approval, or behind the last
one. -/
inductive Handled where
  | awaiting (call : ToolUse) (pending : List ToolUse) (talk : Talk)
  | all (talk : Talk)

/-- Handles the calls of a turn in order, up to one that needs approval. -/
def handleCalls (setting : Setting) (node : Node) (step : ModelStep) (brief : Brief) :
    Talk → List ToolUse → Work Handled
  | talk, [] => return .all talk
  | talk, call :: rest =>
    match step.gate setting.config.approval call with
    | .run => do
      let talk ← runCall setting node step brief talk call
      handleCalls setting node step brief talk rest
    | .refuse reason =>
      handleCalls setting node step brief (talk.observe call reason true) rest
    | .ask => return .awaiting call rest talk

/-! ## Turns -/

/-- Adds the pieces of an answer in order, telling the observers its texts. -/
def listen (node : String) : TurnDraft → List Delta → Activity TurnDraft
  | draft, [] => return draft
  | draft, .text chunk :: rest => do
    Activity.emit (.textDelta node chunk)
    listen node (draft.add (.text chunk)) rest
  | draft, delta :: rest => listen node (draft.add delta) rest

/-- One request to the model. -/
def askOnce (node : String) (request : ModelRequest) : Work Turn := do
  let reply ← Work.lift (Activity.ask request)
  let draft ← Work.lift (listen node {} reply.deltas)
  match reply.ending with
  | .complete => return draft.finish
  | .broken error => throw error
  | .interrupted => throw .cancelled

/-- Asks the model, with `left` more attempts after a failure that is worth one. -/
def askWithRetry (retry : RetryConfig) (node : String) (request : ModelRequest) :
    Nat → Work Turn
  | 0 => askOnce node request
  | left + 1 => do
    match ← Work.lift (askOnce node request).activity with
    | .ok turn => return turn
    | .error error =>
      if !error.retryable then throw error
      let failures := retry.maxRetries - left
      Work.lift (Activity.emit (.retryNotice node failures retry.maxRetries error.message))
      if ← Work.lift (Activity.sleep (retry.backoff (failures - 1))) then throw .cancelled
      askWithRetry retry node request left

/-- The request that continues a conversation. -/
def request (setting : Setting) (brief : Brief) (talk : Talk) : ModelRequest where
  model := setting.config.model
  system := brief.system
  messages := talk.messages
  tools := brief.tools
  outputSchema := brief.schema

/-! ## The conversation -/

/-- The most turns with tool calls. -/
def stepLimit (step : ModelStep) (config : Config) : Nat :=
  match step.maxSteps with
  | some limit => limit.toNat
  | none => config.engine.maxToolSteps

/-- What comes after a turn of the model. -/
inductive AfterTurn where
  /-- The turn has tool calls. -/
  | calls (talk : Talk) (calls : List ToolUse)
  /-- The turn is an answer. -/
  | answer (fields : List (String × Value))
  /-- The turn is an answer of no use. -/
  | unusable (talk : Talk) (fault : Answer.Fault)

/-- What a turn of the model amounts to. -/
def weigh (node : Node) (talk : Talk) (turn : Turn) : AfterTurn :=
  let talk := talk.say turn.message
  if turn.calls.isEmpty then
    match Answer.parse node.output turn.text talk.captured with
    | .ok fields => .answer fields
    | .error fault => .unusable talk fault
  else .calls talk turn.calls

/-- Goes on with a conversation: handles the calls of the last turn, then asks the model, until
there is an answer or a call needs approval. -/
def converse (setting : Setting) (node : Node) (step : ModelStep) (brief : Brief)
    (steps attempts : Nat) (talk : Talk) (calls : List ToolUse) : Work ModelOutcome := do
  if ← Work.lift Activity.poll then throw .cancelled
  match ← handleCalls setting node step brief talk calls with
  | .awaiting call pending talk =>
    return .awaitApproval ⟨node.name, call.name, call.input⟩
      ⟨brief, talk, some call, pending, steps, attempts⟩
  | .all talk =>
    let observed := !talk.observations.isEmpty
    let talk := if observed then talk.feedBack else talk
    if observed && talk.isComplete node step then
      return .complete { fields := (Answer.parse node.output "" talk.captured).toOption.getD [] }
    let turn ← askWithRetry setting.config.retry node.name (request setting brief talk)
      setting.config.retry.maxRetries
    match weigh node talk turn with
    | .answer fields => return .complete { fields }
    | .calls talk calls =>
      if steps < step.stepLimit setting.config then
        converse setting node step brief (steps + 1) attempts talk calls
      else throw (.toolLoop node.name (step.stepLimit setting.config))
    | .unusable talk fault =>
      if attempts < setting.config.retry.maxRetries then
        Work.lift (Activity.emit (.retryNotice node.name (attempts + 1)
          setting.config.retry.maxRetries fault.message))
        converse setting node step brief steps (attempts + 1)
          (talk.say (.user (reprompt fault brief.schema))) []
      else throw (.unusableAnswer node.name fault.message)
termination_by
  (step.stepLimit setting.config - steps) + (setting.config.retry.maxRetries - attempts)

/-- Fills in the prompts and opens the conversation of a node. -/
def start (setting : Setting) (node : Node) (step : ModelStep) (vars : Lookup)
    (itemIndex : Option Nat) : Work ModelOutcome := do
  let system ← Work.ofExcept (match step.system with
    | some text => (Template.interpolate vars text).map some
    | none => .ok none)
  let prompt ← Work.ofExcept (Template.interpolate vars step.prompt)
  let answered := step.answered node.output
  let brief : Brief :=
    ⟨system, setting.toolbox.definitions step.tools, Answer.schema? answered, itemIndex⟩
  converse setting node step brief 0 0 (.opening (openingPrompt prompt answered)) []

/-- Applies the caller's decision to a call: it is run, or its refusal is noted. -/
def applyDecision (setting : Setting) (node : Node) (step : ModelStep) (brief : Brief)
    (talk : Talk) (call : ToolUse) : Decision → Work Talk
  | .approved => runCall setting node step brief talk call
  | .denied reason =>
    return talk.observe call (Error.approvalDenied call.name reason).message true

/-- Goes on with a conversation after the caller's decision on the call that waits. -/
def resume (setting : Setting) (node : Node) (step : ModelStep) (checkpoint : Checkpoint)
    (decision : Decision) : Work ModelOutcome :=
  match checkpoint.awaiting with
  | none => throw (.invalidResume "no tool call is awaiting approval")
  | some call => do
    let talk ← applyDecision setting node step checkpoint.brief checkpoint.talk call decision
    converse setting node step checkpoint.brief checkpoint.steps checkpoint.parseAttempts talk
      checkpoint.pending

end ModelStep

end AgentFlow
