import AgentFlow.Chat.Turn
import AgentFlow.Text.Search

/-!
# Scripted models

Stand-ins for models, to try out flows. A model replays turns, or answers by rules about the last
request, or replays streams piece by piece, with all that can happen to a stream.
-/

namespace AgentFlow

/-- One turn of a scripted model. -/
inductive ScriptedTurn where
  | text (text : String)
  /-- Tool calls, each a name and an input, behind a text. -/
  | calls (text : String) (calls : List (String × Value))
  /-- The text of the user behind a fixed text. -/
  | echo (before : String)
  /-- The request does not reach the model. -/
  | unreachable (message : String)
deriving DecidableEq

/-- An answer for the requests that meet all conditions. -/
structure Rule where
  /-- The last text of the user contains a text. -/
  contains : Option String := none
  /-- The last message holds the result of a tool, or does not. -/
  result : Option Bool := none
  /-- The last message holds a failed result of a tool, or does not. -/
  errorResult : Option Bool := none
  turn : ScriptedTurn
deriving DecidableEq

/-- A stream with what happens around it. -/
structure RawTurn where
  reply : ModelReply
  /-- Whether the run is cancelled while the model answers. -/
  cancels : Bool := false
deriving DecidableEq

/-- A scripted model. -/
inductive ModelScript where
  /-- One turn a request. -/
  | replay (turns : List ScriptedTurn)
  /-- The turn of the first rule that applies. -/
  | rules (rules : List Rule) (otherwise : ScriptedTurn)
  /-- One stream a request. -/
  | raw (turns : List RawTurn)

namespace ModelRequest

/-- The last text of the user. -/
def lastUserText (request : ModelRequest) : String :=
  match request.messages.reverse.find? fun m => m.role = .user && !m.text.isEmpty with
  | some message => message.text
  | none => ""

/-- Whether the last message holds the result of a tool; `failed` ones only, if asked. -/
def endsWithResult (request : ModelRequest) (failedOnly : Bool) : Bool :=
  match request.messages.getLast? with
  | none => false
  | some message => message.content.any fun
    | .toolResult _ _ isError => isError || !failedOnly
    | _ => false

end ModelRequest

/-- Whether all conditions of a rule hold of a request. -/
def Rule.applies (rule : Rule) (request : ModelRequest) : Bool :=
  (rule.contains.all fun text => Text.contains text.toList request.lastUserText.toList) &&
  (rule.result.all fun expected => request.endsWithResult false = expected) &&
  (rule.errorResult.all fun expected => request.endsWithResult true = expected)

/-- The pieces of tool calls, numbered from `index`, with ids numbered from `id`. -/
def callDeltas : Nat → Nat → List (String × Value) → List Delta
  | _, _, [] => []
  | index, id, (name, input) :: rest =>
    .toolStart index ("call_" ++ integerText id) name ::
      .toolInput index (Json.compact input) :: callDeltas (index + 1) (id + 1) rest

namespace ScriptedTurn

/-- The stream of a turn when a number of calls were made before. -/
def reply (turn : ScriptedTurn) (callsBefore : Nat) (request : ModelRequest) : ModelReply :=
  match turn with
  | text t => ⟨[.text t], .complete⟩
  | calls t cs =>
    ⟨(if t.isEmpty then [] else [.text t]) ++ callDeltas 0 callsBefore cs, .complete⟩
  | echo before => ⟨[.text (before ++ request.lastUserText)], .complete⟩
  | unreachable message => .refused (.modelTransport message)

/-- The number of tool calls of a turn. -/
def callCount : ScriptedTurn → Nat
  | calls _ cs => cs.length
  | _ => 0

end ScriptedTurn

/-- The reply when a script has no turn left. -/
def exhausted : ModelReply := .refused (.modelTransport "script exhausted")

/-- A scripted model at work. -/
structure ScriptedModel where
  script : ModelScript
  /-- The tool calls that it made. -/
  calls : Nat := 0

namespace ScriptedModel

/-- The reply of one turn. -/
def play (model : ScriptedModel) (turn : ScriptedTurn) (request : ModelRequest)
    (script : ModelScript) : ModelReply × Bool × ScriptedModel :=
  (turn.reply model.calls request, false, ⟨script, model.calls + turn.callCount⟩)

/-- The reply to a request, whether it cancels the run, and the model behind it. -/
def ask (model : ScriptedModel) (request : ModelRequest) : ModelReply × Bool × ScriptedModel :=
  match model.script with
  | .replay (turn :: rest) => model.play turn request (.replay rest)
  | .rules rules otherwise =>
    match rules.find? fun rule => rule.applies request with
    | some rule => model.play rule.turn request model.script
    | none => model.play otherwise request model.script
  | .raw (turn :: rest) => (turn.reply, turn.cancels, { model with script := .raw rest })
  | .replay [] | .raw [] => (exhausted, false, model)

end ScriptedModel

end AgentFlow
