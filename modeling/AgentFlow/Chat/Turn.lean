import AgentFlow.Json.Reader
import AgentFlow.Chat.Message
import AgentFlow.Error
import AgentFlow.Text.Blank

/-!
# Turns of a model

A model answers in a stream of small pieces: of text, and of tool calls that are numbered and
whose input arrives in fragments. A turn is what the pieces add up to.
-/

namespace AgentFlow

/-- Why a model stopped. -/
inductive StopReason where
  | endTurn
  | toolUse
  | maxTokens
  | stopSequence
deriving DecidableEq

/-- A piece of an answer. -/
inductive Delta where
  | text (chunk : String)
  /-- The start of the tool call with a number. -/
  | toolStart (index : Nat) (id name : String)
  /-- A fragment of the input of the tool call with a number. -/
  | toolInput (index : Nat) (fragment : String)
  | stop (reason : StopReason)
  | usage (inputTokens outputTokens : Nat)
deriving DecidableEq

/-- A tool call that a model asks for. -/
structure ToolUse where
  id : String
  name : String
  input : Value
deriving DecidableEq

/-- A finished answer. -/
structure Turn where
  text : String
  calls : List ToolUse
deriving DecidableEq

/-- A tool call while its pieces arrive. -/
structure CallDraft where
  id : String := ""
  name : String := ""
  input : String := ""
deriving DecidableEq

/-- The input of a call: blank text is an empty map, and text that is not JSON is null. -/
def CallDraft.value (draft : CallDraft) : Value :=
  if Text.isAllBlank draft.input then .map []
  else (Json.read? draft.input).getD .null

/-- The call with a number, unless its name is empty. A call without an id is given one. -/
def CallDraft.finish? (index : Nat) (draft : CallDraft) : Option ToolUse :=
  if draft.name.isEmpty then none
  else
    let id := if draft.id.isEmpty then "call_" ++ integerText index else draft.id
    some ⟨id, draft.name, draft.value⟩

/-- An answer while its pieces arrive. -/
structure TurnDraft where
  text : String := ""
  calls : List CallDraft := []
deriving DecidableEq

namespace TurnDraft

/-- The drafts, extended by empty ones so that there is one with the number. -/
def extend (calls : List CallDraft) (index : Nat) : List CallDraft :=
  calls ++ List.replicate (index + 1 - calls.length) ⟨"", "", ""⟩

/-- Adds a piece. A fragment for a call that is not there is lost. -/
def add (draft : TurnDraft) : Delta → TurnDraft
  | .text chunk => { draft with text := draft.text ++ chunk }
  | .toolStart index id name =>
    { draft with
      calls := (extend draft.calls index).modify index fun call => { call with id, name } }
  | .toolInput index fragment =>
    { draft with
      calls := draft.calls.modify index fun call => { call with input := call.input ++ fragment } }
  | .stop _ | .usage _ _ => draft

/-- Adds pieces in order. -/
def addAll (draft : TurnDraft) (deltas : List Delta) : TurnDraft := deltas.foldl add draft

/-- The turn that the pieces add up to. -/
def finish (draft : TurnDraft) : Turn :=
  ⟨draft.text, draft.calls.zipIdx.filterMap fun (call, index) => call.finish? index⟩

end TurnDraft

/-- The turn that a stream of pieces adds up to. -/
def Turn.ofDeltas (deltas : List Delta) : Turn := (TurnDraft.addAll {} deltas).finish

/-- A turn as a message: its text, if it has any, and its calls. -/
def Turn.message (turn : Turn) : Message :=
  let text := if turn.text.isEmpty then [] else [Block.text turn.text]
  ⟨.assistant, text ++ turn.calls.map fun call => .toolUse call.id call.name call.input⟩

/-- How a stream of pieces ends. -/
inductive StreamEnd where
  | complete
  | broken (error : Error)
  /-- The run was cancelled before the stream ended. -/
  | interrupted
deriving DecidableEq

/-- What comes back for a request: the pieces that arrived and how the stream ended. A request
that is refused is a stream that breaks at once. -/
structure ModelReply where
  deltas : List Delta
  ending : StreamEnd
deriving DecidableEq

/-- The reply to a refused request. -/
def ModelReply.refused (error : Error) : ModelReply := ⟨[], .broken error⟩

end AgentFlow
