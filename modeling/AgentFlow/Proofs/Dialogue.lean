import AgentFlow.Step.Model
import Mathlib.Data.List.Chain

/-!
# Dialogues

What a conversation has to be like whenever the model is asked: it starts with the prompt, user and
model take turns, the user has the last word, and a turn with tool calls is answered at once, call
by call.

Between two requests a conversation is not a dialogue: the calls of the last turn are handled one
after another, and any number of suspensions lies between them. What holds there is
`Talk.Awaits`: the results noted so far and the calls still to handle are, put together, the calls
of the last turn in their order. Noting a result moves a call from one side to the other
(`Awaits.answer`), and once no call is left, sending the results completes a dialogue
(`Awaits.feedBack`).
-/

namespace AgentFlow

/-- The id of the call that a block is the result of. -/
def Block.answeredId? : Block → Option String
  | .toolResult id _ _ => some id
  | _ => none

namespace Message

/-- The ids of the tool calls of a message, in order. -/
def callIds (message : Message) : List String := message.toolUses.map Prod.fst

/-- What may follow a message: a turn of the model after one of the user, and one of the user after
a turn of the model. If the turn has calls, the message that follows consists of their results, in
the order of the calls. -/
def FollowedBy (message next : Message) : Prop :=
  match message.role with
  | .user => next.role = .assistant
  | .assistant => next.role = .user ∧
      (message.callIds ≠ [] → next.content.map Block.answeredId? = message.callIds.map some)
  | _ => False

end Message

/-- A conversation that can be sent to the model. -/
structure Dialogue (prompt : String) (messages : List Message) : Prop where
  opens : messages.head? = some (.user prompt)
  follows : messages.IsChain Message.FollowedBy
  closes : ∀ last ∈ messages.getLast?, last.role = .user

/-! ## Turns -/

/-- The calls in the blocks of a message are those of its first part and then those of the rest. -/
theorem Message.callIds_append (role : Role) (first second : List Block) :
    (⟨role, first ++ second⟩ : Message).callIds =
      (⟨role, first⟩ : Message).callIds ++ (⟨role, second⟩ : Message).callIds := by
  unfold Message.callIds Message.toolUses
  rw [List.filterMap_append, List.map_append]

/-- The calls of a turn are the calls of its message. -/
theorem Turn.callIds_message (turn : Turn) :
    turn.message.callIds = turn.calls.map ToolUse.id := by
  have hcalls : ∀ calls : List ToolUse, (⟨.assistant, calls.map fun call =>
      .toolUse call.id call.name call.input⟩ : Message).callIds = calls.map ToolUse.id := by
    intro calls
    induction calls with
    | nil => rfl
    | cons call rest ih => exact congrArg (call.id :: ·) ih
  unfold message
  rw [Message.callIds_append, hcalls]
  split <;> rfl

namespace Dialogue

variable {prompt : String} {messages : List Message}

/-- A prompt on its own is a dialogue. -/
theorem opening (prompt : String) : Dialogue prompt [.user prompt] where
  opens := rfl
  follows := List.isChain_singleton _
  closes := fun last hlast => by
    obtain rfl : Message.user prompt = last := by simpa using hlast
    rfl

/-- A turn of the model and what may follow it continue a dialogue. -/
theorem turn (h : Dialogue prompt messages) {turn reply : Message} (hturn : turn.role = .assistant)
    (hreply : turn.FollowedBy reply) : Dialogue prompt (messages ++ [turn] ++ [reply]) := by
  have hfollows := hreply
  unfold Message.FollowedBy at hreply
  rw [hturn] at hreply
  refine ⟨?_, ?_, fun last hlast => ?_⟩
  · rw [List.append_assoc, List.head?_append, h.opens]
    rfl
  · refine (h.follows.append (List.isChain_singleton _) fun last hlast next hnext => ?_).append
      (List.isChain_singleton _) fun last hlast next hnext => ?_
    · obtain rfl : turn = next := by simpa using hnext
      unfold Message.FollowedBy
      rw [h.closes last hlast]
      exact hturn
    · obtain rfl : turn = last := by simpa using hlast
      obtain rfl : reply = next := by simpa using hnext
      exact hfollows
  · obtain rfl : reply = last := by simpa using hlast
    exact hreply.1

end Dialogue

/-! ## Between requests -/

/-- A conversation with calls of its last turn still to handle. -/
inductive Talk.Awaits (prompt : String) (talk : Talk) (calls : List ToolUse) : Prop where
  /-- The user had the last word. -/
  | settled (messages : Dialogue prompt talk.messages) (observations : talk.observations = [])
      (calls : calls = [])
  /-- The results noted and the calls left are the calls of the last turn. -/
  | asked (before : List Message) (turn : Message) (messages : talk.messages = before ++ [turn])
      (dialogue : Dialogue prompt before) (role : turn.role = .assistant)
      (some_calls : turn.callIds ≠ [])
      (order : talk.observations.map Block.answeredId? ++ calls.map (fun call => some call.id) =
        turn.callIds.map some)

namespace Talk.Awaits

variable {prompt : String} {talk : Talk} {calls : List ToolUse} {call : ToolUse}

/-- No call is left when a conversation opens. -/
theorem opening (prompt : String) : (Talk.opening prompt).Awaits prompt [] :=
  .settled (.opening prompt) rfl rfl

/-- Noting the result of the next call leaves the calls behind it. -/
theorem answer (h : talk.Awaits prompt (call :: calls)) {after : Talk} {content : String}
    {isError : Bool} (hmessages : after.messages = talk.messages)
    (hobservations : after.observations =
      talk.observations ++ [.toolResult call.id content isError]) :
    after.Awaits prompt calls := by
  cases h with
  | settled _ _ hcalls => simp at hcalls
  | asked before turn hm hd hr hs ho =>
    refine .asked before turn (hmessages.trans hm) hd hr hs ?_
    rw [hobservations, List.map_append, List.append_assoc]
    exact ho

/-- With an observation of the first call that is awaited, the others are still awaited. -/
theorem observe (h : talk.Awaits prompt (call :: calls)) (content : String) (isError : Bool) :
    (talk.observe call content isError).Awaits prompt calls :=
  h.answer rfl rfl

/-- With the result of the first call that is awaited, the others are still awaited. -/
theorem record (h : talk.Awaits prompt (call :: calls)) (node : Node) (step : ModelStep)
    (limit : Nat) (result : ToolResult) :
    (talk.record node step limit call result).Awaits prompt calls :=
  h.answer rfl rfl

/-- When no call is left, sending what was noted makes a dialogue. -/
theorem feedBack (h : talk.Awaits prompt []) :
    Dialogue prompt (if !talk.observations.isEmpty then talk.feedBack else talk).messages ∧
      (if !talk.observations.isEmpty then talk.feedBack else talk).observations = [] := by
  cases h with
  | settled hd ho _ =>
    rw [ho]
    exact ⟨hd, ho⟩
  | asked before turn hm hd hr hs ho =>
    rw [List.map_nil, List.append_nil] at ho
    have hne : talk.observations ≠ [] := fun hn => by
      rw [hn] at ho
      exact hs (List.map_eq_nil_iff.1 ho.symm)
    have hsend : (!talk.observations.isEmpty) = true := by simpa using hne
    rw [if_pos hsend]
    refine ⟨?_, rfl⟩
    unfold Talk.feedBack
    rw [hm]
    refine hd.turn hr ?_
    unfold Message.FollowedBy
    rw [hr]
    exact ⟨rfl, fun _ => ho⟩

end Talk.Awaits

namespace ModelStep

variable {prompt : String} {node : Node} {talk after : Talk} {turn : Turn}

/-- A turn with calls leaves just these calls to handle. -/
theorem awaits_of_weigh_calls {calls : List ToolUse} (hd : Dialogue prompt talk.messages)
    (ho : talk.observations = []) (h : weigh node talk turn = .calls after calls) :
    after.Awaits prompt calls := by
  unfold weigh at h
  split_ifs at h with hcalls
  · dsimp only at h
    split at h <;> simp at h
  · obtain ⟨rfl, rfl⟩ := AfterTurn.calls.inj h
    refine .asked talk.messages turn.message rfl hd rfl ?_ ?_
    · rw [Turn.callIds_message]
      simpa using hcalls
    · rw [Turn.callIds_message, List.map_map]
      show talk.observations.map _ ++ _ = _
      rw [ho]
      rfl

/-- The answer to a turn of no use settles the conversation. -/
theorem awaits_of_weigh_unusable {fault : Answer.Fault} (hd : Dialogue prompt talk.messages)
    (ho : talk.observations = []) (h : weigh node talk turn = .unusable after fault)
    (text : String) : (after.say (.user text)).Awaits prompt [] := by
  unfold weigh at h
  split_ifs at h with hcalls
  dsimp only at h
  split at h
  · simp at h
  · obtain ⟨rfl, -⟩ := AfterTurn.unusable.inj h
    have hnone : turn.message.callIds = [] := by
      rw [Turn.callIds_message, List.isEmpty_iff.1 hcalls]
      rfl
    exact .settled (hd.turn rfl ⟨rfl, fun hne => absurd hnone hne⟩) ho rfl

end ModelStep

end AgentFlow
