import Mathlib.Tactic.SplitIfs
import AgentFlow.Step.Model

/-!
# A conversation turn by turn

A round of a conversation has two halves, with the model's turn between them. In the first, the
calls of the last turn are handled, and the conversation stops or has something to send (`deal`); in
the second, the turn is followed up (`followUp`), and the conversation stops or goes on. Both are
plain functions, so that what is shown of them needs no word about effects. `converse_eq` puts a
round together from them, and `rounds_induct` is the induction over the rounds that are left.
-/

namespace AgentFlow

/-- The results of the calls are sent, if there are any. -/
def Talk.sent (talk : Talk) : Talk := if !talk.observations.isEmpty then talk.feedBack else talk

namespace ModelStep

/-- How the calls of a turn leave a conversation: it stops, or the model is asked again. -/
inductive Dealt where
  | stops (outcome : ModelOutcome)
  | asks (talk : Talk)

/-- How a turn of the model is followed up: the conversation stops, or goes on with the calls of the
turn, or with another attempt at an answer. -/
inductive Sequel where
  | completes (fields : List (String × Value))
  | fails (error : Error)
  | calls (talk : Talk) (calls : List ToolUse)
  | retries (talk : Talk) (message : String)

variable (setting : Setting) (node : Node) (step : ModelStep) (brief : Brief) (steps attempts : Nat)

/-- What becomes of a conversation when calls were handled. -/
def deal : Handled → Dealt
  | .awaiting call pending talk =>
    .stops (.awaitApproval ⟨node.name, call.name, call.input⟩
      ⟨brief, talk, some call, pending, steps, attempts⟩)
  | .all talk =>
    if !talk.observations.isEmpty && talk.sent.isComplete node step then
      .stops (.complete
        { fields := (Answer.parse node.output "" talk.sent.captured).toOption.getD [] })
    else .asks talk.sent

/-- What becomes of a conversation after a turn of the model. -/
def followUp : AfterTurn → Sequel
  | .answer fields => .completes fields
  | .calls talk calls =>
    if steps < step.stepLimit setting.config then .calls talk calls
    else .fails (.toolLoop node.name (step.stepLimit setting.config))
  | .unusable talk fault =>
    if attempts < setting.config.retry.maxRetries then
      .retries (talk.say (.user (reprompt fault brief.schema))) fault.message
    else .fails (.unusableAnswer node.name fault.message)

/-- What is done after a turn of the model. -/
def goOn : Sequel → Work ModelOutcome
  | .completes fields => return .complete { fields }
  | .fails error => throw error
  | .calls talk calls => converse setting node step brief (steps + 1) attempts talk calls
  | .retries talk message => do
    Work.lift (Activity.emit
      (.retryNotice node.name (attempts + 1) setting.config.retry.maxRetries message))
    converse setting node step brief steps (attempts + 1) talk []

/-- What is left of a round when the calls were dealt with. -/
def turnAfter : Dealt → Work ModelOutcome
  | .stops outcome => return outcome
  | .asks talk => do
    let turn ← askWithRetry setting.config.retry node.name (request setting brief talk)
      setting.config.retry.maxRetries
    goOn setting node step brief steps attempts
      (followUp setting node step brief steps attempts (weigh node talk turn))

/-- A conversation is a round, and what is done after it. -/
theorem converse_eq (talk : Talk) (calls : List ToolUse) :
    converse setting node step brief steps attempts talk calls = (do
      if ← Work.lift Activity.poll then throw .cancelled
      let handled ← handleCalls setting node step brief talk calls
      turnAfter setting node step brief steps attempts
        (deal node step brief steps attempts handled)) := by
  rw [converse]
  refine bind_congr fun cancelled => ?_
  cases cancelled with
  | true => rfl
  | false =>
    refine bind_congr fun handled => ?_
    cases handled with
    | awaiting call pending talk => rfl
    | all talk =>
      -- What is sent is `talk.sent`, both in the test and in what is asked.
      dsimp only [deal]
      rw [← Talk.sent]
      by_cases hstop : (!talk.observations.isEmpty && talk.sent.isComplete node step) = true
      · rw [if_pos hstop, if_pos hstop]
        rfl
      · rw [if_neg hstop, if_neg hstop]
        refine bind_congr fun turn => ?_
        cases weigh node talk.sent turn with
        | answer fields => rfl
        | calls talk calls =>
          unfold followUp
          dsimp only
          split <;> rfl
        | unusable talk fault =>
          unfold followUp
          dsimp only
          split <;> rfl

variable {setting node step brief steps attempts}

/-- A conversation goes on with calls only if it has a step left. -/
theorem lt_of_followUp_calls {next : AfterTurn} {talk : Talk} {calls : List ToolUse}
    (h : followUp setting node step brief steps attempts next = .calls talk calls) :
    steps < step.stepLimit setting.config := by
  unfold followUp at h
  split at h
  · cases h
  · split_ifs at h with hsteps
    exact hsteps
  · split_ifs at h

/-- A conversation goes on with another attempt only if it has one left. -/
theorem lt_of_followUp_retries {next : AfterTurn} {talk : Talk} {message : String}
    (h : followUp setting node step brief steps attempts next = .retries talk message) :
    attempts < setting.config.retry.maxRetries := by
  unfold followUp at h
  split at h
  · cases h
  · split_ifs at h
  · split_ifs at h with hattempts
    exact hattempts

/-- What holds of a round if it holds of those that can follow it holds of all rounds. -/
theorem rounds_induct (setting : Setting) (step : ModelStep) {motive : Nat → Nat → Prop}
    (round : ∀ steps attempts,
      (steps < step.stepLimit setting.config → motive (steps + 1) attempts) →
      (attempts < setting.config.retry.maxRetries → motive steps (attempts + 1)) →
      motive steps attempts) (steps attempts : Nat) : motive steps attempts := by
  induction hleft : (step.stepLimit setting.config - steps) +
      (setting.config.retry.maxRetries - attempts) using Nat.strongRecOn
    generalizing steps attempts with
  | ind left ih =>
    -- Every further round uses up a step or an attempt.
    refine round steps attempts (fun hsteps => ?_) fun hattempts => ?_
    · exact ih _ (by omega) _ _ rfl
    · exact ih _ (by omega) _ _ rfl

end ModelStep

end AgentFlow
