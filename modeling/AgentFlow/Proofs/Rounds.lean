import AgentFlow.Proofs.Progress

/-!
# Conversations are bounded

A conversation keeps step with the account of its transcript: it asks only as long as the account
leaves it room, and where it stops is what the account says (`Progress.Follows`). The conversation's
own counters, of steps and of attempts, are what the account has counted (`Progress.Stands`); since
they are in the checkpoint, that survives suspensions. So the bounds hold of whole executions,
whatever the replies and the caller's decisions are, and the account tells which of the two errors
of a conversation that is given up it ends with, if either (`Transcript.bounded`).
-/

namespace AgentFlow

/-- The errors of a conversation that is given up. -/
def Error.IsExhaustion : Error → Prop
  | .toolLoop _ _ | .unusableAnswer _ _ => True
  | _ => False

namespace Template

variable {vars : Lookup} {error : Error}

/-- All that can be wrong with a reference is that it names something unknown. -/
theorem error_of_resolve {r : Reference} (h : r.resolve vars = .error error) :
    ∃ name, error = .unknownVariable name := by
  unfold Reference.resolve Template.resolve at h
  repeat' split at h
  all_goals first | exact ⟨_, (Except.error.inj h).symm⟩ | cases h

/-- All that can be wrong with a template is that it names something unknown. -/
theorem error_of_fill (pieces : List Piece) (h : fill vars pieces = .error error) :
    ∃ name, error = .unknownVariable name := by
  induction pieces with
  | nil => cases h
  | cons piece rest ih =>
    cases piece with
    | plain c => exact ih (eq_error_of_map_eq_error h)
    | reference r =>
      obtain hvalue | ⟨value, -, h⟩ := error_or_exists_of_bind_eq_error h
      · exact error_of_resolve hvalue
      · obtain hrest | ⟨text, -, h⟩ := error_or_exists_of_bind_eq_error h
        · exact ih hrest
        · cases h

/-- All that can be wrong with a template as a whole is that it names something unknown. -/
theorem error_of_interpolate {template : String} (h : interpolate vars template = .error error) :
    ∃ name, error = .unknownVariable name :=
  error_of_fill _ (eq_error_of_map_eq_error h)

end Template

namespace ModelStep

variable {setting : Setting} {node : Node} {step : ModelStep} {brief : Brief} {talk : Talk}
  {steps attempts : Nat}

namespace Progress

variable {progress : Progress} {exchanges : List Exchange} {result : Except Error ModelOutcome}

/-- A conversation that has kept what tools returned. -/
def Kept (node : Node) (step : ModelStep) (progress : Progress) (talk : Talk) : Prop :=
  ∀ field, talk.Keeps node field (step.contents field progress.events)

/-- Counts a turn by what it amounts to. -/
def count (progress : Progress) : AfterTurn → Progress
  | .calls _ _ => { progress with calling := progress.calling + 1 }
  | .answer fields => { progress with answers := progress.answers ++ [fields] }
  | .unusable _ _ => { progress with unusable := progress.unusable + 1 }

/-- What a turn counts as is what it amounts to in the conversation. -/
theorem turn_eq_count (h : progress.Kept node step talk) (turn : Turn) :
    progress.turn node step turn = progress.count (weigh node talk turn) := by
  have hparse : Answer.parse node.output turn.text (step.filled node progress.events) =
      Answer.parse node.output turn.text talk.captured :=
    Answer.parse_congr _ fun field hfield => (lookup_filled hfield).trans (h field.name).symm
  unfold Progress.turn weigh
  rw [hparse]
  dsimp only [Talk.say]
  split_ifs
  · cases Answer.parse node.output turn.text talk.captured <;> rfl
  · rfl

variable (setting step) in
/-- How the account stands when a conversation with these counters is about to handle calls. -/
structure Stands (steps attempts : Nat) (progress : Progress) : Prop where
  isOpen : progress.IsOpen setting step
  calling : progress.calling = steps
  unusable : progress.unusable = attempts
  failures : progress.failures = 0
  requests : progress.requests ≤ (steps + attempts) * (setting.config.retry.maxRetries + 1)

variable (setting node step) in
/-- How the account stands when an execution stops. -/
inductive Ends (progress : Progress) : Except Error ModelOutcome → Prop where
  /-- At a call that needs approval. -/
  | waits {request : ApprovalRequest} {checkpoint : Checkpoint}
    (stands : progress.Stands setting step checkpoint.steps checkpoint.parseAttempts)
    (kept : progress.Kept node step checkpoint.talk)
    (schema : checkpoint.brief.schema = Answer.schema? (step.answered node.output)) :
    Ends progress (.ok (.awaitApproval request checkpoint))
  /-- When tools have filled all fields. -/
  | filled {outcome : NodeResult} (isOpen : progress.IsOpen setting step) :
    Ends progress (.ok (.complete outcome))
  /-- With an answer. -/
  | answered {fields : List (String × Value)} (answers : progress.answers = [fields])
    (calling : progress.calling ≤ step.stepLimit setting.config)
    (unusable : progress.unusable ≤ setting.config.retry.maxRetries) :
    Ends progress (.ok (.complete { fields }))
  /-- With one more turn with calls than there may be. -/
  | exceeds (calling : progress.calling = step.stepLimit setting.config + 1)
    (unusable : progress.unusable ≤ setting.config.retry.maxRetries)
    (answers : progress.answers = []) :
    Ends progress (.error (.toolLoop node.name (step.stepLimit setting.config)))
  /-- With one more answer of no use than there may be. -/
  | unanswered {message : String}
    (unusable : progress.unusable = setting.config.retry.maxRetries + 1)
    (calling : progress.calling ≤ step.stepLimit setting.config)
    (answers : progress.answers = []) :
    Ends progress (.error (.unusableAnswer node.name message))
  /-- With an error that has another cause. -/
  | fails {error : Error} (isOpen : progress.IsOpen setting step)
    (cause : error ∈ progress.faults ∨ ¬ error.IsExhaustion) :
    Ends progress (.error error)

variable (setting node step) in
/-- A way through a part of an execution that keeps step with the account. -/
structure Follows (progress : Progress) (exchanges : List Exchange)
    (result : Except Error ModelOutcome) : Prop where
  along : progress.Along setting node step exchanges
  requests : (progress.behind node step exchanges).requests ≤
    (step.stepLimit setting.config + setting.config.retry.maxRetries + 1) *
      (setting.config.retry.maxRetries + 1)
  ends : (progress.behind node step exchanges).Ends setting node step result

/-- A stretch that is allowed may stand in front of a way that keeps step with the account behind
it. -/
theorem Follows.prepend (first : List Exchange) {later : List Exchange}
    (halong : progress.Along setting node step first)
    (h : (progress.behind node step first).Follows setting node step later result) :
    progress.Follows setting node step (first ++ later) result where
  along := (along_append first later).2 ⟨halong, h.along⟩
  requests := (behind_append first later).symm ▸ h.requests
  ends := (behind_append first later).symm ▸ h.ends

namespace Stands

/-- There is room for all the attempts of one more turn. -/
theorem requests_le (h : progress.Stands setting step steps attempts) :
    progress.requests + (setting.config.retry.maxRetries + 1) ≤
      (step.stepLimit setting.config + setting.config.retry.maxRetries + 1) *
        (setting.config.retry.maxRetries + 1) := by
  have hcalling := h.calling ▸ h.isOpen.calling
  have hunusable := h.unusable ▸ h.isOpen.unusable
  calc progress.requests + (setting.config.retry.maxRetries + 1)
      ≤ (steps + attempts) * (setting.config.retry.maxRetries + 1) +
          (setting.config.retry.maxRetries + 1) := Nat.add_le_add_right h.requests _
    _ = (steps + attempts + 1) * (setting.config.retry.maxRetries + 1) := (Nat.succ_mul _ _).symm
    _ ≤ _ := Nat.mul_le_mul_right _ (by omega)

/-- Where nothing more is done, only the end is to be shown. -/
theorem stops (h : progress.Stands setting step steps attempts)
    (hends : progress.Ends setting node step result) :
    progress.Follows setting node step [] result :=
  ⟨trivial, Nat.le_of_add_right_le h.requests_le, hends⟩

/-- What is done without asking the model leaves the counters as they are. -/
theorem told (node : Node) (h : progress.Stands setting step steps attempts)
    {first : List Exchange}
    (hasks : ∀ exchange ∈ first, exchange.effect.isAsk = false) :
    (progress.behind node step first).Stands setting step steps attempts := by
  rw [behind_of_not_isAsk hasks]
  exact ⟨⟨h.isOpen.calling, h.isOpen.unusable, h.isOpen.answers⟩, h.calling, h.unusable, h.failures,
    h.requests⟩

/-- A conversation may be cancelled while it does not ask the model. -/
theorem cancelled (h : progress.Stands setting step steps attempts)
    (hasks : ∀ exchange ∈ exchanges, exchange.effect.isAsk = false) :
    progress.Follows setting node step exchanges (.error .cancelled) := by
  have hstands := h.told node hasks
  rw [← List.append_nil exchanges]
  exact .prepend _ (h.isOpen.along node hasks) (hstands.stops (.fails hstands.isOpen (.inr id)))

end Stands

/-! ## A round -/

variable (setting node step) in
/-- How the account stands when the calls of a turn were dealt with. -/
def Deals (progress : Progress) (steps attempts : Nat) : Dealt → Prop
  | .stops outcome => progress.Ends setting node step (.ok outcome)
  | .asks talk => progress.Stands setting step steps attempts ∧ progress.Kept node step talk

/-- Handling calls counts nothing, and keeps what tools return. -/
theorem follows_handleCalls (h : progress.Stands setting step steps attempts)
    (hkept : progress.Kept node step talk)
    (hschema : brief.schema = Answer.schema? (step.answered node.output)) {calls : List ToolUse}
    {handled : Handled} (path : (handleCalls setting node step brief talk calls).activity.Path
      exchanges (.ok handled)) :
    (progress.behind node step exchanges).Deals setting node step steps attempts
      (deal node step brief steps attempts handled) := by
  have hasks := ((quiet_handleCalls talk calls).path path).1
  have hstands := h.told node hasks
  -- What is collected on the way is what the account has in its events.
  have hdealt : ∀ field, (deal node step brief steps attempts handled).Keeps node field
      (step.contents field (progress.behind node step exchanges).events) := by
    intro field
    rw [behind_of_not_isAsk hasks, contents_append]
    exact keeps_deal ((collects_handleCalls calls (hkept field)).path path) steps attempts
  cases hdeal : deal node step brief steps attempts handled with
  | asks next =>
    simp only [hdeal] at hdealt
    exact ⟨hstands, hdealt⟩
  | stops outcome =>
    simp only [hdeal] at hdealt
    unfold deal at hdeal
    split at hdeal
    · cases hdeal
      exact .waits hstands hdealt hschema
    · split_ifs at hdeal
      cases hdeal
      exact .filled hstands.isOpen

variable (setting node step) in
/-- How the account stands after a turn was followed up. -/
def Continues (progress : Progress) (steps attempts : Nat) : Sequel → Prop
  | .completes fields => progress.Follows setting node step [] (.ok (.complete { fields }))
  | .fails error => progress.Follows setting node step [] (.error error)
  | .calls talk _ =>
    progress.Stands setting step (steps + 1) attempts ∧ progress.Kept node step talk
  | .retries talk _ =>
    progress.Stands setting step steps (attempts + 1) ∧ progress.Kept node step talk

/-- A turn that counts is followed up as the account says. -/
theorem Stands.continues (h : progress.Stands setting step steps attempts)
    (hkept : progress.Kept node step talk) {turn : Turn} {after : Progress}
    (hagrees : Agrees step (progress.turn node step turn) after) (hfailures : after.failures = 0)
    (hrequests : after.requests ≤ progress.requests + (setting.config.retry.maxRetries + 1)) :
    after.Continues setting node step steps attempts
      (followUp setting node step brief steps attempts (weigh node talk turn)) := by
  have hcalling := h.calling ▸ h.isOpen.calling
  have hunusable := h.unusable ▸ h.isOpen.unusable
  have hanswers := h.isOpen.answers
  -- Either counter is one more for the next round, and pays for its requests.
  have hmost : after.requests ≤
      (steps + attempts + 1) * (setting.config.retry.maxRetries + 1) := by
    rw [Nat.succ_mul]
    exact hrequests.trans (Nat.add_le_add_right h.requests _)
  have hstops : ∀ result, after.Ends setting node step result →
      after.Follows setting node step [] result :=
    fun _ hends => ⟨trivial, hrequests.trans h.requests_le, hends⟩
  rw [turn_eq_count hkept] at hagrees
  have hkeeps := fun field => keeps_of_weigh (hkept field) turn
  cases hweigh : weigh node talk turn with
  | answer fields =>
    rw [hweigh] at hagrees
    refine hstops _ (.answered (hagrees.answers.trans ?_) ?_ ?_)
    · rw [count, hanswers, List.nil_append]
    · exact hagrees.calling.trans_le h.isOpen.calling
    · exact hagrees.unusable.trans_le h.isOpen.unusable
  | calls talk calls =>
    rw [hweigh] at hagrees
    simp only [hweigh] at hkeeps
    have hcount : after.calling = steps + 1 := hagrees.calling.trans (congrArg (· + 1) h.calling)
    have hothers : after.unusable = attempts := hagrees.unusable.trans h.unusable
    have hnone : after.answers = [] := hagrees.answers.trans hanswers
    -- While there is room the counter goes up by one; else it is past its bound, and that is the
    -- error.
    unfold followUp
    dsimp only
    split_ifs with hsteps
    · exact ⟨⟨⟨by omega, by omega, hnone⟩, hcount, hothers, hfailures, by rwa [Nat.add_right_comm]⟩,
        fun field => hagrees.contents field ▸ hkeeps field⟩
    · exact hstops _ (.exceeds (by omega) (by omega) hnone)
  | unusable talk fault =>
    rw [hweigh] at hagrees
    simp only [hweigh] at hkeeps
    have hcount : after.unusable = attempts + 1 :=
      hagrees.unusable.trans (congrArg (· + 1) h.unusable)
    have hothers : after.calling = steps := hagrees.calling.trans h.calling
    have hnone : after.answers = [] := hagrees.answers.trans hanswers
    unfold followUp
    dsimp only
    split_ifs with hattempts
    · exact ⟨⟨⟨by omega, by omega, hnone⟩, hothers, hcount, hfailures, by rwa [← Nat.add_assoc]⟩,
        fun field => hagrees.contents field ▸ hkeeps field⟩
    · exact hstops _ (.unanswered (by omega) (by omega) hnone)

/-- A conversation has kept what tools returned by an account if it has by one that this agrees
with. -/
theorem Kept.of_agrees {other : Progress} (h : progress.Kept node step talk)
    (hagrees : Agrees step progress other) : other.Kept node step talk :=
  fun field => hagrees.contents field ▸ h field

/-- To look whether the run is cancelled makes no difference. -/
theorem behind_poll (progress : Progress) (reply : Effect.poll.Reply) :
    progress.behind node step [⟨.poll, reply⟩] = progress :=
  congrArg (fun events => { progress with events }) (List.append_nil _)

/-- Asking for a turn keeps step with the account: it ends with the error of the model, or with a
turn that is followed up as the account says. -/
theorem follows_askTurn (h : progress.Stands setting step steps attempts)
    (hkept : progress.Kept node step talk)
    (hschema : brief.schema = Answer.schema? (step.answered node.output))
    {ended : Except Error Turn}
    (path : (askWithRetry setting.config.retry node.name (request setting brief talk)
      setting.config.retry.maxRetries).activity.Path exchanges ended) :
    progress.Along setting node step exchanges ∧
      (∀ error, ended = .error error →
        progress.Follows setting node step exchanges (.error error)) ∧
      ∀ turn, ended = .ok turn →
        (progress.behind node step exchanges).Continues setting node step steps attempts
          (followUp setting node step brief steps attempts (weigh node talk turn)) := by
  obtain ⟨halong, hrequests, hasked⟩ := follows_askWithRetry path hschema h.isOpen
    (by rw [h.failures, Nat.zero_add])
  rw [Nat.add_assoc] at hrequests
  refine ⟨halong, fun error herror => ?_, fun turn hturn => ?_⟩
  · obtain ⟨hagrees, hcause⟩ := hasked.error error herror
    refine ⟨halong, hrequests.trans h.requests_le, .fails (h.isOpen.of_agrees hagrees) ?_⟩
    exact hcause.imp_right fun hcancelled hexhaustion => by
      rw [hcancelled] at hexhaustion
      exact hexhaustion
  · obtain ⟨hagrees, hfailures⟩ := hasked.turn turn hturn
    exact h.continues hkept hagrees hfailures hrequests

/-- A conversation keeps step with the account over all its rounds. -/
theorem follows_converse (hschema : brief.schema = Answer.schema? (step.answered node.output))
    (steps attempts : Nat) (talk : Talk) (calls : List ToolUse)
    (h : progress.Stands setting step steps attempts) (hkept : progress.Kept node step talk)
    (path : (converse setting node step brief steps attempts talk calls).activity.Path exchanges
      result) :
    progress.Follows setting node step exchanges result := by
  induction steps, attempts using rounds_induct setting step
    generalizing talk calls progress exchanges with
  -- One round: the question, the calls, the request and what follows the turn, each with its part
  -- of the way. The account goes along from part to part.
  | round steps attempts onCalls onRetry =>
    rw [converse_eq] at path
    obtain ⟨cancelled, rest, hrest, rfl⟩ := Work.exists_of_path_perform path
    refine .prepend [⟨.poll, cancelled⟩] ⟨h.isOpen, trivial⟩ ?_
    rw [behind_poll]
    cases cancelled with
    | true =>
      cases hrest
      exact h.stops (.fails h.isOpen (.inr id))
    | false =>
      obtain ⟨error, hhandled, rfl⟩ | ⟨first, handled, later, hhandled, hlater, rfl⟩ :=
        Work.exists_of_path_bind hrest
      · -- Nothing but cancellation stops the work while calls are handled.
        obtain ⟨hasks, hcancelled⟩ := (quiet_handleCalls talk calls).path hhandled
        obtain rfl := hcancelled error rfl
        exact h.cancelled hasks
      have hdeals := follows_handleCalls h hkept hschema hhandled
      have hasks := ((quiet_handleCalls talk calls).path hhandled).1
      have hstands := h.told node hasks
      refine .prepend first (h.isOpen.along node hasks) ?_
      cases hdeal : deal node step brief steps attempts handled with
      | stops outcome =>
        rw [hdeal] at hdeals hlater
        cases hlater
        exact hstands.stops hdeals
      | asks next =>
        rw [hdeal] at hdeals hlater
        obtain ⟨error, hasked, rfl⟩ | ⟨asked, turn, after, hasked, hafter, rfl⟩ :=
          Work.exists_of_path_bind hlater
        · exact (follows_askTurn hstands hdeals.2 hschema hasked).2.1 error rfl
        obtain ⟨halong, -, hcontinues⟩ := follows_askTurn hstands hdeals.2 hschema hasked
        replace hcontinues := hcontinues turn rfl
        refine .prepend asked halong ?_
        cases hfollow : followUp setting node step brief steps attempts (weigh node next turn) with
        | completes fields =>
          rw [hfollow] at hcontinues hafter
          cases hafter
          exact hcontinues
        | fails error =>
          rw [hfollow] at hcontinues hafter
          cases hafter
          exact hcontinues
        | calls talk calls =>
          rw [hfollow] at hcontinues hafter
          exact onCalls (lt_of_followUp_calls hfollow) _ _ hcontinues.1 hcontinues.2 hafter
        | retries talk message =>
          rw [hfollow] at hcontinues hafter
          obtain ⟨told, last, hlast, rfl⟩ := Work.exists_of_path_perform hafter
          have hnotice : ∀ exchange ∈ [(⟨_, told⟩ : Exchange)],
              exchange.effect.IsTalk ∧ exchange.effect.isAsk = false := by
            rintro _ (_ | ⟨_, ⟨⟩⟩)
            exact ⟨trivial, rfl⟩
          have hasks := fun exchange hmem => (hnotice exchange hmem).2
          refine .prepend [⟨_, told⟩] (hcontinues.1.isOpen.along node hasks) ?_
          exact onRetry (lt_of_followUp_retries hfollow) _ _ (hcontinues.1.told node hasks)
            (hcontinues.2.of_agrees (agrees_of_isTalk node step _ hnotice).1) hlast

/-! ## Whole executions -/

variable {vars : Lookup} {itemIndex : Option Nat}

/-- An account starts with nothing counted. -/
theorem stands_nil (setting : Setting) (step : ModelStep) :
    ({} : Progress).Stands setting step 0 0 :=
  ⟨⟨Nat.zero_le _, Nat.zero_le _, rfl⟩, rfl, rfl, rfl, Nat.zero_le _⟩

/-- An execution keeps step with the account from its start. -/
theorem follows_start
    (path : (step.start setting node vars itemIndex).activity.Path exchanges result) :
    Progress.Follows setting node step {} exchanges result := by
  have hopened := stands_nil setting step
  -- Templates that cannot be filled in end the execution before it has begun.
  have hfails : ∀ name, Progress.Follows setting node step {} [] (.error (.unknownVariable name)) :=
    fun name => hopened.stops (.fails hopened.isOpen (.inr id))
  unfold start at path
  obtain ⟨error, hsystem, rfl⟩ | ⟨first, system, rest, hsystem, hrest, rfl⟩ :=
    Work.exists_of_path_bind path
  · obtain ⟨rfl, herror⟩ := Work.path_ofExcept hsystem
    split at herror
    · obtain ⟨name, rfl⟩ := Template.error_of_interpolate (eq_error_of_map_eq_error herror.symm)
      exact hfails name
    · cases herror
  obtain ⟨rfl, -⟩ := Work.path_ofExcept hsystem
  obtain ⟨error, hprompt, rfl⟩ | ⟨first, prompt, later, hprompt, hlater, rfl⟩ :=
    Work.exists_of_path_bind hrest
  · obtain ⟨rfl, herror⟩ := Work.path_ofExcept hprompt
    obtain ⟨name, rfl⟩ := Template.error_of_interpolate herror.symm
    exact hfails name
  obtain ⟨rfl, -⟩ := Work.path_ofExcept hprompt
  exact follows_converse rfl 0 0 _ [] hopened (fun field => .opening node field _) hlater

/-- Whatever the caller decides, the execution goes on in step with the account. -/
theorem follows_resume {checkpoint : Checkpoint}
    (h : progress.Stands setting step checkpoint.steps checkpoint.parseAttempts)
    (hkept : progress.Kept node step checkpoint.talk)
    (hschema : checkpoint.brief.schema = Answer.schema? (step.answered node.output))
    {decision : Decision}
    (path : (step.resume setting node checkpoint decision).activity.Path exchanges result) :
    progress.Follows setting node step exchanges result := by
  unfold resume at path
  split at path
  · cases path
    exact h.stops (.fails h.isOpen (.inr id))
  · rename_i call _
    -- A call that was approved is run, and one that was denied is noted.
    obtain ⟨hquiet, hcollects⟩ : Quiet (applyDecision setting node step checkpoint.brief
        checkpoint.talk call decision) ∧ ∀ field, (applyDecision setting node step checkpoint.brief
        checkpoint.talk call decision).Collects step field (fun after talk =>
          talk.Keeps node field after) (step.contents field progress.events) := by
      cases decision with
      | approved => exact ⟨quiet_runCall _ call, fun field => collects_runCall (hkept field) call⟩
      | denied reason => exact ⟨quiet_pure _, fun field => (hkept field).observe call _ true⟩
    obtain ⟨error, hdecided, rfl⟩ | ⟨first, talk, later, hdecided, hlater, rfl⟩ :=
      Work.exists_of_path_bind path
    · obtain ⟨hasks, hcancelled⟩ := hquiet.path hdecided
      obtain rfl := hcancelled error rfl
      exact h.cancelled hasks
    · have hasks := (hquiet.path hdecided).1
      refine .prepend first (h.isOpen.along node hasks) ?_
      refine follows_converse hschema _ _ talk checkpoint.pending (h.told node hasks) ?_ hlater
      intro field
      rw [behind_of_not_isAsk hasks, contents_append]
      exact (hcollects field).path hdecided

/-- A whole execution keeps step with the account. -/
theorem follows_transcript (h : step.Transcript setting node vars itemIndex exchanges result) :
    Progress.Follows setting node step {} exchanges result := by
  induction h with
  | start path => exact follows_start path
  | resume before decision path ih =>
    obtain ⟨halong, hrequests, hends⟩ := ih
    -- It waits, so that the checkpoint has the counters of the account.
    cases hends with
    | waits stands kept schema => exact .prepend _ halong (follows_resume stands kept schema path)

end Progress

/-! ## The bounds -/

variable {vars : Lookup} {itemIndex : Option Nat} {exchanges : List Exchange}
  {result : Except Error ModelOutcome}

variable (setting node step) in
/-- The execution ends with the two errors of a conversation that is given up as the account
says. -/
structure Progress.Exhausts (progress : Progress) (result : Except Error ModelOutcome) : Prop where
  /-- One turn with calls came after as many as there may be. -/
  toolLoop : ∀ name steps, result = .error (.toolLoop name steps) ↔
    name = node.name ∧ steps = step.stepLimit setting.config ∧
      step.stepLimit setting.config < progress.calling
  /-- One answer of no use came after as many as there may be. -/
  unusableAnswer : ∀ name, (∃ message, result = .error (.unusableAnswer name message)) ↔
    name = node.name ∧ setting.config.retry.maxRetries < progress.unusable

namespace Progress

variable {progress : Progress}

/-- While there is room, there are no more turns than steps and attempts. -/
theorem IsOpen.turns_le (h : progress.IsOpen setting step) :
    progress.calling + progress.unusable + progress.answers.length ≤
      step.stepLimit setting.config + setting.config.retry.maxRetries := by
  have hcalling := h.calling
  have hunusable := h.unusable
  simp only [h.answers, List.length_nil]
  omega

/-- There is one turn more than steps and attempts, and it is the last. -/
theorem Ends.turns_le (h : progress.Ends setting node step result) :
    progress.calling + progress.unusable + progress.answers.length ≤
      step.stepLimit setting.config + setting.config.retry.maxRetries + 1 := by
  cases h with
  | waits stands => exact Nat.le_succ_of_le stands.isOpen.turns_le
  | filled isOpen => exact Nat.le_succ_of_le isOpen.turns_le
  | fails isOpen => exact Nat.le_succ_of_le isOpen.turns_le
  | answered answers calling unusable =>
    simp only [answers, List.length_singleton]
    omega
  | exceeds calling unusable answers =>
    simp only [answers, List.length_nil]
    omega
  | unanswered unusable calling answers =>
    simp only [answers, List.length_nil]
    omega

/-- A conversation is given up as the account says, unless the model fails with the same error. -/
theorem Ends.exhausts (h : progress.Ends setting node step result)
    (hother : ∀ error, error ∈ progress.faults ∨ ¬ error.IsExhaustion → ¬ error.IsExhaustion) :
    progress.Exhausts setting node step result := by
  -- Within the bounds, the result is neither of the two errors.
  have hwithin : progress.calling ≤ step.stepLimit setting.config →
      progress.unusable ≤ setting.config.retry.maxRetries →
      (∀ error, result = .error error → ¬ error.IsExhaustion) →
      progress.Exhausts setting node step result := fun hcalling hunusable hresult =>
    ⟨fun name steps => iff_of_false (fun h => hresult _ h trivial) fun h => by omega,
      fun name => iff_of_false (fun ⟨message, h⟩ => hresult _ h trivial) fun h => by omega⟩
  cases h with
  | waits stands => exact hwithin stands.isOpen.calling stands.isOpen.unusable nofun
  | filled isOpen => exact hwithin isOpen.calling isOpen.unusable nofun
  | fails isOpen cause =>
    refine hwithin isOpen.calling isOpen.unusable ?_
    rintro _ ⟨⟩
    exact hother _ cause
  | answered answers calling unusable => exact hwithin calling unusable nofun
  | exceeds calling unusable answers =>
    refine ⟨fun name steps => ⟨?_, ?_⟩, fun name => iff_of_false nofun fun h => by omega⟩
    · rintro ⟨⟩
      exact ⟨rfl, rfl, by omega⟩
    · rintro ⟨rfl, rfl, -⟩
      rfl
  | unanswered unusable calling answers =>
    refine ⟨fun name steps => iff_of_false nofun fun h => by omega, fun name => ⟨?_, ?_⟩⟩
    · rintro ⟨message, ⟨⟩⟩
      exact ⟨rfl, by omega⟩
    · rintro ⟨rfl, -⟩
      exact ⟨_, rfl⟩

end Progress

/-- The execution of a node is bounded, whatever the model, the tools and the caller do. Every
effect is allowed as the account stands at its time: the calls of a turn are handled, and the model
is asked again, only while there were not too many turns with calls and answers of no use, and only
so many requests for one turn may fail. If the model itself never fails with one of the two errors
of a conversation that is given up, the execution ends with them as the account says. -/
theorem Transcript.bounded (h : step.Transcript setting node vars itemIndex exchanges result) :
    let limit := step.stepLimit setting.config
    let retries := setting.config.retry.maxRetries
    let progress := Progress.behind node step {} exchanges
    (∀ before exchange after, exchanges = before ++ exchange :: after →
      (Progress.behind node step {} before).Allows setting node step exchange.effect) ∧
    progress.calling + progress.unusable + progress.answers.length ≤ limit + retries + 1 ∧
    progress.requests ≤ (limit + retries + 1) * (retries + 1) ∧
    ((∀ request reply error, ⟨.ask request, reply⟩ ∈ exchanges →
      ModelReply.result reply = .error error → ¬ error.IsExhaustion) →
        progress.Exhausts setting node step result) := by
  intro limit retries progress
  obtain ⟨halong, hrequests, hends⟩ := Progress.follows_transcript h
  refine ⟨?_, hends.turns_le, hrequests, fun hmodel => ?_⟩
  · rintro before exchange after rfl
    exact ((Progress.along_append before _).1 halong).2.1
  · -- An error with another cause is neither of the two.
    have hother : ∀ error, error ∈ progress.faults ∨ ¬ error.IsExhaustion →
        ¬ error.IsExhaustion := by
      rintro error (hfault | hother)
      · obtain hbefore | ⟨request, reply, hmem, hreply⟩ := Progress.exists_of_mem_faults hfault
        · cases hbefore
        · exact hmodel request reply error hmem hreply
      · exact hother
    exact hends.exhausts hother

end ModelStep

/-! ## A sample

A node with one step, whose model calls its tool twice. -/

namespace Sample.Looping

/-- A step that allows one turn with calls. -/
def step : ModelStep := { Fetching.step with maxSteps := some 1 }

/-- A node of the step. -/
def node : Node := { Fetching.node with kind := .model step }

/-- An execution in which the model calls the tool twice. -/
def exchanges : List Exchange :=
  (step.start Fetching.setting node (fun _ => none) none).activity.exchanges Fetching.host
    ⟨2, false, []⟩

/-- The second turn with calls is one too many, and the node is given up. -/
theorem bounded_looping : step.Transcript Fetching.setting node (fun _ => none) none exchanges
      (.error (.toolLoop "ask" 1)) ∧
    1 < (ModelStep.Progress.behind node step {} exchanges).calling := by
  have hresult : ((step.start Fetching.setting node (fun _ => none) none).activity.run
      Fetching.host ⟨2, false, []⟩).1 = .error (.toolLoop "ask" 1) := by
    with_unfolding_all rfl
  have htranscript : step.Transcript Fetching.setting node (fun _ => none) none exchanges
      (.error (.toolLoop "ask" 1)) :=
    .start (hresult ▸ Activity.path_run Fetching.host _ _)
  -- The model never fails.
  have hmodel : ∀ request reply error, ⟨.ask request, reply⟩ ∈ exchanges →
      ModelReply.result reply = .error error → ¬ error.IsExhaustion := by
    intro request reply error hmem hreply
    obtain ⟨session, rfl⟩ := Activity.exists_of_mem_exchanges hmem
    rcases session with ⟨_ | calls, _, _⟩ <;> cases hreply
  obtain ⟨-, -, -, hexhausts⟩ := htranscript.bounded
  exact ⟨htranscript, (((hexhausts hmodel).toolLoop "ask" 1).1 rfl).2.2⟩

end Sample.Looping

end AgentFlow
