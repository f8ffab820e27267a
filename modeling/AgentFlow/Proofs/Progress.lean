import AgentFlow.Proofs.Transcript

/-!
# How far a conversation comes

How far an execution has come can be told from its transcript alone: `ModelStep.Progress` goes along
the exchanges and counts the turns of the model, those with calls apart from the answers, and the
answers that can be read into the fields apart from the others. Which fields an answer has to give
is in the transcript too, since the results of tools are told.

A conversation keeps step with this account (`Progress.follows_converse`): it asks only as long as
the account leaves it room, and where it stops is what the account says. The induction is on the
steps and attempts that are left; `Progress.Stands` ties the conversation's own counters to the
account between two rounds, and since both are in the checkpoint, it survives suspensions.
-/

namespace AgentFlow.ModelStep

variable {setting : Setting} {node : Node} {step : ModelStep} {brief : Brief}

/-- The fields that tools have filled by some events, with their values. -/
def filled (step : ModelStep) (node : Node) (events : List Event) : List (String × Value) :=
  node.output.filterMap fun field =>
    ((step.contents field.name events).getLast?.map (rawValue node field.name)).map (field.name, ·)

/-- A declared field is filled with the last content that a tool returned for it. -/
theorem lookup_filled {events : List Event} {field : OutputField} (h : field ∈ node.output) :
    (step.filled node events).lookup field.name =
      (step.contents field.name events).getLast?.map (rawValue node field.name) := by
  unfold filled
  rw [OutputField.lookup_filterMap node.output fun name =>
    (step.contents name events).getLast?.map (rawValue node name)]
  exact if_pos (List.mem_map_of_mem h)

/-- How far an execution has come. -/
structure Progress where
  /-- What was told. -/
  events : List Event := []
  /-- The turns of the model with tool calls. -/
  calling : Nat := 0
  /-- The answers that could not be read into the fields. -/
  unusable : Nat := 0
  /-- The fields of the answers that could. -/
  answers : List (List (String × Value)) := []
  requests : Nat := 0
  /-- The requests since the last turn, which all failed. -/
  failures : Nat := 0
  /-- The errors with which requests failed. -/
  faults : List Error := []

namespace Progress

/-- Counts a turn of the model. An answer has to give the fields that tools have not filled. -/
def turn (node : Node) (step : ModelStep) (progress : Progress) (turn : Turn) : Progress :=
  if turn.calls.isEmpty then
    match Answer.parse node.output turn.text (step.filled node progress.events) with
    | .ok fields => { progress with answers := progress.answers ++ [fields] }
    | .error _ => { progress with unusable := progress.unusable + 1 }
  else { progress with calling := progress.calling + 1 }

/-- Counts a request. -/
def asked (node : Node) (step : ModelStep) (progress : Progress) (reply : ModelReply) : Progress :=
  let counted := { progress with requests := progress.requests + 1 }
  match reply.result with
  | .ok turn => { counted.turn node step turn with failures := 0 }
  | .error error =>
    { counted with failures := progress.failures + 1, faults := progress.faults ++ [error] }

/-- Counts an exchange. -/
def after (node : Node) (step : ModelStep) (progress : Progress) :
    (effect : Effect) → effect.Reply → Progress
  | .ask _, reply => progress.asked node step reply
  | effect, _ => { progress with events := progress.events ++ effect.event?.toList }

/-- Counts exchanges in order. -/
def behind (node : Node) (step : ModelStep) (progress : Progress) (exchanges : List Exchange) :
    Progress :=
  exchanges.foldl (fun progress exchange =>
    progress.after node step exchange.effect exchange.reply) progress

variable {progress : Progress}

/-- A turn is no request. -/
theorem turn_counts (progress : Progress) (turn : Turn) :
    (progress.turn node step turn).requests = progress.requests ∧
      (progress.turn node step turn).faults = progress.faults ∧
      (progress.turn node step turn).events = progress.events := by
  unfold Progress.turn
  split_ifs
  · split <;> exact ⟨rfl, rfl, rfl⟩
  · exact ⟨rfl, rfl, rfl⟩

/-- Exchanges are counted one after the other. -/
theorem behind_append (first later : List Exchange) : progress.behind node step (first ++ later) =
    (progress.behind node step first).behind node step later :=
  List.foldl_append

/-- Where the model is not asked, only events are added. -/
theorem behind_of_not_isAsk {exchanges : List Exchange}
    (h : ∀ exchange ∈ exchanges, exchange.effect.isAsk = false) :
    progress.behind node step exchanges =
      { progress with events := progress.events ++ Exchange.events exchanges } := by
  induction exchanges generalizing progress with
  | nil => simp [behind, Exchange.events]
  | cons exchange later ih =>
    obtain ⟨effect, reply⟩ := exchange
    have hask := h _ List.mem_cons_self
    have hafter : progress.after node step effect reply =
        { progress with events := progress.events ++ effect.event?.toList } := by
      cases effect <;> first | rfl | cases hask
    refine (ih fun exchange hmem => h exchange (List.mem_cons_of_mem _ hmem)).trans ?_
    dsimp only
    rw [hafter, Exchange.events_cons, List.append_assoc]

/-- The errors that are counted are those of the replies. -/
theorem exists_of_mem_faults {exchanges : List Exchange} {error : Error}
    (h : error ∈ (progress.behind node step exchanges).faults) :
    error ∈ progress.faults ∨ ∃ (request : ModelRequest) (reply : ModelReply),
      ⟨.ask request, reply⟩ ∈ exchanges ∧ reply.result = .error error := by
  induction exchanges generalizing progress with
  | nil => exact .inl h
  | cons exchange later ih =>
    obtain hafter | ⟨request, reply, hmem, hreply⟩ := ih h
    · obtain ⟨effect, reply⟩ := exchange
      cases effect with
      | ask request =>
        change error ∈ (progress.asked node step reply).faults at hafter
        unfold asked at hafter
        cases hreply : ModelReply.result reply with
        | ok turn =>
          rw [hreply] at hafter
          dsimp only at hafter
          rw [(turn_counts _ turn).2.1] at hafter
          exact .inl hafter
        | error other =>
          rw [hreply] at hafter
          rcases List.mem_append.1 hafter with hbefore | hnew
          · exact .inl hbefore
          · obtain rfl := List.mem_singleton.1 hnew
            exact .inr ⟨request, reply, List.mem_cons_self, hreply⟩
      | _ => exact .inl hafter
    · exact .inr ⟨request, reply, List.mem_cons_of_mem _ hmem, hreply⟩

/-- Two accounts that differ only in requests that failed, and in what was told besides results. -/
structure Agrees (step : ModelStep) (progress other : Progress) : Prop where
  calling : other.calling = progress.calling
  unusable : other.unusable = progress.unusable
  answers : other.answers = progress.answers
  contents : ∀ field, step.contents field other.events = step.contents field progress.events

namespace Agrees

variable {other further : Progress}

/-- Accounts that agree by way of a third one agree. -/
theorem trans (h : Agrees step progress other) (h' : Agrees step other further) :
    Agrees step progress further :=
  ⟨h'.calling.trans h.calling, h'.unusable.trans h.unusable, h'.answers.trans h.answers,
    fun field => (h'.contents field).trans (h.contents field)⟩

/-- The same turn counts the same. -/
theorem turn (h : Agrees step progress other) (turn : Turn) :
    Agrees step (progress.turn node step turn) (other.turn node step turn) := by
  -- An answer is read with the same fields filled.
  have hfilled : step.filled node other.events = step.filled node progress.events := by
    unfold filled
    simp only [h.contents]
  unfold Progress.turn
  rw [hfilled]
  split_ifs
  · split
    · exact ⟨h.calling, h.unusable, by rw [h.answers], h.contents⟩
    · exact ⟨h.calling, by rw [h.unusable], h.answers, h.contents⟩
  · exact ⟨by rw [h.calling], h.unusable, h.answers, h.contents⟩

end Agrees

variable (setting node step)

/-- The account leaves room to go on: there were not too many turns with calls, not too many answers
of no use, and no answer of use. -/
structure IsOpen (progress : Progress) : Prop where
  calling : progress.calling ≤ step.stepLimit setting.config
  unusable : progress.unusable ≤ setting.config.retry.maxRetries
  answers : progress.answers = []

/-- What may be done as the account stands. When there is no room to go on, only the text of the
last turn is still told. -/
def Allows (progress : Progress) : Effect → Prop
  | .ask request => progress.IsOpen setting step ∧
      progress.failures ≤ setting.config.retry.maxRetries ∧
      request.outputSchema = Answer.schema? (step.answered node.output)
  | .emit (.textDelta _ _) => True
  | _ => progress.IsOpen setting step

/-- Every effect is allowed at its time. -/
def Along : Progress → List Exchange → Prop
  | _, [] => True
  | progress, exchange :: later => progress.Allows setting node step exchange.effect ∧
      (progress.after node step exchange.effect exchange.reply).Along later

variable {setting node step}

/-- An account leaves room if one that it agrees with does. -/
theorem IsOpen.of_agrees {other : Progress} (h : progress.IsOpen setting step)
    (hagrees : Agrees step progress other) : other.IsOpen setting step :=
  ⟨hagrees.calling ▸ h.calling, hagrees.unusable ▸ h.unusable, hagrees.answers ▸ h.answers⟩

/-- The effects of two stretches are allowed if those of the first one are, and those of the second
one as the account stands behind it. -/
theorem along_append (first later : List Exchange) :
    progress.Along setting node step (first ++ later) ↔ progress.Along setting node step first ∧
      (progress.behind node step first).Along setting node step later := by
  induction first generalizing progress with
  | nil => exact (and_iff_right trivial).symm
  | cons exchange rest ih => exact (and_congr_right fun _ => ih).trans and_assoc.symm

/-- While there is room, everything but a request is allowed. -/
theorem IsOpen.along (node : Node) {exchanges : List Exchange} (h : progress.IsOpen setting step)
    (hasks : ∀ exchange ∈ exchanges, exchange.effect.isAsk = false) :
    progress.Along setting node step exchanges := by
  induction exchanges generalizing progress with
  | nil => trivial
  | cons exchange later ih =>
    obtain ⟨effect, reply⟩ := exchange
    have hask := hasks _ List.mem_cons_self
    have hopen : (progress.after node step effect reply).IsOpen setting step := by
      cases effect <;> first | exact ⟨h.calling, h.unusable, h.answers⟩ | cases hask
    refine ⟨?_, ih hopen fun exchange hmem => hasks exchange (List.mem_cons_of_mem _ hmem)⟩
    cases effect with
    | ask request => cases hask
    | emit event => cases event <;> first | exact h | trivial
    | _ => exact h

/-- The text of a turn is always told. -/
theorem along_of_isTextDelta {exchanges : List Exchange}
    (h : ∀ exchange ∈ exchanges, exchange.effect.isTextDelta) :
    progress.Along setting node step exchanges := by
  induction exchanges generalizing progress with
  | nil => trivial
  | cons exchange later ih =>
    obtain ⟨effect, reply⟩ := exchange
    refine ⟨?_, ih fun exchange hmem => h exchange (List.mem_cons_of_mem _ hmem)⟩
    have hdelta := h _ List.mem_cons_self
    cases effect with
    | emit event => cases event <;> trivial
    | _ => cases hdelta

/-- What is told besides results makes no difference. -/
theorem agrees_of_isTalk (node : Node) (step : ModelStep) (progress : Progress)
    {exchanges : List Exchange}
    (h : ∀ exchange ∈ exchanges, exchange.effect.IsTalk ∧ exchange.effect.isAsk = false) :
    Agrees step progress (progress.behind node step exchanges) ∧
      (progress.behind node step exchanges).requests = progress.requests ∧
      (progress.behind node step exchanges).failures = progress.failures ∧
      (progress.behind node step exchanges).faults = progress.faults := by
  rw [behind_of_not_isAsk fun exchange hmem => (h exchange hmem).2]
  refine ⟨⟨rfl, rfl, rfl, fun field => ?_⟩, rfl, rfl, rfl⟩
  -- Contents are read from results of tools only.
  have hnone : step.contents field (Exchange.events exchanges) = [] := by
    refine List.filterMap_eq_nil_iff.2 fun event hmem => ?_
    obtain ⟨exchange, hexchange, hevent⟩ := List.mem_filterMap.1 hmem
    have hcontents : step.contents field exchange.effect.event?.toList = [] :=
      contents_of_isTalk _ (h exchange hexchange).1
    rw [hevent] at hcontents
    exact List.filterMap_eq_nil_iff.1 hcontents event (List.mem_singleton_self event)
  rw [contents_append, hnone, List.append_nil]

/-! ## Asking the model -/

/-- A reply with a turn counts as the turn. -/
theorem asked_turn (node : Node) (step : ModelStep) (progress : Progress) {reply : ModelReply}
    {turn : Turn} (h : reply.result = .ok turn) :
    Agrees step (progress.turn node step turn) (progress.asked node step reply) ∧
      (progress.asked node step reply).requests = progress.requests + 1 ∧
      (progress.asked node step reply).failures = 0 := by
  have hcounted : Agrees step progress { progress with requests := progress.requests + 1 } :=
    ⟨rfl, rfl, rfl, fun _ => rfl⟩
  unfold asked
  rw [h]
  exact ⟨(hcounted.turn turn).trans ⟨rfl, rfl, rfl, fun _ => rfl⟩, (turn_counts _ turn).1, rfl⟩

/-- A reply without one counts as a failure. -/
theorem asked_failure (node : Node) (step : ModelStep) (progress : Progress) {reply : ModelReply}
    {error : Error} (h : reply.result = .error error) :
    Agrees step progress (progress.asked node step reply) ∧
      (progress.asked node step reply).requests = progress.requests + 1 ∧
      (progress.asked node step reply).failures = progress.failures + 1 ∧
      error ∈ (progress.asked node step reply).faults := by
  unfold asked
  rw [h]
  exact ⟨⟨rfl, rfl, rfl, fun _ => rfl⟩, rfl, rfl,
    List.mem_append_right _ (List.mem_singleton_self _)⟩

variable (setting node step) in
/-- An account after asking the model, also several times. -/
structure Asked (progress after : Progress) (result : Except Error Turn) : Prop where
  turn : ∀ turn, result = .ok turn →
    Agrees step (progress.turn node step turn) after ∧ after.failures = 0
  error : ∀ error, result = .error error →
    Agrees step progress after ∧ (error ∈ after.faults ∨ error = .cancelled)

/-- What asking the model counts for is the same for accounts that agree. -/
theorem Asked.of_agrees {other after : Progress} {result : Except Error Turn}
    (h : other.Asked node step after result) (hagrees : Agrees step progress other) :
    progress.Asked node step after result where
  turn turn hturn := ⟨(hagrees.turn turn).trans (h.turn turn hturn).1, (h.turn turn hturn).2⟩
  error error herror := ⟨hagrees.trans (h.error error herror).1, (h.error error herror).2⟩

/-- One request to the model is a turn or a failure. -/
theorem follows_askOnce {request : ModelRequest} {exchanges : List Exchange}
    {result : Except Error Turn}
    (path : (askOnce node.name request).activity.Path exchanges result)
    (hschema : request.outputSchema = Answer.schema? (step.answered node.output))
    (hopen : progress.IsOpen setting step)
    (hfailures : progress.failures ≤ setting.config.retry.maxRetries) :
    progress.Along setting node step exchanges ∧
      (progress.behind node step exchanges).requests = progress.requests + 1 ∧
      progress.Asked node step (progress.behind node step exchanges) result ∧
      ∀ error, result = .error error →
        (progress.behind node step exchanges).failures = progress.failures + 1 := by
  obtain ⟨reply, told, rfl, htold, rfl⟩ := path_askOnce path
  have hbehind : progress.behind node step (⟨.ask request, reply⟩ :: told) =
      (progress.asked node step reply).behind node step told := rfl
  -- The texts of the reply are told behind the request, and count for nothing.
  obtain ⟨hagrees, hrequests, hfailed, hfaults⟩ :=
    agrees_of_isTalk node step (progress.asked node step reply) fun exchange hmem =>
      Effect.isTalk_of_isTextDelta (htold exchange hmem)
  rw [hbehind, hrequests, hfailed]
  refine ⟨⟨⟨hopen, hfailures, hschema⟩, along_of_isTextDelta htold⟩, ?_⟩
  cases hresult : reply.result with
  | ok turn =>
    obtain ⟨hturn, hcount, hnone⟩ := asked_turn node step progress hresult
    refine ⟨hcount, ⟨?_, nofun⟩, nofun⟩
    rintro _ ⟨⟩
    exact ⟨hturn.trans hagrees, hfailed.trans hnone⟩
  | error error =>
    obtain ⟨hsame, hcount, hmore, herror⟩ := asked_failure node step progress hresult
    refine ⟨hcount, ⟨nofun, ?_⟩, fun _ _ => hmore⟩
    rintro _ ⟨⟩
    exact ⟨hsame.trans hagrees, .inl (hfaults ▸ herror)⟩

/-- A model that is asked takes a turn, which counts, or fails. Failures are counted besides, and
there are no more of them than attempts. -/
theorem follows_askWithRetry {request : ModelRequest} {left : Nat}
    {exchanges : List Exchange} {result : Except Error Turn}
    (path : (askWithRetry setting.config.retry node.name request left).activity.Path exchanges
      result)
    (hschema : request.outputSchema = Answer.schema? (step.answered node.output))
    (hopen : progress.IsOpen setting step)
    (hleft : progress.failures + left = setting.config.retry.maxRetries) :
    progress.Along setting node step exchanges ∧
      (progress.behind node step exchanges).requests ≤ progress.requests + left + 1 ∧
      progress.Asked node step (progress.behind node step exchanges) result := by
  induction left generalizing progress exchanges with
  | zero =>
    obtain ⟨halong, hrequests, hasked, -⟩ := follows_askOnce path hschema hopen (by omega)
    exact ⟨halong, by omega, hasked⟩
  | succ left ih =>
    obtain hfirst | ⟨first, error, waiting, later, rfl, hfirst, hwaiting, hlater⟩ :=
      path_askWithRetry path
    · obtain ⟨halong, hrequests, hasked, -⟩ := follows_askOnce hfirst hschema hopen (by omega)
      exact ⟨halong, by omega, hasked⟩
    obtain ⟨halong, hrequests, hasked, hfailures⟩ :=
      follows_askOnce hfirst hschema hopen (by omega)
    replace hfailures := hfailures error rfl
    -- Neither the notice nor the wait counts.
    obtain ⟨hsame, hcount, hfailed, -⟩ :=
      agrees_of_isTalk node step (progress.behind node step first) hwaiting
    have hagrees := (hasked.error error rfl).1.trans hsame
    have hwaited := (hopen.of_agrees (hasked.error error rfl).1).along node
      fun exchange hmem => (hwaiting exchange hmem).2
    simp only [along_append, behind_append]
    obtain ⟨rfl, rfl⟩ | hagain := hlater
    · refine ⟨⟨halong, hwaited, trivial⟩, hcount.trans_le (by omega), nofun, ?_⟩
      rintro _ ⟨⟩
      exact ⟨hagrees, .inr rfl⟩
    · -- One failure more, one attempt less: together they are as many as before.
      obtain ⟨hlong, hmost, hasked⟩ := ih hagain (hopen.of_agrees hagrees) (by omega)
      exact ⟨⟨halong, hwaited, hlong⟩, by omega, hasked.of_agrees hagrees⟩

end Progress

end AgentFlow.ModelStep
