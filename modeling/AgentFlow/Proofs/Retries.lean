import AgentFlow.Proofs.Transcript
import AgentFlow.Proofs.Turns
import AgentFlow.Proofs.Conversation

/-!
# Retries are transparent

A request to the model that fails is tried again, and nothing of the failed attempt is left in the
conversation. So an execution in which requests fail, each less often than it may, is the execution
without the failures, with the attempts inserted before the requests that succeed (`Patched`).

This is a statement about the ways through an activity, and compositional: work that `Mends`
survives whatever attempts are inserted, and fails with the last error if one attempt too many
fails, or one that is not worth another. Two runs are compared in the end
(`passages_eq_of_patched`): the second host gives the replies of the first, and fails in between.
-/

namespace AgentFlow

namespace ModelStep

variable {α β σ σ' : Type} {retry : RetryConfig} {name : String}

/-! ## Failed attempts -/

/-- A request that fails: the pieces that arrived before, and the error. -/
structure Failure where
  deltas : List Delta
  error : Error

/-- What the observers are told of the pieces of an answer. -/
def tellings (name : String) (deltas : List Delta) : List Exchange :=
  deltas.filterMap fun
    | .text chunk => some ⟨.emit (.textDelta name chunk), ()⟩
    | _ => none

/-- A request with its reply, and the texts in it. -/
def attempt (name : String) (request : ModelRequest) (reply : ModelReply) : List Exchange :=
  ⟨.ask request, reply⟩ :: tellings name reply.deltas

/-- The reply to a request that fails. -/
def Failure.reply (failure : Failure) : ModelReply := ⟨failure.deltas, .broken failure.error⟩

/-- Attempts that fail, each with a notice and a wait behind it, the first one after so many. -/
def attempts (retry : RetryConfig) (name : String) (request : ModelRequest) :
    Nat → List Failure → List Exchange
  | _, [] => []
  | before, failure :: later =>
    attempt name request failure.reply ++
      ⟨.emit (.retryNotice name (before + 1) retry.maxRetries failure.error.message), ()⟩ ::
        ⟨.sleep (retry.backoff before) false, false⟩ ::
          attempts retry name request (before + 1) later

/-- Exchanges with failed attempts inserted before requests, for none of them more than there may
be, and all of them worth another. -/
inductive Patched (retry : RetryConfig) (name : String) : List Exchange → List Exchange → Prop where
  | nil : Patched retry name [] []
  | keep (exchange : Exchange) {later patched : List Exchange}
    (rest : Patched retry name later patched) :
    Patched retry name (exchange :: later) (exchange :: patched)
  | insert {request : ModelRequest} {reply : ModelReply} {failures : List Failure}
    (retryable : ∀ failure ∈ failures, failure.error.retryable)
    (few : failures.length ≤ retry.maxRetries) {later patched : List Exchange}
    (rest : Patched retry name later patched) :
    Patched retry name (⟨.ask request, reply⟩ :: later)
      (attempts retry name request 0 failures ++ ⟨.ask request, reply⟩ :: patched)

/-- Failures of which the last one is final: it is one more than there may be, or not worth another
attempt. -/
structure Fatal (retry : RetryConfig) (failures : List Failure) (last : Failure) : Prop where
  retryable : ∀ failure ∈ failures, failure.error.retryable
  few : failures.length ≤ retry.maxRetries
  final : last.error.retryable → failures.length = retry.maxRetries

/-- Exchanges with failed attempts inserted up to a request of which the last attempt is final. That
is where they are cut off. -/
inductive Cut (retry : RetryConfig) (name : String) : List Exchange → List Exchange → Error → Prop
  where
  | here {request : ModelRequest} {reply : ModelReply} {later : List Exchange}
    {failures : List Failure} {last : Failure} (fatal : Fatal retry failures last) :
    Cut retry name (⟨.ask request, reply⟩ :: later)
      (attempts retry name request 0 failures ++ attempt name request last.reply) last.error
  | keep (exchange : Exchange) {later cut : List Exchange} {error : Error}
    (rest : Cut retry name later cut error) :
    Cut retry name (exchange :: later) (exchange :: cut) error
  | insert {request : ModelRequest} {reply : ModelReply} {failures : List Failure}
    (retryable : ∀ failure ∈ failures, failure.error.retryable)
    (few : failures.length ≤ retry.maxRetries) {later cut : List Exchange} {error : Error}
    (rest : Cut retry name later cut error) :
    Cut retry name (⟨.ask request, reply⟩ :: later)
      (attempts retry name request 0 failures ++ ⟨.ask request, reply⟩ :: cut) error

/-- An exchange that is no request that fails. -/
def Succeeds : Exchange → Prop
  | ⟨.ask _, reply⟩ => ModelReply.ending reply = .complete
  | _ => True

/-- In these exchanges, no request fails. -/
def Clean (exchanges : List Exchange) : Prop := ∀ exchange ∈ exchanges, Succeeds exchange

namespace Patched

variable {exchanges patched : List Exchange}

/-- Nothing has to be inserted in the beginning. -/
theorem prepend (first : List Exchange) {later later' : List Exchange}
    (h : Patched retry name later later') :
    Patched retry name (first ++ later) (first ++ later') := by
  induction first with
  | nil => exact h
  | cons exchange rest ih => exact .keep exchange ih

/-- Exchanges into which nothing is inserted are patched. -/
theorem refl (exchanges : List Exchange) : Patched retry name exchanges exchanges :=
  List.append_nil exchanges ▸ prepend exchanges .nil

/-- Where the model is not asked, there is nothing to insert. -/
theorem eq_of_not_isAsk (h : Patched retry name exchanges patched)
    (hasks : ∀ exchange ∈ exchanges, exchange.effect.isAsk = false) : patched = exchanges := by
  induction h with
  | nil => rfl
  | keep exchange rest ih =>
    rw [ih fun exchange hmem => hasks exchange (List.mem_cons_of_mem _ hmem)]
  | insert retryable few rest ih => cases hasks _ List.mem_cons_self

/-- What is inserted into two parts is inserted into one or the other. -/
theorem exists_of_append {first later : List Exchange}
    (h : Patched retry name (first ++ later) patched) :
    ∃ first' later', Patched retry name first first' ∧ Patched retry name later later' ∧
      patched = first' ++ later' := by
  induction first generalizing patched with
  | nil => exact ⟨[], patched, .nil, h, rfl⟩
  | cons exchange rest ih =>
    cases h with
    | keep _ h =>
      obtain ⟨first', later', hfirst, hlater, rfl⟩ := ih h
      exact ⟨_, later', .keep exchange hfirst, hlater, rfl⟩
    | insert retryable few h =>
      obtain ⟨first', later', hfirst, hlater, rfl⟩ := ih h
      exact ⟨_, later', .insert retryable few hfirst, hlater, by simp⟩

end Patched

namespace Cut

variable {exchanges cut : List Exchange} {error : Error}

/-- A part in front stays as it is if the second part is cut off. -/
theorem prepend (first : List Exchange) {later cut : List Exchange}
    (h : Cut retry name later cut error) :
    Cut retry name (first ++ later) (first ++ cut) error := by
  induction first with
  | nil => exact h
  | cons exchange rest ih => exact .keep exchange ih

/-- Where the model is not asked, nothing is cut off. -/
theorem exists_isAsk (h : Cut retry name exchanges cut error) :
    ∃ exchange ∈ exchanges, exchange.effect.isAsk = true := by
  induction h with
  | here fatal => exact ⟨_, List.mem_cons_self, rfl⟩
  | keep exchange rest ih =>
    obtain ⟨other, hmem, hask⟩ := ih
    exact ⟨other, List.mem_cons_of_mem _ hmem, hask⟩
  | insert retryable few rest ih => exact ⟨_, List.mem_cons_self, rfl⟩

/-- Of two parts, either the first one is cut off, or the second one behind the first. -/
theorem exists_of_append {first later : List Exchange}
    (h : Cut retry name (first ++ later) cut error) :
    Cut retry name first cut error ∨ ∃ first' later', Patched retry name first first' ∧
      Cut retry name later later' error ∧ cut = first' ++ later' := by
  induction first generalizing cut with
  | nil => exact .inr ⟨[], cut, .nil, h, rfl⟩
  | cons exchange rest ih =>
    cases h with
    | here fatal => exact .inl (.here fatal)
    | keep _ h =>
      obtain h | ⟨first', later', hfirst, hlater, rfl⟩ := ih h
      · exact .inl (.keep exchange h)
      · exact .inr ⟨_, later', .keep exchange hfirst, hlater, rfl⟩
    | insert retryable few h =>
      obtain h | ⟨first', later', hfirst, hlater, rfl⟩ := ih h
      · exact .inl (.insert retryable few h)
      · exact .inr ⟨_, later', .insert retryable few hfirst, hlater, by simp⟩

end Cut

/-! ## Work that mends -/

/-- Work that survives failures, and fails with one that is final. -/
structure Mends (retry : RetryConfig) (name : String) (work : Work α) : Prop where
  survives : ∀ {exchanges patched : List Exchange} {result : Except Error α},
    work.activity.Path exchanges result → Clean exchanges → Patched retry name exchanges patched →
      work.activity.Path patched result
  fails : ∀ {exchanges cut : List Exchange} {result : Except Error α} {error : Error},
    work.activity.Path exchanges result → Clean exchanges → Cut retry name exchanges cut error →
      work.activity.Path cut (.error error)

/-- Where no request fails, none does in either part. -/
theorem Clean.of_append {first later : List Exchange} (h : Clean (first ++ later)) :
    Clean first ∧ Clean later :=
  ⟨fun exchange hmem => h exchange (List.mem_append_left _ hmem),
    fun exchange hmem => h exchange (List.mem_append_right _ hmem)⟩

/-- Work that does not ask the model has nothing to mend. -/
theorem mends_of_not_ask {work : Work α}
    (h : work.activity.Only fun effect => effect.isAsk = false) : Mends retry name work where
  survives path _ hpatched := hpatched.eq_of_not_isAsk (path.kind h) ▸ path
  fails path _ hcut := by
    obtain ⟨exchange, hmem, hask⟩ := hcut.exists_isAsk
    rw [path.kind h exchange hmem] at hask
    cases hask

/-- Work in two parts mends if both parts do. -/
theorem Mends.bind {work : Work α} {f : α → Work β} (h : Mends retry name work)
    (hf : ∀ a, Mends retry name (f a)) : Mends retry name (work >>= f) where
  survives path hclean hpatched := by
    obtain ⟨error, herror, rfl⟩ | ⟨first, a, later, hfirst, hlater, rfl⟩ :=
      Work.exists_of_path_bind path
    · exact Work.path_bind_error (h.survives herror hclean hpatched)
    · obtain ⟨first', later', hfirst', hlater', rfl⟩ := hpatched.exists_of_append
      exact Work.path_bind (h.survives hfirst hclean.of_append.1 hfirst')
        ((hf a).survives hlater hclean.of_append.2 hlater')
  fails path hclean hcut := by
    obtain ⟨error, herror, rfl⟩ | ⟨first, a, later, hfirst, hlater, rfl⟩ :=
      Work.exists_of_path_bind path
    · exact Work.path_bind_error (h.fails herror hclean hcut)
    obtain hcut | ⟨first', later', hfirst', hlater', rfl⟩ := hcut.exists_of_append
    · exact Work.path_bind_error (h.fails hfirst hclean.of_append.1 hcut)
    · exact Work.path_bind (h.survives hfirst hclean.of_append.1 hfirst')
        ((hf a).fails hlater hclean.of_append.2 hlater')

/-! ## Asking the model -/

/-- Listening to an answer tells its texts, and takes up all its pieces. -/
theorem path_tellings (name : String) (draft : TurnDraft) (deltas : List Delta) :
    (listen name draft deltas).Path (tellings name deltas) (draft.addAll deltas) := by
  induction deltas generalizing draft with
  | nil => exact .done _
  | cons delta rest ih =>
    cases delta with
    | text chunk => exact .step (ih _)
    | toolStart index id name => exact ih _
    | toolInput index fragment => exact ih _
    | stop reason => exact ih _
    | usage input output => exact ih _

/-- A request fails when the model does. -/
theorem path_attempt (name : String) (request : ModelRequest) (failure : Failure) :
    (askOnce name request).activity.Path (attempt name request failure.reply)
      (.error failure.error) := by
  unfold askOnce
  rw [Work.activity_lift_bind]
  refine .step ?_
  rw [← List.append_nil (tellings _ _)]
  exact Work.path_lift_bind (path_tellings _ _ _) (.done _)

/-- A request that succeeds is not made again. -/
theorem path_askWithRetry_of_ok {request : ModelRequest} {exchanges : List Exchange} {turn : Turn}
    (h : (askOnce name request).activity.Path exchanges (.ok turn)) (left : Nat) :
    (askWithRetry retry name request left).activity.Path exchanges (.ok turn) := by
  cases left with
  | zero => exact h
  | succ left =>
    rw [askWithRetry, ← List.append_nil exchanges]
    exact Work.path_lift_bind h (.done _)

/-- Where no request fails, there is one, and it succeeds. -/
theorem Clean.exists_turn {request : ModelRequest} {left : Nat} {exchanges : List Exchange}
    {result : Except Error Turn} (hclean : Clean exchanges)
    (h : (askWithRetry retry name request left).activity.Path exchanges result) :
    ∃ reply told turn, exchanges = ⟨.ask request, reply⟩ :: told ∧
      (∀ exchange ∈ told, exchange.effect.isAsk = false) ∧ result = .ok turn ∧
      (askOnce name request).activity.Path exchanges (.ok turn) := by
  have honce : ∀ {exchanges : List Exchange} {result : Except Error Turn}, Clean exchanges →
      (askOnce name request).activity.Path exchanges result →
      ∃ reply told turn, exchanges = ⟨.ask request, reply⟩ :: told ∧
        (∀ exchange ∈ told, exchange.effect.isAsk = false) ∧ result = .ok turn := by
    intro exchanges result hclean path
    obtain ⟨reply, told, rfl, htold, rfl⟩ := path_askOnce path
    refine ⟨reply, told, .ofDeltas reply.deltas, rfl, fun exchange hmem =>
      (Effect.isTalk_of_isTextDelta (htold exchange hmem)).2, ?_⟩
    have hcomplete : reply.ending = .complete := hclean ⟨.ask request, reply⟩ List.mem_cons_self
    unfold ModelReply.result
    rw [hcomplete]
  have hpath : (askOnce name request).activity.Path exchanges result := by
    cases left with
    | zero => exact h
    | succ left =>
      obtain h | ⟨first, error, waiting, later, rfl, hfirst, -⟩ := path_askWithRetry h
      · exact h
      · obtain ⟨_, _, _, _, _, herror⟩ := honce hclean.of_append.1 hfirst
        cases herror
  obtain ⟨reply, told, turn, rfl, htold, rfl⟩ := honce hclean hpath
  exact ⟨reply, told, turn, rfl, htold, rfl, hpath⟩

/-- After failed attempts that are worth another, the attempts that are left are made. -/
theorem path_attempts {request : ModelRequest} {failures : List Failure} {before left : Nat}
    {exchanges : List Exchange} {result : Except Error Turn}
    (hretryable : ∀ failure ∈ failures, failure.error.retryable)
    (hcount : before + failures.length + left = retry.maxRetries)
    (h : (askWithRetry retry name request left).activity.Path exchanges result) :
    (askWithRetry retry name request (failures.length + left)).activity.Path
      (attempts retry name request before failures ++ exchanges) result := by
  induction failures generalizing before with
  | nil => rwa [List.length_nil, Nat.zero_add]
  | cons failure later ih =>
    rw [List.length_cons] at hcount
    -- The notice says which attempt failed, counted from the attempts that are left.
    have hnumber : retry.maxRetries - (later.length + left) = before + 1 := by omega
    have hlater : (askWithRetry retry name request (later.length + left)).activity.Path
        (attempts retry name request (before + 1) later ++ exchanges) result :=
      ih (fun other hmem => hretryable other (List.mem_cons_of_mem _ hmem)) (by omega)
    rw [List.length_cons, Nat.add_right_comm, askWithRetry, attempts, List.append_assoc]
    refine Work.path_lift_bind (path_attempt name request failure) ?_
    dsimp only
    rw [if_neg (by simp [hretryable failure List.mem_cons_self]), hnumber]
    exact Work.path_perform_bind (Work.path_perform_bind hlater)

/-- Asking the model mends: failures are made up for, as long as there are attempts left. -/
theorem mends_askWithRetry (request : ModelRequest) :
    Mends retry name (askWithRetry retry name request retry.maxRetries) where
  survives path hclean hpatched := by
    obtain ⟨reply, told, turn, rfl, htold, rfl, honce⟩ := hclean.exists_turn path
    cases hpatched with
    | keep _ hrest => rwa [hrest.eq_of_not_isAsk htold]
    | @insert _ _ failures hretryable few _ _ hrest =>
      rw [hrest.eq_of_not_isAsk htold]
      obtain ⟨left, hleft⟩ := Nat.exists_eq_add_of_le few
      have hcount : 0 + failures.length + left = retry.maxRetries := by omega
      have hagain := path_attempts hretryable hcount (path_askWithRetry_of_ok honce left)
      rwa [← hleft] at hagain
  fails path hclean hcut := by
    obtain ⟨reply, told, turn, rfl, htold, rfl, honce⟩ := hclean.exists_turn path
    -- There is no request besides the one that can be cut off.
    have hnone : ∀ {cut error}, ¬ Cut retry name told cut error := fun hcut => by
      obtain ⟨exchange, hmem, hask⟩ := hcut.exists_isAsk
      rw [htold exchange hmem] at hask
      cases hask
    cases hcut with
    | keep _ hrest => exact absurd hrest hnone
    | insert _ _ hrest => exact absurd hrest hnone
    | @here _ _ _ failures last fatal =>
      obtain ⟨left, hleft⟩ := Nat.exists_eq_add_of_le fatal.few
      -- The last attempt is final since none is left, or since its error is not worth another.
      have hlast : (askWithRetry retry name request left).activity.Path
          (attempt name request last.reply) (.error last.error) := by
        cases left with
        | zero => exact path_attempt name request last
        | succ left =>
          have hfinal : (!last.error.retryable) = true := by
            rw [Bool.not_eq_true']
            by_contra hretryable
            have := fatal.final (by simpa using hretryable)
            omega
          rw [askWithRetry, ← List.append_nil (attempt _ _ _)]
          refine Work.path_lift_bind (path_attempt name request last) ?_
          dsimp only
          rw [if_pos hfinal]
          exact .done _
      have hcount : 0 + failures.length + left = retry.maxRetries := by omega
      have hagain := path_attempts fatal.retryable hcount hlast
      rwa [← hleft] at hagain

/-! ## The conversation -/

section Conversation

variable {setting : Setting} {node : Node} {step : ModelStep} {brief : Brief}

/-- Work that is done without the model has nothing to mend. -/
theorem mends_of_quiet {work : Work α} (h : Quiet work) : Mends retry name work :=
  mends_of_not_ask (Activity.Obeys.mono h fun _ _ _ => trivial)

/-- A result that is there mends. -/
theorem mends_pure (a : α) : Mends retry name (pure a : Work α) := mends_of_not_ask trivial

/-- An error that is there mends: no request can fail behind it. -/
theorem mends_throw (error : Error) : Mends retry name (throw error : Work α) :=
  mends_of_not_ask trivial

/-- A result or an error that is there mends. -/
theorem mends_ofExcept (result : Except Error α) : Mends retry name (Work.ofExcept result) :=
  mends_of_not_ask trivial

/-- An effect other than a request has nothing to mend. -/
theorem mends_perform {effect : Effect} (h : effect.isAsk = false) :
    Mends retry name (Work.lift (Activity.perform effect)) :=
  mends_of_not_ask ⟨h, fun _ => trivial⟩

/-- A conversation mends, over all its rounds. -/
theorem mends_converse (steps attempts : Nat) (talk : Talk) (calls : List ToolUse) :
    Mends setting.config.retry node.name
      (converse setting node step brief steps attempts talk calls) := by
  induction steps, attempts using rounds_induct setting step generalizing talk calls with
  | round steps attempts onCalls onRetry =>
    rw [converse_eq]
    refine (mends_perform rfl).bind fun cancelled => ?_
    cases cancelled with
    | true => exact mends_throw _
    | false =>
      refine (mends_of_quiet (quiet_handleCalls talk calls)).bind fun handled => ?_
      cases deal node step brief steps attempts handled with
      | stops outcome => exact mends_pure _
      | asks talk =>
        refine (mends_askWithRetry _).bind fun turn => ?_
        cases hfollow : followUp setting node step brief steps attempts (weigh node talk turn) with
        | completes fields => exact mends_pure _
        | fails error => exact mends_throw _
        | calls talk calls => exact onCalls (lt_of_followUp_calls hfollow) talk calls
        | retries talk message =>
          exact (mends_perform rfl).bind fun _ => onRetry (lt_of_followUp_retries hfollow) talk []

/-- An execution mends from its start. -/
theorem mends_start (vars : Lookup) (itemIndex : Option Nat) :
    Mends setting.config.retry node.name (step.start setting node vars itemIndex) :=
  (mends_ofExcept _).bind fun _ => (mends_ofExcept _).bind fun _ => mends_converse _ _ _ _

/-- An execution mends that is taken up again, whatever the caller decides. -/
theorem mends_resume (checkpoint : Checkpoint) (decision : Decision) :
    Mends setting.config.retry node.name (step.resume setting node checkpoint decision) := by
  unfold resume
  split
  · exact mends_throw _
  · refine Mends.bind ?_ fun talk => mends_converse _ _ _ _
    cases decision with
    | approved => exact mends_of_quiet (quiet_runCall _ _)
    | denied reason => exact mends_pure _

end Conversation

/-! ## Whole executions -/

/-- A stretch of an execution, with what came back, and where that stopped. -/
structure Passage where
  exchanges : List Exchange
  outcome : Except Error ModelOutcome

variable (setting : Setting) (node : Node) (step : ModelStep)

/-- The stretches of an execution under a host. It is taken up again with the caller's decisions in
their order, as long as it waits for one. -/
def passages (host : Host σ) : List Decision → Work ModelOutcome → Session σ → List Passage
  | [], work, session =>
    [⟨work.activity.exchanges host session, (work.activity.run host session).1⟩]
  | decision :: decisions, work, session =>
    ⟨work.activity.exchanges host session, (work.activity.run host session).1⟩ ::
      match (work.activity.run host session).1 with
      | .ok (.awaitApproval _ checkpoint) =>
        passages host decisions (step.resume setting node checkpoint decision)
          (work.activity.run host session).2
      | _ => []

variable {setting node step}

/-- A stretch with failed attempts inserted, which stops as without them. -/
structure Passage.Patched (retry : RetryConfig) (name : String) (passage patched : Passage) : Prop
  where
  exchanges : ModelStep.Patched retry name passage.exchanges patched.exchanges
  outcome : patched.outcome = passage.outcome

variable {host : Host σ} {host' : Host σ'} {decisions : List Decision} {work : Work ModelOutcome}
  {session : Session σ} {session' : Session σ'}

/-- A stretch survives the failures that another host inserts, which gives what is left of its
replies behind it. -/
theorem Mends.run_eq_of_patched (hmends : Mends retry name work) {patched : Passage}
    (hclean : Clean (work.activity.exchanges host session))
    (hpatched : Passage.Patched retry name
      ⟨work.activity.exchanges host session, (work.activity.run host session).1⟩ patched)
    {more : List Exchange} (hgives : Activity.Gives host' session' (patched.exchanges ++ more)) :
    ⟨work.activity.exchanges host' session', (work.activity.run host' session').1⟩ = patched ∧
      Activity.Gives host' (work.activity.run host' session').2 more := by
  obtain ⟨hexchanges, hrun, hmore⟩ :=
    (hmends.survives (Activity.path_run host _ session) hclean hpatched.exchanges).run_of_gives
      hgives
  rw [hexchanges, hrun]
  exact ⟨congrArg _ hpatched.outcome.symm, hmore⟩

/-- Under a host that patches the first stretch, an execution goes on where it went on before. -/
theorem passages_eq_cons {decision : Decision} {first : Passage} {rest : List Passage}
    (hfirst :
      ⟨work.activity.exchanges host' session', (work.activity.run host' session').1⟩ = first)
    (houtcome : first.outcome = (work.activity.run host session).1)
    (hwaits : ∀ request checkpoint,
      (work.activity.run host session).1 = .ok (.awaitApproval request checkpoint) →
        passages setting node step host' decisions (step.resume setting node checkpoint decision)
          (work.activity.run host' session').2 = rest)
    (hstops : (∀ request checkpoint,
      (work.activity.run host session).1 ≠ .ok (.awaitApproval request checkpoint)) → rest = []) :
    passages setting node step host' (decision :: decisions) work session' = first :: rest := by
  have hsame : (work.activity.run host' session').1 = (work.activity.run host session).1 :=
    (congrArg Passage.outcome hfirst).trans houtcome
  rw [passages, hfirst, hsame]
  refine congrArg (first :: ·) ?_
  split
  · exact hwaits _ _ ‹_›
  · rename_i hother
    exact (hstops hother).symm

/-- An execution survives the failures that another host inserts. -/
theorem passages_eq_of_patched (hmends : Mends setting.config.retry node.name work)
    {patched : List Passage}
    (hclean : ∀ passage ∈ passages setting node step host decisions work session,
      Clean passage.exchanges)
    (hpatched : List.Forall₂ (Passage.Patched setting.config.retry node.name)
      (passages setting node step host decisions work session) patched)
    (hgives : Activity.Gives host' session' (patched.flatMap Passage.exchanges)) :
    passages setting node step host' decisions work session' = patched := by
  induction decisions generalizing work session session' patched with
  | nil =>
    rw [passages] at hclean hpatched ⊢
    cases hpatched with
    | cons hhead hrest =>
      cases hrest
      obtain ⟨hfirst, -⟩ := hmends.run_eq_of_patched (hclean _ List.mem_cons_self) hhead hgives
      rw [hfirst]
  | cons decision decisions ih =>
    rw [passages] at hclean hpatched
    cases hpatched with
    | cons hhead hrest =>
      obtain ⟨hfirst, hmore⟩ := hmends.run_eq_of_patched (hclean _ List.mem_cons_self) hhead hgives
      refine passages_eq_cons hfirst hhead.outcome (fun request checkpoint hwaits => ?_)
        fun hstops => ?_
      · simp only [hwaits] at hclean hrest
        exact ih (mends_resume checkpoint decision)
          (fun passage hmem => hclean passage (List.mem_cons_of_mem _ hmem)) hrest hmore
      · -- Where the first execution stops, there is nothing to patch.
        split at hrest
        · exact absurd ‹_› (hstops _ _)
        · exact List.forall₂_nil_left_iff.1 hrest

/-- A stretch ends with the error of a failure that is final. -/
theorem Mends.run_eq_of_cut (hmends : Mends retry name work) {cut : List Exchange} {error : Error}
    (hclean : Clean (work.activity.exchanges host session))
    (hcut : Cut retry name (work.activity.exchanges host session) cut error)
    (hgives : Activity.Gives host' session' cut) :
    work.activity.exchanges host' session' = cut ∧
      (work.activity.run host' session').1 = .error error := by
  rw [← List.append_nil cut] at hgives
  obtain ⟨hexchanges, hrun, -⟩ :=
    (hmends.fails (Activity.path_run host _ session) hclean hcut).run_of_gives hgives
  exact ⟨hexchanges, hrun⟩

/-- An execution ends with the error of a failure that is final, in the stretch that it is in. -/
theorem passages_eq_of_cut (hmends : Mends setting.config.retry node.name work)
    {before after patched : List Passage} {passage : Passage} {cut : List Exchange} {error : Error}
    (hclean : ∀ passage ∈ passages setting node step host decisions work session,
      Clean passage.exchanges)
    (hpassages : passages setting node step host decisions work session =
      before ++ passage :: after)
    (hpatched : List.Forall₂ (Passage.Patched setting.config.retry node.name) before patched)
    (hcut : Cut setting.config.retry node.name passage.exchanges cut error)
    (hgives : Activity.Gives host' session' (patched.flatMap Passage.exchanges ++ cut)) :
    passages setting node step host' decisions work session' =
      patched ++ [⟨cut, .error error⟩] := by
  -- Along the decisions: a stretch before the cut survives, and the one that is cut off is the
  -- last.
  induction decisions generalizing work session session' before patched with
  | nil =>
    rw [passages] at hclean hpassages ⊢
    cases hpatched with
    | cons hhead hrest =>
      exact absurd (List.cons.inj hpassages).2.symm
        (List.append_ne_nil_of_right_ne_nil _ (List.cons_ne_nil _ _))
    | nil =>
      cases hpassages
      obtain ⟨hexchanges, hrun⟩ := hmends.run_eq_of_cut (hclean _ List.mem_cons_self) hcut hgives
      rw [hexchanges, hrun, List.nil_append]
  | cons decision decisions ih =>
    rw [passages] at hclean hpassages
    cases hpatched with
    | nil =>
      obtain ⟨rfl, -⟩ := List.cons.inj hpassages
      obtain ⟨hexchanges, hrun⟩ := hmends.run_eq_of_cut (hclean _ List.mem_cons_self) hcut hgives
      rw [passages, hexchanges, hrun, List.nil_append]
    | cons hhead hrest =>
      obtain ⟨rfl, hlater⟩ := List.cons.inj hpassages
      rw [List.flatMap_cons, List.append_assoc] at hgives
      obtain ⟨hfirst, hmore⟩ := hmends.run_eq_of_patched (hclean _ List.mem_cons_self) hhead hgives
      refine passages_eq_cons hfirst hhead.outcome (fun request checkpoint hwaits => ?_)
        fun hstops => ?_
      · simp only [hwaits] at hclean hlater
        exact ih (mends_resume checkpoint decision)
          (fun passage hmem => hclean passage (List.mem_cons_of_mem _ hmem)) hlater hrest hmore
      · -- The stretch that is cut off comes later, so that the execution cannot stop here.
        split at hlater
        · exact absurd ‹_› (hstops _ _)
        · exact absurd hlater.symm (List.append_ne_nil_of_right_ne_nil _ (List.cons_ne_nil _ _))

/-- Retries are transparent. Take an execution in which no request fails, and a host that gives the
same replies, but fails before some requests. If it fails so often as it may, and worth another
attempt each time, then the execution is the same with the failed attempts inserted: the same
messages are sent in the requests that succeed, the same tools are called with the same inputs, and
every stretch stops as before. If it fails once more, or not worth another attempt, the execution is
the same up to there and ends with that error. -/
theorem retries_transparent {vars : Lookup} {itemIndex : Option Nat} (host' : Host σ')
    (session' : Session σ')
    (hclean : ∀ passage ∈ passages setting node step host decisions
      (step.start setting node vars itemIndex) session, Clean passage.exchanges) :
    (∀ patched : List Passage,
      List.Forall₂ (Passage.Patched setting.config.retry node.name)
        (passages setting node step host decisions (step.start setting node vars itemIndex) session)
        patched →
      Activity.Gives host' session' (patched.flatMap Passage.exchanges) →
      passages setting node step host' decisions (step.start setting node vars itemIndex) session' =
        patched) ∧
    ∀ (before after patched : List Passage) (passage : Passage) (cut : List Exchange)
      (error : Error),
      passages setting node step host decisions (step.start setting node vars itemIndex) session =
        before ++ passage :: after →
      List.Forall₂ (Passage.Patched setting.config.retry node.name) before patched →
      Cut setting.config.retry node.name passage.exchanges cut error →
      Activity.Gives host' session' (patched.flatMap Passage.exchanges ++ cut) →
      passages setting node step host' decisions (step.start setting node vars itemIndex) session' =
        patched ++ [⟨cut, .error error⟩] := by
  have hmends : Mends setting.config.retry node.name (step.start setting node vars itemIndex) :=
    mends_start vars itemIndex
  exact ⟨fun patched hpatched hgives => passages_eq_of_patched hmends hclean hpatched hgives,
    fun before after patched passage cut error hpassages hpatched hcut hgives =>
      passages_eq_of_cut hmends hclean hpassages hpatched hcut hgives⟩

end ModelStep

/-! ## A sample

The node whose calls are approved, with a model that replies from a list. -/

namespace Sample.Breaking

/-- A model that replies from a list. -/
def host : Host (List ModelReply) where
  ask _ replies := ⟨replies.headD (.refused .cancelled), false, replies.tail⟩
  request _ replies := ⟨⟨0, 0⟩, false, replies⟩
  act _ _ replies := ⟨.answered (.ok (.success "r")), false, replies⟩
  sleep _ replies := ⟨(), false, replies⟩
  freshId replies := ("i", replies)

/-- A reply with a call. -/
def call : ModelReply := ⟨[.toolStart 0 "a" "t"], .complete⟩

/-- A reply with an answer. -/
def answer : ModelReply := ⟨[.text "done"], .complete⟩

/-- A stream that breaks within a call. -/
def failure : ModelStep.Failure := ⟨[.text "do", .toolStart 0 "b" "t"], .modelTransport "reset"⟩

/-- An execution in which the model replies from a list, and a call is approved. -/
def run (replies : List ModelReply) : List ModelStep.Passage :=
  ModelStep.passages Sample.setting node step host [.approved]
    (step.start Sample.setting node (fun _ => none) none) ⟨replies, false, []⟩

/-- The stretch up to the call. -/
def opening : ModelStep.Passage where
  exchanges := [⟨.poll, false⟩, ⟨.ask ⟨none, none, [.user "p"], [⟨"t", "", .null⟩], none⟩, call⟩,
    ⟨.poll, false⟩]
  outcome := .ok (.awaitApproval ⟨"n", "t", .map []⟩ checkpoint)

/-- What is done before the model is asked again. -/
def calling : List Exchange :=
  [⟨.emit (.toolStart "n" "t" (.map [])), ()⟩, ⟨.request ⟨"t", .map [], "n", none⟩, ⟨0, 0⟩⟩,
    ⟨.act ⟨"t", .map [], "n", none⟩ 0, .answered (.ok (.success "r"))⟩,
    ⟨.emit (.toolEnd "n" "t" (.success "r")), ()⟩, ⟨.poll, false⟩]

/-- What is done with the failures before the answer. -/
def asking (failures : List ModelStep.Failure) : List Exchange :=
  calling ++ ModelStep.attempts Sample.setting.config.retry "n" request 0 failures

/-- What is done when the model answers. -/
def answering : List Exchange := [⟨.ask request, answer⟩, ⟨.emit (.textDelta "n" "done"), ()⟩]

/-- One failure more or less: with as many as there may be the node is completed, and with one more
it ends with the error. -/
theorem run_of_failures :
    run [call, failure.reply, failure.reply, answer] =
        [opening, ⟨asking [failure, failure] ++ answering, .ok (.complete {})⟩] ∧
      run [call, failure.reply, failure.reply, failure.reply, answer] =
        [opening, ⟨asking [failure, failure] ++ ModelStep.attempt "n" request failure.reply,
          .error (.modelTransport "reset")⟩] := by
  have hrun : run [call, answer] = [opening, ⟨calling ++ answering, .ok (.complete {})⟩] := by
    with_unfolding_all rfl
  have hclean : ∀ passage ∈ run [call, answer], ModelStep.Clean passage.exchanges := by
    rw [hrun]
    simp [ModelStep.Clean, ModelStep.Succeeds, opening, calling, answering, call, answer]
  have hretryable : ∀ other ∈ [failure, failure], other.error.retryable := by decide
  have hopening : List.Forall₂ (ModelStep.Passage.Patched setting.config.retry node.name)
      [opening] [opening] := .cons ⟨.refl _, rfl⟩ .nil
  constructor
  · have hpatched : ModelStep.Patched setting.config.retry node.name (calling ++ answering)
        (asking [failure, failure] ++ answering) := by
      rw [asking, List.append_assoc]
      exact .prepend _ (.insert hretryable (Nat.le_refl 2) (.refl _))
    refine (ModelStep.retries_transparent host _ hclean).1 _ ?_ ?_
    · rw [← run, hrun]
      exact .cons ⟨.refl _, rfl⟩ (.cons ⟨hpatched, rfl⟩ .nil)
    · repeat' constructor
  · have hcut : ModelStep.Cut setting.config.retry node.name (calling ++ answering)
        (asking [failure, failure] ++ ModelStep.attempt "n" request failure.reply)
        failure.error := by
      rw [asking, List.append_assoc]
      exact .prepend _ (.here ⟨hretryable, Nat.le_refl 2, fun _ => rfl⟩)
    refine (ModelStep.retries_transparent host _ hclean).2 [opening] [] [opening]
      ⟨calling ++ answering, .ok (.complete {})⟩ _ _ ?_ hopening hcut ?_
    · rw [← run, hrun]
      rfl
    · repeat' constructor

end Sample.Breaking

end AgentFlow
