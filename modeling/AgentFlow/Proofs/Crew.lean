import AgentFlow.FanOut.Pool
import AgentFlow.Proofs.Contract

/-!
# Crews of workers in any order

A pool as far as anything can be relied on: it works on no more than so many jobs at a time and
passes on each result once. Which job is started next, which does its next effect, and in what order
they end is not determined, and neither is when time passes or when somebody cancels the run.
`Crew.Moves` is one step of a crew and `Crew.Runs` any number of them, with all that the jobs did.

Every step accounts for all jobs (`Crew.Accounts`) and keeps to the number of workers. A job
`Yields` a result if it comes to it whatever has happened to the world each time it turns to it, so
that it does not matter what others did meanwhile. `Crew.Sound` is what every step preserves if all
jobs yield their results. At the end the results by index are those of the jobs that were started
(`Crew.Sound.results_lookup`), which are all of them unless the run was cancelled, and only those
did anything at all (`Crew.Runs.taken`).
-/

namespace AgentFlow

variable {α σ : Type} {host : Host σ}

/-! ## Single workers -/

/-- What a worker gets for an effect. Nobody tells it that the run is cancelled, and a wait is over
when it goes on. -/
def Session.serve (host : Host σ) (session : Session σ) :
    (effect : Effect) → effect.Reply × Session σ
  | .poll => (false, session)
  | .sleep _ _ => (false, session)
  | effect => session.answer host effect

/-- A world that a run may come to from another one. -/
inductive Host.Later (host : Host σ) (world : σ) : σ → Prop where
  | refl : Later host world world
  | answer {session : Session σ} (h : Later host world session.world) (effect : Effect) :
    Later host world (session.answer host effect).2.world

/-- What may come later than a later world may come later. -/
theorem Host.Later.trans {first second third : σ} (h : host.Later first second)
    (hlater : host.Later second third) : host.Later first third := by
  induction hlater with
  | refl => exact h
  | answer _ effect ih => exact ih.answer effect

/-- Serving a worker leads to a world that may come later. -/
theorem Host.later_serve (host : Host σ) (session : Session σ) (effect : Effect) :
    host.Later session.world (session.serve host effect).2.world := by
  cases effect <;> first | exact .refl | exact Host.Later.refl.answer _

/-- A run that is cancelled stays so while workers are served. -/
theorem Session.cancelled_serve {session : Session σ} (h : session.cancelled = true)
    (effect : Effect) : (session.serve host effect).2.cancelled = true := by
  cases effect <;> first | exact h | exact cancelled_answer host h _

namespace Activity

/-- A worker comes to the result whatever has happened to the world each time it turns to it. -/
def Yields (host : Host σ) (result : α) : Activity α → σ → Prop
  | done a, _ => a = result
  | step effect next, world => ∀ session : Session σ, host.Later world session.world →
      (next (session.serve host effect).1).Yields host result (session.serve host effect).2.world

/-- What comes to a result in any case still does so later. -/
theorem Yields.later {t : Activity α} {result : α} {world world' : σ}
    (h : t.Yields host result world) (hlater : host.Later world world') :
    t.Yields host result world' := by
  cases t with
  | done a => exact h
  | step effect next => exact fun session hsession => h session (hlater.trans hsession)

/-- The result of an activity that has the same reply to an effect each time. -/
def resolve (reply : (effect : Effect) → effect.Reply) : Activity α → α
  | done a => a
  | step effect next => (next (reply effect)).resolve reply

/-- If what comes back depends on nothing but what was asked, every activity has its result. -/
theorem yields_resolve {reply : (effect : Effect) → effect.Reply}
    (hreply : ∀ (session : Session σ) (effect : Effect),
      (session.serve host effect).1 = reply effect) (t : Activity α) (world : σ) :
    t.Yields host (t.resolve reply) world := by
  induction t generalizing world with
  | done a => rfl
  | step effect next ih =>
    intro session _
    rw [hreply]
    exact ih _ _

/-- A worker works on an activity from its start to its end, while nobody else does anything. -/
def finish (host : Host σ) : Activity α → Session σ → α × Session σ
  | done a, session => (a, session)
  | step effect next, session =>
    (next (session.serve host effect).1).finish host (session.serve host effect).2

/-- Working on an activity to its end leads to a world that may come later. -/
theorem later_finish (host : Host σ) (t : Activity α) (session : Session σ) :
    host.Later session.world (t.finish host session).2.world := by
  induction t generalizing session with
  | done a => exact .refl
  | step effect next ih => exact (host.later_serve session effect).trans (ih _ _)

/-- A worker who has the others wait comes to the same result. -/
theorem Yields.finish {t : Activity α} {result : α} {session : Session σ}
    (h : t.Yields host result session.world) : (t.finish host session).1 = result := by
  induction t generalizing session with
  | done a => exact h
  | step effect next ih => exact ih _ (h session .refl)

end Activity

/-- The results of jobs that are worked on one after the other. -/
def oneByOne (host : Host σ) : List (Job α) → Session σ → List (Nat × α)
  | [], _ => []
  | job :: rest, session =>
    (job.index, (job.activity.finish host session).1) ::
      oneByOne host rest (job.activity.finish host session).2

/-! ## Crews -/

/-- Jobs in different states. -/
structure Crew (α : Type) where
  /-- The most jobs that are worked on at a time. -/
  width : Nat
  /-- The jobs that nobody has looked at yet. -/
  waiting : List (Job α)
  /-- The jobs that are worked on, in any order. -/
  working : List (Job α) := []
  /-- The results so far, in the order in which the jobs ended. -/
  results : List (Nat × α) := []

/-- What may happen that is not the work of a job: the observers are told how far the crew is, time
passes, or the run is cancelled. -/
def Effect.isAside : Effect → Bool
  | .emit (.fanOutProgress _ _) | .sleep _ _ | .cancel => true
  | _ => false

namespace Crew

/-- One move of a crew, with what a job did in it. -/
inductive Moves (host : Host σ) (crew : Crew α) (session : Session σ) :
    List (Nat × Effect) → Crew α → Session σ → Prop where
  /-- One of the waiting jobs is started. -/
  | start {job : Job α} {rest : List (Job α)} (hwaiting : crew.waiting.Perm (job :: rest))
    (hroom : crew.working.length < crew.width) (hopen : session.cancelled = false) :
    Moves host crew session [] { crew with waiting := rest, working := job :: crew.working } session
  /-- One of the waiting jobs is passed over, since the run is cancelled. -/
  | skip {job : Job α} {rest : List (Job α)} (hwaiting : crew.waiting.Perm (job :: rest))
    (hroom : crew.working.length < crew.width) (hcancelled : session.cancelled = true) :
    Moves host crew session [] { crew with waiting := rest } session
  /-- One of the jobs goes on by one effect. -/
  | work {index : Nat} {effect : Effect} {next : effect.Reply → Activity α} {rest : List (Job α)}
    (hworking : crew.working.Perm (⟨index, .step effect next⟩ :: rest)) :
    Moves host crew session [(index, effect)]
      { crew with working := ⟨index, next (session.serve host effect).1⟩ :: rest }
      (session.serve host effect).2
  /-- One of the jobs ends, and its result is passed on. -/
  | finish {index : Nat} {result : α} {rest : List (Job α)}
    (hworking : crew.working.Perm (⟨index, .done result⟩ :: rest)) :
    Moves host crew session []
      { crew with working := rest, results := crew.results ++ [(index, result)] } session
  /-- Something else happens. -/
  | pass (effect : Effect) (haside : effect.isAside) :
    Moves host crew session [] crew (session.answer host effect).2

/-- Any number of moves, with all that the jobs did in them. -/
inductive Runs (host : Host σ) :
    Crew α → Session σ → List (Nat × Effect) → Crew α → Session σ → Prop where
  | stop (crew : Crew α) (session : Session σ) : Runs host crew session [] crew session
  | move {crew crew' crew'' : Crew α} {session session' session'' : Session σ}
    {work later : List (Nat × Effect)} (h : Moves host crew session work crew' session')
    (hlater : Runs host crew' session' later crew'' session'') :
    Runs host crew session (work ++ later) crew'' session''

/-- One move is a run. -/
theorem Moves.runs {crew crew' : Crew α} {session session' : Session σ}
    {work : List (Nat × Effect)} (h : Moves host crew session work crew' session') :
    Runs host crew session work crew' session' := by
  have hruns := Runs.move h (.stop _ _)
  rwa [List.append_nil] at hruns

/-- Two runs, one behind the other, are a run with the work of both. -/
theorem Runs.trans {crew crew' crew'' : Crew α} {session session' session'' : Session σ}
    {work later : List (Nat × Effect)} (h : Runs host crew session work crew' session')
    (hlater : Runs host crew' session' later crew'' session'') :
    Runs host crew session (work ++ later) crew'' session'' := by
  induction h with
  | stop => exact hlater
  | move hmove _ ih =>
    rw [List.append_assoc]
    exact .move hmove (ih hlater)

/-- What every move preserves, every run preserves. -/
theorem Runs.preserve {P : Crew α → Session σ → Prop}
    (hmove : ∀ {crew crew' : Crew α} {session session' : Session σ} {work : List (Nat × Effect)},
      Moves host crew session work crew' session' → P crew session → P crew' session')
    {crew crew' : Crew α} {session session' : Session σ} {work : List (Nat × Effect)}
    (h : Runs host crew session work crew' session') (hstart : P crew session) :
    P crew' session' := by
  induction h with
  | stop => exact hstart
  | move hfirst _ ih => exact ih (hmove hfirst hstart)

/-- Nothing is left to do. -/
structure Finished (crew : Crew α) : Prop where
  waiting : crew.waiting = []
  working : crew.working = []

/-- The indices of the jobs that were started. -/
def taken (crew : Crew α) : List Nat := crew.results.map Prod.fst ++ crew.working.map Job.index

/-- Only jobs that were started do anything, and started they remain. -/
theorem Moves.taken {crew crew' : Crew α} {session session' : Session σ}
    {work : List (Nat × Effect)} (h : Moves host crew session work crew' session') :
    (∀ entry ∈ work, entry.1 ∈ crew'.taken) ∧ crew.taken ⊆ crew'.taken := by
  cases h with
  | start hwaiting hroom hopen =>
    refine ⟨fun _ hentry => absurd hentry List.not_mem_nil, fun index hindex => ?_⟩
    rcases List.mem_append.1 hindex with hindex | hindex
    · exact List.mem_append_left _ hindex
    · exact List.mem_append_right _ (List.mem_cons_of_mem _ hindex)
  | skip => exact ⟨fun _ hentry => absurd hentry List.not_mem_nil, fun _ hindex => hindex⟩
  | @work index effect next rest hworking =>
    refine ⟨fun entry hentry => ?_, fun other hother => ?_⟩
    · rw [List.mem_singleton.1 hentry]
      exact List.mem_append_right _ List.mem_cons_self
    · rcases List.mem_append.1 hother with hother | hother
      · exact List.mem_append_left _ hother
      · exact List.mem_append_right _ ((hworking.map Job.index).subset hother)
  | @finish index result rest hworking =>
    refine ⟨fun _ hentry => absurd hentry List.not_mem_nil, fun other hother => ?_⟩
    have hmoved : (crew.results ++ [(index, result)]).map Prod.fst =
        crew.results.map Prod.fst ++ [index] := List.map_append
    unfold Crew.taken at hother ⊢
    rw [hmoved, List.append_assoc]
    rcases List.mem_append.1 hother with hother | hother
    · exact List.mem_append_left _ hother
    · exact List.mem_append_right _ ((hworking.map Job.index).subset hother)
  | pass => exact ⟨fun _ hentry => absurd hentry List.not_mem_nil, fun _ hindex => hindex⟩

/-- In a run, only jobs that were started do anything, and started they remain. -/
theorem Runs.taken {crew crew' : Crew α} {session session' : Session σ}
    {work : List (Nat × Effect)} (h : Runs host crew session work crew' session') :
    (∀ entry ∈ work, entry.1 ∈ crew'.taken) ∧ crew.taken ⊆ crew'.taken := by
  induction h with
  | stop => exact ⟨fun _ hentry => absurd hentry List.not_mem_nil, fun _ hindex => hindex⟩
  | move hmove _ ih =>
    obtain ⟨hwork, hkept⟩ := hmove.taken
    refine ⟨fun entry hentry => ?_, fun _ hindex => ih.2 (hkept hindex)⟩
    rcases List.mem_append.1 hentry with hentry | hentry
    · exact ih.2 (hwork entry hentry)
    · exact ih.1 entry hentry

/-! ## What every move preserves -/

/-- A move leads to a world that may come later. -/
theorem Moves.later {crew crew' : Crew α} {session session' : Session σ}
    {work : List (Nat × Effect)} (h : Moves host crew session work crew' session') :
    host.Later session.world session'.world := by
  cases h with
  | work => exact host.later_serve session _
  | pass effect => exact Host.Later.refl.answer effect
  | _ => exact .refl

/-- Every job was started, or still waits, or was passed over because the run was cancelled. -/
def Accounts (jobs : List (Job α)) (crew : Crew α) (session : Session σ) : Prop :=
  ∃ skipped, (jobs.map Job.index).Perm (crew.taken ++ (skipped ++ crew.waiting.map Job.index)) ∧
    (skipped ≠ [] → session.cancelled = true)

/-- A move accounts for all jobs if they were accounted for before. -/
theorem Moves.accounts {jobs : List (Job α)} {crew crew' : Crew α} {session session' : Session σ}
    {work : List (Nat × Effect)} (h : Moves host crew session work crew' session')
    (hall : Accounts jobs crew session) : Accounts jobs crew' session' := by
  obtain ⟨skipped, hjobs, hskipped⟩ := hall
  cases h with
  | @start job rest hfirst hroom hopen =>
    obtain rfl : skipped = [] := Classical.not_not.1 fun hne => by simp [hskipped hne] at hopen
    -- The index moves from the waiting ones to those that were started.
    refine ⟨[], hjobs.trans ?_, fun hne => absurd rfl hne⟩
    refine ((hfirst.map Job.index).append_left crew.taken).trans (List.perm_middle.trans ?_)
    exact List.Perm.append_right _ List.perm_middle.symm
  | @skip job rest hfirst hroom hcancelled =>
    refine ⟨job.index :: skipped, hjobs.trans (List.Perm.append_left _ ?_), fun _ => hcancelled⟩
    exact ((hfirst.map Job.index).append_left skipped).trans List.perm_middle
  | @work index effect next rest hperm =>
    refine ⟨skipped, hjobs.trans (List.Perm.append_right _ ?_), fun hne =>
      Session.cancelled_serve (hskipped hne) effect⟩
    exact List.Perm.append_left _ (hperm.map Job.index)
  | @finish index result rest hperm =>
    refine ⟨skipped, hjobs.trans (List.Perm.append_right _ ?_), hskipped⟩
    unfold Crew.taken
    rw [List.map_append, List.append_assoc]
    exact List.Perm.append_left _ (hperm.map Job.index)
  | pass effect haside =>
    exact ⟨skipped, hjobs, fun hne => Session.cancelled_answer host (hskipped hne) effect⟩

/-- A run accounts for all jobs if they were accounted for before. -/
theorem Runs.accounts {jobs : List (Job α)} {crew crew' : Crew α} {session session' : Session σ}
    {work : List (Nat × Effect)} (h : Runs host crew session work crew' session')
    (hall : Accounts jobs crew session) : Accounts jobs crew' session' :=
  h.preserve (fun hmove hall => hmove.accounts hall) hall

/-- Before anything is done. -/
theorem accounts_of_waiting (width : Nat) (jobs : List (Job α)) (session : Session σ) :
    Accounts jobs { width, waiting := jobs } session :=
  ⟨[], .refl _, fun hne => absurd rfl hne⟩

/-- At the end all jobs were started unless the run was cancelled. -/
theorem Accounts.perm_taken {jobs : List (Job α)} {crew : Crew α} {session : Session σ}
    (h : Accounts jobs crew session) (hfinished : crew.Finished)
    (hopen : session.cancelled = false) : (jobs.map Job.index).Perm crew.taken := by
  obtain ⟨skipped, hjobs, hskipped⟩ := h
  obtain rfl : skipped = [] := Classical.not_not.1 fun hne => by simp [hskipped hne] at hopen
  rwa [hfinished.waiting, List.map_nil, List.append_nil, List.append_nil] at hjobs

/-- No more jobs are worked on than the crew has workers. -/
theorem Moves.working_le {crew crew' : Crew α} {session session' : Session σ}
    {work : List (Nat × Effect)} (h : Moves host crew session work crew' session')
    (hroom : crew.working.length ≤ crew.width) : crew'.working.length ≤ crew'.width := by
  cases h with
  | start _ hfree _ => exact hfree
  | skip | pass => exact hroom
  | work hworking => exact (hworking.length_eq ▸ hroom :)
  | finish hworking =>
    have hlength := hworking.length_eq
    rw [List.length_cons] at hlength
    dsimp only
    omega

/-- At no moment of a run are more jobs worked on than the crew has workers. -/
theorem Runs.working_le {crew crew' : Crew α} {session session' : Session σ}
    {work : List (Nat × Effect)} (h : Runs host crew session work crew' session')
    (hroom : crew.working.length ≤ crew.width) : crew'.working.length ≤ crew'.width :=
  h.preserve (fun hmove hroom => hmove.working_le hroom) hroom

/-- How a crew stands that works on jobs which yield their results. -/
structure Sound (host : Host σ) (outcome : Nat → α) (jobs : List (Job α)) (crew : Crew α)
    (session : Session σ) : Prop where
  /-- Every job was started, or still waits, or was passed over because the run was cancelled. -/
  split : ∃ skipped, (jobs.map Job.index).Perm
    (crew.taken ++ (skipped ++ crew.waiting.map Job.index)) ∧
      (skipped ≠ [] → session.cancelled = true)
  waiting : ∀ job ∈ crew.waiting, job.activity.Yields host (outcome job.index) session.world
  working : ∀ job ∈ crew.working, job.activity.Yields host (outcome job.index) session.world
  results : ∀ entry ∈ crew.results, entry.2 = outcome entry.1

variable {outcome : Nat → α} {jobs : List (Job α)}

/-- Before anything is done. -/
theorem sound_of_yields (width : Nat) {session : Session σ}
    (hjobs : ∀ job ∈ jobs, job.activity.Yields host (outcome job.index) session.world) :
    Sound host outcome jobs { width, waiting := jobs } session :=
  ⟨accounts_of_waiting width jobs session, hjobs, fun _ hjob => absurd hjob List.not_mem_nil,
    fun _ hentry => absurd hentry List.not_mem_nil⟩

/-- A move of a sound crew leaves it sound: what others do to the world changes no result that a job
comes to in any case. -/
theorem Moves.sound {crew crew' : Crew α} {session session' : Session σ}
    {work : List (Nat × Effect)} (h : Moves host crew session work crew' session')
    (hsound : Sound host outcome jobs crew session) : Sound host outcome jobs crew' session' := by
  obtain ⟨hsplit, hwaiting, hworking, hresults⟩ := hsound
  replace hsplit := h.accounts hsplit
  -- Jobs that have no part in the move do not mind it.
  replace hwaiting : ∀ job ∈ crew.waiting,
      job.activity.Yields host (outcome job.index) session'.world :=
    fun job hjob => (hwaiting job hjob).later h.later
  have hstill : ∀ job ∈ crew.working,
      job.activity.Yields host (outcome job.index) session'.world :=
    fun job hjob => (hworking job hjob).later h.later
  -- Only the job that moves has to be looked at.
  cases h with
  | @start job rest hfirst hroom hopen =>
    refine ⟨hsplit, ?_, ?_, hresults⟩
    · exact fun other hother => hwaiting other (hfirst.mem_iff.2 (List.mem_cons_of_mem _ hother))
    · intro other hother
      rcases List.mem_cons.1 hother with rfl | hother
      · exact hwaiting other (hfirst.mem_iff.2 List.mem_cons_self)
      · exact hstill other hother
  | @skip job rest hfirst hroom hcancelled =>
    refine ⟨hsplit, fun other hother => ?_, hstill, hresults⟩
    exact hwaiting other (hfirst.mem_iff.2 (List.mem_cons_of_mem _ hother))
  | @work index effect next rest hperm =>
    have hjob : (Activity.step effect next).Yields host (outcome index) session.world :=
      hworking ⟨index, _⟩ (hperm.mem_iff.2 List.mem_cons_self)
    refine ⟨hsplit, hwaiting, fun other hother => ?_, hresults⟩
    rcases List.mem_cons.1 hother with rfl | hother
    · exact hjob session .refl
    · exact hstill other (hperm.mem_iff.2 (List.mem_cons_of_mem _ hother))
  | @finish index result rest hperm =>
    have hjob : result = outcome index :=
      hworking ⟨index, _⟩ (hperm.mem_iff.2 List.mem_cons_self)
    refine ⟨hsplit, hwaiting, ?_, ?_⟩
    · exact fun other hother => hstill other (hperm.mem_iff.2 (List.mem_cons_of_mem _ hother))
    · intro entry hentry
      rcases List.mem_append.1 hentry with hentry | hentry
      · exact hresults entry hentry
      · rw [List.mem_singleton.1 hentry]
        exact hjob
  | pass effect haside => exact ⟨hsplit, hwaiting, hstill, hresults⟩

/-- A run of a sound crew leaves it sound. -/
theorem Runs.sound {crew crew' : Crew α} {session session' : Session σ}
    {work : List (Nat × Effect)} (h : Runs host crew session work crew' session')
    (hsound : Sound host outcome jobs crew session) : Sound host outcome jobs crew' session' :=
  h.preserve (fun hmove hsound => hmove.sound hsound) hsound

/-- Only jobs that there are were started. -/
theorem Sound.taken_subset {crew : Crew α} {session : Session σ}
    (h : Sound host outcome jobs crew session) : crew.taken ⊆ jobs.map Job.index := by
  obtain ⟨skipped, hjobs, -⟩ := h.split
  exact fun index hindex => hjobs.mem_iff.2 (List.mem_append_left _ hindex)

/-! ## The end -/

section

variable {crew : Crew α} {session : Session σ} (h : Sound host outcome jobs crew session)
  (hfinished : crew.Finished)
include h hfinished

/-- At the end the jobs that were started have their results, each under its index. -/
theorem Sound.results_lookup (index : Nat) :
    crew.results.lookup index = if index ∈ crew.taken then some (outcome index) else none := by
  have htaken : crew.taken = crew.results.map Prod.fst := by
    rw [Crew.taken, hfinished.working, List.map_nil, List.append_nil]
  rw [htaken]
  cases hlookup : crew.results.lookup index with
  | none =>
    have hnot : index ∉ crew.results.map Prod.fst := fun hmem => by
      obtain ⟨entry, hentry, hfst⟩ := List.mem_map.1 hmem
      have hsome : (crew.results.lookup index).isSome :=
        List.lookup_isSome_iff.2 ⟨entry, hentry, by simp [hfst]⟩
      simp [hlookup] at hsome
    rw [if_neg hnot]
  | some result =>
    obtain ⟨before, after, heq, -⟩ := List.lookup_eq_some_iff.1 hlookup
    have hentry : (index, result) ∈ crew.results := heq ▸ by simp
    rw [if_pos (List.mem_map_of_mem hentry)]
    exact congrArg some (h.results _ hentry)

/-- All jobs were started unless the run was cancelled. -/
theorem Sound.subset_taken (hopen : session.cancelled = false) :
    jobs.map Job.index ⊆ crew.taken := by
  have hall : Accounts jobs crew session := h.split
  exact (hall.perm_taken hfinished hopen).subset

end

/-! ## Crews come to an end -/

/-- A job that is worked on can be brought to its end. -/
theorem exists_runs_job (host : Host σ) (t : Activity α) (crew : Crew α) {index : Nat}
    {rest : List (Job α)} (hworking : crew.working.Perm (⟨index, t⟩ :: rest))
    (session : Session σ) :
    ∃ work crew' session', Runs host crew session work crew' session' ∧
      crew'.working = rest ∧ crew'.waiting = crew.waiting ∧ crew'.width = crew.width := by
  induction t generalizing crew session with
  | done result => exact ⟨_, _, _, .move (.finish hworking) (.stop _ _), rfl, rfl, rfl⟩
  | step effect next ih =>
    obtain ⟨work, crew', session', hruns, hrest⟩ := ih (session.serve host effect).1
      { crew with working := ⟨index, next (session.serve host effect).1⟩ :: rest }
      (.refl _) (session.serve host effect).2
    exact ⟨_, crew', session', .move (.work hworking) hruns, hrest⟩

/-- The number of workers does not change. -/
theorem Runs.width {crew crew' : Crew α} {session session' : Session σ}
    {work : List (Nat × Effect)} (h : Runs host crew session work crew' session') :
    crew'.width = crew.width := by
  induction h with
  | stop => rfl
  | move hmove _ ih => exact ih.trans (by cases hmove <;> rfl)

/-- The jobs that are worked on can be brought to their ends one by one, with none started. -/
theorem exists_runs_idle (host : Host σ) (crew : Crew α) (session : Session σ) :
    ∃ work crew' session', Runs host crew session work crew' session' ∧
      crew'.working = [] ∧ crew'.waiting = crew.waiting ∧ crew'.width = crew.width := by
  induction hworking : crew.working generalizing crew session with
  | nil => exact ⟨_, crew, session, .stop _ _, hworking, rfl, rfl⟩
  | cons job rest ih =>
    obtain ⟨work, crew', session', hruns, hrest, hwaits, hwide⟩ :=
      exists_runs_job host job.activity crew (List.Perm.of_eq hworking) session
    obtain ⟨later, crew'', session'', hlater, hidle, hwaits', hwide'⟩ := ih crew' session' hrest
    exact ⟨_, crew'', session'', hruns.trans hlater, hidle, hwaits'.trans hwaits,
      hwide'.trans hwide⟩

/-- A crew with somebody in it can bring its jobs to an end from wherever it stands. -/
theorem exists_runs_finished (host : Host σ) (crew : Crew α) (hwidth : 0 < crew.width)
    (session : Session σ) :
    ∃ work crew' session', Runs host crew session work crew' session' ∧ crew'.Finished := by
  -- It ends what it has begun before it turns to the next job, so that there is always room.
  induction hwaiting : crew.waiting generalizing crew session with
  | nil =>
    obtain ⟨work, crew', session', hruns, hidle, hwaits, -⟩ := exists_runs_idle host crew session
    exact ⟨work, crew', session', hruns, hwaits.trans hwaiting, hidle⟩
  | cons job rest ih =>
    obtain ⟨work, crew', session', hruns, hidle, hwaits, hwide⟩ :=
      exists_runs_idle host crew session
    have hfirst : crew'.waiting.Perm (job :: rest) := .of_eq (hwaits.trans hwaiting)
    have hwidth' : 0 < crew'.width := by rwa [hwide]
    have hroom : crew'.working.length < crew'.width := by rwa [hidle]
    cases hcancelled : session'.cancelled with
    | true =>
      obtain ⟨later, crew'', session'', hlater, hfinished⟩ :=
        ih { crew' with waiting := rest } hwidth' session' rfl
      exact ⟨_, crew'', session'', hruns.trans (.move (.skip hfirst hroom hcancelled) hlater),
        hfinished⟩
    | false =>
      obtain ⟨later, crew'', session'', hlater, hfinished⟩ :=
        ih { crew' with waiting := rest, working := job :: crew'.working } hwidth' session' rfl
      exact ⟨_, crew'', session'', hruns.trans (.move (.start hfirst hroom hcancelled) hlater),
        hfinished⟩

end Crew

/-- Jobs that are worked on one after the other have the results that they yield. -/
theorem oneByOne_eq {outcome : Nat → α} {jobs : List (Job α)} {session : Session σ}
    (hjobs : ∀ job ∈ jobs, job.activity.Yields host (outcome job.index) session.world) :
    oneByOne host jobs session = jobs.map fun job => (job.index, outcome job.index) := by
  induction jobs generalizing session with
  | nil => rfl
  | cons job rest ih =>
    have hresult := (hjobs job List.mem_cons_self).finish
    have hrest := ih fun other hother => (hjobs other (List.mem_cons_of_mem _ hother)).later
      (job.activity.later_finish host session)
    rw [oneByOne, hresult, hrest, List.map_cons]

end AgentFlow
