import Mathlib.Data.List.Nodup
import Mathlib.Order.Nat
import AgentFlow.Proofs.Crew

/-!
# The counters of a crew

A crew that fans out counts the jobs that it starts and those that end, and tells the observers
how far it is whenever one of the two counts changes. Between counting and telling nobody else has a
turn, since a worker gives way only where it waits for a reply. `Tally.Moves` is a step of such a
crew, `Tally.Runs` any number of steps, with what the jobs did and with the reports that were made.
A report carries the index of its job, which the observers do not see, so that it can be said which
job a report is owed to.

A run of a tally is a run of its crew (`Tally.Runs.crew`), and its counters are the numbers of jobs
that were started and that have ended (`Tally.Counted`), which every move preserves. Every report is
one of the moments of a run (`Tally.Runs.exists_of_mem`), so that what holds of every tally a run
can come to holds of every report.
-/

namespace AgentFlow

variable {α σ : Type} {host : Host σ}

/-- What a report is about: a job starts, or it ends. -/
inductive Phase where
  | start
  | finish
deriving DecidableEq

/-- What the observers are told when a job starts or ends. -/
structure Report where
  /-- The index of the job. -/
  index : Nat
  phase : Phase
  progress : FanOutProgress

namespace Report

/-- The event of a report. -/
def event (node : String) (report : Report) : Event := .fanOutProgress node report.progress

/-- The indices of the jobs that reports in a phase are about. -/
def indices (phase : Phase) (reports : List Report) : List Nat :=
  (reports.filter fun report => report.phase = phase).map index

/-- The indices in two lists of reports, in their order. -/
theorem indices_append (phase : Phase) (reports later : List Report) :
    indices phase (reports ++ later) = indices phase reports ++ indices phase later := by
  unfold indices
  rw [List.filter_append, List.map_append]

end Report

/-- A crew that counts. -/
structure Tally (α : Type) extends Crew α where
  /-- The number of jobs that were started. -/
  started : Nat := 0
  /-- The number of jobs that have ended. -/
  completed : Nat := 0

/-- What happens to a crew from outside: time passes, or the run is cancelled. -/
def Effect.isOutside : Effect → Bool
  | .sleep _ _ | .cancel => true
  | _ => false

namespace Tally

/-- How far a crew is with a number of jobs. -/
def progress (tally : Tally α) (total : Nat) : FanOutProgress :=
  ⟨tally.started, tally.completed, total⟩

/-- One of the waiting jobs is started, and the others wait. -/
def start (tally : Tally α) (job : Job α) (rest : List (Job α)) : Tally α :=
  { tally with
    waiting := rest
    working := job :: tally.working
    started := tally.started + 1 }

/-- A job has ended with a result, and the others are worked on. -/
def finish (tally : Tally α) (index : Nat) (result : α) (rest : List (Job α)) : Tally α :=
  { tally with
    working := rest
    results := tally.results ++ [(index, result)]
    completed := tally.completed + 1 }

/-- The observers are told how far a crew is. -/
def tell (host : Host σ) (node : String) (total : Nat) (tally : Tally α) (session : Session σ) :
    Session σ :=
  (session.answer host (.emit (.fanOutProgress node (tally.progress total)))).2

/-- One move of a crew that counts, on behalf of a node. -/
inductive Moves (host : Host σ) (node : String) (total : Nat) (tally : Tally α)
    (session : Session σ) : List (Nat × Effect) → List Report → Tally α → Session σ → Prop where
  /-- One of the waiting jobs is started, counted and reported. -/
  | start {job : Job α} {rest : List (Job α)} (hwaiting : tally.waiting.Perm (job :: rest))
    (hroom : tally.working.length < tally.width) (hopen : session.cancelled = false) :
    Moves host node total tally session []
      [⟨job.index, .start, (tally.start job rest).progress total⟩] (tally.start job rest)
      ((tally.start job rest).tell host node total session)
  /-- One of the waiting jobs is passed over, since the run is cancelled. -/
  | skip {job : Job α} {rest : List (Job α)} (hwaiting : tally.waiting.Perm (job :: rest))
    (hroom : tally.working.length < tally.width) (hcancelled : session.cancelled = true) :
    Moves host node total tally session [] [] { tally with waiting := rest } session
  /-- One of the jobs goes on by one effect. -/
  | work {index : Nat} {effect : Effect} {next : effect.Reply → Activity α} {rest : List (Job α)}
    (hworking : tally.working.Perm (⟨index, .step effect next⟩ :: rest)) :
    Moves host node total tally session [(index, effect)] []
      { tally with working := ⟨index, next (session.serve host effect).1⟩ :: rest }
      (session.serve host effect).2
  /-- One of the jobs ends, which is counted and reported. -/
  | finish {index : Nat} {result : α} {rest : List (Job α)}
    (hworking : tally.working.Perm (⟨index, .done result⟩ :: rest)) :
    Moves host node total tally session []
      [⟨index, .finish, (tally.finish index result rest).progress total⟩]
      (tally.finish index result rest)
      ((tally.finish index result rest).tell host node total session)
  /-- Something else happens. -/
  | pass (effect : Effect) (houtside : effect.isOutside) :
    Moves host node total tally session [] [] tally (session.answer host effect).2

/-- Any number of moves. -/
inductive Runs (host : Host σ) (node : String) (total : Nat) : Tally α → Session σ →
    List (Nat × Effect) → List Report → Tally α → Session σ → Prop where
  | stop (tally : Tally α) (session : Session σ) :
    Runs host node total tally session [] [] tally session
  | move {tally tally' tally'' : Tally α} {session session' session'' : Session σ}
    {work later : List (Nat × Effect)} {reports more : List Report}
    (h : Moves host node total tally session work reports tally' session')
    (hlater : Runs host node total tally' session' later more tally'' session'') :
    Runs host node total tally session (work ++ later) (reports ++ more) tally'' session''

variable {node : String} {total : Nat} {tally tally' tally'' : Tally α}
  {session session' session'' : Session σ} {work later : List (Nat × Effect)}
  {reports more : List Report}

/-- Two runs, one behind the other, are a run with the work and the reports of both. -/
theorem Runs.trans (h : Runs host node total tally session work reports tally' session')
    (hlater : Runs host node total tally' session' later more tally'' session'') :
    Runs host node total tally session (work ++ later) (reports ++ more) tally'' session'' := by
  induction h with
  | stop => exact hlater
  | move hmove _ ih =>
    rw [List.append_assoc, List.append_assoc]
    exact .move hmove (ih hlater)

/-- What a tally does is what its crew does, which tells the observers in a move of its own. -/
theorem Moves.crew (h : Moves host node total tally session work reports tally' session') :
    Crew.Runs host tally.toCrew session work tally'.toCrew session' := by
  have htold : ∀ {crew : Crew α} (session : Session σ) (progress : FanOutProgress),
      Crew.Runs host crew session [] crew
        (session.answer host (.emit (.fanOutProgress node progress))).2 := fun session progress =>
    .move (.pass _ rfl) (.stop _ _)
  cases h with
  | start hwaiting hroom hopen => exact .move (.start hwaiting hroom hopen) (htold _ _)
  | skip hwaiting hroom hcancelled => exact Crew.Moves.runs (.skip hwaiting hroom hcancelled)
  | work hworking => exact Crew.Moves.runs (.work hworking)
  | finish hworking => exact .move (.finish hworking) (htold _ _)
  | pass effect houtside =>
    refine Crew.Moves.runs (.pass effect ?_)
    cases effect <;> first | rfl | simp [Effect.isOutside] at houtside

/-- A run of a tally is a run of its crew. -/
theorem Runs.crew (h : Runs host node total tally session work reports tally' session') :
    Crew.Runs host tally.toCrew session work tally'.toCrew session' := by
  induction h with
  | stop => exact .stop _ _
  | move hmove _ ih => exact hmove.crew.trans ih

/-! ## What every move preserves -/

/-- The counters are the numbers of jobs that were started and that have ended, and there is a
worker for each of those in between. -/
structure Counted (tally : Tally α) : Prop where
  started : tally.started = tally.taken.length
  completed : tally.completed = tally.results.length
  room : tally.working.length ≤ tally.width

/-- Before anything is done. -/
theorem counted_of_waiting (width : Nat) (jobs : List (Job α)) :
    Counted { width, waiting := jobs } :=
  ⟨rfl, rfl, Nat.zero_le _⟩

/-- A move changes the counters as it changes the jobs. -/
theorem Moves.counted (h : Moves host node total tally session work reports tally' session')
    (hcounted : tally.Counted) : tally'.Counted := by
  have hroom := h.crew.working_le hcounted.room
  obtain ⟨hstarted, hcompleted, -⟩ := hcounted
  cases h with
  | start => exact ⟨by simp [Tally.start, Crew.taken, hstarted, Nat.add_assoc], hcompleted, hroom⟩
  | skip | pass => exact ⟨hstarted, hcompleted, hroom⟩
  | work hworking =>
    have hlength := hworking.length_eq
    exact ⟨by simpa [Crew.taken, hlength] using hstarted, hcompleted, hroom⟩
  | finish hworking =>
    have hlength := hworking.length_eq
    refine ⟨?_, by simp [Tally.finish, hcompleted], hroom⟩
    simp only [Tally.finish, Crew.taken, List.length_append, List.length_map, List.length_cons,
      List.length_nil] at hstarted hlength ⊢
    omega

/-- The counters are right at every moment of a run. -/
theorem Runs.counted (h : Runs host node total tally session work reports tally' session')
    (hcounted : tally.Counted) : tally'.Counted := by
  induction h with
  | stop => exact hcounted
  | move hmove _ ih => exact ih (hmove.counted hcounted)

/-- The jobs that are worked on are those that were started and have not ended. -/
theorem Counted.started_eq (h : tally.Counted) :
    tally.started = tally.completed + tally.working.length := by
  rw [h.started, h.completed, Crew.taken, List.length_append, List.length_map, List.length_map]

/-! ## Reports -/

/-- A move that counts is reported with the counters behind it. -/
theorem Moves.reports_eq (h : Moves host node total tally session work reports tally' session') :
    reports = [] ∧ tally'.progress total = tally.progress total ∨
      ∃ index phase, reports = [⟨index, phase, tally'.progress total⟩] := by
  cases h with
  | start => exact .inr ⟨_, _, rfl⟩
  | finish => exact .inr ⟨_, _, rfl⟩
  | _ => exact .inl ⟨rfl, rfl⟩

/-- A report is about a moment of the run. -/
theorem Runs.exists_of_mem (h : Runs host node total tally session work reports tally' session')
    {report : Report} (hreport : report ∈ reports) :
    ∃ work reports between session', report.progress = progress between total ∧
      Runs host node total tally session work reports between session' := by
  induction h with
  | stop => exact absurd hreport List.not_mem_nil
  | move hmove _ ih =>
    rcases List.mem_append.1 hreport with hreport | hreport
    · obtain ⟨rfl, -⟩ | ⟨index, phase, rfl⟩ := hmove.reports_eq
      · exact absurd hreport List.not_mem_nil
      · rw [List.mem_singleton.1 hreport]
        exact ⟨_, _, _, _, rfl, .move hmove (.stop _ _)⟩
    · obtain ⟨_, _, between, _, hprogress, hruns⟩ := ih hreport
      exact ⟨_, _, between, _, hprogress, .move hmove hruns⟩

/-- Neither counter is greater than it is later. -/
def Behind (before after : FanOutProgress) : Prop :=
  before.started ≤ after.started ∧ before.completed ≤ after.completed

/-- A move takes no counter back. -/
theorem Moves.behind (h : Moves host node total tally session work reports tally' session') :
    Behind (tally.progress total) (tally'.progress total) := by
  cases h with
  | start => exact ⟨Nat.le_succ _, Nat.le_refl _⟩
  | finish => exact ⟨Nat.le_refl _, Nat.le_succ _⟩
  | _ => exact ⟨Nat.le_refl _, Nat.le_refl _⟩

/-- The counters do not go down from one report to the next. -/
theorem Runs.pairwise (h : Runs host node total tally session work reports tally' session') :
    (∀ report ∈ reports, Behind (tally.progress total) report.progress) ∧
      reports.Pairwise fun before after => Behind before.progress after.progress := by
  induction h with
  | stop => exact ⟨List.forall_mem_nil _, .nil⟩
  | move hmove _ ih =>
    obtain ⟨hlater, hpair⟩ := ih
    obtain ⟨hstarted, hcompleted⟩ := hmove.behind
    have hbehind := fun report hreport => And.intro
      (hstarted.trans (hlater report hreport).1) (hcompleted.trans (hlater report hreport).2)
    obtain ⟨rfl, -⟩ | ⟨index, phase, rfl⟩ := hmove.reports_eq
    · exact ⟨hbehind, hpair⟩
    · exact ⟨List.forall_mem_cons.2 ⟨⟨hstarted, hcompleted⟩, hbehind⟩,
        List.pairwise_cons.2 ⟨hlater, hpair⟩⟩

/-- The last report shows the counters as they are. -/
theorem Runs.getLast? (h : Runs host node total tally session work reports tally' session') :
    reports = [] ∧ tally'.progress total = tally.progress total ∨
      reports.getLast?.map Report.progress = some (tally'.progress total) := by
  induction h with
  | stop => exact .inl ⟨rfl, rfl⟩
  | @move tally tally' tally'' session session' session'' work later reports more hmove _ ih =>
    rcases ih with ⟨rfl, hsame⟩ | hlast
    · rw [List.append_nil, hsame]
      exact hmove.reports_eq.imp_right fun ⟨_, _, hreports⟩ => by rw [hreports]; rfl
    · right
      cases more with
      | nil => simp at hlast
      | cons report more =>
        rw [List.getLast?_append_of_ne_nil _ (by simp)]
        exact hlast

/-- A job is reported when it is started, and again when it has ended. -/
theorem Moves.indices (h : Moves host node total tally session work reports tally' session') :
    (Report.indices .start reports ++ tally.taken).Perm tally'.taken ∧
      tally.results.map Prod.fst ++ Report.indices .finish reports =
        tally'.results.map Prod.fst := by
  cases h with
  | @start job rest =>
    have hmoved : (job.index :: tally.taken).Perm (tally.start job rest).taken :=
      List.perm_middle.symm
    exact ⟨hmoved, List.append_nil _⟩
  | skip | pass => exact ⟨.refl _, List.append_nil _⟩
  | work hworking => exact ⟨(hworking.map Job.index).append_left _, List.append_nil _⟩
  | finish hworking =>
    refine ⟨?_, by simp [Tally.finish, Report.indices]⟩
    simp only [Tally.finish, Crew.taken, List.map_append, List.append_assoc]
    exact (hworking.map Job.index).append_left _

/-- In a run, the jobs that were started are those whose start was reported, besides those of
before, and the results are those of the jobs whose end was reported, in that order. -/
theorem Runs.indices (h : Runs host node total tally session work reports tally' session') :
    (Report.indices .start reports ++ tally.taken).Perm tally'.taken ∧
      tally.results.map Prod.fst ++ Report.indices .finish reports =
        tally'.results.map Prod.fst := by
  induction h with
  | stop => exact ⟨.refl _, List.append_nil _⟩
  | move hmove _ ih =>
    obtain ⟨hstarts, hfinishes⟩ := hmove.indices
    rw [Report.indices_append, Report.indices_append, ← ih.2, ← hfinishes]
    refine ⟨?_, (List.append_assoc _ _ _).symm⟩
    refine (List.perm_append_comm.append_right _).trans ?_
    rw [List.append_assoc]
    exact (hstarts.append_left _).trans ih.1

/-! ## From the start -/

/-- What the reports of a run are like that began with a number of jobs and came to a tally. -/
structure Reported (width total : Nat) (tally : Tally α) (reports : List Report) : Prop where
  bounded : ∀ report ∈ reports, report.progress.completed ≤ report.progress.started ∧
    report.progress.started ≤ total ∧ report.progress.total = total
  /-- The jobs at work are exactly those that were started and have not ended. -/
  active : ∀ report ∈ reports,
    report.progress.completed + report.progress.active = report.progress.started ∧
      report.progress.active ≤ width
  monotone : reports.Pairwise fun before after =>
    before.progress.started ≤ after.progress.started ∧
      before.progress.completed ≤ after.progress.completed
  /-- Each job that was started is reported as started once, and no other. -/
  starts : ∀ index,
    (Report.indices .start reports).count index = if index ∈ tally.taken then 1 else 0
  /-- Each job that has ended is reported as ended once, and no other. -/
  finishes : ∀ index, (Report.indices .finish reports).count index =
    if index ∈ tally.results.map Prod.fst then 1 else 0

section

variable {width : Nat} {jobs : List (Job α)}
  (h : Runs host node jobs.length { width, waiting := jobs } session work reports tally session')
include h

/-- A run that begins with all jobs waiting accounts for all of them. -/
theorem Runs.accounts : Crew.Accounts jobs tally.toCrew session' :=
  h.crew.accounts (Crew.accounts_of_waiting width jobs session)

/-- At every moment the counters are in order, and so is the number of workers. -/
theorem Runs.progress_le : tally.completed + tally.working.length = tally.started ∧
    tally.started ≤ jobs.length ∧ tally.working.length ≤ width := by
  have hcounted := h.counted (counted_of_waiting width jobs)
  obtain ⟨skipped, hjobs, -⟩ := h.accounts
  have hlength := hjobs.length_eq
  rw [List.length_map, List.length_append, ← hcounted.started] at hlength
  have hwidth : tally.width = width := h.crew.width
  exact ⟨hcounted.started_eq.symm, by omega, hwidth ▸ hcounted.room⟩

/-- Jobs with different indices are started at most once. -/
theorem Runs.nodup_taken (hdistinct : (jobs.map Job.index).Nodup) : tally.taken.Nodup := by
  obtain ⟨skipped, hjobs, -⟩ := h.accounts
  exact (hjobs.nodup_iff.1 hdistinct).of_append_left

/-- The reports of a run from its start are in order, wherever it stands. -/
theorem Runs.reported (hdistinct : (jobs.map Job.index).Nodup) :
    Reported width jobs.length tally reports := by
  have hmoment : ∀ report ∈ reports, ∃ working, working ≤ width ∧
      report.progress.completed + working = report.progress.started ∧
        report.progress.started ≤ jobs.length ∧ report.progress.total = jobs.length := by
    intro report hreport
    obtain ⟨_, _, between, _, hprogress, hruns⟩ := h.exists_of_mem hreport
    obtain ⟨hcounts, hstarted, hworking⟩ := hruns.progress_le
    exact ⟨_, hworking, by rw [hprogress]; exact hcounts, by rw [hprogress]; exact hstarted,
      by rw [hprogress]; rfl⟩
  obtain ⟨hstarts, hfinishes⟩ := h.indices
  have htaken := h.nodup_taken hdistinct
  refine ⟨fun report hreport => ?_, fun report hreport => ?_, h.pairwise.2, fun index => ?_,
    fun index => ?_⟩
  · obtain ⟨working, -, hcounts, hstarted, htotal⟩ := hmoment report hreport
    exact ⟨by omega, hstarted, htotal⟩
  · obtain ⟨working, hworking, hcounts, -, -⟩ := hmoment report hreport
    rw [FanOutProgress.active]
    omega
  · have hperm : (Report.indices .start reports).Perm tally.taken :=
      (List.Perm.of_eq (List.append_nil _).symm).trans hstarts
    rw [hperm.count_eq, htaken.count]
  · have heq : Report.indices .finish reports = tally.results.map Prod.fst := hfinishes
    rw [heq, htaken.of_append_left.count]

variable (hfinished : tally.Finished)
include hfinished

/-- At the end, each job that was started is reported as ended once, and no other. -/
theorem Runs.finishes (hdistinct : (jobs.map Job.index).Nodup) (index : Nat) :
    (Report.indices .finish reports).count index = if index ∈ tally.taken then 1 else 0 := by
  have htaken : tally.taken = tally.results.map Prod.fst := by
    rw [Crew.taken, hfinished.working, List.map_nil, List.append_nil]
  rw [htaken]
  exact (h.reported hdistinct).finishes index

/-- The last report of a run that is not cancelled shows that all jobs have ended. -/
theorem Runs.last_eq (hopen : session'.cancelled = false) (hjobs : jobs ≠ []) :
    reports.getLast?.map Report.progress = some ⟨jobs.length, jobs.length, jobs.length⟩ := by
  obtain ⟨hcounts, -, -⟩ := h.progress_le
  have hall := (h.accounts.perm_taken hfinished hopen).length_eq
  rw [List.length_map, ← (h.counted (counted_of_waiting width jobs)).started] at hall
  rw [hfinished.working, List.length_nil, Nat.add_zero] at hcounts
  have hprogress : tally.progress jobs.length = ⟨jobs.length, jobs.length, jobs.length⟩ := by
    rw [progress, hcounts, ← hall]
  rcases h.getLast? with ⟨-, hsame⟩ | hlast
  · -- Something was counted, and hence reported.
    have hzero : jobs.length = 0 := congrArg FanOutProgress.started (hprogress.symm.trans hsame)
    exact absurd (List.eq_nil_of_length_eq_zero hzero) hjobs
  · rw [hlast, hprogress]

end

end Tally

end AgentFlow
