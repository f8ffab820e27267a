import Mathlib.Data.List.Perm.Basic
import AgentFlow.Proofs.Tally

/-!
# A pool is a crew

The pool of the runner decides all that a crew leaves open: a worker goes on up to its next sleep,
the one that wakes first goes next, and a job is started when there is room and nobody has to go on.
Whatever it does is a run of a crew that counts (`Pool.tallies_run`), on the same jobs, with the
same results at the end and the same calls and reports in between, so that what holds of every run
of a crew holds of the pool.
-/

namespace AgentFlow

variable {α σ : Type} {host : Host σ}

/-- Whether an effect asks the model or a tool for something. -/
def Effect.isCall : Effect → Bool
  | .ask _ | .request _ | .act _ _ => true
  | _ => false

/-- What is asked of the model and the tools, in order. -/
def Activity.calls (host : Host σ) (t : Activity α) (session : Session σ) : List Effect :=
  (t.effects host session).filter Effect.isCall

/-- What the jobs of a crew asked of the model and the tools, in order. -/
def Crew.calls (work : List (Nat × Effect)) : List Effect :=
  (work.map Prod.snd).filter Effect.isCall

/-- The calls of some work and of what follows, in their order. -/
@[simp]
theorem Crew.calls_append (work later : List (Nat × Effect)) :
    Crew.calls (work ++ later) = Crew.calls work ++ Crew.calls later := by
  unfold Crew.calls
  rw [List.map_append, List.filter_append]

/-- The calls of an activity in two parts are those of the parts. -/
theorem Activity.calls_bind {β : Type} (host : Host σ) (f : α → Activity β) (t : Activity α)
    (session : Session σ) : (t >>= f).calls host session = t.calls host session ++
      (f (t.run host session).1).calls host (t.run host session).2 := by
  unfold Activity.calls
  rw [effects_bind, List.filter_append]

/-- What becomes of the result takes no calls. -/
theorem Activity.calls_map {β : Type} (host : Host σ) (f : α → β) (t : Activity α)
    (session : Session σ) : (f <$> t).calls host session = t.calls host session :=
  (calls_bind host _ t session).trans (List.append_nil _)

/-! ## Slices -/

/-- Whether a worker stops at the effect and lets others go on. -/
def Effect.pauses : Effect → Bool
  | .sleep ms _ => ms ≠ 0
  | _ => false

/-- What is left of an activity behind a slice. -/
def Slice.left {t : Activity α} : Slice t → Activity α
  | .ended result => .done result
  | .asleep _ _ rest _ => rest

/-- Seen from one effect earlier, a slice leaves the same. -/
@[simp]
theorem Slice.left_before {effect : Effect} {next : effect.Reply → Activity α}
    {reply : effect.Reply} (slice : Slice (next reply)) :
    (slice.before : Slice (.step effect next)).left = slice.left := by
  cases slice <;> rfl

namespace Activity

variable (host : Host σ)

section Before

variable {effect : Effect} (next : effect.Reply → Activity α)

/-- A slice that is seen from one effect earlier. -/
def sliceBefore (reply : effect.Reply) : Activity (Slice (step effect next)) :=
  (next reply).slice.bind fun slice => done slice.before

/-- Seen from one effect earlier, a slice leaves the same, in the same session. -/
theorem run_sliceBefore (reply : effect.Reply) (session : Session σ) :
    ((sliceBefore next reply).run host session).1.left =
        ((next reply).slice.run host session).1.left ∧
      ((sliceBefore next reply).run host session).2 =
        ((next reply).slice.run host session).2 := by
  unfold sliceBefore
  rw [run_bind]
  exact ⟨Slice.left_before _, rfl⟩

/-- Seen from one effect earlier, a slice has the same calls. -/
theorem calls_sliceBefore (reply : effect.Reply) (session : Session σ) :
    (sliceBefore next reply).calls host session = (next reply).slice.calls host session :=
  calls_map host _ _ session

/-- The calls of an activity are its first effect, if that is a call, and those that follow the
reply. -/
theorem calls_step (session : Session σ) :
    (step effect next).calls host session = [effect].filter Effect.isCall ++
      (next (session.answer host effect).1).calls host (session.answer host effect).2 := by
  change (effect :: _).filter _ = _
  rw [← List.singleton_append, List.filter_append]
  rfl

end Before

/-- A slice goes on behind its first effect with what a worker gets for it. -/
structure SlicesOn (session : Session σ) (effect : Effect) (next : effect.Reply → Activity α) :
    Prop where
  left : ((step effect next).slice.run host session).1.left =
    ((next (session.serve host effect).1).slice.run host (session.serve host effect).2).1.left
  world : ((step effect next).slice.run host session).2 =
    ((next (session.serve host effect).1).slice.run host (session.serve host effect).2).2
  calls : (step effect next).slice.calls host session = [effect].filter Effect.isCall ++
    (next (session.serve host effect).1).slice.calls host (session.serve host effect).2

/-- A slice stops only at waits. -/
theorem slicesOn (session : Session σ) {effect : Effect} (next : effect.Reply → Activity α)
    (hpauses : effect.pauses = false) : SlicesOn host session effect next := by
  -- Most effects are answered for the worker as they are for anybody else.
  have hanswered : (step effect next).slice = step effect (sliceBefore next) →
      session.serve host effect = session.answer host effect →
        SlicesOn host session effect next := fun hslice hserve => by
    obtain ⟨hleft, hsession⟩ := run_sliceBefore host next (session.serve host effect).1
      (session.serve host effect).2
    constructor
    · rw [hslice, run_step, ← hserve]
      exact hleft
    · rw [hslice, run_step, ← hserve]
      exact hsession
    · rw [hslice, calls_step, ← hserve, calls_sliceBefore]
  cases effect with
  | poll =>
    obtain ⟨hleft, hsession⟩ := run_sliceBefore host next false session
    exact ⟨hleft, hsession, calls_sliceBefore host next false session⟩
  | sleep ms resumed =>
    obtain rfl : ms = 0 := by simpa [Effect.pauses] using hpauses
    obtain ⟨hleft, hsession⟩ := run_sliceBefore host next false session
    exact ⟨hleft, hsession, calls_sliceBefore host next false session⟩
  | _ => exact hanswered rfl rfl

/-- A slice of a job is some moves of a crew that works on it. -/
theorem exists_runs_slice (node : String) (total : Nat) (t : Activity α) (session : Session σ)
    (tally : Tally α) {index : Nat} {rest : List (Job α)}
    (hworking : tally.working.Perm (⟨index, t⟩ :: rest)) :
    ∃ work working, Tally.Runs host node total tally session work [] { tally with working }
        (t.slice.run host session).2 ∧
      working.Perm (⟨index, (t.slice.run host session).1.left⟩ :: rest) ∧
      Crew.calls work = t.slice.calls host session := by
  induction t generalizing tally session with
  | done result => exact ⟨[], tally.working, .stop _ _, hworking, rfl⟩
  | step effect next ih =>
    -- The first effect is one move of the job.
    have hmove : Tally.Moves host node total tally session [(index, effect)] [] _ _ :=
      .work hworking
    cases hpauses : effect.pauses with
    | true =>
      obtain ⟨ms, resumed, rfl⟩ : ∃ ms resumed, effect = .sleep ms resumed := by
        cases effect <;> first | exact ⟨_, _, rfl⟩ | simp [Effect.pauses] at hpauses
      have hslice : (step (.sleep ms resumed) next).slice =
          done (.asleep ms resumed (next false) (.next _ next false)) :=
        if_neg (by simpa [Effect.pauses] using hpauses)
      rw [hslice]
      exact ⟨_, _, .move hmove (.stop _ _), .refl _, rfl⟩
    | false =>
      obtain ⟨hleft, hsession, hcalls⟩ := slicesOn host session next hpauses
      obtain ⟨work, working, hruns, hperm, hwork⟩ := ih _ (session.serve host effect).2
        { tally with working := ⟨index, next (session.serve host effect).1⟩ :: rest } (.refl _)
      rw [hleft, hsession, hcalls, ← hwork]
      exact ⟨_, working, .move hmove hruns, hperm, by rw [Crew.calls_append]; rfl⟩

end Activity

/-! ## The order of the sleepers -/

namespace Sleeper

/-- Who wakes earlier goes first, and of those who wake at one time who has waited longer. -/
theorem goesBefore_iff (s t : Sleeper α) :
    s.goesBefore t = true ↔ s.wakes < t.wakes ∨ s.wakes = t.wakes ∧ s.turn ≤ t.turn := by
  simp [goesBefore]

/-- Some sleeper goes on no later than any other. -/
theorem exists_first {sleepers : List (Sleeper α)} (hne : sleepers ≠ []) :
    ∃ s ∈ sleepers, ∀ t ∈ sleepers, s.goesBefore t = true := by
  induction sleepers with
  | nil => exact absurd rfl hne
  | cons s rest ih =>
    have hself : s.goesBefore s = true := (goesBefore_iff s s).2 (.inr ⟨rfl, Nat.le_refl _⟩)
    by_cases hrest : rest = []
    · subst hrest
      exact ⟨s, List.mem_cons_self, fun t ht => List.mem_singleton.1 ht ▸ hself⟩
    obtain ⟨first, hfirst, hbefore⟩ := ih hrest
    rw [goesBefore_iff] at hself
    simp only [goesBefore_iff] at hbefore ⊢
    -- Either the new one goes on no later than the first of the others, or that one before it.
    by_cases hs : s.wakes < first.wakes ∨ s.wakes = first.wakes ∧ s.turn ≤ first.turn
    · refine ⟨s, List.mem_cons_self, fun t ht => ?_⟩
      rcases List.mem_cons.1 ht with rfl | ht
      · exact hself
      · have := hbefore t ht
        omega
    · refine ⟨first, List.mem_cons_of_mem _ hfirst, fun t ht => ?_⟩
      rcases List.mem_cons.1 ht with rfl | ht
      · omega
      · exact hbefore t ht

end Sleeper

/-! ## The pool -/

/-- A crew can do what an activity does: it comes to its end with the activity's result for its
results, and neither the world nor the model and the tools can tell the two apart. -/
def Crew.Plays (host : Host σ) (crew : Crew α) (session : Session σ)
    (t : Activity (List (Nat × α))) : Prop :=
  ∃ work crew', Crew.Runs host crew session work crew' (t.run host session).2 ∧
    crew'.Finished ∧ crew'.results = (t.run host session).1 ∧
    Crew.calls work = t.calls host session

/-- A crew that counts can do what an activity does, with the same reports. -/
def Tally.Plays (host : Host σ) (node : String) (total : Nat) (tally : Tally α)
    (session : Session σ) (t : Activity (List (Nat × α))) : Prop :=
  ∃ work reports tally',
    Tally.Runs host node total tally session work reports tally' (t.run host session).2 ∧
      tally'.Finished ∧ tally'.results = (t.run host session).1 ∧
      Crew.calls work = t.calls host session

/-- What a pool does first is a run of its tally, and what it does then is played from there. -/
theorem Tally.Plays.bind {β : Type} {node : String} {total : Nat} {tally tally' : Tally α}
    {session : Session σ} {first : Activity β} {f : β → Activity (List (Nat × α))}
    {work : List (Nat × Effect)} {reports : List Report}
    (hruns : Tally.Runs host node total tally session work reports tally'
      (first.run host session).2)
    (hcalls : Crew.calls work = first.calls host session)
    (hrest : tally'.Plays host node total (first.run host session).2
      (f (first.run host session).1)) :
    tally.Plays host node total session (first >>= f) := by
  obtain ⟨later, more, tally'', hlater, hfinished, hresults, hcalls'⟩ := hrest
  refine ⟨work ++ later, reports ++ more, tally'', ?_, hfinished, ?_, ?_⟩
  · rw [Activity.run_then]
    exact hruns.trans hlater
  · rw [Activity.run_then, hresults]
  · rw [Crew.calls_append, Activity.calls_bind, hcalls, hcalls']

namespace Pool

variable {pool : Pool α} {waiting : List (Job α)}

/-- A crew has the jobs and the results of a pool. -/
structure Carries (pool : Pool α) (waiting : List (Job α)) (crew : Crew α) : Prop where
  width : crew.width = pool.width
  waiting : crew.waiting = waiting
  working : crew.working.Perm (pool.asleep.map Sleeper.job)
  results : crew.results = pool.results

/-- A crew that counts has the jobs, the results and the counters of a pool. -/
structure Tallied (pool : Pool α) (waiting : List (Job α)) (tally : Tally α) : Prop where
  carries : pool.Carries waiting tally.toCrew
  started : tally.started = pool.started
  completed : tally.completed = pool.completed

/-- Where no sleeper goes first, nobody sleeps. -/
theorem asleep_eq_nil (h : pool.first? = none) : pool.asleep = [] := by
  refine Classical.not_not.1 fun hne => ?_
  obtain ⟨s, hs, hfirst⟩ := Sleeper.exists_first hne
  exact List.findFinIdx?_eq_none_iff.1 h s hs (List.all_eq_true.2 hfirst)

/-- Who waits for the first sleeper starts no job. -/
theorem wakeNext_ne_start {job : Job α} :
    pool.wakeNext (job :: waiting) ≠ .start job waiting := by
  unfold wakeNext
  split <;> simp

/-- Who waits for a sleeper and finds none has nobody asleep. -/
theorem finished_of_wakeNext (h : pool.wakeNext waiting = .finished) : pool.asleep = [] := by
  unfold wakeNext at h
  split at h
  · cases h
  · exact asleep_eq_nil ‹_›

/-- A pool that does nothing more has done everything. -/
theorem finished_of_next (hwidth : 0 < pool.width) (h : pool.next waiting = .finished) :
    waiting = [] ∧ pool.asleep = [] := by
  cases waiting with
  | nil => exact ⟨rfl, finished_of_wakeNext h⟩
  | cons job rest =>
    simp only [next] at h
    split at h
    · cases h
    · -- With nobody asleep there is room for the job.
      have hnil := finished_of_wakeNext h
      simp_all [isDue]

/-- A pool that starts a job has room for it. -/
theorem room_of_next {job : Job α} (h : pool.next (job :: waiting) = .start job waiting) :
    pool.asleep.length < pool.width := by
  simp only [next] at h
  split at h
  · simp_all
  · exact absurd h wakeNext_ne_start

/-- When a pool tells how far it is, a crew with the same counters has started or ended a job. -/
theorem plays_report (pool : Pool α) {tally tally' : Tally α} {session : Session σ}
    {reports : List Report} {t : Activity (List (Nat × α))}
    (hmove : Tally.Moves host pool.node pool.total tally session [] reports tally'
      (tally'.tell host pool.node pool.total session))
    (hstarted : tally'.started = pool.started) (hcompleted : tally'.completed = pool.completed)
    (hrest : ∀ session, tally'.Plays host pool.node pool.total session t) :
    tally.Plays host pool.node pool.total session (pool.report >>= fun _ => t) := by
  have hreport : (pool.report.run host session).2 =
      tally'.tell host pool.node pool.total session := by
    unfold report Tally.tell Tally.progress
    rw [hstarted, hcompleted]
    rfl
  exact .bind (.move (hreport ▸ hmove) (.stop _ _)) rfl (hrest _)

/-- What a pool does is a run of a crew that counts, with the same jobs. -/
theorem tallies_run (host : Host σ) (pool : Pool α) (waiting : List (Job α))
    (hwidth : 0 < pool.width) (tally : Tally α) (session : Session σ)
    (htallied : pool.Tallied waiting tally) :
    tally.Plays host pool.node pool.total session (pool.run waiting) := by
  induction pool, waiting using Pool.run.induct generalizing tally session with
  | case1 pool waiting hnext =>
    obtain ⟨rfl, hasleep⟩ := finished_of_next hwidth hnext
    obtain ⟨-, hwaits, hworking, hresults⟩ := htallied.carries
    rw [hasleep] at hworking
    unfold run
    rw [hnext]
    exact ⟨[], [], tally, .stop _ _, ⟨hwaits, hworking.eq_nil⟩, hresults, rfl⟩
  | case2 pool job waiting hnext ih_skip ih_ended ih_asleep =>
    obtain ⟨⟨hwide, hwaits, hworking, hresults⟩, hstarted, hcompleted⟩ := htallied
    have hfirst : tally.waiting.Perm (job :: waiting) := .of_eq hwaits
    have hroom : tally.working.length < tally.width := by
      rw [hworking.length_eq, List.length_map, hwide]
      exact room_of_next hnext
    unfold run
    rw [hnext]
    by_cases hcancelled : session.cancelled = true
    · -- The job is passed over.
      refine .bind (.move (.skip hfirst hroom hcancelled) (.stop _ _)) rfl ?_
      simp only [Activity.run_poll, hcancelled, if_true]
      exact ih_skip hwidth _ session ⟨⟨hwide, rfl, hworking, hresults⟩, hstarted, hcompleted⟩
    · -- The job is started, and worked on until it ends or its worker sleeps.
      have hopen : session.cancelled = false := Bool.eq_false_iff.2 hcancelled
      refine .bind (.stop _ _) rfl ?_
      simp only [Activity.run_poll, hopen, Bool.false_eq_true, if_false]
      have hstarted' : (tally.start job waiting).started = pool.start.started :=
        congrArg (· + 1) hstarted
      refine plays_report pool.start (.start hfirst hroom hopen) hstarted' hcompleted
        fun session => ?_
      obtain ⟨work, working, hruns, hperm, hcalls⟩ := Activity.exists_runs_slice host pool.node
        pool.total job.activity session (tally.start job waiting) (.refl _)
      refine .bind hruns hcalls ?_
      generalize job.activity.slice.run host session = sliced at hperm ⊢
      obtain ⟨slice, session⟩ := sliced
      cases slice with
      | ended result =>
        refine plays_report (pool.start.complete job.index result) (.finish hperm) hstarted'
          (congrArg (· + 1) hcompleted) fun session => ?_
        exact ih_ended result hwidth _ _ ⟨⟨hwide, rfl, hworking, congrArg (· ++ _) hresults⟩,
          hstarted', congrArg (· + 1) hcompleted⟩
      | asleep ms resumed rest below =>
        refine ih_asleep ms rest hwidth _ _ ⟨⟨hwide, rfl, ?_, hresults⟩, hstarted', hcompleted⟩
        -- It sleeps behind those that slept before.
        unfold fallAsleep
        rw [List.map_append]
        exact hperm.trans ((hworking.cons _).trans (List.perm_append_singleton _ _).symm)
  | case3 pool waiting sleeper hnext ih_ended ih_asleep =>
    obtain ⟨⟨hwide, hwaits, hworking, hresults⟩, hstarted, hcompleted⟩ := htallied
    have hjob : tally.working.Perm ((pool.asleep.get sleeper).job ::
        (pool.asleep.eraseIdx sleeper).map Sleeper.job) :=
      hworking.trans ((List.getElem_cons_eraseIdx_perm sleeper.isLt).symm.map Sleeper.job)
    unfold run
    rw [hnext]
    -- Time passes, and the worker that wakes goes on.
    refine .bind (.move (.pass (.sleep _ false) rfl) (.stop _ _)) rfl ?_
    generalize ((Activity.sleep _).run host session).2 = session
    obtain ⟨work, working, hruns, hperm, hcalls⟩ := Activity.exists_runs_slice host pool.node
      pool.total (pool.asleep.get sleeper).rest session tally hjob
    refine .bind hruns hcalls ?_
    generalize (pool.asleep.get sleeper).rest.slice.run host session = sliced at hperm ⊢
    obtain ⟨slice, session⟩ := sliced
    cases slice with
    | ended result =>
      refine plays_report ((pool.wake sleeper).complete (pool.asleep.get sleeper).job.index result)
        (.finish hperm) hstarted (congrArg (· + 1) hcompleted) fun session => ?_
      exact ih_ended result hwidth _ _ ⟨⟨hwide, hwaits, .refl _, congrArg (· ++ _) hresults⟩,
        hstarted, congrArg (· + 1) hcompleted⟩
    | asleep ms resumed rest below =>
      refine ih_asleep ms resumed rest below hwidth _ _
        ⟨⟨hwide, hwaits, hperm.trans (.symm ?_), hresults⟩, hstarted, hcompleted⟩
      -- It sleeps again in the place where it slept before.
      exact (List.set_perm_cons_eraseIdx sleeper.isLt _).map Sleeper.job

/-- What a pool does is a run of a crew with the same jobs. -/
theorem plays_run (host : Host σ) (pool : Pool α) (waiting : List (Job α))
    (hwidth : 0 < pool.width) (crew : Crew α) (session : Session σ)
    (hcarries : pool.Carries waiting crew) : crew.Plays host session (pool.run waiting) := by
  obtain ⟨work, reports, tally', hruns, hend⟩ := pool.tallies_run host waiting hwidth
    ⟨crew, pool.started, pool.completed⟩ session ⟨hcarries, rfl, rfl⟩
  exact ⟨work, tally'.toCrew, hruns.crew, hend⟩

end Pool

end AgentFlow
