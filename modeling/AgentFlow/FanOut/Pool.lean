import AgentFlow.FanOut.Slice

/-!
# Worker pools

Jobs worked on by turns, no more than a given number of them at a time. They are started in
order. While a worker sleeps the next job is started; when there is no room or no job left, the
worker goes on that wakes first. Of several that wake at one time, the one whose wait began first
goes first, and no job is started before all of them had their turn. Every job has its own result,
so that the order in which they end does not matter to who asks for the results by index.

There are always fewer waiting jobs or, for the same waiting jobs, a sleeper has come further down
its activity or is gone; so the pool comes to an end.
-/

namespace AgentFlow

/-- An activity with a number of its own. -/
structure Job (α : Type) where
  index : Nat
  activity : Activity α

/-- A worker that sleeps. -/
structure Sleeper (α : Type) where
  /-- What is left of its job. -/
  job : Job α
  /-- When it wakes, in milliseconds since the start of the pool. -/
  wakes : Nat
  /-- How many waits of the pool began before this one. -/
  turn : Nat

namespace Sleeper

variable {α : Type}

/-- What the worker does when it wakes. -/
def rest (s : Sleeper α) : Activity α := s.job.activity

/-- Whether a sleeper goes on no later than another one. -/
def goesBefore (s t : Sleeper α) : Bool :=
  s.wakes < t.wakes || (s.wakes = t.wakes && s.turn ≤ t.turn)

/-- Fewer sleepers, or as many of which one has come further. -/
inductive Shrinks : List (Sleeper α) → List (Sleeper α) → Prop where
  | drop (s : Sleeper α) (l : List (Sleeper α)) : Shrinks l (s :: l)
  | advance {s s' : Sleeper α} (h : s'.rest.Below s.rest) (l : List (Sleeper α)) :
    Shrinks (s' :: l) (s :: l)
  | keep (s : Sleeper α) {l l' : List (Sleeper α)} (h : Shrinks l' l) :
    Shrinks (s :: l') (s :: l)

/-- One more sleeper changes nothing about it that the list cannot shrink for ever: the induction is
on its activity, and within it on the other sleepers. -/
theorem acc_cons {t : Activity α} (ht : Acc Activity.Below t) :
    ∀ {l : List (Sleeper α)}, Acc Shrinks l →
      ∀ s : Sleeper α, s.rest = t → Acc Shrinks (s :: l) := by
  induction ht with
  | intro t _ iht =>
    intro l hl
    induction hl with
    | intro l hl ihl =>
      intro s hs
      refine Acc.intro _ fun k hk => ?_
      cases hk with
      | drop => exact Acc.intro _ hl
      | advance h =>
        subst hs
        exact iht _ h (Acc.intro _ hl) _ rfl
      | keep _ h => exact ihl _ h s hs

/-- A list of sleepers cannot shrink for ever. -/
theorem acc_shrinks (l : List (Sleeper α)) : Acc Shrinks l := by
  induction l with
  | nil => exact Acc.intro _ fun _ h => nomatch h
  | cons s l ih => exact acc_cons (Activity.acc_below _) ih s rfl

/-- Pools recurse on sleepers that shrink. -/
instance : WellFoundedRelation (List (Sleeper α)) := ⟨Shrinks, ⟨acc_shrinks⟩⟩

/-- Without one of them, the sleepers have shrunk. -/
theorem shrinks_eraseIdx (l : List (Sleeper α)) (i : Nat) (h : i < l.length) :
    Shrinks (l.eraseIdx i) l := by
  induction l generalizing i with
  | nil => exact absurd h (Nat.not_lt_zero i)
  | cons s l ih =>
    cases i with
    | zero => exact .drop s l
    | succ i => exact .keep s (ih i (Nat.lt_of_succ_lt_succ h))

/-- When one of them has come further, the sleepers have shrunk. -/
theorem shrinks_set (l : List (Sleeper α)) (i : Nat) (h : i < l.length) (s : Sleeper α)
    (hs : s.rest.Below l[i].rest) : Shrinks (l.set i s) l := by
  induction l generalizing i with
  | nil => exact absurd h (Nat.not_lt_zero i)
  | cons t l ih =>
    cases i with
    | zero => exact .advance hs l
    | succ i => exact .keep t (ih i (Nat.lt_of_succ_lt_succ h) hs)

end Sleeper

/-- A pool at work. -/
structure Pool (α : Type) where
  /-- The node on whose behalf it works. -/
  node : String
  /-- The most jobs that are worked on at a time. -/
  width : Nat
  /-- The number of all jobs. -/
  total : Nat
  /-- The milliseconds since it started. -/
  clock : Nat := 0
  started : Nat := 0
  completed : Nat := 0
  asleep : List (Sleeper α) := []
  /-- The number of waits so far. -/
  turns : Nat := 0
  /-- The results so far, each with the index of its job. -/
  results : List (Nat × α) := []

namespace Pool

variable {α : Type}

/-- What a pool does next. -/
inductive Next (pool : Pool α) : List (Job α) → Type where
  | start (job : Job α) (waiting : List (Job α)) : Next pool (job :: waiting)
  | wake {waiting : List (Job α)} (sleeper : Fin pool.asleep.length) : Next pool waiting
  | finished {waiting : List (Job α)} : Next pool waiting

/-- The sleeper that goes on first. -/
def first? (pool : Pool α) : Option (Fin pool.asleep.length) :=
  pool.asleep.findFinIdx? fun s => pool.asleep.all s.goesBefore

/-- Whether a sleeper has to go on now. -/
def isDue (pool : Pool α) : Bool := pool.asleep.any fun s => s.wakes ≤ pool.clock

/-- Waits for the first sleeper, if there is one. -/
def wakeNext (pool : Pool α) (waiting : List (Job α)) : Next pool waiting :=
  match pool.first? with
  | some sleeper => .wake sleeper
  | none => .finished

/-- The next job is started if there is room and nobody has to go on. -/
def next (pool : Pool α) : (waiting : List (Job α)) → Next pool waiting
  | [] => pool.wakeNext []
  | job :: waiting =>
    if pool.asleep.length < pool.width && !pool.isDue then .start job waiting
    else pool.wakeNext (job :: waiting)

/-- Tells the observers how far the pool is. -/
def report (pool : Pool α) : Activity Unit :=
  Activity.emit (.fanOutProgress pool.node ⟨pool.started, pool.completed, pool.total⟩)

/-- The pool with one job more at work. -/
def start (pool : Pool α) : Pool α := { pool with started := pool.started + 1 }

/-- The pool with the result of a job that was at work. -/
def complete (pool : Pool α) (index : Nat) (result : α) : Pool α :=
  { pool with
    completed := pool.completed + 1
    results := pool.results ++ [(index, result)] }

/-- The pool when the worker of a job that was just started sleeps. -/
def fallAsleep (pool : Pool α) (index ms : Nat) (rest : Activity α) : Pool α :=
  { pool with
    asleep := pool.asleep ++ [⟨⟨index, rest⟩, pool.clock + ms, pool.turns⟩]
    turns := pool.turns + 1 }

/-- The pool without a sleeper, who is awake. -/
def wake (pool : Pool α) (sleeper : Fin pool.asleep.length) : Pool α :=
  { pool with
    clock := (pool.asleep.get sleeper).wakes
    asleep := pool.asleep.eraseIdx sleeper }

/-- The pool when a sleeper woke, went on for a while and sleeps again. -/
def sleepAgain (pool : Pool α) (sleeper : Fin pool.asleep.length) (ms : Nat) (resumed : Bool)
    (rest : Activity α) : Pool α :=
  let s := pool.asleep.get sleeper
  let turn := if resumed then s.turn else pool.turns
  { pool with
    clock := s.wakes
    asleep := pool.asleep.set sleeper ⟨⟨s.job.index, rest⟩, s.wakes + ms, turn⟩
    turns := pool.turns + 1 }

/-- Works on the waiting jobs and on the sleeping ones to their end. Once the run is cancelled, no
job is started any more. -/
def run (pool : Pool α) (waiting : List (Job α)) : Activity (List (Nat × α)) :=
  match pool.next waiting with
  | .finished => return pool.results
  | .start job waiting => do
    if ← Activity.poll then run pool waiting
    else
      pool.start.report
      match ← job.activity.slice with
      | .ended result =>
        (pool.start.complete job.index result).report
        run (pool.start.complete job.index result) waiting
      | .asleep ms _ rest _ => run (pool.start.fallAsleep job.index ms rest) waiting
  | .wake sleeper => do
    let _ ← Activity.sleep ((pool.asleep.get sleeper).wakes - pool.clock)
    match ← (pool.asleep.get sleeper).rest.slice with
    | .ended result =>
      ((pool.wake sleeper).complete (pool.asleep.get sleeper).job.index result).report
      run ((pool.wake sleeper).complete (pool.asleep.get sleeper).job.index result) waiting
    | .asleep ms resumed rest _ => run (pool.sleepAgain sleeper ms resumed rest) waiting
termination_by (waiting.length, pool.asleep)
decreasing_by
  all_goals simp_wf
  · exact .left _ _ (Nat.lt_succ_self _)
  · exact .left _ _ (Nat.lt_succ_self _)
  · exact .left _ _ (Nat.lt_succ_self _)
  · exact .right _ (Sleeper.shrinks_eraseIdx _ _ sleeper.isLt)
  · exact .right _ (Sleeper.shrinks_set _ _ sleeper.isLt _ (by assumption))

end Pool

end AgentFlow
