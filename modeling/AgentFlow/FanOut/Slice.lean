import AgentFlow.Activity.Basic

/-!
# Slices of an activity

What a worker does at a stretch: everything up to its next sleep. What is left then lies below the
activity in its tree, and no way down the tree goes on for ever.
-/

namespace AgentFlow

namespace Activity

variable {α : Type}

/-- An activity that another one comes to after some replies. -/
inductive Below : Activity α → Activity α → Prop where
  | next (effect : Effect) (next : effect.Reply → Activity α) (reply : effect.Reply) :
    Below (next reply) (step effect next)
  | later {t : Activity α} (effect : Effect) (next : effect.Reply → Activity α)
    (reply : effect.Reply) (h : Below t (next reply)) : Below t (step effect next)

/-- Every way down an activity comes to an end. -/
theorem acc_below (t : Activity α) : Acc Below t := by
  induction t with
  | done _ => exact Acc.intro _ fun _ h => nomatch h
  | step effect next ih =>
    refine Acc.intro _ fun s h => ?_
    cases h with
    | next _ _ reply => exact ih reply
    | later _ _ reply h => exact (ih reply).inv h

end Activity

/-- Where a stretch of work on an activity stops. -/
inductive Slice {α : Type} (t : Activity α) : Type where
  | ended (result : α)
  /-- The worker sleeps before it goes on with the rest. -/
  | asleep (ms : Nat) (resumed : Bool) (rest : Activity α) (below : rest.Below t)

/-- A stretch of work, seen from one effect earlier. -/
def Slice.before {α : Type} {effect : Effect} {next : effect.Reply → Activity α}
    {reply : effect.Reply} : Slice (next reply) → Slice (.step effect next)
  | ended result => ended result
  | asleep ms resumed rest below => asleep ms resumed rest (.later effect next reply below)

namespace Activity

variable {α : Type}

/-- Works on an activity up to its next sleep. A worker does not see that the run is cancelled: what
was started is finished. -/
def slice : (t : Activity α) → Activity (Slice t)
  | done result => done (.ended result)
  | step (.sleep ms resumed) next =>
    if ms = 0 then (next false).slice.bind fun s => done s.before
    else done (.asleep ms resumed (next false) (.next _ next false))
  | step .poll next => (next false).slice.bind fun s => done s.before
  | step effect next => step effect fun reply => (next reply).slice.bind fun s => done s.before

end Activity

end AgentFlow
