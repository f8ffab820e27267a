import AgentFlow.Chat.Turn
import AgentFlow.Run.Event

/-!
# Activities

What a node does, as a tree of effects: an activity has either finished, or names one thing that it
wants from the outside and goes on with the reply. An activity says nothing about who replies; a run
answers from its host, and a statement about all replies is a statement about the tree.
-/

namespace AgentFlow

/-- What a tool does when it acts. -/
inductive ToolReply where
  | answered (result : Except Error ToolResult)
  /-- The tool never answers. -/
  | silent

/-- How a tool takes up a call. -/
structure Receipt where
  /-- The number under which the call is known from then on. -/
  number : Nat
  /-- The milliseconds that pass before the tool acts. -/
  delayMs : Nat

/-- Something that an activity wants from the outside. -/
inductive Effect where
  /-- Tell the observers of the run. -/
  | emit (event : Event)
  /-- Ask the model. -/
  | ask (request : ModelRequest)
  /-- Let a tool take up a call. -/
  | request (call : ToolCall)
  /-- Let a tool act on the call that it took up under a number. -/
  | act (call : ToolCall) (number : Nat)
  /-- Let some milliseconds pass, in a wait of its own or as the rest of the wait before. -/
  | sleep (ms : Nat) (resumed : Bool)
  /-- Learn whether the run is cancelled. -/
  | poll
  /-- Cancel the run. -/
  | cancel
  /-- Take a name that was not given away before. -/
  | freshId

/-- What comes back for an effect. -/
def Effect.Reply : Effect → Type
  | emit _ => Unit
  | ask _ => ModelReply
  | request _ => Receipt
  | act _ _ => ToolReply
  -- Whether the run is cancelled by then, or before. One who watches for that does not wait on.
  | sleep _ _ => Bool
  | poll => Bool
  | cancel => Unit
  | freshId => String

/-- An activity with a result. -/
inductive Activity (α : Type) : Type where
  | done (result : α)
  | step (effect : Effect) (next : effect.Reply → Activity α)

namespace Activity

variable {α β : Type}

/-- Goes on with the result of an activity. -/
def bind : Activity α → (α → Activity β) → Activity β
  | done a, f => f a
  | step effect next, f => step effect fun reply => (next reply).bind f

/-- Activities are sequenced by going on with the result. -/
instance : Monad Activity where
  pure := done
  bind := bind

/-- The activity of one effect. -/
def perform (effect : Effect) : Activity effect.Reply := step effect done

/-- Tells the observers of the run. -/
def emit (event : Event) : Activity Unit := perform (.emit event)

/-- Asks the model, and waits for its reply. -/
def ask (request : ModelRequest) : Activity ModelReply := perform (.ask request)

/-- Lets a tool take up a call. -/
def request (call : ToolCall) : Activity Receipt := perform (.request call)

/-- Lets a tool act on the call that it took up under a number. -/
def act (call : ToolCall) (number : Nat) : Activity ToolReply := perform (.act call number)

/-- Waits; the reply says whether the run is cancelled by then. -/
def sleep (ms : Nat) (resumed : Bool := false) : Activity Bool := perform (.sleep ms resumed)

/-- Learns whether the run is cancelled. -/
def poll : Activity Bool := perform .poll

/-- Cancels the run. -/
def cancel : Activity Unit := perform .cancel

/-- Takes a new name. -/
def freshId : Activity String := perform .freshId

/-- To go on with the result and do nothing is to do nothing more. -/
theorem bind_done : (t : Activity α) → t.bind done = t
  | done _ => rfl
  | step effect next => congrArg (step effect) (funext fun reply => bind_done (next reply))

/-- Of three parts it does not matter which two are put together first. -/
theorem bind_assoc {γ : Type} (f : α → Activity β) (g : β → Activity γ) :
    (t : Activity α) → (t.bind f).bind g = t.bind fun a => (f a).bind g
  | done _ => rfl
  | step effect next =>
    congrArg (step effect) (funext fun reply => bind_assoc f g (next reply))

/-- The laws that let a sequence be taken apart at any place. -/
instance : LawfulMonad Activity :=
  LawfulMonad.mk' Activity bind_done (fun _ _ => rfl) fun t f g => bind_assoc f g t

end Activity

/-- An activity that can fail. -/
abbrev Work : Type → Type := ExceptT Error Activity

namespace Work

/-- An activity that does not fail. -/
def lift {α : Type} (activity : Activity α) : Work α := ExceptT.lift activity

/-- Work that fails or has its result already. -/
def ofExcept {α : Type} (result : Except Error α) : Work α := ExceptT.mk (pure result)

/-- The activity of the work. -/
def activity {α : Type} (work : Work α) : Activity (Except Error α) := work.run

end Work

end AgentFlow
