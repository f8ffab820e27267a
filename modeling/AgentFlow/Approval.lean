import AgentFlow.Json.Printer
import AgentFlow.Record

/-!
# Approval of tool calls

Which tool calls of a model are run at once, which wait for the caller, and which are refused.
Tool nodes are not gated: their place in the flow authorizes them.
-/

namespace AgentFlow

/-- What happens to a tool call. -/
inductive Verdict where
  | allow
  | needsApproval
  | deny
deriving DecidableEq

/-- The tools that need no approval and those that are never run. -/
structure ApprovalPolicy where
  autoApprove : List String := []
  deny : List String := []
deriving DecidableEq

namespace ApprovalPolicy

/-- The verdict on a call of a tool by a node: refusal wins, then the node's own setting. -/
def decide (policy : ApprovalPolicy) (tool : String) (nodeRequires : Bool) : Verdict :=
  if policy.deny.contains tool then .deny
  else if !nodeRequires || policy.autoApprove.contains tool then .allow
  else .needsApproval

/-- The names of the fields, in the order of their declaration. -/
def fieldNames : List String := ["auto_approve", "deny"]

/-- Reads a policy; a list that is missing is empty. -/
def ofValue? (value : Value) : Option ApprovalPolicy := do
  let fields ← Record.ofValue? fieldNames value
  let tools := Record.listOf Record.text
  return {
    autoApprove := Fields.sortedSet (← Record.withDefault "auto_approve" [] tools fields)
    deny := Fields.sortedSet (← Record.withDefault "deny" [] tools fields) }

/-- The policy as it is read. -/
def toValue (policy : ApprovalPolicy) : Value :=
  Record.ofFields [
    ("auto_approve", Record.ofTexts policy.autoApprove),
    ("deny", Record.ofTexts policy.deny)]

/-- A call waits for the caller exactly if the node asks for it and no list names the tool. -/
theorem decide_eq_needsApproval_iff {policy : ApprovalPolicy} {tool : String} {req : Bool} :
    policy.decide tool req = .needsApproval ↔
      tool ∉ policy.deny ∧ tool ∉ policy.autoApprove ∧ req = true := by
  simp only [decide, List.contains_iff_mem, Bool.or_eq_true, Bool.not_eq_true']
  cases req <;> split <;> simp_all

/-- A call is refused exactly if the tool is on the list of refused tools. -/
theorem decide_eq_deny_iff {policy : ApprovalPolicy} {tool : String} {req : Bool} :
    policy.decide tool req = .deny ↔ tool ∈ policy.deny := by
  simp only [decide, List.contains_iff_mem]
  split
  · simp_all
  · split <;> simp_all

end ApprovalPolicy

/-- A tool call that waits for approval. -/
structure ApprovalRequest where
  node : String
  tool : String
  input : Value
deriving DecidableEq

namespace ApprovalRequest

/-- How many characters of the input the caller is shown. -/
def summaryLength : Nat := 200

/-- The input as the caller is shown it. -/
def summary (request : ApprovalRequest) : String :=
  let text := Json.compact request.input
  if text.length ≤ summaryLength then text
  else String.ofList (text.toList.take summaryLength) ++ "..."

/-- The question to the caller. -/
def question (request : ApprovalRequest) : String :=
  s!"Allow tool '{request.tool}' with input {request.summary}?"

end ApprovalRequest

/-- The caller's answer to a request. -/
inductive Decision where
  | approved
  | denied (reason : String)
deriving DecidableEq

/-- Whether a request is granted. -/
def Decision.isApproved : Decision → Bool
  | approved => true
  | denied _ => false

end AgentFlow
