import AgentFlow.Proofs.Contract
import AgentFlow.Proofs.WellFormed
import AgentFlow.Run.Runner

/-!
# What can fail without the flow being malformed

Filling in templates, evaluating conditions, converting values and reading results fail for reasons
of the state and of what tools and callers say, never because the flow is malformed, and never by
refusing an answer of the caller: that is left to `Node.acceptInput`. The exception are update
nodes, whose actions look for a field and an operand that the rules for nodes promise:
`UpdateStep.ordinary_run` is where the rules are used.
-/

namespace AgentFlow

variable {α β : Type} {c : Contract}

/-- The errors that say neither that a flow is malformed nor that an answer is refused. -/
def Error.IsOrdinary : Error → Prop
  | .structural _ | .invalidResume _ => False
  | _ => True

/-- A result that is not a structural error. -/
def NotStructural (result : Except Error α) : Prop :=
  ∀ error, result = .error error → ¬ error.IsStructural

/-- A result that is an ordinary error, if it is one. -/
def Ordinary (result : Except Error α) : Prop :=
  ∀ error, result = .error error → error.IsOrdinary

/-- A result that is there is no structural error. -/
theorem notStructural_ok (a : α) : NotStructural (.ok a : Except Error α) := nofun

/-- An error that is not structural makes a result that is not. -/
theorem notStructural_error {error : Error} (h : ¬ error.IsStructural) :
    NotStructural (.error error : Except Error α) := by
  rintro _ ⟨⟩
  exact h

/-- Work that has its result, or fails otherwise than structurally, keeps every contract. -/
theorem NotStructural.keeps {result : Except Error α} (h : NotStructural result) {post : α → Prop}
    (hpost : ∀ a, result = .ok a → post a) : (Work.ofExcept result).Keeps c post :=
  (Work.keeps_ofExcept post result).2
    ⟨hpost, fun error he => c.fault_of_not_structural (h error he)⟩

/-- A result that is there is no error of any kind. -/
theorem ordinary_ok (a : α) : Ordinary (.ok a : Except Error α) := nofun

/-- An ordinary error makes an ordinary result. -/
theorem ordinary_error {error : Error} (h : error.IsOrdinary) :
    Ordinary (.error error : Except Error α) := by
  rintro _ ⟨⟩
  exact h

namespace Ordinary

/-- An ordinary error is not structural. -/
theorem notStructural {result : Except Error α} (h : Ordinary result) : NotStructural result := by
  intro error he hs
  have hordinary := h error he
  cases error <;> first | exact hordinary | exact hs

/-- Both parts of a computation have ordinary errors only. -/
theorem bind {result : Except Error α} {f : α → Except Error β} (h : Ordinary result)
    (hf : ∀ a, result = .ok a → Ordinary (f a)) : Ordinary (result >>= f) := by
  cases result with
  | ok a => exact hf a rfl
  | error error => exact ordinary_error (h error rfl)

/-- What becomes of a result does not change its error. -/
theorem map {result : Except Error α} (h : Ordinary result) (f : α → β) :
    Ordinary (result.map f) := by
  cases result with
  | ok a => exact ordinary_ok _
  | error error => exact ordinary_error (h error rfl)

/-- Work that has its result, or fails ordinarily, keeps every contract. -/
theorem keeps {result : Except Error α} (h : Ordinary result) {post : α → Prop}
    (hpost : ∀ a, result = .ok a → post a) : (Work.ofExcept result).Keeps c post :=
  h.notStructural.keeps hpost

end Ordinary

/-! ## Templates and conditions -/

namespace Template

variable (vars : Lookup)

/-- A name that is not found, or an item that is not there, is an ordinary error. -/
theorem ordinary_resolve (name : String) (index : Option Int) :
    Ordinary (resolve vars name index) := by
  unfold resolve
  repeat' split
  all_goals first | exact ordinary_ok _ | exact ordinary_error trivial

/-- A reference fails ordinarily if it does. -/
theorem Reference.ordinary_resolve (r : Reference) : Ordinary (r.resolve vars) := by
  unfold Reference.resolve
  repeat' split
  · exact Template.ordinary_resolve vars _ _
  · exact Template.ordinary_resolve vars _ _
  · exact ordinary_error trivial

/-- Filling in pieces fails ordinarily if it does. -/
theorem ordinary_fill : ∀ pieces : List Piece, Ordinary (fill vars pieces)
  | [] => ordinary_ok _
  | .plain _ :: rest => (ordinary_fill rest).map _
  | .reference r :: rest =>
    (r.ordinary_resolve vars).bind fun _ _ =>
      (ordinary_fill rest).bind fun _ _ => ordinary_ok _

/-- Filling in a template fails ordinarily if it does. -/
theorem ordinary_interpolate (template : String) :
    Ordinary (interpolate vars template) :=
  (ordinary_fill vars _).map _

/-- Filling in a text that may be a lone reference fails ordinarily if it does. -/
theorem ordinary_interpolateText (template : String) :
    Ordinary (interpolateText vars template) := by
  unfold interpolateText
  split
  · exact Reference.ordinary_resolve vars _
  · exact (ordinary_interpolate vars template).map _

mutual

/-- Filling in a value fails ordinarily if it does. -/
theorem ordinary_interpolateValue : ∀ value : Value,
    Ordinary (interpolateValue vars value)
  | .string s => by
    rw [interpolateValue]
    exact ordinary_interpolateText vars s
  | .list items => by
    rw [interpolateValue]
    exact (ordinary_interpolateItems items).map _
  | .map fields => by
    rw [interpolateValue]
    exact (ordinary_interpolateFields fields).map _
  | .null => ordinary_ok _
  | .bool _ => ordinary_ok _
  | .number _ => ordinary_ok _

/-- Filling in the items of a list fails ordinarily if it does. -/
theorem ordinary_interpolateItems : ∀ items : List Value,
    Ordinary (interpolateItems vars items)
  | [] => ordinary_ok _
  | item :: rest => by
    rw [interpolateItems]
    exact (ordinary_interpolateValue item).bind fun _ _ =>
      (ordinary_interpolateItems rest).bind fun _ _ => ordinary_ok _

/-- Filling in the fields of an object fails ordinarily if it does. -/
theorem ordinary_interpolateFields : ∀ fields : List (String × Value),
    Ordinary (interpolateFields vars fields)
  | [] => ordinary_ok _
  | (_, item) :: rest => by
    rw [interpolateFields]
    exact (ordinary_interpolateValue item).bind fun _ _ =>
      (ordinary_interpolateFields rest).bind fun _ _ => ordinary_ok _

end

end Template

/-- Lines are filled in one by one. -/
theorem ordinary_interpolateAll (vars : Lookup) : ∀ templates : List String,
    Ordinary (interpolateAll vars templates)
  | [] => ordinary_ok _
  | template :: rest => by
    unfold interpolateAll
    rw [List.mapM_cons]
    exact (Template.ordinary_interpolate vars template).bind fun _ _ =>
      (ordinary_interpolateAll vars rest).bind fun _ _ => ordinary_ok _

/-- Evaluating a condition fails ordinarily if it does. -/
theorem Condition.ordinary_evaluate (condition : Condition) (vars : Lookup) :
    Ordinary (condition.evaluate vars) := by
  unfold evaluate
  split
  · exact ordinary_ok _
  · rename_i fault _
    cases fault <;> exact ordinary_error trivial

/-- Choosing a route fails only for a condition or for want of one that holds. -/
theorem Flow.ordinary_firstTarget (source : String) (vars : Lookup) :
    ∀ (tried : List String) (routes : List Route),
      Ordinary (firstTarget source vars tried routes)
  | _, [] => ordinary_error trivial
  | _, .always _ :: _ => ordinary_ok _
  | tried, .when condition target :: rest => by
    rw [firstTarget]
    split
    · rename_i error he
      exact ordinary_error (condition.ordinary_evaluate vars error he)
    · exact ordinary_ok _
    · exact ordinary_firstTarget source vars _ rest

/-! ## Values for fields -/

/-- A value that does not fit a field is an ordinary error. -/
theorem OutputField.ordinary_assign (field : OutputField) (value : Value) :
    Ordinary (field.assign value) := by
  unfold OutputField.assign
  split
  · exact ordinary_ok _
  · exact ordinary_error trivial

/-- Assigning the fields of an object fails ordinarily if it does. -/
theorem ordinary_assignFields (map : List (String × Value)) :
    ∀ fields : List OutputField, Ordinary (assignFields map fields)
  | [] => ordinary_ok _
  | field :: rest => by
    rw [assignFields]
    split
    · exact ordinary_error trivial
    · exact (field.ordinary_assign _).bind fun _ _ =>
        (ordinary_assignFields map rest).bind fun _ _ => ordinary_ok _

namespace Node

/-- Assigning a value to the fields of a node fails ordinarily if it does. -/
theorem ordinary_assign (node : Node) (value : Value) :
    Ordinary (node.assign value) := by
  unfold assign
  split
  · exact ordinary_ok _
  · exact (OutputField.ordinary_assign _ _).map _
  · split
    · exact ordinary_assignFields _ _
    · exact ordinary_error trivial

/-- A value that a node does not accept is refused, which is no structural error. -/
theorem notStructural_acceptInput (node : Node) (request : InputRequest) (value : Value) :
    NotStructural (node.acceptInput request value) := by
  unfold acceptInput
  dsimp only
  repeat' split
  all_goals first | exact notStructural_ok _ | exact notStructural_error id

/-- Assigning the result of a tool fails ordinarily if it does. -/
theorem ordinary_assignResult (node : Node) (tool : String) (schema : Option Value)
    (result : ToolResult) : Ordinary (node.assignResult tool schema result) := by
  have hdeclared : ∀ value, Ordinary (checkDeclared tool schema value) := fun value => by
    unfold checkDeclared
    split
    · exact ordinary_ok _
    · exact ordinary_error trivial
  have hvalue : Ordinary (resultValue node.output tool schema result.content) := by
    unfold resultValue
    dsimp only
    repeat' split
    all_goals first | exact hdeclared _ | exact ordinary_ok _ | exact ordinary_error trivial
  unfold assignResult
  split
  · exact ordinary_error trivial
  · exact hvalue.bind fun value _ =>
      (node.ordinary_assign value).bind fun _ _ => ordinary_ok _

/-- A limit that is reached, or a counter that is no number, is an ordinary error. -/
theorem ordinary_countExecution (node : Node) (state : Store) :
    Ordinary (node.countExecution state) := by
  have hlimit : ∀ (limit count : Nat) (counter : String),
      Ordinary (if limit ≤ count then .error (.loopLimit node.name limit counter)
        else .ok (state.set counter (.int (count + 1)))) := fun limit count counter => by
    split
    · exact ordinary_error trivial
    · exact ordinary_ok _
  unfold countExecution
  split
  · dsimp only
    repeat' split
    · exact hlimit _ 0 _
    · exact hlimit _ _ _
    · exact ordinary_error trivial
    · exact ordinary_error trivial
  · exact ordinary_ok _

end Node

/-- What a node asks its caller is filled in, or fails ordinarily. -/
theorem InputStep.ordinary_request (step : InputStep) (vars : Lookup) :
    Ordinary (step.request vars) := by
  have hoptions : ∀ options : InputOptions, Ordinary (options.resolve vars) := by
    rintro (items | text)
    · exact Template.ordinary_interpolateItems vars items
    · refine (Template.ordinary_interpolateText vars text).bind fun value _ => ?_
      split
      · exact ordinary_ok _
      · exact ordinary_error trivial
  unfold request
  refine (Template.ordinary_interpolate vars _).bind fun prompt _ => ?_
  split
  · exact ordinary_ok _
  · exact (hoptions _).bind fun _ _ => ordinary_ok _

/-- The lines of an output node are filled in, or fail ordinarily. -/
theorem ordinary_runOutput (templates : List String) (vars : Lookup) :
    Ordinary (runOutput templates vars) :=
  (ordinary_interpolateAll vars templates).bind fun _ _ => ordinary_ok _

/-- A variable that is missing or is no list is an ordinary error. -/
theorem ForEach.ordinary_list (each : ForEach) (state : Store) :
    Ordinary (each.list state) := by
  unfold list
  split
  · exact ordinary_ok _
  · exact ordinary_error trivial
  · exact ordinary_error trivial

/-! ## Update nodes -/

namespace UpdateStep

variable (node : Node) (step : UpdateStep) (state : Store) (target : String)

/-- The operand of an update is found, or fails ordinarily. -/
theorem ordinary_operand : Ordinary (step.operand state) := by
  unfold operand
  repeat' split
  · exact ordinary_ok _
  · exact ordinary_error trivial
  · exact (Template.ordinary_interpolateValue _ _).map _
  · exact ordinary_ok _

/-- There is an operand if a source or a value is given. -/
theorem operand_ne_ok_none (h : step.source.isSome ∨ step.value.isSome) :
    step.operand state ≠ .ok none := by
  unfold operand
  cases hsource : step.source with
  | some source =>
    dsimp only
    split <;> simp
  | none =>
    cases hvalue : step.value with
    | some value =>
      dsimp only
      cases Template.interpolateValue state.get? value <;> simp [Except.map]
    | none => simp [hsource, hvalue] at h

/-- A node that says where its operand is has it, or fails ordinarily. -/
theorem ordinary_requiredOperand (h : step.source.isSome ∨ step.value.isSome) :
    Ordinary (requiredOperand node step state) := by
  unfold requiredOperand
  refine (step.ordinary_operand state).bind fun operand hoperand => ?_
  cases operand with
  | some value => exact ordinary_ok _
  | none => exact absurd hoperand (step.operand_ne_ok_none state h)

/-- A variable to which nothing can be appended is an ordinary error. -/
theorem ordinary_append (item : Value) : Ordinary (append target state item) := by
  unfold append
  split
  · exact ordinary_ok _
  · exact ordinary_ok _
  · exact ordinary_error trivial

/-- A variable that cannot be incremented is an ordinary error. -/
theorem ordinary_increment (delta : Number) :
    Ordinary (increment target state delta) := by
  have hadd : ∀ current : Number, Ordinary (current.add target delta) := fun current => by
    unfold Number.add
    repeat' split
    all_goals first | exact ordinary_ok _ | exact ordinary_error trivial
  unfold increment
  split
  · exact ordinary_ok _
  · exact (hadd _).map _
  · exact ordinary_error trivial

/-- A well-formed update node has the field and the operand that its action needs. -/
theorem ordinary_run (h : (NodeKind.update step).WellFormed node.output) :
    Ordinary (run node step state) := by
  simp only [NodeKind.WellFormed] at h
  unfold run
  cases haction : step.action with
  | none =>
    exact (Template.ordinary_interpolateFields _ _).bind fun _ _ => ordinary_ok _
  | some action =>
    -- The rules promise an action one field, so that the branch for other numbers is out.
    have hone : node.output.length = 1 := by
      rw [haction] at h
      cases action <;> exact h.1
    obtain ⟨field, hfield⟩ := List.length_eq_one_iff.1 hone
    rw [hfield]
    refine Ordinary.bind ?_ fun _ _ => ordinary_ok _
    unfold act
    rw [haction] at h
    cases action with
    | append =>
      exact (ordinary_requiredOperand node step state h.2).bind fun item _ =>
        ordinary_append state field.name item
    | overwrite => exact ordinary_requiredOperand node step state h.2
    | increment =>
      refine (step.ordinary_operand state).bind fun operand _ => ?_
      split
      · exact ordinary_increment state field.name _
      · exact ordinary_error trivial

end UpdateStep

end AgentFlow
