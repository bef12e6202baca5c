import SmallLisp.Collection
import SmallLisp.SpecialForm

/-!
# Assignment

`=` assigns to a symbol, or through a form whose head is a place. The operands of a place are
evaluated before the value.
-/

namespace SmallLisp.SpecialForm

/-- Store a value under a key of a collection; the answer is the value. -/
def assignElement (arguments value : Value) : EvalM Value := do
  let target ← EvalM.read fun s => s.first arguments
  let key ← EvalM.read fun s => s.second arguments
  EvalM.assign target key value
  pure value

theorem assignElement_apply (arguments value : Value) (s : Interp) :
    assignElement arguments value s =
      match EvalM.assign (s.first arguments) (s.second arguments) value s with
      | .ok () u => .ok value u
      | .error flow u => .error flow u := by
  change EStateM.bind (EvalM.assign (s.first arguments) (s.second arguments) value) _ s = _
  unfold EStateM.bind
  cases EvalM.assign (s.first arguments) (s.second arguments) value s <;> rfl

/-- The assigning half of a place; other functions have none. -/
def assignPlace? : Callable → Option (Value → Value → EvalM Value)
  | .primitive .element => some assignElement
  | _ => none

theorem eq_assignElement {f : Callable} {store : Value → Value → EvalM Value}
    (h : assignPlace? f = some store) : store = assignElement := by
  unfold assignPlace? at h
  split at h
  · exact (Option.some.inj h).symm
  · cases h

/-- The fault of an operator that can not be assigned through. -/
def notAssignable (got : Value) : EvalM Value := do
  let text ← EvalM.read fun s => s.print got
  EvalM.failEvaluation (.notAssignable text)

/-- Assign the value of a form through the place `(operator argument …)`. -/
def assignThrough [ListBuilding] (ev : Evaluators) (context place form : Value) : EvalM Value := do
  let head ← EvalM.read fun s => s.first place
  let operator ← (ev context).form head
  match operator with
  | .function id =>
    let f ← EvalM.read fun s => s.callable id
    match assignPlace? f with
    | none => notAssignable operator
    | some store =>
      let operands ← EvalM.read fun s => s.rest place
      if !(← EvalM.read fun s => s.isProper operands) then
        let text ← EvalM.read fun s => s.print place
        EvalM.failEvaluation (.dottedPlace text)
      else if (← EvalM.read fun s => s.lengthOf operands) < f.minArgs then
        let text ← EvalM.read fun s => s.print head
        EvalM.failEvaluation (.shortPlace text)
      else
        let arguments ← ev.list context operands
        let v ← (ev context).form form
        store arguments v
  | other => notAssignable other

/-- Assign the value of the second form to what the first one describes. -/
def assign [ListBuilding] (ev : Evaluators) (context arguments : Value) : EvalM Value := do
  let place ← EvalM.read fun s => s.first arguments
  let form ← EvalM.read fun s => s.second arguments
  match place with
  | .symbol x =>
    if ← EvalM.read fun s => (s.symbol x).reserved then
      let text ← EvalM.read fun s => s.printSymbol x
      EvalM.fail (.reserved (.assign text))
    else
      let v ← (ev context).form form
      assignSymbol x v
      pure v
  | .cons _ => assignThrough ev context place form
  | other => notAssignable other

end SmallLisp.SpecialForm
