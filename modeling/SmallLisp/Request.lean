import SmallLisp.Sequence

/-!
# What the parts of the evaluator ask of the whole

A special form, an operation or a host program may have forms evaluated and functions applied. It
does so through the evaluators that are handed to it, so none of them is recursive by itself. There
is an evaluator for each context value. An operation is handed its own context beside them, and it
has to pass that on with everything that it asks for.
-/

namespace SmallLisp

/-- Work for the evaluator. -/
inductive Request where
  | evaluate (form : Value)
  | apply (f : FunctionId) (arguments : Value)
deriving DecidableEq, Repr

abbrev Evaluator := Request → EvalM Value

def Evaluator.form (ev : Evaluator) (form : Value) : EvalM Value := ev (.evaluate form)

/-- An evaluator for each context. -/
abbrev Evaluators := Value → Evaluator

namespace Evaluators

/-- Evaluate a list of forms in sequence. The value of an empty one is the empty list. -/
def body (ev : Evaluators) (context forms : Value) : EvalM Value :=
  EvalM.forEach forms .nil fun form _ => do
    let v ← (ev context).form form
    pure (.yield v)

/-- Evaluate every element of a list, from left to right, into a fresh list. -/
def list [lists : ListBuilding] (ev : Evaluators) (context forms : Value) : EvalM Value := do
  let builder ← EvalM.forEach forms lists.start fun form builder => do
    let v ← (ev context).form form
    let builder ← lists.push builder v
    pure (.yield builder)
  lists.finish builder .nil

end Evaluators

end SmallLisp
