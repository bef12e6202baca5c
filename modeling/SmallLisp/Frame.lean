import SmallLisp.Printer
import SmallLisp.Request

/-!
# Frames of lambdas and macro expanders

A closure runs in three layers: its captured scope, which all its calls share, a new scope for this
call, and one more level of the call depth. Parameters are bound by position, and what is left over
is bound to `&REST`. A return that aims at this very level ends the frame with a value.
-/

namespace SmallLisp

/-- The fault of a parameter or variable that may not be bound. -/
def reservedBinding (s : Interp) (x : SymbolId) : Fault := .reserved (.bind (s.printSymbol x))

namespace Closure

/-- Bind parameters to arguments in the current scope, `bound` of `total` being done; the answer is
what is left of the arguments. -/
def bindParameters (total : Nat) : Nat → List SymbolId → Value → EvalM Value
  | _, [], arguments => pure arguments
  | bound, x :: rest, arguments => fun s =>
    if (s.symbol x).reserved then .error (.fault (reservedBinding s x)) s
    else
      match arguments with
      | .cons id => bindParameters total (bound + 1) rest (s.cdr id) (s.bind x (s.car id))
      | _ => .error (.fault (.arity total bound none)) s

/-- End with the value of a return that aims at `depth`. -/
@[inline]
def landReturn (depth : Nat) (act : EvalM Value) : EvalM Value := fun s =>
  match act s with
  | .error (.signal (.returning v target)) s =>
    if target = depth then .ok v s else .error (.signal (.returning v target)) s
  | result => result

/-- Bind the arguments and evaluate the body, inside the layers of a frame. -/
def runBody (ev : Evaluators) (context : Value) (c : Closure) (arguments : Value)
    (this : Option Value) : EvalM Value := do
  let depth ← EvalM.read fun s => s.depths.get .call
  let left ← bindParameters c.parameters.length 0 c.parameters arguments
  EvalM.update fun s => s.bind .rest left
  EvalM.update fun s => this.elim s (s.bind .self)
  landReturn depth (ev.body context c.body)

/-- Run a closure in a frame of its own. A lambda finds itself under `&SELF`. -/
def run (ev : Evaluators) (context : Value) (c : Closure) (arguments : Value)
    (this : Option Value) : EvalM Value := do
  let fresh ← EvalM.step fun s => s.allocScope .empty
  EvalM.inScope c.captured <| EvalM.inScope fresh <| EvalM.inFrame .call <|
    runBody ev context c arguments this

end Closure

end SmallLisp
