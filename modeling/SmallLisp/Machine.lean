import SmallLisp.Datum.Intern
import SmallLisp.Evaluator

/-!
# Running text

A machine is an evaluator with the programs of its host and its fuel. It evaluates forms, or texts
form by form: each form is interned just before it runs, so a change of namespace counts for what
follows it. A signal that leaves a whole evaluation has found no frame and becomes a fault.
-/

namespace SmallLisp

def Signal.text (s : Interp) : Signal → String
  | .returning v _ => "return of " ++ s.print v
  | .breaking _ => "break"
  | .throwing text _ => "throw: " ++ text

/-- The fault of a signal that found no frame. -/
def Signal.toFault (s : Interp) : Signal → Fault
  | .throwing text _ => .evaluation (.uncaughtThrow text) none
  | signal => .evaluation (.escaped (signal.text s)) none

/-- Turn a signal that leaves an action into a fault. -/
def EvalM.settle {α : Type} (act : EvalM α) : EvalM α := fun s =>
  match act s with
  | .error (.signal signal) s => .error (.fault (signal.toFault s)) s
  | result => result

structure Machine where
  hosts : HostTable
  fuel : Nat

namespace Machine

def evaluator [ListBuilding] (m : Machine) : Evaluators := Evaluator.perform m.hosts m.fuel

def evaluate [ListBuilding] (m : Machine) (context form : Value) : EvalM Value :=
  EvalM.settle ((m.evaluator context).form form)

/-- Evaluate forms in order; the value of the last one counts. -/
def evaluateAll [ListBuilding] (m : Machine) (context : Value) (last : Value) :
    List Value → EvalM Value
  | [] => pure last
  | form :: rest => do
    let v ← m.evaluate context form
    m.evaluateAll context v rest

/-- Intern and evaluate data one after the other; the value of the last one counts. -/
def evaluateData [ListBuilding] (m : Machine) (last : Value) : List Datum → EvalM Value
  | [] => pure last
  | datum :: rest => do
    let form ← datum.intern
    let v ← m.evaluate .nil form
    m.evaluateData v rest

/-- Evaluate a text. Nothing is evaluated unless all of it can be read. -/
def evaluateText [ListBuilding] (m : Machine) (source : String) : EvalM Value := do
  let data ← EvalM.readText source
  m.evaluateData .nil data

/-- Evaluate a list of forms as a body. Signals stay signals. -/
def runBody [ListBuilding] (m : Machine) (context forms : Value) : EvalM Value :=
  m.evaluator.body context forms

/-- Apply a function to a list of arguments. Signals stay signals. -/
def apply [ListBuilding] (m : Machine) (context : Value) (f : FunctionId) (arguments : Value) :
    EvalM Value :=
  m.evaluator context (.apply f arguments)

/-- Carry out an operation of the standard library on a list of arguments as it stands. -/
def runPrimitive [ListBuilding] (m : Machine) (context : Value) (op : Primitive)
    (arguments : Value) : EvalM Value :=
  op.run m.evaluator context m.fuel arguments

/-- Assign through an operation of the standard library that is a place. -/
def assignPrimitive? (op : Primitive) : Option (Value → Value → EvalM Value) :=
  SpecialForm.assignPlace? (.primitive op)

end Machine

end SmallLisp
