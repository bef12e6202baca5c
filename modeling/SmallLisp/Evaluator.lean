import SmallLisp.Assignment
import SmallLisp.Host
import SmallLisp.NamespaceForm
import SmallLisp.Operation

/-!
# The evaluator

`perform` does the work that requests ask for. It is the only recursion through evaluation: special
forms, operations and host programs get the evaluator for the next lower fuel. Fuel is a bound on
nesting and on the passes of a loop; without it a run is aborted, which is no ending of the
language.

Evaluating a form counts as active until it ends. A symbol evaluates to its binding, a list is an
application, and everything else is its own value. An evaluation or type fault that leaves a list
form names that form, unless it names an inner one already.
-/

namespace SmallLisp

/-- Carry out an operation of the standard library on an argument list. -/
def Primitive.run [ListBuilding] (ev : Evaluators) (context : Value) (n : Nat)
    (arguments : Value) :
    Primitive → EvalM Value
  | .quote => SpecialForm.quote arguments
  | .backquote => SpecialForm.backquote ev context n arguments
  | .unquote | .splice => Operation.identity arguments
  | .makeLambda => SpecialForm.makeFunction "LAMBDA" .lambda arguments
  | .makeMacro => SpecialForm.makeFunction "MACRO" .expander arguments
  | .bindVariable => SpecialForm.bindVariable ev context arguments
  | .assign => SpecialForm.assign ev context arguments
  | .scope => SpecialForm.scope ev context arguments
  | .gensym => SpecialForm.gensym
  | .choose => SpecialForm.choose ev context arguments
  | .sequence | .sequenceDo => ev.body context arguments
  | .conjunction => SpecialForm.conjunction ev context arguments
  | .disjunction => SpecialForm.disjunction ev context arguments
  | .loop => SpecialForm.loop ev context n arguments
  | .guarded => SpecialForm.guarded ev context arguments
  | .breakLoop => SpecialForm.breakLoop
  | .returnValue => Operation.returnValue arguments
  | .throwText => Operation.throwText arguments
  | .defineNamespace => NamespaceForm.answer NamespaceForm.create arguments
  | .inNamespace => NamespaceForm.answer (NamespaceForm.onNamed Interp.changeNamespace) arguments
  | .useNamespace => NamespaceForm.answer (NamespaceForm.onNamed Interp.useNamed) arguments
  | .list => pure arguments
  | .car => Operation.half "CAR" Interp.car arguments
  | .cdr => Operation.half "CDR" Interp.cdr arguments
  | .cons => Operation.cons arguments
  | .evaluate => Operation.evaluate ev context arguments
  | .not => Operation.not arguments
  | .eql => Operation.eql arguments
  | .equal => Operation.equal arguments
  | .typeOf => Operation.typeOf arguments
  | .element => Operation.element arguments
  | .array => Operation.array arguments
  | .makeArray => Operation.makeArray arguments
  | .dictionary => Operation.dictionary arguments
  | .hashTable => Operation.hashTable arguments
  | .length => Operation.length arguments
  | .map => Operation.map ev context arguments
  | .add => Operation.arithmetic .add arguments
  | .subtract => Operation.arithmetic .subtract arguments
  | .multiply => Operation.arithmetic .multiply arguments
  | .divide => Operation.arithmetic .divide arguments
  | .remainder => Operation.arithmetic .remainder arguments
  | .less => Operation.comparison .less arguments
  | .lessEqual => Operation.comparison .lessEqual arguments
  | .greater => Operation.comparison .greater arguments
  | .greaterEqual => Operation.comparison .greaterEqual arguments
  | .max => Operation.extremum .max arguments
  | .min => Operation.extremum .min arguments

/-- Call a function on an argument list. The expansion of an expander is evaluated in its turn. -/
def Callable.call [ListBuilding] (hosts : HostTable) (ev : Evaluators) (n : Nat)
    (context : Value) (id : FunctionId) (arguments : Value) : Callable → EvalM Value
  | .primitive op => op.run ev context n arguments
  | .host f => (hosts f.program arguments context).run ev
  | .lambda c => c.run ev context arguments (some (.function id))
  | .expander c => do
    let expansion ← c.run ev context arguments none
    (ev context).form expansion

namespace Evaluator

/-- Whether an argument list is proper and long enough for a function. -/
inductive Fit where
  | dotted
  | short (expected got : Nat)
  | fits (f : Callable)

/-- Compare an argument list with what a function needs. -/
def fit (s : Interp) (id : FunctionId) (arguments : Value) : Fit :=
  let (ids, tail) := s.spine arguments
  let f := s.callable id
  if !tail.isNil then .dotted
  else if ids.length < f.minArgs then .short f.minArgs ids.length
  else .fits f

/-- Apply the function that a list form names with its head. The argument list is looked at before
any argument is evaluated. -/
def applyForm [ListBuilding] (hosts : HostTable) (ev : Evaluators) (n : Nat)
    (context : Value) (cell : CellId) : EvalM Value := do
  let head ← EvalM.read fun s => s.car cell
  let operands ← EvalM.read fun s => s.cdr cell
  match ← (ev context).form head with
  | .function id =>
    match ← EvalM.read fun s => fit s id operands with
    | .dotted =>
      let text ← EvalM.read fun s => s.print (.cons cell)
      EvalM.failEvaluation (.dottedForm text)
    | .short expected got =>
      let text ← EvalM.read fun s => s.print (.cons cell)
      EvalM.fail (.arity expected got (some text))
    | .fits f =>
      let arguments ←
        if f.evaluatesArguments then ev.list context operands else pure operands
      f.call hosts ev n context id arguments
  | other =>
    let text ← EvalM.read fun s => s.print other
    EvalM.failType (.notFunction text)

/-- Name a form in a fault that leaves it and names none. -/
@[inline]
def namingForm (form : Value) (act : EvalM Value) : EvalM Value := fun s =>
  match act s with
  | .error (.fault fault) s =>
    if fault.lacksForm then .error (.fault (fault.withForm (s.print form))) s
    else .error (.fault fault) s
  | result => result

/-- Evaluate a form that counts as active already. -/
def evaluateActive [ListBuilding] (hosts : HostTable) (ev : Evaluators) (n : Nat)
    (context form : Value) : EvalM Value :=
  match form with
  | .symbol x => fun s =>
    match s.lookup? x with
    | some v => .ok v s
    | none => .error (.fault (.unbound (.read (s.printSymbol x)))) s
  | .cons cell => namingForm (.cons cell) (applyForm hosts ev n context cell)
  | other => pure other

/-- Call a function on arguments that are ready. -/
def applyReady [ListBuilding] (hosts : HostTable) (ev : Evaluators) (n : Nat)
    (context : Value) (id : FunctionId) (arguments : Value) : EvalM Value := do
  match ← EvalM.read fun s => fit s id arguments with
  | .dotted =>
    let text ← EvalM.read fun s => s.print arguments
    EvalM.failEvaluation (.dottedArguments text)
  | .short expected got => EvalM.fail (.arity expected got none)
  | .fits f => f.call hosts ev n context id arguments

/-- Carry out a request with `ev` for everything nested in it. -/
def step [ListBuilding] (hosts : HostTable) (ev : Evaluators) (n : Nat) (context : Value) :
    Evaluator
  | .evaluate form => EvalM.withinLimit (evaluateActive hosts ev n context form)
  | .apply id arguments => applyReady hosts ev n context id arguments

/-- Carry out a request in a context. -/
def perform [ListBuilding] (hosts : HostTable) : Nat → Value → Evaluator
  | 0, _, _ => throw .spent
  | n + 1, context, request => step hosts (perform hosts n) n context request

end Evaluator

end SmallLisp
