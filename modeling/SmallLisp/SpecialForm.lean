import SmallLisp.Frame
import SmallLisp.Naming
import SmallLisp.Template

/-!
# Special forms

The operations that receive their arguments as forms and evaluate what they need. Each takes its
argument list as it stands, reads an absent argument as the empty list and ignores further ones.
-/

namespace SmallLisp.SpecialForm

def quote (arguments : Value) : EvalM Value := EvalM.read fun s => s.first arguments

def backquote [ListBuilding] (ev : Evaluators) (context : Value) (n : Nat) (arguments : Value) :
    EvalM Value := do
  let form ← EvalM.read fun s => s.first arguments
  Template.fill ev context n form

/-- The symbols of a parameter list. Each must be a symbol that is not reserved. -/
def parameters (operator : String) (s : Interp) : List Value → Except Fault (List SymbolId)
  | [] => .ok []
  | .symbol x :: rest =>
    if (s.symbol x).reserved then .error (reservedBinding s x)
    else (parameters operator s rest).map (x :: ·)
  | other :: _ => .error (.type (.parameterSymbol operator (s.print other)) none)

/-- The parameters of a closure, from the first of its arguments. -/
def parameterList (operator : String) (s : Interp) (arguments : Value) :
    Except Fault (List SymbolId) :=
  let list := s.first arguments
  match s.properElements? list with
  | none => .error (.type (.parameterList operator (s.print list)) none)
  | some items => parameters operator s items

/-- Capture the current scopes and allocate a function with the arguments after the first one as its
body. -/
def allocClosure (kind : Closure → Callable) (xs : List SymbolId) (arguments : Value) (s : Interp) :
    Value × Interp :=
  let body := s.rest arguments
  let captured := s.captured
  let (id, s) := s.allocScope captured
  s.allocCallable (kind ⟨xs, id, body⟩)

/-- The function that a parameter list and a body make, over the current scopes. -/
def makeFunction (operator : String) (kind : Closure → Callable) (arguments : Value) :
    EvalM Value := fun s =>
  match parameterList operator s arguments with
  | .error fault => .error (.fault fault) s
  | .ok xs =>
    match allocClosure kind xs arguments s with
    | (v, s) => .ok v s

/-- Bind a symbol in the current scope to the value of a form. -/
def bindVariable (ev : Evaluators) (context arguments : Value) : EvalM Value := do
  match ← EvalM.read fun s => s.first arguments with
  | .symbol x =>
    if ← EvalM.read fun s => (s.symbol x).reserved then
      let fault ← EvalM.read fun s => reservedBinding s x
      EvalM.fail fault
    else
      let v ← match ← EvalM.read fun s => s.elementAt? arguments 1 with
        | some form => (ev context).form form
        | none => pure .nil
      EvalM.update fun s => s.bind x v
      pure v
  | other =>
    let text ← EvalM.read fun s => s.print other
    EvalM.failType (.variableSymbol text)

/-- Assign to the innermost binding of a symbol. -/
def assignSymbol (x : SymbolId) (v : Value) : EvalM Unit := fun s =>
  match s.holder? x with
  | some id => .ok () (s.bindIn id x v)
  | none => .error (.fault (.unbound (.assign (s.printSymbol x)))) s

/-- Evaluate forms in a scope of their own. -/
def scope (ev : Evaluators) (context forms : Value) : EvalM Value := do
  let fresh ← EvalM.step fun s => s.allocScope .empty
  EvalM.inScope fresh (ev.body context forms)

/-- A new symbol outside every namespace. -/
def gensym : EvalM Value := do
  let id ← EvalM.step fun s => s.generate
  pure (.symbol id)

/-- Evaluate the second form if the first is true, else the third if there is one. -/
def choose (ev : Evaluators) (context arguments : Value) : EvalM Value := do
  let test ← EvalM.read fun s => s.first arguments
  let v ← (ev context).form test
  if v.isTrue then
    let form ← EvalM.read fun s => s.second arguments
    (ev context).form form
  else
    match ← EvalM.read fun s => s.third? arguments with
    | some form => (ev context).form form
    | none => pure .nil

/-- Evaluate forms up to the first false one. The value of the last of them counts. -/
def conjunction (ev : Evaluators) (context arguments : Value) : EvalM Value :=
  EvalM.forEach arguments .truth fun form _ => do
    let v ← (ev context).form form
    pure (if v.isNil then .done v else .yield v)

/-- Evaluate forms up to the first true one, which gives the value. -/
def disjunction (ev : Evaluators) (context arguments : Value) : EvalM Value :=
  EvalM.forEach arguments .nil fun form _ => do
    let v ← (ev context).form form
    pure (if v.isTrue then .done v else .yield .nil)

/-- At most `n` passes of a loop; `last` is the value of the pass before. -/
def passes (ev : Evaluators) (context test body : Value) : Nat → Value → EvalM Value
  | 0, _ => throw .spent
  | n + 1, last => do
    let v ← (ev context).form test
    if v.isTrue then
      let result ← ev.body context body
      passes ev context test body n result
    else pure last

/-- End with the empty list at a break that aims at `depth`. -/
@[inline]
def landBreak (depth : Nat) (act : EvalM Value) : EvalM Value := fun s =>
  match act s with
  | .error (.signal (.breaking target)) s =>
    if target = depth then .ok .nil s else .error (.signal (.breaking target)) s
  | result => result

/-- Evaluate a body as long as a test is true. -/
def loop (ev : Evaluators) (context : Value) (n : Nat) (arguments : Value) : EvalM Value := do
  let test ← EvalM.read fun s => s.first arguments
  let body ← EvalM.read fun s => s.rest arguments
  EvalM.inFrame .loop do
    let depth ← EvalM.read fun s => s.depths.get .loop
    landBreak depth (passes ev context test body n .nil)

/-- How a protected form ended, faults and other signals apart. -/
inductive Protected where
  | finished (v : Value)
  | caught (text : String)

/-- Catch the text of a throw that aims at `depth`. -/
@[inline]
def landThrow (depth : Nat) (act : EvalM Value) : EvalM Protected := fun s =>
  match act s with
  | .ok v s => .ok (.finished v) s
  | .error (.signal (.throwing text target)) s =>
    if target = depth then .ok (.caught text) s
    else .error (.signal (.throwing text target)) s
  | .error flow s => .error flow s

/-- Evaluate a protected form; a throw that aims at it has its text handed to the value of
`handler`. -/
def attempt (ev : Evaluators) (context protectedForm handler : Value) : EvalM Value := do
  let outcome ← EvalM.inFrame .guarded do
    let depth ← EvalM.read fun s => s.depths.get .guarded
    landThrow depth ((ev context).form protectedForm)
  match outcome with
  | .finished v => pure v
  | .caught text =>
    let f ← (ev context).form handler
    let call ← EvalM.list [f, .string text]
    (ev context).form call

/-- Evaluate a form after an action, however that ended. The form does not change the ending, unless
it fails itself. Nothing follows an abort. -/
@[inline]
def followedBy (act : EvalM Value) (after : EvalM Value) : EvalM Value := fun s =>
  match act s with
  | .error (.aborted why) s => .error (.aborted why) s
  | .ok v s =>
    match after s with
    | .ok _ s => .ok v s
    | .error flow s => .error flow s
  | .error flow s =>
    match after s with
    | .ok _ s => .error flow s
    | .error later s => .error later s

/-- A protected form, a handler, and perhaps a form that is evaluated at the end in any case. -/
def guarded (ev : Evaluators) (context arguments : Value) : EvalM Value := do
  let protectedForm ← EvalM.read fun s => s.first arguments
  let handler ← EvalM.read fun s => s.second arguments
  match ← EvalM.read fun s => s.third? arguments with
  | some always => followedBy (attempt ev context protectedForm handler) ((ev context).form always)
  | none => attempt ev context protectedForm handler

def breakLoop : EvalM Value := do
  let depth ← EvalM.read fun s => s.depths.get .loop
  if depth = 0 then EvalM.failEvaluation .breakOutsideLoop else EvalM.exit (.breaking depth)

end SmallLisp.SpecialForm
