import SmallLisp.Printer
import SmallLisp.Request

/-!
# Templates

A backquote copies its operand into fresh cells. A form `(UNQUOTE x)` is replaced by the value of
`x`, and an element `(SPLICE x)` of a list by the elements of the value of `x`. A nested backquote
raises the level; an unquote or splice lowers it and is only carried out at level zero, else it is
rebuilt around its operand.

The tail of a list may itself be an unquote, because `(a . ,b)` reads as `(A UNQUOTE B)`.
-/

namespace SmallLisp.Template

/-- The operand of a form that is exactly the tag and one operand. -/
def operand? (s : Interp) (tag : SymbolId) : Value → Option Value
  | .cons id =>
    if s.car id = .symbol tag then
      match s.cdr id with
      | .cons rest => if (s.cdr rest).isNil then some (s.car rest) else none
      | _ => none
    else none
  | _ => none

/-- The fault of a splice that is no element of a list. -/
def misplacedSplice (form : Value) : EvalM Value := do
  let text ← EvalM.read fun s => s.print form
  EvalM.failEvaluation (.spliceOutsideList text)

/-- Rebuild a tagged form around its expanded operand. -/
def retag (tag : SymbolId) (operand : EvalM Value) : EvalM Value := do
  let v ← operand
  EvalM.list [.symbol tag, v]

section Lists

variable [lists : ListBuilding]

/-- Add the elements of a value. It has to be a proper list. -/
def splice (builder : lists.Builder) (v : Value) : EvalM lists.Builder := do
  if ← EvalM.read fun s => s.isProper v then lists.append builder v
  else
    let text ← EvalM.read fun s => s.print v
    EvalM.failEvaluation (.spliceOfNonList text)

/-- Expand an element of a list, adding what it contributes. -/
def element (ev : Evaluators) (context : Value) (expand : Nat → Value → EvalM Value)
    (level : Nat) (builder : lists.Builder) (item : Value) : EvalM lists.Builder := do
  match ← EvalM.read fun s => operand? s .splice item with
  | some operand =>
    if level = 0 then
      let v ← (ev context).form operand
      splice builder v
    else
      let v ← retag .splice (expand (level - 1) operand)
      lists.push builder v
  | none =>
    let v ← expand level item
    lists.push builder v

/-- Expand the rest of a list of at most `n` cells. Each cell is looked at when its turn comes. A
tail that is an unquote is expanded as a form; the list as a whole was looked at before, so its
first cell is no tail. -/
def elements (ev : Evaluators) (context : Value) (expand : Nat → Value → EvalM Value)
    (level : Nat) : Nat → Bool → lists.Builder → Value → EvalM Value
  | 0, _, _, _ => throw .spent
  | n + 1, isTail, builder, rest => do
    let unquoted ← EvalM.read fun s => operand? s .unquote rest
    if isTail && unquoted.isSome then
      let v ← expand level rest
      lists.finish builder v
    else
      match rest with
      | .cons id =>
        let item ← EvalM.read fun s => s.car id
        let builder ← element ev context expand level builder item
        let rest ← EvalM.read fun s => s.cdr id
        elements ev context expand level n true builder rest
      | tail => lists.finish builder tail

/-- One level of expansion, with `expand` for what is below and lists of at most `n` cells. -/
def step (ev : Evaluators) (context : Value) (n : Nat) (expand : Nat → Value → EvalM Value)
    (level : Nat) (form : Value) : EvalM Value := do
  match form with
  | .cons _ =>
    match ← EvalM.read fun s => operand? s .unquote form with
    | some operand =>
      if level = 0 then (ev context).form operand else retag .unquote (expand (level - 1) operand)
    | none =>
      match ← EvalM.read fun s => operand? s .splice form with
      | some operand =>
        if level = 0 then misplacedSplice form else retag .splice (expand (level - 1) operand)
      | none =>
        match ← EvalM.read fun s => operand? s .backquote form with
        | some operand => retag .backquote (expand (level + 1) operand)
        | none => elements ev context expand level n false lists.start form
  | atom => pure atom

/-- Expand a form at a level; `n` bounds the nesting of its forms and the length of its lists. -/
def expand (ev : Evaluators) (context : Value) : Nat → Nat → Value → EvalM Value
  | 0, _, _ => throw .spent
  | n + 1, level, form => step ev context n (expand ev context n) level form

/-- Expand the operand of a backquote. -/
def fill (ev : Evaluators) (context : Value) (n : Nat) (form : Value) : EvalM Value := do
  match ← EvalM.read fun s => operand? s .splice form with
  | some _ => misplacedSplice form
  | none => expand ev context n 0 form

end Lists

end SmallLisp.Template
