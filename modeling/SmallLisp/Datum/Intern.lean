import SmallLisp.Datum.Reader
import SmallLisp.Naming
import SmallLisp.Sequence

/-!
# Interning data

A datum becomes a value: its names are looked up or created from left to right in the namespaces of
that moment, and its lists are allocated. A symbol that has a value of its own, such as `NIL`, is
replaced by that value.
-/

namespace SmallLisp

namespace Interp

/-- The symbol that a name denotes. -/
def resolve (s : Interp) : SymbolName → Except NamespaceFault (SymbolId × Interp)
  | .plain name => s.intern name
  | .keyword name => s.internKeyword name
  | .exported container name => (s.findExported container name).map fun id => (id, s)
  | .interned container name => s.findInterned container name

end Interp

/-- The head of the form that a quotation mark stands for. -/
def QuoteKind.symbol : QuoteKind → SymbolId
  | .quote => .quote
  | .backquote => .backquote
  | .unquote => .unquote
  | .splice => .splice

section Lists

variable [lists : ListBuilding]

mutual

def Datum.intern : Datum → EvalM Value
  | .number n => pure (.number n)
  | .string t => pure (.string t)
  | .character c => pure (.character c)
  | .symbol name => do
    let id ← EvalM.namespaceStep fun s => s.resolve name
    let symbol ← EvalM.read fun s => s.symbol id
    pure (symbol.selfValue.getD (.symbol id))
  | .list items => do
    let builder ← Datum.internAll lists.start items
    lists.finish builder .nil
  | .dotted items tail => do
    let builder ← Datum.internAll lists.start items
    let tail ← tail.intern
    lists.finish builder tail
  | .quoted kind operand => do
    let v ← operand.intern
    EvalM.list [.symbol kind.symbol, v]

/-- Intern data in order, adding them to a list under construction. -/
def Datum.internAll (builder : lists.Builder) : List Datum → EvalM lists.Builder
  | [] => pure builder
  | d :: rest => do
    let v ← d.intern
    let builder ← lists.push builder v
    Datum.internAll builder rest

end

end Lists

/-- The data of a text, or a fault. -/
def EvalM.readText (source : String) : EvalM (List Datum) :=
  match readData .standard source with
  | .ok data => pure data
  | .error fault => EvalM.fail fault

/-- Read a text and intern all of it in the namespace that is current now. -/
def EvalM.readValues (source : String) : EvalM (List Value) := do
  let data ← EvalM.readText source
  data.mapM Datum.intern

end SmallLisp
