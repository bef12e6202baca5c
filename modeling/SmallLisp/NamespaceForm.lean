import SmallLisp.Naming
import SmallLisp.Printer

/-!
# Forms that work on namespaces

`NAMESPACE` builds a namespace from its clauses and registers it at the end: either every clause
succeeds and there is one more namespace, or nothing has changed.
-/

namespace SmallLisp.NamespaceForm

/-- A name in a clause: a symbol by its name, a string in upper case. -/
def nameOf (s : Interp) : Value → Except Fault String
  | .symbol x => .ok (s.symbol x).name
  | .string t => .ok (Text.uppercase t)
  | other => .error (.type (.namespaceName (s.print other)) none)

/-- The names of a list of values, if all of them are names. -/
def namesOf (s : Interp) : List Value → Except Fault (List String)
  | [] => .ok []
  | v :: rest =>
    match nameOf s v with
    | .error fault => .error fault
    | .ok name => (namesOf s rest).map (name :: ·)

/-- A namespace under construction, with the symbols that exist by then. -/
structure Draft where
  names : Namespace
  symbols : SymbolStore

namespace Draft

/-- Take over all exports of the named namespaces. -/
def useAll (s : Interp) (d : Draft) : List String → Except NamespaceFault Draft
  | [] => .ok d
  | name :: rest =>
    match s.namespaceNamed name with
    | .error cause => .error cause
    | .ok id => useAll s { d with names := d.names.use (s.namespaceAt id) } rest

/-- Create the names if need be, and export them. -/
def exportAll (d : Draft) : List String → Except NamespaceFault Draft
  | [] => .ok d
  | name :: rest =>
    match d.names.intern d.symbols name with
    | .error cause => .error cause
    | .ok (_, names, symbols) =>
      match names.exportSymbol name with
      | .error cause => .error cause
      | .ok (_, names) => exportAll ⟨names, symbols⟩ rest

/-- Take over single exports of a namespace. -/
def importAll (other : Namespace) (d : Draft) : List String → Except NamespaceFault Draft
  | [] => .ok d
  | name :: rest =>
    match d.names.importSymbol? name other with
    | none => .error (.importSymbol other.name name)
    | some names => importAll other { d with names := names } rest

/-- Replace the names by new symbols. -/
def shadowAll (d : Draft) : List String → Draft
  | [] => d
  | name :: rest =>
    let (_, names, symbols) := d.names.shadow d.symbols name
    shadowAll ⟨names, symbols⟩ rest

/-- Carry out a clause, given as its names. -/
def clause (s : Interp) (d : Draft) : List String → Except NamespaceFault Draft
  | [] => .ok d
  | keyword :: operands =>
    if keyword = "USE" then useAll s d operands
    else if keyword = "EXPORT" then exportAll d operands
    else if keyword = "IMPORT-FROM" then
      match operands with
      | [] => .ok d
      | container :: names =>
        match s.findNamespace? container with
        | none => .error (.importSource container)
        | some id => importAll (s.namespaceAt id) d names
    else if keyword = "SHADOW" then .ok (shadowAll d operands)
    else .error (.unknownClause keyword)

/-- Carry out clauses in order. A clause is a proper list of names. -/
def clauses (s : Interp) (d : Draft) : List Value → Except Fault Draft
  | [] => .ok d
  | .cons id :: rest =>
    match s.properElements? (.cons id) with
    | none => .error (.type (.properList (s.print (.cons id))) none)
    | some items =>
      match namesOf s items with
      | .error _ => .error (.namespaces (.clauseNames (s.print (.cons id))))
      | .ok names =>
        match clause s d names with
        | .error cause => .error (.namespaces cause)
        | .ok d => clauses s d rest
  | other :: _ => .error (.namespaces (.illegalClause (s.print other)))

end Draft

def create (s : Interp) (arguments : Value) : Except Fault (NamespaceId × Interp) :=
  match nameOf s (s.first arguments) with
  | .error fault => .error fault
  | .ok name =>
    let draft : Draft := ⟨.fresh name true, s.symbols⟩
    match draft.clauses s (s.elementsOf (s.rest arguments)) with
    | .error fault => .error fault
    | .ok d =>
      match { s with symbols := d.symbols }.addNamespace d.names with
      | .error cause => .error (.namespaces cause)
      | .ok result => .ok result

/-- An operation on the namespace that the first argument names. -/
def onNamed (operation : Interp → String → Except NamespaceFault (NamespaceId × Interp))
    (s : Interp) (arguments : Value) : Except Fault (NamespaceId × Interp) :=
  match nameOf s (s.first arguments) with
  | .error fault => .error fault
  | .ok name =>
    match operation s name with
    | .error cause => .error (.namespaces cause)
    | .ok result => .ok result

/-- The namespace that an operation answers with, as a value. -/
def answer (operation : Interp → Value → Except Fault (NamespaceId × Interp)) (arguments : Value) :
    EvalM Value := fun s =>
  match operation s arguments with
  | .ok (id, s) => .ok (.names id) s
  | .error fault => .error (.fault fault) s

end SmallLisp.NamespaceForm
