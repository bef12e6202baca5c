import SmallLisp.Flow
import SmallLisp.Text.Uppercase

/-!
# Names and symbols of an interpreter

How names become symbols: in the current namespace, as keywords, or qualified by a namespace. An
operation either fails and changes nothing, or answers with the new state. A namespace is registered
under its own name, once; none is ever removed.
-/

namespace SmallLisp

namespace Interp

/-- Put the outcome of an operation on one namespace into the state. -/
def commit (s : Interp) (id : NamespaceId) :
    SymbolId × Namespace × SymbolStore → SymbolId × Interp
  | (symbol, ns, symbols) => (symbol, { s with symbols := symbols }.setNamespace id ns)

/-- Find or create a name in a namespace. -/
def internIn (s : Interp) (id : NamespaceId) (name : String) :
    Except NamespaceFault (SymbolId × Interp) :=
  ((s.namespaceAt id).intern s.symbols name).map (s.commit id)

def intern (s : Interp) (name : String) : Except NamespaceFault (SymbolId × Interp) :=
  s.internIn s.current name

/-- Find or create a keyword. A new keyword is bound to itself in the global scope. -/
def internKeyword (s : Interp) (name : String) : Except NamespaceFault (SymbolId × Interp) :=
  match (s.namespaceAt .keywords).find? name with
  | some id => .ok (id, s)
  | none => (s.internIn .keywords name).map fun (id, s) => (id, s.bindGlobal id (.symbol id))

def namespaceNamed (s : Interp) (name : String) : Except NamespaceFault NamespaceId :=
  match s.findNamespace? name with
  | some id => .ok id
  | none => .error (.undefined name)

/-- A name that a namespace exports. -/
def findExported (s : Interp) (container name : String) : Except NamespaceFault SymbolId :=
  match s.namespaceNamed container with
  | .error cause => .error cause
  | .ok id =>
    match (s.namespaceAt id).findExported? name with
    | some symbol => .ok symbol
    | none => .error (.notExported name container)

/-- A name inside a namespace, created there if need be. -/
def findInterned (s : Interp) (container name : String) :
    Except NamespaceFault (SymbolId × Interp) :=
  match s.namespaceNamed container with
  | .error cause => .error cause
  | .ok id => if id = .keywords then s.internKeyword name else s.internIn id name

/-- Create a symbol under a name in a namespace, whatever was there before. -/
def defineIn (s : Interp) (id : NamespaceId) (name : String) (reserved : Bool)
    (selfValue : Option Value) (exporting : Bool) : SymbolId × Interp :=
  s.commit id ((s.namespaceAt id).define s.symbols name reserved selfValue exporting)

def shadowIn (s : Interp) (id : NamespaceId) (name : String) : SymbolId × Interp :=
  s.commit id ((s.namespaceAt id).shadow s.symbols name)

def exportIn (s : Interp) (id : NamespaceId) (name : String) :
    Except NamespaceFault (SymbolId × Interp) :=
  ((s.namespaceAt id).exportSymbol name).map fun (symbol, ns) => (symbol, s.setNamespace id ns)

/-- Put an existing symbol into a namespace under its own name. -/
def addTo (s : Interp) (id : NamespaceId) (symbol : SymbolId) (exporting : Bool) : Interp :=
  s.setNamespace id ((s.namespaceAt id).add (s.symbol symbol).name symbol exporting)

/-- Let a namespace take over every exported symbol of another one. -/
def useIn (s : Interp) (id other : NamespaceId) : Interp :=
  s.setNamespace id ((s.namespaceAt id).use (s.namespaceAt other))

/-- Let a namespace take over one exported symbol of another one. -/
def importIn (s : Interp) (id other : NamespaceId) (name : String) : Bool × Interp :=
  match (s.namespaceAt id).importSymbol? name (s.namespaceAt other) with
  | some ns => (true, s.setNamespace id ns)
  | none => (false, s)

/-- Register a namespace, unless its name is taken. -/
def addNamespace (s : Interp) (ns : Namespace) : Except NamespaceFault (NamespaceId × Interp) :=
  match s.findNamespace? ns.name with
  | some _ => .error (.taken ns.name)
  | none => .ok (⟨s.namespaces.size⟩, { s with namespaces := s.namespaces.push ns })

/-- Make a namespace current. A locked one can not be. -/
def changeNamespace (s : Interp) (name : String) : Except NamespaceFault (NamespaceId × Interp) :=
  match s.namespaceNamed name with
  | .error cause => .error cause
  | .ok id =>
    if (s.namespaceAt id).canIntern then .ok (id, { s with current := id })
    else .error (.locked name)

/-- Let the current namespace take over the exports of the named one. Using itself changes
nothing. -/
def useNamed (s : Interp) (name : String) : Except NamespaceFault (NamespaceId × Interp) :=
  match s.namespaceNamed name with
  | .error cause => .error cause
  | .ok id => .ok (id, if id = s.current then s else s.useIn s.current id)

/-- A new symbol outside every namespace. -/
def generate (s : Interp) : SymbolId × Interp :=
  let n := s.generated + 1
  let (id, symbols) := s.symbols.create (Symbol.generated ("G" ++ toString n))
  (id, { s with symbols := symbols, generated := n })

/-- The symbol of a name of the standard library, created as a reserved and exported one if need
be. -/
def systemSymbol (s : Interp) (name : String) : SymbolId × Interp :=
  match (s.namespaceAt .system).find? name with
  | some id => (id, s)
  | none => s.defineIn .system name true none true

/-- Install a function of the host under its name: in the standard library, as a global binding,
and in every namespace that uses the standard library. -/
def register (s : Interp) (f : HostFunction) : SymbolId × Interp :=
  let (symbol, s) := s.systemSymbol f.name
  let (value, s) := s.allocCallable (.host f)
  let s := s.bindGlobal symbol value
  let name := (s.symbol symbol).name
  let visible (ns : Namespace) :=
    if systemName ∈ ns.uses then ns.add name symbol false else ns
  (symbol, { s with namespaces := s.namespaces.map visible })

/-- A function of the host, with the name in upper case as the reader writes names. -/
def hostFunction (name : String) (minArgs : Nat) (evaluatesArguments : Bool) (program : String) :
    HostFunction :=
  ⟨Text.uppercase name, minArgs, evaluatesArguments, program⟩

end Interp

end SmallLisp
