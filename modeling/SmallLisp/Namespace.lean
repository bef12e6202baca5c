import SmallLisp.Fault
import SmallLisp.Symbol
import SmallLisp.Table

/-!
# Namespaces

A namespace maps names to symbols. Some of its symbols are exported, which lets other namespaces
take them over. A locked namespace refuses new symbols through `intern` but accepts explicit
definitions. Operations that create symbols take the symbol store and give back the longer one, so
that a namespace can be built in full before anything else sees it.
-/

namespace SmallLisp

/-- Every symbol that exists, at its address. -/
abbrev SymbolStore := Array Symbol

/-- A named container of symbols. -/
structure Namespace where
  name : String
  interned : Table String SymbolId
  exported : Table String SymbolId
  /-- False for a locked namespace. -/
  canIntern : Bool
  /-- Whether new symbols are keywords, exported at once. -/
  keywords : Bool
  /-- Names of the namespaces whose exports were taken over as a whole. -/
  uses : List String
deriving Repr, Inhabited

namespace SymbolStore

def create (symbols : SymbolStore) (s : Symbol) : SymbolId × SymbolStore :=
  (⟨symbols.size⟩, symbols.push s)

end SymbolStore

namespace Namespace

def fresh (name : String) (canIntern : Bool) : Namespace :=
  ⟨name, .empty, .empty, canIntern, false, []⟩

/-- The symbol a name stands for inside the namespace. -/
def find? (ns : Namespace) (name : String) : Option SymbolId := ns.interned.find? name

/-- The symbol a name stands for outside the namespace. -/
def findExported? (ns : Namespace) (name : String) : Option SymbolId := ns.exported.find? name

/-- Put a symbol under a name, replacing what was there. -/
def add (ns : Namespace) (name : String) (id : SymbolId) (exporting : Bool) : Namespace :=
  { ns with
    exported := if exporting then ns.exported.insert name id else ns.exported
    interned := ns.interned.insert name id }

/-- Find the symbol of a name, or create it; a locked namespace refuses to create. -/
def intern (ns : Namespace) (symbols : SymbolStore) (name : String) :
    Except NamespaceFault (SymbolId × Namespace × SymbolStore) :=
  match ns.find? name with
  | some id => .ok (id, ns, symbols)
  | none =>
    if ns.canIntern then
      let symbol := if ns.keywords then Symbol.keywordNamed name else Symbol.named name false none
      let (id, symbols) := symbols.create symbol
      .ok (id, ns.add name id ns.keywords, symbols)
    else .error (.lockedIntern name ns.name)

/-- Create a symbol under a name, whatever was there before. -/
def define (ns : Namespace) (symbols : SymbolStore) (name : String) (reserved : Bool)
    (selfValue : Option Value) (exporting : Bool) : SymbolId × Namespace × SymbolStore :=
  let (id, symbols) := symbols.create (Symbol.named name reserved selfValue)
  (id, ns.add name id exporting, symbols)

/-- Replace what a name stood for by a new symbol of this namespace. -/
def shadow (ns : Namespace) (symbols : SymbolStore) (name : String) :
    SymbolId × Namespace × SymbolStore :=
  ns.define symbols name false none false

def exportSymbol (ns : Namespace) (name : String) : Except NamespaceFault (SymbolId × Namespace) :=
  match ns.find? name with
  | some id => .ok (id, { ns with exported := ns.exported.insert name id })
  | none => .error (.notInterned name ns.name)

/-- Take over every exported symbol of another namespace. -/
def use (ns other : Namespace) : Namespace :=
  { ns with
    interned := ns.interned.insertAll other.exported
    uses := if other.name ∈ ns.uses then ns.uses else ns.uses ++ [other.name] }

/-- Take over one exported symbol of another namespace. -/
def importSymbol? (ns : Namespace) (name : String) (other : Namespace) : Option Namespace :=
  (other.findExported? name).map fun id => { ns with interned := ns.interned.insert name id }

end Namespace

end SmallLisp
