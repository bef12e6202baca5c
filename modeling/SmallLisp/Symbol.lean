import SmallLisp.Value

/-!
# Symbols

A symbol is known by its address, not by its name: two symbols of one name are different binding
targets. The eight symbols that evaluation itself refers to have fixed addresses.
-/

namespace SmallLisp

structure Symbol where
  name : String
  /-- Reserved symbols can not be bound, assigned or used as parameters. -/
  reserved : Bool
  /-- False for generated symbols only. -/
  interned : Bool
  keyword : Bool
  /-- The value that reading yields in place of the symbol. -/
  selfValue : Option Value
deriving DecidableEq, Repr, Inhabited

namespace Symbol

/-- A symbol that belongs to a namespace. -/
def named (name : String) (reserved : Bool) (selfValue : Option Value) : Symbol :=
  ⟨name, reserved, true, false, selfValue⟩

/-- A keyword is reserved and stands for itself. -/
def keywordNamed (name : String) : Symbol := ⟨name, true, true, true, none⟩

def generated (name : String) : Symbol := ⟨name, false, false, false, none⟩

/-- The text of a symbol: a keyword with its colon, a generated symbol with `#:`. -/
def render (s : Symbol) : List Char :=
  if s.keyword then ':' :: s.name.toList
  else if s.interned then s.name.toList
  else '#' :: ':' :: s.name.toList

end Symbol

namespace SymbolId

/-- The symbol that reads as the empty list. -/
def nilSymbol : SymbolId := ⟨0⟩

/-- The symbol that reads as the true value. -/
def trueSymbol : SymbolId := ⟨1⟩

/-- Bound in a frame to the arguments left over after the parameters. -/
def rest : SymbolId := ⟨2⟩

/-- Bound in the frame of a lambda to the lambda. -/
def self : SymbolId := ⟨3⟩

/-- The head of a form read from the mark for quotation. -/
def quote : SymbolId := ⟨4⟩

/-- The head of a template. -/
def backquote : SymbolId := ⟨5⟩

/-- The head of a form to be evaluated inside a template. -/
def unquote : SymbolId := ⟨6⟩

/-- The head of a form whose value is spliced into a list of a template. -/
def splice : SymbolId := ⟨7⟩

end SymbolId

end SmallLisp
