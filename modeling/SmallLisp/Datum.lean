import SmallLisp.Number

/-!
# Data as read

What text denotes before any symbol of it is looked up: names stay names. A datum becomes a value
only when it is interned, so the namespace that is current at that moment decides what its symbols
are.
-/

namespace SmallLisp

/-- A symbol as it is written, in upper case. -/
inductive SymbolName where
  | plain (name : String)
  /-- A name after a colon. -/
  | keyword (name : String)
  /-- A name that another namespace exports, after that namespace and a colon. -/
  | exported (container : String) (name : String)
  /-- A name inside another namespace, after that namespace and two colons. -/
  | interned (container : String) (name : String)
deriving DecidableEq, Repr

/-- The marks that may precede a datum. -/
inductive QuoteKind where
  | quote | backquote | unquote | splice
deriving DecidableEq, Repr

inductive Datum where
  | number (n : Number)
  | string (s : String)
  | character (c : Char)
  | symbol (name : SymbolName)
  | list (items : List Datum)
  /-- A list whose last cell holds a tail; it has at least one item. -/
  | dotted (items : List Datum) (tail : Datum)
  | quoted (kind : QuoteKind) (operand : Datum)
deriving Repr

end SmallLisp
