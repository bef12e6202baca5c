import SmallLisp.Primitive
import SmallLisp.Symbol

/-!
# Callable objects

Everything that can stand at the head of a form: operations of the standard library, functions that
the host registered, lambdas and macro expanders. All of them declare how many arguments they need
at least and whether these are evaluated before the call, so a special form is an ordinary function
object with unevaluated arguments.
-/

namespace SmallLisp

/-- What a lambda and a macro expander have in common. -/
structure Closure where
  parameters : List SymbolId
  /-- The flattened copy of the scopes that were active at creation. -/
  captured : ScopeId
  body : Value
deriving DecidableEq, Repr, Inhabited

/-- A function of the host, as it was registered. -/
structure HostFunction where
  name : String
  minArgs : Nat
  evaluatesArguments : Bool
  /-- Which of the host's programs runs when the function is called. -/
  program : String
deriving DecidableEq, Repr, Inhabited

inductive Callable where
  | primitive (op : Primitive)
  | host (f : HostFunction)
  | lambda (c : Closure)
  | expander (c : Closure)
deriving DecidableEq, Repr

instance : Inhabited Callable := ⟨.primitive .list⟩

namespace Callable

def minArgs : Callable → Nat
  | .primitive op => op.minArgs
  | .host f => f.minArgs
  | .lambda c | .expander c => c.parameters.length

def evaluatesArguments : Callable → Bool
  | .primitive op => op.evaluatesArguments
  | .host f => f.evaluatesArguments
  | .lambda _ => true
  | .expander _ => false

/-- The name of a function that was installed under one. -/
def name? : Callable → Option String
  | .primitive op => some op.name
  | .host f => some f.name
  | .lambda _ | .expander _ => none

/-- The closure of a lambda or an expander. -/
def closure? : Callable → Option Closure
  | .lambda c | .expander c => some c
  | .primitive _ | .host _ => none

/-- Whether forms with this function at their head can be assigned to. -/
def isPlace : Callable → Bool
  | .primitive op => op.kind == .place
  | _ => false

end Callable

end SmallLisp
