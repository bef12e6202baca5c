import SmallLisp.Interp

/-!
# How an evaluation ends

An evaluation changes the state and ends with a value, with a fault or with a signal, or it is
aborted: its fuel is spent, or the interpreter panics. A signal is an exit on its way to a frame; it
carries the depth of the frame it aims at, and only that frame takes it. Nothing takes an abort.
Effects made before a failure stay: `EvalM` keeps the state on every ending.

`inScope` and `inFrame` restore the scope chain and a depth counter on every ending.
-/

namespace SmallLisp

/-- An exit on its way to its frame. -/
inductive Signal where
  /-- Ends a lambda or an expander with a value. -/
  | returning (value : Value) (depth : Nat)
  /-- Ends a loop. -/
  | breaking (depth : Nat)
  /-- Ends a protected form with a text. -/
  | throwing (text : String) (depth : Nat)
deriving DecidableEq, Repr

/-- The depth of the frame that a signal aims at. -/
def Signal.depth : Signal → Nat
  | .returning _ depth | .breaking depth | .throwing _ depth => depth

/-- The counter whose frames a signal can aim at. -/
def Signal.key : Signal → DepthKey
  | .returning .. => .call
  | .breaking .. => .loop
  | .throwing .. => .guarded

/-- Why a run stops without an ending of the language. -/
inductive Abort where
  /-- The fuel is spent; nothing is known about the answer. -/
  | spent
  /-- The interpreter panics: it comes back to a collection that it is assigning to. -/
  | panicked
deriving DecidableEq, Repr

/-- Why an evaluation does not end with a value. -/
inductive Flow where
  | fault (fault : Fault)
  | signal (signal : Signal)
  | aborted (why : Abort)
deriving DecidableEq, Repr

@[match_pattern]
abbrev Flow.spent : Flow := .aborted .spent

@[match_pattern]
abbrev Flow.panicked : Flow := .aborted .panicked

/-- The pattern of an abort for any reason. -/
@[match_pattern]
abbrev Flow.exhausted {why : Abort} : Flow := .aborted why

/-- A flow that the language knows. -/
inductive Stop where
  | fault (fault : Fault)
  | signal (signal : Signal)
deriving DecidableEq, Repr

def Stop.flow : Stop → Flow
  | .fault cause => .fault cause
  | .signal exit => .signal exit

/-- How an evaluation ends in the language. -/
abbrev Ending (α : Type) := Except Stop α

/-- An evaluation: a change of the state that ends with a value or with a flow. -/
abbrev EvalM := EStateM Flow Interp

namespace EvalM

variable {α : Type}

/-- End in a given way. -/
def resume : Ending α → EvalM α
  | .ok a => pure a
  | .error stop => throw stop.flow

/-- From `s` on, `act` ends in this way and leaves `s'`. -/
def Ends (act : EvalM α) (s : Interp) (ending : Ending α) (s' : Interp) : Prop :=
  act s = resume ending s'

def fail (fault : Fault) : EvalM α := throw (.fault fault)

def failEvaluation (cause : EvaluationFault) : EvalM α := fail (.evaluation cause none)

def failType (cause : TypeFault) : EvalM α := fail (.type cause none)

def exit (signal : Signal) : EvalM α := throw (.signal signal)

/-- Read something off the state. -/
@[inline]
def read (f : Interp → α) : EvalM α := fun s => .ok (f s) s

@[inline]
def update (f : Interp → Interp) : EvalM Unit := fun s => .ok () (f s)

/-- Change the state with an answer. -/
@[inline]
def step (f : Interp → α × Interp) : EvalM α := fun s =>
  match f s with
  | (a, s) => .ok a s

/-- An answer or a namespace fault, computed from the state. -/
@[inline]
def namespaceStep (f : Interp → Except NamespaceFault (α × Interp)) : EvalM α := fun s =>
  match f s with
  | .ok (a, s) => .ok a s
  | .error cause => .error (.fault (.namespaces cause)) s

/-- Run with a scope pushed, and pop it on every ending. -/
@[inline]
def inScope (id : ScopeId) (act : EvalM α) : EvalM α := fun s =>
  match act (s.pushScope id) with
  | .ok a s => .ok a s.popScope
  | .error flow s => .error flow s.popScope

/-- Run inside a frame, and leave it on every ending. -/
@[inline]
def inFrame (key : DepthKey) (act : EvalM α) : EvalM α := fun s =>
  match act { s with depths := s.depths.enter key } with
  | .ok a s => .ok a { s with depths := s.depths.leave key }
  | .error flow s => .error flow { s with depths := s.depths.leave key }

/-- Count one more active evaluation while running; at the limit, fail at once. -/
@[inline]
def withinLimit (act : EvalM α) : EvalM α := fun s =>
  if s.limit ≤ s.active then .error (.fault (.evaluation (.depthLimit s.limit) none)) s
  else
    match act { s with active := s.active + 1 } with
    | .ok a s => .ok a { s with active := s.active - 1 }
    | .error flow s => .error flow { s with active := s.active - 1 }

end EvalM

end SmallLisp
