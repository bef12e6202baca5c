import SmallLisp.Request
import SmallLisp.Text.Uppercase

/-!
# Host functions

A function of the host is a small program: it may look at the state, make cells, have forms
evaluated, bodies run and functions applied with a context of its choice, and it ends with a value,
a fault or a signal. It can not change the state by itself, but for the cells that it makes. How
each of its requests ended is handed to it, so it may pass an ending on, replace it, or go on after
it; only an abort ends it at once.

The context is the value that was handed to the evaluation as a whole; host programs are the only
ones that see it.
-/

namespace SmallLisp

/-- Work that a program of the host asks for. -/
inductive HostRequest where
  | evaluate (form : Value)
  /-- Evaluate every element of a list into a fresh list. -/
  | evaluateAll (forms : Value)
  | runBody (forms : Value)
  | apply (f : FunctionId) (arguments : Value)
deriving DecidableEq, Repr

def HostRequest.run [ListBuilding] (ev : Evaluators) (context : Value) : HostRequest → EvalM Value
  | .evaluate form => (ev context).form form
  | .evaluateAll forms => ev.list context forms
  | .runBody forms => ev.body context forms
  | .apply f arguments => ev context (.apply f arguments)

inductive HostProgram where
  | finish (ending : Ending Value)
  | inspect (next : Interp → HostProgram)
  /-- Make a cell, which goes to what follows. -/
  | construct (car cdr : Value) (next : Value → HostProgram)
  | ask (context : Value) (request : HostRequest) (next : Ending Value → HostProgram)

/-- Run a program. -/
def HostProgram.run [ListBuilding] (ev : Evaluators) : HostProgram → EvalM Value
  | .finish ending => EvalM.resume ending
  | .inspect next => fun s => (next s).run ev s
  | .construct car cdr next => fun s =>
    match s.allocCell car cdr with
    | (v, s) => (next v).run ev s
  | .ask context request next => fun s =>
    match request.run ev context s with
    | .ok v s => (next (.ok v)).run ev s
    | .error (.fault fault) s => (next (.error (.fault fault))).run ev s
    | .error (.signal signal) s => (next (.error (.signal signal))).run ev s
    | .error (.aborted why) s => .error (.aborted why) s

/-- The programs that a host offers, by name: arguments and context to the program that runs. -/
abbrev HostTable := String → Value → Value → HostProgram

namespace HostProgram

def answer (v : Value) : HostProgram := .finish (.ok v)

def fail (fault : Fault) : HostProgram := .finish (.error (.fault fault))

def failEvaluation (text : String) : HostProgram := fail (.evaluation (.host text) none)

def failType (text : String) : HostProgram := fail (.type (.host text) none)

def arguments (arguments _context : Value) : HostProgram := answer arguments

def context (_arguments context : Value) : HostProgram := answer context

def shout (arguments _context : Value) : HostProgram :=
  .inspect fun s =>
    match s.car? arguments with
    | some (.string t) => answer (.string (Text.uppercase t))
    | _ => failType "shout expected a string"

/-- How many symbols the scopes above the global one bind. -/
def capturedSize (_arguments _context : Value) : HostProgram :=
  .inspect fun s => answer (.ofNat s.captured.size)

def sequence (arguments context : Value) : HostProgram := .ask context (.runBody arguments) .finish

/-- The first argument applied to the list that is the second one. -/
def applyFirst (arguments context : Value) : HostProgram :=
  .inspect fun s =>
    match s.car? arguments with
    | some (.function f) => .ask context (.apply f (s.second arguments)) .finish
    | _ => failType "apply expected a function"

/-- The value of the first argument in an inner context. -/
def evaluateInner (arguments _context : Value) : HostProgram :=
  .inspect fun s => .ask (.string "inner") (.evaluate (s.first arguments)) .finish

/-- The demonstration programs of the library. Every other name fails. -/
def demonstration : HostTable := fun name =>
  if name = "args" then arguments
  else if name = "context" then context
  else if name = "shout" then shout
  else if name = "captured" then capturedSize
  else if name = "body" then sequence
  else if name = "apply" then applyFirst
  else if name = "with" then evaluateInner
  else fun _ _ => failEvaluation "host failure"

end HostProgram

end SmallLisp
