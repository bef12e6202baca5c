import SmallLisp.Fault
import SmallLisp.Number

/-!
# Arithmetic

The five operations fold their arguments from the left. Two integers give the exact integer result
or a fault; as soon as a double takes part, the operation is that of doubles. A zero divisor of
either representation is a fault. `toInt_of_onInt64?` says that an integer step never wraps.

The arguments of a fold, a comparison or an extremum are read one at a time: what is wrong with a
later one is never seen when an earlier step fails.
-/

namespace SmallLisp

inductive Arithmetic where
  | add | subtract | multiply | divide | remainder
deriving DecidableEq, Repr

namespace Arithmetic

/-- The operator as it is written. -/
def operator : Arithmetic → String
  | .add => "+"
  | .subtract => "-"
  | .multiply => "*"
  | .divide => "/"
  | .remainder => "%"

/-- The result on integers; quotients are truncated toward zero. -/
def onInt : Arithmetic → Int → Int → Int
  | .add, x, y => x + y
  | .subtract, x, y => x - y
  | .multiply, x, y => x * y
  | .divide, x, y => x.tdiv y
  | .remainder, x, y => x.tmod y

def onBinary64 : Arithmetic → Binary64 → Binary64 → Binary64
  | .add => .add
  | .subtract => .sub
  | .multiply => .mul
  | .divide => .div
  | .remainder => .rem

def divides : Arithmetic → Bool
  | .divide | .remainder => true
  | _ => false

/-- The 64-bit result, if there is one. The remainder of the least integer by -1 is refused although
it is zero, because its quotient does not fit. -/
def onInt64? (op : Arithmetic) (x y : Int64) : Option Int64 :=
  let result := op.onInt x.toInt y.toInt
  let refused := op == .remainder && x == Int64.minValue && y == -1
  if Number.fits result && !refused then some (Int64.ofInt result) else none

/-- An integer step gives the exact result. -/
theorem toInt_of_onInt64? {op : Arithmetic} {x y r : Int64} (h : op.onInt64? x y = some r) :
    r.toInt = op.onInt x.toInt y.toInt := by
  simp only [onInt64?, Option.ite_none_right_eq_some, Bool.and_eq_true, Option.some.injEq] at h
  obtain ⟨⟨hfits, -⟩, rfl⟩ := h
  exact Number.toInt_ofInt_of_fits hfits

/-- One step of a fold. -/
def step (op : Arithmetic) (a b : Number) : Except Fault Number :=
  if op.divides && b.isZero then .error (.evaluation (.divisionByZero op.operator) none)
  else
    match a, b with
    | .int x, .int y =>
      match op.onInt64? x y with
      | some r => .ok (.int r)
      | none => .error (.evaluation (.overflow op.operator) none)
    | a, b => .ok (.float (op.onBinary64 a.toBinary64 b.toBinary64))

/-- The number that leaves the other operand of an operation as it is. -/
def identity : Arithmetic → Number
  | .add | .subtract => .int 0
  | .multiply | .divide | .remainder => .int 1

/-- Whether a single argument is combined with the identity first. -/
def invertsSingle : Arithmetic → Bool
  | .subtract | .divide => true
  | _ => false

variable {α : Type}

/-- Fold from the left, starting from `acc` and reading each argument when its turn comes. -/
def foldFrom (op : Arithmetic) (read : α → Except Fault Number) (acc : Number) :
    List α → Except Fault Number
  | [] => .ok acc
  | a :: rest =>
    match read a with
    | .error fault => .error fault
    | .ok n =>
      match op.step acc n with
      | .error fault => .error fault
      | .ok r => op.foldFrom read r rest

/-- Fold a list of arguments. No argument gives the identity, and a single one is subtracted from
zero or divides one. -/
def fold (op : Arithmetic) (read : α → Except Fault Number) : List α → Except Fault Number
  | [] => .ok op.identity
  | [a] =>
    match read a with
    | .error fault => .error fault
    | .ok n => if op.invertsSingle then op.step op.identity n else .ok n
  | a :: rest =>
    match read a with
    | .error fault => .error fault
    | .ok n => op.foldFrom read n rest

end Arithmetic

inductive Comparison where
  | less | lessEqual | greater | greaterEqual
deriving DecidableEq, Repr

namespace Comparison

/-- The operator as it is written. -/
def operator : Comparison → String
  | .less => "<"
  | .lessEqual => "<="
  | .greater => ">"
  | .greaterEqual => ">="

/-- Whether two neighbours with this order satisfy the comparison. -/
def accepts : Comparison → Ordering → Bool
  | .less, o => o == .lt
  | .lessEqual, o => o != .gt
  | .greater, o => o == .gt
  | .greaterEqual, o => o != .lt

/-- Whether two neighbours satisfy the comparison; with NaN nothing does. -/
def holds (op : Comparison) (a b : Number) : Bool := (a.compare? b).any op.accepts

variable {α : Type}

/-- Whether each argument satisfies the comparison with the one after it, starting from `previous`.
The first pair that does not ends the chain. -/
def chainFrom (op : Comparison) (read : α → Except Fault Number) (previous : Number) :
    List α → Except Fault Bool
  | [] => .ok true
  | a :: rest =>
    match read a with
    | .error fault => .error fault
    | .ok n => if op.holds previous n then op.chainFrom read n rest else .ok false

end Comparison

/-- Which end of an order is wanted. -/
inductive Extremum where
  | max | min
deriving DecidableEq, Repr

namespace Extremum

/-- The operator as it is written. -/
def operator : Extremum → String
  | .max => "MAX"
  | .min => "MIN"

/-- How a better candidate compares with the best so far. -/
def better : Extremum → Ordering
  | .max => .gt
  | .min => .lt

/-- The better of two numbers, the first one if neither is. -/
def pick (op : Extremum) (best candidate : Number) : Number :=
  if candidate.compare? best = some op.better then candidate else best

variable {α : Type}

/-- The best of the arguments, starting from `best`. -/
def foldFrom (op : Extremum) (read : α → Except Fault Number) (best : Number) :
    List α → Except Fault Number
  | [] => .ok best
  | a :: rest =>
    match read a with
    | .error fault => .error fault
    | .ok n => op.foldFrom read (op.pick best n) rest

end Extremum

end SmallLisp
