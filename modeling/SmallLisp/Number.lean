import SmallLisp.Binary64.Shortest

/-!
# Numbers

A number is a 64-bit integer or a double. Equality of `Number` is identity of representation: `1`
and `1.0` are different numbers. `compare?` orders numbers by value and so finds them equal.
-/

namespace SmallLisp

inductive Number where
  | int (n : Int64)
  | float (x : Binary64)
deriving DecidableEq, Repr, Inhabited

namespace Number

/-- The double nearest to a number. -/
def toBinary64 : Number → Binary64
  | .int n => .ofInt n.toInt
  | .float x => x

/-- Whether a number is zero, of either representation and sign. -/
def isZero : Number → Bool
  | .int n => n == 0
  | .float x => x.isZero

/-- Order by value. Two integers compare exactly; with a double on either side both compare as
doubles, and NaN compares with nothing. -/
def compare? : Number → Number → Option Ordering
  | .int a, .int b => some (compare a.toInt b.toInt)
  | a, b => a.toBinary64.compare? b.toBinary64

/-- Whether an integer has 64 bits. -/
def fits (n : Int) : Bool := Int64.minValue.toInt ≤ n && n ≤ Int64.maxValue.toInt

/-- An integer with 64 bits is not changed by its conversion. -/
theorem toInt_ofInt_of_fits {n : Int} (h : fits n = true) : (Int64.ofInt n).toInt = n := by
  simp only [fits, Bool.and_eq_true, decide_eq_true_eq, Int64.toInt_minValue,
    Int64.toInt_maxValue] at h
  exact Int64.toInt_ofInt_of_le h.1 (by omega)

def renderInt (n : Int) : List Char :=
  if n < 0 then '-' :: Nat.toDigits 10 n.natAbs else Nat.toDigits 10 n.natAbs

def render : Number → List Char
  | .int n => renderInt n.toInt
  | .float x => x.render

end Number

end SmallLisp
