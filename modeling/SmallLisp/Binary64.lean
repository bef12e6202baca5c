/-!
# Double-precision numbers

A `Binary64` is the bit pattern of an IEEE 754 double, so two of them are equal exactly when they
are the same bits: `0.0` and `-0.0` differ, and the one NaN that arithmetic produces equals itself.
`view` says what number a pattern stands for. `ofRatio` rounds a quotient of naturals to the
nearest pattern, ties to even; reading decimals, converting integers and the exact remainder all go
through it. The four arithmetic operations are those of the machine.
-/

namespace SmallLisp

/-- An IEEE 754 double, as its bits. -/
structure Binary64 where
  bits : UInt64
deriving DecidableEq, Repr, Inhabited

namespace Binary64

def twoTo (n : Nat) : Nat := Nat.pow 2 n

def tenTo (n : Nat) : Nat := Nat.pow 10 n

/-- What a bit pattern stands for; a finite one is `m * 2 ^ q` with a sign. -/
inductive View where
  | nan
  | infinite (negative : Bool)
  | finite (negative : Bool) (m : Nat) (q : Int)
deriving DecidableEq, Repr

/-- Decode sign, exponent and fraction. -/
def view (x : Binary64) : View :=
  let n := x.bits.toNat
  let negative := decide (twoTo 63 ≤ n)
  let e : Nat := n / twoTo 52 % twoTo 11
  let f : Nat := n % twoTo 52
  if e = 2047 then
    if f = 0 then .infinite negative else .nan
  else if e = 0 then .finite negative f (-1074)
  else .finite negative (twoTo 52 + f) ((e : Int) - 1075)

/-- The bits of infinity without its sign. -/
def infinityBits : Nat := 2047 * twoTo 52

/-- Put a sign on a magnitude, given as bits. -/
def ofMagnitude (negative : Bool) (magnitude : Nat) : Binary64 :=
  ⟨UInt64.ofNat ((if negative then twoTo 63 else 0) + magnitude)⟩

def infinity (negative : Bool) : Binary64 := ofMagnitude negative infinityBits

/-- The NaN that operations without a result give. -/
def nan : Binary64 := ⟨UInt64.ofNat (infinityBits + twoTo 51)⟩

/-- The quotient rounded to the nearest natural, a half going to the even one. -/
def roundQuotient (num den : Nat) : Nat :=
  let m := num / den
  let r := num % den
  if den < 2 * r || (2 * r == den && m % 2 == 1) then m + 1 else m

/-- The fraction `num / (den * 2 ^ q)`, with the power of two on the side where it is whole. -/
def scale (num den : Nat) (q : Int) : Nat × Nat :=
  (num * twoTo (-q).toNat, den * twoTo q.toNat)

/-- The double nearest to `num / den`, ties to even. -/
def ofRatio (negative : Bool) (num den : Nat) : Binary64 :=
  if num = 0 then ofMagnitude negative 0
  else
    let start : Int := max ((num.log2 : Int) - den.log2 - 53) (-1074)
    let first := scale num den start
    let q := if twoTo 53 ≤ first.1 / first.2 then start + 1 else start
    let last := scale num den q
    let m := roundQuotient last.1 last.2
    let magnitude := if m < twoTo 52 then m else (q + 1075).toNat * twoTo 52 + (m - twoTo 52)
    ofMagnitude negative (min magnitude infinityBits)

/-- The double nearest to an integer. -/
def ofInt (n : Int) : Binary64 := ofRatio (decide (n < 0)) n.natAbs 1

/-- The double nearest to `digits * 10 ^ exp`. Beyond 400 decimal places in either direction the
answer is infinity or zero, whatever the digits are. -/
def ofDecimal (negative : Bool) (digits : Nat) (exp : Int) : Binary64 :=
  let places : Int := (Nat.toDigits 10 digits).length + exp
  if digits = 0 then ofMagnitude negative 0
  else if 400 < places then infinity negative
  else if places < -400 then ofMagnitude negative 0
  else ofRatio negative (digits * tenTo exp.toNat) (tenTo (-exp).toNat)

def toFloat (x : Binary64) : Float := Float.ofBits x.bits

def ofFloat (f : Float) : Binary64 := ⟨f.toBits⟩

/-- The sum, rounded to nearest. -/
def add (x y : Binary64) : Binary64 := ofFloat (x.toFloat + y.toFloat)

def sub (x y : Binary64) : Binary64 := ofFloat (x.toFloat - y.toFloat)

def mul (x y : Binary64) : Binary64 := ofFloat (x.toFloat * y.toFloat)

def div (x y : Binary64) : Binary64 := ofFloat (x.toFloat / y.toFloat)

/-- The remainder of the division truncated toward zero. It is exact and has the sign of `x`. -/
def rem (x y : Binary64) : Binary64 :=
  match x.view, y.view with
  | .finite s m q, .finite _ n p =>
    if n = 0 then nan
    else
      let e := min q p
      let r := (m * twoTo (q - e).toNat) % (n * twoTo (p - e).toNat)
      ofRatio s (r * twoTo e.toNat) (twoTo (-e).toNat)
  | .finite .., .infinite _ => x
  | _, _ => nan

def isZero (x : Binary64) : Bool :=
  match x.view with
  | .finite _ 0 _ => true
  | _ => false

/-- Order as real numbers; NaN compares with nothing. -/
def compare? (x y : Binary64) : Option Ordering :=
  let a := x.toFloat
  let b := y.toFloat
  if a < b then some .lt
  else if b < a then some .gt
  else if a == b then some .eq
  else none

end Binary64

end SmallLisp
