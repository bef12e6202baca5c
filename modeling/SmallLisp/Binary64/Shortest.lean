import SmallLisp.Binary64

/-!
# Decimal text of doubles

A double without fractional part is written exactly, with `.0` at its end. Any other finite double
is written with the fewest digits that read back as the same double; of two such decimals the nearer
one is taken, and the larger of two equally near. There is never an exponent.
-/

namespace SmallLisp.Binary64

/-- The number `digits * 10 ^ exp`. -/
structure Decimal where
  digits : Nat
  exp : Int
deriving DecidableEq, Repr

/-- Compare `a * 10 ^ i` with `n * 2 ^ j`. -/
def compareScaled (a : Nat) (i : Int) (n : Nat) (j : Int) : Ordering :=
  compare (a * tenTo i.toNat * twoTo (-j).toNat) (n * twoTo j.toNat * tenTo (-i).toNat)

/-- Whether a decimal lies among the reals that round to `m * 2 ^ q`. The interval reaches half way
to each neighbour; the lower neighbour of a power of two is half as far away as the upper one. The
ends belong to the interval when `m` is even. -/
def readsBack (m : Nat) (q : Int) (d : Decimal) : Bool :=
  let low := if m == twoTo 52 && q != -1074 then 4 * m - 1 else 4 * m - 2
  let closed := m % 2 == 0
  let below := compareScaled d.digits d.exp low (q - 2)
  let above := compareScaled d.digits d.exp (4 * m + 2) (q - 2)
  (below == .gt || (closed && below == .eq)) && (above == .lt || (closed && above == .eq))

/-- The `k` with `10 ^ (k - 1) ≤ num / den < 10 ^ k`, for a positive quotient. -/
def decimalMagnitude (num den : Nat) : Int :=
  let k : Int := (Nat.toDigits 10 num).length - (Nat.toDigits 10 den).length
  if den * tenTo k.toNat ≤ num * tenTo (-k).toNat then k + 1 else k

/-- The decimals of `n` digits next to the number: of those that read back, the nearer one. Only
with `n = 1` can the upper one have a digit more, and then it is written as the digit one. -/
def nearest? (m : Nat) (q : Int) (magnitude : Int) (n : Nat) : Option Decimal :=
  let e := magnitude - n
  let unit := scale m 1 (-q)
  let low := unit.1 * tenTo (-e).toNat / (unit.2 * tenTo e.toNat)
  let down : Decimal := ⟨low, e⟩
  let up : Decimal := if low + 1 = 10 then ⟨1, e + 1⟩ else ⟨low + 1, e⟩
  match readsBack m q down, readsBack m q up with
  | true, true => if compareScaled (2 * low + 1) e (2 * m) q == .gt then some down else some up
  | true, false => some down
  | false, true => some up
  | false, false => none

/-- The decimal of fewest digits that reads back as `m * 2 ^ q`, for a positive `m`. Seventeen
digits always suffice. -/
def shortest (m : Nat) (q : Int) : Decimal :=
  let unit := scale m 1 (-q)
  let magnitude := decimalMagnitude unit.1 unit.2
  let lengths := (List.range 17).map (· + 1)
  (lengths.findSome? (nearest? m q magnitude)).getD ⟨0, 0⟩

/-- Write a decimal positionally. -/
def Decimal.render (d : Decimal) : List Char :=
  let digits := Nat.toDigits 10 d.digits
  let point : Int := digits.length + d.exp
  if 0 ≤ d.exp then digits ++ List.replicate d.exp.toNat '0'
  else if point ≤ 0 then '0' :: '.' :: (List.replicate (-point).toNat '0' ++ digits)
  else digits.take point.toNat ++ '.' :: digits.drop point.toNat

/-- The minus sign of a negative number. -/
def signText (negative : Bool) : List Char := if negative then ['-'] else []

/-- The text of a double. -/
def render (x : Binary64) : List Char :=
  match x.view with
  | .nan => "NaN".toList
  | .infinite s => signText s ++ "inf".toList
  | .finite s m q =>
    let unit := scale m 1 (-q)
    if unit.1 % unit.2 = 0 then signText s ++ Nat.toDigits 10 (unit.1 / unit.2) ++ ".0".toList
    else signText s ++ (shortest m q).render

end SmallLisp.Binary64
