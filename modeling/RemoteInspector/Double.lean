/-!
Binary64 numbers as bit patterns. A finite double is a mantissa times a power of two, and a result is
the double nearest to a quotient, a tie going to the even mantissa.
-/
namespace RemoteInspector

structure Double where
  bits : UInt64
  deriving DecidableEq, Repr, Inhabited

namespace Double

def negative (d : Double) : Bool := d.bits >>> 63 == 1

def biasedExponent (d : Double) : Nat := ((d.bits >>> 52) &&& 0x7ff).toNat

def fraction (d : Double) : Nat := (d.bits &&& 0xfffffffffffff).toNat

def isNaN (d : Double) : Bool := d.biasedExponent == 2047 && d.fraction != 0

def isInfinite (d : Double) : Bool := d.biasedExponent == 2047 && d.fraction == 0

def isZero (d : Double) : Bool := d.biasedExponent == 0 && d.fraction == 0

def mantissa (d : Double) : Nat :=
  if d.biasedExponent = 0 then d.fraction else d.fraction + Nat.pow 2 52

def exponent (d : Double) : Int :=
  if d.biasedExponent = 0 then -1074 else d.biasedExponent - 1075

def ofSize (neg : Bool) (size : Nat) : Double :=
  ⟨UInt64.ofNat (if neg then size + Nat.pow 2 63 else size)⟩

def zero (neg : Bool) : Double := ofSize neg 0

def infinity (neg : Bool) : Double := ofSize neg (2047 * Nat.pow 2 52)

def nan : Double := ofSize false (2047 * Nat.pow 2 52 + Nat.pow 2 51)

/-- Where a half goes: to the even neighbour or to the larger one. -/
inductive Tie
  | even
  | up
  deriving DecidableEq, Repr

def Tie.settle (t : Tie) (q : Nat) : Nat :=
  match t with
  | .even => q + q % 2
  | .up => q + 1

def roundQuotient (tie : Tie) (num den : Nat) : Nat :=
  let q := num / den
  let r := num % den
  if 2 * r < den then q else if den < 2 * r then q + 1 else tie.settle q

def scaled (num den : Nat) (e : Int) : Nat × Nat :=
  if e < 0 then (num * Nat.pow 2 (-e).toNat, den) else (num, den * Nat.pow 2 e.toNat)

/-- The double nearest to `num / den`, beyond the largest finite one an infinity. -/
def ofQuotient (neg : Bool) (num den : Nat) : Double :=
  if num = 0 then zero neg
  else
    let guess : Int := max (Nat.log2 num - Nat.log2 den - 53 : Int) (-1074)
    let (n, d) := scaled num den guess
    let e := if n / d < Nat.pow 2 53 then guess else guess + 1
    let (n, d) := scaled num den e
    let size := (e + 1074).toNat * Nat.pow 2 52 + roundQuotient .even n d
    if size < 2047 * Nat.pow 2 52 then ofSize neg size else infinity neg

def ofNat (n : Nat) : Double := ofQuotient false n 1

def ofInt (i : Int) : Double := ofQuotient (decide (i < 0)) i.natAbs 1

def neg (d : Double) : Double := ⟨d.bits ^^^ ((1 : UInt64) <<< 63)⟩

def mul (a b : Double) : Double :=
  let (n, d) := scaled (a.mantissa * b.mantissa) 1 (-(a.exponent + b.exponent))
  ofQuotient (a.negative != b.negative) n d

def div (a b : Double) : Double :=
  let (n, d) := scaled a.mantissa b.mantissa (b.exponent - a.exponent)
  ofQuotient (a.negative != b.negative) n d

def powerOfTen (e : Nat) : Double := ofNat (Nat.pow 10 e)

/-- `significand * 10 ^ exponent`, rounded once for the significand and once for each scaling by a
power of ten up to `10 ^ 308`; `none` beyond the finite doubles. -/
def ofDecimal? (significand : Double) (exponent : Int) : Option Double :=
  if exponent.natAbs ≤ 308 then
    if 0 ≤ exponent then
      let d := mul significand (powerOfTen exponent.natAbs)
      if d.isInfinite then none else some d
    else some (div significand (powerOfTen exponent.natAbs))
  else if significand.isZero then some significand
  else if 0 ≤ exponent then none
  else ofDecimal? (div significand (powerOfTen 308)) (exponent + 308)
termination_by (-exponent).toNat
decreasing_by omega

def isWhole (d : Double) : Bool :=
  d.mantissa == 0 || decide (0 ≤ d.exponent) || d.mantissa % Nat.pow 2 (-d.exponent).toNat == 0

def truncate (d : Double) : Int :=
  let (n, den) := scaled d.mantissa 1 (-d.exponent)
  if d.negative then -(n / den : Nat) else (n / den : Nat)

/-- A decimal: `digits * 10 ^ exponent`. -/
structure Decimal where
  digits : Nat
  exponent : Int
  deriving DecidableEq, Repr

/-- The number of decimal digits of a natural number, one for zero. -/
def digitCount (n : Nat) : Nat := (Nat.toDigits 10 n).length

/-- The `e` with `10 ^ e ≤ num / den < 10 ^ (e + 1)`, for a positive quotient. -/
def magnitude (num den : Nat) : Int :=
  let guess : Int := digitCount num - digitCount den
  let reached : Bool :=
    if 0 ≤ guess then den * Nat.pow 10 guess.toNat ≤ num else den ≤ num * Nat.pow 10 (-guess).toNat
  if reached then guess else guess - 1

/-- A point of the decimal grid of spacing `10 ^ e`, compared with `num / den`. -/
def gridCompare (d : Nat) (e : Int) (num den : Nat) : Ordering :=
  if 0 ≤ e then compare (d * Nat.pow 10 e.toNat * den) num
  else compare (d * den) (num * Nat.pow 10 (-e).toNat)

/-- The decimals that read back as `num / den`: those between the two ends, which count themselves
when `closed`. -/
structure Interval where
  low : Nat
  high : Nat
  den : Nat
  closed : Bool

def Interval.contains (i : Interval) (d : Nat) (e : Int) : Bool :=
  let above := gridCompare d e i.low i.den
  let below := gridCompare d e i.high i.den
  (above == .gt || (i.closed && above == .eq)) && (below == .lt || (i.closed && below == .eq))

/-- Of the two neighbours of `num / den` on a grid, the one inside the interval; of two, the
nearer. -/
def onGrid (tie : Tie) (i : Interval) (num : Nat) (e : Int) : Option Nat :=
  let (n, d) := if 0 ≤ e then (num, i.den * Nat.pow 10 e.toNat) else (num * Nat.pow 10 (-e).toNat, i.den)
  let floor := n / d
  let nearest := roundQuotient tie n d
  let other := if nearest = floor then floor + 1 else floor
  if i.contains nearest e then some nearest
  else if i.contains other e then some other
  else none

def dropZeros : Nat → Decimal → Decimal
  | 0, d => d
  | fuel + 1, d => if d.digits % 10 = 0 then dropZeros fuel ⟨d.digits / 10, d.exponent + 1⟩ else d

/-- The decimal of fewest digits that reads back as this finite nonzero double, the nearest of
those; a double needs at most seventeen. -/
def shortest (tie : Tie) (d : Double) : Decimal :=
  let m := d.mantissa
  let (unit, den) := scaled 1 1 (2 - d.exponent)
  let lowStep := if d.fraction = 0 && 1 < d.biasedExponent then 1 else 2
  let i : Interval := ⟨(4 * m - lowStep) * unit, (4 * m + 2) * unit, den, m % 2 = 0⟩
  let num := 4 * m * unit
  let top := magnitude num den
  let hit := (List.range 17).findSome? fun (count : Nat) =>
    (onGrid tie i num (top - count)).map (Decimal.mk · (top - count))
  dropZeros 18 (hit.getD ⟨0, 0⟩)

/-- How a decimal is laid out: which of two equally near ones it is, the largest and smallest place
of the point written positionally, the marks of an exponent, and what follows a whole number. -/
structure Layout where
  tie : Tie
  positionalUpTo : Option Nat
  positionalDownTo : Option Nat
  positiveMark : String
  negativeMark : String
  wholeTail : String

def zeros (n : Nat) : String := String.ofList (List.replicate n '0')

def Layout.positional (l : Layout) (digits : String) (point : Int) : String :=
  if point ≤ 0 then "0." ++ zeros (-point).toNat ++ digits
  else if digits.length ≤ point then
    digits ++ zeros (point.toNat - digits.length) ++ l.wholeTail
  else
    String.ofList (digits.toList.take point.toNat) ++ "." ++
      String.ofList (digits.toList.drop point.toNat)

def Layout.scientific (l : Layout) (digits : String) (point : Int) : String :=
  let head := String.ofList (digits.toList.take 1)
  let tail := String.ofList (digits.toList.drop 1)
  let e := point - 1
  head ++ (if tail.isEmpty then "" else "." ++ tail) ++
    (if 0 ≤ e then l.positiveMark else l.negativeMark) ++ toString e.natAbs

def Layout.render (l : Layout) (d : Double) : String :=
  let sign := if d.negative then "-" else ""
  if d.isZero then sign ++ "0" ++ l.wholeTail
  else
    let decimal := d.shortest l.tie
    let digits := toString decimal.digits
    let point : Int := digits.length + decimal.exponent
    let small := l.positionalDownTo.elim true fun limit => -(limit : Int) < point
    let large := l.positionalUpTo.elim true fun limit => point ≤ limit
    sign ++ if small && large then l.positional digits point else l.scientific digits point

end Double

end RemoteInspector
