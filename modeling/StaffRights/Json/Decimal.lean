/-!
# Decimal numerals and binary floating point

A numeral with a fraction or an exponent, or one too large for a 64-bit integer, is taken as a
binary floating-point number of 64 bits. It is written back with the fewest digits that lie in the
interval of reals rounding to it; of two such numerals the nearer is taken, and at a tie the even
one.
-/

namespace StaffRights.Json.Decimal

/-! ## Reading -/

/-- The largest significand that is kept while digits are read. -/
def maxSignificand : Nat := Nat.pow 2 64 - 1

/-- Collects integer digits: as many leading ones as fit, then each further one scales by ten. -/
def collectInteger : List Nat → Nat → Nat × Int
  | [], s => (s, 0)
  | d :: ds, s =>
    if 10 * s + d ≤ maxSignificand then collectInteger ds (10 * s + d)
    else (s, ds.length + 1)

/-- Collects fraction digits as far as they fit; the rest is dropped. -/
def collectFraction : List Nat → Nat × Int → Nat × Int
  | [], state => state
  | d :: ds, (s, e) =>
    if 10 * s + d ≤ maxSignificand then collectFraction ds (10 * s + d, e - 1) else (s, e)

/-- Ten to a power up to 308, as a floating-point number. -/
def power (e : Nat) : Float := Float.ofScientific 1 false e

/-- Divides by ten to the power `e`, in steps of at most 308. -/
def scaleDown (x : Float) (e : Nat) : Float :=
  if e ≤ 308 then x / power e
  else if x == 0.0 then x
  else scaleDown (x / power 308) (e - 308)
termination_by e

/-- The floating-point number of a significand and a power of ten, by its bits, if it is finite. -/
def scale (negative : Bool) (significand : Nat) (exponent : Int) : Option UInt64 :=
  let x := (UInt64.ofNat significand).toFloat
  let y :=
    if exponent < 0 then scaleDown x exponent.natAbs
    else if exponent ≤ 308 then x * power exponent.natAbs
    else if x == 0.0 then x
    else 1.0 / 0.0
  if y.isInf then none else some (if negative then -y else y).toBits

/-- The largest exponent that is taken as a number. -/
def maxExponent : Nat := Nat.pow 2 31 - 1

/-- The bits of a numeral in its parts; nothing if it is too large. -/
def toBits (negative : Bool) (integer fraction : List Nat) (exponent : Int) : Option UInt64 :=
  let (s, e) := collectFraction fraction (collectInteger integer 0)
  if exponent.natAbs ≤ maxExponent then scale negative s (e + exponent)
  else if s ≠ 0 ∧ 0 < exponent then none
  else some (if negative then -0.0 else 0.0 : Float).toBits

/-! ## Writing -/

/-- The number of decimal digits of `n`. -/
def digitCount (n : Nat) : Nat := (Nat.toDigits 10 n).length

/-- A positive rational number. -/
structure Ratio where
  num : Nat
  den : Nat

namespace Ratio

/-- `n · base ^ e`. -/
def scaled (n base : Nat) (e : Int) : Ratio :=
  if e < 0 then ⟨n, base.pow e.natAbs⟩ else ⟨n * base.pow e.natAbs, 1⟩

/-- Is the first number below the second? -/
def lt (a b : Ratio) : Bool := a.num * b.den < b.num * a.den

/-- Is the first number at most the second? -/
def le (a b : Ratio) : Bool := a.num * b.den ≤ b.num * a.den

/-- The exponent of the leading decimal digit. -/
def leading (a : Ratio) : Int :=
  let e : Int := (digitCount a.num : Int) - digitCount a.den
  if (scaled 1 10 e).le a then e else e - 1

end Ratio

/-- The numerals `d · 10 ^ k` that stand for a number. -/
structure Numeral where
  digits : Nat
  exponent : Int

/-- The reals that round to one floating-point number. -/
structure Interval where
  low : Ratio
  value : Ratio
  high : Ratio
  closed : Bool

/-- Does the interval hold `d · 10 ^ k`? -/
def Interval.holds (i : Interval) (n : Numeral) : Bool :=
  let x := Ratio.scaled n.digits 10 n.exponent
  if i.closed then i.low.le x && x.le i.high else i.low.lt x && x.lt i.high

/-- The numeral of the given number of digits that stands for the interval's number, if there is
one: one of the two neighbours of the number among all numerals of that length. -/
def Interval.numeral? (i : Interval) (count : Nat) : Option Numeral :=
  let k := i.value.leading + 1 - count
  let grid := Ratio.scaled 1 10 k
  let num := i.value.num * grid.den
  let den := i.value.den * grid.num
  let d : Nat := num / den
  let twice : Nat := 2 * (num % den)
  let up := twice > den || (twice == den && d % 2 == 1)
  let nearer : Numeral := ⟨if up then d + 1 else d, k⟩
  let other : Numeral := ⟨if up then d else d + 1, k⟩
  if i.holds nearer then some nearer else if i.holds other then some other else none

/-- The interval of a positive floating-point number. -/
def interval (bits : Nat) : Interval :=
  let fraction : Nat := bits % Nat.pow 2 52
  let biased : Nat := bits / Nat.pow 2 52 % Nat.pow 2 11
  let m : Nat := if biased = 0 then fraction else fraction + Nat.pow 2 52
  let q : Int := (if biased = 0 then 1 else (biased : Int)) - 1077
  { low := .scaled (if fraction = 0 ∧ 1 < biased then 4 * m - 1 else 4 * m - 2) 2 q
    value := .scaled (4 * m) 2 q
    high := .scaled (4 * m + 2) 2 q
    closed := m % 2 = 0 }

/-- The shortest numeral of a positive floating-point number. -/
def shortest (bits : Nat) : Numeral :=
  let i := interval bits
  ((List.range 17).findSome? fun n => i.numeral? (n + 1)).getD ⟨0, 0⟩

/-- The same number without zeros at the end of its digits. -/
def Numeral.trimmed (n : Numeral) : Numeral :=
  let zeros := ((Nat.toDigits 10 n.digits).reverse.takeWhile (· == '0')).length
  ⟨n.digits / Nat.pow 10 zeros, n.exponent + zeros⟩

/-- The exponent of the leading digit, as it stands after the `e`: always with its sign. -/
def exponentText (e : Int) : String := if e < 0 then s!"-{e.natAbs}" else s!"+{e.natAbs}"

/-- Writes a numeral: plainly with up to sixteen places before the point or five after it, otherwise
with an exponent. -/
def Numeral.text (n : Numeral) : String :=
  let digits := Nat.toDigits 10 n.digits
  let count : Int := digits.length
  let point := count + n.exponent
  let zeros (k : Int) : List Char := List.replicate k.toNat '0'
  String.ofList <|
    if 0 ≤ n.exponent ∧ point ≤ 16 then digits ++ zeros n.exponent ++ ".0".toList
    else if 0 < point ∧ point ≤ 16 then
      digits.take point.toNat ++ ['.'] ++ digits.drop point.toNat
    else if -5 < point ∧ point ≤ 0 then "0.".toList ++ zeros (-point) ++ digits
    else
      let mantissa := match digits with
        | [d] => [d]
        | d :: ds => d :: '.' :: ds
        | [] => []
      mantissa ++ ['e'] ++ (exponentText (point - 1)).toList

/-- Writes a finite floating-point number, given by its bits. -/
def text (bits : UInt64) : String :=
  let magnitude := bits.toNat % Nat.pow 2 63
  let sign := if bits.toNat < Nat.pow 2 63 then "" else "-"
  sign ++ if magnitude = 0 then "0.0" else (shortest magnitude).trimmed.text

end StaffRights.Json.Decimal
