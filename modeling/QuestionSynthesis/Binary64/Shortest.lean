import QuestionSynthesis.Binary64.Basic

/-!
Doubles written with the fewest digits that read back. Of the decimal grids `10 ^ k` the coarsest
one with a point inside the rounding interval of the number is taken, and on it the nearer of the
two neighbours of the number; of two equally near ones the larger is written.
-/

namespace QuestionSynthesis

namespace Binary64

structure Digits where
  digits : Nat
  scale : Int

/-- The rounding interval of a positive finite number, its ends and middle counted in quarters of
the last place `2 ^ (q - 2)`. The lower end is nearer where the binade begins. -/
structure Interval where
  low : Nat
  middle : Nat
  high : Nat
  closed : Bool
  exponent : Int

def interval (x : Binary64) : Interval where
  low := if x.significand = hiddenBit ∧ -1074 < x.binaryExponent then 4 * x.significand - 1
    else 4 * x.significand - 2
  middle := 4 * x.significand
  high := 4 * x.significand + 2
  closed := x.significand % 2 = 0
  exponent := x.binaryExponent - 2

/-- The point of the grid `10 ^ k` to be written, if one lies in the interval. All comparisons are
cross-multiplied: a point `d` stands at `d * step`, an end `a` of the interval at `a * unit`. -/
def Interval.point? (i : Interval) (k : Int) : Option Nat :=
  let step := Nat.pow 10 k.toNat * Nat.pow 2 (-i.exponent).toNat
  let unit := Nat.pow 2 i.exponent.toNat * Nat.pow 10 (-k).toNat
  let within (d : Nat) : Bool :=
    if i.closed then i.low * unit ≤ d * step && d * step ≤ i.high * unit
    else i.low * unit < d * step && d * step < i.high * unit
  let below := i.middle * unit / step
  match within below, within (below + 1) with
  | false, false => none
  | true, false => some below
  | false, true => some (below + 1)
  | true, true =>
    if 2 * (i.middle * unit) < (2 * below + 1) * step then some below else some (below + 1)

def Interval.coarsest (i : Interval) : Nat → Int → Digits
  | 0, k => ⟨i.middle * (Nat.pow 2 i.exponent.toNat * Nat.pow 10 (-k).toNat) /
      (Nat.pow 10 k.toNat * Nat.pow 2 (-i.exponent).toNat), k⟩
  | n + 1, k =>
    match i.point? k with
    | some d => ⟨d, k⟩
    | none => i.coarsest n (k - 1)

/-- The fewest digits that read back as a positive finite number. The search starts at a power of
ten above the number, and seventeen digits always suffice. -/
def shortest (x : Binary64) : Digits :=
  x.interval.coarsest 24 ((x.binaryExponent + x.significand.log2 + 1) * 30103 / 100000 + 2)

structure Layout where
  positional : Int → Bool
  point : Bool

def Layout.plain : Layout := ⟨fun _ => true, false⟩

def Layout.marked : Layout := ⟨fun e => -4 ≤ e && e < 16, true⟩

def pointed (point : Bool) (digits : List Char) (scale : Int) : List Char :=
  if 0 ≤ scale then
    digits ++ List.replicate scale.toNat '0' ++ if point then ['.', '0'] else []
  else
    let places := (-scale).toNat
    if places < digits.length then
      digits.take (digits.length - places) ++ '.' :: digits.drop (digits.length - places)
    else
      '0' :: '.' :: List.replicate (places - digits.length) '0' ++ digits

def scientific (digits : List Char) (e : Int) : List Char :=
  digits.take 1 ++ (if digits.length = 1 then [] else '.' :: digits.drop 1) ++
    'e' :: (toString e).toList

def Layout.write (layout : Layout) (d : Digits) : List Char :=
  let digits := Nat.toDigits 10 d.digits
  let e := digits.length + d.scale - 1
  if layout.positional e then pointed layout.point digits d.scale else scientific digits e

def unsignedText (layout : Layout) (x : Binary64) : List Char :=
  if x.isNaN then "NaN".toList
  else if !x.isFinite then "inf".toList
  else if x.magnitude = 0 then '0' :: if layout.point then ['.', '0'] else []
  else layout.write x.shortest

def text (layout : Layout) (x : Binary64) : String :=
  String.ofList (if x.isNegative && !x.isNaN then '-' :: unsignedText layout x
    else unsignedText layout x)

end Binary64

end QuestionSynthesis
