import QuestionSynthesis.Binary64.Decimal
import QuestionSynthesis.Json.Tree

/-!
Number literals of JSON and their values. A literal without fraction and exponent is an integer as
long as it fits 64 bits, except `-0`. Any other literal is a double: its leading digits are
gathered for as long as they fit an unsigned word, and the double nearest to them is scaled by a
power of ten. The scaling rounds once more, so a literal of many digits may come out one unit in
the last place beside its nearest double.
-/

namespace QuestionSynthesis

namespace Json

structure Numeral where
  negative : Bool
  whole : List Char
  fraction : List Char
  real : Bool
  exponent : Int

namespace Numeral

structure Gathered where
  significand : Nat
  scale : Int

/-- Gathers the digits before the point. From the first digit that does not fit, each only
raises the scale. -/
def gatherWhole (n : Nat) : List Char → Gathered
  | [] => ⟨n, 0⟩
  | c :: r =>
    let m := 10 * n + (c.toNat - '0'.toNat)
    if m ≤ wordMax then gatherWhole m r else ⟨n, (c :: r).length⟩

def gatherFraction (g : Gathered) : List Char → Gathered
  | [] => g
  | c :: r =>
    let m := 10 * g.significand + (c.toNat - '0'.toNat)
    if m ≤ wordMax then gatherFraction ⟨m, g.scale - 1⟩ r else g

/-- Divides by `10 ^ k`, the powers beyond `10 ^ 308` in two steps or more. -/
def scaleDown (x : Binary64) (k : Nat) : Binary64 :=
  if k ≤ 308 then x.div (.ofDecimal 1 k)
  else if x.magnitude = 0 then x
  else scaleDown (x.div (.ofDecimal 1 308)) (k - 308)
termination_by k

def Gathered.scaled? (g : Gathered) : Option Binary64 :=
  let x := Binary64.ofNat g.significand
  match g.scale with
  | .ofNat k =>
    if k ≤ 308 then
      let y := x.mul (.ofDecimal 1 k)
      if y.isFinite then some y else none
    else if g.significand = 0 then some x
    else none
  | .negSucc k => some (scaleDown x (k + 1))

def exponent? : List Char → Option (Bool × Int)
  | [] => some (false, 0)
  | c :: r => if c = 'e' ∨ c = 'E' then (Decimal.signedDigits? r).map (true, ·) else none

def parse? (s : List Char) : Option Numeral := do
  let (negative, s) := match s with
    | '-' :: r => (true, r)
    | r => (false, r)
  let whole := s.takeWhile Char.isDigit
  if whole.isEmpty || (whole.head? == some '0' && 1 < whole.length) then none
  else
    let r := s.dropWhile Char.isDigit
    let (fraction, rest) := Decimal.fraction r
    if r.head? == some '.' && fraction.isEmpty then none
    else
      let (marked, exponent) ← exponent? rest
      some { negative, whole, fraction, exponent, real := marked || !fraction.isEmpty }

def value (n : Numeral) : Json :=
  let m := Decimal.ofDigits n.whole
  if !n.real && !n.negative && m ≤ wordMax then .int m
  else if !n.real && n.negative && 0 < m && m ≤ wordMax / 2 + 1 then .int (-m)
  else
    let g := gatherFraction (gatherWhole 0 n.whole) n.fraction
    match Gathered.scaled? ⟨g.significand, g.scale + n.exponent⟩ with
    | some x => .double (if n.negative then x.neg else x)
    | none => .unreadable

def read? (s : List Char) : Option Json := (parse? s).map value

end Numeral

end Json

end QuestionSynthesis
