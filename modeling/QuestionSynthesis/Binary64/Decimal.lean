import QuestionSynthesis.Binary64.Basic

/-!
Decimal texts read as doubles. The grammar is a sign, then `inf`, `infinity` or `nan` in any case,
or digits with an optional point and exponent of which at least one digit stands before the
exponent. The double is the nearest one, a tie going to the even significand.
-/

namespace QuestionSynthesis

namespace Decimal

def ofDigits (digits : List Char) : Nat :=
  digits.foldl (fun n c => 10 * n + (c.toNat - '0'.toNat)) 0

def signedDigits? : List Char → Option Int
  | '-' :: ds => if !ds.isEmpty && ds.all Char.isDigit then some (-ofDigits ds) else none
  | '+' :: ds => if !ds.isEmpty && ds.all Char.isDigit then some (ofDigits ds) else none
  | ds => if !ds.isEmpty && ds.all Char.isDigit then some (ofDigits ds) else none

def exponent? : List Char → Option Int
  | [] => some 0
  | c :: r => if c = 'e' ∨ c = 'E' then signedDigits? r else none

def fraction : List Char → List Char × List Char
  | '.' :: r => (r.takeWhile Char.isDigit, r.dropWhile Char.isDigit)
  | r => ([], r)

end Decimal

namespace Binary64

/-- The double nearest to `m * 10 ^ e`. Beyond the two cut-offs the answer is known without the
power: a positive number above `10 ^ 400` is infinite, one below `10 ^ -399` vanishes. -/
def ofDecimal (m : Nat) (e : Int) : Binary64 :=
  if m = 0 then zero
  else if 400 < e then infinity
  else if e < -((m.log2 + 400 : Nat) : Int) then zero
  else match e with
    | .ofNat k => ofFloat (Float.ofScientific m false k)
    | .negSucc k => ofFloat (Float.ofScientific m true (k + 1))

def ofInt : Int → Binary64
  | .ofNat n => ofDecimal n 0
  | .negSucc n => (ofDecimal (n + 1) 0).neg

def ofNat (n : Nat) : Binary64 := ofDecimal n 0

def decimal? (s : List Char) : Option Binary64 := do
  let whole := s.takeWhile Char.isDigit
  let (fraction, r) := Decimal.fraction (s.dropWhile Char.isDigit)
  if whole.isEmpty && fraction.isEmpty then none
  else
    let e ← Decimal.exponent? r
    some (ofDecimal (Decimal.ofDigits (whole ++ fraction)) (e - fraction.length))

def unsigned? (s : List Char) : Option Binary64 :=
  let word := s.map Char.toLower
  if word = "inf".toList ∨ word = "infinity".toList then some infinity
  else if word = "nan".toList then some nan
  else decimal? s

def parse? : List Char → Option Binary64
  | '-' :: r => (unsigned? r).map neg
  | '+' :: r => unsigned? r
  | r => unsigned? r

end Binary64

end QuestionSynthesis
