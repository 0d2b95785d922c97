/-!
Binary64 numbers as their bit patterns. Order and rounding are decided on integers read off the
bits, so both are exact and both signs of a NaN stay apart; arithmetic goes through the machine's
doubles.
-/

namespace QuestionSynthesis

/-- A binary64 number: one bit of sign, eleven of exponent, fifty-two of fraction. -/
structure Binary64 where
  bits : UInt64
  deriving DecidableEq, Inhabited

def wordMax : Nat := 18446744073709551615

namespace Binary64

def ofFloat (x : Float) : Binary64 := ⟨x.toBits⟩

def toFloat (x : Binary64) : Float := Float.ofBits x.bits

def zero : Binary64 := ⟨0⟩

def infinity : Binary64 := ⟨0x7ff0000000000000⟩

def nan : Binary64 := ⟨0x7ff8000000000000⟩

def signBit : Nat := 0x8000000000000000

def hiddenBit : Nat := 0x10000000000000

def magnitude (x : Binary64) : Nat := x.bits.toNat % signBit

def isNegative (x : Binary64) : Bool := decide (signBit ≤ x.bits.toNat)

def isNaN (x : Binary64) : Bool := decide (infinity.magnitude < x.magnitude)

def isFinite (x : Binary64) : Bool := decide (x.magnitude < infinity.magnitude)

def neg (x : Binary64) : Binary64 := ⟨x.bits ^^^ 0x8000000000000000⟩

/-- Where a number that is not NaN lies on the line; both zeros lie at `0`. -/
def position (x : Binary64) : Int := if x.isNegative then -x.magnitude else x.magnitude

def eq (x y : Binary64) : Bool := !x.isNaN && !y.isNaN && decide (x.position = y.position)

def lt (x y : Binary64) : Bool := !x.isNaN && !y.isNaN && decide (x.position < y.position)

def le (x y : Binary64) : Bool := !x.isNaN && !y.isNaN && decide (x.position ≤ y.position)

/-- Place in the total order of bit patterns: `-0` just below `+0`, and a NaN beyond the infinity
of its sign. -/
def rank (x : Binary64) : Int := if x.isNegative then -x.magnitude - 1 else x.magnitude

def add (x y : Binary64) : Binary64 := ofFloat (x.toFloat + y.toFloat)

def mul (x y : Binary64) : Binary64 := ofFloat (x.toFloat * y.toFloat)

def div (x y : Binary64) : Binary64 := ofFloat (x.toFloat / y.toFloat)

/-- The whole number `m` of `m * 2 ^ q`, the absolute value of a finite number. -/
def significand (x : Binary64) : Nat :=
  if x.magnitude < hiddenBit then x.magnitude else x.magnitude % hiddenBit + hiddenBit

def binaryExponent (x : Binary64) : Int :=
  if x.magnitude < hiddenBit then -1074 else (x.magnitude / hiddenBit : Nat) - 1075

/-- The nearest count, halves going up. Negative numbers and NaN give `0`, and what lies beyond a
word gives the largest word. -/
def roundToWord (x : Binary64) : Nat :=
  if x.isNaN || x.isNegative then 0
  else min wordMax <|
    match x.binaryExponent with
    | .ofNat q => x.significand * Nat.pow 2 q
    | .negSucc q => (2 * x.significand + Nat.pow 2 (q + 1)) / Nat.pow 2 (q + 2)

end Binary64

end QuestionSynthesis
