import QuestionSynthesis.Binary64.Decimal
import QuestionSynthesis.Text.Blank

/-!
Moments in universal time, read from and written as RFC 3339 texts. Reading is lenient: blanks may
stand before numbers and separators, a digit group may be short, the offset may have its colon left
out, and years beyond four digits carry a sign. A leap second is kept as a sixty-first second.
-/

namespace QuestionSynthesis

structure Date where
  year : Int
  month : Nat
  day : Nat
  deriving DecidableEq, Inhabited

namespace Date

def isLeap (year : Int) : Bool := year % 4 = 0 && (year % 100 ≠ 0 || year % 400 = 0)

def daysInMonth (year : Int) (month : Nat) : Nat :=
  if month = 2 then if isLeap year then 29 else 28
  else if month = 4 ∨ month = 6 ∨ month = 9 ∨ month = 11 then 30
  else 31

def minYear : Int := -262143

def maxYear : Int := 262142

def isValid (d : Date) : Bool :=
  minYear ≤ d.year && d.year ≤ maxYear && 1 ≤ d.month && d.month ≤ 12 &&
    1 ≤ d.day && d.day ≤ daysInMonth d.year d.month

def tomorrow (d : Date) : Date :=
  if d.day < daysInMonth d.year d.month then { d with day := d.day + 1 }
  else if d.month < 12 then { d with month := d.month + 1, day := 1 }
  else ⟨d.year + 1, 1, 1⟩

def yesterday (d : Date) : Date :=
  if 1 < d.day then { d with day := d.day - 1 }
  else if 1 < d.month then { d with month := d.month - 1, day := daysInMonth d.year (d.month - 1) }
  else ⟨d.year - 1, 12, 31⟩

end Date

structure Timestamp where
  date : Date
  second : Nat
  /-- Nanoseconds within the second; from `10 ^ 9` on they belong to a leap second after it. -/
  nano : Nat
  deriving DecidableEq, Inhabited

namespace Timestamp

def earlier (t : Timestamp) (seconds : Int) : Timestamp :=
  let s := t.second - seconds
  if s < 0 then { t with date := t.date.yesterday, second := (s + 86400).toNat }
  else if 86400 ≤ s then { t with date := t.date.tomorrow, second := (s - 86400).toNat }
  else { t with second := s.toNat }

def padded (width n : Nat) : List Char :=
  let ds := Nat.toDigits 10 n
  List.replicate (width - ds.length) '0' ++ ds

def yearText (y : Int) : List Char :=
  if 0 ≤ y ∧ y ≤ 9999 then padded 4 y.toNat
  else (if y < 0 then '-' else '+') :: padded 4 y.natAbs

/-- The fraction of a second in three, six or nine digits, as few as are exact. -/
def fractionText (nano : Nat) : List Char :=
  if nano = 0 then []
  else if nano % 1000000 = 0 then '.' :: padded 3 (nano / 1000000)
  else if nano % 1000 = 0 then '.' :: padded 6 (nano / 1000)
  else '.' :: padded 9 nano

def text (t : Timestamp) : List Char :=
  let leap := 1000000000 ≤ t.nano
  yearText t.date.year ++ '-' :: padded 2 t.date.month ++ '-' :: padded 2 t.date.day ++
    'T' :: padded 2 (t.second / 3600) ++ ':' :: padded 2 (t.second / 60 % 60) ++
    ':' :: padded 2 (t.second % 60 + if leap then 1 else 0) ++
    fractionText (if leap then t.nano - 1000000000 else t.nano) ++ ['Z']

def number? (width : Nat) (s : List Char) : Option (Nat × List Char) :=
  let ds := (s.take width).takeWhile Char.isDigit
  if ds.isEmpty then none else some (Decimal.ofDigits ds, s.drop ds.length)

def field? (width : Nat) (s : List Char) : Option (Nat × List Char) :=
  number? width (Text.trimLeft s)

/-- A year: up to four digits, or any number of them after a sign. -/
def year? (s : List Char) : Option (Int × List Char) :=
  match Text.trimLeft s with
  | '-' :: r => (number? r.length r).map fun (n, t) => (-n, t)
  | '+' :: r => (number? r.length r).map fun (n, t) => (n, t)
  | r => (number? 4 r).map fun (n, t) => (n, t)

def separator? (c : Char) (s : List Char) : Option (List Char) :=
  match Text.trimLeft s with
  | d :: r => if d = c then some r else none
  | [] => none

def nano? : List Char → Option (Nat × List Char)
  | '.' :: r => (number? 9 r).map fun (n, t) =>
      (n * Nat.pow 10 (9 - (r.length - t.length)), t.dropWhile Char.isDigit)
  | s => some (0, s)

def offsetSign? : List Char → Option (Int × List Char)
  | '+' :: r => some (1, r)
  | '-' :: r => some (-1, r)
  | '−' :: r => some (-1, r)
  | _ => none

def pair? : List Char → Option (Nat × List Char)
  | a :: b :: r => if a.isDigit && b.isDigit then some (Decimal.ofDigits [a, b], r) else none
  | _ => none

def offset? (s : List Char) : Option (Int × List Char) :=
  match s with
  | 'Z' :: r | 'z' :: r => some (0, r)
  | _ =>
    if (s.take 3).map Char.toLower = "utc".toList then some (0, s.drop 3)
    else do
      let (sign, s) ← offsetSign? s
      let (hours, s) ← pair? s
      let (minutes, s) ← pair? (s.dropWhile fun c => c = ':' || Text.isBlank c)
      if minutes < 60 ∧ hours < 24 then some (sign * (3600 * hours + 60 * minutes : Nat), s)
      else none

def date? (s : List Char) : Option (Date × List Char) := do
  let (year, s) ← year? s
  let s ← separator? '-' s
  let (month, s) ← field? 2 s
  let s ← separator? '-' s
  let (day, s) ← field? 2 s
  return (⟨year, month, day⟩, s)

def afterMark? : List Char → Option (List Char)
  | 'T' :: r | 't' :: r | ' ' :: r => some r
  | _ => none

structure Clock where
  hour : Nat
  minute : Nat
  second : Nat
  nano : Nat
  offset : Int

def clock? (s : List Char) : Option (Clock × List Char) := do
  let (hour, s) ← field? 2 s
  let s ← separator? ':' s
  let (minute, s) ← field? 2 s
  let s ← separator? ':' s
  let (second, s) ← field? 2 s
  let (nano, s) ← nano? s
  let (offset, s) ← offset? (Text.trimLeft s)
  return (⟨hour, minute, second, nano, offset⟩, s)

/-- The moment that a clock of universal time would show. A sixtieth second is a leap second. -/
def Clock.on (c : Clock) (date : Date) : Timestamp where
  date := date
  second := 3600 * c.hour + 60 * c.minute + if c.second = 60 then 59 else c.second
  nano := if c.second = 60 then c.nano + 1000000000 else c.nano

def Clock.moment? (c : Clock) (date : Date) : Option Timestamp :=
  if date.isValid && c.hour < 24 && c.minute < 60 && c.second ≤ 60 then
    let u := (c.on date).earlier c.offset
    if u.date.isValid then some u else none
  else none

def parse? (s : List Char) : Option Timestamp := do
  let (date, s) ← date? s
  let s ← afterMark? s
  let (clock, s) ← clock? s
  if (Text.trimLeft s).isEmpty then clock.moment? date else none

end Timestamp

end QuestionSynthesis
