import Epidemic.Numeral
import Epidemic.Text.Blank
import Epidemic.Time.Calendar
import Epidemic.Time.Instant

namespace Epidemic.Stamp

def yearText (y : Int) : List Char :=
  if 0 ≤ y ∧ y ≤ 9999 then Numeral.padded 4 10 y.natAbs
  else (if y < 0 then '-' else '+') :: Numeral.padded 4 10 y.natAbs

def fractionText (nanos : Nat) : List Char :=
  if nanos = 0 then []
  else if nanos % 1000000 = 0 then '.' :: Numeral.padded 3 10 (nanos / 1000000)
  else if nanos % 1000 = 0 then '.' :: Numeral.padded 6 10 (nanos / 1000)
  else '.' :: Numeral.padded 9 10 nanos

def pair (n : Nat) : List Char :=
  Numeral.padded 2 10 n

def text (t : Instant) : List Char :=
  let date := Calendar.ofDay (t.seconds / Instant.secondsPerDay)
  let s := t.secondOfDay.toNat
  let second := if t.isLeap then s % 60 + 1 else s % 60
  let nanos := if t.isLeap then t.nanos - Instant.nanosPerSecond else t.nanos
  yearText date.year ++ '-' :: pair date.month ++ '-' :: pair date.day ++
    'T' :: pair (s / 3600) ++ ':' :: pair (s / 60 % 60) ++ ':' :: pair second ++
    fractionText nanos ++ ['Z']

def readNumber? (width low high : Nat) (cs : List Char) : Option (Nat × List Char) :=
  let (ds, rest) := Numeral.spanUpTo 10 width (Text.trimStart cs)
  let n := Numeral.value 10 ds
  if ds.isEmpty ∨ n < low ∨ high < n then none else some (n, rest)

def readYear? (cs : List Char) : Option (Int × List Char) :=
  let signed (negative : Bool) (cs : List Char) : Option (Int × List Char) :=
    let (ds, rest) := Numeral.span 10 cs
    let n : Int := Numeral.value 10 ds
    if ds.isEmpty then none else some (if negative then -n else n, rest)
  match Text.trimStart cs with
  | '-' :: cs => signed true cs
  | '+' :: cs => signed false cs
  | cs => (readNumber? 4 0 9999 cs).map fun r => ((r.1 : Int), r.2)

def readMark? (mark : Char) (cs : List Char) : Option (List Char) :=
  match Text.trimStart cs with
  | c :: rest => if c = mark then some rest else none
  | [] => none

def readSeparator? : List Char → Option (List Char)
  | c :: rest => if c = 'T' ∨ c = 't' ∨ c = ' ' then some rest else none
  | [] => none

def readFraction? : List Char → Option (Nat × List Char)
  | '.' :: cs =>
      let (ds, rest) := Numeral.span 10 cs
      let kept := ds.take 9
      if ds.isEmpty then none
      else some (Numeral.value 10 kept * Nat.pow 10 (9 - kept.length), rest)
  | cs => some (0, cs)

def minusSign : Char := Char.ofNat 0x2212

def readOffsetSign? : List Char → Option (Bool × List Char)
  | c :: rest =>
      if c = '+' then some (false, rest)
      else if c = '-' ∨ c = minusSign then some (true, rest)
      else none
  | [] => none

def readPair? (high : Nat) : List Char → Option (Nat × List Char)
  | a :: b :: rest =>
      match Numeral.digitValue? 10 a, Numeral.digitValue? 10 b with
      | some x, some y => if 10 * x + y ≤ high then some (10 * x + y, rest) else none
      | _, _ => none
  | _ => none

def dropColons (cs : List Char) : List Char :=
  cs.dropWhile fun c => c = ':' || Text.isBlank c

def readOffset? (cs : List Char) : Option (Int × List Char) :=
  if (cs.take 3).map Char.toLower = ['u', 't', 'c'] then some (0, cs.drop 3)
  else
    match cs with
    | 'Z' :: rest => some (0, rest)
    | 'z' :: rest => some (0, rest)
    | _ => do
        let (negative, rest) ← readOffsetSign? cs
        let (hours, rest) ← readPair? 99 rest
        let (minutes, rest) ← readPair? 59 (dropColons rest)
        let n : Int := 3600 * hours + 60 * minutes
        some (if negative then -n else n, rest)

structure Fields where
  date : Calendar.Date
  hour : Nat
  minute : Nat
  second : Nat
  nanos : Nat
  offset : Int
  deriving DecidableEq, Repr

def Fields.instant? (f : Fields) : Option Instant :=
  let second := if f.second = 60 then 59 else f.second
  let nanos := if f.second = 60 then f.nanos + Instant.nanosPerSecond else f.nanos
  let s := Calendar.day f.date * Instant.secondsPerDay + 3600 * f.hour + 60 * f.minute + second -
    f.offset
  if ¬(Calendar.firstYear ≤ f.date.year ∧ f.date.year ≤ Calendar.lastYear) then none
  else if ¬Calendar.isDate f.date then none
  else if Instant.secondsPerDay ≤ f.offset.natAbs then none
  else if Instant.inRange s then some ⟨s, nanos⟩
  else none

def readFields? (cs : List Char) : Option (Fields × List Char) := do
  let (year, cs) ← readYear? cs
  let cs ← readMark? '-' cs
  let (month, cs) ← readNumber? 2 1 12 cs
  let cs ← readMark? '-' cs
  let (day, cs) ← readNumber? 2 1 31 cs
  let cs ← readSeparator? cs
  let (hour, cs) ← readNumber? 2 0 23 cs
  let cs ← readMark? ':' cs
  let (minute, cs) ← readNumber? 2 0 59 cs
  let cs ← readMark? ':' cs
  let (second, cs) ← readNumber? 2 0 60 cs
  let (nanos, cs) ← readFraction? cs
  let (offset, cs) ← readOffset? (Text.trimStart cs)
  some (⟨⟨year, month, day⟩, hour, minute, second, nanos, offset⟩, cs)

def read? (cs : List Char) : Option Instant := do
  let (fields, rest) ← readFields? cs
  if (Text.trimStart rest).isEmpty then fields.instant? else none

end Epidemic.Stamp
