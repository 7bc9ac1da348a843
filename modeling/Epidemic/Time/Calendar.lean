namespace Epidemic.Calendar

structure Date where
  year : Int
  month : Nat
  day : Nat
  deriving DecidableEq, Repr

def firstYear : Int := -262143

def lastYear : Int := 262142

def isLeapYear (y : Int) : Bool :=
  y % 4 = 0 && (y % 100 ≠ 0 || y % 400 = 0)

def monthLengths (y : Int) : List Nat :=
  [31, if isLeapYear y then 29 else 28, 31, 30, 31, 30, 31, 31, 30, 31, 30, 31]

def daysBeforeYear (y : Int) : Int :=
  365 * y + (y + 3) / 4 - (y + 99) / 100 + (y + 399) / 400

def epoch : Int := 719528

def yearOf (d : Int) : Int :=
  let y := d * 400 / 146097
  if d < daysBeforeYear y then y - 1
  else if daysBeforeYear (y + 1) ≤ d then y + 1
  else y

def monthOf (month : Nat) : List Nat → Nat → Nat × Nat
  | [], d => (month, d + 1)
  | n :: ns, d => if d < n then (month, d + 1) else monthOf (month + 1) ns (d - n)

def ofDay (day : Int) : Date :=
  let d := day + epoch
  let y := yearOf d
  let (m, dom) := monthOf 1 (monthLengths y) (d - daysBeforeYear y).toNat
  ⟨y, m, dom⟩

def daysBeforeMonth (y : Int) (month : Nat) : Nat :=
  ((monthLengths y).take (month - 1)).foldl (· + ·) 0

def day (date : Date) : Int :=
  daysBeforeYear date.year + daysBeforeMonth date.year date.month + date.day - 1 - epoch

def isDate (date : Date) : Bool :=
  1 ≤ date.month && date.month ≤ 12 && 1 ≤ date.day &&
    date.day ≤ (monthLengths date.year).getD (date.month - 1) 0

end Epidemic.Calendar
