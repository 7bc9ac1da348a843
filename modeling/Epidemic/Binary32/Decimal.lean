import Epidemic.Binary32.Basic
import Epidemic.Numeral

namespace Epidemic.Binary32

def hundredths (x : Binary32) : Nat :=
  roundDiv (x.quanta * 100) quantaPerUnit

def hundredthsText (h : Nat) : List Char :=
  Numeral.digits 10 (h / 100) ++ '.' :: Numeral.padded 2 10 (h % 100)

def toFixed (x : Binary32) : List Char :=
  if x.isNan then ['N', 'a', 'N']
  else
    let body := if x.isInfinite then ['i', 'n', 'f'] else hundredthsText x.hundredths
    if x.isNegative then '-' :: body else body

structure Literal where
  digits : List Nat
  places : Nat
  exponent : Int
  deriving DecidableEq, Repr

def Literal.significand (l : Literal) : Nat :=
  Numeral.value 10 l.digits

-- Values of at least `10 ^ 40` exceed every finite magnitude and values below `10 ^ (-46)` are
-- less than half a quantum.
def Literal.magnitude (l : Literal) : Nat :=
  let significand := l.significand
  let scale := l.exponent - l.places
  let top := scale + (Numeral.digits 10 significand).length
  if significand = 0 then 0
  else if 40 < top then infinityBits
  else if top < -46 then 0
  else if 0 ≤ scale then nearest (significand * Nat.pow 10 scale.toNat) 1
  else nearest significand (Nat.pow 10 (-scale).toNat)

def readSign : List Char → Bool × List Char
  | '-' :: cs => (true, cs)
  | '+' :: cs => (false, cs)
  | cs => (false, cs)

def readExponent? : List Char → Option Int
  | [] => some 0
  | c :: cs =>
      if c = 'e' ∨ c = 'E' then
        let (negative, rest) := readSign cs
        match Numeral.span 10 rest with
        | ([], _) => none
        | (ds, []) =>
            let n : Int := Numeral.value 10 ds
            some (if negative then -n else n)
        | _ => none
      else none

def readLiteral? (cs : List Char) : Option Literal :=
  let (whole, rest) := Numeral.span 10 cs
  let (part, rest) :=
    match rest with
    | '.' :: rest => Numeral.span 10 rest
    | rest => ([], rest)
  if whole.isEmpty && part.isEmpty then none
  else (readExponent? rest).map fun e => ⟨whole ++ part, part.length, e⟩

def named? (cs : List Char) : Option Nat :=
  let name := cs.map Char.toLower
  if name = ['i', 'n', 'f'] ∨ name = ['i', 'n', 'f', 'i', 'n', 'i', 't', 'y'] then some infinityBits
  else if name = ['n', 'a', 'n'] then some quietNanBits
  else none

def ofText? (cs : List Char) : Option Binary32 :=
  let (negative, body) := readSign cs
  match readLiteral? body with
  | some l => some (ofParts negative l.magnitude)
  | none => (named? body).map (ofParts negative)

end Epidemic.Binary32
