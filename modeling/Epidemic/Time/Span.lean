import Epidemic.Numeral

namespace Epidemic.Span

def fraction (thousandths : Nat) : List Char :=
  if thousandths = 0 then []
  else
    '.' :: ((Numeral.padded 3 10 thousandths).reverse.dropWhile (· = '0')).reverse

def text (ms : Nat) : String :=
  if ms = 0 then "0ns"
  else if ms < 1000 then Numeral.decimal ms ++ "ms"
  else String.ofList (Numeral.digits 10 (ms / 1000) ++ fraction (ms % 1000)) ++ "s"

end Epidemic.Span
