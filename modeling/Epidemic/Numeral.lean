namespace Epidemic.Numeral

def digitChar (d : Nat) : Char :=
  if d < 10 then Char.ofNat (48 + d) else Char.ofNat (87 + d)

def digitValue? (base : Nat) (c : Char) : Option Nat :=
  let v :=
    if '0' ≤ c ∧ c ≤ '9' then c.toNat - 48
    else if 'a' ≤ c ∧ c ≤ 'z' then c.toNat - 87
    else if 'A' ≤ c ∧ c ≤ 'Z' then c.toNat - 55
    else base
  if v < base then some v else none

def digits (base n : Nat) : List Char :=
  if n < base ∨ base < 2 then [digitChar n]
  else digits base (n / base) ++ [digitChar (n % base)]
termination_by n
decreasing_by exact Nat.div_lt_self (by omega) (by omega)

def padded (width base n : Nat) : List Char :=
  List.replicate (width - (digits base n).length) '0' ++ digits base n

def decimal (n : Nat) : String :=
  String.ofList (digits 10 n)

def signedDecimal (i : Int) : String :=
  if i < 0 then "-" ++ decimal i.natAbs else decimal i.natAbs

def value (base : Nat) (ds : List Nat) : Nat :=
  ds.foldl (fun acc d => acc * base + d) 0

def span (base : Nat) : List Char → List Nat × List Char
  | [] => ([], [])
  | c :: cs =>
      match digitValue? base c with
      | some d => ((d :: (span base cs).1), (span base cs).2)
      | none => ([], c :: cs)

def spanUpTo (base : Nat) : Nat → List Char → List Nat × List Char
  | 0, cs => ([], cs)
  | _ + 1, [] => ([], [])
  | width + 1, c :: cs =>
      match digitValue? base c with
      | some d => ((d :: (spanUpTo base width cs).1), (spanUpTo base width cs).2)
      | none => ([], c :: cs)

end Epidemic.Numeral
