import Epidemic.Numeral

namespace Epidemic.Text

def hidden : List (Nat × Nat) :=
  [(0x00, 0x1f), (0x7f, 0xa0), (0xad, 0xad), (0x600, 0x605), (0x61c, 0x61c), (0x6dd, 0x6dd),
    (0x70f, 0x70f), (0x1680, 0x1680), (0x180e, 0x180e), (0x2000, 0x200f), (0x2028, 0x202f),
    (0x205f, 0x206f), (0x3000, 0x3000), (0xe000, 0xf8ff), (0xfeff, 0xfeff), (0xfff9, 0xfffb),
    (0xe0000, 0x10ffff)]

def isHidden (c : Char) : Bool :=
  hidden.any fun r => r.1 ≤ c.toNat && c.toNat ≤ r.2

def backslash : Char := Char.ofNat 92

def escape (quote c : Char) : List Char :=
  if c = Char.ofNat 0 then [backslash, '0']
  else if c = Char.ofNat 9 then [backslash, 't']
  else if c = Char.ofNat 10 then [backslash, 'n']
  else if c = Char.ofNat 13 then [backslash, 'r']
  else if c = backslash ∨ c = quote then [backslash, c]
  else if isHidden c then
    backslash :: 'u' :: Char.ofNat 123 :: Numeral.digits 16 c.toNat ++ [Char.ofNat 125]
  else [c]

def singleQuote : Char := Char.ofNat 39

def doubleQuote : Char := Char.ofNat 34

def quotedChar (c : Char) : String :=
  String.ofList (singleQuote :: escape singleQuote c ++ [singleQuote])

def quoted (s : String) : String :=
  String.ofList (doubleQuote :: s.toList.flatMap (escape doubleQuote) ++ [doubleQuote])

end Epidemic.Text
