import Epidemic.Numeral

namespace Epidemic

structure Ipv4 where
  a : UInt8
  b : UInt8
  c : UInt8
  d : UInt8
  deriving DecidableEq, Repr

structure Ipv6 where
  groups : List UInt16
  size_groups : groups.length = 8
  deriving DecidableEq, Repr

inductive Ip where
  | v4 (ip : Ipv4)
  | v6 (ip : Ipv6)
  deriving DecidableEq, Repr

namespace Ipv4

def octetText (o : UInt8) : List Char :=
  Numeral.digits 10 o.toNat

def text (ip : Ipv4) : List Char :=
  octetText ip.a ++ '.' :: octetText ip.b ++ '.' :: octetText ip.c ++ '.' :: octetText ip.d

def readOctet? (cs : List Char) : Option (UInt8 × List Char) :=
  let (ds, rest) := Numeral.span 10 cs
  let n := Numeral.value 10 ds
  if ds.isEmpty ∨ 3 < ds.length ∨ 255 < n then none
  else if ds.head? = some 0 ∧ 1 < ds.length then none
  else some (UInt8.ofNat n, rest)

def readDotted? (cs : List Char) : Option (UInt8 × List Char) :=
  match cs with
  | '.' :: rest => readOctet? rest
  | _ => none

def read? (cs : List Char) : Option (Ipv4 × List Char) := do
  let (a, cs) ← readOctet? cs
  let (b, cs) ← readDotted? cs
  let (c, cs) ← readDotted? cs
  let (d, cs) ← readDotted? cs
  some (⟨a, b, c, d⟩, cs)

def octets (ip : Ipv4) : List UInt8 :=
  [ip.a, ip.b, ip.c, ip.d]

def groups (ip : Ipv4) : List UInt16 :=
  [UInt16.ofNat (256 * ip.a.toNat + ip.b.toNat), UInt16.ofNat (256 * ip.c.toNat + ip.d.toNat)]

def ofGroups (high low : UInt16) : Ipv4 :=
  ⟨UInt8.ofNat (high.toNat / 256), UInt8.ofNat (high.toNat % 256), UInt8.ofNat (low.toNat / 256),
    UInt8.ofNat (low.toNat % 256)⟩

end Ipv4

namespace Ipv6

def ofGroups? (groups : List UInt16) : Option Ipv6 :=
  if h : groups.length = 8 then some ⟨groups, h⟩ else none

def groupText (g : UInt16) : List Char :=
  Numeral.digits 16 g.toNat

def joined : List UInt16 → List Char
  | [] => []
  | [g] => groupText g
  | g :: gs => groupText g ++ ':' :: joined gs

def leadingZeros : List UInt16 → Nat
  | [] => 0
  | g :: gs => if g = 0 then leadingZeros gs + 1 else 0

def longestZeros : List UInt16 → Nat × Nat
  | [] => (0, 0)
  | g :: gs =>
      let here := leadingZeros (g :: gs)
      let (start, length) := longestZeros gs
      if length ≤ here then (0, here) else (start + 1, length)

def mapped? (ip : Ipv6) : Option Ipv4 :=
  match ip.groups with
  | [0, 0, 0, 0, 0, 0xffff, high, low] => some (Ipv4.ofGroups high low)
  | _ => none

def text (ip : Ipv6) : List Char :=
  match ip.mapped? with
  | some inner => [':', ':', 'f', 'f', 'f', 'f', ':'] ++ inner.text
  | none =>
      let (start, length) := longestZeros ip.groups
      if 2 ≤ length then
        joined (ip.groups.take start) ++ ':' :: ':' :: joined (ip.groups.drop (start + length))
      else joined ip.groups

def readGroup? (cs : List Char) : Option (UInt16 × List Char) :=
  let (ds, rest) := Numeral.span 16 cs
  if ds.isEmpty ∨ 4 < ds.length then none
  else some (UInt16.ofNat (Numeral.value 16 ds), rest)

def afterColon? (first : Bool) (cs : List Char) : Option (List Char) :=
  if first then some cs
  else
    match cs with
    | ':' :: rest => some rest
    | _ => none

-- At most `limit` groups between colons. An IPv4 address may stand for the last two and ends the
-- row; whether one did is the second result.
def readGroups : Nat → Bool → List Char → List UInt16 × Bool × List Char
  | 0, _, cs => ([], false, cs)
  | left + 1, first, cs =>
      match afterColon? first cs with
      | none => ([], false, cs)
      | some body =>
          match if 1 ≤ left then Ipv4.read? body else none with
          | some (inner, rest) => (inner.groups, true, rest)
          | none =>
              match readGroup? body with
              | none => ([], false, cs)
              | some (g, rest) =>
                  let (gs, dotted, rest) := readGroups left false rest
                  (g :: gs, dotted, rest)

def read? (cs : List Char) : Option (Ipv6 × List Char) :=
  let (head, dotted, rest) := readGroups 8 true cs
  if head.length = 8 then (ofGroups? head).map (·, rest)
  else if dotted then none
  else
    match rest with
    | ':' :: ':' :: rest =>
        let (tail, _, rest) := readGroups (7 - head.length) true rest
        let zeros := List.replicate (8 - head.length - tail.length) 0
        (ofGroups? (head ++ zeros ++ tail)).map (·, rest)
    | _ => none

def octets (ip : Ipv6) : List UInt8 :=
  ip.groups.flatMap fun g => [UInt8.ofNat (g.toNat / 256), UInt8.ofNat (g.toNat % 256)]

def pairOctets : List UInt8 → List UInt16
  | hi :: lo :: rest => UInt16.ofNat (256 * hi.toNat + lo.toNat) :: pairOctets rest
  | _ => []

end Ipv6

namespace Ip

def text : Ip → List Char
  | .v4 ip => ip.text
  | .v6 ip => ip.text

def read? (cs : List Char) : Option (Ip × List Char) :=
  match Ipv4.read? cs with
  | some (ip, rest) => some (.v4 ip, rest)
  | none => (Ipv6.read? cs).map fun r => (.v6 r.1, r.2)

def ofText? (cs : List Char) : Option Ip :=
  match read? cs with
  | some (ip, []) => some ip
  | _ => none

end Ip

end Epidemic
