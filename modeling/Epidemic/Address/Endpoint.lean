import Epidemic.Address.Ip

namespace Epidemic

inductive Endpoint where
  | v4 (ip : Ipv4) (port : UInt16)
  | v6 (ip : Ipv6) (port : UInt16) (flow scope : UInt32)
  deriving DecidableEq, Repr

namespace Endpoint

def ip : Endpoint → Ip
  | .v4 ip _ => .v4 ip
  | .v6 ip _ _ _ => .v6 ip

def port : Endpoint → UInt16
  | .v4 _ port => port
  | .v6 _ port _ _ => port

def ofIp : Ip → UInt16 → Endpoint
  | .v4 ip, port => .v4 ip port
  | .v6 ip, port => .v6 ip port 0 0

def bare (e : Endpoint) : Endpoint :=
  ofIp e.ip e.port

@[simp] theorem ip_ofIp (ip : Ip) (port : UInt16) : (ofIp ip port).ip = ip := by
  cases ip <;> rfl

@[simp] theorem port_ofIp (ip : Ip) (port : UInt16) : (ofIp ip port).port = port := by
  cases ip <;> rfl

def text : Endpoint → String
  | .v4 ip port => String.ofList (ip.text ++ ':' :: Numeral.digits 10 port.toNat)
  | .v6 ip port _ scope =>
      let zone := if scope = 0 then [] else '%' :: Numeral.digits 10 scope.toNat
      String.ofList ('[' :: ip.text ++ zone ++ ']' :: ':' :: Numeral.digits 10 port.toNat)

def readNumber? (bound : Nat) (cs : List Char) : Option (Nat × List Char) :=
  let (ds, rest) := Numeral.span 10 cs
  let n := Numeral.value 10 ds
  if ds.isEmpty ∨ bound ≤ n then none else some (n, rest)

def readPort? : List Char → Option UInt16
  | ':' :: cs =>
      match readNumber? 0x10000 cs with
      | some (n, []) => some (UInt16.ofNat n)
      | _ => none
  | _ => none

def readScope : List Char → UInt32 × List Char
  | '%' :: cs =>
      match readNumber? 0x100000000 cs with
      | some (n, rest) => (UInt32.ofNat n, rest)
      | none => (0, '%' :: cs)
  | cs => (0, cs)

def readV6? (cs : List Char) : Option Endpoint := do
  let (ip, rest) ← Ipv6.read? cs
  let (scope, rest) := readScope rest
  match rest with
  | ']' :: rest => (readPort? rest).map fun port => .v6 ip port 0 scope
  | _ => none

def ofText? (s : String) : Option Endpoint :=
  match s.toList with
  | '[' :: cs => readV6? cs
  | cs =>
      match Ipv4.read? cs with
      | some (ip, rest) => (readPort? rest).map (.v4 ip)
      | none => none

end Endpoint

end Epidemic
