import Epidemic.Bytes

namespace Epidemic.Edwards

def field : Nat := Nat.pow 2 255 - 19

structure Point where
  x : Nat
  y : Nat
  z : Nat
  t : Nat
  deriving DecidableEq, Repr

def neutral : Point := ⟨0, 1, 1, 0⟩

def curveConstant : Nat :=
  37095705934669439343138083508754565189542113879843219016388785533085940283555

def base : Point where
  x := 15112221349535400772501151409588531511454012693041857206046113283949847762202
  y := 46316835694926478169428394003475163141307993866256225615783033603165251855960
  z := 1
  t := 46827403850823179245072216630277197565144205554125654976674165829533817101731

def sub (a b : Nat) : Nat :=
  (a + field - b) % field

def add (p q : Point) : Point :=
  let a := sub p.y p.x * sub q.y q.x % field
  let b := (p.y + p.x) * (q.y + q.x) % field
  let c := p.t * 2 * curveConstant % field * q.t % field
  let d := p.z * 2 * q.z % field
  let e := sub b a
  let f := sub d c
  let g := (d + c) % field
  let h := (b + a) % field
  ⟨e * f % field, g * h % field, f * g % field, e * h % field⟩

def scale : Nat → Nat → Point → Point
  | 0, _, _ => neutral
  | width + 1, n, p =>
      let rest := scale width (n / 2) (add p p)
      if n % 2 = 1 then add p rest else rest

def power : Nat → Nat → Nat → Nat
  | 0, _, _ => 1
  | width + 1, n, a =>
      let rest := power width (n / 2) (a * a % field)
      if n % 2 = 1 then a * rest % field else rest

def inverse (a : Nat) : Nat :=
  power 255 (field - 2) a

def littleEndian : Nat → Nat → Bytes
  | 0, _ => []
  | width + 1, n => UInt8.ofNat (n % 256) :: littleEndian width (n / 256)

def ofLittleEndian : Bytes → Nat
  | [] => 0
  | b :: bs => b.toNat + 256 * ofLittleEndian bs

def encode (p : Point) : Bytes :=
  let z := inverse p.z
  let x := p.x * z % field
  let y := p.y * z % field
  littleEndian 32 (y + Nat.pow 2 255 * (x % 2))

end Epidemic.Edwards
