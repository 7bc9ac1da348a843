namespace Epidemic

structure Binary32 where
  bits : UInt32
  deriving DecidableEq, Repr

namespace Binary32

def zero : Binary32 := ⟨0⟩

def infinityBits : Nat := 0x7f800000

def quietNanBits : Nat := 0x7fc00000

def magnitude (x : Binary32) : Nat :=
  x.bits.toNat % 0x80000000

def isNegative (x : Binary32) : Bool :=
  0x80000000 ≤ x.bits.toNat

def isNan (x : Binary32) : Bool :=
  infinityBits < x.magnitude

def isInfinite (x : Binary32) : Bool :=
  x.magnitude = infinityBits

def isFinite (x : Binary32) : Bool :=
  x.magnitude < infinityBits

def ofParts (negative : Bool) (magnitude : Nat) : Binary32 :=
  ⟨UInt32.ofNat (if negative then 0x80000000 + magnitude else magnitude)⟩

def quantaOf (magnitude : Nat) : Nat :=
  let exponent := magnitude / 0x800000
  let fraction := magnitude % 0x800000
  if exponent = 0 then fraction else (0x800000 + fraction) * Nat.pow 2 (exponent - 1)

def quanta (x : Binary32) : Nat :=
  quantaOf x.magnitude

def quantaPerUnit : Nat := Nat.pow 2 149

def roundDiv (num den : Nat) : Nat :=
  let q := num / den
  let r := num % den
  if 2 * r < den then q
  else if den < 2 * r then q + 1
  else if q % 2 = 0 then q else q + 1

def nearest (num den : Nat) : Nat :=
  let scaled := num * quantaPerUnit
  let shift := (scaled / den).log2 - 23
  min (shift * 0x800000 + roundDiv scaled (den * Nat.pow 2 shift)) infinityBits

end Binary32

end Epidemic
