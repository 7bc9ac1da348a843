import Epidemic.Bytes

namespace Epidemic.Wire

inductive Fault where
  | endOfInput
  | badBool
  | badOption
  | badVarint
  | badText
  | badValue
  deriving DecidableEq, Repr

def Fault.message : Fault → String
  | .endOfInput => "Hit the end of buffer, expected more data"
  | .badBool => "Found a bool that wasn't 0 or 1"
  | .badOption => "Found an Option discriminant that wasn't 0 or 1"
  | .badVarint =>
      "Found a varint that didn't terminate. Is the usize too big for this platform?"
  | .badText => "Tried to parse invalid utf-8"
  | .badValue => "Serde Deserialization Error"

structure Format (α : Type) where
  write : α → Bytes
  read : Bytes → Except Fault (α × Bytes)

namespace Format

variable {α β : Type}

def decode (f : Format α) (bs : Bytes) : Except Fault α :=
  (f.read bs).map Prod.fst

def pair (f : Format α) (g : Format β) : Format (α × β) where
  write v := f.write v.1 ++ g.write v.2
  read bs := do
    let (a, bs) ← f.read bs
    let (b, bs) ← g.read bs
    .ok ((a, b), bs)

def via (f : Format α) (back : β → α) (make : α → Option β) : Format β where
  write v := f.write (back v)
  read bs := do
    let (a, bs) ← f.read bs
    match make a with
    | some b => .ok (b, bs)
    | none => .error .badValue

def iso (f : Format α) (back : β → α) (make : α → β) : Format β :=
  f.via back (some ∘ make)

def byte : Format UInt8 where
  write b := [b]
  read
    | [] => .error .endOfInput
    | b :: bs => .ok (b, bs)

def takeBytes (n : Nat) (bs : Bytes) : Except Fault (Bytes × Bytes) :=
  if n ≤ bs.length then .ok (bs.take n, bs.drop n) else .error .endOfInput

def writeVarint (n : Nat) : Bytes :=
  if n < 128 then [UInt8.ofNat n] else UInt8.ofNat (n % 128 + 128) :: writeVarint (n / 128)
termination_by n
decreasing_by omega

-- Seven bits a byte, lowest first. A number ends within `left` bytes, and the last of these that
-- may be used holds at most `last`.
def readVarint (last : Nat) : Nat → Bytes → Except Fault (Nat × Bytes)
  | 0, _ => .error .badVarint
  | _ + 1, [] => .error .endOfInput
  | left + 1, b :: bs =>
      if b.toNat < 128 then
        if left = 0 ∧ last < b.toNat then .error .badVarint else .ok (b.toNat, bs)
      else do
        let (n, bs) ← readVarint last left bs
        .ok (b.toNat - 128 + 128 * n, bs)

inductive Width where
  | w16
  | w32
  | w64
  deriving DecidableEq, Repr

def Width.bits : Width → Nat
  | .w16 => 16
  | .w32 => 32
  | .w64 => 64

def Width.room : Width → Nat × Nat
  | .w16 => (3, 3)
  | .w32 => (5, 15)
  | .w64 => (10, 1)

def natural (w : Width) : Format Nat where
  write := writeVarint
  read := readVarint w.room.2 w.room.1

def uint16 : Format UInt16 :=
  (natural .w16).iso UInt16.toNat UInt16.ofNat

def uint32 : Format UInt32 :=
  (natural .w32).iso UInt32.toNat UInt32.ofNat

def zigzag (i : Int) : Nat :=
  if 0 ≤ i then 2 * i.natAbs else 2 * i.natAbs - 1

def unzigzag (n : Nat) : Int :=
  if n % 2 = 0 then (n / 2 : Nat) else -((n / 2 + 1 : Nat) : Int)

theorem unzigzag_zigzag (i : Int) : unzigzag (zigzag i) = i := by
  simp only [zigzag, unzigzag]
  split <;> split <;> omega

def int32 : Format Int32 :=
  (natural .w32).iso (fun i => zigzag i.toInt) (fun n => Int32.ofInt (unzigzag n))

def int64 : Format Int64 :=
  (natural .w64).iso (fun i => zigzag i.toInt) (fun n => Int64.ofInt (unzigzag n))

def bool : Format Bool where
  write b := [if b then 1 else 0]
  read
    | [] => .error .endOfInput
    | b :: bs => if b = 0 then .ok (false, bs) else if b = 1 then .ok (true, bs) else .error .badBool

def word32 : Format UInt32 where
  write w := [w.toUInt8, (w >>> 8).toUInt8, (w >>> 16).toUInt8, (w >>> 24).toUInt8]
  read
    | a :: b :: c :: d :: bs =>
        .ok (UInt32.ofNat
          (a.toNat + 256 * (b.toNat + 256 * (c.toNat + 256 * d.toNat))), bs)
    | _ => .error .endOfInput

def octets (n : Nat) : Format Bytes where
  write bs := bs
  read := takeBytes n

def bytes : Format Bytes where
  write bs := writeVarint bs.length ++ bs
  read bs := do
    let (n, bs) ← (natural .w64).read bs
    takeBytes n bs

def option (f : Format α) : Format (Option α) where
  write
    | none => [0]
    | some a => 1 :: f.write a
  read
    | [] => .error .endOfInput
    | b :: bs =>
        if b = 0 then .ok (none, bs)
        else if b = 1 then do
          let (a, bs) ← f.read bs
          .ok (some a, bs)
        else .error .badOption

def readMany (f : Format α) : Nat → Bytes → Except Fault (List α × Bytes)
  | 0, bs => .ok ([], bs)
  | n + 1, bs => do
      let (a, bs) ← f.read bs
      let (as, bs) ← readMany f n bs
      .ok (a :: as, bs)

def list (f : Format α) : Format (List α) where
  write as := writeVarint as.length ++ as.flatMap f.write
  read bs := do
    let (n, bs) ← (natural .w64).read bs
    readMany f n bs

end Format

end Epidemic.Wire
