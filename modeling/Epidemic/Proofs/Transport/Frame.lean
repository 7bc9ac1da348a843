import Epidemic.Transport.Frame

namespace Epidemic.Frame

def Fits (limit : Nat) (payload : Bytes) : Prop :=
  payload.length ≤ limit ∧ payload.length < 0x100000000

instance (limit : Nat) (payload : Bytes) : Decidable (Fits limit payload) :=
  inferInstanceAs (Decidable (_ ∧ _))

def frame (payload : Bytes) : Bytes :=
  lengthBytes payload.length ++ payload

variable {limit : Nat} {payload : Bytes}

theorem write_of_fits (h : Fits limit payload) : write limit payload = .ok (frame payload) := by
  obtain ⟨within, counted⟩ := h
  rw [write, if_neg (by omega), frame]

theorem write_of_not_fits (h : ¬Fits limit payload) :
    write limit payload = .error (.content (.tooLarge payload.length limit)) := by
  simp only [Fits] at h
  rw [write, if_pos (by omega)]

theorem lengthOf_lengthBytes {n : Nat} (counted : n < 0x100000000) :
    lengthOf (.ofNat (n / 0x1000000)) (.ofNat (n / 0x10000)) (.ofNat (n / 0x100)) (.ofNat n) =
      n := by
  simp only [lengthOf, UInt8.toNat_ofNat']
  omega

theorem read_frame (h : Fits limit payload) (rest : Bytes) :
    read limit (frame payload ++ rest) = (.ok payload, rest) := by
  obtain ⟨within, counted⟩ := h
  simp only [frame, lengthBytes, List.cons_append, List.nil_append, read,
    lengthOf_lengthBytes counted]
  rw [if_neg (by omega), if_neg (by simp), List.take_left, List.drop_left]

end Epidemic.Frame
