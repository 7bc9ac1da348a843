import Epidemic.Transport.Error

namespace Epidemic.Frame

def lengthBytes (n : Nat) : Bytes :=
  [UInt8.ofNat (n / 0x1000000), UInt8.ofNat (n / 0x10000), UInt8.ofNat (n / 0x100), UInt8.ofNat n]

def lengthOf (a b c d : UInt8) : Nat :=
  ((a.toNat * 256 + b.toNat) * 256 + c.toNat) * 256 + d.toNat

def write (limit : Nat) (payload : Bytes) : Except TransportError Bytes :=
  if limit < payload.length ∨ 0x100000000 ≤ payload.length then
    .error (.content (.tooLarge payload.length limit))
  else .ok (lengthBytes payload.length ++ payload)

def send (limit : Nat) (closed : Bool) (payload : Bytes) : Except TransportError Bytes :=
  match write limit payload with
  | .error e => .error e
  | .ok bytes => if closed then .error (.sendFailed "broken pipe") else .ok bytes

def read (limit : Nat) (stream : Bytes) : Except TransportError Bytes × Bytes :=
  match stream with
  | a :: b :: c :: d :: rest =>
      let n := lengthOf a b c d
      if limit < n then (.error (.content (.tooLarge n limit)), rest)
      else if rest.length < n then (.error (.receiveFailed "early eof"), [])
      else (.ok (rest.take n), rest.drop n)
  | _ => (.error (.receiveFailed "unexpected end of file"), [])

def isDecided (limit : Nat) (stream : Bytes) : Bool :=
  match stream with
  | a :: b :: c :: d :: rest => limit < lengthOf a b c d || lengthOf a b c d ≤ rest.length
  | _ => false

theorem read_append {limit : Nat} {stream : Bytes} (more : Bytes) (h : isDecided limit stream) :
    (read limit (stream ++ more)).1 = (read limit stream).1 := by
  unfold isDecided at h
  split at h
  · simp only [Bool.or_eq_true, decide_eq_true_eq] at h
    simp only [List.cons_append, read]
    split
    · rfl
    · have whole := h.resolve_left (by assumption)
      rw [if_neg (by simp only [List.length_append]; omega), if_neg (by omega)]
      simp [List.take_append_of_le_length whole]
  · simp at h

theorem length_read_lt {limit : Nat} {stream payload rest : Bytes}
    (h : read limit stream = (.ok payload, rest)) : rest.length < stream.length := by
  unfold read at h
  split at h
  · simp only [] at h
    split at h
    · simp at h
    · split at h
      · simp at h
      · simp only [Prod.mk.injEq, Except.ok.injEq] at h
        rw [← h.2]
        simp only [List.length_drop, List.length_cons]
        omega
  · simp at h

def readAll (limit : Nat) (stream : Bytes) : List (Bytes × Nat) × TransportError :=
  match h : read limit stream with
  | (.error e, _) => ([], e)
  | (.ok payload, rest) =>
      have := length_read_lt h
      let (frames, e) := readAll limit rest
      ((payload, rest.length) :: frames, e)
termination_by stream.length

end Epidemic.Frame
