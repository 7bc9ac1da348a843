import Epidemic.Text.Quoted

namespace Epidemic

abbrev Bytes := List UInt8

def Bytes.order : Bytes → Bytes → Ordering
  | [], [] => .eq
  | [], _ :: _ => .lt
  | _ :: _, [] => .gt
  | a :: as, b :: bs =>
      if a < b then .lt else if b < a then .gt else Bytes.order as bs

namespace Bytes

def Before (as bs : Bytes) : Prop :=
  order as bs = .lt

instance (as bs : Bytes) : Decidable (as.Before bs) :=
  inferInstanceAs (Decidable (_ = _))

variable {as bs cs : Bytes}

@[simp] theorem order_self (as : Bytes) : order as as = .eq := by
  induction as with
  | nil => rfl
  | cons a as ih => simp [order, ih]

theorem eq_of_order_eq (h : order as bs = .eq) : as = bs := by
  induction as generalizing bs with
  | nil => cases bs with
    | nil => rfl
    | cons b bs => cases h
  | cons a as ih =>
      cases bs with
      | nil => cases h
      | cons b bs =>
          simp only [order] at h
          split at h
          · cases h
          · rename_i less
            split at h
            · cases h
            · rename_i more
              have same := UInt8.le_antisymm (UInt8.not_lt.mp more) (UInt8.not_lt.mp less)
              rw [same, ih h]

theorem order_swap (as bs : Bytes) : order bs as = (order as bs).swap := by
  induction as generalizing bs with
  | nil => cases bs <;> rfl
  | cons a as ih =>
      cases bs with
      | nil => rfl
      | cons b bs =>
          simp only [order]
          by_cases less : a < b
          · rw [if_pos less, if_neg (UInt8.lt_asymm less), if_pos less]
            rfl
          · rw [if_neg less]
            by_cases more : b < a
            · rw [if_pos more, if_neg less, if_pos more]
              rfl
            · rw [if_neg more, if_neg less, if_neg more, ih]

theorem before_of_order_gt (h : order as bs = .gt) : bs.Before as := by
  rw [Before, order_swap, h]
  rfl

theorem Before.ne (h : as.Before bs) : as ≠ bs := by
  rintro rfl
  rw [Before, order_self] at h
  cases h

theorem Before.trans (h : as.Before bs) (h' : bs.Before cs) : as.Before cs := by
  induction as generalizing bs cs with
  | nil =>
      cases cs with
      | nil => cases bs <;> cases h'
      | cons c cs => rfl
  | cons a as ih =>
      cases bs with
      | nil => cases h
      | cons b bs =>
          cases cs with
          | nil => cases h'
          | cons c cs =>
              simp only [Before, order] at h h' ih ⊢
              grind

theorem order_append (front as bs : Bytes) : order (front ++ as) (front ++ bs) = order as bs := by
  induction front with
  | nil => rfl
  | cons b front ih => simp [order, ih]

end Bytes

namespace Hex

inductive Fault where
  | oddLength
  | invalidCharacter (found : UInt8) (position : Nat)
  deriving DecidableEq, Repr

def Fault.message : Fault → String
  | .oddLength => "Odd number of digits"
  | .invalidCharacter b i =>
      "Invalid character " ++ Text.quotedChar (Char.ofNat b.toNat) ++ " at position " ++
        Numeral.decimal i

def encode (bs : Bytes) : String :=
  String.ofList (bs.flatMap fun b =>
    [Numeral.digitChar (b.toNat / 16), Numeral.digitChar (b.toNat % 16)])

def nibble? (b : UInt8) : Option Nat :=
  Numeral.digitValue? 16 (Char.ofNat b.toNat)

def pairs (position : Nat) : Bytes → Except Fault Bytes
  | hi :: lo :: rest =>
      match nibble? hi, nibble? lo with
      | some h, some l => (pairs (position + 2) rest).map (UInt8.ofNat (16 * h + l) :: ·)
      | none, _ => .error (.invalidCharacter hi position)
      | _, none => .error (.invalidCharacter lo (position + 1))
  | _ => .ok []

def decode (text : Bytes) : Except Fault Bytes :=
  if text.length % 2 = 1 then .error .oddLength else pairs 0 text

end Hex

end Epidemic
