import Epidemic.Proofs.Binary32.Rounding
import Epidemic.Proofs.Binary32.Text

namespace Epidemic.Binary32

open Numeral

theorem toNat_ofParts (negative : Bool) {m : Nat} (h : m < 0x80000000) :
    (ofParts negative m).bits.toNat = if negative then 0x80000000 + m else m := by
  simp only [ofParts]
  rw [UInt32.toNat_ofNat_of_lt']
  simp only [UInt32.size]
  split <;> omega

theorem magnitude_ofParts (negative : Bool) {m : Nat} (h : m < 0x80000000) :
    (ofParts negative m).magnitude = m := by
  rw [magnitude, toNat_ofParts negative h]
  split <;> omega

theorem isNegative_ofParts (negative : Bool) {m : Nat} (h : m < 0x80000000) :
    (ofParts negative m).isNegative = negative := by
  rw [isNegative, toNat_ofParts negative h]
  cases negative
  · simp only [Bool.false_eq_true, if_false, decide_eq_false_iff_not]
    omega
  · simp

theorem nearest_le (num den : Nat) : nearest num den ≤ infinityBits :=
  Nat.min_le_right ..

theorem hundredths_lt {x : Binary32} (finite : x.isFinite = true) :
    x.hundredths < 10 ^ (40 + 1) := by
  have bound : x.quanta < 0x1000000 * 2 ^ 253 := by
    have small : x.magnitude < infinityBits := by simpa [isFinite] using finite
    simp only [infinityBits] at small
    simp only [quanta, quantaOf]
    split
    · omega
    · calc (0x800000 + x.magnitude % 0x800000) * Nat.pow 2 (x.magnitude / 0x800000 - 1)
          < 0x1000000 * 2 ^ (x.magnitude / 0x800000 - 1) :=
            Nat.mul_lt_mul_of_pos_right (by omega) (Nat.two_pow_pos _)
        _ ≤ 0x1000000 * 2 ^ 253 :=
          Nat.mul_le_mul_left _ (Nat.pow_le_pow_right (by decide) (by omega))
  obtain ⟨above, -⟩ := roundDiv_error (x.quanta * 100) (show 0 < quantaPerUnit by decide)
  simp only [hundredths, quantaPerUnit, show Nat.pow 2 149 = 2 ^ 149 from rfl] at above ⊢
  omega

theorem magnitude_of_hundredths {l : Literal} (small : l.significand < 10 ^ (40 + 1))
    (places : l.places = 2) (exponent : l.exponent = 0) :
    l.magnitude = nearest l.significand 100 := by
  have length : (digits 10 l.significand).length ≤ 41 := by
    rw [digits_eq_map, List.length_map]
    exact length_places_le (by decide) small
  have top : ¬40 < (0 - (2 : Nat) : Int) + (digits 10 l.significand).length := by omega
  have bottom : ¬(0 - (2 : Nat) : Int) + (digits 10 l.significand).length < -46 := by omega
  have scale : ¬0 ≤ (0 - (2 : Nat) : Int) := by decide
  have hundred : Nat.pow 10 (-(0 - (2 : Nat) : Int)).toNat = 100 := by decide
  simp only [Literal.magnitude, places, exponent, if_neg top, if_neg bottom, if_neg scale, hundred]
  split
  · rename_i zero
    rw [zero]
    decide
  · rfl

theorem relayed_of_finite {x : Binary32} (finite : x.isFinite = true) :
    x.relayed = ofParts x.isNegative (nearest x.hundredths 100) := by
  have small : x.magnitude < infinityBits := by simpa [isFinite] using finite
  have number : x.isNan = false := by simpa [isNan] using Nat.le_of_lt small
  have bounded : x.isInfinite = false := by simpa [isInfinite] using Nat.ne_of_lt small
  obtain ⟨l, read, significand, places, exponent⟩ := readLiteral?_hundredthsText x.hundredths
  have magnitude := magnitude_of_hundredths (significand ▸ hundredths_lt finite) places exponent
  have text : ofText? x.toFixed = some (ofParts x.isNegative l.magnitude) := by
    simp only [toFixed, number, bounded, Bool.false_eq_true, if_false]
    cases x.isNegative
    · exact ofText?_of_readSign (readSign_hundredthsText _) read
    · exact ofText?_of_readSign rfl read
  rw [relayed, text, magnitude, significand]
  rfl

theorem relayed_of_isInfinite {x : Binary32} (infinite : x.isInfinite = true) :
    x.relayed = ofParts x.isNegative infinityBits := by
  have same : x.magnitude = infinityBits := by simpa [isInfinite] using infinite
  have number : x.isNan = false := by simp [isNan, same]
  simp only [relayed, toFixed, number, infinite, Bool.false_eq_true, if_false, if_true]
  cases x.isNegative <;> decide

theorem relayed_of_isNan {x : Binary32} (nan : x.isNan = true) :
    x.relayed = ofParts false quietNanBits := by
  simp only [relayed, toFixed, nan, if_true]
  decide

theorem relayed_ofParts_infinityBits (negative : Bool) :
    (ofParts negative infinityBits).relayed = ofParts negative infinityBits := by
  cases negative <;> decide

theorem relayed_relayed (x : Binary32) : x.relayed.relayed = x.relayed := by
  rcases Nat.lt_trichotomy x.magnitude infinityBits with finite | infinite | nan
  · have once := relayed_of_finite (x := x) (by simpa [isFinite] using finite)
    rw [once]
    rcases Nat.lt_or_eq_of_le (nearest_le x.hundredths 100) with inside | overflow
    · have small : nearest x.hundredths 100 < 0x80000000 := by
        simp only [infinityBits] at inside
        omega
      have magnitude := magnitude_ofParts x.isNegative small
      have finite : (ofParts x.isNegative (nearest x.hundredths 100)).isFinite = true := by
        simpa [isFinite, magnitude] using inside
      rw [relayed_of_finite finite, isNegative_ofParts _ small]
      refine congrArg (ofParts x.isNegative) ?_
      rw [hundredths, quanta, magnitude]
      exact nearest_hundredths inside
    · rw [overflow, relayed_ofParts_infinityBits]
  · have once := relayed_of_isInfinite (x := x) (by simpa [isInfinite] using infinite)
    rw [once, relayed_ofParts_infinityBits]
  · have once := relayed_of_isNan (x := x) (by simpa [isNan] using nan)
    rw [once]
    decide

end Epidemic.Binary32
