import Epidemic.Proofs.Binary32.Nearest
import Epidemic.Proofs.Binary32.Relay
import Mathlib.Algebra.Order.Field.Basic
import Mathlib.Algebra.Order.Field.Rat
import Mathlib.Tactic.FieldSimp
import Mathlib.Tactic.Linarith

namespace Epidemic.Binary32

def signed (negative : Bool) (n : Nat) : Int :=
  if negative then -n else n

theorem signed_mono {f : Nat → Nat} (mono : Monotone f) (zero : f 0 = 0) {a b : Bool} {m n : Nat}
    (le : signed a m ≤ signed b n) : signed a (f m) ≤ signed b (f n) := by
  have up (h : m ≤ n) := mono h
  have down (h : n ≤ m) := mono h
  cases a <;> cases b <;> simp only [signed, Bool.false_eq_true, if_false, if_true] at le ⊢
  · have := up (by omega)
    omega
  · obtain rfl : m = 0 := by omega
    obtain rfl : n = 0 := by omega
    omega
  · omega
  · have := down (by omega)
    omega

def units (x : Binary32) : Int :=
  signed x.isNegative x.quanta

def value (x : Binary32) : ℚ :=
  x.units / quantaPerUnit

def signedHundredths (x : Binary32) : Int :=
  signed x.isNegative x.hundredths

def written (x : Binary32) : ℚ :=
  x.signedHundredths / 100

theorem quantaPerUnit_pos : 0 < quantaPerUnit := by decide

theorem value_le_iff {x y : Binary32} : x.value ≤ y.value ↔ x.units ≤ y.units := by
  have positive : (0 : ℚ) < quantaPerUnit := Nat.cast_pos.mpr quantaPerUnit_pos
  rw [value, value, div_le_div_iff_of_pos_right positive, Int.cast_le]

theorem abs_value_sub (x y : Binary32) :
    |x.value - y.value| = ((x.units - y.units).natAbs : ℚ) / quantaPerUnit := by
  have positive : (0 : ℚ) < quantaPerUnit := Nat.cast_pos.mpr quantaPerUnit_pos
  rw [value, value, ← sub_div, abs_div, abs_of_pos positive, Nat.cast_natAbs, Int.cast_abs,
    Int.cast_sub]

def writtenFarness (x z : Binary32) : Nat :=
  (z.units * 100 - x.signedHundredths * quantaPerUnit).natAbs

theorem abs_value_sub_written (x z : Binary32) :
    |z.value - x.written| = (writtenFarness x z : ℚ) / (100 * quantaPerUnit) := by
  have positive : (0 : ℚ) < quantaPerUnit := Nat.cast_pos.mpr quantaPerUnit_pos
  have common : z.value - x.written =
      ((z.units * 100 - x.signedHundredths * quantaPerUnit : Int) : ℚ) / (100 * quantaPerUnit) := by
    rw [value, written]
    push_cast
    field_simp
  rw [common, abs_div, abs_of_pos (by linarith : (0 : ℚ) < 100 * quantaPerUnit), writtenFarness,
    Nat.cast_natAbs, Int.cast_abs]

theorem abs_value_sub_written_lt {x y z : Binary32}
    (nearer : writtenFarness x y < writtenFarness x z) :
    |y.value - x.written| < |z.value - x.written| := by
  have positive : (0 : ℚ) < quantaPerUnit := Nat.cast_pos.mpr quantaPerUnit_pos
  rw [abs_value_sub_written, abs_value_sub_written]
  exact div_lt_div_of_pos_right (Nat.cast_lt.mpr nearer) (by linarith)

theorem writtenFarness_of_sign {x z : Binary32} (same : z.isNegative = x.isNegative) :
    writtenFarness x z = farness x.hundredths 100 z.magnitude := by
  simp only [writtenFarness, units, signedHundredths, farness, same, quanta, signed]
  split <;> simp only [Nat.cast_mul, Int.neg_mul] <;> omega

theorem writtenFarness_of_other_sign {x z : Binary32} (other : z.isNegative ≠ x.isNegative) :
    writtenFarness x z = farness x.hundredths 100 0 + z.quanta * 100 := by
  have flipped : z.isNegative = !x.isNegative := Bool.eq_not.mpr other
  have zero : quantaOf 0 = 0 := by decide
  have product : 0 ≤ (x.hundredths : Int) * quantaPerUnit := by positivity
  simp only [writtenFarness, units, signedHundredths, farness, flipped, zero, signed]
  cases x.isNegative <;> simp only [Bool.not_true, Bool.not_false, if_true, if_false,
    Bool.false_eq_true, Nat.cast_mul, Int.neg_mul] <;> omega

theorem hundredths_mono {m n : Nat} (le : m ≤ n) :
    roundDiv (m * 100) quantaPerUnit ≤ roundDiv (n * 100) quantaPerUnit :=
  roundDiv_mono quantaPerUnit_pos (Nat.mul_le_mul_right 100 le)

theorem nearest_hundredths_lt {x : Binary32} (finite : x.isFinite = true) :
    nearest x.hundredths 100 < infinityBits := by
  have small : x.magnitude < infinityBits := by simpa [isFinite] using finite
  have greatest : quantaOf (253 * 0x800000 + 0xffffff) = 0xffffff * 2 ^ 253 :=
    quantaOf_of_le (by decide) (by decide)
  have le : x.quanta ≤ 0xffffff * 2 ^ 253 := by
    rw [← greatest, quanta]
    refine quantaOf_strictMono.monotone ?_
    simp only [infinityBits] at small
    omega
  have kept : nearest (roundDiv (0xffffff * 2 ^ 253 * 100) quantaPerUnit) 100 =
      min (253 * 0x800000 + 0xffffff) infinityBits :=
    nearest_coarse (by decide) (by decide) (by decide)
  calc nearest x.hundredths 100
      ≤ nearest (roundDiv (0xffffff * 2 ^ 253 * 100) quantaPerUnit) 100 :=
        nearest_mono (by decide) (hundredths_mono le)
    _ = min (253 * 0x800000 + 0xffffff) infinityBits := kept
    _ < infinityBits := by decide

theorem magnitude_relayed {x : Binary32} (finite : x.isFinite = true) :
    x.relayed.magnitude = nearest x.hundredths 100 ∧ x.relayed.isNegative = x.isNegative := by
  have small : nearest x.hundredths 100 < 0x80000000 :=
    Nat.lt_trans (nearest_hundredths_lt finite) (by decide)
  rw [relayed_of_finite finite]
  exact ⟨magnitude_ofParts _ small, isNegative_ofParts _ small⟩

theorem isFinite_relayed {x : Binary32} (finite : x.isFinite = true) : x.relayed.isFinite = true := by
  have small := nearest_hundredths_lt finite
  rw [isFinite, (magnitude_relayed finite).1]
  exact decide_eq_true small

theorem units_relayed {x : Binary32} (finite : x.isFinite = true) :
    x.relayed.units = signed x.isNegative (quantaOf (nearest x.hundredths 100)) := by
  obtain ⟨magnitude, sign⟩ := magnitude_relayed finite
  rw [units, quanta, magnitude, sign]

theorem relayed_mono {x y : Binary32} (hx : x.isFinite = true) (hy : y.isFinite = true)
    (le : x.value ≤ y.value) : x.relayed.value ≤ y.relayed.value := by
  have mono : Monotone fun q => quantaOf (nearest (roundDiv (q * 100) quantaPerUnit) 100) :=
    fun _ _ le => quantaOf_strictMono.monotone (nearest_mono (by decide) (hundredths_mono le))
  rw [value_le_iff] at le ⊢
  rw [units_relayed hx, units_relayed hy]
  exact signed_mono mono (by decide) le

structure IsNearest (x : Binary32) (w : ℚ) : Prop where
  isFinite : x.isFinite = true
  nearer : ∀ z : Binary32, z.isFinite = true → z.value ≠ x.value →
    |x.value - w| < |z.value - w| ∨ |x.value - w| = |z.value - w| ∧ x.bits.toNat % 2 = 0

theorem writtenFarness_relayed {x z : Binary32} (finite : x.isFinite = true)
    (apart : z.value ≠ x.relayed.value) :
    writtenFarness x x.relayed < writtenFarness x z ∨
      writtenFarness x x.relayed = writtenFarness x z ∧ x.relayed.bits.toNat % 2 = 0 := by
  obtain ⟨magnitude, sign⟩ := magnitude_relayed finite
  obtain ⟨shift, s, rounds⟩ := exists_rounds x.hundredths (show 0 < 100 by decide)
  have small := nearest_hundredths_lt finite
  have rounded : x.relayed.magnitude = shift * 0x800000 + s := by
    rw [magnitude]
    rw [rounds.nearest_eq (by decide)] at small ⊢
    omega
  have parity : x.relayed.bits.toNat % 2 = s % 2 := by
    rw [Binary32.magnitude] at rounded
    omega
  rw [writtenFarness_of_sign sign, rounded, parity]
  by_cases same : z.isNegative = x.isNegative
  · rw [writtenFarness_of_sign same]
    refine rounds.farther fun equal => apart ?_
    rw [value, value, units, units, quanta, quanta, equal, rounded, same, sign]
  · rw [writtenFarness_of_other_sign same]
    by_cases zero : shift * 0x800000 + s = 0
    · have nonzero : z.quanta ≠ 0 := by
        intro none
        have nought : x.relayed.quanta = 0 := by
          rw [quanta, rounded, zero]
          decide
        refine apart ?_
        rw [value, value, units, units, none, nought]
        cases z.isNegative <;> cases x.relayed.isNegative <;> rfl
      rw [zero]
      omega
    · have farther := rounds.farther (Ne.symm zero)
      omega

theorem isNearest_relayed {x : Binary32} (finite : x.isFinite = true) :
    x.relayed.IsNearest x.written where
  isFinite := isFinite_relayed finite
  nearer z _ apart := by
    rcases writtenFarness_relayed finite apart with nearer | ⟨tie, even⟩
    · exact .inl (abs_value_sub_written_lt nearer)
    · exact .inr ⟨by rw [abs_value_sub_written, abs_value_sub_written, tie], even⟩

theorem abs_value_sub_written_self (x : Binary32) : |x.value - x.written| ≤ 1 / 200 := by
  have positive : (0 : ℚ) < quantaPerUnit := Nat.cast_pos.mpr quantaPerUnit_pos
  have close : 2 * writtenFarness x x ≤ quantaPerUnit := by
    obtain ⟨above, below⟩ := roundDiv_error (x.quanta * 100) quantaPerUnit_pos
    rw [writtenFarness_of_sign rfl, farness, ← quanta, hundredths]
    omega
  have close : (2 : ℚ) * writtenFarness x x ≤ quantaPerUnit := mod_cast close
  rw [abs_value_sub_written, div_le_div_iff₀ (by linarith) (by decide)]
  linarith

theorem abs_value_sub_ne (x y : Binary32) : |x.value - y.value| ≠ 1 / 100 := by
  have positive : (quantaPerUnit : ℚ) ≠ 0 := Nat.cast_ne_zero.mpr quantaPerUnit_pos.ne'
  rw [abs_value_sub, ne_eq, div_eq_div_iff positive (by decide)]
  intro equal
  have equal : (x.units - y.units).natAbs * 100 = 1 * quantaPerUnit := mod_cast equal
  have remainder : quantaPerUnit % 100 ≠ 0 := by decide
  omega

theorem abs_relayed_sub_lt {x : Binary32} (finite : x.isFinite = true) :
    |x.relayed.value - x.value| < 1 / 100 := by
  have nearer : |x.relayed.value - x.written| ≤ |x.value - x.written| := by
    by_cases same : x.value = x.relayed.value
    · rw [same]
    · exact ((isNearest_relayed finite).nearer x finite same).elim le_of_lt fun tie => tie.1.le
  have close := abs_value_sub_written_self x
  have triangle := abs_sub_le x.relayed.value x.written x.value
  rw [abs_sub_comm x.written x.value] at triangle
  exact lt_of_le_of_ne (by linarith) (abs_value_sub_ne _ _)

theorem ofParts_magnitude (x : Binary32) : ofParts x.isNegative x.magnitude = x := by
  have bound : x.magnitude < 0x80000000 := Nat.mod_lt _ (by decide)
  have size := x.bits.toNat_lt
  obtain ⟨bits⟩ := x
  refine congrArg mk (UInt32.toNat_inj.mp ((toNat_ofParts _ bound).trans ?_))
  simp only [isNegative, magnitude, decide_eq_true_eq] at size ⊢
  split <;> omega

theorem relayed_of_zero {x : Binary32} (zero : x.magnitude = 0) : x.relayed = x := by
  have finite : x.isFinite = true := by simp [isFinite, zero, infinityBits]
  have nought : nearest x.hundredths 100 = x.magnitude := by
    rw [hundredths, quanta, zero]
    decide
  rw [relayed_of_finite finite, nought, ofParts_magnitude]

theorem relayed_of_infinite {x : Binary32} (infinite : x.isInfinite = true) : x.relayed = x := by
  have same : x.magnitude = infinityBits := by simpa [isInfinite] using infinite
  rw [relayed_of_isInfinite infinite, ← same, ofParts_magnitude]

end Epidemic.Binary32
