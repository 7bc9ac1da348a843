import Epidemic.Binary32.Decimal
import Mathlib.Tactic.Ring

namespace Epidemic.Binary32

theorem roundDiv_error (n : Nat) {d : Nat} (hd : 0 < d) :
    2 * (roundDiv n d * d) ≤ 2 * n + d ∧ 2 * n ≤ 2 * (roundDiv n d * d) + d := by
  have whole := Nat.div_add_mod' n d
  have rest := Nat.mod_lt n hd
  have next : (n / d + 1) * d = n / d * d + d := Nat.succ_mul ..
  simp only [roundDiv]
  split
  · omega
  · split
    · omega
    · split <;> omega

theorem roundDiv_eq {n d a : Nat} (above : 2 * n < 2 * (a * d) + d)
    (below : 2 * (a * d) < 2 * n + d) : roundDiv n d = a := by
  obtain ⟨error, error'⟩ := roundDiv_error n (show 0 < d by omega)
  have close {b c : Nat} (h : 2 * (b * d) < 2 * (c * d) + 2 * d) : b ≤ c := by
    have next : (c + 1) * d = c * d + d := Nat.succ_mul ..
    exact Nat.lt_succ_iff.mp (Nat.lt_of_mul_lt_mul_right (by omega : b * d < (c + 1) * d))
  exact Nat.le_antisymm (close (by omega)) (close (by omega))

theorem quantaOf_of_lt {s : Nat} (small : s < 0x800000) : quantaOf s = s := by
  have exponent : s / 0x800000 = 0 := Nat.div_eq_of_lt small
  have fraction : s % 0x800000 = s := Nat.mod_eq_of_lt small
  simp only [quantaOf, exponent, fraction, if_true]

theorem quantaOf_of_le {shift s : Nat} (normal : 0x800000 ≤ s) (small : s < 0x1000000) :
    quantaOf (shift * 0x800000 + s) = s * 2 ^ shift := by
  have exponent : (shift * 0x800000 + s) / 0x800000 = shift + 1 := by omega
  have fraction : 0x800000 + (shift * 0x800000 + s) % 0x800000 = s := by omega
  simp only [quantaOf, exponent, fraction, Nat.succ_ne_zero, if_false, Nat.add_sub_cancel]
  rfl

theorem quantaOf_eq {shift s : Nat} (normal : shift = 0 ∨ 0x800000 ≤ s) (small : s ≤ 0x1000000) :
    quantaOf (shift * 0x800000 + s) = s * 2 ^ shift := by
  rcases Nat.lt_or_eq_of_le small with inside | rfl
  · rcases Nat.lt_or_ge s 0x800000 with subnormal | normal
    · obtain rfl : shift = 0 := by omega
      rw [Nat.zero_mul, Nat.zero_add, Nat.pow_zero, Nat.mul_one]
      exact quantaOf_of_lt subnormal
    · exact quantaOf_of_le normal inside
  · have carried : shift * 0x800000 + 0x1000000 = (shift + 1) * 0x800000 + 0x800000 := by omega
    rw [carried, quantaOf_of_le (Nat.le_refl _) (by decide), Nat.pow_succ]
    omega

structure Rounds (num den shift s : Nat) : Prop where
  normal : shift = 0 ∨ 0x800000 * (den * 2 ^ shift) ≤ num * quantaPerUnit
  small : num * quantaPerUnit < 0x1000000 * (den * 2 ^ shift)
  rounded : roundDiv (num * quantaPerUnit) (den * 2 ^ shift) = s

namespace Rounds

variable {num den shift s : Nat}

theorem nearest_eq (h : Rounds num den shift s) (hd : 0 < den) :
    nearest num den = min (shift * 0x800000 + s) infinityBits := by
  have upper : num * quantaPerUnit / den < 2 ^ (shift + 24) := by
    rw [Nat.div_lt_iff_lt_mul hd]
    calc num * quantaPerUnit < 0x1000000 * (den * 2 ^ shift) := h.small
      _ = 2 ^ (shift + 24) * den := by ring
  have top : (num * quantaPerUnit / den).log2 < shift + 24 := by
    rcases Nat.eq_zero_or_pos (num * quantaPerUnit / den) with zero | positive
    · simp [zero]
    · exact (Nat.log2_lt (by omega)).mpr upper
  have same : (num * quantaPerUnit / den).log2 - 23 = shift := by
    rcases h.normal with rfl | normal
    · omega
    · have lower : 2 ^ (shift + 23) ≤ num * quantaPerUnit / den := by
        rw [Nat.le_div_iff_mul_le hd]
        calc 2 ^ (shift + 23) * den = 0x800000 * (den * 2 ^ shift) := by ring
          _ ≤ num * quantaPerUnit := normal
      have positive := Nat.two_pow_pos (shift + 23)
      have bottom := (Nat.le_log2 (by omega)).mpr lower
      omega
  simp only [nearest, same, ← h.rounded]
  rfl

theorem spacing_pos (h : Rounds num den shift s) : 0 < den * 2 ^ shift := by
  have small := h.small
  omega

theorem error (h : Rounds num den shift s) :
    2 * (s * (den * 2 ^ shift)) ≤ 2 * (num * quantaPerUnit) + den * 2 ^ shift ∧
      2 * (num * quantaPerUnit) ≤ 2 * (s * (den * 2 ^ shift)) + den * 2 ^ shift := by
  have error := roundDiv_error (num * quantaPerUnit) h.spacing_pos
  rwa [h.rounded] at error

theorem significand_le (h : Rounds num den shift s) : s ≤ 0x1000000 := by
  have small := h.small
  have error := h.error.1
  refine Nat.lt_succ_iff.mp (Nat.lt_of_mul_lt_mul_right (a := den * 2 ^ shift) ?_)
  omega

theorem le_significand (h : Rounds num den shift s) : shift = 0 ∨ 0x800000 ≤ s := by
  refine h.normal.imp_right fun normal => ?_
  have error := h.error.2
  have positive := h.spacing_pos
  have next : (s + 1) * (den * 2 ^ shift) = s * (den * 2 ^ shift) + den * 2 ^ shift :=
    Nat.succ_mul ..
  have less : 0x800000 * (den * 2 ^ shift) < (s + 1) * (den * 2 ^ shift) := by omega
  exact Nat.lt_succ_iff.mp (Nat.lt_of_mul_lt_mul_right less)

end Rounds

theorem exists_rounds (num : Nat) {den : Nat} (hd : 0 < den) :
    ∃ shift s, Rounds num den shift s := by
  refine ⟨(num * quantaPerUnit / den).log2 - 23, _, ?_, ?_, rfl⟩
  · rcases Nat.lt_or_ge (num * quantaPerUnit / den).log2 24 with low | high
    · exact .inl (by omega)
    · have nonzero : num * quantaPerUnit / den ≠ 0 := by
        intro zero
        simp [zero] at high
      have lower := (Nat.le_div_iff_mul_le hd).mp (Nat.log2_self_le nonzero)
      right
      calc 0x800000 * (den * 2 ^ ((num * quantaPerUnit / den).log2 - 23))
          = 2 ^ ((num * quantaPerUnit / den).log2 - 23 + 23) * den := by ring
        _ ≤ num * quantaPerUnit := by rwa [Nat.sub_add_cancel (by omega)]
  · have upper := (Nat.div_lt_iff_lt_mul hd).mp (Nat.lt_log2_self (n := num * quantaPerUnit / den))
    calc num * quantaPerUnit < 2 ^ ((num * quantaPerUnit / den).log2 + 1) * den := upper
      _ ≤ 2 ^ ((num * quantaPerUnit / den).log2 - 23 + 24) * den :=
        Nat.mul_le_mul_right _ (Nat.pow_le_pow_right (by decide) (by omega))
      _ = 0x1000000 * (den * 2 ^ ((num * quantaPerUnit / den).log2 - 23)) := by ring

theorem nearest_coarse {shift s : Nat} (coarse : 143 ≤ shift) (normal : 0x800000 ≤ s)
    (small : s < 0x1000000) :
    nearest (roundDiv (s * 2 ^ shift * 100) quantaPerUnit) 100 =
      min (shift * 0x800000 + s) infinityBits := by
  obtain ⟨k, rfl⟩ := Nat.exists_eq_add_of_le' coarse
  have positive : 0 < quantaPerUnit := by decide
  have wide : quantaPerUnit < 100 * 2 ^ (k + 143) :=
    calc quantaPerUnit < 100 * 2 ^ 143 := by decide
      _ ≤ 100 * 2 ^ (k + 143) :=
        Nat.mul_le_mul_left _ (Nat.pow_le_pow_right (by decide) (by omega))
  have spacings : s * 2 ^ (k + 143) * 100 = s * (100 * 2 ^ (k + 143)) := by ring
  obtain ⟨above, below⟩ := roundDiv_error (s * 2 ^ (k + 143) * 100) positive
  refine Rounds.nearest_eq ⟨.inr ?_, ?_, roundDiv_eq ?_ ?_⟩ (by decide)
  · rcases Nat.lt_or_eq_of_le normal with more | rfl
    · have room := Nat.mul_le_mul_right (100 * 2 ^ (k + 143)) (show 0x800000 + 1 ≤ s from more)
      rw [Nat.succ_mul] at room
      omega
    · have hundredths : 0x800000 * 2 ^ (k + 143) * 100 = 100 * 2 ^ (k + 17) * quantaPerUnit := by
        rw [quantaPerUnit, show Nat.pow 2 149 = 2 ^ 149 from rfl]
        ring
      rw [roundDiv_eq (a := 100 * 2 ^ (k + 17)) (by omega) (by omega)]
      omega
  · have room := Nat.mul_le_mul_right (100 * 2 ^ (k + 143)) (show s + 1 ≤ 0x1000000 from small)
    rw [Nat.succ_mul] at room
    omega
  · omega
  · omega

theorem nearest_hundredths {h : Nat} (finite : nearest h 100 < infinityBits) :
    nearest (roundDiv (quantaOf (nearest h 100) * 100) quantaPerUnit) 100 = nearest h 100 := by
  obtain ⟨shift, s, rounds⟩ := exists_rounds h (show 0 < 100 by decide)
  have eq := rounds.nearest_eq (by decide)
  have magnitude : nearest h 100 = shift * 0x800000 + s := by omega
  have quanta : quantaOf (nearest h 100) = s * 2 ^ shift := by
    rw [magnitude, quantaOf_eq rounds.le_significand rounds.significand_le]
  rw [quanta]
  rcases Nat.lt_or_ge shift 143 with fine | coarse
  · have narrow : 100 * 2 ^ shift < quantaPerUnit :=
      calc 100 * 2 ^ shift ≤ 100 * 2 ^ 142 :=
            Nat.mul_le_mul_left _ (Nat.pow_le_pow_right (by decide) (by omega))
        _ < quantaPerUnit := by decide
    have spacings : s * 2 ^ shift * 100 = s * (100 * 2 ^ shift) := by ring
    have error := rounds.error
    rw [roundDiv_eq (a := h) (by omega) (by omega)]
  · have normal : 0x800000 ≤ s := by
      have := rounds.le_significand
      omega
    rw [eq]
    rcases Nat.lt_or_eq_of_le rounds.significand_le with inside | rfl
    · exact nearest_coarse coarse normal inside
    · have carried : 0x1000000 * 2 ^ shift = 0x800000 * 2 ^ (shift + 1) := by ring
      have magnitudes : (shift + 1) * 0x800000 + 0x800000 = shift * 0x800000 + 0x1000000 := by omega
      rw [carried, nearest_coarse (by omega) (by decide) (by decide), magnitudes]

end Epidemic.Binary32
