import Epidemic.Proofs.Binary32.Rounding

namespace Epidemic.Binary32

theorem roundDiv_mono {m n d : Nat} (hd : 0 < d) (h : m ≤ n) : roundDiv m d ≤ roundDiv n d := by
  rcases Nat.lt_or_eq_of_le h with less | rfl
  · obtain ⟨above, -⟩ := roundDiv_error m hd
    obtain ⟨-, below⟩ := roundDiv_error n hd
    refine Nat.not_lt.mp fun more => ?_
    have room := Nat.mul_le_mul_right d (show roundDiv n d + 1 ≤ roundDiv m d from more)
    rw [Nat.succ_mul] at room
    omega
  · exact Nat.le_refl _

theorem roundDiv_even {n d : Nat} (hd : 0 < d)
    (half : 2 * (roundDiv n d * d) = 2 * n + d ∨ 2 * n = 2 * (roundDiv n d * d) + d) :
    roundDiv n d % 2 = 0 := by
  have whole := Nat.div_add_mod' n d
  have rest := Nat.mod_lt n hd
  have next : (n / d + 1) * d = n / d * d + d := Nat.succ_mul ..
  simp only [roundDiv] at half ⊢
  split at half
  · omega
  · split at half
    · omega
    · split at half <;> rename_i parity
      · rwa [if_neg (by omega), if_neg (by omega), if_pos parity]
      · rw [if_neg (by omega), if_neg (by omega), if_neg parity]
        omega

theorem exists_significand (m : Nat) :
    ∃ shift s, m = shift * 0x800000 + s ∧ (shift = 0 ∨ 0x800000 ≤ s) ∧ s < 0x1000000 :=
  ⟨m / 0x800000 - 1, m - (m / 0x800000 - 1) * 0x800000, by omega, by omega, by omega⟩

theorem quantaOf_strictMono : StrictMono quantaOf := by
  refine strictMono_nat_of_lt_succ fun m => ?_
  obtain ⟨shift, s, rfl, normal, small⟩ := exists_significand m
  rw [Nat.add_assoc, quantaOf_eq normal (by omega), quantaOf_eq (by omega) small]
  exact Nat.mul_lt_mul_of_pos_right (Nat.lt_succ_self s) (Nat.two_pow_pos shift)

namespace Rounds

variable {num den shift s num' shift' s' : Nat}

theorem quantaOf_eq (h : Rounds num den shift s) :
    quantaOf (shift * 0x800000 + s) = s * 2 ^ shift :=
  Binary32.quantaOf_eq h.le_significand h.significand_le

theorem mono (h : Rounds num den shift s) (h' : Rounds num' den shift' s') (le : num ≤ num') :
    shift * 0x800000 + s ≤ shift' * 0x800000 + s' := by
  have scaled : num * quantaPerUnit ≤ num' * quantaPerUnit := Nat.mul_le_mul_right _ le
  rcases Nat.lt_trichotomy shift shift' with lower | rfl | higher
  · have significand := h.significand_le
    have significand' := h'.le_significand
    omega
  · rw [← h.rounded, ← h'.rounded]
    exact Nat.add_le_add_left (roundDiv_mono h.spacing_pos scaled) _
  · obtain ⟨k, rfl⟩ := Nat.exists_eq_add_of_le (show shift' + 1 ≤ shift from higher)
    have normal := h.normal.resolve_left (by omega)
    have small := h'.small
    have wider : 0x1000000 * (den * 2 ^ shift') ≤ 0x800000 * (den * 2 ^ (shift' + 1 + k)) :=
      calc 0x1000000 * (den * 2 ^ shift') = 0x800000 * (den * 2 ^ (shift' + 1)) := by ring
        _ ≤ 0x800000 * (den * 2 ^ (shift' + 1 + k)) :=
          Nat.mul_le_mul_left _ (Nat.mul_le_mul_left _ (Nat.pow_le_pow_right (by decide) (by omega)))
    omega

end Rounds

theorem nearest_mono {num num' den : Nat} (hd : 0 < den) (le : num ≤ num') :
    nearest num den ≤ nearest num' den := by
  obtain ⟨shift, s, h⟩ := exists_rounds num hd
  obtain ⟨shift', s', h'⟩ := exists_rounds num' hd
  have mono := h.mono h' le
  rw [h.nearest_eq hd, h'.nearest_eq hd]
  omega

theorem natAbs_sub_lt {a b n : Nat} (less : a < b) (le : b ≤ n) :
    ((b : Int) - n).natAbs < ((a : Int) - n).natAbs := by
  omega

def farness (num den m : Nat) : Nat :=
  ((quantaOf m * den : Nat) - (num * quantaPerUnit : Nat) : Int).natAbs

namespace Rounds

variable {num den shift s : Nat}

theorem farness_eq (h : Rounds num den shift s) :
    farness num den (shift * 0x800000 + s) =
      ((s * (den * 2 ^ shift) : Nat) - (num * quantaPerUnit : Nat) : Int).natAbs := by
  have spacings : s * 2 ^ shift * den = s * (den * 2 ^ shift) := by ring
  rw [farness, h.quantaOf_eq, spacings]

theorem multiple_farther (h : Rounds num den shift s) {t : Nat} (other : t ≠ s) :
    let far := ((t * (den * 2 ^ shift) : Nat) - (num * quantaPerUnit : Nat) : Int).natAbs
    farness num den (shift * 0x800000 + s) < far ∨
      farness num den (shift * 0x800000 + s) = far ∧ s % 2 = 0 := by
  intro far
  have positive := h.spacing_pos
  obtain ⟨above, below⟩ := h.error
  have even : 2 * (s * (den * 2 ^ shift)) = 2 * (num * quantaPerUnit) + den * 2 ^ shift ∨
      2 * (num * quantaPerUnit) = 2 * (s * (den * 2 ^ shift)) + den * 2 ^ shift → s % 2 = 0 := by
    have parity := roundDiv_even (n := num * quantaPerUnit) positive
    rwa [h.rounded] at parity
  rw [h.farness_eq]
  rcases Nat.lt_or_gt_of_ne other with less | more
  · have room := Nat.mul_le_mul_right (den * 2 ^ shift) (show t + 1 ≤ s from less)
    rw [Nat.succ_mul] at room
    omega
  · have room := Nat.mul_le_mul_right (den * 2 ^ shift) (show s + 1 ≤ t from more)
    rw [Nat.succ_mul] at room
    omega

theorem farness_le_multiple (h : Rounds num den shift s) (t : Nat) :
    farness num den (shift * 0x800000 + s) ≤
      ((t * (den * 2 ^ shift) : Nat) - (num * quantaPerUnit : Nat) : Int).natAbs := by
  by_cases same : t = s
  · rw [h.farness_eq, same]
  · have farther := h.multiple_farther same
    omega

theorem farther (h : Rounds num den shift s) {m : Nat} (other : m ≠ shift * 0x800000 + s) :
    farness num den (shift * 0x800000 + s) < farness num den m ∨
      farness num den (shift * 0x800000 + s) = farness num den m ∧ s % 2 = 0 := by
  obtain ⟨shift', s', rfl, normal', small'⟩ := exists_significand m
  have value : quantaOf (shift' * 0x800000 + s') = s' * 2 ^ shift' :=
    Binary32.quantaOf_eq normal' (by omega)
  have far : farness num den (shift' * 0x800000 + s') =
      ((s' * 2 ^ shift' * den : Nat) - (num * quantaPerUnit : Nat) : Int).natAbs := by
    rw [farness, value]
  rcases Nat.lt_or_ge shift' shift with finer | coarser
  · -- a lesser exponent: the least significand of the own exponent lies between
    obtain ⟨k, rfl⟩ := Nat.exists_eq_add_of_le (show shift' + 1 ≤ shift from finer)
    have normal := h.normal.resolve_left (by omega)
    have positive : 0 < den := Nat.pos_of_mul_pos_right h.spacing_pos
    have below : s' * 2 ^ shift' * den < 0x800000 * (den * 2 ^ (shift' + 1 + k)) :=
      calc s' * 2 ^ shift' * den < 0x1000000 * 2 ^ shift' * den :=
            Nat.mul_lt_mul_of_pos_right
              (Nat.mul_lt_mul_of_pos_right small' (Nat.two_pow_pos _)) positive
        _ = 0x800000 * (den * 2 ^ (shift' + 1)) := by ring
        _ ≤ 0x800000 * (den * 2 ^ (shift' + 1 + k)) :=
          Nat.mul_le_mul_left _ (Nat.mul_le_mul_left _ (Nat.pow_le_pow_right (by decide) (by omega)))
    rw [far]
    exact .inl (Nat.lt_of_le_of_lt (h.farness_le_multiple 0x800000) (natAbs_sub_lt below normal))
  · obtain ⟨k, rfl⟩ := Nat.exists_eq_add_of_le coarser
    have spacings : s' * 2 ^ (shift + k) * den = s' * 2 ^ k * (den * 2 ^ shift) := by ring
    have apart : s' * 2 ^ k ≠ s := by
      rintro rfl
      refine other (quantaOf_strictMono.injective ?_)
      rw [value, h.quantaOf_eq]
      ring
    have farther := h.multiple_farther apart
    rwa [← spacings, ← far] at farther

end Rounds

end Epidemic.Binary32
