import Epidemic.Time.Instant

namespace Epidemic.Instant

instance : LE Instant :=
  ⟨fun a b => a.seconds < b.seconds ∨ a.seconds = b.seconds ∧ a.nanos ≤ b.nanos⟩

instance (a b : Instant) : Decidable (a ≤ b) :=
  inferInstanceAs (Decidable (_ ∨ _))

instance : LT Instant :=
  ⟨fun a b => a.seconds < b.seconds ∨ a.seconds = b.seconds ∧ a.nanos < b.nanos⟩

instance (a b : Instant) : Decidable (a < b) :=
  inferInstanceAs (Decidable (_ ∨ _))

variable {a b c now : Instant}

theorem le_iff : a ≤ b ↔ a.seconds < b.seconds ∨ a.seconds = b.seconds ∧ a.nanos ≤ b.nanos :=
  Iff.rfl

theorem le_refl (a : Instant) : a ≤ a :=
  .inr ⟨rfl, Nat.le_refl _⟩

theorem le_trans (hab : a ≤ b) (hbc : b ≤ c) : a ≤ c := by
  rw [le_iff] at *
  omega

theorem le_of_not_le (h : ¬a ≤ b) : b ≤ a := by
  rw [le_iff] at *
  omega

theorem lt_iff : a < b ↔ a.seconds < b.seconds ∨ a.seconds = b.seconds ∧ a.nanos < b.nanos :=
  Iff.rfl

theorem not_le_iff : ¬a ≤ b ↔ b < a := by
  rw [le_iff, lt_iff]
  omega

theorem lt_irrefl (a : Instant) : ¬a < a := by
  rw [lt_iff]
  omega

theorem lt_trans (hab : a < b) (hbc : b < c) : a < c := by
  rw [lt_iff] at *
  omega

theorem isLeap_eq_false : a.isLeap = false ↔ a.nanos < nanosPerSecond := by
  simp [isLeap]

@[simp] theorem isLeap_ofSeconds (s : Int) : (ofSeconds s).isLeap = false := rfl

def Regular (t : Instant) : Prop :=
  t.isLeap = true → t.secondOfDay = secondsPerDay - 1

instance (t : Instant) : Decidable t.Regular :=
  inferInstanceAs (Decidable (_ → _))

theorem Regular.of_not_leap (h : now.isLeap = false) : now.Regular := by
  intro leap
  rw [h] at leap
  cases leap

theorem nanosSince_of_regular (hn : now.Regular) (ha : a.isLeap = false) :
    now.nanosSince a =
      (now.seconds - a.seconds) * nanosPerSecond + (now.nanos - a.nanos) := by
  have last : ¬(now.secondOfDay < a.secondOfDay ∧ now.isLeap = true) := by
    rintro ⟨before, leap⟩
    have day := hn leap
    simp only [secondOfDay, secondsPerDay] at before day
    omega
  simp [nanosSince, leapCorrection, ha, last]

theorem nanosSince_of_not_leap (hn : now.isLeap = false) (ha : a.isLeap = false) :
    now.nanosSince a =
      (now.seconds - a.seconds) * nanosPerSecond + (now.nanos - a.nanos) :=
  nanosSince_of_regular (.of_not_leap hn) ha

theorem secondsSince_le (hn : now.Regular) (ha : a.isLeap = false) (hb : b.isLeap = false)
    (h : a ≤ b) : now.secondsSince b ≤ now.secondsSince a := by
  rw [secondsSince, secondsSince, nanosSince_of_regular hn ha, nanosSince_of_regular hn hb]
  -- Truncation is monotone on both sides of zero, so the clock may be ahead of either or behind.
  refine Int.tdiv_le_tdiv (by decide) ?_
  rw [isLeap_eq_false] at ha hb
  rw [le_iff] at h
  simp only [nanosPerSecond] at *
  omega

theorem secondsSince_le_ofSeconds (now t : Instant) :
    now.secondsSince t ≤ now.secondsSince (.ofSeconds t.seconds) := by
  refine Int.tdiv_le_tdiv (by decide) ?_
  have day : (ofSeconds t.seconds).secondOfDay = t.secondOfDay := rfl
  simp only [nanosSince, leapCorrection, day, isLeap_ofSeconds, Bool.false_eq_true, and_false,
    if_false]
  by_cases counted : t.secondOfDay < now.secondOfDay ∧ t.isLeap = true
  · have long : nanosPerSecond ≤ t.nanos := of_decide_eq_true counted.2
    have before : ¬(now.secondOfDay < t.secondOfDay ∧ now.isLeap = true) := by omega
    rw [if_pos counted, if_neg before]
    simp only [ofSeconds, nanosPerSecond] at *
    omega
  · rw [if_neg counted]
    simp only [ofSeconds]
    omega

theorem not_le_of_secondsSince_lt (hn : now.Regular) (ha : a.isLeap = false)
    (hb : b.isLeap = false) (h : now.secondsSince a < now.secondsSince b) : ¬a ≤ b :=
  fun le => absurd (secondsSince_le hn ha hb le) (Int.not_le.mpr h)

@[simp] theorem nanosSince_self (a : Instant) : a.nanosSince a = 0 := by
  simp [nanosSince, leapCorrection]

theorem nanosSince_le (ha : a.isLeap = false) (hb : b.isLeap = false) (hc : c.isLeap = false)
    (h : b ≤ c) : a.nanosSince c ≤ a.nanosSince b := by
  rw [nanosSince_of_not_leap ha hc, nanosSince_of_not_leap ha hb]
  rw [isLeap_eq_false] at hb hc
  rw [le_iff] at h
  simp only [nanosPerSecond] at *
  omega

theorem nanosSince_nonneg (hn : now.Regular) (ha : a.isLeap = false) (h : a ≤ now) :
    0 ≤ now.nanosSince a := by
  rw [nanosSince_of_regular hn ha]
  rw [isLeap_eq_false] at ha
  rw [le_iff] at h
  simp only [nanosPerSecond] at *
  omega

theorem nanosSince_sub (hn : now.Regular) (ha : a.isLeap = false) (hb : b.isLeap = false) :
    a.nanosSince b = now.nanosSince b - now.nanosSince a := by
  rw [nanosSince_of_not_leap ha hb, nanosSince_of_regular hn hb, nanosSince_of_regular hn ha]
  simp only [nanosPerSecond]
  omega

theorem sub_lt_of_tdiv_le {x y : Int} (h : y.tdiv nanosPerSecond ≤ x.tdiv nanosPerSecond) :
    y - x < 2 * nanosPerSecond ∧ (0 ≤ x ∨ y ≤ 0 → y - x < nanosPerSecond) := by
  have whole : (0 : Int) < nanosPerSecond := by decide
  -- a remainder has the sign of what is divided and stays below a second
  have splitX := Int.mul_tdiv_add_tmod x nanosPerSecond
  have splitY := Int.mul_tdiv_add_tmod y nanosPerSecond
  have aboveX := Int.lt_tmod_of_pos x whole
  have belowY := Int.tmod_lt_of_pos y whole
  have signX := Int.tmod_nonneg (a := x) nanosPerSecond
  have signY := Int.tmod_nonneg (a := -y) nanosPerSecond
  rw [Int.neg_tmod] at signY
  simp only [nanosPerSecond] at *
  omega

theorem nanosSince_lt_of_secondsSince_le (hn : now.Regular) (ha : a.isLeap = false)
    (hb : b.isLeap = false) (h : now.secondsSince b ≤ now.secondsSince a) :
    a.nanosSince b < 2 * nanosPerSecond ∧ (a ≤ now → a.nanosSince b < nanosPerSecond) := by
  obtain ⟨wide, narrow⟩ := sub_lt_of_tdiv_le h
  rw [nanosSince_sub hn ha hb]
  exact ⟨wide, fun made => narrow (.inl (nanosSince_nonneg hn ha made))⟩

theorem le_of_nanosSince_lt (ha : a.nanos = 0) (hb : b.nanos = 0)
    (h : a.nanosSince b < nanosPerSecond) : a ≤ b := by
  have whole (t : Instant) (ht : t.nanos = 0) : t.isLeap = false := by
    rw [isLeap_eq_false, ht]
    decide
  rw [nanosSince_of_not_leap (whole a ha) (whole b hb), ha, hb] at h
  rw [le_iff, ha, hb]
  simp only [nanosPerSecond] at h
  omega

end Epidemic.Instant
