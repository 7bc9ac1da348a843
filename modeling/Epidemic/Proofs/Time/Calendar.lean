import Epidemic.Time.Calendar
import Epidemic.Time.Instant

namespace Epidemic.Calendar

theorem daysBeforeYear_near (y : Int) :
    146097 * y - 396 ≤ 400 * daysBeforeYear y ∧ 400 * daysBeforeYear y ≤ 146097 * y + 699 := by
  simp only [daysBeforeYear]
  omega

theorem daysBeforeYear_succ (y : Int) :
    daysBeforeYear (y + 1) = daysBeforeYear y + if isLeapYear y then 366 else 365 := by
  by_cases four : y % 4 = 0 <;> by_cases hundred : y % 100 = 0 <;> by_cases whole : y % 400 = 0 <;>
    simp only [isLeapYear, daysBeforeYear, four, hundred, whole] <;> simp <;> omega

theorem daysBeforeYear_mono {y z : Int} (h : y ≤ z) : daysBeforeYear y ≤ daysBeforeYear z := by
  rcases Int.le_iff_lt_or_eq.mp h with earlier | rfl
  · simp only [daysBeforeYear]
    omega
  · exact Int.le_refl _

theorem yearOf_spec (d : Int) :
    daysBeforeYear (yearOf d) ≤ d ∧ d < daysBeforeYear (yearOf d + 1) := by
  have before := daysBeforeYear_near (d * 400 / 146097 - 1)
  have after := daysBeforeYear_near (d * 400 / 146097 + 1 + 1)
  simp only [yearOf]
  split
  · rw [Int.sub_add_cancel]
    omega
  · split <;> omega

theorem foldl_add_cons (n : Nat) (ns : List Nat) :
    (n :: ns).foldl (· + ·) 0 = n + ns.foldl (· + ·) 0 := by
  rw [List.foldl_cons, Nat.add_comm 0 n, List.foldl_assoc]

theorem monthOf_spec {ns : List Nat} {d : Nat} (h : d < ns.foldl (· + ·) 0) (month : Nat) :
    ∃ i, i < ns.length ∧ (monthOf month ns d).1 = month + i ∧
      (ns.take i).foldl (· + ·) 0 + (monthOf month ns d).2 = d + 1 ∧
      1 ≤ (monthOf month ns d).2 ∧ (monthOf month ns d).2 ≤ ns.getD i 0 := by
  induction ns generalizing d month with
  | nil => exact absurd h (Nat.not_lt_zero d)
  | cons n ns ih =>
      rw [foldl_add_cons] at h
      rw [monthOf]
      split
      · rename_i within
        exact ⟨0, by simp, rfl, by simp, by simp, within⟩
      · obtain ⟨i, bound, name, days, first, last⟩ := ih (d := d - n) (by omega) (month + 1)
        refine ⟨i + 1, by simpa using bound, by omega, ?_, first, by simpa using last⟩
        rw [List.take_succ_cons, foldl_add_cons]
        omega

theorem monthLengths_total (y : Int) :
    (monthLengths y).foldl (· + ·) 0 = if isLeapYear y then 366 else 365 := by
  simp only [monthLengths]
  cases isLeapYear y <;> rfl

theorem monthLengths_le (y : Int) (i : Nat) : (monthLengths y).getD i 0 ≤ 31 := by
  have bound : ∀ n ∈ monthLengths y, n ≤ 31 := by
    simp only [monthLengths]
    cases isLeapYear y <;> decide
  rw [List.getD_eq_getElem?_getD]
  cases found : (monthLengths y)[i]? with
  | none => exact Nat.zero_le 31
  | some n => exact bound n (List.mem_of_getElem? found)

structure Dated (n : Int) (date : Date) : Prop where
  begun : daysBeforeYear date.year ≤ n + epoch
  unfinished : n + epoch < daysBeforeYear (date.year + 1)
  isDate : isDate date = true
  day : day date = n

theorem dated_ofDay (n : Int) : Dated n (ofDay n) := by
  obtain ⟨begun, unfinished⟩ := yearOf_spec (n + epoch)
  have within : (n + epoch - daysBeforeYear (yearOf (n + epoch))).toNat <
      (monthLengths (yearOf (n + epoch))).foldl (· + ·) 0 := by
    have next := daysBeforeYear_succ (yearOf (n + epoch))
    rw [monthLengths_total]
    split at next <;> simp_all <;> omega
  obtain ⟨i, bound, month, days, first, last⟩ := monthOf_spec within 1
  have bound : i < 12 := bound
  have index : (ofDay n).month - 1 = i := by
    simp only [ofDay, month, Nat.add_sub_cancel_left]
  refine ⟨begun, unfinished, ?_, ?_⟩
  · have month : (ofDay n).month = 1 + i := month
    simp only [Calendar.isDate, index, Bool.and_eq_true, decide_eq_true_eq]
    exact ⟨⟨⟨by omega, by omega⟩, first⟩, last⟩
  · rw [day, daysBeforeMonth, index]
    simp only [ofDay]
    omega

namespace Dated

variable {n : Int} {date : Date}

theorem bounds (h : Dated n date) :
    1 ≤ date.month ∧ date.month ≤ 12 ∧ 1 ≤ date.day ∧ date.day ≤ 31 := by
  have named := h.isDate
  simp only [Calendar.isDate, Bool.and_eq_true, decide_eq_true_eq] at named
  obtain ⟨⟨⟨first, last⟩, begun⟩, ended⟩ := named
  exact ⟨first, last, begun, Nat.le_trans ended (monthLengths_le ..)⟩

theorem le_year_iff (h : Dated n date) (y : Int) :
    y ≤ date.year ↔ daysBeforeYear y ≤ n + epoch := by
  constructor
  · exact fun late => Int.le_trans (daysBeforeYear_mono late) h.begun
  · refine fun begun => Int.not_lt.mp fun early => ?_
    have next := daysBeforeYear_mono (Int.add_one_le_of_lt early)
    exact absurd (Int.lt_of_lt_of_le h.unfinished next) (Int.not_lt.mpr begun)

end Dated

def InYears (s : Int) : Prop :=
  firstYear ≤ (ofDay (s / Instant.secondsPerDay)).year ∧
    (ofDay (s / Instant.secondsPerDay)).year ≤ lastYear

theorem inRange_iff_inYears {s : Int} : Instant.inRange s = true ↔ InYears s := by
  have dated := dated_ofDay (s / Instant.secondsPerDay)
  have first : daysBeforeYear firstYear = Instant.firstSecond / Instant.secondsPerDay + epoch := by
    decide
  have last : daysBeforeYear (lastYear + 1) =
      Instant.lastSecond / Instant.secondsPerDay + epoch + 1 := by decide
  have within : (ofDay (s / Instant.secondsPerDay)).year ≤ lastYear ↔
      ¬daysBeforeYear (lastYear + 1) ≤ s / Instant.secondsPerDay + epoch := by
    rw [← dated.le_year_iff, Int.not_le, Int.lt_add_one_iff]
  have range : Instant.inRange s = true ↔ Instant.firstSecond ≤ s ∧ s ≤ Instant.lastSecond := by
    simp [Instant.inRange]
  rw [range, InYears, dated.le_year_iff, within, first, last]
  simp only [Instant.secondsPerDay, Instant.firstSecond, Instant.lastSecond]
  omega

end Epidemic.Calendar
