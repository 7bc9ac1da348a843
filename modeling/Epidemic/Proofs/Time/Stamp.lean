import Epidemic.Proofs.Numeral
import Epidemic.Proofs.Time.Calendar
import Epidemic.Time.Stamp

namespace Epidemic

namespace Instant

def spelled (t : Instant) : Instant :=
  if t.isLeap ∧ t.seconds % 60 ≠ 59 then ⟨t.seconds + 1, t.nanos - nanosPerSecond⟩ else t

variable {t : Instant}

theorem Representable.spelled (h : t.Representable) : t.spelled.Valid := by
  obtain ⟨range, short⟩ := h
  unfold Instant.spelled
  split
  · rename_i inside
    have bounds : firstSecond ≤ t.seconds ∧ t.seconds ≤ lastSecond := by
      simpa [inRange] using range
    -- The last second there is ends a minute, so that the one after `t` is still in range.
    have next : inRange (t.seconds + 1) = true := by
      have other := inside.2
      rw [inRange, Bool.and_eq_true, decide_eq_true_eq, decide_eq_true_eq]
      simp only [firstSecond, lastSecond] at bounds ⊢
      omega
    exact ⟨next, .inl (by simp only; omega)⟩
  · rename_i outside
    refine ⟨range, ?_⟩
    simp only [isLeap, decide_eq_true_eq, not_and, not_not] at outside
    omega

theorem Valid.representable (h : t.Valid) : t.Representable := by
  refine ⟨h.1, ?_⟩
  rcases h.2 with short | ⟨short, -⟩ <;> omega

end Instant

namespace Stamp

open Numeral

theorem trimStart_cons {c : Char} (h : Text.isBlank c = false) (cs : List Char) :
    Text.trimStart (c :: cs) = c :: cs := by
  simp [Text.trimStart, h]

theorem trimStart_padded (width n : Nat) (rest : List Char) :
    Text.trimStart (padded width 10 n ++ rest) = padded width 10 n ++ rest := by
  have digits (c : Char) (h : c ∈ padded width 10 n) : Text.isBlank c = false :=
    isBlank_of_mem_map (fun _ => paddedPlaces_lt) (padded_eq_map width n ▸ h)
  have some : padded width 10 n ≠ [] := by simp [padded_eq_map, paddedPlaces_ne_nil]
  obtain ⟨c, cs, e⟩ := List.exists_cons_of_ne_nil some
  rw [e, List.cons_append, trimStart_cons (digits c (by simp [e]))]

theorem readNumber?_padded (width low high : Nat) {n : Nat} (fits : n < 10 ^ (width + 1))
    (range : low ≤ n ∧ n ≤ high) (rest : List Char) :
    readNumber? (width + 1) low high (padded (width + 1) 10 n ++ rest) = some (n, rest) := by
  have small : ∀ d ∈ paddedPlaces (width + 1) n, d < 10 := fun _ => paddedPlaces_lt
  have spanned := spanUpTo_map_digitChar small rest
  rw [length_paddedPlaces fits, ← padded_eq_map] at spanned
  have kept : ¬((paddedPlaces (width + 1) n).isEmpty = true ∨ n < low ∨ high < n) := by
    rw [List.isEmpty_iff]
    rintro (none | out | out)
    · exact paddedPlaces_ne_nil _ _ none
    · omega
    · omega
  simp only [readNumber?, trimStart_padded, spanned, value_paddedPlaces, if_neg kept]

theorem readMark?_cons {mark : Char} (h : Text.isBlank mark = false) (rest : List Char) :
    readMark? mark (mark :: rest) = some rest := by
  simp [readMark?, trimStart_cons h]

theorem readYear?_yearText (y : Int) (rest : List Char) :
    readYear? (yearText y ++ '-' :: rest) = some (y, '-' :: rest) := by
  have dash : span 10 ('-' :: rest) = ([], '-' :: rest) := span_cons_of_none (by decide)
  unfold yearText
  split
  · rename_i range
    have fits : y.natAbs < 10 ^ (3 + 1) := by omega
    have read := readNumber?_padded 3 0 9999 fits (by omega) ('-' :: rest)
    have value : (y.natAbs : Int) = y := Int.natAbs_of_nonneg range.1
    obtain ⟨d, ds, e⟩ := List.exists_cons_of_ne_nil (paddedPlaces_ne_nil 4 y.natAbs)
    have first : d ∈ paddedPlaces 4 y.natAbs := by simp [e]
    have small := paddedPlaces_lt first
    have front : padded 4 10 y.natAbs = digitChar d :: ds.map digitChar := by
      rw [padded_eq_map, e, List.map_cons]
    -- The text begins with a digit and so has no sign.
    have unsigned : readYear? (padded 4 10 y.natAbs ++ '-' :: rest) =
        (readNumber? 4 0 9999 (padded 4 10 y.natAbs ++ '-' :: rest)).map
          fun r => ((r.1 : Int), r.2) := by
      simp only [readYear?, trimStart_padded]
      rw [front, List.cons_append]
      interval_cases d <;> rfl
    rw [unsigned, read, Option.map_some, value]
  · have some : ¬(paddedPlaces 4 y.natAbs).isEmpty = true := by
      simpa only [List.isEmpty_iff] using paddedPlaces_ne_nil 4 y.natAbs
    split
    · have value : -(y.natAbs : Int) = y := by omega
      simp only [readYear?, List.cons_append, trimStart_cons (show Text.isBlank '-' = false by decide),
        span_padded _ _ dash, if_neg some, value_paddedPlaces, if_true, value]
    · have value : (y.natAbs : Int) = y := by omega
      simp only [readYear?, List.cons_append, trimStart_cons (show Text.isBlank '+' = false by decide),
        span_padded _ _ dash, if_neg some, value_paddedPlaces, Bool.false_eq_true, if_false, value]

theorem readFraction?_padded {width n : Nat} (fits : n < 10 ^ (width + 1)) (short : width + 1 ≤ 9)
    (rest : List Char) :
    readFraction? ('.' :: (padded (width + 1) 10 n ++ 'Z' :: rest)) =
      some (n * Nat.pow 10 (9 - (width + 1)), 'Z' :: rest) := by
  have zone : span 10 ('Z' :: rest) = ([], 'Z' :: rest) := span_cons_of_none (by decide)
  have length := length_paddedPlaces fits
  have whole : (paddedPlaces (width + 1) n).take 9 = paddedPlaces (width + 1) n :=
    List.take_of_length_le (by omega)
  have some : ¬(paddedPlaces (width + 1) n).isEmpty = true := by
    simpa only [List.isEmpty_iff] using paddedPlaces_ne_nil (width + 1) n
  simp only [readFraction?, span_padded _ _ zone, whole, if_neg some, value_paddedPlaces, length]

theorem readFraction?_fractionText {nanos : Nat} (small : nanos < 1000000000) (rest : List Char) :
    readFraction? (fractionText nanos ++ 'Z' :: rest) = some (nanos, 'Z' :: rest) := by
  unfold fractionText
  split
  · rename_i zero
    rw [zero]
    rfl
  · split
    · rename_i thousands
      rw [List.cons_append, readFraction?_padded (by omega) (by decide)]
      have value := Nat.div_mul_cancel (Nat.dvd_of_mod_eq_zero thousands)
      exact congrArg (fun n => some (n, 'Z' :: rest)) value
    · split
      · rename_i thousands
        rw [List.cons_append, readFraction?_padded (by omega) (by decide)]
        have value := Nat.div_mul_cancel (Nat.dvd_of_mod_eq_zero thousands)
        exact congrArg (fun n => some (n, 'Z' :: rest)) value
      · rw [List.cons_append, readFraction?_padded (by omega) (by decide)]
        exact congrArg (fun n => some (n, 'Z' :: rest)) (Nat.mul_one nanos)

def fractionWidths : List Nat := [0, 3, 6, 9]

structure IsFraction (nanos width : Nat) (cs : List Char) : Prop where
  allowed : width ∈ fractionWidths
  exact : nanos % Nat.pow 10 (9 - width) = 0
  fewest : ∀ w ∈ fractionWidths, nanos % Nat.pow 10 (9 - w) = 0 → width ≤ w
  text : cs = if width = 0 then [] else '.' :: padded width 10 (nanos / Nat.pow 10 (9 - width))

theorem exists_isFraction {nanos : Nat} (small : nanos < 1000000000) :
    ∃ width, IsFraction nanos width (fractionText nanos) := by
  unfold fractionText
  split
  · rename_i zero
    exact ⟨0, by decide, by simp [zero], by simp, rfl⟩
  · rename_i some
    have whole : ¬nanos % Nat.pow 10 9 = 0 := by
      rw [show Nat.pow 10 9 = 1000000000 from rfl]
      omega
    split
    · rename_i thousands
      exact ⟨3, by decide, thousands, by simp [fractionWidths, whole], rfl⟩
    · rename_i milli
      split
      · rename_i thousands
        exact ⟨6, by decide, thousands, by simp [fractionWidths, whole, milli], rfl⟩
      · rename_i micro
        exact ⟨9, by decide, Nat.mod_one _, by simp [fractionWidths, whole, milli, micro], by simp⟩

namespace Fields

def text (f : Fields) : List Char :=
  yearText f.date.year ++ '-' :: pair f.date.month ++ '-' :: pair f.date.day ++
    'T' :: pair f.hour ++ ':' :: pair f.minute ++ ':' :: pair f.second ++
    fractionText f.nanos ++ ['Z']

structure InRange (f : Fields) : Prop where
  month : 1 ≤ f.date.month ∧ f.date.month ≤ 12
  day : 1 ≤ f.date.day ∧ f.date.day ≤ 31
  hour : f.hour ≤ 23
  minute : f.minute ≤ 59
  second : f.second ≤ 60
  nanos : f.nanos < 1000000000
  universal : f.offset = 0

end Fields

theorem readNumber?_pair (low : Nat) {high n : Nat} (small : high < 100) (range : low ≤ n ∧ n ≤ high)
    (rest : List Char) : readNumber? 2 low high (pair n ++ rest) = some (n, rest) :=
  readNumber?_padded 1 low high (show n < 100 by omega) range rest

theorem readFields?_text {f : Fields} (h : f.InRange) : readFields? f.text = some (f, []) := by
  have dash := readMark?_cons (show Text.isBlank '-' = false by decide)
  have colon := readMark?_cons (show Text.isBlank ':' = false by decide)
  have separator (rest : List Char) : readSeparator? ('T' :: rest) = some rest := rfl
  have month := readNumber?_pair 1 (by decide) h.month
  have day := readNumber?_pair 1 (by decide) h.day
  have hour := readNumber?_pair 0 (by decide) ⟨Nat.zero_le _, h.hour⟩
  have minute := readNumber?_pair 0 (by decide) ⟨Nat.zero_le _, h.minute⟩
  have second := readNumber?_pair 0 (by decide) ⟨Nat.zero_le _, h.second⟩
  have fraction := readFraction?_fractionText h.nanos
  have zone : readOffset? (Text.trimStart ['Z']) = some (0, []) := by decide
  simp only [Fields.text, List.append_assoc, List.cons_append]
  simp only [readFields?, readYear?_yearText, dash, month, day, separator, hour, colon, minute, second,
    fraction, zone, Option.bind_eq_bind, Option.bind_some]
  rw [← h.universal]

def fields (t : Instant) : Fields where
  date := Calendar.ofDay (t.seconds / Instant.secondsPerDay)
  hour := t.secondOfDay.toNat / 3600
  minute := t.secondOfDay.toNat / 60 % 60
  second := if t.isLeap then t.secondOfDay.toNat % 60 + 1 else t.secondOfDay.toNat % 60
  nanos := if t.isLeap then t.nanos - Instant.nanosPerSecond else t.nanos
  offset := 0

theorem text_fields (t : Instant) : (fields t).text = text t := rfl

theorem second_fields {t : Instant} (h : t.Valid) :
    (0 ≤ t.secondOfDay ∧ t.secondOfDay < 86400) ∧
      ((fields t).second = t.secondOfDay.toNat % 60 ∧ (fields t).nanos = t.nanos ∧
          t.nanos < 1000000000 ∨
        (fields t).second = 60 ∧ t.secondOfDay.toNat % 60 = 59 ∧
          (fields t).nanos + 1000000000 = t.nanos ∧ t.nanos < 2000000000) := by
  have nanos := h.2
  have day : 0 ≤ t.secondOfDay ∧ t.secondOfDay < 86400 ∧
      t.secondOfDay % 60 = t.seconds % 60 := by
    simp only [Instant.secondOfDay, Instant.secondsPerDay]
    omega
  simp only [Instant.nanosPerSecond] at nanos
  refine ⟨⟨day.1, day.2.1⟩, ?_⟩
  cases leap : t.isLeap with
  | false =>
      have short : ¬1000000000 ≤ t.nanos := of_decide_eq_false leap
      have plain : ¬t.isLeap = true := by simp [leap]
      exact .inl ⟨if_neg plain, if_neg plain, by omega⟩
  | true =>
      have long : 1000000000 ≤ t.nanos := of_decide_eq_true leap
      have second : (fields t).second = t.secondOfDay.toNat % 60 + 1 := if_pos leap
      have fraction : (fields t).nanos = t.nanos - 1000000000 := if_pos leap
      exact .inr (by omega)

theorem inRange_fields {t : Instant} (h : t.Valid) : (fields t).InRange := by
  obtain ⟨m, m', d, d'⟩ := (Calendar.dated_ofDay (t.seconds / Instant.secondsPerDay)).bounds
  have second := second_fields h
  refine ⟨⟨m, m'⟩, ⟨d, d'⟩, ?_, ?_, by omega, by omega, rfl⟩
  · simp only [fields]
    omega
  · simp only [fields]
    omega

theorem instant?_fields {t : Instant} (h : t.Valid) : (fields t).instant? = some t := by
  have dated := Calendar.dated_ofDay (t.seconds / Instant.secondsPerDay)
  have year : Calendar.firstYear ≤ (fields t).date.year ∧
      (fields t).date.year ≤ Calendar.lastYear := Calendar.inRange_iff_inYears.mp h.1
  have date : ¬¬Calendar.isDate (fields t).date = true := fun no => no dated.isDate
  have offset : ¬Instant.secondsPerDay ≤ (fields t).offset.natAbs := show ¬86400 ≤ 0 by decide
  have day : Calendar.day (fields t).date = t.seconds / Instant.secondsPerDay := dated.day
  have second := second_fields h
  have moment : Calendar.day (fields t).date * Instant.secondsPerDay + 3600 * (fields t).hour +
      60 * (fields t).minute + (if (fields t).second = 60 then 59 else (fields t).second : Nat) -
      (fields t).offset = t.seconds := by
    have hour : (fields t).hour = t.secondOfDay.toNat / 3600 := rfl
    have minute : (fields t).minute = t.secondOfDay.toNat / 60 % 60 := rfl
    have universal : (fields t).offset = 0 := rfl
    have whole : t.secondOfDay = t.seconds % 86400 := rfl
    rw [day, hour, minute, universal, Instant.secondsPerDay]
    split <;> omega
  have nanos : (if (fields t).second = 60 then (fields t).nanos + Instant.nanosPerSecond
      else (fields t).nanos) = t.nanos := by
    simp only [Instant.nanosPerSecond]
    split <;> omega
  simp only [Fields.instant?, not_not.mpr year, date, offset, moment, nanos, if_false, h.1, if_true]

theorem read?_text {t : Instant} (h : t.Valid) : read? (text t) = some t := by
  rw [← text_fields, read?, readFields?_text (inRange_fields h)]
  exact instant?_fields h

theorem fields_spelled {t : Instant} (h : t.Representable) : fields t.spelled = fields t := by
  unfold Instant.spelled
  split
  · rename_i inside
    have short := h.2
    have long : Instant.nanosPerSecond ≤ t.nanos := of_decide_eq_true inside.1
    have plain : (⟨t.seconds + 1, t.nanos - Instant.nanosPerSecond⟩ : Instant).isLeap = false :=
      decide_eq_false (by simp only; omega)
    have other := inside.2
    simp only [fields, inside.1, plain, Bool.false_eq_true, if_true, if_false, Fields.mk.injEq,
      Instant.secondOfDay, Instant.secondsPerDay]
    refine ⟨congrArg Calendar.ofDay ?_, ?_, ?_, ?_, trivial, trivial⟩ <;> omega
  · rfl

theorem inRange_fields_spelled {t : Instant} (h : t.Representable) : (fields t).InRange :=
  fields_spelled h ▸ inRange_fields h.spelled

theorem text_spelled {t : Instant} (h : t.Representable) : text t.spelled = text t := by
  rw [← text_fields, fields_spelled h, text_fields]

theorem read?_text_spelled {t : Instant} (h : t.Representable) :
    read? (text t) = some t.spelled := by
  rw [← text_spelled h]
  exact read?_text h.spelled

end Stamp

end Epidemic
