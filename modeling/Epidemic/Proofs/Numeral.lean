import Epidemic.Numeral
import Epidemic.Text.Blank
import Mathlib.Data.List.Induction
import Mathlib.Tactic.IntervalCases
import Mathlib.Tactic.SplitIfs
import Mathlib.Tactic.Tauto

namespace Epidemic.Numeral

def places (base n : Nat) : List Nat :=
  if n < base ∨ base < 2 then [n]
  else places base (n / base) ++ [n % base]
termination_by n
decreasing_by exact Nat.div_lt_self (by omega) (by omega)

theorem digits_eq_map (base n : Nat) : digits base n = (places base n).map digitChar := by
  induction n using Nat.strongRecOn with
  | _ n ih =>
      rw [digits, places]
      split
      · rfl
      · rw [ih (n / base) (Nat.div_lt_self (by omega) (by omega)), List.map_append]
        rfl

theorem places_lt {base n d : Nat} (hb : 2 ≤ base) (hd : d ∈ places base n) : d < base := by
  induction n using Nat.strongRecOn with
  | _ n ih =>
      rw [places] at hd
      split at hd
      · rw [List.mem_singleton.mp hd]; omega
      · rcases List.mem_append.mp hd with hd | hd
        · exact ih (n / base) (Nat.div_lt_self (by omega) (by omega)) hd
        · rw [List.mem_singleton.mp hd]; exact Nat.mod_lt _ (by omega)

theorem places_ne_nil (base n : Nat) : places base n ≠ [] := by
  rw [places]
  split <;> simp

theorem value_append (base : Nat) (ds : List Nat) (d : Nat) :
    value base (ds ++ [d]) = value base ds * base + d := by
  simp [value]

theorem value_places {base : Nat} (hb : 2 ≤ base) (n : Nat) : value base (places base n) = n := by
  induction n using Nat.strongRecOn with
  | _ n ih =>
      rw [places]
      split
      · simp [value]
      · rw [value_append, ih (n / base) (Nat.div_lt_self (by omega) (by omega)), Nat.mul_comm]
        exact Nat.div_add_mod n base

theorem length_places_le {base : Nat} (hb : 2 ≤ base) {n k : Nat} (hn : n < base ^ (k + 1)) :
    (places base n).length ≤ k + 1 := by
  induction k generalizing n with
  | zero =>
      rw [Nat.pow_one] at hn
      rw [places, if_pos (.inl hn)]
      simp
  | succ k ih =>
      rw [places]
      split
      · simp
      · have hq : n / base < base ^ (k + 1) := by
          rw [Nat.div_lt_iff_lt_mul (by omega), ← Nat.pow_succ]
          exact hn
        have := ih hq
        simp only [List.length_append, List.length_singleton]
        omega

theorem head?_places {base n : Nat} (hb : 2 ≤ base) (h : (places base n).head? = some 0) :
    places base n = [0] := by
  induction n using Nat.strongRecOn with
  | _ n ih =>
      rw [places] at h ⊢
      split at h
      · rename_i hn
        rw [if_pos hn]
        simpa using h
      · rename_i hn
        have lower := ih (n / base) (Nat.div_lt_self (by omega) (by omega))
        obtain ⟨d, ds, e⟩ := List.exists_cons_of_ne_nil (places_ne_nil base (n / base))
        have first : (places base (n / base)).head? = some 0 := by simpa [e] using h
        have zero : n / base = 0 := by
          rw [← value_places hb (n / base), lower first]
          simp [value]
        rw [Nat.div_eq_zero_iff] at zero
        omega

theorem digitValue?_digitChar {base d : Nat} (hd : d < base) (hb : base ≤ 16) :
    digitValue? base (digitChar d) = some d := by
  have h16 : d < 16 := by omega
  interval_cases d <;> simp [digitValue?, digitChar, hd]

theorem isBlank_of_mem_map {c : Char} {ds : List Nat} (small : ∀ d ∈ ds, d < 10)
    (h : c ∈ ds.map digitChar) : Text.isBlank c = false := by
  obtain ⟨d, hd, rfl⟩ := List.mem_map.mp h
  have := small d hd
  interval_cases d <;> decide

theorem span_map_digitChar {base : Nat} (hb : base ≤ 16) {ds : List Nat} {rest : List Char}
    (hd : ∀ d ∈ ds, d < base) (hr : span base rest = ([], rest)) :
    span base (ds.map digitChar ++ rest) = (ds, rest) := by
  induction ds with
  | nil => exact hr
  | cons d ds ih =>
      have tail := ih fun x hx => hd x (List.mem_cons_of_mem _ hx)
      simp [span, digitValue?_digitChar (hd d (by simp)) hb, tail]

theorem span_digits {base : Nat} (h2 : 2 ≤ base) (h16 : base ≤ 16) (n : Nat) {rest : List Char}
    (hr : span base rest = ([], rest)) : span base (digits base n ++ rest) = (places base n, rest) := by
  rw [digits_eq_map]
  exact span_map_digitChar h16 (fun _ => places_lt h2) hr

def paddedPlaces (width n : Nat) : List Nat :=
  List.replicate (width - (places 10 n).length) 0 ++ places 10 n

theorem padded_eq_map (width n : Nat) :
    padded width 10 n = (paddedPlaces width n).map digitChar := by
  simp [padded, paddedPlaces, digits_eq_map, digitChar]

theorem paddedPlaces_lt {d width n : Nat} (h : d ∈ paddedPlaces width n) : d < 10 := by
  rcases List.mem_append.mp h with h | h
  · rw [List.eq_of_mem_replicate h]; decide
  · exact places_lt (by decide) h

theorem paddedPlaces_ne_nil (width n : Nat) : paddedPlaces width n ≠ [] :=
  List.append_ne_nil_of_right_ne_nil _ (places_ne_nil 10 n)

theorem value_paddedPlaces (width n : Nat) : value 10 (paddedPlaces width n) = n := by
  have zeros (k : Nat) (ds : List Nat) : value 10 (List.replicate k 0 ++ ds) = value 10 ds := by
    induction k with
    | zero => rfl
    | succ k ih => exact ih
  rw [paddedPlaces, zeros, value_places (by decide)]

theorem length_paddedPlaces {width n : Nat} (fits : n < 10 ^ (width + 1)) :
    (paddedPlaces (width + 1) n).length = width + 1 := by
  have := length_places_le (by decide) fits
  simp only [paddedPlaces, List.length_append, List.length_replicate]
  omega

theorem spanUpTo_map_digitChar {ds : List Nat} (small : ∀ d ∈ ds, d < 10) (rest : List Char) :
    spanUpTo 10 ds.length (ds.map digitChar ++ rest) = (ds, rest) := by
  induction ds with
  | nil => cases rest <;> rfl
  | cons d ds ih =>
      have tail := ih fun x hx => small x (List.mem_cons_of_mem _ hx)
      simp [spanUpTo, digitValue?_digitChar (small d (by simp)) (by decide), tail]

theorem span_cons_of_none {base : Nat} {c : Char} {cs : List Char} (h : digitValue? base c = none) :
    span base (c :: cs) = ([], c :: cs) := by
  simp [span, h]

theorem span_padded (width n : Nat) {rest : List Char} (hr : span 10 rest = ([], rest)) :
    span 10 (padded width 10 n ++ rest) = (paddedPlaces width n, rest) := by
  rw [padded_eq_map]
  exact span_map_digitChar (by decide) (fun _ => paddedPlaces_lt) hr

theorem toNat_toLower (c : Char) :
    c.toLower.toNat = if 65 ≤ c.toNat ∧ c.toNat ≤ 90 then c.toNat + 32 else c.toNat := by
  have bounds : c.val ≥ 'A'.val ∧ c.val ≤ 'Z'.val ↔ 65 ≤ c.toNat ∧ c.toNat ≤ 90 := by
    simp only [ge_iff_le, UInt32.le_iff_toNat_le]
    rfl
  delta Char.toLower
  split
  · rename_i upper
    rw [if_pos (bounds.mp upper)]
    have range := bounds.mp upper
    have value : (c.val + ('a'.val - 'A'.val)).toNat = (c.toNat + 32) % 2 ^ 32 := UInt32.toNat_add ..
    exact value.trans (Nat.mod_eq_of_lt (by omega))
  · rename_i other
    rw [if_neg fun upper => other (bounds.mpr upper)]

theorem toNat_digitChar {d : Nat} (small : d < 16) :
    (digitChar d).toNat = if d < 10 then 48 + d else 87 + d := by
  interval_cases d <;> rfl

theorem digitValue?_eq_some_iff {base d : Nat} {c : Char} :
    digitValue? base c = some d ↔ d < base ∧
      (48 ≤ c.toNat ∧ c.toNat ≤ 57 ∧ c.toNat = 48 + d ∨
        97 ≤ c.toNat ∧ c.toNat ≤ 122 ∧ c.toNat = 87 + d ∨
        65 ≤ c.toNat ∧ c.toNat ≤ 90 ∧ c.toNat = 55 + d) := by
  have order (a b : Char) : a ≤ b ↔ a.toNat ≤ b.toNat := UInt32.le_iff_toNat_le
  simp only [digitValue?, order, Char.reduceToNat, Option.ite_none_right_eq_some, Option.some.injEq]
  split_ifs <;> omega

theorem digitValue?_ten {c : Char} {d : Nat} :
    digitValue? 10 c = some d ↔ d < 10 ∧ c = digitChar d := by
  rw [digitValue?_eq_some_iff, ← Char.toNat_inj]
  refine and_congr_right fun small => ?_
  rw [toNat_digitChar (by omega), if_pos small]
  omega

theorem digitValue?_sixteen {c : Char} {d : Nat} :
    digitValue? 16 c = some d ↔ d < 16 ∧ c.toLower = digitChar d := by
  rw [digitValue?_eq_some_iff, ← Char.toNat_inj, toNat_toLower]
  refine and_congr_right fun small => ?_
  rw [toNat_digitChar small]
  split_ifs <;> omega

theorem span_eq_iff {base : Nat} {cs rest : List Char} {ds : List Nat} :
    span base cs = (ds, rest) ↔
      span base rest = ([], rest) ∧ ∃ front, cs = front ++ rest ∧
        front.map (digitValue? base) = ds.map some := by
  constructor
  · intro h
    induction cs generalizing ds with
    | nil =>
        cases h
        exact ⟨rfl, [], rfl, rfl⟩
    | cons c cs ih =>
        simp only [span] at h
        split at h
        · rename_i d value
          obtain ⟨rfl, rfl⟩ := Prod.mk.inj h
          obtain ⟨ends, front, parts, row⟩ := ih rfl
          exact ⟨ends, c :: front, congrArg (c :: ·) parts, by simp [value, row]⟩
        · rename_i none
          cases h
          exact ⟨span_cons_of_none none, [], rfl, rfl⟩
  · rintro ⟨ends, front, rfl, row⟩
    induction front generalizing ds with
    | nil =>
        obtain rfl : ds = [] := by simpa using row.symm
        exact ends
    | cons c front ih =>
        cases ds with
        | nil => simp at row
        | cons d ds =>
            simp only [List.map_cons, List.cons.injEq] at row
            simp [span, row.1, ih row.2]

theorem places_value {base : Nat} {ds : List Nat} (ne : ds ≠ [])
    (small : ∀ d ∈ ds, d < base) (lead : ds.head? = some 0 → ds.length ≤ 1) :
    places base (value base ds) = ds := by
  induction ds using List.reverseRecOn with
  | nil => exact absurd rfl ne
  | append_singleton front d ih =>
      have last : d < base := small d (by simp)
      rw [value_append, places]
      cases front with
      | nil => simp [value, last]
      | cons e es =>
          have head : e ≠ 0 := fun zero => by simp [zero] at lead
          have wide : e < base := small e (by simp)
          have before : places base (value base (e :: es)) = e :: es :=
            ih (by simp) (fun x hx => small x (List.mem_append_left _ hx))
              fun zero => absurd (Option.some.inj zero) head
          have positive : 0 < value base (e :: es) := by
            refine Nat.pos_of_ne_zero fun zero => head ?_
            rw [zero, places, if_pos (.inl (by omega))] at before
            exact (List.cons.inj before).1.symm
          have large : base ≤ value base (e :: es) * base + d :=
            Nat.le_add_right_of_le (Nat.le_mul_of_pos_left base positive)
          have higher : (value base (e :: es) * base + d) / base = value base (e :: es) := by
            rw [Nat.add_comm, Nat.add_mul_div_right _ _ (by omega), Nat.div_eq_of_lt last, Nat.zero_add]
          have lowest : (value base (e :: es) * base + d) % base = d := by
            rw [Nat.add_comm, Nat.add_mul_mod_self_right, Nat.mod_eq_of_lt last]
          rw [if_neg (by omega), higher, lowest, before]

theorem row_iff {base : Nat} {f : Char → Char}
    (digit : ∀ c d, digitValue? base c = some d ↔ d < base ∧ f c = digitChar d)
    {cs : List Char} {ds : List Nat} :
    cs.map (digitValue? base) = ds.map some ↔
      cs.map f = ds.map digitChar ∧ ∀ d ∈ ds, d < base := by
  induction cs generalizing ds with
  | nil => cases ds <;> simp
  | cons c cs ih =>
      cases ds with
      | nil => simp
      | cons d ds =>
          simp only [List.map_cons, List.cons.injEq, ih, digit, List.forall_mem_cons]
          tauto

theorem row_ten_iff {cs : List Char} {ds : List Nat} :
    cs.map (digitValue? 10) = ds.map some ↔ cs = ds.map digitChar ∧ ∀ d ∈ ds, d < 10 := by
  simpa only [List.map_id, id] using row_iff (f := id) fun _ _ => digitValue?_ten

theorem row_sixteen_iff {cs : List Char} {ds : List Nat} :
    cs.map (digitValue? 16) = ds.map some ↔
      cs.map Char.toLower = ds.map digitChar ∧ ∀ d ∈ ds, d < 16 :=
  row_iff fun _ _ => digitValue?_sixteen

theorem value_lt {base : Nat} {ds : List Nat} (small : ∀ d ∈ ds, d < base) :
    value base ds < base ^ ds.length := by
  induction ds using List.reverseRecOn with
  | nil => simp [value]
  | append_singleton front d ih =>
      have last : d < base := small d (by simp)
      have before := ih fun x hx => small x (List.mem_append_left _ hx)
      rw [value_append, List.length_append, List.length_singleton, Nat.pow_succ]
      calc value base front * base + d
        _ < value base front * base + base := Nat.add_lt_add_left last _
        _ = (value base front + 1) * base := (Nat.succ_mul ..).symm
        _ ≤ base ^ front.length * base := Nat.mul_le_mul_right base before

end Epidemic.Numeral
