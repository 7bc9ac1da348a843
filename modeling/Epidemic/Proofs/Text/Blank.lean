import Epidemic.Text.Blank

namespace Epidemic.Text

theorem isBlank_of_range {c : Char} (h : 43 ≤ c.toNat ∧ c.toNat ≤ 122) : isBlank c = false := by
  rw [isBlank, List.contains_eq_mem, decide_eq_false_iff_not, blanks]
  simp only [List.mem_cons, List.not_mem_nil, or_false]
  omega

theorem dropWhile_append {front cs : List Char} (blank : ∀ c ∈ front, isBlank c = true)
    (shown : ∀ c ∈ cs, isBlank c = false) (back : List Char) (ne : cs ≠ []) :
    (front ++ (cs ++ back)).dropWhile isBlank = cs ++ back := by
  cases cs with
  | nil => exact absurd rfl ne
  | cons c cs =>
      rw [List.dropWhile_append_of_pos blank, List.cons_append,
        List.dropWhile_cons_of_neg (by simp [shown c])]

theorem trim_eq_nil {cs : List Char} (h : ∀ c ∈ cs, isBlank c = true) : trim cs = [] := by
  have none : cs.dropWhile isBlank = [] := by
    rw [← List.append_nil cs, List.dropWhile_append_of_pos h, List.dropWhile_nil]
  rw [trim, none]
  rfl

theorem trim_append {front cs back : List Char} (before : ∀ c ∈ front, isBlank c = true)
    (shown : ∀ c ∈ cs, isBlank c = false) (after : ∀ c ∈ back, isBlank c = true) (ne : cs ≠ []) :
    trim (front ++ cs ++ back) = cs := by
  have shown' : ∀ c ∈ cs.reverse, isBlank c = false := fun c h => shown c (List.mem_reverse.mp h)
  have after' : ∀ c ∈ back.reverse, isBlank c = true := fun c h => after c (List.mem_reverse.mp h)
  have second := dropWhile_append after' shown' [] (by simpa using ne)
  rw [List.append_nil] at second
  rw [trim, List.append_assoc, dropWhile_append before shown back ne, List.reverse_append, second,
    List.reverse_reverse]

theorem trim_eq_self {cs : List Char} (h : ∀ c ∈ cs, isBlank c = false) : trim cs = cs := by
  cases cs with
  | nil => rfl
  | cons c cs =>
      have none : ∀ c ∈ ([] : List Char), isBlank c = true := by simp
      have trimmed := trim_append none h none (by simp)
      rwa [List.nil_append, List.append_nil] at trimmed

theorem exists_eq_trim (cs : List Char) :
    ∃ front back, cs = front ++ trim cs ++ back ∧ (∀ c ∈ front, isBlank c = true) ∧
      ∀ c ∈ back, isBlank c = true := by
  refine ⟨cs.takeWhile isBlank, ((cs.dropWhile isBlank).reverse.takeWhile isBlank).reverse, ?_, ?_, ?_⟩
  · rw [trim, List.append_assoc, ← List.reverse_append, List.takeWhile_append_dropWhile,
      List.reverse_reverse, List.takeWhile_append_dropWhile]
  · exact List.all_eq_true.mp List.all_takeWhile
  · exact fun c h => List.all_eq_true.mp List.all_takeWhile c (List.mem_reverse.mp h)

end Epidemic.Text
