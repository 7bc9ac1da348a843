namespace Epidemic

variable {ε ε' α β : Type}

theorem bind_ok {x : Except ε α} {k : α → Except ε β} {b : β} :
    (x >>= k) = .ok b ↔ ∃ a, x = .ok a ∧ k a = .ok b := by
  cases x with
  | error e => simp [bind, Except.bind]
  | ok a => simp [bind, Except.bind]

theorem mapError_ok (f : ε → ε') (a : α) : (Except.ok a).mapError f = .ok a := rfl

theorem mapError_error (f : ε → ε') (e : ε) :
    (Except.error e : Except ε α).mapError f = .error (f e) := rfl

theorem mapError_eq_ok {x : Except ε α} {f : ε → ε'} {a : α} :
    x.mapError f = .ok a ↔ x = .ok a := by
  cases x with
  | error e => simp [mapError_error]
  | ok b => simp [mapError_ok]

theorem mapM_error_of_mem {f : α → Except ε β} {as : List α} {a : α} {e : ε} (mem : a ∈ as)
    (bad : f a = .error e) : ∃ b ∈ as, ∃ e', f b = .error e' ∧ as.mapM f = .error e' := by
  induction as with
  | nil => cases mem
  | cons b as ih =>
      rw [List.mapM_cons]
      cases first : f b with
      | error e' => exact ⟨b, List.mem_cons_self, e', first, rfl⟩
      | ok c =>
          have later : a ∈ as := by
            rcases List.mem_cons.mp mem with rfl | later
            · rw [first] at bad
              cases bad
            · exact later
          obtain ⟨b', listed, e', fails, rest⟩ := ih later
          exact ⟨b', List.mem_cons_of_mem _ listed, e', fails, by rw [rest]; rfl⟩

end Epidemic
