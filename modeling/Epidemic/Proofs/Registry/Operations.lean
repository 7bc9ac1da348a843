import Epidemic.Registry

namespace Epidemic.Roster

open Registry (Fault Outcome)

inductive Operation where
  | insert (p : Peer)
  | update (p : Peer)
  | merge (candidate : Peer) (allowInsert : Bool) (rule : Peer → Peer → Bool)
  | addSeed (seed : Endpoint)

inductive Answer where
  | result (r : Except Fault Unit)
  | outcome (o : Outcome)
  | done

def Answer.refuses : Answer → Bool
  | .result (.error _) => true
  | .outcome .unchanged => true
  | .outcome .rejectedSelf => true
  | _ => false

def perform (r : Roster) : Operation → Roster × Answer
  | .insert p => ((r.insert p).1, .result (r.insert p).2)
  | .update p => ((r.update p).1, .result (r.update p).2)
  | .merge c allowInsert rule =>
      ((r.merge c allowInsert rule).1, .outcome (r.merge c allowInsert rule).2)
  | .addSeed seed => (r.addSeed seed, .done)

def run (r : Roster) (ops : List Operation) : Roster :=
  ops.foldl (fun r op => (r.perform op).1) r

variable {r : Roster}

theorem keys_replace (h : r.Sound) (p : Peer) : (r.replace p).1.keys = r.keys := by
  unfold replace
  split
  · rename_i i hi
    exact keys_put ((h.slot?_iff p.key i).mp hi)
  · rfl

theorem replace_eq_self {p : Peer} (h : (r.replace p).2 = false) : (r.replace p).1 = r := by
  unfold replace at h ⊢
  split <;> simp_all

@[simp] theorem selfKey_replace (r : Roster) (p : Peer) : (r.replace p).1.selfKey = r.selfKey := by
  unfold replace
  split <;> simp

theorem Sound.perform (h : r.Sound) (op : Operation) : (r.perform op).1.Sound := by
  cases op with
  | insert p => exact h.insert p
  | update p => exact h.update p
  | merge c allowInsert rule => exact h.merge c allowInsert rule
  | addSeed seed => exact h.addSeed seed

theorem selfKey_perform (r : Roster) (op : Operation) : (r.perform op).1.selfKey = r.selfKey := by
  cases op with
  | insert p =>
      simp only [perform, insert]
      split
      · rfl
      · split <;> simp
  | update p =>
      obtain e | ⟨q, _, e⟩ := update_fst r p <;> simp [perform, e]
  | merge c allowInsert rule =>
      simp only [perform, merge]
      split
      · rfl
      · split
        · exact selfKey_replace r _
        · rfl
        · split <;> simp
  | addSeed seed =>
      simp only [perform, addSeed]
      split <;> rfl

theorem Sound.keys_perform (h : r.Sound) (op : Operation) :
    (r.perform op).1.keys = r.keys ∨ ∃ k, k ∉ r.keys ∧ (r.perform op).1.keys = r.keys ++ [k] := by
  cases op with
  | insert p =>
      simp only [Roster.perform, Roster.insert]
      split
      · exact .inl rfl
      · split
        · exact .inl rfl
        · rename_i hk
          rw [h.slot?_isSome_iff] at hk
          exact .inr ⟨p.key, hk, by simp⟩
  | update p =>
      left
      obtain e | ⟨q, _, e⟩ := update_fst r p <;> simp only [Roster.perform, e]
      exact keys_replace h q
  | merge c allowInsert rule =>
      simp only [Roster.perform, Roster.merge]
      split
      · exact .inl rfl
      · split
        · exact .inl (keys_replace h _)
        · exact .inl rfl
        · rename_i new
          rw [Option.map_eq_none_iff, h.get?_eq_none_iff] at new
          split
          · exact .inr ⟨c.key, new, by simp⟩
          · exact .inl rfl
  | addSeed seed =>
      simp only [Roster.perform, Roster.addSeed]
      split <;> exact .inl rfl

theorem perform_eq_self {op : Operation} (h : (r.perform op).2.refuses = true) :
    (r.perform op).1 = r := by
  cases op with
  | insert p =>
      simp only [perform, insert] at h ⊢
      split at h
      · simp_all
      · split at h <;> simp_all [Answer.refuses]
  | update p =>
      simp only [perform, update] at h ⊢
      split at h
      · simp_all
      · rename_i q _
        have same := replace_eq_self (r := r) (p := q)
        split at h <;> simp_all [Answer.refuses]
  | merge c allowInsert rule =>
      simp only [perform, merge] at h ⊢
      split at h
      · simp_all
      · split at h
        · simp [Answer.refuses] at h
        · simp_all
        · split at h <;> simp_all [Answer.refuses]
  | addSeed seed => simp [perform, Answer.refuses] at h

theorem Sound.run (h : r.Sound) (ops : List Operation) : (r.run ops).Sound := by
  induction ops generalizing r with
  | nil => exact h
  | cons op ops ih => exact ih (h.perform op)

theorem selfKey_run (r : Roster) (ops : List Operation) : (r.run ops).selfKey = r.selfKey := by
  induction ops generalizing r with
  | nil => rfl
  | cons op ops ih => exact (ih _).trans (selfKey_perform r op)

theorem Sound.known_eq (h : r.Sound) : r.known = r.others := by
  have own : ¬r.owned.key ≠ r.selfKey := by simp [h.key_owned]
  simp only [known, list, List.filter_cons, decide_eq_true_eq, if_neg own]
  exact List.filter_eq_self.mpr fun p hp => by simpa using h.key_ne_selfKey hp

theorem run_ofSelf (owned : Peer) (ops : List Operation) :
    let r := (ofSelf owned).run ops
    (r.selfKey = owned.key ∧ r.list[0]? = some r.owned ∧ r.owned.key = r.selfKey ∧
      r.owned.isSelf = true) ∧
    (∀ i p, r.list[i + 1]? = some p → p.key ≠ r.selfKey ∧ p.isSelf = false) ∧
    r.keys.Nodup ∧
    (∀ k i, r.slot? k = some i ↔ ∃ p, r.list[i]? = some p ∧ p.key = k) ∧
    (∀ k p, r.get? k = some p ↔ p ∈ r.list ∧ p.key = k) ∧
    (∀ k, r.get? k = none ↔ ∀ p ∈ r.list, p.key ≠ k) ∧
    r.known = r.list.drop 1 ∧
    r.seeds.Nodup ∧
    ∀ op, ((r.perform op).1.keys = r.keys ∨
        ∃ k, k ∉ r.keys ∧ (r.perform op).1.keys = r.keys ++ [k]) ∧
      ((r.perform op).2.refuses = true → (r.perform op).1 = r) := by
  intro r
  have h : r.Sound := (Sound.ofSelf owned).run ops
  refine ⟨⟨selfKey_run _ ops, rfl, h.key_owned, h.isSelf_owned⟩, ?_, h.nodup_keys, ?_,
    fun k p => h.get?_eq_some_iff, ?_, h.known_eq, h.nodup_seeds,
    fun op => ⟨h.keys_perform op, perform_eq_self⟩⟩
  · intro i p hp
    have hm : p ∈ r.others := List.mem_of_getElem? hp
    exact ⟨h.key_ne_selfKey hm, h.isSelf_others p hm⟩
  · intro k i
    simp [h.slot?_iff, keys]
  · intro k
    simp [h.get?_eq_none_iff, keys]

end Epidemic.Roster
