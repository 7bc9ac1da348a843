import Epidemic.Proofs.Interleaving.Activity
import Epidemic.Proofs.Registry.Calls

namespace Epidemic

open Registry (Offered Outcome)

inductive Touched (now : Instant) (r : Registry) :
    Activity → Registry → List Occurrence → Prop where
  | untouched {a : Activity} {seen : List Occurrence} (none : ∀ k, .admitted k ∉ seen) :
      Touched now r a r seen
  | offered {allowInsert : Bool} {c : Peer} {ahead : List Peer} {report : Reconciled}
      {next : Sequel} {after : Registry} {o : Outcome}
      (how : Offered r now allowInsert c (after, o)) :
      Touched now r (.merging allowInsert (c :: ahead) report next) after
        (if o = .inserted then [.admitted c.key] else [])
  | inserted {p : Peer} {after : Registry} (absent : p.key ∉ r.keys)
      (selfKey : after.selfKey = r.selfKey) (list : after.list = r.list ++ [p.toRemote]) :
      Touched now r (.inserting p) after [.admitted p.key]
  | refreshed {f : Refresher} {q : Peer} {after : Registry} (key : q.key = f.key)
      (generated : q.generated = now) (selfKey : after.selfKey = r.selfKey)
      (list : after.list = r.list.map fun x => if x.key = f.key then q else x) :
      Touched now r (.refreshing f) after []

theorem Activity.touched (now : Instant) (m : Member) (a : Activity) :
    Touched now m.registry a (a.advance now m).1.registry (a.advance now m).2.2 := by
  cases a with
  | merging allowInsert ahead report next =>
      cases ahead with
      | nil => exact .untouched (by simp [advance])
      | cons c ahead => exact .offered (Registry.offered ..)
  | notifying ahead report next =>
      cases ahead with
      | nil => exact .untouched (by simp [advance])
      | cons k ahead =>
          simp only [advance]
          rcases m.notifier.notify k with ⟨notifier, _ | _⟩ <;> exact .untouched (by simp)
  | inserting p =>
      cases stored : m.registry.insert p with
      | error e =>
          simp only [advance, stored]
          exact .untouched (by simp)
      | ok after =>
          obtain ⟨absent, selfKey, list⟩ := Registry.insert_ok stored
          simp only [advance, stored]
          exact .inserted absent selfKey list
  | refreshing f =>
      cases stored : f.refresh now m.registry with
      | error e =>
          simp only [advance, stored]
          exact .untouched (by simp)
      | ok result =>
          obtain ⟨q, key, generated, selfKey, list⟩ := Refresher.refresh_ok stored
          simp only [advance, stored]
          exact .refreshed key generated selfKey list
  | listing target => exact .untouched (by simp [advance])
  | naming target known => exact .untouched (by simp [advance])
  | awaiting target owned body => exact .untouched (by simp [advance])
  | sorting body => exact .untouched (by simp [advance])
  | following report next => exact .untouched (by simp [advance])
  | ended result => exact .untouched (by simp [advance])

namespace Touched

variable {now : Instant} {r after : Registry} {a : Activity} {seen : List Occurrence}

theorem selfKey_eq (h : Touched now r a after seen) : after.selfKey = r.selfKey := by
  cases h with
  | untouched none => rfl
  | offered how => exact how.selfKey_eq
  | inserted absent selfKey list => exact selfKey
  | refreshed key generated selfKey list => exact selfKey

theorem keys_eq (h : Touched now r a after seen) :
    (after.keys = r.keys ∧ ∀ k, .admitted k ∉ seen) ∨
      ∃ k, k ∉ r.keys ∧ after.keys = r.keys ++ [k] ∧ seen = [.admitted k] := by
  cases h with
  | untouched none => exact .inl ⟨rfl, none⟩
  | @offered allowInsert c ahead report next _ o how =>
      have keys := how.keys_eq
      by_cases e : o = .inserted
      · subst e
        cases how with
        | inserted _ _ absent _ _ _ _ =>
            exact .inr ⟨c.key, Registry.get?_eq_none_iff.mp absent, keys, rfl⟩
      · rw [if_neg e] at keys
        exact .inl ⟨keys, by simp [e]⟩
  | @inserted p _ absent _ list => exact .inr ⟨p.key, absent, by simp [Roster.keys, list], rfl⟩
  | @refreshed f q _ key _ _ list =>
      refine .inl ⟨?_, by simp⟩
      simp only [Roster.keys, list, List.map_map]
      refine List.map_congr_left fun x _ => ?_
      by_cases e : x.key = f.key
      · simp [e, key]
      · simp [e]

end Touched

theorem Pool.selfKey_step (p : Pool) (e : Event) :
    (p.step e).member.registry.selfKey = p.member.registry.selfKey := by
  rcases p.member_step_cases e with same | ⟨i, now, a, rfl, there, moved⟩
  · rw [same]
  · rw [moved]
    exact (a.touched now p.member).selfKey_eq

theorem Pool.selfKey_run (p : Pool) (events : List Event) :
    (p.run events).member.registry.selfKey = p.member.registry.selfKey := by
  induction events generalizing p with
  | nil => rfl
  | cons e events ih => exact (ih _).trans (p.selfKey_step e)

end Epidemic
