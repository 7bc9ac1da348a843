import Epidemic.Proofs.Except
import Epidemic.Proofs.Reconcile.Offer
import Epidemic.Refresh

namespace Epidemic

namespace Registry

variable {r after : Registry} {p : Peer}

theorem insert_ok (h : r.insert p = .ok after) :
    p.key ∉ r.keys ∧ after.selfKey = r.selfKey ∧ after.list = r.list ++ [p.toRemote] := by
  simp only [insert, Roster.insert] at h
  split at h
  · cases h
  · split at h
    · cases h
    · rename_i absent
      rw [r.sound.slot?_isSome_iff] at absent
      cases h
      exact ⟨absent, rfl, rfl⟩

theorem toRemote_of_admissible {q : Peer} (h : r.admissible p = .ok q) :
    q.toRemote = p.toRemote := by
  simp only [Roster.admissible] at h
  split at h
  · split at h <;> cases h
    rfl
  · cases h
    rfl

theorem update_ok (h : r.update p = .ok after) :
    ∃ q, q.toRemote = p.toRemote ∧ after.selfKey = r.selfKey ∧
      after.list = r.list.map fun x => if x.key = p.key then q else x := by
  cases admitted : r.toRoster.admissible p with
  | error e => simp [update, Roster.update, admitted, Except.map] at h
  | ok q =>
      have same := toRemote_of_admissible admitted
      have key : q.key = p.key := (congrArg Peer.key same :)
      cases slot : r.toRoster.slot? q.key with
      | none => simp [update, Roster.update, admitted, Roster.replace, slot, Except.map] at h
      | some i =>
          have written : after.toRoster = r.put q i := by
            simp only [update, Roster.update, admitted, Roster.replace, slot, Except.map] at h
            cases h
            rfl
          refine ⟨q, same, ?_, ?_⟩
          · rw [written, Roster.selfKey_put]
          · rw [written, Roster.list_put, set_eq_map slot, key]

end Registry

namespace Refresher

variable {f : Refresher} {now : Instant} {r after : Registry} {p : Peer}

theorem refresh_eq_ok_iff :
    f.refresh now r = .ok (p, after) ↔
      ∃ ip s, f.measure = .ok (ip, s) ∧ p = f.refreshed now ip s ∧ r.update p = .ok after := by
  simp only [refresh, bind_ok, mapError_eq_ok, Prod.exists, Except.ok.injEq, Prod.mk.injEq]
  constructor
  · rintro ⟨ip, s, measured, _, written, rfl, rfl⟩
    exact ⟨ip, s, measured, rfl, written⟩
  · rintro ⟨ip, s, measured, rfl, written⟩
    exact ⟨ip, s, measured, after, written, rfl, rfl⟩

theorem update_of_refresh (h : f.refresh now r = .ok (p, after)) :
    r.update p = .ok after ∧ p.key = f.key ∧ p.generated = now := by
  obtain ⟨ip, s, -, rfl, written⟩ := refresh_eq_ok_iff.mp h
  exact ⟨written, rfl, rfl⟩

theorem refresh_ok (h : f.refresh now r = .ok (p, after)) :
    ∃ q, q.key = f.key ∧ q.generated = now ∧ after.selfKey = r.selfKey ∧
      after.list = r.list.map fun x => if x.key = f.key then q else x := by
  obtain ⟨written, key, generated⟩ := update_of_refresh h
  obtain ⟨q, same, selfKey, list⟩ := Registry.update_ok written
  rw [key] at list
  exact ⟨q, (congrArg Peer.key same :).trans key, (congrArg Peer.generated same :).trans generated,
    selfKey, list⟩

end Refresher

end Epidemic
