import Epidemic.Proofs.Reconcile.Offer

namespace Epidemic

namespace Registry

theorem offerAll_cons (r : Registry) (now : Instant) (allowInsert : Bool) (report : Reconciled)
    (c : Peer) (cs : List Peer) :
    r.offerAll now allowInsert report (c :: cs) =
      (r.offer now allowInsert c).1.offerAll now allowInsert
        (report.record c.key (r.offer now allowInsert c).2) cs := rfl

theorem selfKey_offer (r : Registry) (now : Instant) (allowInsert : Bool) (c : Peer) :
    (r.offer now allowInsert c).1.selfKey = r.selfKey :=
  (offered r now allowInsert c).selfKey_eq

theorem owned_offerAll (r : Registry) (now : Instant) (allowInsert : Bool) (report : Reconciled)
    (cs : List Peer) : (r.offerAll now allowInsert report cs).1.owned = r.owned := by
  induction cs generalizing r report with
  | nil => rfl
  | cons c cs ih =>
      rw [offerAll_cons, ih]
      exact (offered r now allowInsert c).owned_eq

theorem list_offerAll_closed (r : Registry) (now : Instant) (report : Reconciled)
    (cs : List Peer) :
    (r.offerAll now false report cs).1.list =
      r.list.map fun q => if q.key = r.selfKey then q else cs.foldl (fresher now) q := by
  induction cs generalizing r report with
  | nil => simp [offerAll]
  | cons c cs ih =>
      rw [offerAll_cons, ih, selfKey_offer, list_offer_closed, List.map_map]
      refine List.map_congr_left fun q _ => ?_
      by_cases own : q.key = r.selfKey
      · simp [own]
      · simp [own]

theorem offerAll_new (r : Registry) (now : Instant) (report : Reconciled) {cs : List Peer}
    (new : ∀ c ∈ cs, c.key ∉ r.keys) (distinct : (cs.map Peer.key).Nodup) :
    (r.offerAll now true report cs).1.list = r.list ++ cs.map Peer.toRemote ∧
      (r.offerAll now true report cs).2 =
        { report with inserted := report.inserted ++ cs.map Peer.key } := by
  induction cs generalizing r report with
  | nil => simp [offerAll]
  | cons c cs ih =>
      have absent := new c (List.mem_cons_self ..)
      obtain ⟨apart, distinct⟩ := List.nodup_cons.mp distinct
      rw [offerAll_cons]
      have h := offered r now true c
      generalize r.offer now true c = result at h
      cases h with
      | rejectedSelf own => exact absurd (own ▸ r.sound.selfKey_mem_keys) absent
      | kept stored other found stale =>
          exact absurd (mem_keys_iff.mpr ⟨stored, get?_eq_some_iff.mp found⟩) absent
      | replaced stored after other found fresh owned seeds list =>
          exact absurd (mem_keys_iff.mpr ⟨stored, get?_eq_some_iff.mp found⟩) absent
      | ignored other unknown closed => cases closed
      | inserted after other unknown allowed owned seeds list =>
          have later : ∀ d ∈ cs, d.key ∉ after.keys := by
            intro d hd
            simp only [Roster.keys, list, List.map_append, List.mem_append, List.map_cons,
              List.map_nil, List.mem_singleton, Peer.key_toRemote, not_or]
            exact ⟨new d (List.mem_cons_of_mem _ hd), fun e => apart (e ▸ List.mem_map_of_mem hd)⟩
          obtain ⟨stored, reported⟩ := ih after _ later distinct
          rw [stored, reported, list]
          simp [Reconciled.record]

theorem find?_key_eq_none {ps : List Peer} {k : Key} (h : k ∉ ps.map Peer.key) :
    (ps.find? fun p => p.key = k) = none := by
  rw [List.find?_eq_none]
  intro p hp same
  exact h (of_decide_eq_true same ▸ List.mem_map_of_mem hp)

theorem find?_key_of_mem {ps : List Peer} {p : Peer} (distinct : (ps.map Peer.key).Nodup)
    (hp : p ∈ ps) : (ps.find? fun q => q.key = p.key) = some p := by
  induction ps with
  | nil => cases hp
  | cons q ps ih =>
      obtain ⟨apart, distinct⟩ := List.nodup_cons.mp distinct
      rcases List.mem_cons.mp hp with rfl | later
      · simp
      · have other : q.key ≠ p.key := fun e => apart (e ▸ List.mem_map_of_mem later)
        simp [other, ih distinct later]

theorem foldl_fresher (now : Instant) {cs : List Peer} (distinct : (cs.map Peer.key).Nodup)
    (q : Peer) :
    cs.foldl (fresher now) q =
      match cs.find? fun c => c.key = q.key with
      | some c => if c.supersedes q now then c.toRemote else q
      | none => q := by
  induction cs generalizing q with
  | nil => rfl
  | cons c cs ih =>
      obtain ⟨apart, distinct⟩ := List.nodup_cons.mp distinct
      rw [List.foldl_cons, ih distinct, key_fresher, List.find?_cons]
      by_cases e : c.key = q.key
      · have none := find?_key_eq_none (e ▸ apart)
        simp [none, e, fresher]
      · have same : fresher now q c = q := if_neg fun h => e h.1
        simp [same, e]

variable {r : Registry} {now : Instant} {allowInsert : Bool} {c : Peer} {k : Key}

def met (now : Instant) (allowInsert : Bool) : Option Peer → Option Peer → Option Peer
  | none, stored => stored
  | some c, some s => if c.supersedes s now then some c.toRemote else some s
  | some c, none => if allowInsert then some c.toRemote else none

theorem get?_offer (r : Registry) (now : Instant) (allowInsert : Bool) (c : Peer)
    (other : k ≠ r.selfKey) :
    (r.offer now allowInsert c).1.get? k =
      if c.key = k then met now allowInsert (some c) (r.get? k) else r.get? k := by
  have h := offered r now allowInsert c
  generalize r.offer now allowInsert c = result at h
  have found := h.get?_eq k
  by_cases same : c.key = k
  · subst same
    cases h with
    | rejectedSelf own => exact absurd own other
    | kept stored _ known stale => simp [met, known, stale]
    | replaced stored _ _ known fresh _ _ _ => simp [found, met, known, fresh]
    | ignored _ absent closed => simp [met, absent, closed]
    | inserted _ _ absent allowed _ _ _ => simp [found, met, absent, allowed]
  · simpa [same, Ne.symm same] using found

theorem get?_offerAll (r : Registry) (now : Instant) (allowInsert : Bool) (report : Reconciled)
    {cs : List Peer} (distinct : (cs.map Peer.key).Nodup) (other : k ≠ r.selfKey) :
    (r.offerAll now allowInsert report cs).1.get? k =
      met now allowInsert (cs.find? fun c => c.key = k) (r.get? k) := by
  induction cs generalizing r report with
  | nil => rfl
  | cons c cs ih =>
      obtain ⟨apart, distinct⟩ := List.nodup_cons.mp distinct
      have own : k ≠ (r.offer now allowInsert c).1.selfKey := by rwa [selfKey_offer]
      rw [offerAll_cons, ih _ _ distinct own, List.find?_cons, get?_offer r now allowInsert c other]
      by_cases same : c.key = k
      · have none := find?_key_eq_none (same ▸ apart)
        simp [none, met, same]
      · simp [same]

theorem met_cases {candidate stored : Option Peer} {p : Peer}
    (h : met now allowInsert candidate stored = some p) :
    stored = some p ∨ ∃ c, candidate = some c ∧ p = c.toRemote := by
  unfold met at h
  split at h
  · exact .inl h
  · rename_i c s
    split at h
    · exact .inr ⟨c, rfl, (Option.some.inj h).symm⟩
    · exact .inl h
  · rename_i c
    split at h
    · exact .inr ⟨c, rfl, (Option.some.inj h).symm⟩
    · cases h

def UpToDate (r : Registry) (now : Instant) (c : Peer) : Prop :=
  c.key ≠ r.selfKey → ∃ s, r.get? c.key = some s ∧ c.supersedes s now = false

theorem offerAll_upToDate (allowInsert : Bool) (report : Reconciled) {cs : List Peer}
    (upToDate : ∀ c ∈ cs, r.UpToDate now c) :
    ∃ seen, r.offerAll now allowInsert report cs = (r, seen) ∧
      seen.inserted = report.inserted ∧ seen.replaced = report.replaced := by
  induction cs generalizing report with
  | nil => exact ⟨report, rfl, rfl, rfl⟩
  | cons c cs ih =>
      rw [offerAll_cons]
      have first := upToDate c (List.mem_cons_self ..)
      have rest : ∀ d ∈ cs, r.UpToDate now d := fun d hd => upToDate d (List.mem_cons_of_mem _ hd)
      have h := offered r now allowInsert c
      generalize r.offer now allowInsert c = result at h
      cases h with
      | rejectedSelf own => exact ih _ rest
      | kept stored other found stale => exact ih _ rest
      | replaced stored after other found fresh owned seeds list =>
          obtain ⟨s, known, stale⟩ := first other
          cases found.symm.trans known
          rw [fresh] at stale
          cases stale
      | ignored other absent closed => exact ih _ rest
      | inserted after other absent allowed owned seeds list =>
          obtain ⟨s, known, -⟩ := first other
          cases absent.symm.trans known

end Registry

structure Reconciled.Idle (r : Reconciled) : Prop where
  inserted : r.inserted = []
  replaced : r.replaced = 0
  notified : r.notified = 0

theorem Member.registry_apply (m : Member) (now : Instant) (allowInsert : Bool) (cs : List Peer) :
    (m.apply now allowInsert cs).1.registry = (m.registry.offerAll now allowInsert {} cs).1 := rfl

theorem Member.apply_upToDate (m : Member) {now : Instant} {cs : List Peer} (allowInsert : Bool)
    (upToDate : ∀ c ∈ cs, m.registry.UpToDate now c) :
    ∃ seen, m.apply now allowInsert cs = (m, seen) ∧ seen.Idle := by
  obtain ⟨seen, same, inserted, replaced⟩ :=
    Registry.offerAll_upToDate allowInsert {} upToDate
  refine ⟨{ seen with notified := 0 }, ?_, ⟨inserted, replaced, rfl⟩⟩
  have none : seen.inserted = [] := inserted
  simp only [Member.apply, same, none]
  rfl

end Epidemic
