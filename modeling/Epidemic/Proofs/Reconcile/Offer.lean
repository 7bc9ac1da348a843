import Epidemic.Reconcile

namespace Epidemic

theorem Peer.supersedes_eq_false {c s : Peer} {now : Instant} :
    c.supersedes s now = false ↔ s.elapsed now ≤ c.elapsed now := by
  rw [supersedes, decide_eq_false_iff_not, Int.not_lt]

theorem Reconciled.inserted_record (report : Reconciled) (k : Key) (o : Registry.Outcome) :
    (report.record k o).inserted = report.inserted ++ if o = .inserted then [k] else [] := by
  cases o <;> simp [record]

namespace Registry

variable {r : Registry} {now : Instant} {allowInsert : Bool} {c p q : Peer} {k : Key}

theorem get?_eq_some_iff : r.get? k = some p ↔ p ∈ r.list ∧ p.key = k :=
  r.sound.get?_eq_some_iff

theorem get?_eq_none_iff : r.get? k = none ↔ k ∉ r.keys :=
  r.sound.get?_eq_none_iff

theorem get?_eq_find? (r : Registry) (k : Key) :
    r.get? k = r.list.find? fun p => p.key = k := by
  cases h : r.list.find? fun p => p.key = k with
  | none =>
      rw [List.find?_eq_none] at h
      exact get?_eq_none_iff.mpr (by simpa [Roster.keys] using h)
  | some p =>
      have same := List.find?_some h
      exact get?_eq_some_iff.mpr ⟨List.mem_of_find?_eq_some h, by simpa using same⟩

theorem find?_filter (r : Registry) (f : Peer → Bool) (k : Key) :
    ((r.list.filter f).find? fun p => p.key = k) = (r.get? k).filter f := by
  cases h : (r.list.filter f).find? fun p => decide (p.key = k) with
  | none =>
      rw [List.find?_eq_none] at h
      symm
      rw [Option.filter_eq_none_iff]
      intro p found kept
      obtain ⟨member, key⟩ := get?_eq_some_iff.mp found
      exact h p (List.mem_filter.mpr ⟨member, kept⟩) (decide_eq_true key)
  | some p =>
      obtain ⟨member, kept⟩ := List.mem_filter.mp (List.mem_of_find?_eq_some h)
      have key := List.find?_some h
      rw [get?_eq_some_iff.mpr ⟨member, of_decide_eq_true key⟩, Option.filter_some, if_pos kept]

theorem mem_keys_iff : k ∈ r.keys ↔ ∃ p ∈ r.list, p.key = k := by
  simp [Roster.keys]

theorem key_of_get? (found : r.get? k = some p) : p.key = k :=
  (get?_eq_some_iff.mp found).2

theorem mem_keys_iff_isSome : k ∈ r.keys ↔ (r.get? k).isSome := by
  rw [Option.isSome_iff_exists, mem_keys_iff]
  exact exists_congr fun p => get?_eq_some_iff.symm

theorem mem_keys_of_get? (found : r.get? k = some p) : k ∈ r.keys :=
  mem_keys_iff_isSome.mpr (Option.isSome_of_eq_some found)

theorem exists_get?_of_mem_keys (hk : k ∈ r.keys) : ∃ p, r.get? k = some p :=
  Option.isSome_iff_exists.mp (mem_keys_iff_isSome.mp hk)

theorem get?_selfKey (r : Registry) : r.get? r.selfKey = some r.owned :=
  get?_eq_some_iff.mpr ⟨List.mem_cons_self .., r.sound.key_owned⟩

theorem get?_selfKey_of_owned {r r' : Registry} (same : r'.owned = r.owned) :
    r'.get? r.selfKey = r.get? r.selfKey := by
  have own : r.selfKey = r'.selfKey :=
    r.sound.key_owned.symm.trans ((congrArg Peer.key same.symm).trans r'.sound.key_owned)
  rw [get?_selfKey r, own, get?_selfKey r', same]

theorem eq_owned_of_key (hp : p ∈ r.list) (own : p.key = r.selfKey) : p = r.owned :=
  Option.some.inj ((get?_eq_some_iff.mpr ⟨hp, own⟩).symm.trans r.get?_selfKey)

theorem isSelf_of_get? (found : r.get? k = some p) (other : k ≠ r.selfKey) : p.isSelf = false := by
  obtain ⟨member, rfl⟩ := get?_eq_some_iff.mp found
  rcases List.mem_cons.mp member with rfl | stored
  · exact absurd r.sound.key_owned other
  · exact r.sound.isSelf_others p stored

theorem nodup_keys (r : Registry) : (r.list.map Peer.key).Nodup :=
  r.sound.nodup_keys

theorem selfKey_eq (r : Registry) : r.selfKey = r.owned.key :=
  r.sound.key_owned.symm

inductive Offered (r : Registry) (now : Instant) (allowInsert : Bool) (c : Peer) :
    Registry × Outcome → Prop where
  | rejectedSelf (own : c.key = r.selfKey) : Offered r now allowInsert c (r, .rejectedSelf)
  | kept (stored : Peer) (other : c.key ≠ r.selfKey) (found : r.get? c.key = some stored)
      (stale : c.supersedes stored now = false) : Offered r now allowInsert c (r, .unchanged)
  | replaced (stored : Peer) (after : Registry) (other : c.key ≠ r.selfKey)
      (found : r.get? c.key = some stored) (fresh : c.supersedes stored now = true)
      (owned : after.owned = r.owned) (seeds : after.seeds = r.seeds)
      (list : after.list = r.list.map fun q => if q.key = c.key then c.toRemote else q) :
      Offered r now allowInsert c (after, .replaced)
  | ignored (other : c.key ≠ r.selfKey) (absent : r.get? c.key = none)
      (closed : allowInsert = false) : Offered r now allowInsert c (r, .unchanged)
  | inserted (after : Registry) (other : c.key ≠ r.selfKey) (absent : r.get? c.key = none)
      (allowed : allowInsert = true) (owned : after.owned = r.owned) (seeds : after.seeds = r.seeds)
      (list : after.list = r.list ++ [c.toRemote]) : Offered r now allowInsert c (after, .inserted)

theorem set_eq_map {i : Nat} (h : r.slot? p.key = some i) :
    r.list.set i p = r.list.map fun q => if q.key = p.key then p else q := by
  apply List.ext_getElem?
  intro j
  have slot (q : Peer) (hq : r.list[j]? = some q) : q.key = p.key ↔ i = j := by
    have hj : r.slot? q.key = some j := (r.sound.slot?_iff q.key j).mpr (by simp [Roster.keys, hq])
    constructor
    · intro e
      rw [e, h] at hj
      exact Option.some.inj hj
    · rintro rfl
      have hi := (r.sound.slot?_iff p.key i).mp h
      simpa [Roster.keys, hq] using hi
  rw [List.getElem?_set, List.getElem?_map]
  cases hq : r.list[j]? with
  | none =>
      have out : ¬j < r.list.length := Nat.not_lt.mpr (List.getElem?_eq_none_iff.mp hq)
      split <;> simp_all
  | some q =>
      have room : j < r.list.length := (List.getElem?_eq_some_iff.mp hq).1
      rw [Option.map_some]
      by_cases e : i = j
      · subst e
        rw [if_pos rfl, if_pos room, if_pos ((slot q hq).mpr rfl)]
      · rw [if_neg e, if_neg (mt (slot q hq).mp e)]

theorem owned_put_of_ne {i : Nat} (h : r.slot? p.key = some i) (other : p.key ≠ r.selfKey) :
    (r.put p i).owned = r.owned := by
  cases i with
  | zero =>
      have own := (r.sound.slot?_iff p.key 0).mp h
      simp only [Roster.keys, Roster.list, List.map_cons, List.getElem?_cons_zero,
        Option.some.injEq, r.sound.key_owned] at own
      exact absurd own.symm other
  | succ i => rfl

theorem offer_eq {t : Roster} {o : Outcome} (sound : t.Sound)
    (h : r.toRoster.merge c allowInsert (fun c s => c.supersedes s now) = (t, o)) :
    r.offer now allowInsert c = (⟨t, sound⟩, o) := by
  simp only [offer, merge, h]

theorem offered (r : Registry) (now : Instant) (allowInsert : Bool) (c : Peer) :
    Offered r now allowInsert c (r.offer now allowInsert c) := by
  by_cases own : c.key = r.selfKey
  · have step : r.toRoster.merge c allowInsert (fun c s => c.supersedes s now) =
        (r.toRoster, .rejectedSelf) := by
      simp [Roster.merge, own]
    rw [offer_eq r.sound step]
    exact .rejectedSelf own
  · cases found : r.get? c.key with
    | some stored =>
        cases fresh : c.supersedes stored now with
        | true =>
            have known : (r.slot? c.key).isSome := by
              rw [r.sound.slot?_isSome_iff]
              exact mem_keys_iff.mpr ⟨stored, get?_eq_some_iff.mp found⟩
            obtain ⟨i, hi⟩ := Option.isSome_iff_exists.mp known
            have step : r.toRoster.merge c allowInsert (fun c s => c.supersedes s now) =
                (r.put c.toRemote i, .replaced) := by
              have rule : c.toRemote.supersedes stored now = true := fresh
              simp [Roster.merge, own, found, rule, Roster.replace, hi]
            rw [offer_eq (r.sound.put (p := c.toRemote) hi (by simp [own])) step]
            refine .replaced stored _ own found fresh ?_ (Roster.seeds_put ..) ?_
            · exact owned_put_of_ne (p := c.toRemote) hi own
            · exact (Roster.list_put ..).trans (set_eq_map (p := c.toRemote) hi)
        | false =>
            have step : r.toRoster.merge c allowInsert (fun c s => c.supersedes s now) =
                (r.toRoster, .unchanged) := by
              have rule : c.toRemote.supersedes stored now = false := fresh
              simp [Roster.merge, own, found, rule]
            rw [offer_eq r.sound step]
            exact .kept stored own found fresh
    | none =>
        cases allowInsert with
        | true =>
            have step : r.toRoster.merge c true (fun c s => c.supersedes s now) =
                (r.push c.toRemote, .inserted) := by
              simp [Roster.merge, own, found]
            rw [offer_eq (r.sound.push (p := c.toRemote) rfl (get?_eq_none_iff.mp found)) step]
            exact .inserted _ own found rfl rfl rfl rfl
        | false =>
            have step : r.toRoster.merge c false (fun c s => c.supersedes s now) =
                (r.toRoster, .unchanged) := by
              simp [Roster.merge, own, found]
            rw [offer_eq r.sound step]
            exact .ignored own found rfl

namespace Offered

variable {after : Registry} {o : Outcome}

theorem owned_eq (h : Offered r now allowInsert c (after, o)) : after.owned = r.owned := by
  cases h with
  | rejectedSelf _ => rfl
  | kept _ _ _ _ => rfl
  | replaced _ _ _ _ _ owned _ _ => exact owned
  | ignored _ _ _ => rfl
  | inserted _ _ _ _ owned _ _ => exact owned

theorem selfKey_eq (h : Offered r now allowInsert c (after, o)) : after.selfKey = r.selfKey := by
  rw [Registry.selfKey_eq, Registry.selfKey_eq, h.owned_eq]

theorem inserted_iff (h : Offered r now allowInsert c (after, o)) :
    o = .inserted ↔ allowInsert = true ∧ c.key ∉ r.keys := by
  cases h with
  | rejectedSelf own => simp [own, r.sound.selfKey_mem_keys]
  | kept stored other found stale => simp [mem_keys_of_get? found]
  | replaced stored after other found fresh owned seeds list => simp [mem_keys_of_get? found]
  | ignored other absent closed => simp [closed]
  | inserted after other absent allowed owned seeds list =>
      simp [allowed, get?_eq_none_iff.mp absent]

theorem rejectedSelf_iff (h : Offered r now allowInsert c (after, o)) :
    o = .rejectedSelf ↔ c.key = r.selfKey := by
  cases h with
  | rejectedSelf own => simp [own]
  | kept stored other found stale => simp [other]
  | replaced stored after other found fresh owned seeds list => simp [other]
  | ignored other absent closed => simp [other]
  | inserted after other absent allowed owned seeds list => simp [other]

theorem keys_eq (h : Offered r now allowInsert c (after, o)) :
    after.keys = if o = .inserted then r.keys ++ [c.key] else r.keys := by
  cases h with
  | rejectedSelf _ => rfl
  | kept _ _ _ _ => rfl
  | replaced _ _ _ _ _ _ _ list =>
      simp only [Roster.keys, list, List.map_map]
      apply List.map_congr_left
      intro q _
      simp only [Function.comp]
      split
      · rename_i e; simp [e]
      · rfl
  | ignored _ _ _ => rfl
  | inserted _ _ _ _ _ _ list => simp [Roster.keys, list]

theorem get?_eq (h : Offered r now allowInsert c (after, o)) (k : Key) :
    after.get? k =
      if k = c.key ∧ (o = .inserted ∨ o = .replaced) then some c.toRemote else r.get? k := by
  cases h with
  | rejectedSelf _ => simp
  | kept _ _ _ _ => simp
  | replaced stored _ _ found _ _ _ list =>
      have known := get?_eq_some_iff.mp found
      ext p
      by_cases e : k = c.key
      · subst e
        rw [get?_eq_some_iff, list, List.mem_map]
        simp only [or_true, and_self, if_true, Option.some.injEq]
        constructor
        · rintro ⟨⟨q, _, rfl⟩, hk⟩
          by_cases hq : q.key = c.key
          · rw [if_pos hq]
          · rw [if_neg hq] at hk
            exact absurd hk hq
        · rintro rfl
          exact ⟨⟨stored, known.1, if_pos known.2⟩, rfl⟩
      · rw [if_neg (by simp [e]), get?_eq_some_iff, get?_eq_some_iff, list, List.mem_map]
        constructor
        · rintro ⟨⟨q, hq, rfl⟩, hk⟩
          split at hk
          · exact absurd hk.symm e
          · rename_i hne
            exact ⟨by rwa [if_neg hne], by rwa [if_neg hne]⟩
        · rintro ⟨hp, rfl⟩
          exact ⟨⟨p, hp, if_neg e⟩, rfl⟩
  | ignored _ _ _ => simp
  | inserted _ _ absent _ _ _ list =>
      rw [get?_eq_none_iff, mem_keys_iff] at absent
      ext p
      by_cases e : k = c.key
      · subst e
        rw [get?_eq_some_iff, list, List.mem_append, List.mem_singleton]
        simp only [true_or, and_self, if_true, Option.some.injEq]
        constructor
        · rintro ⟨hp | rfl, hk⟩
          · exact absurd ⟨p, hp, hk⟩ absent
          · rfl
        · rintro rfl
          exact ⟨.inr rfl, rfl⟩
      · rw [if_neg (by simp [e]), get?_eq_some_iff, get?_eq_some_iff, list, List.mem_append,
          List.mem_singleton]
        constructor
        · rintro ⟨hp | rfl, hk⟩
          · exact ⟨hp, hk⟩
          · exact absurd hk.symm e
        · rintro ⟨hp, hk⟩
          exact ⟨.inl hp, hk⟩

theorem old_or_new (h : Offered r now allowInsert c (after, o)) (hq : q ∈ after.list) :
    q ∈ r.list ∨ q = c.toRemote := by
  have found := h.get?_eq q.key
  rw [get?_eq_some_iff.mpr ⟨hq, rfl⟩] at found
  split at found
  · exact .inr (Option.some.inj found)
  · exact .inl (get?_eq_some_iff.mp found.symm).1

end Offered

def fresher (now : Instant) (stored c : Peer) : Peer :=
  if c.key = stored.key ∧ c.supersedes stored now then c.toRemote else stored

@[simp] theorem key_fresher (now : Instant) (stored c : Peer) :
    (fresher now stored c).key = stored.key := by
  unfold fresher
  split
  · rename_i h; exact h.1
  · rfl

theorem list_offer_closed (r : Registry) (now : Instant) (c : Peer) :
    (r.offer now false c).1.list =
      r.list.map fun q => if q.key = r.selfKey then q else fresher now q c := by
  have kept (same : ∀ q ∈ r.list, q.key ≠ r.selfKey → fresher now q c = q) :
      r.list = r.list.map fun q => if q.key = r.selfKey then q else fresher now q c := by
    rw [List.map_congr_left (g := id), List.map_id]
    intro q hq
    split
    · rfl
    · exact same q hq ‹_›
  have h := offered r now false c
  generalize r.offer now false c = result at h
  cases h with
  | rejectedSelf own =>
      exact kept fun q _ hq => if_neg fun e => hq (e.1.symm.trans own)
  | kept stored other found stale =>
      refine kept fun q hq _ => if_neg fun e => ?_
      rw [get?_eq_some_iff.mpr ⟨hq, e.1.symm⟩] at found
      cases found
      simp [stale] at e
  | replaced stored after other found fresh owned seeds list =>
      rw [list]
      refine List.map_congr_left fun q hq => ?_
      by_cases e : q.key = c.key
      · rw [get?_eq_some_iff.mpr ⟨hq, e⟩] at found
        cases found
        rw [if_pos e, if_neg (e ▸ other), fresher, if_pos ⟨e.symm, fresh⟩]
      · have same : fresher now q c = q := if_neg fun h => e h.1.symm
        rw [if_neg e, same, ite_self]
  | ignored other absent closed =>
      rw [get?_eq_none_iff, mem_keys_iff] at absent
      exact kept fun q hq _ => if_neg fun e => absent ⟨q, hq, e.1.symm⟩
  | inserted after other absent allowed owned seeds list => cases allowed

end Registry

end Epidemic
