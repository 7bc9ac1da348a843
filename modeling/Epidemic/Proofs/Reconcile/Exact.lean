import Epidemic.Proofs.Reconcile.Batch
import Mathlib

namespace Epidemic

namespace Reconciled

def total (r : Reconciled) : Nat :=
  r.inserted.length + r.replaced + r.unchanged + r.skippedSelf

theorem total_record (r : Reconciled) (k : Key) (o : Registry.Outcome) :
    (r.record k o).total = r.total + 1 := by
  cases o <;> simp only [record, total, List.length_append, List.length_singleton] <;> omega

theorem changed_record {r : Reconciled} (h : r.changed = true) (k : Key) (o : Registry.Outcome) :
    (r.record k o).changed = true := by
  cases o with
  | inserted => simp [record, changed]
  | replaced => simp [record, changed]
  | unchanged => exact h
  | rejectedSelf => exact h

theorem skippedSelf_record (r : Reconciled) (k : Key) (o : Registry.Outcome) :
    (r.record k o).skippedSelf = r.skippedSelf + if o = .rejectedSelf then 1 else 0 := by
  cases o <;> simp [record]

def passOver (r : Reconciled) (n : Nat) : Reconciled :=
  { r with unchanged := r.unchanged + n }

theorem record_passOver (r : Reconciled) (n : Nat) (k : Key) (o : Registry.Outcome) :
    (r.passOver n).record k o = (r.record k o).passOver n := by
  cases o with
  | unchanged => simp only [record, passOver, Nat.add_right_comm]
  | _ => rfl

end Reconciled

namespace Registry

def rivals (r : Registry) (cs : List Peer) (k : Key) : List Peer :=
  (r.get? k).toList ++ cs.filter (·.key = k)

def newKeys (r : Registry) (cs : List Peer) : List Key :=
  ((cs.map Peer.key).filter (· ∉ r.keys)).eraseDups

structure Takes (r : Registry) (now : Instant) (cs : List Peer) (after : Registry)
    (report : Reconciled) : Prop where
  owned : after.owned = r.owned
  freshest : ∀ k, k ≠ r.selfKey →
    after.get? k = ((r.rivals cs k).argmin (·.elapsed now)).map Peer.toRemote
  keys : after.keys = r.keys ++ report.inserted
  inserted : report.inserted = r.newKeys cs
  skippedSelf : report.skippedSelf = cs.countP (·.key = r.selfKey)
  total : report.total = cs.length
  changed_iff : report.changed = true ↔ after.list ≠ r.list

variable {r after : Registry} {now : Instant} {allowInsert : Bool} {c : Peer} {k : Key}
  {report : Reconciled}

theorem argmin_cons_cons (now : Instant) (s c : Peer) (cs : List Peer) :
    (s :: c :: cs).argmin (·.elapsed now) =
      ((if c.supersedes s now then c else s) :: cs).argmin (·.elapsed now) := by
  simp only [List.argmin, List.foldl_cons, List.argAux, Peer.supersedes, decide_eq_true_eq]
  split <;> rfl

theorem argmin_toRemote_cons (now : Instant) (p : Peer) (ps : List Peer) :
    ((p.toRemote :: ps).argmin (·.elapsed now)).map Peer.toRemote =
      ((p :: ps).argmin (·.elapsed now)).map Peer.toRemote := by
  rw [List.argmin_cons, List.argmin_cons]
  cases ps.argmin (·.elapsed now) with
  | none => rfl
  | some q =>
      by_cases fresher : q.elapsed now < p.elapsed now
      · have remote : q.elapsed now < p.toRemote.elapsed now := fresher
        simp only [if_pos remote, if_pos fresher]
      · have remote : ¬q.elapsed now < p.toRemote.elapsed now := fresher
        simp only [if_neg remote, if_neg fresher, Option.map_some, Peer.toRemote_toRemote]

theorem get?_offerAll_freshest (r : Registry) (now : Instant) (report : Reconciled)
    (cs : List Peer) (other : k ≠ r.selfKey) :
    (r.offerAll now true report cs).1.get? k =
      ((r.rivals cs k).argmin (·.elapsed now)).map Peer.toRemote := by
  induction cs generalizing r report with
  | nil =>
      cases found : r.get? k with
      | none => simp [offerAll, rivals, found]
      | some p =>
          have remote := Peer.toRemote_eq_self (isSelf_of_get? found other)
          simp [offerAll, rivals, found, remote]
  | cons c cs ih =>
      have own : k ≠ (r.offer now true c).1.selfKey := by rwa [selfKey_offer]
      rw [offerAll_cons, ih _ _ own, rivals, rivals, get?_offer r now true c other]
      by_cases same : c.key = k
      · simp only [same, if_true, decide_true, List.filter_cons_of_pos]
        cases r.get? k with
        | none => exact argmin_toRemote_cons now c _
        | some s =>
            simp only [met, Option.toList_some, List.cons_append, List.nil_append]
            rw [argmin_cons_cons]
            by_cases fresh : c.supersedes s now = true
            · rw [if_pos fresh, if_pos fresh]
              exact argmin_toRemote_cons now c _
            · rw [if_neg fresh, if_neg fresh]
              rfl
      · simp [same]

theorem newKeys_cons_of_mem (hk : c.key ∈ r.keys) (same : after.keys = r.keys) (cs : List Peer) :
    r.newKeys (c :: cs) = after.newKeys cs := by
  simp [newKeys, hk, same]

theorem newKeys_cons_of_not_mem (hk : c.key ∉ r.keys) (more : after.keys = r.keys ++ [c.key])
    (cs : List Peer) : r.newKeys (c :: cs) = c.key :: after.newKeys cs := by
  have later : ((cs.map Peer.key).filter (· ∉ r.keys)).filter (fun k => !k == c.key) =
      (cs.map Peer.key).filter (· ∉ after.keys) := by
    rw [List.filter_filter]
    refine List.filter_congr fun k _ => ?_
    simp only [more, List.mem_append, List.mem_singleton]
    by_cases same : k = c.key <;> simp [same]
  simp only [newKeys, List.map_cons]
  rw [List.filter_cons_of_pos (by simpa using hk), List.eraseDups_cons, later]

theorem keys_offerAll (r : Registry) (now : Instant) (report : Reconciled) (cs : List Peer) :
    (r.offerAll now true report cs).1.keys = r.keys ++ r.newKeys cs ∧
      (r.offerAll now true report cs).2.inserted = report.inserted ++ r.newKeys cs := by
  induction cs generalizing r report with
  | nil => simp [offerAll, newKeys]
  | cons c cs ih =>
      rw [offerAll_cons]
      have h := offered r now true c
      generalize r.offer now true c = result at h
      obtain ⟨after, o⟩ := result
      have keys := h.keys_eq
      have new := h.inserted_iff
      obtain ⟨stored, reported⟩ := ih after (report.record c.key o)
      rw [stored, reported, Reconciled.inserted_record]
      by_cases hk : c.key ∈ r.keys
      · have old : o ≠ .inserted := fun e => (new.mp e).2 hk
        rw [if_neg old] at keys ⊢
        rw [newKeys_cons_of_mem hk keys, keys, List.append_nil]
        exact ⟨rfl, rfl⟩
      · have added : o = .inserted := new.mpr ⟨rfl, hk⟩
        rw [if_pos added] at keys ⊢
        rw [newKeys_cons_of_not_mem hk keys, keys]
        simp

theorem total_offerAll (r : Registry) (now : Instant) (allowInsert : Bool) (report : Reconciled)
    (cs : List Peer) :
    (r.offerAll now allowInsert report cs).2.total = report.total + cs.length := by
  induction cs generalizing r report with
  | nil => rfl
  | cons c cs ih =>
      rw [offerAll_cons, ih, Reconciled.total_record, List.length_cons]
      omega

theorem skippedSelf_offerAll (r : Registry) (now : Instant) (allowInsert : Bool)
    (report : Reconciled) (cs : List Peer) :
    (r.offerAll now allowInsert report cs).2.skippedSelf =
      report.skippedSelf + cs.countP (·.key = r.selfKey) := by
  induction cs generalizing r report with
  | nil => rfl
  | cons c cs ih =>
      have own : (r.offer now allowInsert c).2 = .rejectedSelf ↔ c.key = r.selfKey :=
        (offered r now allowInsert c).rejectedSelf_iff
      rw [offerAll_cons, ih, Reconciled.skippedSelf_record, selfKey_offer, List.countP_cons]
      simp only [own, decide_eq_true_eq]
      omega

def Renewed (now : Instant) (r after : Registry) : Prop :=
  ∃ q ∈ after.list, ∀ p, r.get? q.key = some p → q.elapsed now < p.elapsed now

theorem Renewed.list_ne (h : Renewed now r after) : after.list ≠ r.list := by
  obtain ⟨q, hq, fresher⟩ := h
  intro same
  exact absurd (fresher q (get?_eq_some_iff.mpr ⟨same ▸ hq, rfl⟩)) (Int.lt_irrefl _)

theorem Offered.elapsed_le {o : Outcome} (h : Offered r now allowInsert c (after, o)) {p : Peer}
    (found : r.get? k = some p) : ∃ q, after.get? k = some q ∧ q.elapsed now ≤ p.elapsed now := by
  have left := h.get?_eq k
  have kept (same : after.get? k = r.get? k) :
      ∃ q, after.get? k = some q ∧ q.elapsed now ≤ p.elapsed now :=
    ⟨p, same.trans found, Int.le_refl _⟩
  by_cases own : k = c.key
  · subst own
    cases h with
    | rejectedSelf own => exact kept rfl
    | kept stored other known stale => exact kept rfl
    | ignored other absent closed => exact kept rfl
    | replaced stored after other known fresh owned seeds list =>
        obtain rfl : stored = p := Option.some.inj (known.symm.trans found)
        exact ⟨c.toRemote, by simpa using left, Int.le_of_lt (of_decide_eq_true fresh)⟩
    | inserted after other absent allowed owned seeds list => cases absent.symm.trans found
  · exact kept (by simpa [own] using left)

theorem Renewed.trans_offered {before : Registry} {o : Outcome}
    (h : Offered before now allowInsert c (r, o)) (h' : Renewed now r after) :
    Renewed now before after := by
  obtain ⟨q, hq, fresher⟩ := h'
  refine ⟨q, hq, fun p found => ?_⟩
  obtain ⟨p', kept, le⟩ := h.elapsed_le found
  exact Int.lt_of_lt_of_le (fresher p' kept) le

theorem changed_offerAll (cs : List Peer) (h : report.changed = true) :
    (r.offerAll now allowInsert report cs).2.changed = true := by
  induction cs generalizing r report with
  | nil => exact h
  | cons c cs ih => exact ih (Reconciled.changed_record h ..)

theorem offerAll_cases (r : Registry) (now : Instant) (allowInsert : Bool) (report : Reconciled)
    (cs : List Peer) :
    (r.offerAll now allowInsert report cs).1 = r ∧
        (r.offerAll now allowInsert report cs).2.changed = report.changed ∨
      Renewed now r (r.offerAll now allowInsert report cs).1 ∧
        (r.offerAll now allowInsert report cs).2.changed = true := by
  induction cs generalizing r report with
  | nil => exact .inl ⟨rfl, rfl⟩
  | cons c cs ih =>
      rw [offerAll_cons]
      have h := offered r now allowInsert c
      generalize r.offer now allowInsert c = result at h
      -- a registry that was renewed by `c` stays so, whatever the rest of the batch does
      have moved {after : Registry} {o : Outcome} (h : Offered r now allowInsert c (after, o))
          (renewed : Renewed now r after) (changed : (report.record c.key o).changed = true) :
          Renewed now r (after.offerAll now allowInsert (report.record c.key o) cs).1 ∧
            (after.offerAll now allowInsert (report.record c.key o) cs).2.changed = true := by
        refine ⟨?_, changed_offerAll cs changed⟩
        rcases ih after (report.record c.key o) with ⟨same, -⟩ | ⟨more, -⟩
        · rwa [same]
        · exact .trans_offered h more
      cases h with
      | rejectedSelf own => exact ih r _
      | kept stored other found stale => exact ih r _
      | ignored other absent closed => exact ih r _
      | replaced stored after other found fresh owned seeds list =>
          refine .inr (moved (.replaced stored after other found fresh owned seeds list) ?_ ?_)
          · refine ⟨c.toRemote, ?_, fun p known => ?_⟩
            · rw [list, List.mem_map]
              obtain ⟨member, key⟩ := get?_eq_some_iff.mp found
              exact ⟨stored, member, if_pos key⟩
            · obtain rfl : stored = p := Option.some.inj (found.symm.trans known)
              exact of_decide_eq_true fresh
          · simp [Reconciled.record, Reconciled.changed]
      | inserted after other absent allowed owned seeds list =>
          refine .inr (moved (.inserted after other absent allowed owned seeds list) ?_ ?_)
          · refine ⟨c.toRemote, by simp [list], fun p known => ?_⟩
            cases absent.symm.trans known
          · simp [Reconciled.record, Reconciled.changed]

theorem changed_offerAll_iff (r : Registry) (now : Instant) (allowInsert : Bool) (cs : List Peer) :
    (r.offerAll now allowInsert {} cs).2.changed = true ↔
      (r.offerAll now allowInsert {} cs).1.list ≠ r.list := by
  rcases offerAll_cases r now allowInsert {} cs with ⟨same, quiet⟩ | ⟨renewed, changed⟩
  · rw [same, quiet]
    simp [Reconciled.changed]
  · exact iff_of_true changed renewed.list_ne

theorem takes_offerAll (r : Registry) (now : Instant) (cs : List Peer) :
    r.Takes now cs (r.offerAll now true {} cs).1 (r.offerAll now true {} cs).2 where
  owned := owned_offerAll ..
  freshest _ other := get?_offerAll_freshest r now {} cs other
  keys := by
    obtain ⟨keys, inserted⟩ := keys_offerAll r now {} cs
    rw [keys, inserted]
    rfl
  inserted := (keys_offerAll r now {} cs).2
  skippedSelf := (skippedSelf_offerAll r now true {} cs).trans (Nat.zero_add _)
  total := (total_offerAll r now true {} cs).trans (Nat.zero_add _)
  changed_iff := changed_offerAll_iff r now true cs

theorem Takes.notified {cs : List Peer} (h : r.Takes now cs after report) (n : Nat) :
    r.Takes now cs after { report with notified := n } :=
  ⟨h.owned, h.freshest, h.keys, h.inserted, h.skippedSelf, h.total, h.changed_iff⟩

namespace Takes

variable {cs : List Peer}

theorem upToDate (h : r.Takes now cs after report) {c : Peer} (hc : c ∈ cs) :
    after.UpToDate now c := by
  intro other
  have own : c.key ≠ r.selfKey := by rwa [selfKey_eq, ← h.owned, ← selfKey_eq]
  have rival : c ∈ r.rivals cs c.key := List.mem_append_right _ (by simp [hc])
  have left := h.freshest c.key own
  cases least : (r.rivals cs c.key).argmin (·.elapsed now) with
  | none => simp [List.argmin_eq_none.mp least] at rival
  | some s =>
      rw [least] at left
      have le : s.elapsed now ≤ c.elapsed now := List.le_of_mem_argmin rival least
      exact ⟨s.toRemote, left, Peer.supersedes_eq_false.mpr le⟩

theorem get?_cases (h : r.Takes now cs after report) {p : Peer} (other : k ≠ r.selfKey)
    (found : r.get? k = some p) :
    after.get? k = some p ∨
      ∃ c ∈ cs, c.key = k ∧ c.supersedes p now = true ∧ after.get? k = some c.toRemote := by
  have left := h.freshest k other
  have remote := Peer.toRemote_eq_self (isSelf_of_get? found other)
  have all : r.rivals cs k = p :: cs.filter (·.key = k) := by
    rw [rivals, found]
    rfl
  rw [all, List.argmin_cons] at left
  cases least : (cs.filter (·.key = k)).argmin (·.elapsed now) with
  | none =>
      rw [least] at left
      exact .inl (left.trans (congrArg some remote))
  | some c =>
      rw [least] at left
      have member := List.mem_filter.mp (List.argmin_mem least)
      by_cases fresher : c.elapsed now < p.elapsed now
      · simp only [if_pos fresher] at left
        exact .inr ⟨c, member.1, of_decide_eq_true member.2, decide_eq_true fresher, left⟩
      · simp only [if_neg fresher] at left
        exact .inl (left.trans (congrArg some remote))

theorem stems (h : r.Takes now cs after report) {p : Peer} (other : k ≠ r.selfKey)
    (found : after.get? k = some p) : ∃ x ∈ r.rivals cs k, p = x.toRemote := by
  rw [h.freshest k other] at found
  obtain ⟨x, least, rfl⟩ := Option.map_eq_some_iff.mp found
  exact ⟨x, List.argmin_mem least, rfl⟩

end Takes

theorem newKeys_known (r : Registry) (cs : List Peer) :
    r.newKeys (cs.filter (·.key ∈ r.keys)) = [] := by
  have none : ((cs.filter (·.key ∈ r.keys)).map Peer.key).filter (· ∉ r.keys) = [] := by
    simp only [List.filter_eq_nil_iff, List.mem_map, List.mem_filter, decide_eq_true_eq]
    rintro k ⟨c, ⟨-, hk⟩, rfl⟩
    exact not_not.mpr hk
  rw [newKeys, none]
  rfl

theorem offer_known (hk : c.key ∈ r.keys) (now : Instant) :
    r.offer now false c = r.offer now true c := by
  obtain ⟨stored, found⟩ := exists_get?_of_mem_keys hk
  have same : r.toRoster.merge c false (fun c s => c.supersedes s now) =
      r.toRoster.merge c true (fun c s => c.supersedes s now) := by
    simp only [Roster.merge, found, Option.map_some]
    cases c.toRemote.supersedes stored now <;> rfl
  simp only [offer, merge, same]

theorem offer_unknown (hk : c.key ∉ r.keys) (now : Instant) :
    r.offer now false c = (r, .unchanged) := by
  have h := offered r now false c
  generalize r.offer now false c = result at h
  cases h with
  | rejectedSelf own => exact absurd (own ▸ r.sound.selfKey_mem_keys) hk
  | kept stored other found stale => rfl
  | replaced stored after other found fresh owned seeds list =>
      exact absurd (mem_keys_of_get? found) hk
  | ignored other absent closed => rfl
  | inserted after other absent allowed owned seeds list => cases allowed

theorem offerAll_passOver (r : Registry) (now : Instant) (allowInsert : Bool)
    (report : Reconciled) (n : Nat) (cs : List Peer) :
    r.offerAll now allowInsert (report.passOver n) cs =
      ((r.offerAll now allowInsert report cs).1,
        (r.offerAll now allowInsert report cs).2.passOver n) := by
  induction cs generalizing r report with
  | nil => rfl
  | cons c cs ih => rw [offerAll_cons, Reconciled.record_passOver, ih, ← offerAll_cons]

theorem offerAll_known (r : Registry) (now : Instant) (report : Reconciled) (cs : List Peer) :
    let known := r.offerAll now true report (cs.filter (·.key ∈ r.keys))
    r.offerAll now false report cs =
      (known.1, known.2.passOver (cs.countP (·.key ∉ r.keys))) := by
  induction cs generalizing r report with
  | nil => rfl
  | cons c cs ih =>
      by_cases hk : c.key ∈ r.keys
      · have keys : (r.offer now true c).1.keys = r.keys := by
          have h := offered r now true c
          generalize r.offer now true c = result at h
          obtain ⟨after, o⟩ := result
          rw [h.keys_eq, if_neg fun e => (h.inserted_iff.mp e).2 hk]
        rw [offerAll_cons, offer_known hk, ih]
        simp only [keys, hk, decide_true, List.filter_cons_of_pos, offerAll_cons, not_true,
          decide_false, Bool.false_eq_true, not_false_iff, List.countP_cons_of_neg]
      · have skipped : report.record c.key .unchanged = report.passOver 1 := rfl
        rw [offerAll_cons, offer_unknown hk, skipped, offerAll_passOver, ih]
        simp only [hk, decide_false, Bool.false_eq_true, not_false_iff, List.filter_cons_of_neg,
          decide_true, List.countP_cons_of_pos]
        rfl

end Registry

namespace Member

open Registry

theorem reconcile_takes (m : Member) (now : Instant) (cs : List Peer) :
    let r := m.registry
    let known := cs.filter (·.key ∈ r.keys)
    r.Takes now cs (m.reconcile now cs).1.registry (m.reconcile now cs).2 ∧
      ∃ report, r.Takes now known (m.refreshKnown now cs).1.registry report ∧
        report.inserted = [] ∧
        (m.refreshKnown now cs).2 = report.passOver (cs.countP (·.key ∉ r.keys)) := by
  intro r known
  have all := takes_offerAll r now cs
  have some := takes_offerAll r now known
  refine ⟨all.notified _, ?_⟩
  have closed : m.refreshKnown now cs = m.apply now false cs := rfl
  rw [closed, apply, offerAll_known]
  have told := some.notified (m.notifier.notifyAll (r.offerAll now true {} known).2.inserted).2
  exact ⟨_, told, some.inserted.trans (newKeys_known r cs), rfl⟩

end Member

end Epidemic
