import Epidemic.Proofs.Interleaving.Resolution
import Epidemic.Proofs.Reconcile.Exact

namespace Epidemic

variable {r after : Registry} {now : Instant} {cs : List Peer} {report : Reconciled} {k : Key}

theorem Peer.not_supersedes_of_le {c s : Peer} (hn : now.isLeap = false)
    (hc : c.generated.isLeap = false) (hs : s.generated.isLeap = false)
    (le : c.generated ≤ s.generated) : c.supersedes s now = false :=
  supersedes_eq_false.mpr (Instant.secondsSince_le (.of_not_leap hn) hc hs le)

namespace Registry

theorem mem_others_of_get? {p : Peer} (found : r.get? k = some p) (other : k ≠ r.selfKey) :
    p ∈ r.others := by
  obtain ⟨member, rfl⟩ := get?_eq_some_iff.mp found
  rcases List.mem_cons.mp member with rfl | stored
  · exact absurd r.sound.key_owned other
  · exact stored

theorem mem_of_rival {x : Peer} (h : x ∈ r.rivals cs k) (other : k ≠ r.selfKey) :
    x ∈ r.others ++ cs := by
  rcases List.mem_append.mp h with stored | offered
  · exact List.mem_append_left _ (mem_others_of_get? (Option.mem_toList.mp stored) other)
  · exact List.mem_append_right _ (List.mem_filter.mp offered).1

namespace Takes

theorem selfKey (h : r.Takes now cs after report) : after.selfKey = r.selfKey := by
  rw [selfKey_eq, h.owned, ← selfKey_eq]

theorem mem_keys (h : r.Takes now cs after report) {c : Peer} (hc : c ∈ cs) :
    c.key ∈ after.keys := by
  by_cases own : c.key = after.selfKey
  · exact own ▸ after.sound.selfKey_mem_keys
  · obtain ⟨s, found, -⟩ := h.upToDate hc own
    exact mem_keys_of_get? found

theorem source (h : r.Takes now cs after report) {p : Peer} (other : k ≠ r.selfKey)
    (found : after.get? k = some p) : ∃ x ∈ r.others ++ cs, p = x.toRemote := by
  obtain ⟨x, rival, same⟩ := h.stems other found
  exact ⟨x, mem_of_rival rival other, same⟩

theorem leapless (h : r.Takes now cs after report) (whole : Leapless (r.others ++ cs)) {p : Peer}
    (other : k ≠ r.selfKey) (found : after.get? k = some p) : p.generated.isLeap = false := by
  obtain ⟨x, hx, rfl⟩ := h.source other found
  exact whole x hx

theorem closeTo (h : r.Takes now cs after report) (hn : now.isLeap = false)
    (whole : Leapless (r.others ++ cs)) {c p : Peer} (hc : c ∈ cs) (other : c.key ≠ r.selfKey)
    (found : after.get? c.key = some p) : p.CloseTo c now := by
  obtain ⟨s, there, stale⟩ := h.upToDate hc (h.selfKey ▸ other)
  obtain rfl : s = p := Option.some.inj (there.symm.trans found)
  exact .of_not_supersedes hn (whole c (List.mem_append_right _ hc))
    (h.leapless whole other there) stale

theorem upToDate_whole (h : r.Takes now cs after report) (hn : now.isLeap = false)
    (whole : Leapless (r.others ++ cs))
    (past : ∀ p ∈ r.others ++ cs, p.generated.nanos = 0 ∧ p.generated ≤ now) {t : Instant}
    (ht : t.isLeap = false) {c : Peer} (hc : c ∈ cs) : after.UpToDate t c := by
  intro own
  have other : c.key ≠ r.selfKey := h.selfKey ▸ own
  obtain ⟨s, found, -⟩ := h.upToDate hc own
  have offered : c ∈ r.others ++ cs := List.mem_append_right _ hc
  have close := (h.closeTo hn whole hc other found).past (past c offered).2
  have fraction : s.generated.nanos = 0 := by
    obtain ⟨x, hx, rfl⟩ := h.source other found
    exact (past x hx).1
  have le := Instant.le_of_nanosSince_lt (past c offered).1 fraction close
  exact ⟨s, found,
    Peer.not_supersedes_of_le ht (whole c offered) (h.leapless whole other found) le⟩

theorem moves {again : List Peer} {after' : Registry} {report' : Reconciled} {t : Instant}
    (h : r.Takes now cs after report) (h' : after.Takes t again after' report')
    (part : ∀ c ∈ again, c ∈ cs) (hn : now.isLeap = false) (ht : t.isLeap = false)
    (whole : Leapless (r.others ++ cs)) {p : Peer} (found : after.get? k = some p) :
    ∃ q, after'.get? k = some q ∧ p.generated ≤ q.generated ∧ p.CloseTo q now := by
  by_cases own : k = after.selfKey
  · subst own
    rw [← get?_selfKey_of_owned h'.owned] at found
    exact ⟨p, found, p.generated.le_refl, .of_generated rfl⟩
  · have other : k ≠ r.selfKey := h.selfKey ▸ own
    rcases h'.get?_cases own found with same | ⟨c, hc, rfl, fresher, moved⟩
    · exact ⟨p, same, p.generated.le_refl, .of_generated rfl⟩
    · have offered := part c hc
      have le := Peer.le_of_supersedes ht (whole c (List.mem_append_right _ offered))
        (h.leapless whole other found) fresher
      have close := h.closeTo hn whole offered other found
      exact ⟨c.toRemote, moved, le, close.ahead, close.past⟩

end Takes

end Registry

namespace Member

open Registry

theorem reconcile_again (m : Member) (t₁ t₂ : Instant) (cs again : List Peer)
    (part : ∀ c ∈ again, c ∈ cs) (h₁ : t₁.isLeap = false) (h₂ : t₂.isLeap = false)
    (whole : Leapless (m.registry.others ++ cs)) :
    let once := (m.reconcile t₁ cs).1
    let twice := once.reconcile t₂ again
    twice.2.inserted = [] ∧ twice.1.registry.keys = once.registry.keys ∧
      (∀ k p, once.registry.get? k = some p → ∃ q, twice.1.registry.get? k = some q ∧
        p.generated ≤ q.generated ∧ p.CloseTo q t₁) ∧
      (t₂ = t₁ ∨ (∀ p ∈ m.registry.others ++ cs, p.generated.nanos = 0 ∧ p.generated ≤ t₁) →
        twice.1 = once ∧ twice.2.Idle) := by
  intro once twice
  have first : m.registry.Takes t₁ cs once.registry (m.reconcile t₁ cs).2 :=
    (takes_offerAll ..).notified _
  have second : once.registry.Takes t₂ again twice.1.registry twice.2 :=
    (takes_offerAll ..).notified _
  have none : twice.2.inserted = [] := by
    have known : again.filter (·.key ∈ once.registry.keys) = again :=
      List.filter_eq_self.mpr fun c hc => decide_eq_true (first.mem_keys (part c hc))
    rw [second.inserted, ← known, newKeys_known]
  have quiet (upToDate : ∀ c ∈ again, once.registry.UpToDate t₂ c) :
      twice.1 = once ∧ twice.2.Idle := by
    obtain ⟨seen, same, idle⟩ := once.apply_upToDate true upToDate
    have result : twice = (once, seen) := same
    rw [result]
    exact ⟨rfl, idle⟩
  refine ⟨none, by rw [second.keys, none, List.append_nil], fun k p found => ?_, ?_⟩
  · exact first.moves second part h₁ h₂ whole found
  · rintro (rfl | past)
    · exact quiet fun c hc => first.upToDate (part c hc)
    · exact quiet fun c hc => first.upToDate_whole h₁ whole past h₂ (part c hc)

theorem reconcile_again_part :
    let made (n : UInt8) (t : Instant) := Peer.stub ⟨[n]⟩ (.v4 ⟨10, 0, 0, n⟩ 7000) t
    let owned := Peer.starting ⟨[1]⟩ (.v4 ⟨10, 0, 0, 1⟩ 7000) (.ofSeconds 900) "1" 2
    let m : Member := ⟨.ofSelf owned, .log⟩
    let cs := [made 2 (.ofSeconds 1000), made 3 (.ofSeconds 1005), made 2 (.ofSeconds 1007)]
    let again := [made 2 (.ofSeconds 1007), made 2 (.ofSeconds 1000)]
    let once := (m.reconcile ⟨1010, 950000000⟩ cs).1
    once.registry.keys = [⟨[1]⟩, ⟨[2]⟩, ⟨[3]⟩] ∧
      (once.reconcile ⟨1011, 500000000⟩ again).1 = once := by
  intro made owned m cs again once
  have past : ∀ p ∈ m.registry.others ++ cs,
      p.generated.nanos = 0 ∧ p.generated ≤ ⟨1010, 950000000⟩ := by decide
  obtain ⟨-, -, -, still⟩ := reconcile_again m ⟨1010, 950000000⟩ ⟨1011, 500000000⟩ cs again
    (by decide) (by decide) (by decide) (by decide)
  exact ⟨by decide, (still (.inr past)).1⟩

theorem reconcile_again_late :
    let address : Endpoint := .v4 ⟨10, 0, 0, 2⟩ 7000
    let made (t : Instant) := Peer.stub ⟨[2]⟩ address t
    let m : Member :=
      ⟨((Registry.ofSelf (Peer.starting ⟨[1]⟩ (.v4 ⟨10, 0, 0, 1⟩ 7000) ⟨900, 0⟩ "1" 2)).offer
        ⟨1010, 0⟩ true (made ⟨1000, 100000000⟩)).1, .log⟩
    let late := made ⟨1000, 900000000⟩
    let t₁ : Instant := ⟨1010, 950000000⟩
    let t₂ : Instant := ⟨1011, 500000000⟩
    let once := (m.reconcile t₁ [late]).1
    t₁ ≤ t₂ ∧ (once.reconcile t₂ [late]).1.registry ≠ once.registry ∧
      (once.reconcile t₂ [late]).2.replaced = 1 := by
  decide +kernel

end Member

end Epidemic
