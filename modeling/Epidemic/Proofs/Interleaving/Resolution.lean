import Epidemic.Proofs.Interleaving.Freshness

namespace Epidemic

open Instant (nanosPerSecond)

structure Peer.CloseTo (s c : Peer) (now : Instant) : Prop where
  ahead : c.generated.nanosSince s.generated < 2 * nanosPerSecond
  past : c.generated ≤ now → c.generated.nanosSince s.generated < nanosPerSecond

namespace Peer.CloseTo

variable {s s' c : Peer} {now : Instant}

theorem of_not_supersedes (hn : now.isLeap = false) (hc : c.generated.isLeap = false)
    (hs : s.generated.isLeap = false) (stale : c.supersedes s now = false) : s.CloseTo c now := by
  have verdict : s.elapsed now ≤ c.elapsed now := supersedes_eq_false.mp stale
  obtain ⟨ahead, past⟩ := Instant.nanosSince_lt_of_secondsSince_le (.of_not_leap hn) hc hs verdict
  exact ⟨ahead, past⟩

theorem later (h : s.CloseTo c now) (hc : c.generated.isLeap = false)
    (hs : s.generated.isLeap = false) (hs' : s'.generated.isLeap = false)
    (le : s.generated ≤ s'.generated) : s'.CloseTo c now := by
  have closer := Instant.nanosSince_le hc hs hs' le
  exact ⟨Int.lt_of_le_of_lt closer h.ahead, fun made => Int.lt_of_le_of_lt closer (h.past made)⟩

theorem of_generated (same : s.generated = c.generated) : s.CloseTo c now := by
  have none : c.generated.nanosSince s.generated = 0 := by
    rw [same, Instant.nanosSince_self]
  exact ⟨by rw [none]; decide, fun _ => by rw [none]; decide⟩

end Peer.CloseTo

theorem Registry.Offered.closeTo {r after : Registry} {now : Instant} {allowInsert : Bool}
    {c : Peer} {o : Outcome} (h : Offered r now allowInsert c (after, o))
    (hn : now.isLeap = false) (hr : Leapless r.list) (hc : c.generated.isLeap = false)
    (other : c.key ≠ r.selfKey) (known : allowInsert = false → c.key ∈ r.keys) :
    ∃ s, after.get? c.key = some s ∧ s.CloseTo c now := by
  have found := h.get?_eq c.key
  cases h with
  | rejectedSelf own => exact absurd own other
  | kept stored _ there stale =>
      have hs := hr stored (get?_eq_some_iff.mp there).1
      exact ⟨stored, there, .of_not_supersedes hn hc hs stale⟩
  | ignored _ absent closed => exact absurd (known closed) (get?_eq_none_iff.mp absent)
  | replaced stored _ _ there fresh owned seeds list =>
      exact ⟨c.toRemote, by simpa using found, .of_generated rfl⟩
  | inserted _ _ absent allowed owned seeds list =>
      exact ⟨c.toRemote, by simpa using found, .of_generated rfl⟩

namespace Pool

theorem run_resolution (m : Member) (es fs : List Event) (i : Nat) (now : Instant) (c : Peer)
    {allowInsert : Bool} {ahead : List Peer} {report : Reconciled} {next : Sequel}
    (stored : Leapless m.registry.list)
    (calm : ∀ e ∈ es ++ .advance i now :: fs, e.Calm c.key)
    (turn : ((of m).run es).activities[i]? = some (.merging allowInsert (c :: ahead) report next))
    (other : c.key ≠ m.registry.selfKey)
    (known : allowInsert = false → c.key ∈ ((of m).run es).member.registry.keys) :
    ∃ s, ((of m).run (es ++ .advance i now :: fs)).member.registry.get? c.key = some s ∧
      c.generated.nanosSince s.generated < 2 * nanosPerSecond ∧
      (c.generated ≤ now → c.generated.nanosSince s.generated < nanosPerSecond) := by
  have start : Steady c.key (of m) := ⟨stored, by simp [of]⟩
  obtain ⟨before, -⟩ := start.run fun e he => calm e (List.mem_append_left _ he)
  have hn : now.isLeap = false := calm (.advance i now) (by simp)
  have hc : c.generated.isLeap = false :=
    before.activities _ (List.mem_of_getElem? turn) c (List.mem_cons_self ..)
  obtain ⟨between, -⟩ := before.step (e := .advance i now) hn
  obtain ⟨after, later⟩ := between.run fun e (he : e ∈ fs) => calm e (by simp [he])
  -- the offer brings the stored record close to `c`, and from then on it only gets later
  have offered : ∃ s, (((of m).run es).step (.advance i now)).member.registry.get? c.key = some s ∧
      s.CloseTo c now := by
    rw [step_advance turn]
    have own : c.key ≠ ((of m).run es).member.registry.selfKey := by rwa [selfKey_run]
    exact (Registry.offered ..).closeTo hn before.stored hc own known
  obtain ⟨s, here, close⟩ := offered
  obtain ⟨s', there, le⟩ := later s here
  have hs := between.stored s (Registry.get?_eq_some_iff.mp here).1
  have hs' := after.stored s' (Registry.get?_eq_some_iff.mp there).1
  have close' := close.later hc hs hs' le
  rw [run_append]
  exact ⟨s', there, close'.ahead, close'.past⟩

theorem run_resolution_ahead :
    let owned := Peer.starting ⟨[1]⟩ (.v4 ⟨10, 0, 0, 1⟩ 7000) (.ofSeconds 80) "1" 2
    let made (t : Instant) := Peer.stub ⟨[2]⟩ (.v4 ⟨10, 0, 0, 2⟩ 7000) t
    let early := made ⟨99, 1⟩
    let late := made ⟨100, 999999999⟩
    let now := Instant.ofSeconds 100
    let es : List Event := [.start (.reconcile [early, late]), .advance 0 now]
    let fs : List Event := [.start (.refreshKnown [made ⟨90, 0⟩]), .advance 1 (.ofSeconds 20)]
    let after := ((of ⟨.ofSelf owned, .log⟩).run (es ++ .advance 0 now :: fs)).member.registry
    (∃ s, after.get? ⟨[2]⟩ = some s ∧
      late.generated.nanosSince s.generated < 2 * nanosPerSecond) ∧
      after.get? ⟨[2]⟩ = some early ∧
      late.generated.nanosSince early.generated = 2 * nanosPerSecond - 2 := by
  intro owned made early late now es fs after
  have calm : ∀ e ∈ es ++ .advance 0 now :: fs, e.Calm late.key := by
    simp [es, fs, Event.Calm, Job.Calm, Leapless, early, late, made, Peer.stub, now,
      Instant.isLeap, nanosPerSecond, Instant.ofSeconds]
  have turn : ((of ⟨.ofSelf owned, .log⟩).run es).activities[0]? =
      some (.merging true [late] { inserted := [⟨[2]⟩] } .report) := rfl
  obtain ⟨s, found, close, -⟩ := run_resolution ⟨.ofSelf owned, .log⟩ es fs 0 now late
    (by decide) calm turn (by decide) (by decide)
  exact ⟨⟨s, found, close⟩, by decide, by decide⟩

end Pool

end Epidemic
