import Epidemic.Proofs.Interleaving.Step
import Epidemic.Proofs.Time.Order
import Epidemic.Proofs.Wire.Image

namespace Epidemic

open Wire (Record)

def Leapless (ps : List Peer) : Prop :=
  ∀ p ∈ ps, p.generated.isLeap = false

instance (ps : List Peer) : Decidable (Leapless ps) :=
  inferInstanceAs (Decidable (∀ p ∈ ps, p.generated.isLeap = false))

def Later (k : Key) (r after : Registry) : Prop :=
  ∀ p, r.get? k = some p → ∃ q, after.get? k = some q ∧ p.generated ≤ q.generated

theorem Wire.Record.isLeap_of_toPeer {record : Record} {p : Peer} (h : record.toPeer = .ok p) :
    p.generated.isLeap = false := by
  rw [(accepted_of_toPeer h).whole, Instant.isLeap_ofSeconds]

theorem Leapless.toPeers (records : List Record) : Leapless (Record.toPeers records) := by
  intro p hp
  obtain ⟨record, -, read⟩ := List.mem_filterMap.mp hp
  cases whole : record.toPeer with
  | error e => simp [whole, Except.toOption] at read
  | ok q =>
      obtain rfl : q = p := by simpa [whole, Except.toOption] using read
      exact Record.isLeap_of_toPeer whole

namespace Later

variable {k : Key} {r r' r'' : Registry}

theorem refl : Later k r r :=
  fun p h => ⟨p, h, p.generated.le_refl⟩

theorem trans (h : Later k r r') (h' : Later k r' r'') : Later k r r'' := by
  intro p hp
  obtain ⟨q, hq, le⟩ := h p hp
  obtain ⟨q', hq', le'⟩ := h' q hq
  exact ⟨q', hq', Instant.le_trans le le'⟩

end Later

theorem Peer.le_of_supersedes {c s : Peer} {now : Instant} (hn : now.isLeap = false)
    (hc : c.generated.isLeap = false) (hs : s.generated.isLeap = false)
    (h : c.supersedes s now = true) : s.generated ≤ c.generated :=
  Instant.le_of_not_le
    (Instant.not_le_of_secondsSince_lt (.of_not_leap hn) hc hs (of_decide_eq_true h))

namespace Registry.Offered

variable {r after : Registry} {now : Instant} {allowInsert : Bool} {c : Peer} {o : Outcome}

theorem leapless (h : Offered r now allowInsert c (after, o)) (hr : Leapless r.list)
    (hc : c.generated.isLeap = false) : Leapless after.list := by
  intro p hp
  rcases h.old_or_new hp with old | rfl
  · exact hr p old
  · exact hc

theorem later (h : Offered r now allowInsert c (after, o)) (hn : now.isLeap = false)
    {k : Key} (hr : ∀ p, r.get? k = some p → p.generated.isLeap = false)
    (hc : c.generated.isLeap = false) : Later k r after := by
  intro p hp
  have found := h.get?_eq k
  cases h with
  | rejectedSelf _ => exact Later.refl p hp
  | kept _ _ _ _ => exact Later.refl p hp
  | ignored _ _ _ => exact Later.refl p hp
  | replaced stored _ _ known fresh _ _ _ =>
      by_cases e : k = c.key
      · subst e
        obtain rfl : stored = p := Option.some.inj (known.symm.trans hp)
        have later := Peer.le_of_supersedes hn hc (hr stored hp) fresh
        exact ⟨c.toRemote, by simpa using found, later⟩
      · exact ⟨p, by simpa [e, hp] using found, p.generated.le_refl⟩
  | inserted _ _ absent _ _ _ _ =>
      have e : k ≠ c.key := by
        rintro rfl
        cases absent.symm.trans hp
      exact ⟨p, by simpa [e, hp] using found, p.generated.le_refl⟩

end Registry.Offered

def Activity.Calm (k : Key) : Activity → Prop
  | .merging _ ahead _ _ => Leapless ahead
  | .inserting p => p.generated.isLeap = false
  | .refreshing f => f.key ≠ k
  | _ => True

namespace Touched

variable {now : Instant} {r after : Registry} {a : Activity} {seen : List Occurrence} {k : Key}

theorem leapless (h : Touched now r a after seen) (hn : now.isLeap = false)
    (hr : Leapless r.list) (calm : a.Calm k) : Leapless after.list := by
  cases h with
  | untouched none => exact hr
  | offered how => exact how.leapless hr (calm _ (List.mem_cons_self ..))
  | @inserted p _ absent selfKey list =>
      intro q hq
      rcases List.mem_append.mp (list ▸ hq) with old | new
      · exact hr q old
      · rw [List.mem_singleton.mp new]
        exact calm
  | @refreshed f q _ key generated selfKey list =>
      intro p hp
      obtain ⟨x, hx, rfl⟩ := List.mem_map.mp (list ▸ hp)
      split
      · rw [generated]
        exact hn
      · exact hr x hx

theorem later (h : Touched now r a after seen) (hn : now.isLeap = false) (hr : Leapless r.list)
    (calm : a.Calm k) : Later k r after := by
  cases h with
  | untouched none => exact .refl
  | offered how =>
      exact how.later hn (fun p hp => hr p (Registry.get?_eq_some_iff.mp hp).1)
        (calm _ (List.mem_cons_self ..))
  | @inserted p _ absent selfKey list =>
      intro q hq
      obtain ⟨member, key⟩ := Registry.get?_eq_some_iff.mp hq
      have kept : q ∈ after.list := list ▸ List.mem_append_left _ member
      exact ⟨q, Registry.get?_eq_some_iff.mpr ⟨kept, key⟩, q.generated.le_refl⟩
  | @refreshed f q _ _ generated selfKey list =>
      intro p hp
      obtain ⟨member, key⟩ := Registry.get?_eq_some_iff.mp hp
      have spared : p.key ≠ f.key := fun e => calm (e.symm.trans key)
      have kept : p ∈ after.list := by
        rw [list]
        exact List.mem_map.mpr ⟨p, member, if_neg spared⟩
      exact ⟨p, Registry.get?_eq_some_iff.mpr ⟨kept, key⟩, p.generated.le_refl⟩

end Touched

def Job.Calm (k : Key) : Job → Prop
  | .reconcile candidates => Leapless candidates
  | .refreshKnown candidates => Leapless candidates
  | .insert p => p.generated.isLeap = false
  | .refresh f => f.key ≠ k
  | _ => True

def Event.Calm (k : Key) : Event → Prop
  | .start job => job.Calm k
  | .advance _ now => now.isLeap = false
  | _ => True

theorem Job.Calm.activity {k : Key} {job : Job} (h : job.Calm k) : job.activity.Calm k := by
  cases job with
  | serveAck body => exact Leapless.toPeers body.details
  | reconcile candidates => exact h
  | refreshKnown candidates => exact h
  | insert p => exact h
  | refresh f => exact h
  | _ => trivial

theorem Activity.Calm.hear {k : Key} {a : Activity} (h : a.Calm k) (answer : Wire.SynAck) :
    (a.hear answer).Calm k := by
  cases a with
  | awaiting target owned body => exact Leapless.toPeers answer.fresh
  | _ => exact h

theorem Leapless.sort (r : Registry) (body : Wire.Syn) : Leapless (r.sort body).refresh :=
  fun p hp => Leapless.toPeers body.known p (List.mem_filter.mp hp).1

theorem Activity.Calm.advance {k : Key} {a : Activity} (h : a.Calm k) (now : Instant) (m : Member) :
    (a.advance now m).2.1.Calm k := by
  cases a with
  | sorting body => exact Leapless.sort m.registry body
  | merging allowInsert ahead report next =>
      cases ahead with
      | nil => trivial
      | cons c ahead => exact fun p hp => h p (List.mem_cons_of_mem _ hp)
  | notifying ahead report next =>
      cases ahead with
      | nil => trivial
      | cons key ahead =>
          simp only [Activity.advance]
          split <;> trivial
  | inserting p =>
      simp only [Activity.advance]
      split <;> trivial
  | refreshing f =>
      simp only [Activity.advance]
      split <;> trivial
  | _ => trivial

structure Steady (k : Key) (p : Pool) : Prop where
  stored : Leapless p.member.registry.list
  activities : ∀ a ∈ p.activities, a.Calm k

namespace Steady

variable {k : Key} {p : Pool}

theorem step (h : Steady k p) {e : Event} (calm : e.Calm k) :
    Steady k (p.step e) ∧ Later k p.member.registry (p.step e).member.registry := by
  have activities : ∀ b ∈ (p.step e).activities, b.Calm k := by
    intro b hb
    cases Pool.arises hb with
    | kept there => exact h.activities b there
    | begun => exact calm.activity
    | advanced there => exact (h.activities _ there).advance _ _
    | heard there => exact (h.activities _ there).hear _
    | ended => trivial
  rcases p.member_step_cases e with same | ⟨i, now, a, rfl, there, moved⟩
  · exact ⟨⟨same ▸ h.stored, activities⟩, same ▸ .refl⟩
  · have quiet := h.activities a there
    have touched := a.touched now p.member
    exact ⟨⟨moved ▸ touched.leapless calm h.stored quiet, activities⟩,
      moved ▸ touched.later calm h.stored quiet⟩

theorem run (h : Steady k p) {events : List Event} (calm : ∀ e ∈ events, e.Calm k) :
    Steady k (p.run events) ∧ Later k p.member.registry (p.run events).member.registry := by
  induction events generalizing p with
  | nil => exact ⟨h, .refl⟩
  | cons e events ih =>
      obtain ⟨next, first⟩ := h.step (calm e (List.mem_cons_self ..))
      obtain ⟨last, rest⟩ := ih next fun e he => calm e (List.mem_cons_of_mem _ he)
      exact ⟨last, first.trans rest⟩

end Steady

theorem Pool.run_later (m : Member) (es fs : List Event) (k : Key)
    (stored : Leapless m.registry.list) (calm : ∀ e ∈ es ++ fs, e.Calm k) (p : Peer)
    (found : ((of m).run es).member.registry.get? k = some p) :
    ∃ q, ((of m).run (es ++ fs)).member.registry.get? k = some q ∧ p.generated ≤ q.generated := by
  have start : Steady k (of m) := ⟨stored, by simp [of]⟩
  obtain ⟨between, -⟩ := start.run fun e he => calm e (List.mem_append_left _ he)
  obtain ⟨-, later⟩ := between.run fun e he => calm e (List.mem_append_right _ he)
  rw [run_append]
  exact later p found

theorem Pool.run_later_set_back :
    let owned := Peer.starting ⟨[1]⟩ (.v4 ⟨10, 0, 0, 1⟩ 7000) (.ofSeconds 80) "1" 2
    let made (s : Int) := Peer.stub ⟨[2]⟩ (.v4 ⟨10, 0, 0, 2⟩ 7000) (.ofSeconds s)
    ∃ q, ((of ⟨.ofSelf owned, .log⟩).run
        ([.start (.reconcile [made 90]), .advance 0 (.ofSeconds 100)] ++
          [.start (.reconcile [made 95, made 85]), .advance 1 (.ofSeconds 50),
            .advance 1 (.ofSeconds 20)])).member.registry.get? ⟨[2]⟩ = some q ∧
      (made 90).generated ≤ q.generated := by
  intro owned made
  exact run_later ⟨.ofSelf owned, .log⟩
    [.start (.reconcile [made 90]), .advance 0 (.ofSeconds 100)]
    [.start (.reconcile [made 95, made 85]), .advance 1 (.ofSeconds 50),
      .advance 1 (.ofSeconds 20)]
    ⟨[2]⟩ (by decide) (by simp [Event.Calm, Job.Calm, Leapless, made, Peer.stub]) (made 90) (by decide)

end Epidemic
