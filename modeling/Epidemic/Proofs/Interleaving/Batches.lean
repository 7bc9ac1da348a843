import Epidemic.Proofs.Interleaving.Messages

namespace Epidemic

open Registry (Offered)

inductive Rival (r : Registry) (candidates : List Peer) (k : Key) (x : Peer) : Prop where
  | stored (found : r.get? k = some x)
  | candidate (member : x ∈ candidates) (key : x.key = k)

structure Freshest (r : Registry) (now : Instant) (candidates : List Peer) (after : Registry) :
    Prop where
  selfKey : after.selfKey = r.selfKey
  keys : ∀ k, k ∈ after.keys ↔ k ∈ r.keys ∨ ∃ c ∈ candidates, c.key = k
  rival : ∀ k p, k ≠ r.selfKey → after.get? k = some p →
    ∃ x, Rival r candidates k x ∧ p = x.toRemote
  least : ∀ k p x, k ≠ r.selfKey → after.get? k = some p → Rival r candidates k x →
    p.elapsed now ≤ x.elapsed now

theorem rival_concat {r : Registry} {candidates : List Peer} {c x : Peer} {k : Key} :
    Rival r (candidates ++ [c]) k x ↔ Rival r candidates k x ∨ x = c ∧ c.key = k := by
  constructor
  · rintro (found | ⟨member, key⟩)
    · exact .inl (.stored found)
    · rcases List.mem_append.mp member with old | new
      · exact .inl (.candidate old key)
      · obtain rfl := List.mem_singleton.mp new
        exact .inr ⟨rfl, key⟩
  · rintro ((found | ⟨member, key⟩) | ⟨rfl, key⟩)
    · exact .stored found
    · exact .candidate (List.mem_append_left _ member) key
    · exact .candidate (by simp) key

namespace Freshest

variable {r s after : Registry} {now : Instant} {candidates : List Peer} {c : Peer}

theorem refl (r : Registry) (now : Instant) : Freshest r now [] r where
  selfKey := rfl
  keys k := by simp
  rival k p other found :=
    ⟨p, .stored found, (Peer.toRemote_eq_self (Registry.isSelf_of_get? found other)).symm⟩
  least k p x _ found rival := by
    rcases rival with stored | ⟨member, -⟩
    · rw [Option.some.inj (found.symm.trans stored)]
    · cases member

theorem congr {candidates' : List Peer} (h : Freshest r now candidates s)
    (same : ∀ c, c ∈ candidates ↔ c ∈ candidates') : Freshest r now candidates' s := by
  have rivals {k : Key} {x : Peer} : Rival r candidates k x ↔ Rival r candidates' k x := by
    constructor
    · rintro (found | ⟨member, key⟩)
      · exact .stored found
      · exact .candidate ((same x).mp member) key
    · rintro (found | ⟨member, key⟩)
      · exact .stored found
      · exact .candidate ((same x).mpr member) key
  refine ⟨h.selfKey, fun k => ?_, fun k p other found => ?_, fun k p x other found rival => ?_⟩
  · simp only [h.keys, same]
  · obtain ⟨x, rival, e⟩ := h.rival k p other found
    exact ⟨x, rivals.mp rival, e⟩
  · exact h.least k p x other found (rivals.mpr rival)

theorem mem_of_rival (h : Freshest r now candidates s) {k : Key} {x : Peer}
    (rival : Rival r candidates k x) : k ∈ s.keys := by
  rw [h.keys]
  rcases rival with found | ⟨member, key⟩
  · exact .inl (Registry.mem_keys_of_get? found)
  · exact .inr ⟨x, member, key⟩

theorem unmoved (h : Freshest r now candidates s) (known : c.key ∈ s.keys)
    (stale : ∀ p, c.key ≠ r.selfKey → s.get? c.key = some p → p.elapsed now ≤ c.elapsed now) :
    Freshest r now (candidates ++ [c]) s := by
  refine ⟨h.selfKey, fun k => ?_, fun k p other found => ?_, fun k p x other found rival => ?_⟩
  · rw [h.keys]
    simp only [List.mem_append, List.mem_singleton]
    constructor
    · rintro (old | ⟨d, hd, key⟩)
      · exact .inl old
      · exact .inr ⟨d, .inl hd, key⟩
    · rintro (old | ⟨d, hd | rfl, key⟩)
      · exact .inl old
      · exact .inr ⟨d, hd, key⟩
      · exact (h.keys k).mp (key ▸ known)
  · obtain ⟨x, rival, e⟩ := h.rival k p other found
    exact ⟨x, rival_concat.mpr (.inl rival), e⟩
  · rcases rival_concat.mp rival with old | ⟨rfl, rfl⟩
    · exact h.least k p x other found old
    · exact stale p other found

theorem moved (h : Freshest r now candidates s) (selfKey : after.selfKey = r.selfKey)
    (keys : ∀ k, k ∈ after.keys ↔ k ∈ s.keys ∨ k = c.key)
    (found : ∀ k, after.get? k = if k = c.key then some c.toRemote else s.get? k)
    (fresh : ∀ x, c.key ≠ r.selfKey → Rival r candidates c.key x → c.elapsed now ≤ x.elapsed now) :
    Freshest r now (candidates ++ [c]) after := by
  refine ⟨selfKey, fun k => ?_, fun k p other stored => ?_, fun k p x other stored rival => ?_⟩
  · rw [keys, h.keys]
    simp only [List.mem_append, List.mem_singleton]
    constructor
    · rintro ((old | ⟨d, hd, key⟩) | rfl)
      · exact .inl old
      · exact .inr ⟨d, .inl hd, key⟩
      · exact .inr ⟨c, .inr rfl, rfl⟩
    · rintro (old | ⟨d, hd | rfl, key⟩)
      · exact .inl (.inl old)
      · exact .inl (.inr ⟨d, hd, key⟩)
      · exact .inr key.symm
  · rw [found] at stored
    split at stored
    · rename_i e
      subst e
      exact ⟨c, rival_concat.mpr (.inr ⟨rfl, rfl⟩), (Option.some.inj stored).symm⟩
    · obtain ⟨x, rival, e⟩ := h.rival k p other stored
      exact ⟨x, rival_concat.mpr (.inl rival), e⟩
  · rw [found] at stored
    split at stored
    · rename_i e
      subst e
      obtain rfl := Option.some.inj stored
      rcases rival_concat.mp rival with old | ⟨rfl, -⟩
      · exact fresh x other old
      · exact Int.le_refl _
    · rename_i e
      rcases rival_concat.mp rival with old | ⟨-, key⟩
      · exact h.least k p x other stored old
      · exact absurd key.symm e

theorem offered (h : Freshest r now candidates s) {o : Registry.Outcome}
    (how : Offered s now true c (after, o)) : Freshest r now (candidates ++ [c]) after := by
  have selfKey := how.selfKey_eq.trans h.selfKey
  have found := how.get?_eq
  have keys := how.keys_eq
  cases how with
  | rejectedSelf own =>
      exact h.unmoved (own ▸ s.sound.selfKey_mem_keys)
        fun p other _ => absurd (own.trans h.selfKey) other
  | kept stored other known stale =>
      refine h.unmoved (Registry.mem_keys_of_get? known) fun p _ hp => ?_
      obtain rfl : stored = p := Option.some.inj (known.symm.trans hp)
      exact Peer.supersedes_eq_false.mp stale
  | replaced stored _ other known fresh owned seeds list =>
      refine h.moved selfKey (fun k => ?_) (by simpa using found) fun x other rival => ?_
      · rw [keys]
        have member := Registry.mem_keys_of_get? known
        simp only [reduceCtorEq, if_false]
        exact ⟨.inl, fun hk => hk.elim id fun e => e ▸ member⟩
      · have older := h.least c.key stored x other known rival
        have younger : c.elapsed now < stored.elapsed now := of_decide_eq_true fresh
        exact Int.le_of_lt (Int.lt_of_lt_of_le younger older)
  | ignored other absent closed => cases closed
  | inserted _ other absent allowed owned seeds list =>
      refine h.moved selfKey (fun k => ?_) (by simpa using found) fun x _ rival => ?_
      · rw [keys]
        simp
      · exact absurd (h.mem_of_rival rival) (Registry.get?_eq_none_iff.mp absent)

end Freshest

def Job.candidates : Job → List Peer
  | .reconcile candidates => candidates
  | _ => []

def offered (events : List Event) : List Peer :=
  (jobs events).flatMap Job.candidates

def Event.Reconciles (now : Instant) : Event → Prop
  | .start (.reconcile _) => True
  | .advance _ t => t = now
  | _ => False

namespace Activity

def ahead : Activity → List Peer
  | .merging _ ahead _ _ => ahead
  | _ => []

def Reconciling : Activity → Prop
  | .merging allowInsert _ _ _ => allowInsert = true
  | .notifying _ _ _ => True
  | .following _ _ => True
  | .ended _ => True
  | _ => False

variable {a : Activity}

theorem Reconciling.advance (h : a.Reconciling) (now : Instant) (m : Member) :
    (a.advance now m).2.1.Reconciling := by
  cases a with
  | merging allowInsert ahead report next => cases ahead <;> trivial
  | notifying ahead report next =>
      cases ahead with
      | nil => trivial
      | cons k ahead =>
          simp only [Activity.advance]
          split <;> trivial
  | following report next => trivial
  | ended result => trivial
  | _ => exact h.elim

theorem Reconciling.offers (h : a.Reconciling) (now : Instant) (m : Member) :
    a.ahead = [] ∧ (a.advance now m).2.1.ahead = [] ∧ (a.advance now m).1.registry = m.registry ∨
      ∃ c, a.ahead = c :: (a.advance now m).2.1.ahead ∧
        (a.advance now m).1.registry = (m.registry.offer now true c).1 := by
  cases a with
  | merging allowInsert ahead report next =>
      obtain rfl : allowInsert = true := h
      cases ahead with
      | nil => exact .inl ⟨rfl, rfl, rfl⟩
      | cons c ahead => exact .inr ⟨c, rfl, rfl⟩
  | notifying ahead report next =>
      left
      cases ahead with
      | nil => exact ⟨rfl, rfl, rfl⟩
      | cons k ahead =>
          refine ⟨rfl, ?_, ?_⟩
          all_goals
            simp only [Activity.advance]
            split <;> rfl
  | following report next => exact .inl ⟨rfl, rfl, rfl⟩
  | ended result => exact .inl ⟨rfl, rfl, rfl⟩
  | _ => exact h.elim

end Activity

def waiting (as : List Activity) : List Peer :=
  as.flatMap Activity.ahead

theorem exists_set_eq {as : List Activity} {i : Nat} {a : Activity} (h : as[i]? = some a) :
    ∃ before after, as = before ++ a :: after ∧ ∀ b, as.set i b = before ++ b :: after := by
  obtain ⟨hi, rfl⟩ := List.getElem?_eq_some_iff.mp h
  have set (b : Activity) : as.set i b = as.take i ++ b :: as.drop (i + 1) := by
    rw [List.set_eq_take_append_cons_drop, if_pos hi]
  exact ⟨as.take i, as.drop (i + 1), by rw [← set as[i], List.set_getElem_self], set⟩

namespace Pool

structure Merged (r : Registry) (now : Instant) (events : List Event) (p : Pool) : Prop where
  reconciling : ∀ a ∈ p.activities, a.Reconciling
  freshest : ∃ done, Freshest r now done p.member.registry ∧
    ∀ c, c ∈ offered events ↔ c ∈ done ∨ c ∈ waiting p.activities

namespace Merged

variable {r : Registry} {now : Instant} {events : List Event} {p : Pool}

theorem start (h : Merged r now events p) (candidates : List Peer) :
    Merged r now (events ++ [.start (.reconcile candidates)])
      (p.step (.start (.reconcile candidates))) := by
  obtain ⟨done, freshest, all⟩ := h.freshest
  refine ⟨fun a ha => ?_, done, freshest, fun c => ?_⟩
  · rcases List.mem_append.mp ha with old | new
    · exact h.reconciling a old
    · obtain rfl := List.mem_singleton.mp new
      rfl
  · have more : offered (events ++ [.start (.reconcile candidates)]) =
        offered events ++ candidates := by
      simp [offered, jobs, Event.job?, Job.candidates]
    simp only [more, step, waiting, Job.activity, List.flatMap_append, List.flatMap_singleton,
      Activity.ahead, List.mem_append, all, or_assoc]

theorem advance (h : Merged r now events p) (i : Nat) :
    Merged r now (events ++ [.advance i now]) (p.step (.advance i now)) := by
  have same : offered (events ++ [.advance i now]) = offered events := by
    simp [offered, jobs, Event.job?]
  obtain ⟨reconciling, done, freshest, all⟩ := h
  cases here : p.activities[i]? with
  | none =>
      simp only [step, here]
      exact ⟨reconciling, done, freshest, same ▸ all⟩
  | some a =>
      obtain ⟨before, after, split, set⟩ := exists_set_eq here
      have current := reconciling a (List.mem_of_getElem? here)
      rw [step_advance here, set]
      refine ⟨fun b hb => ?_, ?_⟩
      · rcases List.mem_append.mp hb with old | old
        · exact reconciling b (split ▸ List.mem_append_left _ old)
        · rcases List.mem_cons.mp old with rfl | old
          · exact current.advance now p.member
          · exact reconciling b (split ▸ List.mem_append_right _ (List.mem_cons_of_mem _ old))
      · simp only [same]
        simp only [split, waiting, List.flatMap_append, List.flatMap_cons, List.mem_append] at all ⊢
        rcases current.offers now p.member with ⟨none, none', unchanged⟩ | ⟨c, next, offer⟩
        · exact ⟨done, unchanged ▸ freshest, fun d => by rw [all, none, none']⟩
        · refine ⟨done ++ [c], offer ▸ freshest.offered (Registry.offered ..), fun d => ?_⟩
          rw [all, next]
          simp only [List.mem_append, List.mem_cons, List.not_mem_nil, or_false]
          grind

theorem run (m : Member) {now : Instant} {events : List Event}
    (merges : ∀ e ∈ events, e.Reconciles now) :
    Merged m.registry now events ((of m).run events) := by
  induction events using List.reverseRecOn with
  | nil =>
      exact ⟨by simp [Pool.run, of], [], .refl m.registry now,
        by simp [offered, jobs, waiting, Pool.run, of]⟩
  | append_singleton events e ih =>
      have before := ih fun e he => merges e (List.mem_append_left _ he)
      have last := merges e (by simp)
      rw [run_concat]
      cases e with
      | start job =>
          cases job with
          | reconcile candidates => exact before.start candidates
          | _ => exact last.elim
      | advance i t =>
          obtain rfl : t = now := last
          exact before.advance i
      | hear i answer => exact last.elim
      | cancel i => exact last.elim

theorem settled (h : Merged r now events p) (done : waiting p.activities = []) :
    Freshest r now (offered events) p.member.registry := by
  obtain ⟨taken, freshest, all⟩ := h.freshest
  exact freshest.congr fun c => by simp [all, done]

end Merged

theorem run_batches (m : Member) (now : Instant) (first second : List Event)
    (merges : ∀ e ∈ first ++ second, e.Reconciles now)
    (settled : ∀ events ∈ [first, second], waiting ((of m).run events).activities = [])
    (same : ∀ c, c ∈ offered first ↔ c ∈ offered second) :
    let r := ((of m).run first).member.registry
    let s := ((of m).run second).member.registry
    let rival := Rival m.registry (offered first)
    (∀ k, (k ∈ r.keys ↔ k ∈ m.registry.keys ∨ ∃ c ∈ offered first, c.key = k) ∧
      (k ∈ s.keys ↔ k ∈ r.keys)) ∧
    ∀ k, k ≠ m.registry.selfKey → k ∈ r.keys →
      ∃ p q, r.get? k = some p ∧ s.get? k = some q ∧
        p.elapsed now = q.elapsed now ∧
        (∃ x, rival k x ∧ p.elapsed now = x.elapsed now) ∧
        (∀ x, rival k x → p.elapsed now ≤ x.elapsed now) ∧
        ((∀ x y, rival k x → rival k y → x.elapsed now = y.elapsed now →
          x.toRemote = y.toRemote) → p = q) := by
  intro r s rival
  have one : Freshest m.registry now (offered first) r :=
    (Merged.run m fun e he => merges e (List.mem_append_left _ he)).settled
      (settled first (by simp))
  have two : Freshest m.registry now (offered first) s :=
    ((Merged.run m fun e he => merges e (List.mem_append_right _ he)).settled
      (settled second (by simp))).congr fun c => (same c).symm
  refine ⟨fun k => ⟨one.keys k, (two.keys k).trans (one.keys k).symm⟩, fun k other hk => ?_⟩
  obtain ⟨p, hp⟩ := Registry.exists_get?_of_mem_keys hk
  obtain ⟨q, hq⟩ := Registry.exists_get?_of_mem_keys ((two.keys k).mpr ((one.keys k).mp hk))
  obtain ⟨x, hx, rfl⟩ := one.rival k p other hp
  obtain ⟨y, hy, rfl⟩ := two.rival k q other hq
  have tie : x.elapsed now = y.elapsed now :=
    Int.le_antisymm (one.least k x.toRemote y other hp hy) (two.least k y.toRemote x other hq hx)
  exact ⟨x.toRemote, y.toRemote, hp, hq, tie, ⟨x, hx, rfl⟩, fun z hz => one.least k _ z other hp hz,
    fun untied => untied x y hx hy tie⟩

theorem run_batches_turned :
    let address : Endpoint := .v4 ⟨10, 0, 0, 2⟩ 7000
    let made (key : UInt8) (s : Int) := Peer.stub ⟨[key]⟩ address (.ofSeconds s)
    let m : Member :=
      ⟨((Registry.ofSelf (Peer.starting ⟨[1]⟩ address (.ofSeconds 80) "1" 2)).offer
        (.ofSeconds 100) true (made 2 90)).1, .log⟩
    let now := Instant.ofSeconds 100
    let first : List Event :=
      [.start (.reconcile [made 2 94, made 3 70]), .start (.reconcile [made 1 99, made 2 97]),
        .advance 0 now, .advance 1 now, .advance 1 now, .advance 0 now]
    let second : List Event :=
      [.start (.reconcile [made 2 97, made 1 99]), .advance 0 now, .advance 0 now,
        .start (.reconcile [made 3 70, made 2 94]), .advance 1 now, .advance 1 now]
    ∃ p, ((of m).run first).member.registry.get? ⟨[2]⟩ = some p ∧
      ((of m).run second).member.registry.get? ⟨[2]⟩ = some p ∧
      p.elapsed now ≤ (made 2 97).elapsed now := by
  intro address made m now first second
  have same : (offered first).Perm (offered second) := by decide
  have merges : ∀ e ∈ first ++ second, e.Reconciles now := by
    simp [first, second, Event.Reconciles]
  obtain ⟨-, each⟩ := run_batches m now first second merges (by decide) fun c => same.mem_iff
  obtain ⟨p, q, hp, hq, -, -, least, untied⟩ := each ⟨[2]⟩ (by decide) (by decide)
  have rivals : ∀ x ∈ offered first, x.key = ⟨[2]⟩ → x ∈ [made 2 90, made 2 94, made 2 97] := by
    decide
  have among {x : Peer} (h : Rival m.registry (offered first) ⟨[2]⟩ x) :
      x ∈ [made 2 90, made 2 94, made 2 97] := by
    rcases h with found | ⟨member, key⟩
    · rw [Option.some.inj (found.symm.trans (show _ = some (made 2 90) by decide))]
      simp
    · exact rivals x member key
  refine ⟨p, hp, ?_, least _ (.candidate (by decide) rfl)⟩
  rw [hq, untied fun x y hx hy tie => ?_]
  have distinct : ∀ x ∈ [made 2 90, made 2 94, made 2 97], ∀ y ∈ [made 2 90, made 2 94, made 2 97],
      x.elapsed now = y.elapsed now → x.toRemote = y.toRemote := by decide
  exact distinct x (among hx) y (among hy) tie

end Pool

end Epidemic
