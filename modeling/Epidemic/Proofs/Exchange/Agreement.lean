import Epidemic.Proofs.Exchange.Outcome

namespace Epidemic

open Registry (beyond passed refreshedBy)
open Wire (Record)

theorem Peer.WireValid.image {p : Peer} (h : p.WireValid) : p.image.WireValid := by
  refine ⟨h.key_ne_nil, ?_, h.generated⟩
  simpa [Peer.image, Endpoint.bare] using h.port_ne_zero

namespace Registry

variable {a b r : Registry} {now : Instant} {k : Key} {p : Peer}

structure Exchanged (now : Instant) (a b a' b' : Registry) : Prop where
  initiator : ∀ k, a'.get? k = (a.get? k).or ((b.get? k).map Peer.image)
  receiver : ∀ k, b'.get? k = ((b.get? k).map (refreshedBy now a b)).or
    (((a.get? k).filter Peer.isDiscovered).map Peer.image)
  owned : a'.owned = a.owned
  received : b'.owned = b.owned

theorem Traded.exchanged {a' b' : Registry} (h : Traded now now a b a' b') (first : a.WireValid)
    (second : b.WireValid) : Exchanged now a b a' b' where
  owned := h.owned
  received := h.received
  initiator k := by
    by_cases own : k = a.selfKey
    · subst own
      rw [h.initiator_own, get?_selfKey, Option.some_or]
    · rw [h.initiator k own, taught, first.relayed?, second.relayed?]
      cases a.get? k <;> cases b.get? k <;> rfl
  receiver k := by
    by_cases own : k = b.selfKey
    · subst own
      rw [h.receiver_own, get?_selfKey, Option.map_some, Option.some_or, refreshedBy,
        if_pos b.sound.key_owned]
    · rw [h.receiver k own, handed, first.relayed?]
      cases held : b.get? k with
      | none =>
          cases a.get? k with
          | none => rfl
          | some p =>
              by_cases heard : p.isDiscovered = true
              · simp [met, Option.filter_some, heard]
              · simp [met, Option.filter_some, heard]
      | some q =>
          obtain rfl := key_of_get? held
          cases known : a.get? q.key with
          | none => simp [met, refreshedBy, known]
          | some p =>
              by_cases fresh : p.image.supersedes q now = true
              · simp [met, refreshedBy, known, own, fresh]
              · simp [met, refreshedBy, known, own, fresh]

theorem elapsed_image (whole : p.generated.nanos = 0) (now : Instant) :
    p.image.elapsed now = p.elapsed now := by
  have same : Instant.ofSeconds p.generated.seconds = p.generated := by
    rw [Instant.ofSeconds, ← whole]
  simp only [Peer.elapsed, Peer.image, same]

theorem elapsed_refreshedBy (now : Instant) {q : Peer} (other : p.key ≠ b.selfKey)
    (found : a.get? p.key = some q) :
    (refreshedBy now a b p).elapsed now = min (p.elapsed now) (q.image.elapsed now) := by
  simp only [refreshedBy, if_neg other, found, Peer.supersedes, decide_eq_true_eq]
  split <;> omega

theorem refreshedBy_of_none (absent : a.get? p.key = none) : refreshedBy now a b p = p := by
  simp only [refreshedBy, absent, ite_self]

theorem refreshedBy_cases (now : Instant) (a b : Registry) (p : Peer) :
    refreshedBy now a b p = p ∨
      ∃ q, a.get? p.key = some q ∧ refreshedBy now a b p = q.image := by
  unfold refreshedBy
  split
  · exact .inl rfl
  · split
    · rename_i q found
      split
      · exact .inr ⟨q, found, rfl⟩
      · exact .inl rfl
    · exact .inl rfl

theorem whole_refreshedBy (whole : p.generated.nanos = 0) :
    (refreshedBy now a b p).generated.nanos = 0 := by
  rcases refreshedBy_cases now a b p with same | ⟨q, -, new⟩
  · rw [same]
    exact whole
  · rw [new]
    rfl

namespace Exchanged

variable {a₁ b₁ a₂ b₂ : Registry}

theorem selfKey (h : Exchanged now a b a₁ b₁) :
    a₁.selfKey = a.selfKey ∧ b₁.selfKey = b.selfKey := by
  simp only [selfKey_eq, h.owned, h.received, and_self]

theorem agree_both {p q : Peer} (there : Exchanged now a b a₁ b₁)
    (back : Exchanged now b₁ a₁ b₂ a₂) (first : k ≠ a.selfKey) (second : k ≠ b.selfKey)
    (ha : a.get? k = some p) (hb : b.get? k = some q) (wp : p.generated.nanos = 0)
    (wq : q.generated.nanos = 0) :
    ∃ p q, a₂.get? k = some p ∧ b₂.get? k = some q ∧ p.elapsed now = q.elapsed now := by
  have fore := there.initiator k
  have aft := there.receiver k
  have last := back.initiator k
  have refreshed := back.receiver k
  simp only [ha, hb, Option.map_some, Option.some_or] at fore aft
  simp only [fore, aft, Option.map_some, Option.some_or] at last refreshed
  obtain rfl := key_of_get? ha
  have key := key_of_get? hb
  have kept := elapsed_refreshedBy now (b := b) (p := q) (key ▸ second) (key ▸ ha)
  have won := elapsed_refreshedBy now (there.selfKey.1 ▸ first) aft
  rw [elapsed_image (whole_refreshedBy wq), kept, elapsed_image wp] at won
  refine ⟨_, _, refreshed, last, ?_⟩
  rw [won, kept, elapsed_image wp]
  omega

theorem agree_initiator {p : Peer} (there : Exchanged now a b a₁ b₁)
    (back : Exchanged now b₁ a₁ b₂ a₂) (first : k ≠ a.selfKey)
    (ha : a.get? k = some p) (hb : b.get? k = none) (wp : p.generated.nanos = 0) :
    ∃ p q, a₂.get? k = some p ∧ b₂.get? k = some q ∧ p.elapsed now = q.elapsed now := by
  have fore := there.initiator k
  have aft := there.receiver k
  have last := back.initiator k
  have refreshed := back.receiver k
  simp only [ha, hb, Option.map_none, Option.some_or, Option.none_or, Option.filter_some]
    at fore aft
  obtain rfl := key_of_get? ha
  by_cases heard : p.isDiscovered = true
  · simp only [heard, if_true, Option.map_some] at aft
    simp only [fore, aft, Option.map_some, Option.some_or] at last refreshed
    have won := elapsed_refreshedBy now (there.selfKey.1 ▸ first) aft
    rw [elapsed_image rfl, elapsed_image wp] at won
    refine ⟨_, _, refreshed, last, ?_⟩
    rw [won, elapsed_image wp]
    omega
  · have aft : b₁.get? p.key = none := by simpa [heard] using aft
    simp only [fore, aft, Option.map_some, Option.none_or, Option.some_or] at last refreshed
    rw [refreshedBy_of_none aft] at refreshed
    exact ⟨_, _, refreshed, last, (elapsed_image wp now).symm⟩

theorem agree_receiver {q : Peer} (there : Exchanged now a b a₁ b₁)
    (back : Exchanged now b₁ a₁ b₂ a₂) (first : k ≠ a.selfKey)
    (ha : a.get? k = none) (hb : b.get? k = some q) (wq : q.generated.nanos = 0) :
    ∃ p q, a₂.get? k = some p ∧ b₂.get? k = some q ∧ p.elapsed now = q.elapsed now := by
  have fore := there.initiator k
  have aft := there.receiver k
  have last := back.initiator k
  have refreshed := back.receiver k
  obtain rfl := key_of_get? hb
  simp only [ha, hb, Option.map_some, Option.some_or, Option.none_or,
    refreshedBy_of_none ha] at fore aft
  simp only [fore, aft, Option.map_some, Option.some_or] at last refreshed
  have won := elapsed_refreshedBy now (p := q.image) (there.selfKey.1 ▸ first) aft
  rw [elapsed_image wq] at won
  refine ⟨_, _, refreshed, last, ?_⟩
  rw [won]
  omega

theorem agree (there : Exchanged now a b a₁ b₁) (back : Exchanged now b₁ a₁ b₂ a₂)
    (whole : ∀ p, a.get? k = some p ∨ b.get? k = some p → p.generated.nanos = 0)
    (first : k ≠ a.selfKey) (second : k ≠ b.selfKey) (held : k ∈ a.keys ∨ k ∈ b.keys) :
    ∃ p q, a₂.get? k = some p ∧ b₂.get? k = some q ∧ p.elapsed now = q.elapsed now := by
  cases ha : a.get? k with
  | some p =>
      cases hb : b.get? k with
      | some q =>
          exact there.agree_both back first second ha hb (whole p (.inl ha)) (whole q (.inr hb))
      | none => exact there.agree_initiator back first ha hb (whole p (.inl ha))
  | none =>
      cases hb : b.get? k with
      | some q => exact there.agree_receiver back first ha hb (whole q (.inr hb))
      | none => simp [mem_keys_iff_isSome, ha, hb] at held

theorem keys_iff (there : Exchanged now a b a₁ b₁) (back : Exchanged now b₁ a₁ b₂ a₂) (k : Key) :
    (k ∈ a₂.keys ↔ k ∈ a.keys ∨ k ∈ b.keys) ∧ (k ∈ b₂.keys ↔ k ∈ a.keys ∨ k ∈ b.keys) := by
  have fore := there.initiator k
  have aft := there.receiver k
  have last := back.initiator k
  have refreshed := back.receiver k
  simp only [mem_keys_iff_isSome, last, refreshed, Option.isSome_or, Option.isSome_map, fore, aft]
  cases a.get? k <;> cases b.get? k <;> simp

theorem copy_initiator (there : Exchanged now a b a₁ b₁) (back : Exchanged now b₁ a₁ b₂ a₂)
    (apart : a.selfKey ≠ b.selfKey) :
    ∃ q, b₂.get? a.selfKey = some q ∧ q.elapsed now ≤ a.owned.image.elapsed now := by
  have own := get?_selfKey a
  have fore := there.initiator a.selfKey
  have aft := there.receiver a.selfKey
  have last := back.initiator a.selfKey
  simp only [own, Option.some_or, Option.filter_some] at fore aft
  cases hb : b.get? a.selfKey with
  | some q =>
      have key := key_of_get? hb
      have kept := elapsed_refreshedBy now (b := b) (p := q) (key ▸ apart) (key ▸ own)
      simp only [hb, Option.map_some, Option.some_or] at aft
      simp only [aft, Option.some_or] at last
      exact ⟨_, last, by rw [kept]; omega⟩
  | none =>
      simp only [hb, Option.map_none, Option.none_or] at aft
      split at aft
      all_goals
        simp only [fore, aft, Option.map_some, Option.map_none, Option.some_or, Option.none_or]
          at last
        exact ⟨_, last, Int.le_refl _⟩

theorem copy_receiver (there : Exchanged now a b a₁ b₁) (back : Exchanged now b₁ a₁ b₂ a₂)
    (apart : a.selfKey ≠ b.selfKey) :
    ∃ p, a₂.get? b.selfKey = some p ∧ p.elapsed now ≤ b.owned.image.elapsed now := by
  have own := get?_selfKey b₁
  rw [there.selfKey.2, there.received] at own
  have fore := there.initiator b.selfKey
  have refreshed := back.receiver b.selfKey
  rw [get?_selfKey b] at fore
  obtain ⟨x, hx⟩ : ∃ x, a₁.get? b.selfKey = some x := by
    rw [fore]
    cases a.get? b.selfKey <;> simp
  have key := key_of_get? hx
  have other : x.key ≠ a₁.selfKey := by
    rw [key, there.selfKey.1]
    exact apart.symm
  have kept := elapsed_refreshedBy now (a := b₁) other (key ▸ own)
  simp only [hx, Option.map_some, Option.some_or] at refreshed
  exact ⟨_, refreshed, by rw [kept]; omega⟩

theorem wireValid (h : Exchanged now a b a₁ b₁) (first : a.WireValid) (second : b.WireValid) :
    a₁.WireValid ∧ b₁.WireValid := by
  have onA {k : Key} {p : Peer} (found : a.get? k = some p) : p.WireValid :=
    first p (get?_eq_some_iff.mp found).1
  have onB {k : Key} {p : Peer} (found : b.get? k = some p) : p.WireValid :=
    second p (get?_eq_some_iff.mp found).1
  constructor
  · intro p hp
    have found := h.initiator p.key
    rw [get?_eq_some_iff.mpr ⟨hp, rfl⟩, eq_comm, Option.or_eq_some_iff, Option.map_eq_some_iff]
      at found
    rcases found with old | ⟨-, q, hq, rfl⟩
    · exact onA old
    · exact (onB hq).image
  · intro p hp
    have found := h.receiver p.key
    rw [get?_eq_some_iff.mpr ⟨hp, rfl⟩, eq_comm, Option.or_eq_some_iff, Option.map_eq_some_iff,
      Option.map_eq_some_iff] at found
    rcases found with ⟨q, hq, e⟩ | ⟨-, q, hq, rfl⟩
    · rcases refreshedBy_cases now a b q with same | ⟨x, hx, new⟩
      · rw [← e, same]
        exact onB hq
      · rw [← e, new]
        exact (onA hx).image
    · exact (onA (Option.filter_eq_some_iff.mp hq).1).image

end Exchanged

end Registry

theorem Network.exchanged {size : Nat} {w after : Network size} {i j : Fin size} {target : Target}
    {report : ExchangeReport} (apart : i ≠ j)
    (served : (w.routes.lookup target.address).map Route.handler = some (.node j))
    (initiator : (w.member i).registry.WireValid) (receiver : (w.member j).registry.WireValid)
    (done : w.exchange i target = (after, .ok report)) :
    Registry.Exchanged w.clock (w.member i).registry (w.member j).registry
        (after.member i).registry (after.member j).registry ∧
      after.clock = w.clock ∧ after.routes = w.routes := by
  obtain ⟨traded, clock, routes⟩ := exchange_traded apart served done
  exact ⟨traded.exchanged initiator receiver, clock, routes⟩

theorem Network.exchange_back {size : Nat} {w between after : Network size} {i j : Fin size}
    {target target' : Target} {report report' : ExchangeReport} (apart : i ≠ j)
    (served : (w.routes.lookup target.address).map Route.handler = some (.node j))
    (served' : (w.routes.lookup target'.address).map Route.handler = some (.node i))
    (initiator : (w.member i).registry.WireValid) (receiver : (w.member j).registry.WireValid)
    (whole : ∀ p ∈ (w.member i).registry.list ++ (w.member j).registry.list,
      p.key ≠ (w.member i).registry.selfKey → p.key ≠ (w.member j).registry.selfKey →
        p.generated.nanos = 0)
    (forth : w.exchange i target = (between, .ok report))
    (back : between.exchange j target' = (after, .ok report')) :
    let a := (w.member i).registry
    let b := (w.member j).registry
    let a' := (after.member i).registry
    let b' := (after.member j).registry
    (∀ k, (k ∈ a'.keys ↔ k ∈ a.keys ∨ k ∈ b.keys) ∧ (k ∈ b'.keys ↔ k ∈ a.keys ∨ k ∈ b.keys)) ∧
      (∀ k, k ≠ a.selfKey → k ≠ b.selfKey → k ∈ a.keys ∨ k ∈ b.keys →
        ∃ p q, a'.get? k = some p ∧ b'.get? k = some q ∧ p.elapsed w.clock = q.elapsed w.clock) ∧
      (a.selfKey ≠ b.selfKey →
        (∃ q x, b'.get? a.selfKey = some q ∧ (Record.ofPeer w.clock a.owned).toPeer = .ok x ∧
          q.elapsed w.clock ≤ x.elapsed w.clock) ∧
        ∃ p x, a'.get? b.selfKey = some p ∧ (Record.ofPeer w.clock b.owned).toPeer = .ok x ∧
          p.elapsed w.clock ≤ x.elapsed w.clock) := by
  intro a b a' b'
  obtain ⟨first, clock, routes⟩ := exchanged apart served initiator receiver forth
  obtain ⟨initiator', receiver'⟩ := first.wireValid initiator receiver
  obtain ⟨second, -, -⟩ := exchanged apart.symm (routes ▸ served') receiver' initiator' back
  rw [clock] at second
  refine ⟨first.keys_iff second, fun k one two held => ?_, fun distinct => ?_⟩
  · refine first.agree second (fun p found => ?_) one two held
    rcases found with found | found
    all_goals
      obtain ⟨member, rfl⟩ := Registry.get?_eq_some_iff.mp found
      exact whole p (List.mem_append.mpr (by first | exact .inl member | exact .inr member)) one two
  · obtain ⟨q, hq, fresh⟩ := first.copy_initiator second distinct
    obtain ⟨p, hp, fresh'⟩ := first.copy_receiver second distinct
    exact ⟨⟨q, _, hq, Wire.toPeer_ofPeer (initiator _ (List.mem_cons_self ..)) _, fresh⟩,
      p, _, hp, Wire.toPeer_ofPeer (receiver _ (List.mem_cons_self ..)) _, fresh'⟩

theorem Network.exchange_back_pair :
    let host (n : UInt8) : Peer :=
      ⟨⟨[n]⟩, .v4 ⟨10, 0, 0, n⟩ 7000, .ofSeconds 100, true, none⟩
    let third (s : Int) := Peer.stub ⟨[3]⟩ (.v4 ⟨10, 0, 0, 3⟩ 7000) (.ofSeconds s)
    let now := Instant.ofSeconds 200
    let a := ((Registry.ofSelf (host 1)).offer now true (third 90)).1
    let b := ((Registry.ofSelf (host 2)).offer now true (third 95)).1
    ∃ between after report report',
      (pair now a b).exchange 0 (.seed (host 2).address) = (between, .ok report) ∧
        between.exchange 1 (.seed (host 1).address) = (after, .ok report') ∧
        (∀ k, k ∈ (after.member 1).registry.keys ↔ k ∈ a.keys ∨ k ∈ b.keys) ∧
        ∃ p q, (after.member 0).registry.get? ⟨[3]⟩ = some p ∧
          (after.member 1).registry.get? ⟨[3]⟩ = some q ∧ p.elapsed now = q.elapsed now := by
  intro host third now a b
  obtain ⟨between, report, forth, routes⟩ := @exchange_succeeds 2 (pair now a b) 0 1
    (.seed (host 2).address) _ (by decide) rfl rfl rfl
  obtain ⟨after, report', back, -⟩ := @exchange_succeeds 2 between 1 0
    (.seed (host 1).address) _ (by decide) ((routes _).trans rfl) rfl rfl
  obtain ⟨keys, agree, -⟩ := @exchange_back 2 (pair now a b) between after 0 1
    (.seed (host 2).address) (.seed (host 1).address) report report' (by decide) rfl rfl (by decide)
    (by decide) (by decide) forth back
  exact ⟨between, after, report, report', forth, back, fun k => (keys k).2,
    agree ⟨[3]⟩ (by decide) (by decide) (by decide)⟩

end Epidemic
