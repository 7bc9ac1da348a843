import Epidemic.Proofs.Exchange.Outcome
import Epidemic.Proofs.Exchange.Traded

namespace Epidemic

open Wire (Record Syn SynAck Ack)

namespace Registry

variable {now later : Instant} {a b a' b' : Registry} {k : Key}

def Passable (r : Registry) : Prop :=
  ∀ p ∈ r.list, p.WireValid ∧ p.isDiscovered = true

instance (r : Registry) : Decidable r.Passable :=
  inferInstanceAs (Decidable (∀ p ∈ r.list, p.WireValid ∧ p.isDiscovered = true))

theorem Passable.wireValid (h : a.Passable) : a.WireValid :=
  fun p hp => (h p hp).1

theorem Passable.of_source (ha : a.Passable) (hb : b.Passable) {p : Peer}
    (source : a.get? k = some p ∨ b.relayed? k = some p) :
    p.WireValid ∧ p.isDiscovered = true := by
  rcases source with held | told
  · exact ha p (get?_eq_some_iff.mp held).1
  · obtain ⟨q, held, read⟩ := Option.bind_eq_some_iff.mp told
    obtain ⟨-, heard⟩ := hb q (get?_eq_some_iff.mp held).1
    exact ⟨(Peer.accepted_of_relayed? read).valid, (Peer.isDiscovered_of_relayed? read).trans heard⟩

namespace Traded

theorem passable (h : Traded now later a b a' b') (ha : a.Passable) (hb : b.Passable) :
    a'.Passable ∧ b'.Passable := by
  constructor
  · intro p hp
    exact ha.of_source hb (h.initiator_source (get?_eq_some_iff.mpr ⟨hp, rfl⟩))
  · intro p hp
    exact hb.of_source ha (h.receiver_source (get?_eq_some_iff.mpr ⟨hp, rfl⟩))

theorem mem_keys_initiator (h : Traded now later a b a' b') (ha : a.Passable) (hb : b.Passable) :
    k ∈ a'.keys ↔ k ∈ a.keys ∨ k ∈ b.keys := by
  simp only [mem_keys_iff_isSome]
  by_cases own : k = a.selfKey
  · subst own
    rw [h.initiator_own, get?_selfKey]
    simp
  · rw [h.initiator k own, taught, ha.wireValid.relayed?, hb.wireValid.relayed?]
    cases held : a.get? k with
    | none => cases b.get? k <;> simp [met]
    | some p => simp [met]

theorem mem_keys_receiver (h : Traded now later a b a' b') (ha : a.Passable) :
    k ∈ b'.keys ↔ k ∈ a.keys ∨ k ∈ b.keys := by
  simp only [mem_keys_iff_isSome]
  by_cases own : k = b.selfKey
  · subst own
    rw [h.receiver_own, get?_selfKey]
    simp
  · rw [h.receiver k own, handed, ha.wireValid.relayed?]
    cases held : a.get? k with
    | none => cases b.get? k <;> simp [met]
    | some p =>
        have heard := (ha p (get?_eq_some_iff.mp held).1).2
        cases b.get? k with
        | none => simp [met, heard, Option.filter_some]
        | some q =>
            by_cases fresh : p.image.supersedes q now = true
            · simp [met, fresh]
            · simp [met, fresh]

end Traded

end Registry

namespace Network

variable {size : Nat} {w after : Network size} {i j hub : Fin size} {target : Target}
  {route : Route size} {report : ExchangeReport} {stage : Stage size}

inductive Ends (i : Fin size) :
    Network size → Stage size → Network size → ExchangeReport → Prop where
  | ended {w : Network size} {report : ExchangeReport} : Ends i w (.ended (.ok report)) w report
  | waited {w after : Network size} {p : Pending size} {report : ExchangeReport} (now : Instant)
      (rest : Ends i ({ w with clock := now }.resume i p).1 ({ w with clock := now }.resume i p).2
        after report) :
      Ends i w (.waiting p) after report

theorem ends_of_finish (done : w.finishExchange i stage = (after, .ok report)) :
    Ends i w stage after report := by
  fun_induction finishExchange w i stage with
  | case1 w outcome =>
      cases done
      exact .ended
  | case2 w p _ ih => exact .waited w.clock (ih done)

theorem ends_of_exchange (done : w.exchange i target = (after, .ok report)) :
    Ends i (w.openExchange 0 i target).1 (w.openExchange 0 i target).2 after report :=
  ends_of_finish ((finish_openExchange ..).trans (trade_of_exchange done))

namespace Ends

theorem heard
    (h : Ends i (w.openExchange 0 i target).1 (w.openExchange 0 i target).2 after report) :
    ∃ route time now, w.route target.address = .ok route ∧
      let next := ({ w.opened i target with clock := now } : Network size).hearAnswer time i target
        route (w.member i).registry.owned ((w.member i).registry.opening w.clock target)
      Ends i next.1 next.2 after report := by
  cases reached : w.route target.address with
  | error e =>
      simp only [openExchange, placeSyn_of_error reached] at h
      cases h
  | ok route =>
      by_cases prompt : route.synDelay = 0
      · simp only [openExchange, placeSyn_of_ok reached, if_pos prompt] at h
        exact ⟨route, 0, w.clock, rfl, h⟩
      · simp only [openExchange, placeSyn_of_ok reached, if_neg prompt] at h
        cases h with
        | waited now rest => exact ⟨route, _, now, rfl, rest⟩

theorem closed (served : (w.routes.lookup target.address).map Route.handler = some (.node j))
    {time : Nat} {learned : ExchangeReport} {ack : Option Ack}
    (h : Ends i (w.closeExchange time target learned ack).1
      (w.closeExchange time target learned ack).2 after report) :
    ∃ later, after.routes = w.routes ∧ after.nodes =
      (match ack with
        | none => w
        | some body => w.setMember j ((w.member j).absorb later body)).nodes := by
  cases ack with
  | none =>
      simp only [closeExchange] at h
      cases h
      exact ⟨w.clock, rfl, rfl⟩
  | some body =>
      cases reached : w.route target.address with
      | error e =>
          simp only [closeExchange, placeAck_of_error reached] at h
          cases h
      | ok route =>
          have handler := handler_of_route served reached
          by_cases prompt : route.ackDelay = 0
          · simp only [closeExchange, placeAck_of_ok reached, if_pos prompt,
              serveAck_of_node _ handler] at h
            cases h
            exact ⟨w.clock, rfl, rfl⟩
          · simp only [closeExchange, placeAck_of_ok reached, if_neg prompt] at h
            cases h with
            | waited now rest =>
                simp only [resume, serveAck_of_node _ handler] at rest
                cases rest
                exact ⟨now, rfl, rfl⟩

end Ends

theorem traded (apart : i ≠ j)
    (served : (w.routes.lookup target.address).map Route.handler = some (.node j))
    (h : Ends i (w.openExchange 0 i target).1 (w.openExchange 0 i target).2 after report) :
    (∃ now later, Registry.Traded now later (w.member i).registry (w.member j).registry
        (after.member i).registry (after.member j).registry) ∧
      after.routes = w.routes ∧
      ∀ l, l ≠ i → l ≠ j → after.member l = w.member l := by
  obtain ⟨route, time, now, reached, heard⟩ := h.heard
  obtain ⟨second, reply, answered⟩ : ∃ second reply, (w.member j).answer now
      ((w.member i).registry.opening w.clock target) = (second, reply) := ⟨_, _, rfl⟩
  obtain ⟨first, learned, ack, told⟩ : ∃ first learned ack, (w.member i).learn now target
      (w.member i).registry.owned reply = (first, learned, ack) := ⟨_, _, _, rfl⟩
  obtain ⟨left, alike, hear⟩ := hearAnswer_alike
    (w := { w.opened i target with clock := now }) apart (handler_of_route served reached) target
    time answered told
  simp only [hear] at heard
  have served' : ((left.setMember i first).routes.lookup target.address).map Route.handler =
      some (.node j) :=
    (congrArg (fun routes => (routes.lookup target.address).map Route.handler)
      alike.routes).trans served
  obtain ⟨later, routes, nodes⟩ := heard.closed served'
  have other : (left.setMember i first).member j = second :=
    (member_setMember_ne _ _ apart).trans ((alike.member j).trans (member_setMember ..))
  have outside : ∀ l, l ≠ i → l ≠ j → (left.setMember i first).member l = w.member l := by
    intro l hi hj
    rw [member_setMember_ne _ _ hi.symm, alike.member, member_setMember_ne _ _ hj.symm]
    rfl
  have stands (l : Fin size) : after.member l = (match ack with
      | none => left.setMember i first
      | some body => (left.setMember i first).setMember j
          (((left.setMember i first).member j).absorb later body)).member l := by
    rw [member, node, nodes]
    rfl
  refine ⟨⟨now, later, ?_⟩, routes.trans alike.routes, fun l hi hj => ?_⟩
  · have both := Member.traded later answered told
    rw [stands i, stands j, other]
    cases ack with
    | none => simpa [other] using both
    | some body => simpa [member_setMember_ne _ _ apart.symm] using both
  · rw [stands l]
    cases ack with
    | none => exact outside l hi hj
    | some body => exact (member_setMember_ne _ _ hj.symm).trans (outside l hi hj)

inductive Sweep (hub : Fin size) : List (Fin size) → Network size → Network size → Prop where
  | done {w : Network size} : Sweep hub [] w w
  | contact {i : Fin size} {is : List (Fin size)} {w between after : Network size}
      {target : Target} {report : ExchangeReport} (now : Instant)
      (served : (w.routes.lookup target.address).map Route.handler = some (.node hub))
      (talk : Ends i (({ w with clock := now } : Network size).openExchange 0 i target).1
        (({ w with clock := now } : Network size).openExchange 0 i target).2 between report)
      (rest : Sweep hub is between after) : Sweep hub (i :: is) w after

def keys (w : Network size) (l : Fin size) : List Key :=
  (w.member l).registry.keys

def Passable (w : Network size) : Prop :=
  ∀ l, (w.member l).registry.Passable

instance (w : Network size) : Decidable w.Passable :=
  inferInstanceAs (Decidable (∀ l, (w.member l).registry.Passable))

variable {between : Network size} {is : List (Fin size)} {now : Instant} {k : Key}

structure Contacted (hub i : Fin size) (w after : Network size) : Prop where
  passable : after.Passable
  initiator : ∀ k, k ∈ after.keys i ↔ k ∈ w.keys i ∨ k ∈ w.keys hub
  receiver : ∀ k, k ∈ after.keys hub ↔ k ∈ w.keys i ∨ k ∈ w.keys hub
  others : ∀ l, l ≠ i → l ≠ hub → after.keys l = w.keys l

theorem contacted (apart : i ≠ hub) (passable : w.Passable)
    (served : (w.routes.lookup target.address).map Route.handler = some (.node hub))
    (talk : Ends i (({ w with clock := now } : Network size).openExchange 0 i target).1
      (({ w with clock := now } : Network size).openExchange 0 i target).2 after report) :
    Contacted hub i w after := by
  obtain ⟨⟨t, t', trade⟩, -, others⟩ := traded (w := { w with clock := now }) apart served talk
  have both := trade.passable (passable i) (passable hub)
  refine ⟨fun l => ?_, fun k => ?_, fun k => ?_, fun l hi hh => ?_⟩
  · by_cases hi : l = i
    · exact hi ▸ both.1
    · by_cases hh : l = hub
      · exact hh ▸ both.2
      · rw [others l hi hh]
        exact passable l
  · exact trade.mem_keys_initiator (passable i) (passable hub)
  · exact trade.mem_keys_receiver (passable i)
  · exact congrArg (·.registry.keys) (others l hi hh)

namespace Contacted

theorem grows (h : Contacted hub i w after) (l : Fin size) (hk : k ∈ w.keys l) :
    k ∈ after.keys l := by
  by_cases hi : l = i
  · subst hi
    exact (h.initiator k).mpr (.inl hk)
  · by_cases hh : l = hub
    · subst hh
      exact (h.receiver k).mpr (.inr hk)
    · exact h.others l hi hh ▸ hk

theorem confined (h : Contacted hub i w after) (l : Fin size) (hk : k ∈ after.keys l) :
    ∃ j, k ∈ w.keys j := by
  by_cases hi : l = i
  · subst hi
    exact ((h.initiator k).mp hk).elim (⟨_, ·⟩) (⟨_, ·⟩)
  · by_cases hh : l = hub
    · subst hh
      exact ((h.receiver k).mp hk).elim (⟨_, ·⟩) (⟨_, ·⟩)
    · exact ⟨l, h.others l hi hh ▸ hk⟩

end Contacted

structure Swept (hub : Fin size) (is : List (Fin size)) (w after : Network size) : Prop where
  passable : after.Passable
  grows : ∀ l k, k ∈ w.keys l → k ∈ after.keys l
  confined : ∀ l k, k ∈ after.keys l → ∃ j, k ∈ w.keys j
  gathered : ∀ i ∈ is, ∀ k, k ∈ w.keys i → k ∈ after.keys hub
  spread : ∀ i ∈ is, ∀ k, k ∈ w.keys hub → k ∈ after.keys i

theorem Contacted.swept (first : Contacted hub i w between) (rest : Swept hub is between after) :
    Swept hub (i :: is) w after where
  passable := rest.passable
  grows l k hk := rest.grows l k (first.grows l hk)
  confined l k hk := by
    obtain ⟨j, hj⟩ := rest.confined l k hk
    exact first.confined j hj
  gathered := by
    intro j hj k hk
    rcases List.mem_cons.mp hj with rfl | later
    · exact rest.grows hub k ((first.receiver k).mpr (.inl hk))
    · exact rest.gathered j later k (first.grows j hk)
  spread := by
    intro j hj k hk
    rcases List.mem_cons.mp hj with rfl | later
    · exact rest.grows j k ((first.initiator k).mpr (.inr hk))
    · exact rest.spread j later k (first.grows hub hk)

theorem Sweep.swept (h : Sweep hub is w after) (passable : w.Passable) (apart : ∀ i ∈ is, i ≠ hub) :
    Swept hub is w after := by
  induction h with
  | done =>
      refine ⟨passable, fun _ _ hk => hk, fun l _ hk => ⟨l, hk⟩, ?_, ?_⟩
      · intro i hi
        cases hi
      · intro i hi
        cases hi
  | contact now served talk _ ih =>
      have first := contacted (apart _ (List.mem_cons_self ..)) passable served talk
      exact first.swept (ih first.passable fun i hi => apart i (List.mem_cons_of_mem _ hi))

theorem sweep_twice {is is' : List (Fin size)} (passable : w.Passable)
    (all : ∀ i, i ∈ is ↔ i ≠ hub) (all' : ∀ i, i ∈ is' ↔ i ≠ hub)
    (there : Sweep hub is w between) (again : Sweep hub is' between after) (l : Fin size) :
    (∀ k, k ∈ after.keys l ↔ ∃ j, k ∈ w.keys j) ∧ (after.keys l).Nodup := by
  have first := there.swept passable fun i hi => (all i).mp hi
  have second := again.swept first.passable fun i hi => (all' i).mp hi
  have gathered : ∀ j k, k ∈ w.keys j → k ∈ between.keys hub := by
    intro j k hk
    by_cases e : j = hub
    · exact first.grows hub k (e ▸ hk)
    · exact first.gathered j ((all j).mpr e) k hk
  refine ⟨fun k => ⟨fun hk => ?_, fun ⟨j, hk⟩ => ?_⟩, Registry.nodup_keys _⟩
  · obtain ⟨j, hj⟩ := second.confined l k hk
    exact first.confined j k hj
  · by_cases e : l = hub
    · exact second.grows l k (e ▸ gathered j k hk)
    · exact second.spread l ((all' l).mpr e) k (gathered j k hk)

theorem exists_sweep (reached : w.route target.address = .ok route)
    (served : route.handler = .node hub) (uncut : route.cutAfterSyn = false)
    (reading : Fin size → Instant) (is : List (Fin size)) (apart : ∀ i ∈ is, i ≠ hub) :
    ∃ after, Sweep hub is w after ∧ after.route target.address = .ok route := by
  induction is generalizing w with
  | nil => exact ⟨w, .done, reached⟩
  | cons i is ih =>
      have known : (w.routes.lookup target.address).map Route.handler = some (.node hub) := by
        rw [lookup_of_route reached, Option.map_some, served]
      obtain ⟨between, report, done, routes⟩ := exchange_succeeds
        (w := { w with clock := reading i }) (apart i (List.mem_cons_self ..)) reached served uncut
      obtain ⟨after, rest, kept⟩ := ih ((routes _).trans reached)
        fun i hi => apart i (List.mem_cons_of_mem _ hi)
      exact ⟨after, .contact (reading i) known (ends_of_exchange done) rest, kept⟩

def star (nodes : Vector Node size) (hub : Fin size) (address : Endpoint) : Network size where
  clock := .ofSeconds 0
  nodes := nodes
  routes := [(address, { handler := .node hub, synDelay := 5, ackDelay := 5 })]

theorem sweep_twice_star :
    let host (n : UInt8) : Peer :=
      ⟨⟨[n]⟩, .v4 ⟨10, 0, 0, n⟩ 7000, .ofSeconds 100, true,
        some { PeerState.bootstrapping "1" 2 with status := .ok }⟩
    let node (n : UInt8) : Node := ⟨⟨.ofSelf (host n), .log⟩, none, .fixed 0, {}, {}⟩
    let start := star #v[node 1, node 2, node 3] 0 (host 1).address
    ∃ between after, Sweep 0 [1, 2] start between ∧ Sweep 0 [2, 1] between after ∧
      ∀ l, ⟨[1]⟩ ∈ after.keys l ∧ ⟨[2]⟩ ∈ after.keys l ∧ ⟨[3]⟩ ∈ after.keys l ∧
        (after.keys l).Nodup := by
  intro host node start
  -- The second contact of either sweep finds the clock set back.
  let reading (l : Fin 3) : Instant := .ofSeconds (500 - 150 * l)
  have reached : start.route (Target.seed (host 1).address).address =
      .ok { handler := .node 0, synDelay := 5, ackDelay := 5 } := rfl
  obtain ⟨between, there, kept⟩ := exists_sweep reached rfl rfl reading [1, 2] (by decide)
  obtain ⟨after, again, -⟩ := exists_sweep kept rfl rfl (fun l => reading l.rev) [2, 1] (by decide)
  have known := sweep_twice (w := start) (by decide) (by decide) (by decide) there again
  refine ⟨between, after, there, again, fun l => ?_⟩
  exact ⟨((known l).1 _).mpr ⟨0, by decide⟩, ((known l).1 _).mpr ⟨1, by decide⟩,
    ((known l).1 _).mpr ⟨2, by decide⟩, (known l).2⟩

end Network

end Epidemic
