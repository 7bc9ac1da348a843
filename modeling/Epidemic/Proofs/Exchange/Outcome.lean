import Epidemic.Proofs.Exchange.Effect
import Epidemic.Proofs.Exchange.Traded

namespace Epidemic.Network

open Wire (Record Syn SynAck Ack)

variable {size : Nat} {w after : Network size} {i j : Fin size} {target : Target}
  {route : Route size} {report : ExchangeReport}

structure Alike (w w' : Network size) : Prop where
  clock : w'.clock = w.clock
  nodes : w'.nodes = w.nodes
  routes : w'.routes = w.routes

namespace Alike

variable {w' w'' : Network size}

theorem refl (w : Network size) : Alike w w :=
  ⟨rfl, rfl, rfl⟩

theorem trans (h : Alike w w') (h' : Alike w' w'') : Alike w w'' :=
  ⟨h'.clock.trans h.clock, h'.nodes.trans h.nodes, h'.routes.trans h.routes⟩

theorem node (h : Alike w w') (l : Fin size) : w'.node l = w.node l := by
  rw [Network.node, h.nodes, Network.node]

theorem member (h : Alike w w') (l : Fin size) : w'.member l = w.member l := by
  rw [Network.member, h.node, Network.member]

theorem setMember (h : Alike w w') (l : Fin size) (m : Member) :
    Alike (w.setMember l m) (w'.setMember l m) := by
  refine ⟨h.clock, ?_, h.routes⟩
  simp only [Network.setMember, Network.setNode, h.nodes, h.node]

end Alike

theorem lookup_of_route {address : Endpoint} (reached : w.route address = .ok route) :
    w.routes.lookup address = some route := by
  unfold Network.route at reached
  split at reached
  · cases reached
  · split at reached
    · rename_i found
      cases reached
      exact found
    · cases reached

theorem handler_of_route {handler : Handler size} {address : Endpoint}
    (served : (w.routes.lookup address).map Route.handler = some handler)
    (reached : w.route address = .ok route) : route.handler = handler := by
  simpa [lookup_of_route reached] using served

theorem alike_serveSyn (served : route.handler = .node j) (address : Endpoint) (body : Syn) :
    Alike (w.setMember j ((w.member j).answer w.clock body).1) (w.serveSyn address route body).1 ∧
      (w.serveSyn address route body).2 = ((w.member j).answer w.clock body).2 := by
  simp only [serveSyn, answerSyn, served]
  split <;> exact ⟨⟨rfl, rfl, rfl⟩, trivial⟩

theorem conclude_ok {ack : Option Ack} {learned : ExchangeReport}
    (served : (w.routes.lookup target.address).map Route.handler = some (.node j))
    (done : w.conclude target learned ack = (after, .ok report)) :
    report = learned ∧
      Alike (match ack with
        | none => w
        | some body => w.setMember j ((w.member j).absorb w.clock body)) after := by
  cases ack with
  | none =>
      cases done
      exact ⟨rfl, .refl w⟩
  | some body =>
      cases reached : w.route target.address with
      | error e =>
          rw [conclude_of_error reached] at done
          cases done
      | ok route =>
          rw [conclude_of_ok reached, serveAck_of_node _ (handler_of_route served reached)] at done
          cases done
          exact ⟨rfl, rfl, rfl, rfl⟩

theorem trade_of_exchange (done : w.exchange i target = (after, .ok report)) :
    w.trade i target = (after, .ok report) := by
  rw [exchange_eq_trade] at done
  generalize w.trade i target = ended at done ⊢
  obtain ⟨stopped, e | r⟩ := ended
  · cases done
  · cases done
    rfl

theorem reached_of_exchange (done : w.exchange i target = (after, .ok report)) :
    ∃ route, w.route target.address = .ok route := by
  cases reached : w.route target.address with
  | ok route => exact ⟨route, rfl⟩
  | error e =>
      have ended := trade_of_exchange done
      rw [trade_of_error reached] at ended
      cases ended

theorem hearAnswer_alike (apart : i ≠ j) (served : route.handler = .node j) (target : Target)
    (time : Nat) {owned : Peer} {body : Syn} {first second : Member} {answer : SynAck}
    {ack : Option Ack}
    (answered : (w.member j).answer w.clock body = (second, answer))
    (learned : (w.member i).learn w.clock target owned answer = (first, report, ack)) :
    ∃ heard, Alike (w.setMember j second) heard ∧
      w.hearAnswer time i target route owned body =
        (heard.setMember i first).closeExchange time target report ack := by
  obtain ⟨alike, same⟩ := alike_serveSyn (w := w) served target.address body
  rw [answered] at alike same
  generalize answering : w.serveSyn target.address route body = heard at alike same
  have asked : heard.1.member i = w.member i :=
    (alike.member i).trans (member_setMember_ne _ _ apart.symm)
  have clock : heard.1.clock = w.clock := alike.clock
  refine ⟨heard.1, alike, ?_⟩
  simp only [hearAnswer, answering, asked, clock, same, learned]

theorem trade_alike (apart : i ≠ j) (reached : w.route target.address = .ok route)
    (served : route.handler = .node j) :
    let answered := (w.member j).answer w.clock ((w.member i).registry.opening w.clock target)
    let learned := (w.member i).learn w.clock target (w.member i).registry.owned answered.2
    ∃ heard, Alike (w.setMember j answered.1) heard ∧
      w.trade i target = (heard.setMember i learned.1).conclude target learned.2.1 learned.2.2 := by
  intro answered learned
  obtain ⟨alike, same⟩ := alike_serveSyn (w := w.opened i target) served target.address
    ((w.member i).registry.opening w.clock target)
  have ended := trade_of_ok reached i
  generalize (w.opened i target).serveSyn target.address route
    ((w.member i).registry.opening w.clock target) = heard at alike same ended
  obtain ⟨heard, answer⟩ := heard
  obtain rfl : answer = answered.2 := same
  have asked : heard.member i = w.member i :=
    (alike.member i).trans (member_setMember_ne _ _ apart.symm)
  have clock : heard.clock = w.clock := alike.clock
  simp only [asked, clock] at ended
  exact ⟨heard, ⟨alike.clock, alike.nodes, alike.routes⟩, ended⟩

theorem exchange_ok (apart : i ≠ j)
    (served : (w.routes.lookup target.address).map Route.handler = some (.node j))
    (done : w.exchange i target = (after, .ok report)) :
    let answered := (w.member j).answer w.clock ((w.member i).registry.opening w.clock target)
    let learned := (w.member i).learn w.clock target (w.member i).registry.owned answered.2
    report = learned.2.1 ∧ after.member i = learned.1 ∧
      (after.member j = match learned.2.2 with
        | none => answered.1
        | some body => answered.1.absorb w.clock body) ∧
      after.clock = w.clock ∧ after.routes = w.routes ∧
      ∀ l, l ≠ i → l ≠ j → after.node l = w.node l := by
  intro answered learned
  obtain ⟨route, reached⟩ := reached_of_exchange done
  obtain ⟨heard, alike, ended⟩ := trade_alike apart reached (handler_of_route served reached)
  have known : ((heard.setMember i learned.1).routes.lookup target.address).map
      Route.handler = some (.node j) :=
    (congrArg (fun routes => (routes.lookup target.address).map Route.handler)
      alike.routes).trans served
  obtain ⟨same, close⟩ := conclude_ok known (ended.symm.trans (trade_of_exchange done))
  have outside : ∀ l, l ≠ i → l ≠ j → (heard.setMember i learned.1).node l = w.node l := by
    intro l hi hj
    rw [node_setMember_ne _ _ hi.symm, alike.node, node_setMember_ne _ _ hj.symm]
  have other : (heard.setMember i learned.1).member j = answered.1 :=
    (member_setMember_ne _ _ apart).trans ((alike.member j).trans (member_setMember ..))
  refine ⟨same, ?_⟩
  revert close
  rw [other]
  cases learned.2.2 with
  | none =>
      intro close
      exact ⟨(close.member i).trans (member_setMember ..), (close.member j).trans other,
        close.clock.trans alike.clock, close.routes.trans alike.routes,
        fun l hi hj => (close.node l).trans (outside l hi hj)⟩
  | some body =>
      intro close
      refine ⟨?_, ?_, close.clock.trans alike.clock, close.routes.trans alike.routes,
        fun l hi hj => ?_⟩
      · exact (close.member i).trans
          ((member_setMember_ne _ _ apart.symm).trans (member_setMember ..))
      · rw [close.member j, member_setMember]
        exact congrArg (fun t => answered.1.absorb t body) alike.clock
      · rw [close.node, node_setMember_ne _ _ hj.symm]
        exact outside l hi hj

theorem exchange_succeeds (apart : i ≠ j) (reached : w.route target.address = .ok route)
    (served : route.handler = .node j) (uncut : route.cutAfterSyn = false) :
    ∃ after report, w.exchange i target = (after, .ok report) ∧
      ∀ address, after.route address = w.route address := by
  obtain ⟨second, answer, answered⟩ : ∃ second answer, (w.member j).answer w.clock
      ((w.member i).registry.opening w.clock target) = (second, answer) := ⟨_, _, rfl⟩
  obtain ⟨first, report, ack, learned⟩ : ∃ first report ack, (w.member i).learn w.clock target
      (w.member i).registry.owned answer = (first, report, ack) := ⟨_, _, _, rfl⟩
  rw [exchange_eq apart reached served uncut answered learned]
  cases ack <;> exact ⟨_, _, rfl, fun _ => rfl⟩

theorem exchange_traded (apart : i ≠ j)
    (served : (w.routes.lookup target.address).map Route.handler = some (.node j))
    (done : w.exchange i target = (after, .ok report)) :
    Registry.Traded w.clock w.clock (w.member i).registry (w.member j).registry
        (after.member i).registry (after.member j).registry ∧
      after.clock = w.clock ∧ after.routes = w.routes := by
  obtain ⟨-, first, second, clock, routes, -⟩ := exchange_ok apart served done
  generalize answered : (w.member j).answer w.clock
    ((w.member i).registry.opening w.clock target) = heard at first second
  obtain ⟨heard, reply⟩ := heard
  generalize learned : (w.member i).learn w.clock target (w.member i).registry.owned reply = told
    at first second
  obtain ⟨told, learned', ack⟩ := told
  refine ⟨?_, clock, routes⟩
  rw [first, second]
  exact Member.traded w.clock answered learned

end Epidemic.Network
