import Epidemic.Proofs.Exchange.Outcome
import Epidemic.Proofs.Exchange.Repeated

namespace Epidemic

open Wire (Syn SynAck Ack Request)

variable {σ : Type}

def Carrier.recorded (c : Carrier σ) : Carrier (σ × List (Endpoint × Request)) where
  clock s := c.clock s.1
  synchronize address body s :=
    let (answer, after) := c.synchronize address body s.1
    (answer, after, s.2 ++ [(address, .synchronize body)])
  acknowledge address body s :=
    let (taken, after) := c.acknowledge address body s.1
    (taken, after, s.2 ++ [(address, .acknowledge body)])

def Carrier.scripted (now : Instant) (heard : Except TransportError SynAck)
    (taken : Except TransportError Unit) : Carrier Unit where
  clock _ := now
  synchronize _ _ s := (heard, s)
  acknowledge _ _ s := (taken, s)

theorem Carrier.clock_recorded (c : Carrier σ) (s : σ × List (Endpoint × Request)) :
    c.recorded.clock s = c.clock s.1 := rfl

namespace Member

def close (m : Member) (c : Carrier σ) (target : Target) (s : σ) (report : ExchangeReport) :
    Option Ack → Member × Except RoundError ExchangeReport × σ
  | none => (m, .ok report, s)
  | some body =>
      match c.acknowledge target.address body s with
      | (.error e, s) => (m, .error (.network target.address e), s)
      | (.ok (), s) => (m, .ok report, s)

def exchange (m : Member) (c : Carrier σ) (target : Target) (s : σ) :
    Member × Except RoundError ExchangeReport × σ :=
  match c.synchronize target.address (m.registry.opening (c.clock s) target) s with
  | (.error e, s) => (m, .error (.network target.address e), s)
  | (.ok answer, s) =>
      let (after, report, ack) := m.learn (c.clock s) target m.registry.owned answer
      after.close c target s report ack

end Member

namespace Network

variable {size : Nat} {w : Network size} {i j : Fin size} {target : Target} {route : Route size}

theorem setMember_comm (w : Network size) (apart : i ≠ j) (m m' : Member) :
    (w.setMember i m).setMember j m' = (w.setMember j m').setMember i m := by
  have first : (w.setMember i m).node j = w.node j := node_setMember_ne w m apart
  have second : (w.setMember j m').node i = w.node i := node_setMember_ne w m' apart.symm
  rw [setMember, first, setMember.eq_1 (w.setMember j m'), second]
  exact setNode_comm w apart _ _

def Beyond (w : Network size) (i : Fin size) (address : Endpoint) : Prop :=
  (w.routes.lookup address).map Route.handler ≠ some (.node i)

instance (w : Network size) (i : Fin size) (address : Endpoint) : Decidable (w.Beyond i address) :=
  inferInstanceAs (Decidable (_ ≠ _))

theorem handler_ne_of_beyond {address : Endpoint} (beyond : w.Beyond i address)
    (reached : w.route address = .ok route) : route.handler ≠ .node i := by
  intro own
  exact beyond (by rw [lookup_of_route reached, Option.map_some, own])

theorem serveSyn_beyond (other : route.handler ≠ .node i) (address : Endpoint) (body : Syn) :
    (w.serveSyn address route body).1.member i = w.member i ∧
      (w.serveSyn address route body).1.routes = w.routes := by
  have answered : (w.answerSyn route.handler body).1.member i = w.member i ∧
      (w.answerSyn route.handler body).1.routes = w.routes := by
    cases served : route.handler with
    | prepared answer => exact ⟨rfl, rfl⟩
    | node j =>
        have apart : j ≠ i := fun same => other (by rw [served, same])
        exact ⟨member_setMember_ne w _ apart, rfl⟩
  simp only [serveSyn]
  split <;> exact answered

theorem synchronize_beyond {address : Endpoint} (beyond : w.Beyond i address) (body : Syn) :
    (carrier.synchronize address body w).2.member i = w.member i ∧
      (carrier.synchronize address body w).2.Beyond i address := by
  simp only [carrier]
  cases reached : w.route address with
  | error e =>
      rw [placeSyn_of_error reached]
      exact ⟨rfl, beyond⟩
  | ok route =>
      rw [placeSyn_of_ok reached]
      have served := serveSyn_beyond (w := { w with
        synCalls := w.synCalls + 1, traffic := w.traffic ++ [.syn address body] })
        (handler_ne_of_beyond beyond reached) address body
      exact ⟨served.1, by rw [Beyond, served.2]; exact beyond⟩

theorem serveAck_beyond (other : route.handler ≠ .node i) (body : Ack) (m : Member) :
    (w.setMember i m).serveAck route body = (w.serveAck route body).setMember i m := by
  cases served : route.handler with
  | prepared answer => simp only [serveAck, served]
  | node j =>
      have apart : i ≠ j := fun same => other (by rw [served, same])
      rw [serveAck_of_node _ served, serveAck_of_node _ served, member_setMember_ne w m apart]
      exact setMember_comm w apart m _

theorem acknowledge_beyond (beyond : w.Beyond i target.address) (body : Ack) (m : Member) :
    carrier.acknowledge target.address body (w.setMember i m) =
      ((carrier.acknowledge target.address body w).1,
        (carrier.acknowledge target.address body w).2.setMember i m) := by
  have same : (w.setMember i m).route target.address = w.route target.address := rfl
  simp only [carrier]
  cases reached : w.route target.address with
  | error e =>
      rw [placeAck_of_error (same.trans reached), placeAck_of_error reached]
      rfl
  | ok route =>
      rw [placeAck_of_ok (same.trans reached), placeAck_of_ok reached]
      have other := handler_ne_of_beyond beyond reached
      exact congrArg (Prod.mk _) (serveAck_beyond (w := w.closed target body) other body m)

theorem exchange_carried (beyond : w.Beyond i target.address) :
    let ended := (w.member i).exchange carrier target w
    w.exchange i target = (ended.2.2.setMember i ended.1, ended.2.1) := by
  obtain ⟨kept, beyond⟩ := synchronize_beyond beyond
    ((w.member i).registry.opening w.clock target)
  have clock (w : Network size) : carrier.clock w = w.clock := rfl
  rw [exchange_eq_trade]
  simp only [trade, Member.exchange, clock]
  generalize carrier.synchronize target.address ((w.member i).registry.opening w.clock target) w =
    called at kept beyond ⊢
  obtain ⟨heard, called⟩ := called
  dsimp only at kept beyond
  cases heard with
  | error e => rw [← kept, setMember_self]; rfl
  | ok answer =>
      simp only [kept]
      generalize (w.member i).learn called.clock target (w.member i).registry.owned answer = learned
      obtain ⟨m, report, ack⟩ := learned
      cases ack with
      | none => rfl
      | some body =>
          have closed := acknowledge_beyond beyond body m
          simp only [conclude, closed, Member.close]
          generalize carrier.acknowledge target.address body called = taken
          obtain ⟨taken, after⟩ := taken
          cases taken <;> rfl

end Network

end Epidemic
