import Epidemic.Network

namespace Epidemic

open Wire (Syn SynAck Ack)

structure Carrier (σ : Type) where
  clock : σ → Instant
  synchronize : Endpoint → Syn → σ → Except TransportError SynAck × σ
  acknowledge : Endpoint → Ack → σ → Except TransportError Unit × σ

namespace Network

variable {size : Nat}

def carrier : Carrier (Network size) where
  clock w := w.clock
  synchronize address body w :=
    match w.placeSyn address body with
    | (w, .error e) => (.error e, w)
    | (w, .ok route) =>
        let (w, answer) := w.serveSyn address route body
        (.ok answer, w)
  acknowledge address body w :=
    match w.placeAck address body with
    | (w, .error e) => (.error e, w)
    | (w, .ok route) => (.ok (), w.serveAck route body)

def conclude (w : Network size) (target : Target) (report : ExchangeReport) :
    Option Ack → Network size × Except TransportError ExchangeReport
  | none => (w, .ok report)
  | some body =>
      let (taken, w) := carrier.acknowledge target.address body w
      (w, taken.map fun _ => report)

def trade (w : Network size) (i : Fin size) (target : Target) :
    Network size × Except TransportError ExchangeReport :=
  let registry := (w.member i).registry
  match carrier.synchronize target.address (registry.opening w.clock target) w with
  | (.error e, w) => (w, .error e)
  | (.ok answer, w) =>
      let (m, report, ack) := (w.member i).learn w.clock target registry.owned answer
      (w.setMember i m).conclude target report ack

theorem finish_closeExchange (w : Network size) (i : Fin size) (time : Nat) (target : Target)
    (report : ExchangeReport) (ack : Option Ack) :
    finishExchange (w.closeExchange time target report ack).1 i
      (w.closeExchange time target report ack).2 = w.conclude target report ack := by
  cases ack with
  | none =>
      simp only [closeExchange, conclude]
      rw [finishExchange]
  | some body =>
      simp only [closeExchange, conclude, carrier]
      cases w.placeAck target.address body with
      | mk placed reached =>
          cases reached with
          | error e =>
              simp only []
              rw [finishExchange]
              rfl
          | ok route =>
              by_cases prompt : route.ackDelay = 0
              · simp only [if_pos prompt]
                rw [finishExchange]
                rfl
              · simp only [if_neg prompt]
                rw [finishExchange]
                simp only [resume]
                rw [finishExchange]
                rfl

theorem finish_hearAnswer (w : Network size) (time : Nat) (i : Fin size) (target : Target)
    (route : Route size) (owned : Peer) (body : Syn) :
    let heard := w.serveSyn target.address route body
    let learned := (heard.1.member i).learn heard.1.clock target owned heard.2
    let next := w.hearAnswer time i target route owned body
    finishExchange next.1 i next.2 =
      (heard.1.setMember i learned.1).conclude target learned.2.1 learned.2.2 :=
  finish_closeExchange ..

theorem finish_openExchange (w : Network size) (time : Nat) (i : Fin size) (target : Target) :
    finishExchange (w.openExchange time i target).1 i (w.openExchange time i target).2 =
      w.trade i target := by
  simp only [openExchange, trade, carrier]
  cases w.placeSyn target.address ((w.member i).registry.opening w.clock target) with
  | mk placed reached =>
      cases reached with
      | error e =>
          simp only []
          rw [finishExchange]
      | ok route =>
          by_cases prompt : route.synDelay = 0
          · simp only [if_pos prompt]
            exact finish_hearAnswer ..
          · simp only [if_neg prompt]
            rw [finishExchange]
            exact finish_hearAnswer ..

theorem exchange_eq_trade (w : Network size) (i : Fin size) (target : Target) :
    w.exchange i target =
      ((w.trade i target).1, (w.trade i target).2.mapError (.network target.address)) := by
  rw [← finish_openExchange w 0 i target]
  rfl

end Network

end Epidemic
