import Epidemic.Proofs.Exchange.Carrier
import Epidemic.Proofs.Scheduler.Frame
import Mathlib.Data.List.Forall2

namespace Epidemic

open Wire (Syn SynAck Ack)

abbrev Outcomes : Type := List (Except RoundError ExchangeReport)

namespace Outcomes

def reports (outcomes : Outcomes) : List ExchangeReport :=
  outcomes.filterMap Except.toOption

def failures (outcomes : Outcomes) : List RoundError :=
  outcomes.filterMap fun
    | .ok _ => none
    | .error e => some e

variable {x : ExchangeReport} {e : RoundError} {outcomes : Outcomes}

theorem reports_nil : reports [] = [] := rfl

theorem reports_ok : reports (.ok x :: outcomes) = x :: outcomes.reports := rfl

theorem reports_error : reports (.error e :: outcomes) = outcomes.reports := rfl

theorem failures_nil : failures [] = [] := rfl

theorem failures_ok : failures (.ok x :: outcomes) = outcomes.failures := rfl

theorem failures_error : failures (.error e :: outcomes) = e :: outcomes.failures := rfl

theorem reports_map_ok (good : List ExchangeReport) : reports (good.map .ok) = good := by
  rw [reports, List.filterMap_map]
  exact List.filterMap_some

theorem failures_map_ok (good : List ExchangeReport) : failures (good.map .ok) = [] := by
  rw [failures, List.filterMap_map]
  exact List.filterMap_eq_nil_iff.mpr fun _ _ => rfl

end Outcomes

inductive Heard (address : Endpoint) : List Delivery → Prop where
  | nothing : Heard address []
  | opening (body : Syn) : Heard address [.syn address body]
  | both (body : Syn) (closing : Ack) :
      Heard address [.syn address body, .ack address closing]

def Concerns (address : Endpoint) : Except RoundError ExchangeReport → Prop
  | .ok report => report.target = address
  | .error e => ∃ cause, e = .network address cause

namespace Network

variable {size : Nat} {w w' : Network size} {i : Fin size} {t : Target} {report : RoundReport}
  {ts : List Target}

def visit (w : Network size) (i : Fin size) (t : Target) :
    Network size × Except RoundError ExchangeReport :=
  match w.exchange i t with
  | (after, .ok report) => (after.countExchange i (.ok report), .ok report)
  | (after, .error e) => (after, .error e)

def visitAll (w : Network size) (i : Fin size) : List Target → Network size × Outcomes
  | [] => (w, [])
  | t :: ts =>
      let first := w.visit i t
      let rest := first.1.visitAll i ts
      (rest.1, first.2 :: rest.2)

def talk (w : Network size) (i : Fin size) (report : RoundReport) :
    List Target → Network size × Except RoundError RoundReport
  | [] => (w, .ok report)
  | t :: ts =>
      let after := (w.trade i t).1.countExchange i (w.trade i t).2
      match record (after.node i).settings.policy t report (w.trade i t).2 with
      | .error e => (after, .error e)
      | .ok report => after.talk i report ts

def proceed (i : Fin size) (t : Target) (report : RoundReport) (ts : List Target)
    (ended : Network size × Except TransportError ExchangeReport) :
    Network size × Except RoundError RoundReport :=
  let after := ended.1.countExchange i ended.2
  match record (after.node i).settings.policy t report ended.2 with
  | .error e => (after, .error e)
  | .ok report => after.talk i report ts

theorem talk_cons (w : Network size) (i : Fin size) (report : RoundReport) (t : Target)
    (ts : List Target) :
    w.talk i report (t :: ts) = proceed i t report ts (w.trade i t) := rfl

theorem target_closeExchange {time : Nat} {report : ExchangeReport} {ack : Option Ack}
    {p : Pending size} (h : (w.closeExchange time t report ack).2 = .waiting p) : p.target = t := by
  unfold closeExchange at h
  split at h
  · cases h
  · split at h
    · cases h
    · split at h
      · cases h
      · cases h
        rfl

theorem target_openExchange {time : Nat} {p : Pending size}
    (h : (w.openExchange time i t).2 = .waiting p) : p.target = t := by
  unfold openExchange at h
  dsimp only at h
  split at h
  · cases h
  · split at h
    · exact target_closeExchange h
    · cases h
      rfl

theorem target_resume {p q : Pending size} (h : (w.resume i p).2 = .waiting q) :
    q.target = p.target := by
  unfold resume at h
  split at h
  · exact target_closeExchange h
  · cases h

theorem finish_waiting (w : Network size) (p : Pending size)
    (rest : ∀ (w : Network size) (time : Nat) (report : RoundReport),
      finishRound none (w.contactAll time i report ts).1 (w.contactAll time i report ts).2 =
        w.talk i report ts) :
    finishRound none w (.waiting p ⟨i, report, ts⟩) =
      proceed i p.target report ts (finishExchange w i (.waiting p)) := by
  induction h : p.call.rank using Nat.strong_induction_on generalizing w p with
  | _ n ih =>
      have less := rank_resume_lt w i p
      rw [finishRound, finishExchange]
      simp only [Option.filter_none, continueRound]
      cases resumed : w.resume i p with
      | mk after stage =>
          rw [resumed] at less
          cases stage with
          | waiting q =>
              have same : q.target = p.target := target_resume (congrArg Prod.snd resumed)
              simp only
              rw [ih q.call.rank (h ▸ less) after q rfl, same]
          | ended outcome =>
              simp only
              rw [finishExchange]
              simp only [proceed]
              cases record ((after.countExchange i outcome).node i).settings.policy p.target report
                outcome with
              | error e =>
                  simp only
                  rw [finishRound]
              | ok report => exact rest ..

theorem finish_contactAll (w : Network size) (time : Nat) (i : Fin size) (report : RoundReport)
    (ts : List Target) :
    finishRound none (w.contactAll time i report ts).1 (w.contactAll time i report ts).2 =
      w.talk i report ts := by
  induction ts generalizing w time report with
  | nil =>
      simp only [contactAll, talk]
      rw [finishRound]
  | cons t ts ih =>
      have traded := finish_openExchange w time i t
      rw [talk_cons, ← traded]
      cases opened : w.openExchange time i t with
      | mk after stage =>
          simp only [contactAll, opened]
          cases stage with
          | waiting p =>
              have same : p.target = t := target_openExchange (congrArg Prod.snd opened)
              rw [← same]
              exact finish_waiting after p ih
          | ended outcome =>
              rw [finishExchange]
              simp only [proceed]
              cases record ((after.countExchange i outcome).node i).settings.policy t report
                outcome with
              | error e =>
                  simp only
                  rw [finishRound]
              | ok report => exact ih ..

theorem runRound_eq (w : Network size) (i : Fin size) :
    let start := w.setNode i ((w.node i).prepare w.clock).1
    w.runRound i =
      match ((w.node i).prepare w.clock).2 with
      | .error e => (start, .error e)
      | .ok ts => start.talk i ⟨ts.map (·.address), [], []⟩ ts := by
  simp only [runRound, beginRound]
  cases ((w.node i).prepare w.clock).2 with
  | error e =>
      simp only
      rw [finishRound]
  | ok ts => exact finish_contactAll ..

theorem visit_eq (w : Network size) (i : Fin size) (t : Target) :
    w.visit i t =
      ((w.trade i t).1.countExchange i (w.trade i t).2,
        (w.trade i t).2.mapError (.network t.address)) := by
  rw [visit, exchange_eq_trade]
  rcases w.trade i t with ⟨after, e | report⟩ <;> rfl

theorem visitAll_append (w : Network size) (i : Fin size) (ts us : List Target) :
    w.visitAll i (ts ++ us) =
      (((w.visitAll i ts).1.visitAll i us).1,
        (w.visitAll i ts).2 ++ ((w.visitAll i ts).1.visitAll i us).2) := by
  induction ts generalizing w with
  | nil => rfl
  | cons t ts ih => simp only [List.cons_append, visitAll, ih]

theorem serveSyn_calls (w : Network size) (address : Endpoint) (route : Route size) (body : Syn) :
    (w.serveSyn address route body).1.synCalls = w.synCalls ∧
      (w.serveSyn address route body).1.traffic = w.traffic := by
  simp only [serveSyn]
  cases route.handler <;> split <;> exact ⟨rfl, rfl⟩

theorem serveAck_calls (w : Network size) (route : Route size) (body : Ack) :
    (w.serveAck route body).synCalls = w.synCalls ∧
      (w.serveAck route body).traffic = w.traffic := by
  simp only [serveAck]
  cases route.handler <;> exact ⟨rfl, rfl⟩

theorem conclude_calls (w : Network size) (t : Target) (report : ExchangeReport)
    (ack : Option Ack) :
    (w.conclude t report ack).1.synCalls = w.synCalls ∧
      ((w.conclude t report ack).1.traffic = w.traffic ∨
        ∃ body, (w.conclude t report ack).1.traffic = w.traffic ++ [.ack t.address body]) := by
  cases ack with
  | none => exact ⟨rfl, .inl rfl⟩
  | some body =>
      cases reached : w.route t.address with
      | error e =>
          rw [conclude_of_error reached]
          exact ⟨rfl, .inl rfl⟩
      | ok route =>
          rw [conclude_of_ok reached]
          obtain ⟨calls, traffic⟩ := serveAck_calls (w.closed t body) route body
          exact ⟨calls, .inr ⟨body, traffic⟩⟩

theorem trade_calls (w : Network size) (i : Fin size) (t : Target) :
    (w.trade i t).1.synCalls = w.synCalls + 1 ∧
      ∃ heard, Heard t.address heard ∧ (w.trade i t).1.traffic = w.traffic ++ heard := by
  cases reached : w.route t.address with
  | error e =>
      rw [trade_of_error reached]
      exact ⟨rfl, [], .nothing, (List.append_nil _).symm⟩
  | ok route =>
      rw [trade_of_ok reached]
      let opening := (w.member i).registry.opening w.clock t
      obtain ⟨counted, sent⟩ := serveSyn_calls (w.opened i t) t.address route opening
      generalize (w.opened i t).serveSyn t.address route opening = served at counted sent ⊢
      generalize (served.1.member i).learn served.1.clock t (w.member i).registry.owned served.2 =
        learned
      obtain ⟨calls, silent | ⟨closing, spoken⟩⟩ :=
        conclude_calls (served.1.setMember i learned.1) t learned.2.1 learned.2.2
      · exact ⟨calls.trans counted, _, .opening opening, silent.trans sent⟩
      · refine ⟨calls.trans counted, _, .both opening closing, spoken.trans ?_⟩
        exact (congrArg (· ++ _) sent).trans (List.append_assoc ..)

theorem target_conclude {x report : ExchangeReport} {ack : Option Ack}
    (h : (w.conclude t report ack).2 = .ok x) : x = report := by
  cases ack with
  | none => exact (Except.ok.inj h).symm
  | some body =>
      simp only [conclude] at h
      cases taken : (carrier.acknowledge t.address body w).1 with
      | error e =>
          rw [taken] at h
          cases h
      | ok u =>
          rw [taken] at h
          exact (Except.ok.inj h).symm

theorem target_trade {x : ExchangeReport} (h : (w.trade i t).2 = .ok x) : x.target = t.address := by
  simp only [trade] at h
  split at h
  · cases h
  · rw [target_conclude h]
    rfl

theorem concerns_visit (w : Network size) (i : Fin size) (t : Target) :
    Concerns t.address (w.visit i t).2 := by
  rw [visit_eq]
  cases ended : (w.trade i t).2 with
  | error e => exact ⟨e, rfl⟩
  | ok report => exact target_trade ended

theorem sameCounts_conclude (w : Network size) (t : Target) (report : ExchangeReport)
    (ack : Option Ack) : w.SameCounts (w.conclude t report ack).1 := by
  cases ack with
  | none => exact .refl w
  | some body =>
      have placed := sameCounts_placeAck w t.address body
      simp only [conclude, carrier]
      generalize w.placeAck t.address body = called at placed ⊢
      obtain ⟨after, e | route⟩ := called
      · exact placed
      · exact placed.trans (sameCounts_serveAck ..)

theorem sameCounts_trade (w : Network size) (i : Fin size) (t : Target) :
    w.SameCounts (w.trade i t).1 := by
  have placed := sameCounts_placeSyn w t.address ((w.member i).registry.opening w.clock t)
  simp only [trade, carrier]
  generalize w.placeSyn t.address ((w.member i).registry.opening w.clock t) = called at placed ⊢
  obtain ⟨after, e | route⟩ := called
  · exact placed
  · exact placed.trans ((sameCounts_serveSyn ..).trans
      ((sameCounts_setMember ..).trans (sameCounts_conclude ..)))

theorem gains_visit (w : Network size) (i : Fin size) (t : Target) :
    w.Gains i (Outcomes.reports [(w.visit i t).2]).length (w.visit i t).1 := by
  have counted := ((sameCounts_trade w i t).gains i).trans
    (gains_countExchange (w.trade i t).1 i (w.trade i t).2)
  rw [Nat.zero_add] at counted
  rw [visit_eq]
  cases ended : (w.trade i t).2 <;> rw [ended] at counted <;> exact counted

theorem countExchange_calls (w : Network size) (i : Fin size)
    (outcome : Except TransportError ExchangeReport) :
    (w.countExchange i outcome).synCalls = w.synCalls ∧
      (w.countExchange i outcome).traffic = w.traffic := by
  cases outcome <;> exact ⟨rfl, rfl⟩

structure Toured (w : Network size) (i : Fin size) (ts : List Target) (outcomes : Outcomes)
    (after : Network size) : Prop where
  calls : after.synCalls = w.synCalls + ts.length
  traffic : ∃ heard, List.Forall₂ (fun t => Heard t.address) ts heard ∧
    after.traffic = w.traffic ++ heard.flatten
  gains : w.Gains i outcomes.reports.length after
  concerns : List.Forall₂ (fun t => Concerns t.address) ts outcomes

namespace Toured

variable {us : List Target} {w'' : Network size} {outcomes outcomes' : Outcomes}

theorem trans (h : w.Toured i ts outcomes w') (h' : w'.Toured i us outcomes' w'') :
    w.Toured i (ts ++ us) (outcomes ++ outcomes') w'' := by
  obtain ⟨heard, hears, traffic⟩ := h.traffic
  obtain ⟨heard', hears', traffic'⟩ := h'.traffic
  refine ⟨?_, ⟨heard ++ heard', List.rel_append hears hears', ?_⟩, ?_,
    List.rel_append h.concerns h'.concerns⟩
  · rw [h'.calls, h.calls, List.length_append, Nat.add_assoc]
  · rw [traffic', traffic, List.flatten_append, List.append_assoc]
  · rw [Outcomes.reports, List.filterMap_append, List.length_append]
    exact h.gains.trans h'.gains

end Toured

theorem toured_visit (w : Network size) (i : Fin size) (t : Target) :
    w.Toured i [t] [(w.visit i t).2] (w.visit i t).1 := by
  obtain ⟨calls, heard, hears, traffic⟩ := trade_calls w i t
  obtain ⟨sameCalls, sameTraffic⟩ := countExchange_calls (w.trade i t).1 i (w.trade i t).2
  refine ⟨?_, ⟨[heard], .cons hears .nil, ?_⟩, gains_visit w i t, .cons (concerns_visit w i t) .nil⟩
  · rw [visit_eq]
    exact sameCalls.trans calls
  · rw [visit_eq, List.flatten_singleton]
    exact sameTraffic.trans traffic

theorem toured_visitAll (w : Network size) (i : Fin size) (ts : List Target) :
    w.Toured i ts (w.visitAll i ts).2 (w.visitAll i ts).1 := by
  induction ts generalizing w with
  | nil =>
      exact ⟨rfl, ⟨[], .nil, (List.append_nil _).symm⟩, (SameCounts.refl w).gains i, .nil⟩
  | cons t ts ih => exact (toured_visit w i t).trans (ih _)

end Network

end Epidemic
