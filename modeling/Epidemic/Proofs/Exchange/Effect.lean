import Epidemic.Proofs.Exchange.Roles
import Epidemic.Proofs.Exchange.Trade

namespace Epidemic

open Registry (beyond closing passed refreshedBy)
open Wire (Record Syn SynAck Ack)

namespace Network

variable {size : Nat} {i j : Fin size}

theorem node_mk (w : Network size) {n : Nat} (h : n < size) : w.node ⟨n, h⟩ = w.nodes[n] := rfl

@[simp] theorem node_setNode (w : Network size) (i : Fin size) (n : Node) :
    (w.setNode i n).node i = n := by
  obtain ⟨k, h⟩ := i
  simp [node_mk, setNode]

theorem node_setNode_ne (w : Network size) (n : Node) (h : i ≠ j) :
    (w.setNode i n).node j = w.node j := by
  obtain ⟨k, hk⟩ := i
  obtain ⟨k', hk'⟩ := j
  have apart : k ≠ k' := fun e => h (Fin.ext e)
  simp [node_mk, setNode, Vector.getElem_set_ne _ _ apart]

theorem setNode_setNode (w : Network size) (i : Fin size) (n n' : Node) :
    (w.setNode i n).setNode i n' = w.setNode i n' := by
  simp only [setNode, Vector.set_set]

theorem setNode_comm (w : Network size) (apart : i ≠ j) (n n' : Node) :
    (w.setNode i n).setNode j n' = (w.setNode j n').setNode i n := by
  have slots : (i : Nat) ≠ j := fun same => apart (Fin.ext same)
  simp only [setNode, Vector.set_comm _ _ slots]

@[simp] theorem member_setMember (w : Network size) (i : Fin size) (m : Member) :
    (w.setMember i m).member i = m := by
  rw [member, setMember, node_setNode]

theorem node_setMember_ne (w : Network size) (m : Member) (h : i ≠ j) :
    (w.setMember i m).node j = w.node j :=
  node_setNode_ne w _ h

theorem member_setMember_ne (w : Network size) (m : Member) (h : i ≠ j) :
    (w.setMember i m).member j = w.member j := by
  rw [member, node_setMember_ne w m h, member]

def opened (w : Network size) (i : Fin size) (target : Target) : Network size :=
  { w with
    synCalls := w.synCalls + 1
    traffic := w.traffic ++
      [.syn target.address ((w.member i).registry.opening w.clock target)] }

def closed (w : Network size) (target : Target) (body : Ack) : Network size :=
  { w with
    ackCalls := w.ackCalls + 1
    traffic := w.traffic ++ [.ack target.address body] }

variable {w : Network size} {target : Target} {route : Route size}

theorem placeSyn_of_ok {address : Endpoint} (reached : w.route address = .ok route) (body : Syn) :
    w.placeSyn address body =
      ({ w with synCalls := w.synCalls + 1, traffic := w.traffic ++ [.syn address body] },
        .ok route) := by
  have same : ({ w with synCalls := w.synCalls + 1 } : Network size).route address = .ok route :=
    reached
  simp only [placeSyn, same]

theorem placeSyn_of_error {address : Endpoint} {e : TransportError}
    (lost : w.route address = .error e) (body : Syn) :
    w.placeSyn address body = ({ w with synCalls := w.synCalls + 1 }, .error e) := by
  have same : ({ w with synCalls := w.synCalls + 1 } : Network size).route address = .error e :=
    lost
  simp only [placeSyn, same]

theorem placeAck_of_ok (reached : w.route target.address = .ok route) (body : Ack) :
    w.placeAck target.address body = (w.closed target body, .ok route) := by
  have same : ({ w with ackCalls := w.ackCalls + 1 } : Network size).route target.address =
      .ok route := reached
  simp only [placeAck, same, closed]

theorem placeAck_of_error {address : Endpoint} {e : TransportError}
    (lost : w.route address = .error e) (body : Ack) :
    w.placeAck address body = ({ w with ackCalls := w.ackCalls + 1 }, .error e) := by
  have same : ({ w with ackCalls := w.ackCalls + 1 } : Network size).route address = .error e :=
    lost
  simp only [placeAck, same]

theorem serveAck_of_node (w : Network size) (served : route.handler = .node j) (body : Ack) :
    w.serveAck route body = w.setMember j ((w.member j).absorb w.clock body) := by
  simp only [serveAck, served]

theorem trade_of_error {e : TransportError} (lost : w.route target.address = .error e)
    (i : Fin size) :
    w.trade i target = ({ w with synCalls := w.synCalls + 1 }, .error e) := by
  simp only [trade, carrier, placeSyn_of_error lost]

theorem trade_of_ok (reached : w.route target.address = .ok route) (i : Fin size) :
    let heard := (w.opened i target).serveSyn target.address route
      ((w.member i).registry.opening w.clock target)
    let learned := (heard.1.member i).learn heard.1.clock target (w.member i).registry.owned heard.2
    w.trade i target =
      (heard.1.setMember i learned.1).conclude target learned.2.1 learned.2.2 := by
  simp only [trade, carrier, placeSyn_of_ok reached]
  rfl

theorem conclude_of_error {e : TransportError} (lost : w.route target.address = .error e)
    (report : ExchangeReport) (body : Ack) :
    w.conclude target report (some body) = ({ w with ackCalls := w.ackCalls + 1 }, .error e) := by
  simp only [conclude, carrier, placeAck_of_error lost]
  rfl

theorem conclude_of_ok (reached : w.route target.address = .ok route) (report : ExchangeReport)
    (body : Ack) :
    w.conclude target report (some body) =
      ((w.closed target body).serveAck route body, .ok report) := by
  simp only [conclude, carrier, placeAck_of_ok reached]
  rfl

theorem exchange_eq (apart : i ≠ j) (reached : w.route target.address = .ok route)
    (served : route.handler = .node j) (uncut : route.cutAfterSyn = false)
    {first second : Member} {answer : SynAck} {report : ExchangeReport} {ack : Option Ack}
    (answered : (w.member j).answer w.clock ((w.member i).registry.opening w.clock target) =
      (second, answer))
    (learned : (w.member i).learn w.clock target (w.member i).registry.owned answer =
      (first, report, ack)) :
    let heard := ((w.opened i target).setMember j second).setMember i first
    w.exchange i target =
      (match ack with
        | none => heard
        | some body => (heard.closed target body).setMember j (second.absorb w.clock body),
        .ok report) := by
  intro heard
  have serve : (w.opened i target).serveSyn target.address route
      ((w.member i).registry.opening w.clock target) =
      ((w.opened i target).setMember j second, answer) := by
    have same : ((w.opened i target).member j).answer (w.opened i target).clock
        ((w.member i).registry.opening w.clock target) = (second, answer) := answered
    simp only [serveSyn, answerSyn, served, uncut, same]
    rfl
  have own : ((w.opened i target).setMember j second).member i = w.member i :=
    member_setMember_ne _ _ apart.symm
  have learned : (w.member i).learn ((w.opened i target).setMember j second).clock target
      (w.member i).registry.owned answer = (first, report, ack) := learned
  have ended : w.trade i target = heard.conclude target report ack := by
    simp only [trade_of_ok reached, serve, own, learned, heard]
  rw [exchange_eq_trade, ended]
  cases ack with
  | none => rfl
  | some body =>
      have other : heard.member j = second :=
        (member_setMember_ne _ _ apart).trans (member_setMember ..)
      have taken : (heard.closed target body).serveAck route body =
          (heard.closed target body).setMember j ((heard.member j).absorb heard.clock body) :=
        serveAck_of_node _ served body
      rw [conclude_of_ok (w := heard) reached, taken, other]
      rfl

theorem exchange_ends (apart : i ≠ j) (reached : w.route target.address = .ok route)
    (served : route.handler = .node j) (uncut : route.cutAfterSyn = false)
    {first second : Member} {answer : SynAck} {report : ExchangeReport} {ack : Option Ack}
    (answered : (w.member j).answer w.clock ((w.member i).registry.opening w.clock target) =
      (second, answer))
    (learned : (w.member i).learn w.clock target (w.member i).registry.owned answer =
      (first, report, ack)) :
    ∃ after, w.exchange i target = (after, .ok report) ∧
      after.member i = first ∧
      (after.member j = match ack with
        | none => second
        | some body => second.absorb w.clock body) ∧
      after.synCalls = w.synCalls + 1 ∧
      after.ackCalls = w.ackCalls + ack.toList.length ∧
      after.traffic = w.traffic ++
        .syn target.address ((w.member i).registry.opening w.clock target) ::
          ack.toList.map (.ack target.address) ∧
      after.clock = w.clock ∧
      ∀ l, l ≠ i → l ≠ j → after.node l = w.node l := by
  have ends := exchange_eq apart reached served uncut answered learned
  let heard := ((w.opened i target).setMember j second).setMember i first
  have outside : ∀ l, l ≠ i → l ≠ j → heard.node l = w.node l := by
    intro l hi hj
    rw [node_setMember_ne _ _ hi.symm, node_setMember_ne _ _ hj.symm]
    rfl
  have initiated : heard.member i = first := member_setMember ..
  have received : heard.member j = second :=
    (member_setMember_ne _ _ apart).trans (member_setMember ..)
  cases ack with
  | none => exact ⟨heard, ends, initiated, received, rfl, rfl, rfl, rfl, outside⟩
  | some body =>
      refine ⟨_, ends, ?_, member_setMember .., rfl, rfl, ?_, rfl, ?_⟩
      · exact (member_setMember_ne _ _ apart.symm).trans initiated
      · exact List.append_assoc ..
      · intro l hi hj
        rw [node_setMember_ne _ _ hj.symm]
        exact outside l hi hj

theorem exchange_effect (apart : i ≠ j) (reached : w.route target.address = .ok route)
    (served : route.handler = .node j) (uncut : route.cutAfterSyn = false)
    (initiator : (w.member i).registry.WireValid) (receiver : (w.member j).registry.WireValid) :
    let a := (w.member i).registry
    let b := (w.member j).registry
    ∃ after report,
      w.exchange i target = (after, .ok report) ∧
      (∀ p, p ∈ a.list ∨ p ∈ b.list → ∀ now, (Record.ofPeer now p).toPeer = .ok p.image) ∧
      (after.member i).registry.list = a.list ++ (beyond a b).map Peer.image ∧
      (after.member j).registry.list =
        b.list.map (refreshedBy w.clock a b) ++ (passed a b).map Peer.image ∧
      (after.member i).registry.owned = a.owned ∧
      (after.member j).registry.owned = b.owned ∧
      report.target = target.address ∧
      report.state = .done ∧
      report.learned.inserted = (beyond a b).map Peer.key ∧
      report.requested = (beyond b a).length ∧
      report.sent = (passed a b).length ∧
      after.synCalls = w.synCalls + 1 ∧
      after.ackCalls = w.ackCalls + (if 0 < report.sent then 1 else 0) ∧
      after.traffic = w.traffic ++ .syn target.address (a.opening w.clock target) ::
        (if 0 < report.sent then [.ack target.address (closing w.clock a b)] else []) ∧
      after.clock = w.clock ∧
      ∀ l, l ≠ i → l ≠ j → after.node l = w.node l := by
  intro a b
  have answered := Member.answer_opening (w.member j) initiator w.clock target
  have learned := Member.learn_answer (w.member i) receiver w.clock target
    (Record.ofPeer w.clock a.owned)
  rw [← answered.2.2] at learned
  generalize hs : (w.member j).answer w.clock ((w.member i).registry.opening w.clock target) = second
    at answered learned
  obtain ⟨second, answer⟩ := second
  dsimp only at learned
  generalize hl : (w.member i).learn w.clock target (w.member i).registry.owned answer = first
    at learned
  obtain ⟨first, report, ack⟩ := first
  obtain ⟨refreshed, kept, -⟩ := answered
  obtain ⟨list, owned, address, done, inserted, requested, sent, closes⟩ := learned
  obtain ⟨after, ends, left, right, syns, acks, traffic, clock, outside⟩ :=
    exchange_ends apart reached served uncut hs hl
  have wire : ∀ p, p ∈ a.list ∨ p ∈ b.list → ∀ now, (Record.ofPeer now p).toPeer = .ok p.image := by
    rintro p (hp | hp) now
    · exact Wire.toPeer_ofPeer (initiator p hp) now
    · exact Wire.toPeer_ofPeer (receiver p hp) now
  have count : report.sent = (passed a b).length := sent
  -- With nothing to pass on there is no closing, and the receiver stays as it answered.
  by_cases silent : passed a b = []
  · have nothing : ¬0 < report.sent := by simp [count, silent]
    obtain rfl : ack = none := closes.trans (if_pos (List.isEmpty_iff.mpr silent))
    refine ⟨after, report, ends, wire, left ▸ list, ?_, left ▸ owned, right ▸ kept, address,
      done, inserted, requested, sent, syns, ?_, ?_, clock, outside⟩
    · rw [right, silent, List.map_nil, List.append_nil]
      exact refreshed
    · rw [if_neg nothing]
      exact acks
    · rw [if_neg nothing]
      exact traffic
  · have something : 0 < report.sent := by simpa [count, List.length_pos_iff] using silent
    obtain rfl : ack = some (closing w.clock a b) :=
      closes.trans (if_neg (mt List.isEmpty_iff.mp silent))
    have keys : second.registry.keys = b.keys := by
      simp only [Roster.keys, show second.registry.list = _ from refreshed, List.map_map]
      exact List.map_congr_left fun p _ => Registry.key_refreshedBy ..
    obtain ⟨added, same⟩ := second.absorb_closing initiator w.clock keys
    refine ⟨after, report, ends, wire, left ▸ list, ?_, left ▸ owned, ?_, address, done, inserted,
      requested, sent, syns, ?_, ?_, clock, outside⟩
    · rw [right]
      exact added.trans (congrArg (· ++ _) refreshed)
    · rw [right]
      exact same.trans kept
    · rw [if_pos something]
      exact acks
    · rw [if_pos something]
      exact traffic

def pair (now : Instant) (a b : Registry) : Network 2 where
  clock := now
  nodes := #v[⟨⟨a, .log⟩, none, .fixed 0, {}, {}⟩, ⟨⟨b, .log⟩, none, .fixed 0, {}, {}⟩]
  routes := [(a.owned.address, { handler := .node 0 }), (b.owned.address, { handler := .node 1 })]

theorem exchange_effect_pair :
    let host (n : UInt8) : Peer :=
      ⟨⟨[n]⟩, .v4 ⟨10, 0, 0, n⟩ 7000, .ofSeconds 100, true,
        some { PeerState.bootstrapping "1" 2 with status := .ok }⟩
    let third := Peer.stub ⟨[3]⟩ (.v4 ⟨10, 0, 0, 3⟩ 7000) (.ofSeconds 90)
    let a := Registry.ofSelf (host 1)
    let b := ((Registry.ofSelf (host 2)).offer (.ofSeconds 100) true third).1
    ∃ after report,
      (pair (.ofSeconds 200) a b).exchange 0 (.seed (host 2).address) = (after, .ok report) ∧
        (after.member 0).registry.keys = [⟨[1]⟩, ⟨[2]⟩, ⟨[3]⟩] ∧
        (after.member 1).registry.keys = [⟨[2]⟩, ⟨[3]⟩, ⟨[1]⟩] ∧
        report.sent = 1 := by
  intro host third a b
  obtain ⟨after, report, ends, -, initiator, receiver, -, -, -, -, -, -, sent, -⟩ :=
    @exchange_effect 2 0 1 (pair (.ofSeconds 200) a b) (.seed (host 2).address) ⟨.node 1, 0, 0, false⟩
      (by decide) rfl rfl rfl (by decide) (by decide)
  refine ⟨after, report, ends, ?_, ?_, sent⟩
  · rw [Roster.keys, initiator]
    decide
  · rw [Roster.keys, receiver]
    decide

end Network

end Epidemic
