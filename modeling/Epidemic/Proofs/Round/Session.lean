import Epidemic.Session
import Epidemic.Proofs.Exchange.Repeated
import Epidemic.Proofs.Round.Contacts

namespace Epidemic

open Wire (Request Response)

namespace Network

variable {size : Nat} {i : Fin size}

def reply (w : Network size) (address : Endpoint) :
    Request → Except TransportError Response × Network size
  | .synchronize body =>
      let (heard, w) := carrier.synchronize address body w
      (heard.map .synAck, w)
  | .acknowledge body =>
      let (taken, w) := carrier.acknowledge address body w
      (taken.map fun _ => .empty, w)

def hear (w : Network size) (i : Fin size) (turn : Turn)
    (heard : Except TransportError Response) : Network size × RoundMove :=
  let (n, move) := (w.node i).hear w.clock turn heard
  (w.setNode i n, move)

def place (w : Network size) (i : Fin size) (request : Request) (turn : Turn) :
    Network size × RoundMove :=
  let (heard, w) := w.reply turn.target.address request
  w.hear i turn heard

def start (w : Network size) (i : Fin size) : Network size × RoundMove :=
  let (n, move) := (w.node i).beginRound w.clock
  (w.setNode i n, move)

inductive Plays (i : Fin size) :
    Network size × RoundMove → Network size × Except RoundError RoundReport → Prop
  | ended (w : Network size) (outcome : Except RoundError RoundReport) :
      Plays i (w, .ended outcome) (w, outcome)
  | call {w : Network size} {request : Request} {turn : Turn}
      {ended : Network size × Except RoundError RoundReport} :
      Plays i (w.place i request turn) ended → Plays i (w, .call request turn) ended

theorem Plays.unique {begun : Network size × RoundMove}
    {ended ended' : Network size × Except RoundError RoundReport}
    (h : Plays i begun ended) (h' : Plays i begun ended') : ended = ended' := by
  induction h with
  | ended w outcome =>
      cases h'
      rfl
  | call _ ih =>
      cases h' with
      | call rest => exact ih rest

def settle (i : Fin size) (turn : Turn)
    (ended : Network size × Except TransportError ExchangeReport) : Network size × RoundMove :=
  let (n, move) := (ended.1.node i).proceed ended.1.clock turn ended.2
  (ended.1.setNode i n, move)

theorem countExchange_eq (w : Network size) (i : Fin size)
    (outcome : Except TransportError ExchangeReport) :
    w.countExchange i outcome = w.setNode i ((w.node i).countExchange outcome) := by
  cases outcome with
  | ok report => rfl
  | error e => exact (setMember_self w i).symm

theorem settle_setMember (w : Network size) (m : Member) (turn : Turn)
    (outcome : Except TransportError ExchangeReport) :
    settle i turn (w.setMember i m, outcome) =
      let (n, move) := Node.proceed { w.node i with member := m } w.clock turn outcome
      (w.setNode i n, move) := by
  simp only [settle, setMember, node_setNode, setNode_setNode]
  rfl

theorem place_acknowledge (w : Network size) (turn : Turn) (report : ExchangeReport)
    (body : Wire.Ack) :
    w.place i (.acknowledge body) { turn with awaited := .receipt report } =
      settle i turn (w.conclude turn.target report (some body)) := by
  cases closed : carrier.acknowledge turn.target.address body w with
  | mk taken after =>
      simp only [place, reply, conclude, closed]
      cases taken <;> rfl

theorem plays_answered {w : Network size} {t : Target} {owned : Peer} {report : RoundReport}
    {ts : List Target} {answer : Wire.SynAck} {ended : Network size × Except RoundError RoundReport} :
    let learned := (w.member i).learn w.clock t owned answer
    Plays i
        (settle i ⟨t, .answer owned, report, ts⟩
          ((w.setMember i learned.1).conclude t learned.2.1 learned.2.2)) ended →
      Plays i (w.hear i ⟨t, .answer owned, report, ts⟩ (.ok (.synAck answer))) ended := by
  intro learned rest
  have learned_eq : ((w.node i).member).learn w.clock t owned answer = learned := rfl
  obtain ⟨m, exchanged, ack⟩ := learned
  simp only [hear, Node.hear, Member.hear, learned_eq]
  cases ack with
  | none =>
      rw [conclude, settle_setMember] at rest
      exact rest
  | some body =>
      refine .call ?_
      rw [← place_acknowledge] at rest
      exact rest

theorem plays_exchange {w : Network size} {t : Target} {report : RoundReport} {ts : List Target}
    {ended : Network size × Except RoundError RoundReport}
    (rest : Plays i
      (settle i ⟨t, .answer (w.member i).registry.owned, report, ts⟩ (w.trade i t)) ended) :
    Plays i (w, (w.node i).contact w.clock report (t :: ts)) ended := by
  refine .call ?_
  change Plays i (w.place i (.synchronize ((w.member i).registry.opening w.clock t))
    ⟨t, .answer (w.member i).registry.owned, report, ts⟩) ended
  cases called : carrier.synchronize t.address ((w.member i).registry.opening w.clock t) w with
  | mk heard after =>
      simp only [trade, called] at rest
      simp only [place, reply, called]
      cases heard with
      | error e => exact rest
      | ok answer => exact plays_answered rest

theorem plays_talk (w : Network size) (report : RoundReport) (ts : List Target) :
    Plays i (w, (w.node i).contact w.clock report ts) (w.talk i report ts) := by
  induction ts generalizing w report with
  | nil => exact .ended w _
  | cons t ts ih =>
      refine plays_exchange ?_
      rw [talk_cons]
      obtain ⟨after, outcome⟩ := w.trade i t
      simp only [settle, Node.proceed, proceed, countExchange_eq, node_setNode]
      cases record ((after.node i).countExchange outcome).settings.policy t report outcome with
      | error e => exact .ended _ _
      | ok report =>
          have next := ih (after.setNode i ((after.node i).countExchange outcome)) report
          rw [node_setNode] at next
          exact next

theorem start_plays (w : Network size) (i : Fin size)
    (ended : Network size × Except RoundError RoundReport) :
    Plays i (w.start i) ended ↔ ended = w.runRound i := by
  have plays : Plays i (w.start i) (w.runRound i) := by
    rw [runRound_eq]
    simp only [start, Node.beginRound]
    obtain ⟨n, targets⟩ := (w.node i).prepare w.clock
    cases targets with
    | error e => exact .ended _ _
    | ok ts =>
        have talked := plays_talk (i := i) (w.setNode i n) ⟨ts.map (·.address), [], []⟩ ts
        rw [node_setNode] at talked
        exact talked
  exact ⟨fun played => played.unique plays, fun same => same ▸ plays⟩

end Network

end Epidemic
