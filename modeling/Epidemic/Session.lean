import Epidemic.Network

namespace Epidemic

open Wire (Request Response)

inductive Move (α ω : Type) where
  | call (request : Request) (next : α)
  | ended (outcome : ω)

inductive Awaited where
  | answer (owned : Peer)
  | receipt (report : ExchangeReport)
  deriving DecidableEq, Repr

def Awaited.state : Awaited → ExchangeState
  | .answer _ => .synSent
  | .receipt _ => .detailSent

namespace Member

def greet (m : Member) (now : Instant) (t : Target) : Request × Awaited :=
  (.synchronize (m.registry.opening now t), .answer m.registry.owned)

def hear (m : Member) (now : Instant) (t : Target) :
    Awaited → Except TransportError Response →
      Member × Move Awaited (Except TransportError ExchangeReport)
  | .answer owned, .ok (.synAck answer) =>
      match m.learn now t owned answer with
      | (m, report, none) => (m, .ended (.ok report))
      | (m, report, some body) => (m, .call (.acknowledge body) (.receipt report))
  | .receipt report, .ok .empty => (m, .ended (.ok report))
  | _, .ok other => (m, .ended (.error (.content (.unexpected other))))
  | _, .error e => (m, .ended (.error e))

end Member

structure Turn where
  target : Target
  awaited : Awaited
  report : RoundReport
  ahead : List Target
  deriving DecidableEq, Repr

abbrev RoundMove : Type :=
  Move Turn (Except RoundError RoundReport)

namespace Node

def mapStats (n : Node) (f : RoundStats → RoundStats) : Node :=
  { n with stats := f n.stats }

def started (n : Node) : Node :=
  n.mapStats fun s => { s with started := s.started + 1 }

def countExchange (n : Node) : Except TransportError ExchangeReport → Node
  | .ok _ => n.mapStats fun s => { s with exchanges := s.exchanges + 1 }
  | .error _ => n

def countRound (n : Node) : Except RoundError RoundReport → Node
  | .ok _ => n.mapStats fun s => { s with completed := s.completed + 1 }
  | .error _ => n.mapStats fun s => { s with failed := s.failed + 1 }

def contact (n : Node) (now : Instant) (report : RoundReport) : List Target → RoundMove
  | [] => .ended (.ok report)
  | t :: ts =>
      let (request, awaited) := n.member.greet now t
      .call request ⟨t, awaited, report, ts⟩

def beginRound (n : Node) (now : Instant) : Node × RoundMove :=
  match n.prepare now with
  | (n, .error e) => (n, .ended (.error e))
  | (n, .ok ts) => (n, n.contact now ⟨ts.map (·.address), [], []⟩ ts)

def proceed (n : Node) (now : Instant) (turn : Turn)
    (outcome : Except TransportError ExchangeReport) : Node × RoundMove :=
  let n := n.countExchange outcome
  match Network.record n.settings.policy turn.target turn.report outcome with
  | .error e => (n, .ended (.error e))
  | .ok report => (n, n.contact now report turn.ahead)

def hear (n : Node) (now : Instant) (turn : Turn) (reply : Except TransportError Response) :
    Node × RoundMove :=
  match n.member.hear now turn.target turn.awaited reply with
  | (m, .call request awaited) => ({ n with member := m }, .call request { turn with awaited })
  | (m, .ended outcome) => { n with member := m }.proceed now turn outcome

end Node

end Epidemic
