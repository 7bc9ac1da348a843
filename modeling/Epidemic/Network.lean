import Epidemic.Round

namespace Epidemic

open Wire (Syn SynAck Ack)

inductive Handler (size : Nat) where
  | node (i : Fin size)
  | prepared (answer : SynAck)
  deriving DecidableEq, Repr

structure Route (size : Nat) where
  handler : Handler size
  synDelay : Nat := 0
  ackDelay : Nat := 0
  cutAfterSyn : Bool := false
  deriving DecidableEq, Repr

inductive Delivery where
  | syn (address : Endpoint) (body : Syn)
  | ack (address : Endpoint) (body : Ack)
  deriving DecidableEq, Repr

structure Network (size : Nat) where
  clock : Instant
  nodes : Vector Node size
  routes : List (Endpoint × Route size)
  unreachable : List Endpoint := []
  synCalls : Nat := 0
  ackCalls : Nat := 0
  traffic : List Delivery := []

inductive Call where
  | syn (owned : Peer) (body : Syn)
  | ack (report : ExchangeReport) (body : Ack)
  deriving DecidableEq, Repr

structure Pending (size : Nat) where
  target : Target
  route : Route size
  call : Call
  due : Nat
  deriving DecidableEq, Repr

inductive Stage (size : Nat) where
  | waiting (p : Pending size)
  | ended (outcome : Except TransportError ExchangeReport)

structure Course (size : Nat) where
  node : Fin size
  report : RoundReport
  ahead : List Target
  deriving DecidableEq, Repr

inductive Progress (size : Nat) where
  | waiting (p : Pending size) (course : Course size)
  | ended (outcome : Except RoundError RoundReport)

def Call.rank : Call → Nat
  | .syn _ _ => 2
  | .ack _ _ => 1

def Stage.rank {size : Nat} : Stage size → Nat
  | .waiting p => p.call.rank
  | .ended _ => 0

def Progress.rank {size : Nat} : Progress size → Nat
  | .waiting p c => p.call.rank + 2 * c.ahead.length
  | .ended _ => 0

namespace Network

variable {size : Nat}

def node (w : Network size) (i : Fin size) : Node :=
  w.nodes.get i

def setNode (w : Network size) (i : Fin size) (n : Node) : Network size :=
  { w with nodes := w.nodes.set i n }

def member (w : Network size) (i : Fin size) : Member :=
  (w.node i).member

def setMember (w : Network size) (i : Fin size) (m : Member) : Network size :=
  w.setNode i { w.node i with member := m }

def setReachable (w : Network size) (address : Endpoint) (reachable : Bool) : Network size :=
  let others := w.unreachable.filter (· ≠ address)
  { w with unreachable := if reachable then others else address :: others }

def addRoute (w : Network size) (address : Endpoint) (route : Route size) : Network size :=
  { w with routes := (address, route) :: w.routes }

def route (w : Network size) (address : Endpoint) : Except TransportError (Route size) :=
  if address ∈ w.unreachable then .error (.unreachable address)
  else
    match w.routes.lookup address with
    | some r => .ok r
    | none => .error (.connectionFailed address "no route")

def placeSyn (w : Network size) (address : Endpoint) (body : Syn) :
    Network size × Except TransportError (Route size) :=
  let w := { w with synCalls := w.synCalls + 1 }
  match w.route address with
  | .error e => (w, .error e)
  | .ok r => ({ w with traffic := w.traffic ++ [.syn address body] }, .ok r)

def placeAck (w : Network size) (address : Endpoint) (body : Ack) :
    Network size × Except TransportError (Route size) :=
  let w := { w with ackCalls := w.ackCalls + 1 }
  match w.route address with
  | .error e => (w, .error e)
  | .ok r => ({ w with traffic := w.traffic ++ [.ack address body] }, .ok r)

def answerSyn (w : Network size) (handler : Handler size) (body : Syn) : Network size × SynAck :=
  match handler with
  | .prepared answer => (w, answer)
  | .node i =>
      let (m, answer) := (w.member i).answer w.clock body
      (w.setMember i m, answer)

def serveSyn (w : Network size) (address : Endpoint) (route : Route size) (body : Syn) :
    Network size × SynAck :=
  let (w, answer) := w.answerSyn route.handler body
  (if route.cutAfterSyn then w.setReachable address false else w, answer)

def serveAck (w : Network size) (route : Route size) (body : Ack) : Network size :=
  match route.handler with
  | .prepared _ => w
  | .node i => w.setMember i ((w.member i).absorb w.clock body)

def closeExchange (w : Network size) (time : Nat) (target : Target) (report : ExchangeReport)
    (ack : Option Ack) : Network size × Stage size :=
  match ack with
  | none => (w, .ended (.ok report))
  | some body =>
      match w.placeAck target.address body with
      | (w, .error e) => (w, .ended (.error e))
      | (w, .ok route) =>
          if route.ackDelay = 0 then (w.serveAck route body, .ended (.ok report))
          else (w, .waiting ⟨target, route, .ack report body, time + route.ackDelay⟩)

def hearAnswer (w : Network size) (time : Nat) (i : Fin size) (target : Target)
    (route : Route size) (owned : Peer) (body : Syn) : Network size × Stage size :=
  let (w, answer) := w.serveSyn target.address route body
  let (m, report, ack) := (w.member i).learn w.clock target owned answer
  (w.setMember i m).closeExchange time target report ack

def openExchange (w : Network size) (time : Nat) (i : Fin size) (target : Target) :
    Network size × Stage size :=
  let registry := (w.member i).registry
  let body := registry.opening w.clock target
  match w.placeSyn target.address body with
  | (w, .error e) => (w, .ended (.error e))
  | (w, .ok route) =>
      if route.synDelay = 0 then w.hearAnswer time i target route registry.owned body
      else (w, .waiting ⟨target, route, .syn registry.owned body, time + route.synDelay⟩)

def resume (w : Network size) (i : Fin size) (p : Pending size) : Network size × Stage size :=
  match p.call with
  | .syn owned body => w.hearAnswer p.due i p.target p.route owned body
  | .ack report body => (w.serveAck p.route body, .ended (.ok report))

theorem rank_closeExchange_le (w : Network size) (time : Nat) (target : Target)
    (report : ExchangeReport) (ack : Option Ack) :
    (w.closeExchange time target report ack).2.rank ≤ 1 := by
  unfold closeExchange
  split
  · simp [Stage.rank]
  · split
    · simp [Stage.rank]
    · split <;> simp [Stage.rank, Call.rank]

theorem rank_openExchange_le (w : Network size) (time : Nat) (i : Fin size) (target : Target) :
    (w.openExchange time i target).2.rank ≤ 2 := by
  unfold openExchange
  simp only []
  split
  · simp [Stage.rank]
  · split
    · exact Nat.le_trans (rank_closeExchange_le ..) (by omega)
    · simp [Stage.rank, Call.rank]

theorem rank_resume_lt (w : Network size) (i : Fin size) (p : Pending size) :
    (w.resume i p).2.rank < p.call.rank := by
  unfold resume
  cases h : p.call with
  | syn owned body => exact Nat.lt_of_le_of_lt (rank_closeExchange_le ..) (by simp [Call.rank])
  | ack report body => simp [Stage.rank, Call.rank]

def finishExchange (w : Network size) (i : Fin size) (stage : Stage size) :
    Network size × Except TransportError ExchangeReport :=
  match stage with
  | .ended outcome => (w, outcome)
  | .waiting p =>
      have := rank_resume_lt w i p
      finishExchange (w.resume i p).1 i (w.resume i p).2
termination_by stage.rank
decreasing_by simpa [Stage.rank] using this

def exchange (w : Network size) (i : Fin size) (target : Target) :
    Network size × Except RoundError ExchangeReport :=
  let (w, stage) := w.openExchange 0 i target
  let (w, outcome) := w.finishExchange i stage
  (w, outcome.mapError (.network target.address))

def record (policy : FailurePolicy) (target : Target) (report : RoundReport) :
    Except TransportError ExchangeReport → Except RoundError RoundReport
  | .ok x => .ok { report with exchanges := report.exchanges ++ [x] }
  | .error e =>
      match policy with
      | .abortRound => .error (.network target.address e)
      | .isolateTargets =>
          .ok { report with failures := report.failures ++ [.network target.address e] }

def countExchange (w : Network size) (i : Fin size) :
    Except TransportError ExchangeReport → Network size
  | .ok _ =>
      let n := w.node i
      w.setNode i { n with stats := { n.stats with exchanges := n.stats.exchanges + 1 } }
  | .error _ => w

def contactAll (w : Network size) (time : Nat) (i : Fin size) (report : RoundReport) :
    List Target → Network size × Progress size
  | [] => (w, .ended (.ok report))
  | t :: ts =>
      match w.openExchange time i t with
      | (w, .waiting p) => (w, .waiting p ⟨i, report, ts⟩)
      | (w, .ended outcome) =>
          let w := w.countExchange i outcome
          match record (w.node i).settings.policy t report outcome with
          | .error e => (w, .ended (.error e))
          | .ok report => w.contactAll time i report ts

def beginRound (w : Network size) (time : Nat) (i : Fin size) : Network size × Progress size :=
  let (n, targets) := (w.node i).prepare w.clock
  let w := w.setNode i n
  match targets with
  | .error e => (w, .ended (.error e))
  | .ok ts => w.contactAll time i ⟨ts.map (·.address), [], []⟩ ts

def continueRound (w : Network size) (p : Pending size) (c : Course size) :
    Network size × Progress size :=
  match w.resume c.node p with
  | (w, .waiting q) => (w, .waiting q c)
  | (w, .ended outcome) =>
      let w := w.countExchange c.node outcome
      match record (w.node c.node).settings.policy p.target c.report outcome with
      | .error e => (w, .ended (.error e))
      | .ok report => w.contactAll p.due c.node report c.ahead

theorem rank_contactAll_le (w : Network size) (time : Nat) (i : Fin size) (report : RoundReport)
    (ts : List Target) : (w.contactAll time i report ts).2.rank ≤ 2 * ts.length := by
  induction ts generalizing w report with
  | nil => simp [contactAll, Progress.rank]
  | cons t ts ih =>
      have opened := rank_openExchange_le w time i t
      unfold contactAll
      split
      · rename_i p h
        rw [h] at opened
        simp only [Stage.rank] at opened
        simp only [Progress.rank, List.length_cons]
        omega
      · simp only []
        split
        · simp [Progress.rank]
        · exact Nat.le_trans (ih ..) (by simp only [List.length_cons]; omega)

theorem rank_continueRound_lt (w : Network size) (p : Pending size) (c : Course size) :
    (w.continueRound p c).2.rank < (Progress.waiting p c).rank := by
  have resumed := rank_resume_lt w c.node p
  have positive : 0 < p.call.rank := by cases p.call <;> simp [Call.rank]
  unfold continueRound
  split
  · rename_i q h
    rw [h] at resumed
    simp only [Stage.rank] at resumed
    simp only [Progress.rank]
    omega
  · simp only []
    split
    · simp only [Progress.rank]; omega
    · exact Nat.lt_of_le_of_lt (rank_contactAll_le ..) (by simp only [Progress.rank]; omega)

def finishRound (limit : Option Nat) (w : Network size) (progress : Progress size) :
    Network size × Except RoundError RoundReport :=
  match progress with
  | .ended outcome => (w, outcome)
  | .waiting p c =>
      match limit.filter (· < p.due) with
      | some ms => (w, .error (.timedOut ms))
      | none =>
          have := rank_continueRound_lt w p c
          finishRound limit (w.continueRound p c).1 (w.continueRound p c).2
termination_by progress.rank

def runRound (w : Network size) (i : Fin size) : Network size × Except RoundError RoundReport :=
  let (w, progress) := w.beginRound 0 i
  finishRound none w progress

def runRoundWithin (w : Network size) (i : Fin size) :
    Network size × Except RoundError RoundReport :=
  let limit := (w.node i).settings.roundTimeoutMs
  let (w, progress) := w.beginRound 0 i
  finishRound (some limit) w progress

end Network

end Epidemic
