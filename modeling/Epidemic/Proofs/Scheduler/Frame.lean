import Epidemic.Proofs.Exchange.Effect
import Epidemic.Scheduler

namespace Epidemic

abbrev Returns : Type := List (Except TransportError ExchangeReport)

def Returns.good (returns : Returns) : Nat :=
  returns.countP (·.isOk)

theorem Returns.good_cons (outcome : Except TransportError ExchangeReport) (returns : Returns) :
    Returns.good (outcome :: returns) = Returns.good [outcome] + returns.good := by
  rw [Returns.good, ← List.singleton_append, List.countP_append]
  rfl

def RoundError.Fits (s : GossipSettings) : RoundError → Prop
  | .noSeeds => True
  | .network _ _ => s.policy = .abortRound
  | .timedOut limitMs => limitMs = s.roundTimeoutMs

def Progress.Fits {size : Nat} (i : Fin size) (s : GossipSettings) : Progress size → Prop
  | .waiting _ c => c.node = i
  | .ended (.ok _) => True
  | .ended (.error e) => e.Fits s

namespace Network

variable {size : Nat} {w w' w'' : Network size} {i : Fin size} {n m : Nat}

structure SameCounts (w w' : Network size) : Prop where
  settings : ∀ j, (w'.node j).settings = (w.node j).settings
  stats : ∀ j, (w'.node j).stats = (w.node j).stats

namespace SameCounts

theorem refl (w : Network size) : w.SameCounts w :=
  ⟨fun _ => rfl, fun _ => rfl⟩

theorem trans (h : w.SameCounts w') (h' : w'.SameCounts w'') : w.SameCounts w'' :=
  ⟨fun j => (h'.settings j).trans (h.settings j), fun j => (h'.stats j).trans (h.stats j)⟩

theorem of_nodes (same : w'.nodes = w.nodes) : w.SameCounts w' := by
  have node (j : Fin size) : w'.node j = w.node j := by rw [Network.node, same, Network.node]
  exact ⟨fun j => by rw [node], fun j => by rw [node]⟩

end SameCounts

theorem sameCounts_setNode {p : Node} (settings : p.settings = (w.node i).settings)
    (stats : p.stats = (w.node i).stats) : w.SameCounts (w.setNode i p) := by
  constructor <;> intro j <;> by_cases same : i = j
  · rw [← same, node_setNode, settings]
  · rw [node_setNode_ne w p same]
  · rw [← same, node_setNode, stats]
  · rw [node_setNode_ne w p same]

theorem sameCounts_setMember (w : Network size) (i : Fin size) (member : Member) :
    w.SameCounts (w.setMember i member) :=
  sameCounts_setNode rfl rfl

theorem sameCounts_answerSyn (w : Network size) (handler : Handler size) (body : Wire.Syn) :
    w.SameCounts (w.answerSyn handler body).1 := by
  cases handler with
  | prepared answer => exact .refl w
  | node i => exact sameCounts_setMember ..

theorem sameCounts_serveSyn (w : Network size) (address : Endpoint) (route : Route size)
    (body : Wire.Syn) : w.SameCounts (w.serveSyn address route body).1 := by
  have answered := sameCounts_answerSyn w route.handler body
  unfold serveSyn
  dsimp only
  split
  · exact answered.trans (.of_nodes rfl)
  · exact answered

theorem sameCounts_serveAck (w : Network size) (route : Route size) (body : Wire.Ack) :
    w.SameCounts (w.serveAck route body) := by
  unfold serveAck
  split
  · exact .refl w
  · exact sameCounts_setMember w _ _

theorem sameCounts_placeSyn (w : Network size) (address : Endpoint) (body : Wire.Syn) :
    w.SameCounts (w.placeSyn address body).1 := by
  unfold placeSyn
  dsimp only
  split <;> exact .of_nodes rfl

theorem sameCounts_placeAck (w : Network size) (address : Endpoint) (body : Wire.Ack) :
    w.SameCounts (w.placeAck address body).1 := by
  unfold placeAck
  dsimp only
  split <;> exact .of_nodes rfl

theorem sameCounts_closeExchange (w : Network size) (time : Nat) (target : Target)
    (report : ExchangeReport) (ack : Option Wire.Ack) :
    w.SameCounts (w.closeExchange time target report ack).1 := by
  unfold closeExchange
  split
  · exact .refl w
  · rename_i body
    have placed := sameCounts_placeAck w target.address body
    split <;> rename_i attempt <;> rw [attempt] at placed
    · exact placed
    · split
      · exact placed.trans (sameCounts_serveAck ..)
      · exact placed

theorem sameCounts_hearAnswer (w : Network size) (time : Nat) (i : Fin size) (target : Target)
    (route : Route size) (owned : Peer) (body : Wire.Syn) :
    w.SameCounts (w.hearAnswer time i target route owned body).1 :=
  (sameCounts_serveSyn ..).trans ((sameCounts_setMember ..).trans (sameCounts_closeExchange ..))

theorem sameCounts_openExchange (w : Network size) (time : Nat) (i : Fin size)
    (target : Target) : w.SameCounts (w.openExchange time i target).1 := by
  unfold openExchange
  dsimp only
  have placed := sameCounts_placeSyn w target.address
    ((w.member i).registry.opening w.clock target)
  split <;> rename_i attempt <;> rw [attempt] at placed
  · exact placed
  · split
    · exact placed.trans (sameCounts_hearAnswer ..)
    · exact placed

theorem sameCounts_resume (w : Network size) (i : Fin size) (p : Pending size) :
    w.SameCounts (w.resume i p).1 := by
  unfold resume
  split
  · exact sameCounts_hearAnswer ..
  · exact sameCounts_serveAck ..

structure Gains (w : Network size) (i : Fin size) (n : Nat) (w' : Network size) : Prop where
  settings : ∀ j, (w'.node j).settings = (w.node j).settings
  stats : ∀ j, (w'.node j).stats =
    { (w.node j).stats with
      exchanges := (w.node j).stats.exchanges + if i = j then n else 0 }

theorem SameCounts.gains (h : w.SameCounts w') (i : Fin size) : w.Gains i 0 w' :=
  ⟨h.settings, fun j => by simp [h.stats]⟩

namespace Gains

theorem trans (h : w.Gains i n w') (h' : w'.Gains i m w'') : w.Gains i (n + m) w'' := by
  refine ⟨fun j => (h'.settings j).trans (h.settings j), fun j => ?_⟩
  rw [h'.stats, h.stats]
  split <;> simp only [Nat.add_assoc, Nat.add_zero]

theorem started (h : w.Gains i n w') (j : Fin size) :
    (w'.node j).stats.started = (w.node j).stats.started := by
  rw [h.stats]

end Gains

theorem gains_countExchange (w : Network size) (i : Fin size)
    (outcome : Except TransportError ExchangeReport) :
    w.Gains i (Returns.good [outcome]) (w.countExchange i outcome) := by
  cases outcome with
  | ok report =>
      constructor <;> intro j <;> by_cases same : i = j
      · rw [← same, countExchange, node_setNode]
      · rw [countExchange, node_setNode_ne _ _ same]
      · subst same
        simp [countExchange, Returns.good, Except.isOk, Except.toBool]
      · rw [countExchange, node_setNode_ne _ _ same, if_neg same, Nat.add_zero]
  | error e => exact (SameCounts.refl w).gains i

def contactReturns (w : Network size) (time : Nat) (i : Fin size) (report : RoundReport) :
    List Target → Returns
  | [] => []
  | t :: ts =>
      match w.openExchange time i t with
      | (_, .waiting _) => []
      | (w, .ended outcome) =>
          let w := w.countExchange i outcome
          outcome ::
            match record (w.node i).settings.policy t report outcome with
            | .error _ => []
            | .ok report => w.contactReturns time i report ts

def beginReturns (w : Network size) (time : Nat) (i : Fin size) : Returns :=
  let (n, targets) := (w.node i).prepare w.clock
  match targets with
  | .error _ => []
  | .ok ts => (w.setNode i n).contactReturns time i ⟨ts.map (·.address), [], []⟩ ts

def continueReturns (w : Network size) (p : Pending size) (c : Course size) : Returns :=
  match w.resume c.node p with
  | (_, .waiting _) => []
  | (w, .ended outcome) =>
      let w := w.countExchange c.node outcome
      outcome ::
        match record (w.node c.node).settings.policy p.target c.report outcome with
        | .error _ => []
        | .ok report => w.contactReturns p.due c.node report c.ahead

structure Part (w : Network size) (i : Fin size) (returns : Returns)
    (result : Network size × Progress size) : Prop where
  gains : w.Gains i returns.good result.1
  fits : result.2.Fits i (w.node i).settings

theorem Part.after {returns : Returns} {result : Network size × Progress size}
    (same : w.SameCounts w') (h : w'.Part i returns result) : w.Part i returns result := by
  refine ⟨?_, same.settings i ▸ h.fits⟩
  rw [← Nat.zero_add returns.good]
  exact (same.gains i).trans h.gains

theorem fits_record {policy : FailurePolicy} {target : Target} {report : RoundReport}
    {outcome : Except TransportError ExchangeReport} {e : RoundError}
    (h : record policy target report outcome = .error e) {s : GossipSettings}
    (same : s.policy = policy) : e.Fits s := by
  unfold record at h
  split at h
  · cases h
  · split at h
    · cases h
      exact same
    · cases h

theorem part_outcome {outcome : Except TransportError ExchangeReport} {target : Target}
    {report : RoundReport} {returns : RoundReport → Returns}
    {results : RoundReport → Network size × Progress size}
    (ended : w.SameCounts w')
    (rest : ∀ report, (w'.countExchange i outcome).Part i (returns report) (results report)) :
    let w' := w'.countExchange i outcome
    let verdict := record (w'.node i).settings.policy target report outcome
    w.Part i
      (outcome :: match verdict with
        | .error _ => []
        | .ok report => returns report)
      (match verdict with
        | .error e => (w', .ended (.error e))
        | .ok report => results report) := by
  intro v verdict
  have counted := (ended.gains i).trans (gains_countExchange w' i outcome)
  rw [Nat.zero_add] at counted
  have settings : (v.node i).settings = (w.node i).settings := counted.settings i
  cases decided : verdict with
  | error e => exact ⟨counted, fits_record decided (congrArg _ settings.symm)⟩
  | ok report =>
      refine ⟨?_, settings ▸ (rest report).fits⟩
      rw [Returns.good_cons]
      exact counted.trans (rest report).gains

theorem part_contactAll (w : Network size) (time : Nat) (i : Fin size) (report : RoundReport)
    (ts : List Target) :
    w.Part i (w.contactReturns time i report ts) (w.contactAll time i report ts) := by
  induction ts generalizing w report with
  | nil => exact ⟨(SameCounts.refl w).gains i, trivial⟩
  | cons t ts ih =>
      have opened := sameCounts_openExchange w time i t
      cases attempt : w.openExchange time i t with
      | mk v stage =>
          rw [attempt] at opened
          simp only [contactReturns, contactAll, attempt]
          cases stage with
          | waiting p => exact ⟨opened.gains i, rfl⟩
          | ended outcome => exact part_outcome opened fun report => ih ..

theorem sameCounts_prepare (w : Network size) (i : Fin size) :
    w.SameCounts (w.setNode i ((w.node i).prepare w.clock).1) := by
  have refreshed : ((w.node i).refreshed w.clock).settings = (w.node i).settings ∧
      ((w.node i).refreshed w.clock).stats = (w.node i).stats := by
    unfold Node.refreshed
    split
    · exact ⟨rfl, rfl⟩
    · split <;> exact ⟨rfl, rfl⟩
  exact sameCounts_setNode refreshed.1 refreshed.2

theorem error_targets {r : Registry} {s : Selector} {e : RoundError}
    (h : (r.targets s).2 = .error e) : e = .noSeeds := by
  unfold Registry.targets at h
  split at h
  · exact (Except.error.inj h).symm
  · split at h <;> cases h

theorem part_beginRound (w : Network size) (time : Nat) (i : Fin size) :
    w.Part i (w.beginReturns time i) (w.beginRound time i) := by
  refine .after (sameCounts_prepare w i) ?_
  unfold beginReturns beginRound
  dsimp only
  cases targets : ((w.node i).prepare w.clock).2 with
  | error e =>
      obtain rfl : e = .noSeeds := error_targets targets
      exact ⟨(SameCounts.refl _).gains i, trivial⟩
  | ok ts => exact part_contactAll ..

theorem part_continueRound (w : Network size) (p : Pending size) (c : Course size) :
    w.Part c.node (w.continueReturns p c) (w.continueRound p c) := by
  have resumed := sameCounts_resume w c.node p
  unfold continueReturns continueRound
  cases attempt : w.resume c.node p with
  | mk v stage =>
      rw [attempt] at resumed
      cases stage with
      | waiting q => exact ⟨resumed.gains c.node, rfl⟩
      | ended outcome => exact part_outcome resumed fun report => part_contactAll ..

end Network

end Epidemic
