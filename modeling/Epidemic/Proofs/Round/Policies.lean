import Epidemic.Proofs.Round.Contacts

namespace Epidemic

open Wire (Record Syn SynAck Ack)

namespace Node

def withPolicy (n : Node) (policy : FailurePolicy) : Node :=
  { n with settings := { n.settings with policy := policy } }

theorem prepare_withPolicy (n : Node) (policy : FailurePolicy) (now : Instant) :
    (n.withPolicy policy).prepare now =
      ((n.prepare now).1.withPolicy policy, (n.prepare now).2) := by
  have refreshed : (n.withPolicy policy).refreshed now = (n.refreshed now).withPolicy policy := by
    have same : (n.withPolicy policy).refresher = n.refresher := rfl
    simp only [Node.refreshed, same]
    cases n.refresher with
    | none => rfl
    | some f =>
        have same : (n.withPolicy policy).registry = n.registry := rfl
        simp only [same]
        cases f.refresh now n.registry <;> rfl
  rw [prepare, refreshed]
  rfl

theorem prepare_of_unmeasured {n : Node} {f : Refresher} {now : Instant} {e : ProbeError}
    (measured : n.refresher = some f) (failed : f.refresh now n.registry = .error e) :
    n.prepare now = n.selectTargets := by
  simp only [prepare, refreshed, measured, failed]

theorem prepare_error {n : Node} {now : Instant} {e : RoundError}
    (h : (n.prepare now).2 = .error e) : e = .noSeeds :=
  Network.error_targets h

end Node

namespace Network

variable {size : Nat} {w : Network size} {i j : Fin size} {policy : FailurePolicy} {t : Target}
  {report : RoundReport} {ts : List Target}

def withPolicy (w : Network size) (i : Fin size) (policy : FailurePolicy) : Network size :=
  w.setNode i ((w.node i).withPolicy policy)

theorem node_withPolicy (w : Network size) (i : Fin size) (policy : FailurePolicy) :
    (w.withPolicy i policy).node i = (w.node i).withPolicy policy :=
  node_setNode ..

theorem member_withPolicy (w : Network size) (i j : Fin size) (policy : FailurePolicy) :
    (w.withPolicy i policy).member j = w.member j := by
  by_cases same : i = j
  · subst same
    rw [member, node_withPolicy]
    rfl
  · rw [member, withPolicy, node_setNode_ne _ _ same, member]

theorem setMember_withPolicy (w : Network size) (i j : Fin size) (policy : FailurePolicy)
    (m : Member) :
    (w.withPolicy i policy).setMember j m = (w.setMember j m).withPolicy i policy := by
  by_cases same : i = j
  · subst same
    rw [setMember, node_withPolicy, withPolicy, setNode_setNode, withPolicy, setMember,
      setNode_setNode, node_setNode]
    rfl
  · have first : (w.withPolicy i policy).node j = w.node j := node_setNode_ne _ _ same
    have second : (w.setMember j m).node i = w.node i := node_setMember_ne w m (Ne.symm same)
    rw [setMember, first, withPolicy, withPolicy, second]
    exact setNode_comm w same _ _

theorem answerSyn_withPolicy (w : Network size) (i : Fin size) (policy : FailurePolicy)
    (handler : Handler size) (body : Syn) :
    (w.withPolicy i policy).answerSyn handler body =
      ((w.answerSyn handler body).1.withPolicy i policy, (w.answerSyn handler body).2) := by
  cases handler with
  | prepared answer => rfl
  | node j =>
      simp only [answerSyn, member_withPolicy, setMember_withPolicy]
      rfl

theorem serveSyn_withPolicy (w : Network size) (i : Fin size) (policy : FailurePolicy)
    (address : Endpoint) (route : Route size) (body : Syn) :
    (w.withPolicy i policy).serveSyn address route body =
      ((w.serveSyn address route body).1.withPolicy i policy,
        (w.serveSyn address route body).2) := by
  simp only [serveSyn, answerSyn_withPolicy]
  split <;> rfl

theorem serveAck_withPolicy (w : Network size) (i : Fin size) (policy : FailurePolicy)
    (route : Route size) (body : Ack) :
    (w.withPolicy i policy).serveAck route body = (w.serveAck route body).withPolicy i policy := by
  cases served : route.handler with
  | prepared answer => simp only [serveAck, served]
  | node j =>
      rw [serveAck_of_node _ served, serveAck_of_node _ served, member_withPolicy,
        setMember_withPolicy]
      rfl

theorem synchronize_withPolicy (w : Network size) (i : Fin size) (policy : FailurePolicy)
    (address : Endpoint) (body : Syn) :
    carrier.synchronize address body (w.withPolicy i policy) =
      ((carrier.synchronize address body w).1,
        (carrier.synchronize address body w).2.withPolicy i policy) := by
  have same : (w.withPolicy i policy).route address = w.route address := rfl
  simp only [carrier]
  cases reached : w.route address with
  | error e =>
      rw [placeSyn_of_error (same.trans reached), placeSyn_of_error reached]
      rfl
  | ok route =>
      rw [placeSyn_of_ok (same.trans reached), placeSyn_of_ok reached]
      exact congrArg (fun served => (Except.ok served.2, served.1))
        (serveSyn_withPolicy { w with
          synCalls := w.synCalls + 1, traffic := w.traffic ++ [.syn address body] } i policy
          address route body)

theorem acknowledge_withPolicy (w : Network size) (i : Fin size) (policy : FailurePolicy)
    (t : Target) (body : Ack) :
    carrier.acknowledge t.address body (w.withPolicy i policy) =
      ((carrier.acknowledge t.address body w).1,
        (carrier.acknowledge t.address body w).2.withPolicy i policy) := by
  have same : (w.withPolicy i policy).route t.address = w.route t.address := rfl
  simp only [carrier]
  cases reached : w.route t.address with
  | error e =>
      rw [placeAck_of_error (same.trans reached), placeAck_of_error reached]
      rfl
  | ok route =>
      rw [placeAck_of_ok (same.trans reached), placeAck_of_ok reached]
      exact congrArg (Prod.mk _) (serveAck_withPolicy (w.closed t body) i policy route body)

theorem conclude_withPolicy (w : Network size) (i : Fin size) (policy : FailurePolicy) (t : Target)
    (report : ExchangeReport) (ack : Option Ack) :
    (w.withPolicy i policy).conclude t report ack =
      ((w.conclude t report ack).1.withPolicy i policy, (w.conclude t report ack).2) := by
  cases ack with
  | none => rfl
  | some body => simp only [conclude, acknowledge_withPolicy]

theorem trade_withPolicy (w : Network size) (i : Fin size) (policy : FailurePolicy) (t : Target) :
    (w.withPolicy i policy).trade i t =
      ((w.trade i t).1.withPolicy i policy, (w.trade i t).2) := by
  have clock (w : Network size) : (w.withPolicy i policy).clock = w.clock := rfl
  simp only [trade, member_withPolicy, synchronize_withPolicy, clock]
  rcases carrier.synchronize t.address ((w.member i).registry.opening w.clock t) w with
    ⟨e | answer, after⟩
  · rfl
  · simp only [member_withPolicy, setMember_withPolicy, conclude_withPolicy, clock]

theorem countExchange_withPolicy (w : Network size) (i : Fin size) (policy : FailurePolicy)
    (outcome : Except TransportError ExchangeReport) :
    (w.withPolicy i policy).countExchange i outcome =
      (w.countExchange i outcome).withPolicy i policy := by
  cases outcome with
  | error e => rfl
  | ok report =>
      simp only [countExchange, withPolicy, node_setNode, setNode_setNode]
      rfl

theorem visit_withPolicy (w : Network size) (i : Fin size) (policy : FailurePolicy) (t : Target) :
    (w.withPolicy i policy).visit i t =
      ((w.visit i t).1.withPolicy i policy, (w.visit i t).2) := by
  simp only [visit_eq, trade_withPolicy, countExchange_withPolicy]

theorem visitAll_withPolicy (w : Network size) (i : Fin size) (policy : FailurePolicy)
    (ts : List Target) :
    (w.withPolicy i policy).visitAll i ts =
      ((w.visitAll i ts).1.withPolicy i policy, (w.visitAll i ts).2) := by
  induction ts generalizing w with
  | nil => rfl
  | cons t ts ih => simp only [visitAll, visit_withPolicy, ih]

theorem talk_visit (w : Network size) (i : Fin size) (report : RoundReport) (t : Target)
    (ts : List Target) :
    w.talk i report (t :: ts) =
      match (w.visit i t).2, (w.node i).settings.policy with
      | .ok x, _ => (w.visit i t).1.talk i { report with exchanges := report.exchanges ++ [x] } ts
      | .error e, .abortRound => ((w.visit i t).1, .error e)
      | .error e, .isolateTargets =>
          (w.visit i t).1.talk i { report with failures := report.failures ++ [e] } ts := by
  have kept : ((w.visit i t).1.node i).settings = (w.node i).settings :=
    (gains_visit w i t).settings i
  rw [visit_eq] at kept ⊢
  rw [talk_cons, proceed]
  simp only at kept ⊢
  rw [kept]
  cases (w.trade i t).2 with
  | ok x => rfl
  | error e => cases (w.node i).settings.policy <;> rfl

theorem talk_clean {good : List ExchangeReport} (clean : (w.visitAll i ts).2 = good.map .ok)
    (report : RoundReport) (us : List Target) :
    w.talk i report (ts ++ us) =
      (w.visitAll i ts).1.talk i { report with exchanges := report.exchanges ++ good } us := by
  induction ts generalizing w report good with
  | nil =>
      obtain rfl : good = [] := List.map_eq_nil_iff.mp clean.symm
      simp only [visitAll, List.nil_append, List.append_nil]
  | cons t ts ih =>
      obtain ⟨x, good, rfl, first, clean⟩ := List.map_eq_cons_iff.mp clean.symm
      rw [List.cons_append, talk_visit, ← first]
      simp only [visitAll]
      rw [ih clean.symm, List.append_assoc, List.singleton_append]

theorem talk_isolate (patient : (w.node i).settings.policy = .isolateTargets)
    (report : RoundReport) :
    w.talk i report ts =
      ((w.visitAll i ts).1, .ok { report with
        exchanges := report.exchanges ++ (w.visitAll i ts).2.reports
        failures := report.failures ++ (w.visitAll i ts).2.failures }) := by
  induction ts generalizing w report with
  | nil => simp only [talk, visitAll, Outcomes.reports_nil, Outcomes.failures_nil, List.append_nil]
  | cons t ts ih =>
      have kept : ((w.visit i t).1.node i).settings.policy = .isolateTargets :=
        (congrArg _ ((gains_visit w i t).settings i)).trans patient
      rw [talk_visit, patient]
      simp only [visitAll]
      cases (w.visit i t).2 with
      | ok x =>
          simp only [ih kept, Outcomes.reports_ok, Outcomes.failures_ok, List.append_assoc,
            List.singleton_append]
      | error e =>
          simp only [ih kept, Outcomes.reports_error, Outcomes.failures_error, List.append_assoc,
            List.singleton_append]

theorem talk_of_clean {good : List ExchangeReport} (clean : (w.visitAll i ts).2 = good.map .ok)
    (report : RoundReport) :
    w.talk i report ts =
      ((w.visitAll i ts).1, .ok { report with exchanges := report.exchanges ++ good }) := by
  have ended := talk_clean clean report []
  rwa [List.append_nil] at ended

theorem visitAll_snoc (w : Network size) (i : Fin size) (ts : List Target) (t : Target) :
    w.visitAll i (ts ++ [t]) =
      (((w.visitAll i ts).1.visit i t).1,
        (w.visitAll i ts).2 ++ [((w.visitAll i ts).1.visit i t).2]) :=
  visitAll_append w i ts [t]

theorem talk_abort {before rest : List Target} {good : List ExchangeReport} {e : RoundError}
    (strict : (w.node i).settings.policy = .abortRound)
    (clean : (w.visitAll i before).2 = good.map .ok)
    (failed : ((w.visitAll i before).1.visit i t).2 = .error e) (report : RoundReport) :
    w.talk i report (before ++ t :: rest) =
      ((w.visitAll i (before ++ [t])).1, .error e) := by
  have kept : ((w.visitAll i before).1.node i).settings.policy = .abortRound :=
    (congrArg _ ((toured_visitAll w i before).gains.settings i)).trans strict
  rw [talk_clean clean, talk_visit, failed, kept, visitAll_snoc]

theorem policy_withPolicy (w : Network size) (i : Fin size) (policy : FailurePolicy) :
    ((w.withPolicy i policy).node i).settings.policy = policy := by
  rw [node_withPolicy]
  rfl

theorem talk_withPolicy {good : List ExchangeReport} (clean : (w.visitAll i ts).2 = good.map .ok)
    (report : RoundReport) :
    (w.withPolicy i policy).talk i report ts =
      ((w.visitAll i ts).1.withPolicy i policy,
        .ok { report with exchanges := report.exchanges ++ good }) := by
  have same := visitAll_withPolicy w i policy ts
  have clean : ((w.withPolicy i policy).visitAll i ts).2 = good.map .ok := same ▸ clean
  rw [talk_of_clean clean, same]

theorem talk_withIsolation (w : Network size) (i : Fin size) (report : RoundReport)
    (ts : List Target) :
    (w.withPolicy i .isolateTargets).talk i report ts =
      ((w.visitAll i ts).1.withPolicy i .isolateTargets, .ok { report with
        exchanges := report.exchanges ++ (w.visitAll i ts).2.reports
        failures := report.failures ++ (w.visitAll i ts).2.failures }) := by
  rw [talk_isolate (policy_withPolicy ..), visitAll_withPolicy]

theorem talk_withAbort {before rest : List Target} {good : List ExchangeReport} {e : RoundError}
    (clean : (w.visitAll i before).2 = good.map .ok)
    (failed : ((w.visitAll i before).1.visit i t).2 = .error e) (report : RoundReport) :
    (w.withPolicy i .abortRound).talk i report (before ++ t :: rest) =
      ((w.visitAll i (before ++ [t])).1.withPolicy i .abortRound, .error e) := by
  have same := visitAll_withPolicy w i .abortRound before
  have clean : ((w.withPolicy i .abortRound).visitAll i before).2 = good.map .ok := same ▸ clean
  have failed : (((w.withPolicy i .abortRound).visitAll i before).1.visit i t).2 = .error e := by
    rw [same, visit_withPolicy]
    exact failed
  rw [talk_abort (policy_withPolicy ..) clean failed, visitAll_withPolicy]

theorem visitAll_clean_or (w : Network size) (i : Fin size) (ts : List Target) :
    (∃ good : List ExchangeReport, (w.visitAll i ts).2 = good.map .ok) ∨
      ∃ before t rest, ∃ good : List ExchangeReport, ∃ e, ts = before ++ t :: rest ∧
        (w.visitAll i before).2 = good.map .ok ∧
        ((w.visitAll i before).1.visit i t).2 = .error e := by
  induction ts generalizing w with
  | nil => exact .inl ⟨[], rfl⟩
  | cons t ts ih =>
      cases ended : (w.visit i t).2 with
      | error e => exact .inr ⟨[], t, ts, [], e, rfl, rfl, ended⟩
      | ok x =>
          obtain ⟨good, clean⟩ | ⟨before, u, rest, good, e, rfl, clean, failed⟩ :=
            ih (w.visit i t).1
          · exact .inl ⟨x :: good, by simp only [visitAll, ended, clean, List.map_cons]⟩
          · refine .inr ⟨t :: before, u, rest, x :: good, e, rfl, ?_, failed⟩
            simp only [visitAll, ended, clean, List.map_cons]

theorem runRound_withPolicy (w : Network size) (i : Fin size) (policy : FailurePolicy) :
    let prepared := (w.node i).prepare w.clock
    let start := (w.setNode i prepared.1).withPolicy i policy
    (w.withPolicy i policy).runRound i =
      match prepared.2 with
      | .error e => (start, .error e)
      | .ok ts => start.talk i ⟨ts.map (·.address), [], []⟩ ts := by
  intro prepared start
  have clock : (w.withPolicy i policy).clock = w.clock := rfl
  have same : (w.withPolicy i policy).setNode i (prepared.1.withPolicy policy) = start := by
    simp only [start, withPolicy, setNode_setNode, node_setNode]
  have ran := runRound_eq (w.withPolicy i policy) i
  simp only [node_withPolicy, Node.prepare_withPolicy, clock] at ran
  rw [same] at ran
  exact ran

theorem toured_prepare (w : Network size) (i : Fin size) (policy : FailurePolicy) :
    (w.withPolicy i policy).Toured i [] []
      ((w.setNode i ((w.node i).prepare w.clock).1).withPolicy i policy) := by
  have same : (w.setNode i ((w.node i).prepare w.clock).1).withPolicy i policy =
      (w.withPolicy i policy).setNode i
        (((w.withPolicy i policy).node i).prepare (w.withPolicy i policy).clock).1 := by
    rw [node_withPolicy, Node.prepare_withPolicy]
    simp only [withPolicy, setNode_setNode, node_setNode]
    rfl
  rw [same]
  exact ⟨rfl, ⟨[], .nil, (List.append_nil _).symm⟩, (sameCounts_prepare _ i).gains i, .nil⟩

theorem toured_start (w : Network size) (i : Fin size) (policy : FailurePolicy)
    (ts : List Target) :
    let visited := (w.setNode i ((w.node i).prepare w.clock).1).visitAll i ts
    (w.withPolicy i policy).Toured i ts visited.2 (visited.1.withPolicy i policy) := by
  intro visited
  have toured := (toured_prepare w i policy).trans (toured_visitAll _ i ts)
  rw [visitAll_withPolicy] at toured
  exact toured

theorem runRound_policies (w : Network size) (i : Fin size) :
    let prepared := (w.node i).prepare w.clock
    let start := w.setNode i prepared.1
    let abort := (w.withPolicy i .abortRound).runRound i
    let isolate := (w.withPolicy i .isolateTargets).runRound i
    (∀ f e, (w.node i).refresher = some f → f.refresh w.clock (w.member i).registry = .error e →
      start.member i = w.member i ∧ prepared = (w.node i).selectTargets) ∧
    (∀ e, prepared.2 = .error e →
      e = .noSeeds ∧ abort = (start.withPolicy i .abortRound, .error e) ∧
        isolate = (start.withPolicy i .isolateTargets, .error e)) ∧
    ∀ ts, prepared.2 = .ok ts →
      let visited := start.visitAll i ts
      let report : RoundReport :=
        ⟨ts.map (·.address), visited.2.reports, visited.2.failures⟩
      isolate = (visited.1.withPolicy i .isolateTargets, .ok report) ∧
      (∀ j, isolate.1.member j = visited.1.member j) ∧
      (w.withPolicy i .isolateTargets).Toured i ts visited.2 isolate.1 ∧
      (visited.2 = report.exchanges.map .ok ∧ report.failures = [] ∧
          abort = (visited.1.withPolicy i .abortRound, .ok report) ∧
          (∀ j, abort.1.member j = visited.1.member j) ∧
          (w.withPolicy i .abortRound).Toured i ts visited.2 abort.1 ∨
        ∃ before t rest, ∃ good : List ExchangeReport, ∃ e, ts = before ++ t :: rest ∧
          let reached := start.visitAll i (before ++ [t])
          let later := reached.1.visitAll i rest
          reached.2 = good.map .ok ++ [.error e] ∧
          visited = (later.1, reached.2 ++ later.2) ∧
          abort = (reached.1.withPolicy i .abortRound, .error e) ∧
          (∀ j, abort.1.member j = reached.1.member j) ∧
          (w.withPolicy i .abortRound).Toured i (before ++ [t]) reached.2 abort.1) := by
  intro prepared start abort isolate
  have aborted := runRound_withPolicy w i .abortRound
  have isolated := runRound_withPolicy w i .isolateTargets
  refine ⟨?_, ?_, ?_⟩
  · intro f e measured failed
    have same : prepared = (w.node i).selectTargets := Node.prepare_of_unmeasured measured failed
    refine ⟨?_, same⟩
    rw [member, node_setNode, same]
    rfl
  · intro e unseeded
    simp only [prepared] at unseeded
    simp only [unseeded] at aborted isolated
    exact ⟨Node.prepare_error unseeded, aborted, isolated⟩
  · intro ts chosen visited report
    simp only [prepared] at chosen
    simp only [chosen] at aborted isolated
    have plain : isolate = (visited.1.withPolicy i .isolateTargets, .ok report) :=
      isolated.trans (talk_withIsolation start i _ ts)
    have toured := toured_start w i .isolateTargets ts
    refine ⟨plain, fun j => plain ▸ member_withPolicy .., plain ▸ toured, ?_⟩
    -- Up to the first failure the policy is not asked, so both rounds go through the same networks.
    obtain ⟨good, clean⟩ | ⟨before, t, rest, good, e, rfl, clean, failed⟩ :=
      visitAll_clean_or start i ts
    · have reports : visited.2.reports = good := by rw [clean, Outcomes.reports_map_ok]
      have failures : visited.2.failures = [] := by rw [clean, Outcomes.failures_map_ok]
      have ended : abort = (visited.1.withPolicy i .abortRound, .ok report) := by
        simp only [report, reports, failures]
        exact aborted.trans (talk_withPolicy clean _)
      exact .inl ⟨clean.trans (congrArg (List.map Except.ok) reports.symm), failures, ended,
        fun j => ended ▸ member_withPolicy .., ended ▸ toured_start w i .abortRound ts⟩
    · have ended : abort =
          ((start.visitAll i (before ++ [t])).1.withPolicy i .abortRound, .error e) :=
        aborted.trans (talk_withAbort clean failed _)
      refine .inr ⟨before, t, rest, good, e, rfl, ?_, ?_, ended,
        fun j => ended ▸ member_withPolicy .., ended ▸ toured_start w i .abortRound _⟩
      · rw [visitAll_snoc, clean, failed]
      · have split := visitAll_append start i (before ++ [t]) rest
        rwa [List.append_assoc, List.singleton_append] at split

theorem runRound_policies_cut :
    let now : Instant := .ofSeconds 200
    let stub (n : UInt8) : Peer := .stub ⟨[n]⟩ (.v4 ⟨10, 0, 0, n⟩ 7000) (.ofSeconds 100)
    let second := { stub 2 with state := some { PeerState.bootstrapping "1" 2 with status := .ok } }
    let member : Member :=
      ⟨((Registry.ofSelf (stub 1)).addSeed (stub 9).address |>.offer now true second).1, .log⟩
    let answer : SynAck :=
      { initiator := Record.ofPeer now (stub 1)
        receiver := Record.ofPeer now (stub 9)
        fresh := [Record.ofPeer now (stub 6)]
        wanted := [Record.ofPeer now second] }
    let probes : Probes := ⟨.error "", .error "", .error "", .error "", .error ""⟩
    let w : Network 2 :=
      { clock := now
        nodes := #v[⟨member, some ⟨⟨[1]⟩, 7000, "1", 2, probes, true⟩, .fixed 0, {}, {}⟩,
          ⟨⟨.ofSelf (stub 2), .log⟩, none, .fixed 0, {}, {}⟩]
        routes := [((stub 9).address, { handler := .prepared answer, cutAfterSyn := true }),
          ((stub 2).address, { handler := .node 1 })] }
    let abort := (w.withPolicy 0 .abortRound).runRound 0
    let isolate := (w.withPolicy 0 .isolateTargets).runRound 0
    let lost := RoundError.network (stub 9).address (.unreachable (stub 9).address)
    let alone := pair now (.ofSelf (stub 1)) (.ofSelf (stub 2))
    abort.2 = .error lost ∧
      (abort.1.member 0).registry.keys = [⟨[1]⟩, ⟨[2]⟩, ⟨[6]⟩] ∧
      abort.1.synCalls = 1 ∧
      (∃ report, isolate.2 = .ok ⟨[(stub 9).address, (stub 2).address], [report], [lost]⟩) ∧
      isolate.1.synCalls = 2 ∧
      ∀ policy, ((alone.withPolicy 0 policy).runRound 0).2 = .error .noSeeds := by
  intro now stub second member answer probes w
  obtain ⟨unmeasured, -, rounds⟩ := runRound_policies w 0
  generalize (w.withPolicy 0 .abortRound).runRound 0 = abort at rounds ⊢
  generalize (w.withPolicy 0 .isolateTargets).runRound 0 = isolate at rounds ⊢
  intro _ _ lost alone
  obtain ⟨-, strict, patient⟩ := (runRound_policies alone 0).2.1 .noSeeds rfl
  have unseeded : ∀ policy, ((alone.withPolicy 0 policy).runRound 0).2 = .error .noSeeds := by
    intro policy
    cases policy
    · exact congrArg Prod.snd strict
    · exact congrArg Prod.snd patient
  have kept := (unmeasured _ (.lookupFailed "lookup disabled") rfl rfl).2
  let a := Target.seed (stub 9).address
  let b := Target.ofPeer second
  let start := w.setNode 0 ((w.node 0).prepare w.clock).1
  have targets : ((w.node 0).prepare w.clock).2 = .ok [a, b] := by
    rw [kept]
    rfl
  have first : (start.visit 0 a).2 = .error lost := by
    rw [visit_eq]
    decide +kernel
  have keys : ((start.visit 0 a).1.member 0).registry.keys = [⟨[1]⟩, ⟨[2]⟩, ⟨[6]⟩] := by
    rw [visit_eq]
    decide +kernel
  have later : ((start.visit 0 a).1.visit 0 b).2.toOption.isSome = true := by
    simp only [visit_eq]
    decide +kernel
  obtain ⟨x, heard⟩ : ∃ x, ((start.visit 0 a).1.visit 0 b).2 = .ok x := by
    cases ended : ((start.visit 0 a).1.visit 0 b).2 with
    | ok x => exact ⟨x, rfl⟩
    | error e =>
        rw [ended] at later
        cases later
  have outcomes : (start.visitAll 0 [a, b]).2 = [.error lost, .ok x] := by
    simp only [visitAll, first, heard]
  obtain ⟨isolated, -, toured, ended⟩ := rounds _ targets
  obtain ⟨-, clean, -⟩ |
    ⟨before, t, rest, good, e, split, reached, visited, aborted, members, contacts⟩ := ended
  · rw [outcomes] at clean
    cases clean
  · have same := congrArg Prod.snd visited
    rw [outcomes, reached] at same
    cases good with
    | cons y good => cases same
    | nil =>
        obtain rfl : lost = e := Except.error.inj (List.cons.inj same).1
        have count := contacts.concerns.length_eq
        rw [reached, List.length_append] at count
        obtain rfl : before = [] := List.length_eq_zero_iff.mp (by simpa using count)
        obtain ⟨rfl, rfl⟩ := List.cons.inj split
        have landed := members 0
        simp only [List.nil_append, visitAll] at landed
        rw [outcomes] at isolated
        exact ⟨congrArg Prod.snd aborted, (congrArg (·.registry.keys) landed).trans keys,
          contacts.calls, ⟨x, congrArg Prod.snd isolated⟩, toured.calls, unseeded⟩

end Network

end Epidemic
