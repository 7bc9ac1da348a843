import Epidemic.Proofs.Exchange.Carrier
import Epidemic.Proofs.Exchange.Answer

namespace Epidemic

open Wire (Record Syn SynAck Ack Request)

theorem nodup_eraseDups (ks : List Key) : ks.eraseDups.Nodup := by
  induction h : ks.length using Nat.strong_induction_on generalizing ks with
  | _ n ih =>
      cases ks with
      | nil => exact List.nodup_nil
      | cons k ks =>
          have shorter : (ks.filter fun b => !b == k).length < n := by
            have := List.length_filter_le (fun b => !b == k) ks
            simp only [List.length_cons] at h
            omega
          rw [List.eraseDups_cons, List.nodup_cons, List.mem_eraseDups]
          exact ⟨by simp, ih _ shorter _ rfl⟩

theorem length_eraseDups (ks : List Key) : ks.eraseDups.length = ks.toFinset.card := by
  rw [← List.toFinset_card_of_nodup (nodup_eraseDups ks)]
  congr 1
  ext k
  simp

def Wire.SynAck.asked (answer : SynAck) : List Key :=
  answer.wanted.map fun record => Key.mk record.key

namespace Registry

def due (r : Registry) (answer : SynAck) : List Peer :=
  r.list.filter fun p => p.isDiscovered ∧ p.key ∈ answer.asked

def closingFor (r : Registry) (now : Instant) (owned : Peer) (answer : SynAck) : Ack where
  initiator := Record.ofPeer now owned
  receiver := answer.receiver
  details := Record.ofPeers now (r.due answer)

variable {r : Registry} {answer : SynAck}

theorem details_wantedKeys (r : Registry) (answer : SynAck) :
    r.details answer.wantedKeys = r.due answer := by
  refine List.filter_congr fun p _ => ?_
  rw [Bool.eq_iff_iff, Bool.and_eq_true, decide_eq_true_eq, decide_eq_true_eq, SynAck.wantedKeys,
    List.mem_eraseDups, and_comm]
  rfl

theorem conclude_eq (r : Registry) (now : Instant) (t : Target) (owned : Peer) (answer : SynAck)
    (learned : Reconciled) :
    r.conclude now t owned answer learned =
      (⟨t.address, .done, learned, answer.asked.toFinset.card, (r.due answer).length⟩,
        if r.due answer = [] then none else some (r.closingFor now owned answer)) := by
  have requested : answer.wantedKeys.length = answer.asked.toFinset.card := length_eraseDups _
  simp only [conclude, details_wantedKeys, requested, List.isEmpty_iff, closingFor]

theorem mem_due_iff {p : Peer} :
    p ∈ r.due answer ↔ p ∈ r.list ∧ p.isDiscovered = true ∧ p.key ∈ answer.asked := by
  simp [due]

theorem due_ne_nil_iff :
    r.due answer ≠ [] ↔ ∃ p ∈ r.list, p.isDiscovered = true ∧ p.key ∈ answer.asked := by
  rw [Ne, List.eq_nil_iff_forall_not_mem, not_forall_not]
  exact exists_congr fun p => mem_due_iff

theorem nodup_due (r : Registry) (answer : SynAck) : ((r.due answer).map Peer.key).Nodup :=
  nodup_key_filter r _

theorem length_due_le (r : Registry) (answer : SynAck) :
    (r.due answer).length ≤ answer.asked.toFinset.card := by
  have asked : ((r.due answer).map Peer.key).toFinset ⊆ answer.asked.toFinset := by
    intro k hk
    obtain ⟨p, hp, rfl⟩ := List.mem_map.mp (List.mem_toFinset.mp hk)
    exact List.mem_toFinset.mpr (mem_due_iff.mp hp).2.2
  rw [← List.length_map Peer.key, ← List.toFinset_card_of_nodup (nodup_due r answer)]
  exact Finset.card_le_card asked

end Registry

namespace Member

variable {σ : Type} {m : Member} {c : Carrier σ} {target : Target} {s s' : σ} {answer : SynAck}
  {report : ExchangeReport} {ack : Option Ack}

theorem exchange_of_lost {e : TransportError}
    (lost : c.synchronize target.address (m.registry.opening (c.clock s) target) s =
      (.error e, s')) :
    m.exchange c target s = (m, .error (.network target.address e), s') := by
  simp only [exchange, lost]

theorem exchange_of_heard
    (heard : c.synchronize target.address (m.registry.opening (c.clock s) target) s =
      (.ok answer, s')) :
    let merged := m.reconcile (c.clock s') (Record.toPeers answer.fresh)
    let due := merged.1.registry.due answer
    m.exchange c target s =
      merged.1.close c target s' ⟨target.address, .done, merged.2, answer.asked.toFinset.card, due.length⟩
        (if due = [] then none
          else some (merged.1.registry.closingFor (c.clock s') m.registry.owned answer)) := by
  simp only [exchange, heard, learn_eq, Registry.conclude_eq]

theorem close_fst (m : Member) (c : Carrier σ) (target : Target) (s : σ) (report : ExchangeReport)
    (ack : Option Ack) : (m.close c target s report ack).1 = m := by
  cases ack with
  | none => rfl
  | some body =>
      simp only [close]
      split <;> rfl

theorem close_outcome (m : Member) (c : Carrier σ) (target : Target) (s : σ)
    (report : ExchangeReport) (ack : Option Ack) :
    (m.close c target s report ack).2.1 = .ok report ∨
      ∃ body e, ack = some body ∧ (c.acknowledge target.address body s).1 = .error e ∧
        (m.close c target s report ack).2.1 = .error (.network target.address e) := by
  cases ack with
  | none => exact .inl rfl
  | some body =>
      simp only [close]
      rcases taken : c.acknowledge target.address body s with ⟨e | _, after⟩
      · exact .inr ⟨body, e, rfl, by rw [taken], rfl⟩
      · exact .inl rfl

theorem close_of_lost {body : Ack} {e : TransportError}
    (lost : c.acknowledge target.address body s = (.error e, s')) :
    m.close c target s report (some body) = (m, .error (.network target.address e), s') := by
  simp only [close, lost]

theorem close_of_taken {body : Ack}
    (taken : c.acknowledge target.address body s = (.ok (), s')) :
    m.close c target s report (some body) = (m, .ok report, s') := by
  simp only [close, taken]

theorem close_recorded (m : Member) (c : Carrier σ) (target : Target) (s : σ)
    (calls : List (Endpoint × Request)) (report : ExchangeReport) (ack : Option Ack) :
    m.close c.recorded target (s, calls) report ack =
      (m, (m.close c target s report ack).2.1, (m.close c target s report ack).2.2,
        calls ++ ack.toList.map fun body => (target.address, .acknowledge body)) := by
  cases ack with
  | none => simp only [close, Option.toList_none, List.map_nil, List.append_nil]
  | some body =>
      rcases taken : c.acknowledge target.address body s with ⟨e | _, after⟩ <;>
        simp only [close, Carrier.recorded, taken, Option.toList_some, List.map_cons, List.map_nil]

theorem recorded_synchronize {address : Endpoint} {body : Syn}
    {heard : Except TransportError SynAck} (called : c.synchronize address body s = (heard, s')) :
    c.recorded.synchronize address body (s, []) =
      (heard, s', [(address, .synchronize body)]) := by
  simp only [Carrier.recorded, called, List.nil_append]

theorem recorded_acknowledge {address : Endpoint} {body : Ack} {taken : Except TransportError Unit}
    {calls : List (Endpoint × Request)} (called : c.acknowledge address body s = (taken, s')) :
    c.recorded.acknowledge address body (s, calls) =
      (taken, s', calls ++ [(address, .acknowledge body)]) := by
  simp only [Carrier.recorded, called]

theorem recorded_of_heard
    (heard : c.synchronize target.address (m.registry.opening (c.clock s) target) s =
      (.ok answer, s')) :
    let opening := m.registry.opening (c.clock s) target
    let merged := m.reconcile (c.clock s') (Record.toPeers answer.fresh)
    let closing := merged.1.registry.closingFor (c.clock s') m.registry.owned answer
    m.exchange c.recorded target (s, []) =
      (merged.1, (m.exchange c target s).2.1, (m.exchange c target s).2.2,
        (target.address, .synchronize opening) ::
          if merged.1.registry.due answer = [] then []
          else [(target.address, .acknowledge closing)]) := by
  intro opening merged closing
  have recorded := exchange_of_heard (c := c.recorded) (s := (s, []))
    (recorded_synchronize heard)
  have plain := exchange_of_heard heard
  have called : (if merged.1.registry.due answer = [] then none else some closing).toList.map
      (fun body => (target.address, Request.acknowledge body)) =
        if merged.1.registry.due answer = [] then [] else [(target.address, .acknowledge closing)] := by
    split <;> rfl
  simp only [Carrier.clock_recorded] at recorded plain
  rw [recorded, plain, close_recorded]
  exact congrArg (fun calls => (merged.1, _, _, (target.address, .synchronize opening) :: calls))
    called

theorem exchange_fst_of_heard
    (heard : c.synchronize target.address (m.registry.opening (c.clock s) target) s =
      (.ok answer, s')) :
    (m.exchange c target s).1 =
      (m.reconcile (c.clock s') (Record.toPeers answer.fresh)).1 := by
  rw [exchange_of_heard heard, close_fst]

theorem outcome_of_heard
    (heard : c.synchronize target.address (m.registry.opening (c.clock s) target) s =
      (.ok answer, s')) :
    let merged := m.reconcile (c.clock s') (Record.toPeers answer.fresh)
    let due := merged.1.registry.due answer
    let closing := merged.1.registry.closingFor (c.clock s') m.registry.owned answer
    (m.exchange c target s).2.1 =
        .ok ⟨target.address, .done, merged.2, answer.asked.toFinset.card, due.length⟩ ∨
      ∃ e, (c.acknowledge target.address closing s').1 = .error e ∧ due ≠ [] ∧
        (m.exchange c target s).2.1 = .error (.network target.address e) := by
  intro merged due closing
  rw [exchange_of_heard heard]
  refine (close_outcome ..).imp_right ?_
  rintro ⟨body, e, sent, failed, ended⟩
  by_cases silent : due = []
  · exact absurd ((if_pos silent).symm.trans sent) (by simp)
  · obtain rfl : closing = body := Option.some.inj ((if_neg silent).symm.trans sent)
    exact ⟨e, failed, silent, ended⟩

theorem closes_iff {due : List Peer} {address : Endpoint} {opening : Syn} {closing : Ack} :
    (∃ receiver body, (receiver, Request.acknowledge body) ∈ (address, Request.synchronize opening) ::
      (if due = [] then [] else [(address, .acknowledge closing)])) ↔ due ≠ [] := by
  by_cases silent : due = [] <;> simp [silent]

theorem exchange_initiator :
    (∀ {σ : Type} (c : Carrier σ) (m : Member) (target : Target) (s s' : σ) (answer : SynAck),
      let opening := m.registry.opening (c.clock s) target
      c.synchronize target.address opening s = (.ok answer, s') →
      let now := c.clock s'
      let merged := m.reconcile now (Record.toPeers answer.fresh)
      let due := merged.1.registry.due answer
      let closing := merged.1.registry.closingFor now m.registry.owned answer
      let calls := (target.address, .synchronize opening) ::
        (if due = [] then [] else [(target.address, .acknowledge closing)])
      let requested := answer.asked.toFinset.card
      ∃ outcome state,
        m.exchange c target s = (merged.1, outcome, state) ∧
        m.exchange c.recorded target (s, []) = (merged.1, outcome, state, calls) ∧
        opening.known = Record.ofPeers (c.clock s) (m.registry.owned :: m.registry.others) ∧
        ((∃ address body, (address, .acknowledge body) ∈ calls) ↔
          ∃ p ∈ merged.1.registry.list, p.isDiscovered = true ∧ p.key ∈ answer.asked) ∧
        closing.details = Record.ofPeers now
          (merged.1.registry.list.filter fun p => p.isDiscovered ∧ p.key ∈ answer.asked) ∧
        (due.map Peer.key).Nodup ∧
        due.length ≤ requested ∧
        (outcome = .ok ⟨target.address, .done, merged.2, requested, due.length⟩ ∨
          ∃ e, (c.acknowledge target.address closing s').1 = .error e ∧ due ≠ [] ∧
            outcome = .error (.network target.address e))) ∧
    ∀ {size : Nat} (w : Network size) (i : Fin size) (target : Target),
      w.Beyond i target.address →
      let ended := (w.member i).exchange Network.carrier target w
      w.exchange i target = (ended.2.2.setMember i ended.1, ended.2.1) := by
  refine ⟨?_, fun w i target beyond => Network.exchange_carried beyond⟩
  intro σ c m target s s' answer opening heard now merged due closing calls requested
  have same := exchange_fst_of_heard heard
  exact ⟨_, _, Prod.ext same rfl, recorded_of_heard heard, rfl,
    closes_iff.trans Registry.due_ne_nil_iff, rfl, Registry.nodup_due .., Registry.length_due_le ..,
    outcome_of_heard heard⟩

theorem exchange_initiator_repeated :
    let now : Instant := .ofSeconds 200
    let stub (n : UInt8) : Peer := .stub ⟨[n]⟩ (.v4 ⟨10, 0, 0, n⟩ 7000) (.ofSeconds 100)
    let third := { stub 3 with state := some { PeerState.bootstrapping "1" 2 with status := .ok } }
    let m : Member :=
      ⟨(Registry.offerAll now true (.ofSelf (stub 1)) {} [third, stub 5]).1, .log⟩
    let portless (n : UInt8) : Record := { Record.ofPeer now (stub n) with port := 0 }
    let answer : SynAck :=
      { initiator := Record.ofPeer now (stub 1)
        receiver := Record.ofPeer now (stub 2)
        fresh := [portless 7, Record.ofPeer now (stub 6)]
        wanted := portless 3 :: Record.ofPeers now [third, stub 5, stub 6, stub 9, third] }
    let target := Target.ofPeer (stub 2)
    let w := Network.pair now m.registry (.ofSelf (stub 2))
    (∃ after outcome closing,
      m.exchange (Carrier.scripted now (.ok answer) (.ok ())).recorded target ((), []) =
          (after, .ok outcome, (), [(target.address, .synchronize (m.registry.opening now target)),
            (target.address, .acknowledge closing)]) ∧
        after.registry.keys = [⟨[1]⟩, ⟨[3]⟩, ⟨[5]⟩, ⟨[6]⟩] ∧
        closing.details = Record.ofPeers now [third] ∧
        outcome.requested = 4 ∧ outcome.sent = 1) ∧
      w.Beyond 0 target.address ∧
      let ended := (w.member 0).exchange Network.carrier target w
      w.exchange 0 target = (ended.2.2.setMember 0 ended.1, ended.2.1) := by
  intro now stub third m portless answer target w
  obtain ⟨carried, network⟩ := exchange_initiator
  have apart : w.Beyond 0 target.address := by decide
  refine ⟨?_, apart, network w 0 target apart⟩
  have keys : (m.reconcile now (Record.toPeers answer.fresh)).1.registry.keys =
      [⟨[1]⟩, ⟨[3]⟩, ⟨[5]⟩, ⟨[6]⟩] := by decide +kernel
  have due : (m.reconcile now (Record.toPeers answer.fresh)).1.registry.due answer = [third] := by
    decide +kernel
  have asked : answer.asked.toFinset.card = 4 := by decide +kernel
  have clock : (Carrier.scripted now (.ok answer) (.ok ())).clock () = now := rfl
  obtain ⟨outcome, ⟨⟩, -, ran, -, -, -, -, -, ended⟩ :=
    carried (Carrier.scripted now (.ok answer) (.ok ())) m target () () answer rfl
  obtain rfl | ⟨e, failed, -⟩ := ended
  · simp only [clock, due, List.cons_ne_nil, if_false] at ran
    exact ⟨_, _, _, ran, keys, congrArg (Record.ofPeers now) due, asked, rfl⟩
  · cases failed

theorem exchange_broken :
    (∀ {σ : Type} (c : Carrier σ) (m : Member) (target : Target) (s s' : σ),
      let opening := m.registry.opening (c.clock s) target
      let syn := (target.address, Request.synchronize opening)
      (∀ e, c.synchronize target.address opening s = (.error e, s') →
        m.exchange c.recorded target (s, []) =
          (m, .error (.network target.address e), s', [syn])) ∧
      ∀ answer, c.synchronize target.address opening s = (.ok answer, s') →
        let merged := m.reconcile (c.clock s') (Record.toPeers answer.fresh)
        let due := merged.1.registry.due answer
        let closing := merged.1.registry.closingFor (c.clock s') m.registry.owned answer
        let ack := (target.address, Request.acknowledge closing)
        let report := ⟨target.address, .done, merged.2, answer.asked.toFinset.card, due.length⟩
        ∀ acknowledge,
          let run := m.exchange { c with acknowledge := acknowledge }.recorded target (s, [])
          (due = [] → run = (merged.1, .ok report, s', [syn])) ∧
            (due ≠ [] → ∀ s'',
              (∀ e, acknowledge target.address closing s' = (.error e, s'') →
                run = (merged.1, .error (.network target.address e), s'', [syn, ack])) ∧
              (acknowledge target.address closing s' = (.ok (), s'') →
                run = (merged.1, .ok report, s'', [syn, ack])))) ∧
    ∀ {size : Nat} (w : Network size) (i : Fin size) (target : Target),
      w.Beyond i target.address →
      let ended := (w.member i).exchange Network.carrier target w
      w.exchange i target = (ended.2.2.setMember i ended.1, ended.2.1) := by
  refine ⟨?_, fun w i target beyond => Network.exchange_carried beyond⟩
  intro σ c m target s s' opening syn
  constructor
  · intro e lost
    exact exchange_of_lost (recorded_synchronize lost)
  · intro answer heard merged due closing ack report acknowledge run
    let c' : Carrier σ := { c with acknowledge := acknowledge }
    have recorded : run = merged.1.close c'.recorded target (s', [syn]) report
        (if due = [] then none else some closing) :=
      exchange_of_heard (recorded_synchronize (c := c') heard)
    constructor
    · intro silent
      rw [recorded, if_pos silent]
      rfl
    · intro speaks s''
      rw [recorded, if_neg speaks]
      constructor
      · intro e failed
        exact close_of_lost (recorded_acknowledge (c := c') failed)
      · intro taken
        exact close_of_taken (recorded_acknowledge (c := c') taken)

theorem exchange_broken_late :
    let now : Instant := .ofSeconds 200
    let stub (n : UInt8) : Peer := .stub ⟨[n]⟩ (.v4 ⟨10, 0, 0, n⟩ 7000) (.ofSeconds 100)
    let third := { stub 3 with state := some { PeerState.bootstrapping "1" 2 with status := .ok } }
    let m : Member := ⟨(Registry.offerAll now true (.ofSelf (stub 1)) {} [third]).1, .log⟩
    let answer (wanted : List Peer) : SynAck :=
      { initiator := Record.ofPeer now (stub 1)
        receiver := Record.ofPeer now (stub 2)
        fresh := [Record.ofPeer now (stub 6)]
        wanted := Record.ofPeers now wanted }
    let target := Target.ofPeer (stub 2)
    let lost := TransportError.timedOut target.address
    let run (heard : Except TransportError SynAck) (taken : Except TransportError Unit) :=
      m.exchange (Carrier.scripted now heard taken).recorded target ((), [])
    let w := Network.pair now m.registry (.ofSelf (stub 2))
    let syn := (target.address, Request.synchronize (m.registry.opening now target))
    run (.error lost) (.ok ()) = (m, .error (.network target.address lost), (), [syn]) ∧
      (∃ after report closing,
        let ack := (target.address, Request.acknowledge closing)
        run (.ok (answer [third])) (.error lost) =
            (after, .error (.network target.address lost), (), [syn, ack]) ∧
          run (.ok (answer [third])) (.ok ()) = (after, .ok report, (), [syn, ack]) ∧
          after.registry.keys = [⟨[1]⟩, ⟨[3]⟩, ⟨[6]⟩]) ∧
      (∃ after report,
        run (.ok (answer [stub 6])) (.error lost) = (after, .ok report, (), [syn])) ∧
      w.Beyond 0 target.address ∧
      let ended := (w.member 0).exchange Network.carrier target w
      w.exchange 0 target = (ended.2.2.setMember 0 ended.1, ended.2.1) := by
  intro now stub third m answer target lost run w syn
  obtain ⟨carried, network⟩ := exchange_broken
  have apart : w.Beyond 0 target.address := by decide
  have speaks : (m.reconcile now (Record.toPeers (answer [third]).fresh)).1.registry.due
      (answer [third]) ≠ [] := by decide +kernel
  have silent : (m.reconcile now (Record.toPeers (answer [stub 6]).fresh)).1.registry.due
      (answer [stub 6]) = [] := by decide +kernel
  have keys : (m.reconcile now (Record.toPeers (answer [third]).fresh)).1.registry.keys =
      [⟨[1]⟩, ⟨[3]⟩, ⟨[6]⟩] := by decide +kernel
  have unheard := (carried (.scripted now (.error lost) (.ok ())) m target () ()).1 lost rfl
  have heard := (carried (.scripted now (.ok (answer [third])) (.ok ())) m target () ()).2 _ rfl
  have late := ((heard fun _ _ s => (.error lost, s)).2 speaks ()).1 lost rfl
  have taken := ((heard fun _ _ s => (.ok (), s)).2 speaks ()).2 rfl
  have spared := ((carried (.scripted now (.ok (answer [stub 6])) (.ok ())) m target () ()).2 _ rfl
    fun _ _ s => (.error lost, s)).1 silent
  exact ⟨unheard, ⟨_, _, _, late, taken, keys⟩, ⟨_, _, spared⟩, apart, network w 0 target apart⟩

end Member

end Epidemic
