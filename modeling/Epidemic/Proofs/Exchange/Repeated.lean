import Epidemic.Proofs.Exchange.Outcome
import Epidemic.Proofs.Exchange.Traded

namespace Epidemic

open Wire (Record Syn SynAck Ack)

@[simp] theorem Peer.not_supersedes_self (p : Peer) (now : Instant) :
    p.supersedes p now = false := by
  simp [supersedes]

namespace Registry

variable {now : Instant} {a b a' b' : Registry} {k : Key}

structure Settled (now : Instant) (a b : Registry) : Prop where
  refreshed : ∀ k x s, k ≠ b.selfKey → a.relayed? k = some x → b.get? k = some s →
    x.supersedes s now = false
  learned : ∀ k z, k ≠ a.selfKey → taught a b k = some z →
    ∃ s, a.get? k = some s ∧ z.supersedes s now = false
  heard : ∀ k, handed a b k = none

theorem relayed?_congr (same : a'.get? k = a.get? k) : a'.relayed? k = a.relayed? k := by
  rw [relayed?, same, relayed?]

theorem relayed?_of_taken {z : Peer} (source : b.relayed? k = some z) (taken : a'.get? k = some z) :
    a'.relayed? k = some z := by
  obtain ⟨y, -, read⟩ := Option.bind_eq_some_iff.mp source
  rw [relayed?, taken]
  exact Peer.relayed?_again read

namespace Traded

theorem initiator_cases (h : Traded now now a b a' b') (k : Key) :
    (a'.get? k = a.get? k ∧ ∀ z, k ≠ a.selfKey → taught a b k = some z →
        ∃ s, a.get? k = some s ∧ z.supersedes s now = false) ∨
      ∃ z, taught a b k = some z ∧ a'.get? k = some z := by
  by_cases own : k = a.selfKey
  · subst own
    exact .inl ⟨h.initiator_own, fun z other => absurd rfl other⟩
  · have after := h.initiator k own
    cases told : taught a b k with
    | none => exact .inl ⟨by rw [after, told]; rfl, fun z _ e => by cases e⟩
    | some z =>
        have whole := toRemote_of_relayed? (taught_eq_some_iff.mp told).2
        rw [told] at after
        cases held : a.get? k with
        | none => exact .inr ⟨z, rfl, by simpa [held, met, whole] using after⟩
        | some s =>
            cases fresh : z.supersedes s now with
            | true => exact .inr ⟨z, rfl, by simpa [held, met, fresh, whole] using after⟩
            | false =>
                refine .inl ⟨by simpa [held, met, fresh] using after, fun z' _ e => ?_⟩
                cases e
                exact ⟨s, rfl, fresh⟩

theorem receiver_of_some (h : Traded now now a b a' b') {y : Peer} (held : b.get? k = some y) :
    ∃ s, b'.get? k = some s ∧ (s = y ∨ a.relayed? k = some s) ∧
      ∀ x, k ≠ b.selfKey → a.relayed? k = some x → x.supersedes s now = false := by
  by_cases own : k = b.selfKey
  · subst own
    exact ⟨y, h.receiver_own.trans held, .inl rfl, fun x other => absurd rfl other⟩
  · have after := h.receiver k own
    have silent : handed a b k = none := by rw [handed, held]
    rw [silent, held] at after
    cases told : a.relayed? k with
    | none => exact ⟨y, by simpa [told, met] using after, .inl rfl, fun x _ e => by cases e⟩
    | some x =>
        have whole := toRemote_of_relayed? told
        cases fresh : x.supersedes y now with
        | true =>
            refine ⟨x, by simpa [told, met, fresh, whole] using after, .inr rfl, fun x' _ e => ?_⟩
            cases e
            exact x.not_supersedes_self now
        | false =>
            refine ⟨y, by simpa [told, met, fresh] using after, .inl rfl, fun x' _ e => ?_⟩
            cases e
            exact fresh

theorem receiver_of_none (h : Traded now now a b a' b') (lacking : b.get? k = none) :
    b'.get? k = (a.relayed? k).filter Peer.isDiscovered := by
  have other : k ≠ b.selfKey := by
    rintro rfl
    rw [get?_selfKey] at lacking
    cases lacking
  have after := h.receiver k other
  have offered : handed a b k = (a.relayed? k).filter Peer.isDiscovered := by rw [handed, lacking]
  rw [lacking, offered] at after
  rw [after]
  cases told : a.relayed? k with
  | none => rfl
  | some x =>
      have whole := toRemote_of_relayed? told
      by_cases heard : x.isDiscovered = true
      · simp [met, Option.filter_some, heard, whole]
      · simp [met, Option.filter_some, heard]

theorem settled (h : Traded now now a b a' b')
    (dated : ∀ p ∈ b.list, Instant.inRange p.generated.seconds = true) :
    Settled now a' b' where
  refreshed := by
    intro k x s other told held
    rw [h.selfKey.2] at other
    rcases h.initiator_cases k with ⟨same, -⟩ | ⟨z, taken, same⟩
    · rw [relayed?_congr same] at told
      cases before : b.get? k with
      | some y =>
          obtain ⟨s', held', -, stale⟩ := h.receiver_of_some before
          cases held.symm.trans held'
          exact stale x other told
      | none =>
          rw [h.receiver_of_none before, told] at held
          cases (Option.filter_eq_some_iff.mp held).1
          exact x.not_supersedes_self now
    · -- The initiator has it from the receiver: its copy of the record is no later.
      obtain ⟨untold, source⟩ := taught_eq_some_iff.mp taken
      obtain rfl : z = x := Option.some.inj ((relayed?_of_taken source same).symm.trans told)
      obtain ⟨y, before, read⟩ := Option.bind_eq_some_iff.mp source
      obtain ⟨s', held', old | new, -⟩ := h.receiver_of_some before
      · cases held.symm.trans held'
        rw [old]
        exact Peer.not_supersedes_of_relayed? (dated y (get?_eq_some_iff.mp before).1) read now
      · cases untold.symm.trans new
  learned := by
    intro k z other told
    obtain ⟨untold, source⟩ := taught_eq_some_iff.mp told
    rw [h.selfKey.1] at other
    rcases h.initiator_cases k with ⟨same, stale⟩ | ⟨z', taken, same⟩
    · rw [relayed?_congr same] at untold
      obtain ⟨s, held, read⟩ := Option.bind_eq_some_iff.mp source
      cases before : b.get? k with
      | some y =>
          obtain ⟨s', held', old | new, -⟩ := h.receiver_of_some before
          · cases held.symm.trans held'
            rw [same]
            refine stale z other (taught_eq_some_iff.mpr ⟨untold, ?_⟩)
            rw [relayed?, before, ← old]
            exact read
          · cases untold.symm.trans new
      | none =>
          rw [h.receiver_of_none before, untold] at held
          cases held
    · obtain ⟨-, source'⟩ := taught_eq_some_iff.mp taken
      rw [relayed?_of_taken source' same] at untold
      cases untold
  heard := by
    intro k
    cases held : b'.get? k with
    | some s => rw [handed, held]
    | none =>
        have before : b.get? k = none := by
          cases before : b.get? k with
          | none => rfl
          | some y =>
              obtain ⟨s, held', -⟩ := h.receiver_of_some before
              cases held.symm.trans held'
        have dropped := h.receiver_of_none before
        rcases h.initiator_cases k with ⟨same, -⟩ | ⟨z, taken, -⟩
        · rw [handed, held, relayed?_congr same, ← dropped]
          exact held
        · obtain ⟨-, source⟩ := taught_eq_some_iff.mp taken
          rw [relayed?, before] at source
          cases source

end Traded

end Registry

namespace Member

open Registry

variable {now : Instant} {first second : Member}

theorem answer_settled (settled : Settled now first.registry second.registry) (t : Target) :
    let opening := first.registry.opening now t
    ∃ seen, second.refreshKnown now (second.registry.sort opening).refresh = (second, seen) ∧
      seen.Idle ∧
      second.answer now opening = (second, second.registry.answerTo first.registry now now t) := by
  intro opening
  have news : ∀ c ∈ (second.registry.sort opening).refresh, second.registry.UpToDate now c := by
    intro c hc other
    have told := find?_key_of_mem (nodup_refresh ..) hc
    rw [find?_refresh] at told
    split at told
    · rename_i known
      obtain ⟨s, held⟩ := exists_get?_of_mem_keys known
      exact ⟨s, held, settled.refreshed _ c s other told held⟩
    · cases told
  obtain ⟨seen, same, idle⟩ := second.apply_upToDate false news
  have same : second.refreshKnown now (second.registry.sort opening).refresh = (second, seen) :=
    same
  refine ⟨seen, same, idle, ?_⟩
  rw [answer_eq, same]
  rfl

theorem learn_settled (settled : Settled now first.registry second.registry) (t : Target)
    (owned : Peer) :
    let answer := second.registry.answerTo first.registry now now t
    ∃ report, first.learn now t owned answer = (first, report, none) ∧ report.sent = 0 ∧
      report.learned.Idle := by
  intro answer
  have news : ∀ c ∈ Record.toPeers answer.fresh, first.registry.UpToDate now c := by
    intro c hc other
    have told := find?_key_of_mem (nodup_fresh ..) hc
    rw [find?_fresh] at told
    exact settled.learned _ c other told
  obtain ⟨seen, same, idle⟩ := first.apply_upToDate true news
  have same : first.reconcile now (Record.toPeers answer.fresh) = (first, seen) := same
  have silent : first.registry.details answer.wantedKeys = [] := by
    refine List.filter_eq_nil_iff.mpr fun p hp asked => ?_
    obtain ⟨wanted, heard⟩ := Bool.and_eq_true_iff.mp asked
    obtain ⟨told, lacking⟩ := (mem_wantedKeys ..).mp (of_decide_eq_true wanted)
    obtain ⟨x, told⟩ := Option.isSome_iff_exists.mp told
    obtain ⟨p', held, read⟩ := Option.bind_eq_some_iff.mp told
    obtain rfl : p = p' := Option.some.inj ((get?_eq_some_iff.mpr ⟨hp, rfl⟩).symm.trans held)
    have offered := settled.heard p.key
    rw [handed, get?_eq_none_iff.mpr lacking, told, Option.filter_some,
      Peer.isDiscovered_of_relayed? read, if_pos heard] at offered
    cases offered
  refine ⟨⟨t.address, .done, seen, answer.wantedKeys.length, 0⟩, ?_, rfl, idle⟩
  simp only [learn, same, conclude, silent]
  rfl

end Member

namespace Network

variable {size : Nat} {w between : Network size} {i j : Fin size} {target : Target}
  {route : Route size}

theorem setMember_self (w : Network size) (i : Fin size) : w.setMember i (w.member i) = w := by
  obtain ⟨n, h⟩ := i
  have same : w.nodes.set n w.nodes[n] = w.nodes := Vector.set_getElem_self h
  simp only [setMember, setNode, member, node_mk]
  rw [same]

theorem serveSyn_kept (served : route.handler = .node j) (address : Endpoint) {body : Syn}
    {answer : SynAck} (answered : (w.member j).answer w.clock body = (w.member j, answer)) :
    ∃ lost, w.serveSyn address route body = ({ w with unreachable := lost }, answer) := by
  simp only [serveSyn, answerSyn, served, answered, setMember_self]
  split
  · exact ⟨_, rfl⟩
  · exact ⟨w.unreachable, rfl⟩

theorem exchange_kept (reached : w.route target.address = .ok route)
    (served : route.handler = .node j) {answer : SynAck} {report : ExchangeReport}
    (answered : (w.member j).answer w.clock ((w.member i).registry.opening w.clock target) =
      (w.member j, answer))
    (learned : (w.member i).learn w.clock target (w.member i).registry.owned answer =
      (w.member i, report, none)) :
    ∃ lost, w.exchange i target = ({ w.opened i target with unreachable := lost }, .ok report) := by
  -- What can be reached may change all the same, if the route breaks behind the call.
  obtain ⟨lost, heard⟩ := serveSyn_kept (w := w.opened i target) served target.address answered
  refine ⟨lost, ?_⟩
  let left : Network size := { w.opened i target with unreachable := lost }
  have heard : (w.opened i target).serveSyn target.address route
      ((w.member i).registry.opening w.clock target) = (left, answer) := heard
  have told : (left.member i).learn left.clock target (w.member i).registry.owned answer =
      (left.member i, report, none) := learned
  have ended : w.trade i target = (left, .ok report) := by
    simp only [trade_of_ok reached, heard, told, setMember_self, conclude]
  rw [exchange_eq_trade, ended]
  rfl

theorem exchange_again {target' : Target} {report : ExchangeReport} (apart : i ≠ j)
    (served : (w.routes.lookup target.address).map Route.handler = some (.node j))
    (dated : ∀ p ∈ (w.member j).registry.list, Instant.inRange p.generated.seconds = true)
    (done : w.exchange i target = (between, .ok report))
    (reached : between.route target'.address = .ok route) (served' : route.handler = .node j) :
    let a := (between.member i).registry
    let b := (between.member j).registry
    let opening := a.opening w.clock target'
    ∃ after again,
      between.exchange i target' = (after, .ok again) ∧
      after.nodes = between.nodes ∧
      again.sent = 0 ∧
      again.learned.Idle ∧
      ((between.member j).refreshKnown w.clock (b.sort opening).refresh).2.Idle ∧
      after.ackCalls = between.ackCalls ∧
      after.traffic = between.traffic ++ [.syn target'.address opening] := by
  intro a b opening
  obtain ⟨traded, clock, -⟩ := exchange_traded apart served done
  have settled := traded.settled dated
  obtain ⟨seen, refreshed, idle, answered⟩ := Member.answer_settled settled target'
  obtain ⟨again, learned, silent, quiet⟩ := Member.learn_settled settled target' a.owned
  have sent : (between.opened i target').traffic =
      between.traffic ++ [.syn target'.address opening] := by
    rw [opened, clock]
  rw [← clock] at answered learned
  obtain ⟨lost, ends⟩ := exchange_kept reached served' answered learned
  exact ⟨_, again, ends, rfl, silent, quiet, congrArg Prod.snd refreshed ▸ idle, rfl, sent⟩

theorem exchange_again_pair :
    let host (n : UInt8) : Peer :=
      ⟨⟨[n]⟩, .v4 ⟨10, 0, 0, n⟩ 7000, ⟨100, 250000000⟩, true,
        some { PeerState.bootstrapping "1" 2 with status := .ok }⟩
    let third (port : UInt16) (nanos : Nat) : Peer :=
      ⟨⟨[3]⟩, .v4 ⟨10, 0, 0, 3⟩ port, ⟨90, nanos⟩, false, none⟩
    let now : Instant := ⟨95, 750000000⟩
    let a := ((Registry.ofSelf (host 1)).offer now true (third 0 500000000)).1
    let b := ((Registry.ofSelf (host 2)).offer now true (third 7000 900000000)).1
    ∃ between after report again,
      (pair now a b).exchange 0 (.seed (host 2).address) = (between, .ok report) ∧
        between.exchange 0 (.seed (host 2).address) = (after, .ok again) ∧
        again.sent = 0 ∧ after.nodes = between.nodes := by
  intro host third now a b
  obtain ⟨between, report, done, routes⟩ := @exchange_succeeds 2 (pair now a b) 0 1
    (.seed (host 2).address) _ (by decide) rfl rfl rfl
  obtain ⟨after, again, done', kept, sent, -⟩ := @exchange_again 2 (pair now a b) between 0 1
    (.seed (host 2).address) _ (.seed (host 2).address) report (by decide) rfl (by decide) done
    ((routes _).trans rfl) rfl
  exact ⟨between, after, report, again, done, done', sent, kept⟩

end Network

end Epidemic
