import Epidemic.Proofs.Exchange.Traded
import Epidemic.Proofs.Reconcile.Exact

namespace Epidemic

open Wire (Record Syn)

theorem Wire.isSelf_of_mem_toPeers {rs : List Record} {c : Peer} (hc : c ∈ Record.toPeers rs) :
    c.isSelf = false := by
  obtain ⟨record, -, read⟩ := List.mem_filterMap.mp hc
  cases h : record.toPeer with
  | error e => simp [h, Except.toOption] at read
  | ok p =>
      obtain rfl : p = c := by simpa [h, Except.toOption] using read
      exact (Wire.accepted_of_toPeer h).isSelf

theorem argmin_map_toRemote {ps : List Peer} (remote : ∀ p ∈ ps, p.isSelf = false)
    (now : Instant) :
    (ps.argmin (·.elapsed now)).map Peer.toRemote = ps.argmin (·.elapsed now) := by
  cases least : ps.argmin (·.elapsed now) with
  | none => rfl
  | some p => exact congrArg some (Peer.toRemote_eq_self (remote p (List.argmin_mem least)))

theorem mem_map_key_iff (ps : List Peer) (ks : List Key) (k : Key) :
    k ∈ ps.map Peer.key ↔
      k ∈ (ps.filter fun p => p.key ∉ ks).map Peer.key ∨ k ∈ ps.map Peer.key ∧ k ∈ ks := by
  simp only [List.mem_map, List.mem_filter, decide_eq_true_eq]
  constructor
  · rintro ⟨p, hp, rfl⟩
    by_cases known : p.key ∈ ks
    · exact .inr ⟨⟨p, hp, rfl⟩, known⟩
    · exact .inl ⟨p, ⟨hp, known⟩, rfl⟩
  · rintro (⟨p, ⟨hp, -⟩, rfl⟩ | ⟨held, -⟩)
    · exact ⟨p, hp, rfl⟩
    · exact held

namespace Registry

variable {r : Registry} {p : Peer}

theorem sort_eq (r : Registry) (syn : Syn) :
    let received := Record.toPeers syn.known
    r.sort syn =
      { teach := r.list.filter fun p => p.key ∉ received.map Peer.key
        unknown := received.filter fun p => p.key ∉ r.keys
        refresh := received.filter fun p => p.key ∈ r.keys } := by
  intro received
  have teach := missingFrom_eq_filter received r.list
  have unknown := missingFrom_eq_filter r.list received
  have refresh := Member.refresh_eq r.list received
  simp only [sort, Sorted.mk.injEq]
  exact ⟨teach, unknown, refresh⟩

theorem rivals_known (hp : p ∈ r.list) (cs : List Peer) :
    r.rivals (cs.filter (·.key ∈ r.keys)) p.key = p :: cs.filter (·.key = p.key) := by
  have found : r.get? p.key = some p := get?_eq_some_iff.mpr ⟨hp, rfl⟩
  have same : (cs.filter (·.key ∈ r.keys)).filter (·.key = p.key) =
      cs.filter (·.key = p.key) := by
    rw [List.filter_filter]
    refine List.filter_congr fun c _ => ?_
    by_cases key : c.key = p.key
    · simp [key, mem_keys_of_get? found]
    · simp [key]
  rw [rivals, found, same]
  rfl

end Registry

namespace Member

open Registry

theorem refreshKnown_known (m : Member) (now : Instant) (cs : List Peer) :
    let known := cs.filter (·.key ∈ m.registry.keys)
    (m.refreshKnown now known).1.registry = (m.registry.offerAll now true {} known).1 := by
  intro known
  have again : known.filter (·.key ∈ m.registry.keys) = known :=
    List.filter_eq_self.mpr fun c hc => (List.mem_filter.mp hc).2
  rw [refreshKnown, registry_apply, offerAll_known, again]

theorem answer_partition (m : Member) (now : Instant) (syn : Syn) :
    let r := m.registry
    let received := Record.toPeers syn.known
    let after := (m.answer now syn).1
    let answer := (m.answer now syn).2
    let fresh := answer.fresh.map fun record => Key.mk record.key
    let wanted := answer.wanted.map fun record => Key.mk record.key
    let common (k : Key) := k ∈ r.keys ∧ k ∈ received.map Peer.key
    answer.fresh = Record.ofPeers now (r.list.filter fun p => p.key ∉ received.map Peer.key) ∧
      answer.wanted = Record.ofPeers now (received.filter fun p => p.key ∉ r.keys) ∧
      fresh.Disjoint wanted ∧
      (∀ k, k ∈ r.keys ↔ k ∈ fresh ∨ common k) ∧
      (∀ k, k ∈ received.map Peer.key ↔ k ∈ wanted ∨ common k) ∧
      answer.initiator = syn.initiator ∧
      answer.receiver = Record.ofPeer now r.owned ∧
      after.registry.keys = r.keys ∧
      after.registry.owned = r.owned ∧
      ∀ p ∈ r.list, p.key ≠ r.selfKey →
        after.registry.get? p.key =
          (p :: received.filter (·.key = p.key)).argmin (·.elapsed now) := by
  intro r received after answer fresh wanted common
  have owned := owned_answer m now syn
  simp only [after, fresh, wanted, answer]
  rw [answer_eq] at owned ⊢
  simp only [sort_eq, Sorted.reply, map_key_ofPeers] at owned ⊢
  have taken := takes_offerAll r now (received.filter (·.key ∈ r.keys))
  have registry := refreshKnown_known m now received
  refine ⟨rfl, rfl, ?_, fun k => ?_, fun k => ?_, trivial, rfl, ?_, owned,
    fun p hp other => ?_⟩
  · intro k taught asked
    simp only [List.mem_map, List.mem_filter, decide_eq_true_eq] at taught asked
    obtain ⟨p, ⟨held, -⟩, rfl⟩ := taught
    obtain ⟨q, ⟨-, unknown⟩, same⟩ := asked
    exact unknown (mem_keys_iff.mpr ⟨p, held, same.symm⟩)
  · exact mem_map_key_iff r.list (received.map Peer.key) k
  · exact (mem_map_key_iff received r.keys k).trans (or_congr_right and_comm)
  · rw [registry, taken.keys, taken.inserted, newKeys_known, List.append_nil]
  · have remote : ∀ q ∈ p :: received.filter (·.key = p.key), q.isSelf = false := by
      intro q hq
      rcases List.mem_cons.mp hq with rfl | offered
      · exact isSelf_of_get? (get?_eq_some_iff.mpr ⟨hp, rfl⟩) other
      · exact Wire.isSelf_of_mem_toPeers (List.mem_filter.mp offered).1
    rw [registry, taken.freshest p.key other, rivals_known hp, argmin_map_toRemote remote]

theorem answer_partition_mixed :
    let peer (n : UInt8) (seconds : Nat) : Peer :=
      .stub ⟨[n]⟩ (.v4 ⟨10, 0, 0, n⟩ 7000) (.ofSeconds seconds)
    let now : Instant := .ofSeconds 200
    let known := [peer 3 90, peer 5 90]
    let m : Member := ⟨(Registry.offerAll now true (.ofSelf (peer 1 100)) {} known).1, .log⟩
    let offered := [peer 1 150, peer 4 120, peer 3 95, peer 4 130]
    let syn : Syn :=
      { initiator := Record.ofPeer now (peer 2 100)
        receiver := Record.ofPeer now (peer 1 100)
        known := { Record.ofPeer now (peer 6 100) with key := [] } :: Record.ofPeers now offered }
    let after := (m.answer now syn).1
    let answer := (m.answer now syn).2
    answer.fresh = Record.ofPeers now [peer 5 90] ∧
      answer.wanted = Record.ofPeers now [peer 4 120, peer 4 130] ∧
      after.registry.keys = [⟨[1]⟩, ⟨[3]⟩, ⟨[5]⟩] ∧
      after.registry.get? ⟨[3]⟩ = some (peer 3 95) := by
  intro peer now known m offered syn after answer
  obtain ⟨fresh, wanted, -, -, -, -, -, keys, -, freshest⟩ := answer_partition m now syn
  have mine : (peer 3 90) ∈ m.registry.list := by decide
  have news := freshest _ mine (by decide)
  refine ⟨fresh.trans ?_, wanted.trans ?_, keys.trans ?_, news.trans ?_⟩ <;> decide +kernel

end Member

end Epidemic
