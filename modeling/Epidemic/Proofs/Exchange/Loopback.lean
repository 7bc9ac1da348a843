import Epidemic.Proofs.Exchange.Repeated
import Epidemic.Proofs.Round.Targets

namespace Epidemic

open Wire (Record SynAck)

namespace Registry

theorem taught_self (r : Registry) (k : Key) : taught r r k = none := by
  unfold taught
  cases r.relayed? k <;> rfl

theorem handed_self (r : Registry) (k : Key) : handed r r k = none := by
  unfold handed relayed?
  cases r.get? k <;> rfl

variable {r : Registry}

theorem settled_self (dated : ∀ p ∈ r.list, Instant.inRange p.generated.seconds = true)
    (now : Instant) :
    Settled now r r where
  refreshed k x s other told held := by
    obtain ⟨p, found, read⟩ := Option.bind_eq_some_iff.mp told
    cases found.symm.trans held
    exact Peer.not_supersedes_of_relayed? (dated s (get?_eq_some_iff.mp held).1) read now
  learned k z other told := by
    rw [taught_self] at told
    cases told
  heard := handed_self r

theorem fresh_self (r : Registry) (now : Instant) (t : Target) :
    Record.toPeers (r.answerTo r now now t).fresh = [] := by
  refine List.eq_nil_iff_forall_not_mem.mpr fun p back => ?_
  have told := find?_key_of_mem (nodup_fresh ..) back
  rw [find?_fresh, taught_self] at told
  cases told

theorem wantedKeys_self (r : Registry) (now : Instant) (t : Target) :
    (r.answerTo r now now t).wantedKeys = [] := by
  refine List.eq_nil_iff_forall_not_mem.mpr fun k asked => ?_
  obtain ⟨told, lacking⟩ := (mem_wantedKeys ..).mp asked
  obtain ⟨x, told⟩ := Option.isSome_iff_exists.mp told
  obtain ⟨p, found, -⟩ := Option.bind_eq_some_iff.mp told
  exact lacking (mem_keys_of_get? found)

theorem targets_self (only : r.seeds = [r.owned.address]) (s : Selector) :
    ∃ further, (r.targets s).2 = .ok (.seed r.owned.address :: further) := by
  obtain ⟨seed, further, chosen, targeted⟩ := r.targets_of_seeds s (by simp [only])
  have own : seed = r.owned.address := by simpa [only] using targeted.listed
  exact ⟨further, own ▸ chosen⟩

end Registry

theorem Member.learn_self (m : Member) (now : Instant) (t : Target) (owned : Peer) :
    m.learn now t owned (m.registry.answerTo m.registry now now t) =
      (m, ⟨t.address, .done, {}, 0, 0⟩, none) := by
  have quiet : m.reconcile now [] = (m, {}) := rfl
  have silent : m.registry.details [] = [] := by simp [Registry.details]
  rw [learn_eq, Registry.fresh_self, quiet]
  simp only [Registry.conclude, Registry.wantedKeys_self, silent]
  rfl

namespace Network

variable {size : Nat} {w : Network size} {i : Fin size} {target : Target} {route : Route size}

theorem exchange_self
    (dated : ∀ p ∈ (w.member i).registry.list, Instant.inRange p.generated.seconds = true)
    (reached : w.route target.address = .ok route) (itself : route.handler = .node i) :
    let r := (w.member i).registry
    let opening := r.opening w.clock target
    ∃ after, w.exchange i target = (after, .ok ⟨target.address, .done, {}, 0, 0⟩) ∧
      after.nodes = w.nodes ∧
      ((w.member i).refreshKnown w.clock (r.sort opening).refresh).2.Idle ∧
      after.ackCalls = w.ackCalls ∧
      after.traffic = w.traffic ++ [.syn target.address opening] ∧
      (r.seeds = [r.owned.address] →
        ∀ s, ∃ further, (r.targets s).2 = .ok (.seed r.owned.address :: further)) := by
  intro r opening
  obtain ⟨seen, refreshed, idle, answered⟩ :=
    Member.answer_settled (r.settled_self dated w.clock) target
  obtain ⟨lost, ends⟩ := exchange_kept reached itself answered (Member.learn_self ..)
  exact ⟨_, ends, rfl, congrArg Prod.snd refreshed ▸ idle, rfl, rfl, Registry.targets_self⟩

theorem exchange_self_ahead :
    let address : Endpoint := .v4 ⟨10, 0, 0, 1⟩ 7000
    let owned : Peer :=
      ⟨⟨[1]⟩, address, ⟨100, 250000000⟩, true,
        some { PeerState.bootstrapping "1" 2 with status := .ok }⟩
    let ahead : Peer :=
      ⟨⟨[2]⟩, .v4 ⟨10, 0, 0, 2⟩ 7000, ⟨96, 999999999⟩, false,
        some { PeerState.bootstrapping "1" 2 with cpuLoad := ⟨0x3f7fffff⟩ }⟩
    let mute : Peer := ⟨⟨[3]⟩, .v4 ⟨10, 0, 0, 3⟩ 0, ⟨-1, 500000000⟩, false, none⟩
    let now : Instant := ⟨95, 750000000⟩
    let met := ((Registry.ofSelf owned).offer now true ahead).1
    let r := (met.offer now true mute).1.addSeed address
    let w : Network 1 :=
      { clock := now
        nodes := #v[⟨⟨r, .upTo (some 0)⟩, none, .fixed 0, {}, {}⟩]
        routes := [(address, { handler := .node 0, synDelay := 5, cutAfterSyn := true })] }
    r.list = [owned, ahead, mute] ∧ r.seeds = [r.owned.address] ∧
      ∃ after, w.exchange 0 (.seed address) = (after, .ok ⟨address, .done, {}, 0, 0⟩) ∧
        after.nodes = w.nodes ∧ after.ackCalls = 0 ∧
        ∃ further, (r.targets (.fixed 3)).2 = .ok (.seed address :: further) := by
  intro address owned ahead mute now met r w
  obtain ⟨after, done, kept, -, silent, -, chosen⟩ :=
    @exchange_self 1 w 0 (.seed address) _ (by decide) rfl rfl
  exact ⟨by decide, by decide, after, done, kept, silent, chosen (by decide) _⟩

end Network

end Epidemic
