import Epidemic.Bootstrap
import Epidemic.Proofs.Reconcile.Batch
import Epidemic.Proofs.Registry.Calls
import Epidemic.Proofs.Registry.Operations
import Epidemic.Proofs.Store.Uses
import Mathlib.Data.List.Sort

namespace Epidemic

namespace Registry

variable {r : Registry} {p : Peer} {ps : List Peer}

end Registry

namespace Store

variable {ps kept : List Peer} {k : Key} {p : Peer}

namespace IsLatest

theorem distinct (h : IsLatest ps kept) : (kept.map Peer.key).Nodup :=
  List.pairwise_map.mpr (h.ascending.imp fun before same => before.ne (congrArg Key.bytes same))

theorem remote (h : IsLatest ps kept) (hp : p ∈ kept) : p.isSelf = false :=
  (lastRemote?_spec ((h.mem_iff p).mp hp)).2.1

end IsLatest

end Store

namespace NodeConfig

variable {c : NodeConfig} {bind : String → UInt16 → Except TransportError Endpoint}
  {around : Surroundings} {bound : Endpoint} {now : Instant} {m : Node} {s : Store}
  {ps : List Peer}

theorem start_eq_ok_iff {store : Option Store} :
    c.start bind around store now = .ok m ↔
      c.validate = .ok () ∧ ∃ bound, bind c.server.bindAddress c.server.bindPort = .ok bound ∧
        ∃ r, restored (c.initialRegistry bound now) store = .ok r ∧
          m = ⟨⟨r, around.notifier⟩, some (c.refresher bound around), around.selector, c.gossip,
            {}⟩ := by
  simp only [start, bind_ok, mapError_eq_ok, Except.ok.injEq, eq_comm (a := m)]
  exact ⟨fun ⟨_, valid, rest⟩ => ⟨valid, rest⟩, fun ⟨valid, rest⟩ => ⟨(), valid, rest⟩⟩

end NodeConfig

namespace Node

variable {n : Node}

def Leaves (n : Node) (left : Store) : Prop :=
  ∃ s between, (∀ u ∈ between, Store.Use.saved? u = none) ∧ left = (n.snapshot s).after between

theorem Leaves.holds {left : Store} (h : n.Leaves left) : left.Holds n.registry.known := by
  obtain ⟨s, between, unsaved, rfl⟩ := h
  have held := (Store.holds_save s n.registry.known).after between
  rwa [List.findSome?_eq_none_iff.mpr fun u hu => unsaved u (List.mem_reverse.mp hu)] at held

end Node

end Epidemic
