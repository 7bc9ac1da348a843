import Epidemic.Proofs.Binary32.Value
import Epidemic.Proofs.Wire.Image

namespace Epidemic.Wire

def Hops (states : Nat → PeerState) : Prop :=
  ∀ n, (StateRecord.ofState (states n)).toState = .ok (states (n + 1))

theorem Hops.image_eq {states : Nat → PeerState} (h : Hops states) (n : Nat) :
    states (n + 1) = (states n).image :=
  Except.ok.inj ((h n).symm.trans (toState_ofState (states n)))

theorem Hops.cpuLoad_eq {states : Nat → PeerState} (h : Hops states) (n : Nat) :
    (states (n + 1)).cpuLoad = (states 0).cpuLoad.relayed := by
  induction n with
  | zero => rw [h.image_eq 0, PeerState.image]
  | succ n ih =>
      have next : (states (n + 1 + 1)).cpuLoad = (states (n + 1)).cpuLoad.relayed := by
        rw [h.image_eq (n + 1), PeerState.image]
      rw [next, ih, Binary32.relayed_relayed]

theorem load_relayed :
    (∀ s : PeerState, (StateRecord.ofState s).cpuLoad = String.ofList s.cpuLoad.toFixed ∧
      ∃ t, (StateRecord.ofState s).toState = .ok t ∧ t.cpuLoad = s.cpuLoad.relayed) ∧
    (∀ x : Binary32, x.relayed.relayed = x.relayed) ∧
    ((∀ x : Binary32, x.magnitude = 0 → x.relayed = x) ∧
      (∀ x : Binary32, x.isInfinite = true → x.relayed = x) ∧
      ∀ x : Binary32, x.isNan = true → x.relayed = ⟨0x7fc00000⟩) ∧
    (∀ x : Binary32, x.isFinite = true → x.relayed.isFinite = true ∧
      |x.relayed.value - x.value| < 1 / 100 ∧ |x.value - x.written| ≤ 1 / 200 ∧
      x.relayed.IsNearest x.written) ∧
    (∀ x y : Binary32, x.isFinite = true → y.isFinite = true → x.value ≤ y.value →
      x.relayed.value ≤ y.relayed.value) ∧
    ∀ states, Hops states → ∀ n, (states (n + 1)).cpuLoad = (states 1).cpuLoad := by
  refine ⟨fun s => ⟨rfl, s.image, toState_ofState s, rfl⟩, Binary32.relayed_relayed,
    ⟨fun x => Binary32.relayed_of_zero, fun x => Binary32.relayed_of_infinite, fun x nan => ?_⟩,
    fun x finite => ?_, fun x y => Binary32.relayed_mono, fun states hops n => ?_⟩
  · rw [Binary32.relayed_of_isNan nan]
    decide
  · exact ⟨Binary32.isFinite_relayed finite, Binary32.abs_relayed_sub_lt finite,
      x.abs_value_sub_written_self, Binary32.isNearest_relayed finite⟩
  · rw [hops.cpuLoad_eq n, hops.cpuLoad_eq 0]

end Epidemic.Wire
