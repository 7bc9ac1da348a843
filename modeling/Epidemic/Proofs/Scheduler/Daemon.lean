import Epidemic.Daemon
import Epidemic.Proofs.Store.Restart

namespace Epidemic

open Wire (Response)

namespace Node

theorem stats_refreshed (n : Node) (now : Instant) : (n.refreshed now).stats = n.stats := by
  unfold refreshed
  split
  · rfl
  · split <;> rfl

theorem stats_beginRound (n : Node) (now : Instant) : (n.beginRound now).1.stats = n.stats := by
  rw [← stats_refreshed n now]
  simp only [beginRound, prepare, selectTargets]
  split
  · rename_i begun
    exact congrArg (·.1.stats) begun.symm
  · rename_i begun
    exact congrArg (·.1.stats) begun.symm

structure SameRounds (n n' : Node) : Prop where
  started : n'.stats.started = n.stats.started
  completed : n'.stats.completed = n.stats.completed
  failed : n'.stats.failed = n.stats.failed

theorem sameRounds_hear (n : Node) (now : Instant) (turn : Turn)
    (reply : Except TransportError Response) : SameRounds n (n.hear now turn reply).1 := by
  unfold hear
  split
  · exact ⟨rfl, rfl, rfl⟩
  · rename_i outcome heard
    unfold proceed
    cases outcome <;> dsimp only [countExchange] <;> split <;> exact ⟨rfl, rfl, rfl⟩

end Node

namespace Daemon

inductive Step (d : Daemon) : Daemon → Prop
  | serve (now : Instant) (limit : Nat) (stream : Bytes) : Step d (d.serve now limit stream).1
  | beginRound (now : Instant) : Step d (d.beginRound now).1
  | hear (now : Instant) (round : Nat) (turn : Turn) (reply : Except TransportError Response) :
      Step d (d.hear now round turn reply).1
  | endRound (round : Nat) (outcome : Except RoundError RoundReport) :
      Step d (d.endRound round outcome)
  | interrupt : Step d d.interrupt

inductive Run (d : Daemon) : Daemon → Prop
  | refl : Run d d
  | step {d' d'' : Daemon} : Run d d' → Step d' d'' → Run d d''

variable {d d' d'' : Daemon}

structure Balanced (d : Daemon) : Prop where
  counted : d.node.stats.completed + d.node.stats.failed + d.underway.length ≤ d.node.stats.started
  whole : d.running = true →
    d.node.stats.completed + d.node.stats.failed + d.underway.length = d.node.stats.started

theorem Balanced.step (h : Balanced d) (step : Step d d') : Balanced d' := by
  obtain ⟨counted, whole⟩ := h
  cases step with
  | serve => exact ⟨counted, whole⟩
  | beginRound now =>
      have same := d.node.started.stats_beginRound now
      unfold beginRound
      split
      · rename_i running
        have all := whole running
        constructor <;> simp only [same, List.length_cons] <;>
          simp only [Node.started, Node.mapStats] <;> omega
      · exact ⟨counted, whole⟩
  | hear now round turn reply =>
      obtain ⟨started, completed, failed⟩ := d.node.sameRounds_hear now turn reply
      unfold hear
      split
      · constructor <;> simp only [started, completed, failed] <;> assumption
      · exact ⟨counted, whole⟩
  | endRound round outcome =>
      unfold endRound
      split
      · rename_i busy
        have less := List.length_erase_of_mem busy
        have positive := List.length_pos_of_mem busy
        refine ⟨?_, fun running => ?_⟩
        · cases outcome <;> simp only [Node.countRound, Node.mapStats, less] <;> omega
        · have all := whole running
          cases outcome <;> simp only [Node.countRound, Node.mapStats, less] <;> omega
      · exact ⟨counted, whole⟩
  | interrupt => exact ⟨by simp only [interrupt, List.length_nil]; omega, nofun⟩

theorem Run.balanced (run : Run d d') (h : Balanced d) : Balanced d' := by
  induction run with
  | refl => exact h
  | step _ step ih => exact ih.step step

theorem run_of_start {o : Options} {bind : String → UInt16 → Except TransportError Endpoint}
    {place : Option Store.Place} {fresh : Keypair} {selector : Selector} {now : Instant}
    (started : start o bind place fresh selector now = .ok d) (run : Run d d') : Balanced d' := by
  simp only [start, bind_ok, mapError_eq_ok, Except.ok.injEq] at started
  obtain ⟨store, -, keypair, -, node, started, rfl⟩ := started
  obtain ⟨-, bound, -, r, -, rfl⟩ := NodeConfig.start_eq_ok_iff.mp started
  exact run.balanced ⟨Nat.le_refl 0, fun _ => rfl⟩

structure Left (d d' : Daemon) : Prop where
  idle : d'.underway = []
  stopped : d'.running = false
  stats : d'.node.stats = d.node.stats
  store : d'.store = d.store

theorem left_interrupt (d : Daemon) : Left d d.interrupt :=
  ⟨rfl, rfl, rfl, rfl⟩

theorem Left.step (h : Left d d') (step : Step d' d'') : Left d d'' := by
  have idle (round : Nat) : round ∉ d'.underway := by simp [h.idle]
  cases step with
  | serve => exact ⟨h.idle, h.stopped, h.stats, h.store⟩
  | beginRound => simpa [beginRound, h.stopped] using h
  | hear => simpa [hear, idle] using h
  | endRound => simpa [endRound, idle] using h
  | interrupt => exact ⟨rfl, rfl, h.stats, h.store⟩

theorem run_interrupt (run : Run d.interrupt d') : Left d d' := by
  induction run with
  | refl => exact left_interrupt d
  | step _ step ih => exact ih.step step

end Daemon

end Epidemic
