import Epidemic.Proofs.Scheduler.Frame
import Mathlib.Order.Lattice

namespace Epidemic

structure Pulse where
  running : Bool
  nextTick : Nat
  intervalMs : Nat
  started : Nat
  deriving DecidableEq, Repr

namespace Pulse

variable {p : Pulse} {t t' : Nat}

def due (p : Pulse) (time : Nat) : Nat :=
  if p.nextTick ≤ time then (time - p.nextTick) / p.intervalMs + 1 else 0

def tick (p : Pulse) (n : Nat) : Pulse :=
  { p with nextTick := p.nextTick + n * p.intervalMs, started := p.started + n }

def advance (p : Pulse) (time : Nat) : Pulse :=
  if p.running then p.tick (p.due time) else p

def receive (p : Pulse) (signal : Signal) : Pulse :=
  { p with running := p.running && signal = .send false }

theorem tick_tick (p : Pulse) (n m : Nat) : (p.tick n).tick m = p.tick (n + m) := by
  simp only [tick, Nat.add_mul, Nat.add_assoc]

theorem lt_due_iff (positive : 0 < p.intervalMs) {n : Nat} :
    n < p.due t ↔ p.nextTick + n * p.intervalMs ≤ t := by
  rw [due]
  split
  · rw [Nat.lt_succ_iff, Nat.le_div_iff_mul_le positive]
    omega
  · omega

theorem lt_nextTick (positive : 0 < p.intervalMs) : t < (p.tick (p.due t)).nextTick :=
  Nat.lt_of_not_le fun passed => absurd ((lt_due_iff positive).mpr passed) (Nat.lt_irrefl _)

theorem due_mono (positive : 0 < p.intervalMs) (h : t ≤ t') : p.due t ≤ p.due t' :=
  le_of_forall_lt fun _ passed =>
    (lt_due_iff positive).mpr (((lt_due_iff positive).mp passed).trans h)

theorem due_tick (positive : 0 < p.intervalMs) (n : Nat) : (p.tick n).due t = p.due t - n := by
  -- the `m`th tick after `n` others is the tick `n + m`
  refine eq_of_forall_lt_iff fun m => ?_
  have shifted : (p.tick n).nextTick + m * p.intervalMs = p.nextTick + (n + m) * p.intervalMs := by
    rw [tick, Nat.add_mul, Nat.add_assoc]
  rw [lt_due_iff (p := p.tick n) positive, Nat.lt_sub_iff_add_lt', lt_due_iff positive, ← shifted]
  rfl

theorem advance_advance (positive : 0 < p.intervalMs) (h : t ≤ t') :
    (p.advance t).advance t' = p.advance t' := by
  by_cases running : p.running
  · have still : (p.tick (p.due t)).running := running
    rw [advance, advance, if_pos running, if_pos still, due_tick positive, tick_tick,
      Nat.add_sub_cancel' (due_mono positive h), advance, if_pos running]
  · have still : p.advance t = p := if_neg running
    rw [still]

end Pulse

namespace Loop

variable {size : Nat} {l : Loop size} {t t' : Nat}

def pulse (l : Loop size) : Pulse :=
  ⟨l.running, l.nextTick, (l.network.node l.node).settings.intervalMs, l.stats.started⟩

theorem pulse_mapStats (l : Loop size) {f : RoundStats → RoundStats}
    (h : (f l.stats).started = l.stats.started) : (l.mapStats f).pulse = l.pulse := by
  simp only [pulse, stats, mapStats, Network.node_setNode] at h ⊢
  rw [h]

theorem pulse_count (l : Loop size) (outcome : Except RoundError RoundReport) :
    (l.count outcome).pulse = l.pulse := by
  cases outcome with
  | ok report => exact pulse_mapStats l rfl
  | error e => exact pulse_mapStats l rfl

theorem pulse_follow (l : Loop size) (deadline : Nat) (progress : Progress size) :
    (l.follow deadline progress).pulse = l.pulse := by
  cases progress with
  | waiting p c => rfl
  | ended outcome => exact pulse_count l outcome

theorem pulse_network {w : Network size} {i : Fin size} {n : Nat} (h : l.network.Gains i n w) :
    ({ l with network := w } : Loop size).pulse = l.pulse := by
  simp only [pulse, stats, h.settings, h.started]

theorem pulse_land (l : Loop size) (f : Flight size) (rest : List (Flight size)) :
    (l.land f rest).pulse = l.pulse := by
  unfold land
  dsimp only
  split
  · exact pulse_count ..
  · exact (pulse_follow ..).trans (pulse_network (Network.part_continueRound ..).gains)

theorem settle_of_none (h : Flight.earliest? l.flights = none) : l.settle t = l := by
  rw [settle]
  split <;> simp_all

theorem settle_of_due {f : Flight size} {rest : List (Flight size)}
    (h : Flight.earliest? l.flights = some (f, rest)) (due : f.moment ≤ t) :
    l.settle t = (l.land f rest).settle t := by
  rw [settle]
  split <;> simp_all

theorem settle_of_later {f : Flight size} {rest : List (Flight size)}
    (h : Flight.earliest? l.flights = some (f, rest)) (later : ¬f.moment ≤ t) :
    l.settle t = l := by
  rw [settle]
  split <;> simp_all

theorem settle_keeps {β : Type} {g : Loop size → β} (h : ∀ l f rest, g (land l f rest) = g l)
    (l : Loop size) (time : Nat) : g (l.settle time) = g l := by
  induction l using settle.induct time with
  | case1 l none => rw [settle_of_none none]
  | case2 l f rest first due less ih => rw [settle_of_due first due, ih, h]
  | case3 l f rest first later => rw [settle_of_later first later]

theorem pulse_settle (l : Loop size) (time : Nat) : (l.settle time).pulse = l.pulse :=
  settle_keeps pulse_land l time

theorem pulse_fire (l : Loop size) : l.fire.pulse = l.pulse.tick 1 := by
  have begun := (Network.part_beginRound
    (l.mapStats fun s => { s with started := s.started + 1 }).network l.nextTick l.node).gains
  unfold fire
  dsimp only
  rw [pulse_follow]
  simp only [pulse, stats, mapStats, Pulse.tick, Nat.one_mul] at begun ⊢
  simp only [begun.settings, begun.started, Network.node_setNode]

theorem pulse_fireTimes (n : Nat) (l : Loop size) : (fireTimes n l).pulse = l.pulse.tick n := by
  induction n generalizing l with
  | zero => simp [fireTimes, Pulse.tick]
  | succ n ih =>
      rw [fireTimes, ih, pulse_fire, pulse_settle, Pulse.tick_tick, Nat.add_comm]

theorem advance_of_running (running : l.running) (time : Nat) :
    l.advance time = (fireTimes (l.ticksDue time) l).settle time :=
  if_pos running

theorem advance_of_stopped (stopped : ¬l.running) (time : Nat) : l.advance time = l :=
  if_neg stopped

theorem pulse_advance (l : Loop size) (time : Nat) :
    (l.advance time).pulse = l.pulse.advance time := by
  by_cases running : l.running
  · rw [advance_of_running running, pulse_settle, pulse_fireTimes]
    exact (if_pos (c := l.pulse.running) running).symm
  · rw [advance_of_stopped running]
    exact (if_neg (c := l.pulse.running) running).symm

theorem pulse_receive (l : Loop size) (signal : Signal) :
    (l.receive signal).pulse = l.pulse.receive signal := by
  unfold receive Pulse.receive
  split <;> simp_all [pulse, stats]

theorem settle_settle (h : t ≤ t') : (l.settle t).settle t' = l.settle t' := by
  induction l using settle.induct t with
  | case1 l none => rw [settle_of_none none]
  | case2 l f rest first due less ih =>
      rw [settle_of_due first due, ih, settle_of_due first (due.trans h)]
  | case3 l f rest first later => rw [settle_of_later first later]

theorem fireTimes_add (n m : Nat) (l : Loop size) :
    fireTimes (n + m) l = fireTimes m (fireTimes n l) := by
  induction n generalizing l with
  | zero => rw [Nat.zero_add, fireTimes]
  | succ n ih => rw [Nat.succ_add, fireTimes, fireTimes, ih]

theorem settle_fireTimes (n : Nat) (before : t ≤ l.nextTick) (h : t ≤ t') :
    (fireTimes n (l.settle t)).settle t' = (fireTimes n l).settle t' := by
  cases n with
  | zero => exact settle_settle h
  | succ n =>
      have tick : (l.settle t).nextTick = l.nextTick := congrArg Pulse.nextTick (pulse_settle l t)
      rw [fireTimes, fireTimes, tick, settle_settle before]

theorem advance_advance (positive : 0 < l.pulse.intervalMs) (h : t ≤ t') :
    (l.advance t).advance t' = l.advance t' := by
  by_cases running : l.running
  · have pulse : (l.advance t).pulse = l.pulse.tick (l.ticksDue t) := by
      rw [advance_of_running running, pulse_settle, pulse_fireTimes]
    have still : (l.advance t).running := (congrArg Pulse.running pulse).trans running
    have left : (l.advance t).ticksDue t' = l.ticksDue t' - l.ticksDue t :=
      (congrArg (·.due t') pulse).trans (Pulse.due_tick positive _)
    have all : l.ticksDue t ≤ l.ticksDue t' := Pulse.due_mono positive h
    have ahead : t ≤ (fireTimes (l.ticksDue t) l).nextTick :=
      (Pulse.lt_nextTick positive).le.trans_eq
        (congrArg Pulse.nextTick (pulse_fireTimes (l.ticksDue t) l)).symm
    -- no tick is left until `t`, so nothing lands between the two waits that would not land anyway
    rw [advance_of_running still, left, advance_of_running running, settle_fireTimes _ ahead h,
      ← fireTimes_add, Nat.add_sub_cancel' all, advance_of_running running]
  · rw [advance_of_stopped running]

end Loop

end Epidemic
