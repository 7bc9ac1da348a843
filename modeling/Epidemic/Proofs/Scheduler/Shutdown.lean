import Epidemic.Proofs.Scheduler.Ticks

namespace Epidemic

namespace Pulse

@[simp] theorem running_advance (p : Pulse) (time : Nat) : (p.advance time).running = p.running := by
  unfold advance
  split <;> rfl

@[simp] theorem intervalMs_advance (p : Pulse) (time : Nat) :
    (p.advance time).intervalMs = p.intervalMs := by
  unfold advance
  split <;> rfl

theorem receive_false (p : Pulse) : p.receive (.send false) = p := by
  simp [receive]

theorem advance_hear {p : Pulse} (positive : 0 < p.intervalMs) {signals : List (Nat × Signal)}
    {T : Nat} (calm : ∀ x ∈ signals, x.1 ≤ T ∧ x.2 = .send false) :
    (signals.foldl (fun p x => (p.advance x.1).receive x.2) p).advance T = p.advance T := by
  induction signals generalizing p with
  | nil => rfl
  | cons x signals ih =>
      obtain ⟨⟨early, value⟩, calm⟩ := List.forall_mem_cons.mp calm
      rw [List.foldl_cons, value, receive_false, ih (by rwa [intervalMs_advance]) calm,
        advance_advance positive early]

end Pulse

namespace Loop

variable {size : Nat} {w : Network size} {i : Fin size} {l : Loop size}

def start (w : Network size) (i : Fin size) : Loop size :=
  { network := w, node := i }

def hear (l : Loop size) (signals : List (Nat × Signal)) : Loop size :=
  signals.foldl (fun l x => (l.advance x.1).receive x.2) l

def giveUp (l : Loop size) : Loop size :=
  { l with flights := [], cancelled := l.cancelled + l.flights.length }

theorem hear_append (l : Loop size) (before later : List (Nat × Signal)) :
    l.hear (before ++ later) = (l.hear before).hear later :=
  List.foldl_append

theorem attend_snd (l : Loop size) (signals : List (Nat × Signal)) :
    (l.attend signals).2 = l.hear signals := by
  induction l, signals using attend.induct with
  | case1 l => rfl
  | case2 l t s => rfl
  | case3 l t s rest more ih =>
      rw [attend, ih]
      · rfl
      · exact more

theorem run_eq (positive : 0 < (w.node i).settings.intervalMs) (sends : List (Nat × Bool))
    (stop : Nat × Signal) :
    let sent := sends.map fun x => (x.1, Signal.send x.2)
    let left := (start w i).hear (Signal.seen (Signal.inOrder 0 (sent ++ [stop])))
    (w.run i sends stop).1 = left.network ∧ (w.run i sends stop).2.stats = left.stats := by
  intro sent left
  simp only [Network.run, if_neg (Nat.ne_of_gt positive)]
  exact ⟨congrArg network (attend_snd ..), congrArg stats (attend_snd ..)⟩

theorem cancelled_count (l : Loop size) (outcome : Except RoundError RoundReport) :
    (l.count outcome).cancelled = l.cancelled := by
  cases outcome <;> rfl

theorem cancelled_follow (l : Loop size) (deadline : Nat) (progress : Progress size) :
    (l.follow deadline progress).cancelled = l.cancelled := by
  cases progress with
  | waiting p c => rfl
  | ended outcome => exact cancelled_count l outcome

theorem cancelled_land (l : Loop size) (f : Flight size) (rest : List (Flight size)) :
    (l.land f rest).cancelled = l.cancelled := by
  unfold land
  dsimp only
  split
  · exact cancelled_count ..
  · exact cancelled_follow ..

theorem cancelled_fireTimes (n : Nat) (l : Loop size) :
    (fireTimes n l).cancelled = l.cancelled := by
  induction n generalizing l with
  | zero => rfl
  | succ n ih =>
      have fired (l : Loop size) : l.fire.cancelled = l.cancelled := cancelled_follow ..
      rw [fireTimes, ih, fired]
      exact settle_keeps cancelled_land l l.nextTick

theorem cancelled_advance (l : Loop size) (time : Nat) :
    (l.advance time).cancelled = l.cancelled := by
  by_cases running : l.running
  · rw [advance_of_running running]
    exact (settle_keeps cancelled_land _ time).trans (cancelled_fireTimes _ l)
  · rw [advance_of_stopped running]

theorem pulse_hear (l : Loop size) (signals : List (Nat × Signal)) :
    (l.hear signals).pulse =
      signals.foldl (fun p x => (p.advance x.1).receive x.2) l.pulse := by
  induction signals generalizing l with
  | nil => rfl
  | cons x signals ih =>
      have step : l.hear (x :: signals) = ((l.advance x.1).receive x.2).hear signals := rfl
      rw [step, ih, pulse_receive, pulse_advance]
      rfl

theorem running_advance (l : Loop size) (time : Nat) : (l.advance time).running = l.running :=
  (congrArg Pulse.running (pulse_advance l time)).trans (Pulse.running_advance ..)

theorem running_hear (l : Loop size) (signals : List (Nat × Signal)) :
    (l.hear signals).running ↔ l.running ∧ ∀ x ∈ signals, x.2 = .send false := by
  induction signals generalizing l with
  | nil => simp [hear]
  | cons x signals ih =>
      have step : ((l.advance x.1).receive x.2).running =
          (l.running && decide (x.2 = .send false)) := by
        rw [← running_advance l x.1]
        exact congrArg Pulse.running (pulse_receive (l.advance x.1) x.2)
      change (hear ((l.advance x.1).receive x.2) signals).running ↔ _
      rw [ih, step, Bool.and_eq_true, decide_eq_true_eq, List.forall_mem_cons, and_assoc]

theorem intervalMs_hear (l : Loop size) (signals : List (Nat × Signal)) :
    (l.hear signals).pulse.intervalMs = l.pulse.intervalMs := by
  induction signals generalizing l with
  | nil => rfl
  | cons x signals ih =>
      have step : ((l.advance x.1).receive x.2).pulse.intervalMs = l.pulse.intervalMs := by
        rw [pulse_receive, pulse_advance, Pulse.receive, Pulse.intervalMs_advance]
      exact (ih _).trans step

def Tidy (l : Loop size) : Prop :=
  l.running = false → l.flights = []

theorem Tidy.receive_advance (h : l.Tidy) (time : Nat) (signal : Signal) :
    ((l.advance time).receive signal).Tidy := by
  unfold receive
  split
  · exact fun _ => rfl
  · rename_i stopped
    rw [running_advance] at stopped
    rwa [advance_of_stopped stopped]

theorem Tidy.hear (h : l.Tidy) (signals : List (Nat × Signal)) : (l.hear signals).Tidy := by
  induction signals generalizing l with
  | nil => exact h
  | cons x signals ih => exact ih (h.receive_advance x.1 x.2)

theorem Tidy.advance (h : l.Tidy) (time : Nat) : (l.advance time).Tidy := by
  intro stopped
  rw [running_advance] at stopped
  rw [advance_of_stopped (by simp [stopped])]
  exact h stopped

theorem tidy_start (w : Network size) (i : Fin size) : (start w i).Tidy :=
  fun _ => rfl

theorem Tidy.receive_false (h : l.Tidy) : l.receive (.send false) = l.giveUp := by
  obtain ⟨network, node, flights, cancelled, nextTick, running⟩ := l
  cases running with
  | true => rfl
  | false =>
      obtain rfl : flights = [] := h rfl
      rfl

theorem hear_of_stopped (stopped : l.running = false) (signals : List (Nat × Signal)) :
    l.hear signals = l := by
  induction signals with
  | nil => rfl
  | cons x signals ih =>
      have still : (l.advance x.1).receive x.2 = l := by
        rw [advance_of_stopped (by simp [stopped]), receive, if_neg (by simp [stopped])]
      change hear ((l.advance x.1).receive x.2) signals = l
      rw [still, ih]

theorem hear_advance {t T : Nat} (positive : 0 < l.pulse.intervalMs)
    {later : List (Nat × Signal)} (ahead : ∀ x ∈ later, t ≤ x.1) (reaches : t ≤ T) :
    ((l.advance t).hear later).advance T = (l.hear later).advance T := by
  -- only the first wait is parted: from its signal on both loops are one
  cases later with
  | nil => exact advance_advance positive reaches
  | cons x later =>
      change (hear (((l.advance t).advance x.1).receive x.2) later).advance T = _
      rw [advance_advance positive (ahead x List.mem_cons_self)]
      rfl

theorem giveUp_of_none (h : l.flights = []) : l.giveUp = l := by
  rw [giveUp, h, List.length_nil, Nat.add_zero, ← h]

theorem pulse_giveUp (l : Loop size) : l.giveUp.pulse = l.pulse := rfl

theorem hear_false (positive : 0 < (w.node i).settings.intervalMs)
    (before later : List (Nat × Signal)) (t T : Nat) (ahead : ∀ x ∈ later, t ≤ x.1)
    (reaches : t ≤ T) :
    let l := (start w i).hear before
    let sent := ((start w i).hear (before ++ (t, .send false) :: later)).advance T
    let unsent := ((start w i).hear (before ++ later)).advance T
    (l.advance t).receive (.send false) = (l.advance t).giveUp ∧
      ((l.advance t).flights = [] → sent = unsent) ∧ sent.pulse = unsent.pulse ∧
      (l.running ↔ ∀ x ∈ before, x.2 = .send false) ∧ (l.advance T).cancelled = l.cancelled ∧
      (l.running = false → unsent = l) := by
  intro l sent unsent
  have interval : 0 < l.pulse.intervalMs := by
    rw [intervalMs_hear]
    exact positive
  have given : (l.advance t).receive (.send false) = (l.advance t).giveUp :=
    (((tidy_start w i).hear before).advance t).receive_false
  have after_false : sent = ((l.advance t).giveUp.hear later).advance T := by
    change advance (hear (start w i) (before ++ (t, .send false) :: later)) T = _
    rw [hear_append, ← given]
    rfl
  have undisturbed : unsent = ((l.advance t).hear later).advance T := by
    rw [hear_advance interval ahead reaches, ← hear_append]
  refine ⟨given, fun none => ?_, ?_, ?_, cancelled_advance l T, fun stopped => ?_⟩
  · rw [after_false, undisturbed, giveUp_of_none none]
  · rw [after_false, undisturbed, pulse_advance, pulse_advance, pulse_hear, pulse_hear, pulse_giveUp]
  · exact (running_hear ..).trans (and_iff_right rfl)
  · change advance (hear (start w i) (before ++ later)) T = l
    rw [hear_append, hear_of_stopped stopped, advance_of_stopped (by simp [stopped])]

def host (n : UInt8) (seeds : List Endpoint) : Node :=
  let owned := Peer.starting ⟨[n]⟩ (.v4 ⟨10, 0, 0, n⟩ 7000) ⟨0, 0⟩ "1" 3
  { member := ⟨seeds.foldl Registry.addSeed (.ofSelf owned), .log⟩
    refresher := none
    selector := .fixed 0
    settings := { intervalMs := 100 } }

def distant (nodes : Vector Node size) (far : Fin size) (address : Endpoint) : Network size where
  clock := ⟨0, 0⟩
  nodes := nodes
  routes := [(address, { handler := .node far, synDelay := 31 })]

theorem hear_false_distant :
    let seed : Endpoint := .v4 ⟨10, 0, 0, 2⟩ 7000
    let w := distant #v[host 1 [seed], host 2 []] 1 seed
    let before : List (Nat × Signal) := [(15, .send false)]
    let later : List (Nat × Signal) := [(110, .send true)]
    0 < (w.node 0).settings.intervalMs ∧ ((start w 0).hear before).cancelled = 1 ∧
      ((start w 0).hear before).stats.completed = 0 ∧
      ((start w 0).hear (before ++ (60, .send false) :: later)).advance 200 =
        ((start w 0).hear (before ++ later)).advance 200 := by
  intro seed w before later
  have positive : 0 < (w.node 0).settings.intervalMs := by decide
  obtain ⟨-, unchanged, -⟩ := hear_false positive before later 60 200 (by decide) (by decide)
  exact ⟨positive, by decide +kernel, by decide +kernel, unchanged (by decide +kernel)⟩

theorem run_false_distant :
    let seed : Endpoint := .v4 ⟨10, 0, 0, 2⟩ 7000
    let w := distant #v[host 1 [seed], host 2 []] 1 seed
    (w.run 0 [(15, false)] (50, .send true)).2.stats.completed = 0 ∧
      (w.run 0 [] (50, .send true)).2.stats.completed = 1 := by
  decide +kernel

end Loop

end Epidemic
