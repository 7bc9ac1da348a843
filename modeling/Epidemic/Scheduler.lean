import Epidemic.Network

namespace Epidemic

inductive Signal where
  | send (stop : Bool)
  | close
  deriving DecidableEq, Repr

namespace Signal

def inOrder (time : Nat) : List (Nat × Signal) → List (Nat × Signal)
  | [] => []
  | (t, s) :: rest => (max time t, s) :: inOrder (max time t) rest

-- The channel keeps one value, so of the signals of one moment only the last is seen.
def seen : List (Nat × Signal) → List (Nat × Signal)
  | [] => []
  | [x] => [x]
  | x :: y :: rest => if x.1 = y.1 then seen (y :: rest) else x :: seen (y :: rest)

end Signal

structure Flight (size : Nat) where
  pending : Pending size
  course : Course size
  deadline : Nat
  deriving DecidableEq, Repr

namespace Flight

variable {size : Nat}

-- A call that is due exactly at the deadline comes first.
def expires (f : Flight size) : Bool :=
  f.deadline < f.pending.due

def moment (f : Flight size) : Nat :=
  min f.pending.due f.deadline

def rank (f : Flight size) : Nat :=
  (Progress.waiting f.pending f.course).rank

theorem rank_pos (f : Flight size) : 0 < f.rank := by
  have : 0 < f.pending.call.rank := by cases f.pending.call <;> simp [Call.rank]
  simp only [rank, Progress.rank]
  omega

def earliest? : List (Flight size) → Option (Flight size × List (Flight size))
  | [] => none
  | f :: fs =>
      match earliest? fs with
      | none => some (f, [])
      | some (g, rest) => if f.moment ≤ g.moment then some (f, fs) else some (g, f :: rest)

def totalRank : List (Flight size) → Nat
  | [] => 0
  | f :: fs => f.rank + totalRank fs

theorem totalRank_append (fs gs : List (Flight size)) :
    totalRank (fs ++ gs) = totalRank fs + totalRank gs := by
  induction fs with
  | nil => simp [totalRank]
  | cons f fs ih => simp only [List.cons_append, totalRank, ih]; omega

theorem eq_nil_of_earliest? {fs : List (Flight size)} (h : earliest? fs = none) : fs = [] := by
  cases fs with
  | nil => rfl
  | cons f fs =>
      simp only [earliest?] at h
      split at h
      · cases h
      · split at h <;> cases h

theorem earliest?_split {fs rest : List (Flight size)} {f : Flight size}
    (h : earliest? fs = some (f, rest)) :
    ∃ before after, fs = before ++ f :: after ∧ rest = before ++ after := by
  induction fs generalizing f rest with
  | nil => cases h
  | cons g gs ih =>
      simp only [earliest?] at h
      split at h
      · rename_i none
        cases h
        exact ⟨[], [], by rw [eq_nil_of_earliest? none]; rfl, rfl⟩
      · rename_i f' rest' some
        split at h <;> cases h
        · exact ⟨[], gs, rfl, rfl⟩
        · obtain ⟨before, after, split, left⟩ := ih some
          exact ⟨g :: before, after, by rw [split]; rfl, by rw [left]; rfl⟩

theorem totalRank_earliest? {fs rest : List (Flight size)} {f : Flight size}
    (h : earliest? fs = some (f, rest)) : totalRank fs = f.rank + totalRank rest := by
  obtain ⟨before, after, rfl, rfl⟩ := earliest?_split h
  simp only [totalRank_append, totalRank]
  omega

end Flight

structure Loop (size : Nat) where
  network : Network size
  node : Fin size
  flights : List (Flight size) := []
  cancelled : Nat := 0
  nextTick : Nat := 0
  running : Bool := true

namespace Loop

variable {size : Nat}

def stats (l : Loop size) : RoundStats :=
  (l.network.node l.node).stats

def mapStats (l : Loop size) (f : RoundStats → RoundStats) : Loop size :=
  let n := l.network.node l.node
  { l with network := l.network.setNode l.node { n with stats := f n.stats } }

def count (l : Loop size) : Except RoundError RoundReport → Loop size
  | .ok _ => l.mapStats fun s => { s with completed := s.completed + 1 }
  | .error _ => l.mapStats fun s => { s with failed := s.failed + 1 }

def follow (l : Loop size) (deadline : Nat) : Progress size → Loop size
  | .waiting p c => { l with flights := l.flights ++ [⟨p, c, deadline⟩] }
  | .ended outcome => l.count outcome

def fire (l : Loop size) : Loop size :=
  let settings := (l.network.node l.node).settings
  let time := l.nextTick
  let l := l.mapStats fun s => { s with started := s.started + 1 }
  let (network, progress) := l.network.beginRound time l.node
  { l with network := network, nextTick := time + settings.intervalMs }.follow
    (time + settings.roundTimeoutMs) progress

def land (l : Loop size) (f : Flight size) (rest : List (Flight size)) : Loop size :=
  let l := { l with flights := rest }
  if f.expires then l.count (.error (.timedOut (l.network.node l.node).settings.roundTimeoutMs))
  else
    let (network, progress) := l.network.continueRound f.pending f.course
    { l with network := network }.follow f.deadline progress

@[simp] theorem flights_count (l : Loop size) (outcome : Except RoundError RoundReport) :
    (l.count outcome).flights = l.flights := by
  cases outcome <;> rfl

theorem totalRank_land_lt (l : Loop size) (f : Flight size) (rest : List (Flight size)) :
    Flight.totalRank (l.land f rest).flights < f.rank + Flight.totalRank rest := by
  have positive := f.rank_pos
  unfold land
  simp only []
  split
  · simp only [flights_count]; omega
  · have less := Network.rank_continueRound_lt l.network f.pending f.course
    cases h : (l.network.continueRound f.pending f.course).2 with
    | ended outcome => simp only [follow, flights_count]; omega
    | waiting p c =>
        rw [h] at less
        simp only [follow, Flight.totalRank_append, Flight.totalRank, Flight.rank] at less ⊢
        omega

def settle (l : Loop size) (time : Nat) : Loop size :=
  match h : Flight.earliest? l.flights with
  | none => l
  | some (f, rest) =>
      if f.moment ≤ time then
        have less : Flight.totalRank (l.land f rest).flights < Flight.totalRank l.flights := by
          have smaller := totalRank_land_lt l f rest
          have split := Flight.totalRank_earliest? h
          omega
        (l.land f rest).settle time
      else l
termination_by Flight.totalRank l.flights

def ticksDue (l : Loop size) (time : Nat) : Nat :=
  if l.nextTick ≤ time then
    (time - l.nextTick) / (l.network.node l.node).settings.intervalMs + 1
  else 0

def fireTimes : Nat → Loop size → Loop size
  | 0, l => l
  | n + 1, l => fireTimes n (l.settle l.nextTick).fire

def advance (l : Loop size) (time : Nat) : Loop size :=
  if l.running then (fireTimes (l.ticksDue time) l).settle time else l

-- Whatever comes over the channel, the rounds in flight are given up; a false value leaves the
-- loop running.
def receive (l : Loop size) (signal : Signal) : Loop size :=
  if l.running then
    { l with
      flights := []
      cancelled := l.cancelled + l.flights.length
      running := signal = .send false }
  else l

def attend (l : Loop size) : List (Nat × Signal) → Bool × Loop size
  | [] => (l.running, l)
  | [(t, s)] => ((l.advance t).running, (l.advance t).receive s)
  | (t, s) :: rest => attend ((l.advance t).receive s) rest

end Loop

inductive Ending where
  | stopped
  | invalidInterval
  deriving DecidableEq, Repr

structure RunReport where
  runningBeforeStop : Bool
  ending : Ending
  stats : RoundStats
  deriving DecidableEq, Repr

def Network.run {size : Nat} (w : Network size) (i : Fin size) (sends : List (Nat × Bool))
    (stop : Nat × Signal) : Network size × RunReport :=
  if (w.node i).settings.intervalMs = 0 then
    (w, ⟨false, .invalidInterval, (w.node i).stats⟩)
  else
    let sent := sends.map fun (t, value) => (t, Signal.send value)
    let seen := Signal.seen (Signal.inOrder 0 (sent ++ [stop]))
    let (running, l) := Loop.attend { network := w, node := i } seen
    (l.network, ⟨running, .stopped, l.stats⟩)

end Epidemic
