import Epidemic.Proofs.Scheduler.Shutdown

namespace Epidemic

inductive Mark where
  | begun
  | returned (outcome : Except TransportError ExchangeReport)
  | ended (outcome : Except RoundError RoundReport)
  | givenUp

namespace Mark

@[simp] def isBegun : Mark → Bool
  | .begun => true
  | _ => false

@[simp] def isGood : Mark → Bool
  | .returned outcome => outcome.isOk
  | _ => false

@[simp] def isCompleted : Mark → Bool
  | .ended (.ok _) => true
  | _ => false

@[simp] def isFailed : Mark → Bool
  | .ended (.error _) => true
  | _ => false

@[simp] def isGivenUp : Mark → Bool
  | .givenUp => true
  | _ => false

end Mark

namespace RoundStats

def after (s : RoundStats) (marks : List Mark) : RoundStats where
  started := s.started + marks.countP Mark.isBegun
  completed := s.completed + marks.countP Mark.isCompleted
  failed := s.failed + marks.countP Mark.isFailed
  exchanges := s.exchanges + marks.countP Mark.isGood

theorem after_append (s : RoundStats) (marks later : List Mark) :
    s.after (marks ++ later) = (s.after marks).after later := by
  simp only [after, List.countP_append, Nat.add_assoc]

end RoundStats

def Returns.marks (returns : Returns) : List Mark :=
  returns.map .returned

theorem Returns.countP_marks (p : Mark → Bool) (h : ∀ outcome, p (.returned outcome) = false)
    (returns : Returns) : returns.marks.countP p = 0 := by
  simp [Returns.marks, List.countP_eq_zero, h]

theorem Returns.after_marks (s : RoundStats) (returns : Returns) :
    s.after returns.marks = { s with exchanges := s.exchanges + returns.good } := by
  have good : returns.marks.countP Mark.isGood = returns.good := List.countP_map
  simp only [RoundStats.after, good, Returns.countP_marks Mark.isBegun fun _ => rfl,
    Returns.countP_marks Mark.isCompleted fun _ => rfl,
    Returns.countP_marks Mark.isFailed fun _ => rfl, Nat.add_zero]

def Progress.marks {size : Nat} : Progress size → List Mark
  | .waiting _ _ => []
  | .ended outcome => [.ended outcome]

namespace Loop

variable {size : Nat} {l l' m : Loop size} {marks later : List Mark} {busy : Nat}

def fireMarks (l : Loop size) : List Mark :=
  let w := (l.mapStats fun s => { s with started := s.started + 1 }).network
  .begun :: ((w.beginReturns l.nextTick l.node).marks ++ (w.beginRound l.nextTick l.node).2.marks)

def landMarks (l : Loop size) (f : Flight size) : List Mark :=
  if f.expires then
    [.ended (.error (.timedOut (l.network.node l.node).settings.roundTimeoutMs))]
  else
    (l.network.continueReturns f.pending f.course).marks ++
      (l.network.continueRound f.pending f.course).2.marks

inductive Step : Loop size → List Mark → Loop size → Prop where
  | fire {l : Loop size} (running : l.running) : Step l l.fireMarks l.fire
  | land {l : Loop size} {before after : List (Flight size)} {f : Flight size}
      (due : l.flights = before ++ f :: after) : Step l (l.landMarks f) (l.land f (before ++ after))
  | receive {l : Loop size} (signal : Signal) (running : l.running) :
      Step l (.replicate l.flights.length .givenUp) (l.receive signal)
  | elsewhere {l : Loop size} {w : Network size}
      (settings : (w.node l.node).settings = (l.network.node l.node).settings)
      (stats : (w.node l.node).stats = l.stats) : Step l [] { l with network := w }

inductive Run : Loop size → List Mark → Loop size → Prop where
  | refl (l : Loop size) : Run l [] l
  | step {l l' l'' : Loop size} {marks later : List Mark} (first : Step l marks l')
      (rest : Run l' later l'') : Run l (marks ++ later) l''

def Own (l : Loop size) : Prop :=
  ∀ f ∈ l.flights, f.course.node = l.node

structure Books (l : Loop size) (marks : List Mark) (l' : Loop size) (busy : Nat) : Prop where
  node : l'.node = l.node
  settings : (l'.network.node l.node).settings = (l.network.node l.node).settings
  stats : l'.stats = l.stats.after marks
  cancelled : l'.cancelled = l.cancelled + marks.countP Mark.isGivenUp
  flights : l'.flights.length + busy + marks.countP Mark.isCompleted + marks.countP Mark.isFailed +
    marks.countP Mark.isGivenUp = l.flights.length + marks.countP Mark.isBegun
  failures : ∀ e, .ended (.error e) ∈ marks → e.Fits (l.network.node l.node).settings
  own : l'.Own

namespace Books

theorem refl (own : l.Own) : l.Books [] l 0 :=
  ⟨rfl, rfl, rfl, rfl, rfl, by simp, own⟩

theorem trans (h : l.Books marks m 0) (h' : m.Books later l' busy) :
    l.Books (marks ++ later) l' busy := by
  constructor
  · rw [h'.node, h.node]
  · rw [← h.node, h'.settings, h.node, h.settings]
  · rw [h'.stats, h.stats, RoundStats.after_append]
  · rw [h'.cancelled, h.cancelled, List.countP_append, Nat.add_assoc]
  · have first := h.flights
    have second := h'.flights
    simp only [List.countP_append]
    omega
  · intro e he
    rcases List.mem_append.mp he with he | he
    · exact h.failures e he
    · exact h.settings ▸ h.node ▸ h'.failures e he
  · exact h'.own

theorem network (h : l.Books marks m busy) {returns : Returns} {w : Network size}
    (gains : m.network.Gains m.node returns.good w) (tick : Nat) :
    l.Books (marks ++ returns.marks) { m with network := w, nextTick := tick } busy := by
  have same (p : Mark → Bool) (other : ∀ outcome, p (.returned outcome) = false) :
      (marks ++ returns.marks).countP p = marks.countP p := by
    rw [List.countP_append, Returns.countP_marks p other, Nat.add_zero]
  have stats := gains.stats m.node
  rw [if_pos rfl] at stats
  constructor
  · exact h.node
  · exact (gains.settings l.node).trans h.settings
  · rw [RoundStats.after_append, ← h.stats, Returns.after_marks]
    exact stats
  · rw [same Mark.isGivenUp fun _ => rfl]
    exact h.cancelled
  · rw [same Mark.isCompleted fun _ => rfl, same Mark.isFailed fun _ => rfl,
      same Mark.isGivenUp fun _ => rfl, same Mark.isBegun fun _ => rfl]
    exact h.flights
  · intro e he
    exact h.failures e (by simpa [Returns.marks] using he)
  · exact h.own

theorem count (h : l.Books marks m 1) {outcome : Except RoundError RoundReport}
    (fits : ∀ e, outcome = .error e → e.Fits (l.network.node l.node).settings) :
    l.Books (marks ++ [.ended outcome]) (m.count outcome) 0 := by
  have flights := h.flights
  have stats (f : RoundStats → RoundStats) : (m.mapStats f).stats = f m.stats := by
    simp [Loop.stats, mapStats]
  constructor
  · cases outcome <;> exact h.node
  · rw [← h.settings, ← h.node]
    cases outcome <;> simp [Loop.count, mapStats]
  · rw [RoundStats.after_append, ← h.stats]
    cases outcome <;> exact stats _
  · rw [cancelled_count, h.cancelled]
    cases outcome <;> simp
  · rw [flights_count]
    cases outcome <;> simp at flights ⊢ <;> omega
  · intro e he
    rcases List.mem_append.mp he with he | he
    · exact h.failures e he
    · exact fits e (Mark.ended.inj (List.mem_singleton.mp he)).symm
  · cases outcome <;> exact h.own

theorem follow (h : l.Books marks m 1) {progress : Progress size}
    (fits : progress.Fits l.node (l.network.node l.node).settings) (deadline : Nat) :
    l.Books (marks ++ progress.marks) (m.follow deadline progress) 0 := by
  cases progress with
  | waiting p c =>
      have flights := h.flights
      rw [Progress.marks, List.append_nil]
      refine { h with flights := ?_, own := ?_ }
      · simp only [Loop.follow, List.length_append, List.length_singleton]
        omega
      · intro f hf
        rcases List.mem_append.mp hf with hf | hf
        · exact h.own f hf
        · rw [List.mem_singleton.mp hf]
          exact fits.trans h.node.symm
  | ended outcome =>
      exact h.count fun e he => by
        subst he
        exact fits

theorem part (h : l.Books marks m 1) {returns : Returns} {w : Network size}
    {progress : Progress size} (done : m.network.Part m.node returns (w, progress))
    (tick deadline : Nat) :
    l.Books (marks ++ (returns.marks ++ progress.marks))
      (({ m with network := w, nextTick := tick } : Loop size).follow deadline progress) 0 := by
  have settings : (m.network.node m.node).settings = (l.network.node l.node).settings := by
    rw [h.node, h.settings]
  rw [← List.append_assoc]
  exact (h.network done.gains tick).follow (settings ▸ h.node ▸ done.fits) deadline

theorem fire (own : l.Own) : l.Books l.fireMarks l.fire 0 := by
  have begun : l.Books [.begun] (l.mapStats fun s => { s with started := s.started + 1 }) 1 := by
    constructor
    · rfl
    · simp [mapStats]
    · simp [mapStats, Loop.stats, RoundStats.after]
    · rfl
    · rfl
    · simp
    · exact own
  exact begun.part (Network.part_beginRound ..) _ _

theorem land {before after : List (Flight size)} {f : Flight size} (own : l.Own)
    (due : l.flights = before ++ f :: after) :
    l.Books (l.landMarks f) (l.land f (before ++ after)) 0 := by
  have taken : l.Books [] { l with flights := before ++ after } 1 := by
    refine { refl own with flights := ?_, own := fun g hg => own g ?_ }
    · simp only [due, List.length_append, List.length_cons, List.countP_nil]
      omega
    · rw [due]
      simp only [List.mem_append, List.mem_cons] at hg ⊢
      tauto
  have mine : f.course.node = l.node := own f (by simp [due])
  unfold landMarks Loop.land
  dsimp only
  split
  · refine taken.count fun e he => ?_
    cases he
    rfl
  · have done := Network.part_continueRound l.network f.pending f.course
    rw [mine] at done
    exact taken.part done _ _

theorem receive (running : l.running) (signal : Signal) :
    l.Books (.replicate l.flights.length .givenUp) (l.receive signal) 0 := by
  have stats : l.stats = l.stats.after (.replicate l.flights.length .givenUp) := by
    simp [RoundStats.after, List.countP_replicate]
  rw [Loop.receive, if_pos running]
  constructor
  · rfl
  · rfl
  · exact stats
  · simp [List.countP_replicate]
  · simp [List.countP_replicate]
  · simp
  · simp [Own]

theorem elsewhere {w : Network size} (own : l.Own)
    (settings : (w.node l.node).settings = (l.network.node l.node).settings)
    (stats : (w.node l.node).stats = l.stats) : l.Books [] { l with network := w } 0 :=
  { refl own with settings := settings, stats := stats }

theorem step (own : l.Own) (h : l.Step marks l') : l.Books marks l' 0 := by
  cases h with
  | fire running => exact .fire own
  | land due => exact .land own due
  | receive signal running => exact .receive running signal
  | elsewhere settings stats => exact .elsewhere own settings stats

theorem run (own : l.Own) (h : l.Run marks l') : l.Books marks l' 0 := by
  induction h with
  | refl l => exact .refl own
  | step first rest ih =>
      have booked := step own first
      exact booked.trans (ih booked.own)

end Books

namespace Run

theorem of_step (h : l.Step marks l') : l.Run marks l' :=
  List.append_nil marks ▸ .step h (.refl l')

theorem trans (h : l.Run marks m) (h' : m.Run later l') : l.Run (marks ++ later) l' := by
  induction h with
  | refl l => exact h'
  | step first rest ih =>
      rw [List.append_assoc]
      exact .step first (ih h')

end Run

def Reaches (l l' : Loop size) : Prop :=
  ∃ marks, l.Run marks l'

namespace Reaches

theorem refl (l : Loop size) : l.Reaches l :=
  ⟨[], .refl l⟩

theorem of_step (h : l.Step marks l') : l.Reaches l' :=
  ⟨marks, .of_step h⟩

theorem trans (h : l.Reaches m) (h' : m.Reaches l') : l.Reaches l' := by
  obtain ⟨marks, run⟩ := h
  obtain ⟨later, run'⟩ := h'
  exact ⟨marks ++ later, run.trans run'⟩

end Reaches

theorem reaches_settle (l : Loop size) (time : Nat) : l.Reaches (l.settle time) := by
  induction l using settle.induct time with
  | case1 l none =>
      rw [settle_of_none none]
      exact .refl l
  | case2 l f rest first due less ih =>
      rw [settle_of_due first due]
      obtain ⟨before, after, split, rfl⟩ := Flight.earliest?_split first
      exact (Reaches.of_step (.land split)).trans ih
  | case3 l f rest first later =>
      rw [settle_of_later first later]
      exact .refl l

theorem reaches_fireTimes (running : l.running) (n : Nat) : l.Reaches (fireTimes n l) := by
  induction n generalizing l with
  | zero => exact .refl l
  | succ n ih =>
      have settled : (l.settle l.nextTick).running :=
        (congrArg Pulse.running (pulse_settle l l.nextTick)).trans running
      have fired : (l.settle l.nextTick).fire.running :=
        (congrArg Pulse.running (pulse_fire _)).trans settled
      exact (reaches_settle l l.nextTick).trans ((Reaches.of_step (.fire settled)).trans (ih fired))

theorem reaches_advance (l : Loop size) (time : Nat) : l.Reaches (l.advance time) := by
  by_cases running : l.running
  · rw [advance_of_running running]
    exact (reaches_fireTimes running _).trans (reaches_settle _ time)
  · rw [advance_of_stopped running]
    exact .refl l

theorem reaches_receive (l : Loop size) (signal : Signal) : l.Reaches (l.receive signal) := by
  by_cases running : l.running
  · exact .of_step (.receive signal running)
  · rw [receive, if_neg running]
    exact .refl l

theorem reaches_hear (l : Loop size) (signals : List (Nat × Signal)) :
    l.Reaches (l.hear signals) := by
  induction signals generalizing l with
  | nil => exact .refl l
  | cons x signals ih =>
      exact (reaches_advance l x.1).trans ((reaches_receive _ x.2).trans (ih _))

theorem own_start (w : Network size) (i : Fin size) : (start w i).Own :=
  fun _ hf => absurd hf List.not_mem_nil

theorem started_hear {w : Network size} {i : Fin size}
    (positive : 0 < (w.node i).settings.intervalMs) {signals : List (Nat × Signal)} {T : Nat}
    (calm : ∀ x ∈ signals, x.1 ≤ T ∧ x.2 = .send false) :
    (((start w i).hear signals).advance T).stats.started =
      (w.node i).stats.started + (T / (w.node i).settings.intervalMs + 1) := by
  have pulse : (((start w i).hear signals).advance T).pulse = (start w i).pulse.advance T := by
    rw [pulse_advance, pulse_hear, Pulse.advance_hear positive calm]
  have due : (start w i).pulse.due T = T / (w.node i).settings.intervalMs + 1 :=
    if_pos (Nat.zero_le T)
  exact (congrArg Pulse.started pulse).trans (congrArg ((w.node i).stats.started + ·) due)

theorem run_accounts (w : Network size) (i : Fin size)
    (positive : 0 < (w.node i).settings.intervalMs) :
    let s := (w.node i).stats
    (∀ marks l, (start w i).Run marks l →
      l.stats.started + s.completed + s.failed =
        s.started + l.stats.completed + l.stats.failed + l.flights.length + l.cancelled ∧
      l.stats.exchanges = s.exchanges + marks.countP Mark.isGood ∧
      l.stats.failed = s.failed + marks.countP Mark.isFailed ∧
      ∀ e, .ended (.error e) ∈ marks → e.Fits (w.node i).settings) ∧
    (∀ signals T,
      let l := ((start w i).hear signals).advance T
      (start w i).Reaches l ∧
        ((∀ x ∈ signals, x.1 ≤ T ∧ x.2 = .send false) →
          l.stats.started = s.started + (T / (w.node i).settings.intervalMs + 1))) ∧
    ∀ sends stop, ∃ l, (start w i).Reaches l ∧
      (w.run i sends stop).1 = l.network ∧ (w.run i sends stop).2.stats = l.stats := by
  intro s
  refine ⟨fun marks l run => ?_, fun signals T => ⟨?_, started_hear positive⟩, fun sends stop => ?_⟩
  · have books := Books.run (own_start w i) run
    have stats : l.stats = s.after marks := books.stats
    have cancelled := books.cancelled
    have flights := books.flights
    refine ⟨?_, by rw [stats]; rfl, by rw [stats]; rfl, books.failures⟩
    simp only [start, List.length_nil] at cancelled flights
    simp only [stats, RoundStats.after]
    omega
  · exact (reaches_hear ..).trans (reaches_advance ..)
  · exact ⟨_, reaches_hear .., run_eq positive sends stop⟩

theorem run_accounts_distant :
    let seed : Endpoint := .v4 ⟨10, 0, 0, 2⟩ 7000
    let w := distant #v[host 1 [seed], host 2 []] 1 seed
    let l := ((start w 0).hear [(15, .send false)]).advance 210
    0 < (w.node 0).settings.intervalMs ∧ l.stats.started = 3 ∧ l.stats.completed = 1 ∧
      l.stats.failed + l.flights.length + l.cancelled = 2 ∧ l.cancelled = 1 := by
  intro seed w l
  have positive : 0 < (w.node 0).settings.intervalMs := by decide
  obtain ⟨books, ticks, -⟩ := run_accounts w 0 positive
  obtain ⟨⟨marks, run⟩, regular⟩ := ticks [(15, .send false)] 210
  have started : l.stats.started = 0 + (210 / 100 + 1) := regular (by decide)
  have completed : l.stats.completed = 1 := by decide +kernel
  obtain ⟨balance, -⟩ := books marks l run
  change l.stats.started + 0 + 0 = 0 + l.stats.completed + l.stats.failed + l.flights.length +
    l.cancelled at balance
  exact ⟨positive, started, completed, by omega, by decide +kernel⟩

end Loop

end Epidemic
