import Epidemic.Proofs.Round.Policies
import Epidemic.Proofs.Scheduler.Shutdown

namespace Epidemic

open Wire (Syn SynAck Ack)

variable {size : Nat}

def RoundReport.extend (r : RoundReport) (outcomes : Outcomes) : RoundReport :=
  { r with
    exchanges := r.exchanges ++ outcomes.reports
    failures := r.failures ++ outcomes.failures }

theorem RoundReport.extend_append (r : RoundReport) (a b : Outcomes) :
    (r.extend a).extend b = r.extend (a ++ b) := by
  simp only [extend, Outcomes.reports, Outcomes.failures, List.filterMap_append,
    List.append_assoc]

def Progress.cut (limit : Nat) : Progress size → Except RoundError RoundReport
  | .waiting _ _ => .error (.timedOut limit)
  | .ended outcome => outcome

namespace Network

def roundBy (time : Nat) (w : Network size) (progress : Progress size) :
    Network size × Progress size :=
  match progress with
  | .ended outcome => (w, .ended outcome)
  | .waiting p c =>
      if p.due ≤ time then
        have := rank_continueRound_lt w p c
        roundBy time (w.continueRound p c).1 (w.continueRound p c).2
      else (w, .waiting p c)
termination_by progress.rank

def roundAt (w : Network size) (i : Fin size) (time : Nat) : Network size × Progress size :=
  (w.beginRound 0 i).1.roundBy time (w.beginRound 0 i).2

def merged (u : Network size) (i : Fin size) (t : Target) (route : Route size) :
    Network size × ExchangeReport × Option Ack :=
  let heard := (u.opened i t).serveSyn t.address route
    ((u.member i).registry.opening u.clock t)
  let learned := (heard.1.member i).learn heard.1.clock t (u.member i).registry.owned heard.2
  (heard.1.setMember i learned.1, learned.2)

inductive Underway (u : Network size) (i : Fin size) (t : Target) :
    Network size → Pending size → Prop where
  | syn {route : Route size} {due : Nat} (reached : u.route t.address = .ok route) :
      Underway u i t (u.opened i t)
        ⟨t, route, .syn (u.member i).registry.owned ((u.member i).registry.opening u.clock t), due⟩
  | ack {route route' : Route size} {due : Nat} {body : Ack}
      (reached : u.route t.address = .ok route)
      (said : (u.merged i t route).2.2 = some body)
      (reached' : (u.merged i t route).1.route t.address = .ok route') :
      Underway u i t ((u.merged i t route).1.closed t body)
        ⟨t, route', .ack (u.merged i t route).2.1 body, due⟩

inductive Stands (w : Network size) (i : Fin size) (report : RoundReport) (ts : List Target) :
    Network size → Progress size → Prop where
  | waiting {done rest : List Target} {t : Target} {v : Network size} {p : Pending size}
      (split : ts = done ++ t :: rest)
      (underway : Underway (w.visitAll i done).1 i t v p)
      (ahead : w.talk i report ts =
        (w.visitAll i done).1.talk i (report.extend (w.visitAll i done).2) (t :: rest)) :
      Stands w i report ts v (.waiting p ⟨i, report.extend (w.visitAll i done).2, rest⟩)
  | ended {v : Network size} {outcome : Except RoundError RoundReport}
      (complete : w.talk i report ts = (v, outcome)) : Stands w i report ts v (.ended outcome)

section

variable {w u v : Network size} {i : Fin size} {t : Target} {p q : Pending size}
  {c : Course size} {progress : Progress size} {time time' limit : Nat} {report : RoundReport}
  {done rest : List Target}

theorem roundBy_ended (w : Network size) (outcome : Except RoundError RoundReport) :
    w.roundBy time (.ended outcome) = (w, .ended outcome) := by
  rw [roundBy]

theorem roundBy_due (due : p.due ≤ time) (w : Network size) (c : Course size) :
    w.roundBy time (.waiting p c) =
      (w.continueRound p c).1.roundBy time (w.continueRound p c).2 := by
  rw [roundBy]
  exact if_pos due

theorem roundBy_later (later : ¬p.due ≤ time) (w : Network size) (c : Course size) :
    w.roundBy time (.waiting p c) = (w, .waiting p c) := by
  rw [roundBy]
  exact if_neg later

theorem roundBy_roundBy (h : time ≤ time') (w : Network size) (progress : Progress size) :
    (w.roundBy time progress).1.roundBy time' (w.roundBy time progress).2 =
      w.roundBy time' progress := by
  induction w, progress using roundBy.induct time with
  | case1 w outcome => rw [roundBy_ended]
  | case2 w p c due less ih => rw [roundBy_due due, ih, roundBy_due (due.trans h)]
  | case3 w p c later => rw [roundBy_later later]

theorem finish_roundBy (time : Nat) (w : Network size) (progress : Progress size) :
    finishRound none (w.roundBy time progress).1 (w.roundBy time progress).2 =
      finishRound none w progress := by
  induction w, progress using roundBy.induct time with
  | case1 w outcome => rw [roundBy_ended]
  | case2 w p c due less ih =>
      rw [roundBy_due due, ih, finishRound]
      rfl
  | case3 w p c later => rw [roundBy_later later]

theorem lt_due_roundBy (h : (w.roundBy time progress).2 = .waiting p c) : time < p.due := by
  induction w, progress using roundBy.induct time with
  | case1 w outcome =>
      rw [roundBy_ended] at h
      cases h
  | case2 w p c due less ih =>
      rw [roundBy_due due] at h
      exact ih h
  | case3 w p c later =>
      rw [roundBy_later later] at h
      cases h
      exact Nat.lt_of_not_le later

theorem finish_limit (limit : Nat) (w : Network size) (progress : Progress size) :
    finishRound (some limit) w progress =
      ((w.roundBy limit progress).1, (w.roundBy limit progress).2.cut limit) := by
  induction w, progress using roundBy.induct limit with
  | case1 w outcome =>
      rw [roundBy_ended, finishRound]
      rfl
  | case2 w p c due less ih =>
      have waits : (some limit).filter (· < p.due) = none := by simpa using due
      rw [roundBy_due due, ← ih, finishRound]
      simp only [waits]
  | case3 w p c later =>
      have cut : (some limit).filter (· < p.due) = some limit := by simpa using later
      rw [roundBy_later later, finishRound]
      simp only [cut, Progress.cut]

theorem underway_closeExchange {route : Route size} (reached : u.route t.address = .ok route)
    (closing : (u.merged i t route).1.closeExchange time t (u.merged i t route).2.1
      (u.merged i t route).2.2 = (v, .waiting p)) : Underway u i t v p := by
  cases said : (u.merged i t route).2.2 with
  | none =>
      rw [said] at closing
      cases congrArg Prod.snd closing
  | some body =>
      rw [said] at closing
      cases reached' : (u.merged i t route).1.route t.address with
      | error e =>
          simp only [closeExchange, placeAck_of_error reached'] at closing
          cases congrArg Prod.snd closing
      | ok route' =>
          simp only [closeExchange, placeAck_of_ok reached'] at closing
          split at closing
          · cases congrArg Prod.snd closing
          · cases closing
            exact .ack reached said reached'

theorem underway_openExchange (opening : u.openExchange time i t = (v, .waiting p)) :
    Underway u i t v p := by
  cases reached : u.route t.address with
  | error e =>
      simp only [openExchange, placeSyn_of_error reached] at opening
      cases congrArg Prod.snd opening
  | ok route =>
      simp only [openExchange, placeSyn_of_ok reached] at opening
      split at opening
      · exact underway_closeExchange reached opening
      · cases opening
        exact .syn reached

theorem Underway.finish (h : Underway u i t v p) :
    finishExchange v i (.waiting p) = u.trade i t := by
  cases h with
  | syn reached =>
      rw [finishExchange]
      simp only [resume]
      rw [finish_hearAnswer, trade_of_ok reached]
  | ack reached said reached' =>
      have traded : u.trade i t = (u.merged i t _).1.conclude t (u.merged i t _).2.1
        (u.merged i t _).2.2 := trade_of_ok reached i
      rw [finishExchange]
      simp only [resume]
      rw [finishExchange, traded, said, conclude_of_ok reached']

theorem Underway.resume (h : Underway u i t v p) {v' : Network size}
    (resumed : v.resume i p = (v', .waiting q)) : Underway u i t v' q := by
  cases h with
  | syn reached => exact underway_closeExchange reached resumed
  | ack reached said reached' => cases congrArg Prod.snd resumed

theorem Underway.trade_eq (h : Underway u i t v p) {v' : Network size}
    {outcome : Except TransportError ExchangeReport}
    (resumed : v.resume i p = (v', .ended outcome)) : u.trade i t = (v', outcome) := by
  rw [← h.finish, finishExchange, resumed]
  simp only
  rw [finishExchange]

theorem Underway.target_eq (h : Underway u i t v p) : p.target = t := by
  cases h <;> rfl

theorem record_eq_ok {policy : FailurePolicy} {outcome : Except TransportError ExchangeReport}
    {next : RoundReport} (h : record policy t report outcome = .ok next) :
    next = report.extend [outcome.mapError (.network t.address)] := by
  unfold record at h
  split at h
  · cases h
    simp [RoundReport.extend, Outcomes.reports, Outcomes.failures, Except.mapError, Except.toOption]
  · split at h
    · cases h
    · cases h
      simp [RoundReport.extend, Outcomes.reports, Outcomes.failures, Except.mapError,
        Except.toOption]

theorem stands_proceed {ts : List Target} {outcome : Except TransportError ExchangeReport}
    {results : RoundReport → Network size × Progress size}
    (ended : (w.visitAll i done).1.trade i t = (v, outcome))
    (ahead : w.talk i report ts =
      (w.visitAll i done).1.talk i (report.extend (w.visitAll i done).2) (t :: rest))
    (goesOn : (w.visitAll i (done ++ [t])).1 = v.countExchange i outcome →
      w.talk i report ts = (w.visitAll i (done ++ [t])).1.talk i
        (report.extend (w.visitAll i (done ++ [t])).2) rest →
      Stands w i report ts (results (report.extend (w.visitAll i (done ++ [t])).2)).1
        (results (report.extend (w.visitAll i (done ++ [t])).2)).2) :
    let after := v.countExchange i outcome
    let next : Network size × Progress size :=
      match record (after.node i).settings.policy t (report.extend (w.visitAll i done).2)
          outcome with
      | .error e => (after, .ended (.error e))
      | .ok report => results report
    Stands w i report ts next.1 next.2 := by
  intro after
  have visited := visitAll_snoc w i done t
  rw [visit_eq, ended] at visited
  rw [talk_cons, proceed, ended] at ahead
  simp only at ahead visited ⊢
  cases recorded : record (after.node i).settings.policy t
      (report.extend (w.visitAll i done).2) outcome with
  | error e =>
      rw [recorded] at ahead
      exact .ended ahead
  | ok next =>
      rw [recorded] at ahead
      obtain rfl := record_eq_ok recorded
      rw [RoundReport.extend_append] at ahead ⊢
      rw [visited] at goesOn
      exact goesOn rfl ahead

theorem stands_contactAll {ts : List Target} (split : ts = done ++ rest)
    (ahead : w.talk i report ts =
      (w.visitAll i done).1.talk i (report.extend (w.visitAll i done).2) rest) :
    let next := (w.visitAll i done).1.contactAll time i (report.extend (w.visitAll i done).2) rest
    Stands w i report ts next.1 next.2 := by
  induction rest generalizing done with
  | nil => exact .ended ahead
  | cons t rest ih =>
      have traded := finish_openExchange (w.visitAll i done).1 time i t
      simp only [contactAll]
      rcases opened : (w.visitAll i done).1.openExchange time i t with ⟨v, p | outcome⟩
      · exact .waiting split (underway_openExchange opened) ahead
      · rw [opened, finishExchange] at traded
        refine stands_proceed traded.symm ahead fun same ahead => ?_
        rw [← same]
        exact ih (by rw [split, List.append_assoc, List.singleton_append]) ahead

theorem Stands.continue {ts : List Target} (h : Stands w i report ts v (.waiting p c)) :
    Stands w i report ts (v.continueRound p c).1 (v.continueRound p c).2 := by
  cases h with
  | waiting split underway ahead =>
      obtain rfl := underway.target_eq
      simp only [continueRound]
      rcases resumed : v.resume i p with ⟨v', q | outcome⟩
      · exact .waiting split (underway.resume resumed) ahead
      · refine stands_proceed (underway.trade_eq resumed) ahead fun same ahead => ?_
        rw [← same]
        exact stands_contactAll (by rw [split, List.append_assoc, List.singleton_append]) ahead

theorem Stands.roundBy {ts : List Target} (time : Nat) (h : Stands w i report ts v progress) :
    Stands w i report ts (v.roundBy time progress).1 (v.roundBy time progress).2 := by
  induction v, progress using roundBy.induct time with
  | case1 v outcome =>
      rw [roundBy_ended]
      exact h
  | case2 v p c due less ih =>
      rw [roundBy_due due]
      exact ih h.continue
  | case3 v p c later =>
      rw [roundBy_later later]
      exact h

theorem stands_beginRound {ts : List Target} (chosen : ((w.node i).prepare w.clock).2 = .ok ts) :
    Stands (w.setNode i ((w.node i).prepare w.clock).1) i ⟨ts.map (·.address), [], []⟩ ts
      (w.beginRound time i).1 (w.beginRound time i).2 := by
  simp only [beginRound, chosen]
  exact stands_contactAll (List.nil_append ts).symm rfl

end

structure Unfolds (w : Network size) (i : Fin size)
    (course : Nat → Network size × Progress size) : Prop where
  unchosen : ∀ e, ((w.node i).prepare w.clock).2 = .error e → ∀ time,
    course time = (w.setNode i ((w.node i).prepare w.clock).1, .ended (.error e))
  stands : ∀ ts, ((w.node i).prepare w.clock).2 = .ok ts → ∀ time,
    Stands (w.setNode i ((w.node i).prepare w.clock).1) i ⟨ts.map (·.address), [], []⟩ ts
      (course time).1 (course time).2
  later : ∀ time time', time ≤ time' →
    (course time).1.roundBy time' (course time).2 = course time'
  due : ∀ time p c, (course time).2 = .waiting p c → time < p.due
  finish : ∀ time, finishRound none (course time).1 (course time).2 = w.runRound i

theorem unfolds_roundAt (w : Network size) (i : Fin size) : w.Unfolds i (w.roundAt i) where
  unchosen e none time := by simp only [roundAt, beginRound, none, roundBy_ended]
  stands ts chosen time := (stands_beginRound chosen).roundBy time
  later time time' h := roundBy_roundBy h ..
  due time p c waits := lt_due_roundBy waits
  finish time := finish_roundBy ..

end Network

namespace Loop

open Network

variable {l : Loop size} {time limit : Nat}

theorem settle_of_alone (alone : l.flights = []) : l.settle time = l :=
  settle_of_none (by rw [alone]; rfl)

theorem settle_count (alone : l.flights = []) (outcome : Except RoundError RoundReport) :
    (l.count outcome).settle time = l.count outcome :=
  settle_of_alone ((flights_count ..).trans alone)

theorem earliest?_follow (alone : l.flights = []) (limit : Nat) (p : Pending size)
    (c : Course size) :
    Flight.earliest? (l.follow limit (.waiting p c)).flights = some (⟨p, c, limit⟩, []) := by
  simp only [follow, alone]
  rfl

def afterwards (time limit : Nat) (w : Network size) (progress : Progress size) :
    Network size × Progress size :=
  let come := w.roundBy (min time limit) progress
  (come.1, if time < limit then come.2 else .ended (come.2.cut limit))

theorem settle_follow (alone : l.flights = []) (time : Nat) (w : Network size)
    (progress : Progress size) (set : (w.node l.node).settings.roundTimeoutMs = limit) :
    (({ l with network := w } : Loop size).follow limit progress).settle time =
      ({ l with network := (afterwards time limit w progress).1 } : Loop size).follow limit
        (afterwards time limit w progress).2 := by
  induction w, progress using roundBy.induct (min time limit) with
  | case1 w outcome =>
      have cut : (afterwards time limit w (.ended outcome)) = (w, .ended outcome) := by
        simp only [afterwards, roundBy_ended, Progress.cut, ite_self]
      rw [cut]
      exact settle_count (l := { l with network := w }) alone outcome
  | case2 w p c due less ih =>
      have kept : ((w.continueRound p c).1.node l.node).settings.roundTimeoutMs = limit :=
        (congrArg _ ((part_continueRound w p c).gains.settings l.node)).trans set
      have first := earliest?_follow (l := { l with network := w }) alone limit p c
      have inTime : ¬(⟨p, c, limit⟩ : Flight size).expires := by
        simp only [Flight.expires, decide_eq_true_eq]
        omega
      have same : afterwards time limit w (.waiting p c) =
          afterwards time limit (w.continueRound p c).1 (w.continueRound p c).2 := by
        simp only [afterwards, roundBy_due due]
      rw [settle_of_due first (by simp only [Flight.moment]; omega), same, ← ih kept]
      simp only [land, if_neg inTime]
      rw [← alone]
      rfl
  | case3 w p c later =>
      have first := earliest?_follow (l := { l with network := w }) alone limit p c
      by_cases early : time < limit
      · have same : afterwards time limit w (.waiting p c) = (w, .waiting p c) := by
          simp only [afterwards, roundBy_later later, if_pos early]
        rw [settle_of_later first (by simp only [Flight.moment]; omega), same]
      · have cut : afterwards time limit w (.waiting p c) =
            (w, .ended (.error (.timedOut limit))) := by
          simp only [afterwards, roundBy_later later, if_neg early, Progress.cut]
        have late : (⟨p, c, limit⟩ : Flight size).expires := by
          simp only [Flight.expires, decide_eq_true_eq]
          omega
        rw [settle_of_due first (by simp only [Flight.moment]; omega), cut]
        simp only [land, if_pos late]
        rw [← alone]
        refine (settle_count (l := { l with network := w }) alone _).trans ?_
        exact congrArg (fun ms => count _ (.error (.timedOut ms))) set

end Loop

namespace Network

theorem runRoundWithin_cut (w : Network size) (i : Fin size) :
    let limit := (w.node i).settings.roundTimeoutMs
    let loop := (Loop.start (w.beginRound 0 i).1 i).follow limit (w.beginRound 0 i).2
    w.Unfolds i (w.roundAt i) ∧
      (∀ time outcome, time ≤ limit → (w.roundAt i time).2 = .ended outcome →
        w.runRound i = ((w.roundAt i time).1, outcome) ∧ w.runRoundWithin i = w.runRound i) ∧
      (∀ p c, (w.roundAt i limit).2 = .waiting p c →
        w.runRoundWithin i = ((w.roundAt i limit).1, .error (.timedOut limit))) ∧
      (∀ time, time < limit → loop.settle time =
        (Loop.start (w.roundAt i time).1 i).follow limit (w.roundAt i time).2) ∧
      ∀ time, limit ≤ time → loop.settle time =
        (Loop.start (w.runRoundWithin i).1 i).count (w.runRoundWithin i).2 := by
  intro limit loop
  have unfolds := w.unfolds_roundAt i
  have within : w.runRoundWithin i =
      ((w.roundAt i limit).1, (w.roundAt i limit).2.cut limit) := finish_limit ..
  have set : ((w.beginRound 0 i).1.node i).settings.roundTimeoutMs = limit :=
    congrArg _ ((part_beginRound w 0 i).gains.settings i)
  have settled (time : Nat) := Loop.settle_follow (l := Loop.start (w.beginRound 0 i).1 i)
    rfl time (w.beginRound 0 i).1 (w.beginRound 0 i).2 set
  refine ⟨unfolds, fun time outcome early ended => ?_, fun p c waits => ?_, fun time early => ?_,
    fun time late => ?_⟩
  · have stays := unfolds.later time limit early
    have ran := unfolds.finish time
    rw [ended, roundBy_ended] at stays
    rw [ended, finishRound] at ran
    exact ⟨ran.symm, by rw [within, ← stays, ← ran]; rfl⟩
  · rw [within, waits]
    rfl
  · refine (settled time).trans ?_
    simp only [Loop.afterwards, Nat.min_eq_left early.le, if_pos early]
    rfl
  · refine (settled time).trans ?_
    simp only [Loop.afterwards, Nat.min_eq_right late, if_neg (Nat.not_lt.mpr late), within]
    rfl

example :
    let seed : Endpoint := .v4 ⟨10, 0, 0, 2⟩ 7000
    let caller (ms : Nat) := { Loop.host 1 [seed] with settings := { roundTimeoutMs := ms } }
    let round (ms : Nat) := (Loop.distant #v[caller ms, Loop.host 2 []] 1 seed).runRoundWithin 0
    let keys (ms : Nat) := ((round ms).1.member 0).registry.keys.map Key.bytes
    (round 30).2 = .error (.timedOut 30) ∧ keys 30 = [[1]] ∧ keys 31 = [[1], [2]] := by
  decide +kernel

end Network

end Epidemic
