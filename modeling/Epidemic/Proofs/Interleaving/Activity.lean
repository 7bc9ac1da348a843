import Epidemic.Exchange
import Epidemic.Refresh

namespace Epidemic

open Wire (Record Syn SynAck Ack)

inductive Job where
  | exchange (target : Target)
  | serveSyn (body : Syn)
  | serveAck (body : Ack)
  | reconcile (candidates : List Peer)
  | refreshKnown (candidates : List Peer)
  | insert (p : Peer)
  | refresh (f : Refresher)

inductive Sequel where
  | report
  | reply (body : Syn) (sorted : Sorted)
  | close (target : Target) (owned : Peer) (answer : SynAck)

inductive Result where
  | reconciled (report : Reconciled)
  | answered (answer : SynAck)
  | exchanged (report : ExchangeReport) (ack : Option Ack)
  | inserted (outcome : Except Registry.Fault Unit)
  | refreshed (outcome : Except ProbeError Peer)

inductive Activity where
  | listing (target : Target)
  | naming (target : Target) (known : List Peer)
  | awaiting (target : Target) (owned : Peer) (body : Syn)
  | sorting (body : Syn)
  | merging (allowInsert : Bool) (ahead : List Peer) (report : Reconciled) (next : Sequel)
  | notifying (ahead : List Key) (report : Reconciled) (next : Sequel)
  | following (report : Reconciled) (next : Sequel)
  | inserting (p : Peer)
  | refreshing (f : Refresher)
  | ended (result : Option Result)

def Job.activity : Job → Activity
  | .exchange target => .listing target
  | .serveSyn body => .sorting body
  | .serveAck body => .merging true (Record.toPeers body.details) {} .report
  | .reconcile candidates => .merging true candidates {} .report
  | .refreshKnown candidates => .merging false candidates {} .report
  | .insert p => .inserting p
  | .refresh f => .refreshing f

inductive Occurrence where
  | admitted (key : Key)
  | noticed (key : Key) (taken : Bool)
  | settled (report : Reconciled)
  deriving DecidableEq, Repr

def Sequel.follow (now : Instant) (r : Registry) (report : Reconciled) : Sequel → Result
  | .report => .reconciled report
  | .reply body sorted => .answered (sorted.reply now r.owned body)
  | .close target owned answer =>
      let (report, ack) := r.conclude now target owned answer report
      .exchanged report ack

namespace Activity

def advance (now : Instant) (m : Member) : Activity → Member × Activity × List Occurrence
  | .listing target => (m, .naming target m.registry.list, [])
  | .naming target known =>
      (m, .awaiting target m.registry.owned (target.opening now m.registry.owned known), [])
  | .awaiting target owned body => (m, .awaiting target owned body, [])
  | .sorting body =>
      let sorted := m.registry.sort body
      (m, .merging false sorted.refresh {} (.reply body sorted), [])
  | .merging allowInsert (c :: ahead) report next =>
      let (registry, outcome) := m.registry.offer now allowInsert c
      (⟨registry, m.notifier⟩, .merging allowInsert ahead (report.record c.key outcome) next,
        if outcome = .inserted then [.admitted c.key] else [])
  | .merging _ [] report next => (m, .notifying report.inserted report next, [])
  | .notifying (k :: ahead) report next =>
      match m.notifier.notify k with
      | (notifier, true) =>
          (⟨m.registry, notifier⟩,
            .notifying ahead { report with notified := report.notified + 1 } next,
            [.noticed k true])
      | (notifier, false) =>
          (⟨m.registry, notifier⟩, .following report next, [.noticed k false, .settled report])
  | .notifying [] report next => (m, .following report next, [.settled report])
  | .following report next => (m, .ended (some (next.follow now m.registry report)), [])
  | .inserting p =>
      match m.registry.insert p with
      | .ok registry => (⟨registry, m.notifier⟩, .ended (some (.inserted (.ok ()))), [.admitted p.key])
      | .error e => (m, .ended (some (.inserted (.error e))), [])
  | .refreshing f =>
      match f.refresh now m.registry with
      | .ok (p, registry) => (⟨registry, m.notifier⟩, .ended (some (.refreshed (.ok p))), [])
      | .error e => (m, .ended (some (.refreshed (.error e))), [])
  | .ended result => (m, .ended result, [])

def hear (answer : SynAck) : Activity → Activity
  | .awaiting target owned _ =>
      .merging true (Record.toPeers answer.fresh) {} (.close target owned answer)
  | a => a

end Activity

inductive Event where
  | start (job : Job)
  | advance (i : Nat) (now : Instant)
  | hear (i : Nat) (answer : SynAck)
  | cancel (i : Nat)

structure Pool where
  member : Member
  activities : List Activity
  history : List Occurrence

namespace Pool

def of (m : Member) : Pool :=
  ⟨m, [], []⟩

def step (p : Pool) : Event → Pool
  | .start job => { p with activities := p.activities ++ [job.activity] }
  | .advance i now =>
      match p.activities[i]? with
      | none => p
      | some a =>
          let (m, a, seen) := a.advance now p.member
          ⟨m, p.activities.set i a, p.history ++ seen⟩
  | .hear i answer =>
      match p.activities[i]? with
      | none => p
      | some a => { p with activities := p.activities.set i (a.hear answer) }
  | .cancel i => { p with activities := p.activities.set i (.ended none) }

def run (p : Pool) (events : List Event) : Pool :=
  events.foldl step p

theorem run_append (p : Pool) (es fs : List Event) : p.run (es ++ fs) = (p.run es).run fs :=
  List.foldl_append ..

theorem step_advance {p : Pool} {i : Nat} {a : Activity} (here : p.activities[i]? = some a)
    (now : Instant) :
    p.step (.advance i now) =
      ⟨(a.advance now p.member).1, p.activities.set i (a.advance now p.member).2.1,
        p.history ++ (a.advance now p.member).2.2⟩ := by
  simp only [step, here]

inductive Becomes (p : Pool) (j : Nat) : Event → Activity → Prop where
  | kept {e : Event} {a : Activity} (there : p.activities[j]? = some a) : Becomes p j e a
  | begun {job : Job} (next : j = p.activities.length) : Becomes p j (.start job) job.activity
  | advanced {now : Instant} {a : Activity} (there : p.activities[j]? = some a) :
      Becomes p j (.advance j now) (a.advance now p.member).2.1
  | heard {answer : SynAck} {a : Activity} (there : p.activities[j]? = some a) :
      Becomes p j (.hear j answer) (a.hear answer)
  | ended : Becomes p j (.cancel j) (.ended none)

theorem becomes {p : Pool} {e : Event} {j : Nat} {b : Activity}
    (hb : (p.step e).activities[j]? = some b) : p.Becomes j e b := by
  have replaced {i : Nat} {a : Activity} (h : (p.activities.set i a)[j]? = some b) :
      p.activities[j]? = some b ∨ i = j ∧ b = a := by
    rw [List.getElem?_set] at h
    split at h
    · split at h
      · exact .inr ⟨‹_›, (Option.some.inj h).symm⟩
      · cases h
    · exact .inl h
  cases e with
  | start job =>
      simp only [step, List.getElem?_append] at hb
      split at hb
      · exact .kept hb
      · rw [List.getElem?_singleton] at hb
        split at hb
        · cases hb
          exact .begun (by omega)
        · cases hb
  | advance i now =>
      cases here : p.activities[i]? with
      | none =>
          simp only [step, here] at hb
          exact .kept hb
      | some a =>
          rw [step_advance here] at hb
          rcases replaced hb with old | ⟨rfl, rfl⟩
          · exact .kept old
          · exact .advanced here
  | hear i answer =>
      cases here : p.activities[i]? with
      | none =>
          simp only [step, here] at hb
          exact .kept hb
      | some a =>
          simp only [step, here] at hb
          rcases replaced hb with old | ⟨rfl, rfl⟩
          · exact .kept old
          · exact .heard here
  | cancel i =>
      rcases replaced hb with old | ⟨rfl, rfl⟩
      · exact .kept old
      · exact .ended

inductive Arises (p : Pool) : Event → Activity → Prop where
  | kept {e : Event} {a : Activity} (there : a ∈ p.activities) : Arises p e a
  | begun {job : Job} : Arises p (.start job) job.activity
  | advanced {i : Nat} {now : Instant} {a : Activity} (there : a ∈ p.activities) :
      Arises p (.advance i now) (a.advance now p.member).2.1
  | heard {i : Nat} {answer : SynAck} {a : Activity} (there : a ∈ p.activities) :
      Arises p (.hear i answer) (a.hear answer)
  | ended {i : Nat} : Arises p (.cancel i) (.ended none)

theorem arises {p : Pool} {e : Event} {b : Activity} (hb : b ∈ (p.step e).activities) :
    p.Arises e b := by
  obtain ⟨j, hb⟩ := List.mem_iff_getElem?.mp hb
  cases becomes hb with
  | kept there => exact .kept (List.mem_of_getElem? there)
  | begun next => exact .begun
  | advanced there => exact .advanced (List.mem_of_getElem? there)
  | heard there => exact .heard (List.mem_of_getElem? there)
  | ended => exact .ended

theorem member_step_cases (p : Pool) (e : Event) :
    (p.step e).member = p.member ∨
      ∃ i now a, e = .advance i now ∧ a ∈ p.activities ∧
        (p.step e).member = (a.advance now p.member).1 := by
  cases e with
  | start job => exact .inl rfl
  | advance i now =>
      cases here : p.activities[i]? with
      | none => exact .inl (by simp only [step, here])
      | some a =>
          refine .inr ⟨i, now, a, rfl, List.mem_of_getElem? here, ?_⟩
          rw [step_advance here]
  | hear i answer =>
      simp only [step]
      split <;> exact .inl rfl
  | cancel i => exact .inl rfl

theorem run_of_step {I : Pool → Prop} (step : ∀ p e, I p → I (p.step e)) {p : Pool} (start : I p)
    (events : List Event) : I (p.run events) := by
  induction events generalizing p with
  | nil => exact start
  | cons e events ih => exact ih (step p e start)

def Leads (now : Instant) (m : Member) (a : Activity) (m' : Member) (a' : Activity) : Prop :=
  ∀ history, ∃ n history', (⟨m, [a], history⟩ : Pool).run (List.replicate n (.advance 0 now)) =
    ⟨m', [a'], history'⟩

namespace Leads

variable {now : Instant} {m m' m'' : Member} {a a' a'' : Activity}

theorem refl : Leads now m a m a :=
  fun history => ⟨0, history, rfl⟩

theorem head (h : Leads now (a.advance now m).1 (a.advance now m).2.1 m' a') :
    Leads now m a m' a' := by
  intro history
  obtain ⟨n, after, e⟩ := h (history ++ (a.advance now m).2.2)
  exact ⟨n + 1, after, e⟩

theorem trans (h : Leads now m a m' a') (h' : Leads now m' a' m'' a'') : Leads now m a m'' a'' := by
  intro history
  obtain ⟨n, between, e⟩ := h history
  obtain ⟨n', after, e'⟩ := h' between
  refine ⟨n + n', after, ?_⟩
  rw [← List.replicate_append_replicate, run_append, e, e']

end Leads

end Pool

end Epidemic
