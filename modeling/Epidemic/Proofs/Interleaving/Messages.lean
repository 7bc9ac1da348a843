import Epidemic.Proofs.Interleaving.Step
import Epidemic.Proofs.Wire.Image
import Mathlib.Data.List.Induction

namespace Epidemic

open Registry (Offered)
open Wire (Record Syn SynAck Ack)

inductive Message where
  | syn (body : Syn)
  | answer (body : SynAck)
  | ack (body : Ack)
  deriving DecidableEq, Repr

namespace Message

def records : Message → List Record
  | .syn body => body.known
  | .answer body => body.fresh
  | .ack body => body.details

def admits : Message → Bool
  | .syn _ => false
  | .answer _ => true
  | .ack _ => true

def Carries (msg : Message) (c : Peer) : Prop :=
  ∃ record ∈ msg.records, record.toPeer = .ok c

theorem carries_iff {msg : Message} {c : Peer} :
    msg.Carries c ↔ c ∈ Record.toPeers msg.records := by
  simp only [Carries, Record.toPeers, List.mem_filterMap]
  refine exists_congr fun record => and_congr_right fun _ => ?_
  cases record.toPeer <;> simp [Except.toOption]

theorem Carries.toRemote {msg : Message} {c : Peer} (h : msg.Carries c) : c.toRemote = c := by
  obtain ⟨record, -, read⟩ := h
  exact Peer.toRemote_eq_self (Wire.accepted_of_toPeer read).isSelf

structure Affects (msg : Message) (now : Instant) (m after : Member) : Prop where
  owned : after.registry.owned = m.registry.owned
  keys : after.registry.keys = m.registry.keys ∨
    msg.admits = true ∧ ∃ c, msg.Carries c ∧ c.key ∉ m.registry.keys ∧
      after.registry.list = m.registry.list ++ [c]
  stored : ∀ k p, m.registry.get? k = some p →
    after.registry.get? k = some p ∨
      k ≠ m.registry.selfKey ∧ ∃ c, msg.Carries c ∧ c.key = k ∧ c.supersedes p now = true ∧
        after.registry.get? k = some c
  notifier : msg.admits = false → after.notifier = m.notifier

variable {msg : Message} {now : Instant} {r after : Registry} {n : Notifier}

theorem affects_of_offered {c : Peer} {o : Registry.Outcome} (carried : msg.Carries c)
    (h : Offered r now msg.admits c (after, o)) : msg.Affects now ⟨r, n⟩ ⟨after, n⟩ := by
  have keys := h.keys_eq
  refine ⟨h.owned_eq, ?_, fun k p hp => ?_, fun _ => rfl⟩
  · cases h with
    | inserted _ other absent allowed owned seeds list =>
        rw [carried.toRemote] at list
        exact .inr ⟨allowed, c, carried, Registry.get?_eq_none_iff.mp absent, list⟩
    | _ => exact .inl keys
  · have found := h.get?_eq k
    rw [carried.toRemote] at found
    split at found
    · rename_i changed
      obtain ⟨rfl, how⟩ := changed
      cases h with
      | inserted _ other absent allowed owned seeds list => cases absent.symm.trans hp
      | replaced stored _ other known fresh owned seeds list =>
          obtain rfl : stored = p := Option.some.inj (known.symm.trans hp)
          exact .inr ⟨other, c, carried, rfl, fresh, found⟩
      | _ => simp at how
    · exact .inl (found.trans hp)

namespace Affects

variable {m after : Member} {q : Peer} {k : Key}

theorem old_or_carried (h : msg.Affects now m after) (hq : q ∈ after.registry.list) :
    q ∈ m.registry.list ∨ msg.Carries q := by
  rcases h.keys with keys | ⟨-, c, carried, -, list⟩
  · have known : q.key ∈ m.registry.keys := keys ▸ Registry.mem_keys_iff.mpr ⟨q, hq, rfl⟩
    obtain ⟨p, hp, key⟩ := Registry.mem_keys_iff.mp known
    have found : after.registry.get? q.key = some q := Registry.get?_eq_some_iff.mpr ⟨hq, rfl⟩
    have stored := h.stored q.key p (Registry.get?_eq_some_iff.mpr ⟨hp, key⟩)
    rcases stored with same | ⟨-, c, carried, -, -, new⟩
    · exact .inl (Option.some.inj (same.symm.trans found) ▸ hp)
    · exact .inr (Option.some.inj (new.symm.trans found) ▸ carried)
  · rcases List.mem_append.mp (list ▸ hq) with old | new
    · exact .inl old
    · exact .inr (List.mem_singleton.mp new ▸ carried)

theorem keys_prefix (h : msg.Affects now m after) : m.registry.keys <+: after.registry.keys := by
  rcases h.keys with keys | ⟨-, c, -, -, list⟩
  · exact ⟨[], by rw [List.append_nil, keys]⟩
  · exact ⟨[c.key], by simp [Roster.keys, list]⟩

theorem old_or_admitted (h : msg.Affects now m after) (hk : k ∈ after.registry.keys) :
    k ∈ m.registry.keys ∨ msg.admits = true ∧ ∃ c, msg.Carries c ∧ c.key = k := by
  rcases h.keys with keys | ⟨admits, c, carried, -, list⟩
  · exact .inl (keys ▸ hk)
  · simp only [Roster.keys, list, List.map_append, List.mem_append, List.map_cons, List.map_nil,
      List.mem_singleton] at hk
    exact hk.imp id fun new => ⟨admits, c, carried, new.symm⟩

end Affects

end Message

def Event.job? : Event → Option Job
  | .start job => some job
  | _ => none

def jobs (events : List Event) : List Job :=
  events.filterMap Event.job?

def Job.isRemote : Job → Bool
  | .exchange _ => true
  | .serveSyn _ => true
  | .serveAck _ => true
  | _ => false

def RemoteAt (events : List Event) (i : Nat) : Prop :=
  ∀ job, (jobs events)[i]? = some job → job.isRemote = true

inductive Taken (m : Member) (events : List Event) (i : Nat) : Message → Prop where
  | syn {body : Syn} (begun : (jobs events)[i]? = some (.serveSyn body)) :
      Taken m events i (.syn body)
  | ack {body : Ack} (begun : (jobs events)[i]? = some (.serveAck body)) :
      Taken m events i (.ack body)
  | answer {body : SynAck} {before : List Event} {target : Target} {owned : Peer} {opening : Syn}
      (begun : (jobs events)[i]? = some (.exchange target))
      (heard : before ++ [.hear i body] <+: events)
      (waiting : ((Pool.of m).run before).activities[i]? = some (.awaiting target owned opening)) :
      Taken m events i (.answer body)

theorem jobs_append (es fs : List Event) : jobs (es ++ fs) = jobs es ++ jobs fs :=
  List.filterMap_append

theorem getElem?_jobs_append {es : List Event} (fs : List Event) {i : Nat} {job : Job}
    (begun : (jobs es)[i]? = some job) : (jobs (es ++ fs))[i]? = some job := by
  rw [jobs_append, List.getElem?_append_left (List.getElem?_eq_some_iff.mp begun).1, begun]

theorem Taken.mono {m : Member} {es fs : List Event} {i : Nat} {msg : Message}
    (h : Taken m es i msg) : Taken m (es ++ fs) i msg := by
  cases h with
  | syn begun => exact .syn (getElem?_jobs_append fs begun)
  | ack begun => exact .ack (getElem?_jobs_append fs begun)
  | answer begun heard waiting =>
      exact .answer (getElem?_jobs_append fs begun) (heard.trans (List.prefix_append es fs)) waiting

def Activity.Serves (begun : Job → Prop) (taken : Message → Prop) : Activity → Prop
  | .listing target => begun (.exchange target)
  | .naming target _ => begun (.exchange target)
  | .awaiting target _ _ => begun (.exchange target)
  | .sorting body => taken (.syn body)
  | .merging allowInsert ahead report _ =>
      ∃ msg, taken msg ∧ msg.admits = allowInsert ∧ (∀ c ∈ ahead, msg.Carries c) ∧
        (allowInsert = false → report.inserted = [])
  | .notifying ahead _ _ => ∃ msg, taken msg ∧ (msg.admits = false → ahead = [])
  | .inserting _ => False
  | .refreshing _ => False
  | _ => True

namespace Activity.Serves

variable {begun begun' : Job → Prop} {taken taken' : Message → Prop} {a : Activity}

theorem mono (h : a.Serves begun taken) (same : ∀ job, begun job → begun' job)
    (more : ∀ msg, taken msg → taken' msg) : a.Serves begun' taken' := by
  cases a with
  | listing target => exact same _ h
  | naming target known => exact same _ h
  | awaiting target owned body => exact same _ h
  | sorting body => exact more _ h
  | merging allowInsert ahead report next =>
      obtain ⟨msg, known, rest⟩ := h
      exact ⟨msg, more msg known, rest⟩
  | notifying ahead report next =>
      obtain ⟨msg, known, rest⟩ := h
      exact ⟨msg, more msg known, rest⟩
  | _ => exact h

theorem hear {answer : SynAck} (h : a.Serves begun taken)
    (known : ∀ target owned body, a = .awaiting target owned body → begun (.exchange target) →
      taken (.answer answer)) : (a.hear answer).Serves begun taken := by
  cases a with
  | awaiting target owned body =>
      exact ⟨.answer answer, known target owned body rfl h, rfl,
        fun c hc => Message.carries_iff.mpr hc, fun _ => rfl⟩
  | _ => exact h

theorem advance (h : a.Serves begun taken) (now : Instant) (m : Member) :
    (a.advance now m).2.1.Serves begun taken := by
  cases a with
  | listing target => exact h
  | naming target known => exact h
  | awaiting target owned body => exact h
  | sorting body =>
      exact ⟨.syn body, h, rfl, fun c hc => Message.carries_iff.mpr (List.mem_filter.mp hc).1,
        fun _ => rfl⟩
  | merging allowInsert ahead report next =>
      obtain ⟨msg, known, rfl, carried, quiet⟩ := h
      cases ahead with
      | nil => exact ⟨msg, known, quiet⟩
      | cons c ahead =>
          refine ⟨msg, known, rfl, fun d hd => carried d (List.mem_cons_of_mem _ hd),
            fun closed => ?_⟩
          have old : (m.registry.offer now msg.admits c).2 ≠ .inserted := by
            intro e
            have allowed := ((Registry.offered m.registry now msg.admits c).inserted_iff.mp e).1
            exact absurd (allowed.symm.trans closed) (by simp)
          refine (Reconciled.inserted_record ..).trans ?_
          rw [quiet closed, List.nil_append]
          exact if_neg old
  | notifying ahead report next =>
      obtain ⟨msg, known, quiet⟩ := h
      cases ahead with
      | nil => trivial
      | cons k ahead =>
          simp only [Activity.advance]
          split
          · exact ⟨msg, known, fun closed => absurd (quiet closed) (by simp)⟩
          · trivial
  | inserting p => exact h.elim
  | refreshing f => exact h.elim
  | _ => trivial

theorem affects (h : a.Serves begun taken) (now : Instant) (m : Member) :
    (a.advance now m).1 = m ∨ ∃ msg, taken msg ∧ msg.Affects now m (a.advance now m).1 := by
  cases a with
  | merging allowInsert ahead report next =>
      obtain ⟨msg, known, rfl, carried, -⟩ := h
      cases ahead with
      | nil => exact .inl rfl
      | cons c ahead =>
          exact .inr ⟨msg, known, Message.affects_of_offered (carried c (List.mem_cons_self ..))
            (Registry.offered ..)⟩
  | notifying ahead report next =>
      obtain ⟨msg, known, quiet⟩ := h
      cases ahead with
      | nil => exact .inl rfl
      | cons k ahead =>
          right
          simp only [Activity.advance]
          rcases m.notifier.notify k with ⟨notifier, _ | _⟩
          all_goals
            exact ⟨msg, known, rfl, .inl rfl, fun _ _ hp => .inl hp,
              fun closed => absurd (quiet closed) (by simp)⟩
  | inserting p => exact h.elim
  | refreshing f => exact h.elim
  | _ => exact .inl rfl

end Activity.Serves

theorem Job.serves_activity {m : Member} {events : List Event} {i : Nat} {job : Job}
    (remote : job.isRemote = true) (begun : (jobs events)[i]? = some job) :
    job.activity.Serves (fun job => (jobs events)[i]? = some job) (Taken m events i) := by
  cases job with
  | exchange target => exact begun
  | serveSyn body => exact .syn begun
  | serveAck body =>
      exact ⟨.ack body, .ack begun, rfl, fun c hc => Message.carries_iff.mpr hc, fun _ => rfl⟩
  | _ => simp [isRemote] at remote

namespace Pool

theorem run_concat (p : Pool) (events : List Event) (e : Event) :
    p.run (events ++ [e]) = (p.run events).step e :=
  run_append p events [e]

theorem of_getElem?_set {as : List Activity} {i j : Nat} {a b : Activity}
    (h : (as.set j b)[i]? = some a) : i = j ∧ a = b ∨ as[i]? = some a := by
  rw [List.getElem?_set] at h
  split at h
  · rename_i same
    split at h
    · exact .inl ⟨same.symm, (Option.some.inj h).symm⟩
    · cases h
  · exact .inr h

theorem length_activities (m : Member) (events : List Event) :
    ((of m).run events).activities.length = (jobs events).length := by
  induction events using List.reverseRecOn with
  | nil => rfl
  | append_singleton events e ih =>
      rw [run_concat, jobs_append, List.length_append, ← ih]
      cases e with
      | start job => simp [step, jobs, Event.job?]
      | advance i now =>
          simp only [step]
          split <;> simp [jobs, Event.job?]
      | hear i answer =>
          simp only [step]
          split <;> simp [jobs, Event.job?]
      | cancel i => simp [step, jobs, Event.job?]

def Serving (m : Member) (events : List Event) (as : List Activity) : Prop :=
  ∀ (i : Nat) (a : Activity), as[i]? = some a → RemoteAt events i →
    a.Serves (fun job => (jobs events)[i]? = some job) (Taken m events i)

namespace Serving

variable {m : Member} {events : List Event} {as : List Activity}

theorem keep (h : Serving m events as) {e : Event} (old : e.job? = none) :
    Serving m (events ++ [e]) as := by
  intro i a here remote
  have same : jobs (events ++ [e]) = jobs events := by simp [jobs, old]
  rw [RemoteAt, same] at remote
  exact (h i a here remote).mono (fun _ => getElem?_jobs_append [e]) fun _ => Taken.mono

theorem set (h : Serving m events as) {j : Nat} {b : Activity}
    (served : RemoteAt events j →
      b.Serves (fun job => (jobs events)[j]? = some job) (Taken m events j)) :
    Serving m events (as.set j b) := by
  intro i a here remote
  rcases of_getElem?_set here with ⟨rfl, rfl⟩ | old
  · exact served remote
  · exact h i a old remote

theorem start (h : Serving m events as) (aligned : as.length = (jobs events).length) (job : Job) :
    Serving m (events ++ [.start job]) (as ++ [job.activity]) := by
  intro i a here remote
  have begun : jobs (events ++ [.start job]) = jobs events ++ [job] := by simp [jobs, Event.job?]
  rcases Nat.lt_or_ge i as.length with old | new
  · rw [List.getElem?_append_left old] at here
    rw [RemoteAt, begun, List.getElem?_append_left (aligned ▸ old)] at remote
    exact (h i a here remote).mono (fun _ => getElem?_jobs_append _) fun _ => Taken.mono
  · rw [List.getElem?_append_right new, List.getElem?_singleton] at here
    split at here
    · rename_i last
      obtain rfl := Option.some.inj here
      obtain rfl : i = (jobs events).length := by omega
      have latest : (jobs (events ++ [.start job]))[(jobs events).length]? = some job := by
        simp [begun]
      exact Job.serves_activity (remote job latest) latest
    · cases here

end Serving

theorem serving_run (m : Member) (events : List Event) :
    Serving m events ((of m).run events).activities := by
  induction events using List.reverseRecOn with
  | nil =>
      intro i a here
      simp [run, of] at here
  | append_singleton events e ih =>
      rw [run_concat]
      cases e with
      | start job => exact ih.start (length_activities m events) job
      | advance j now =>
          have kept := ih.keep (e := .advance j now) rfl
          simp only [step]
          split
          · exact kept
          · rename_i b here
            exact kept.set fun remote => (kept j b here remote).advance now _
      | hear j answer =>
          have kept := ih.keep (e := .hear j answer) rfl
          simp only [step]
          split
          · exact kept
          · rename_i b here
            refine kept.set fun remote => (kept j b here remote).hear ?_
            rintro target owned body rfl begun
            exact .answer begun (List.prefix_refl _) here
      | cancel j => exact (ih.keep (e := .cancel j) rfl).set fun _ => trivial

theorem step_remote (m : Member) {events : List Event} {i : Nat} (remote : RemoteAt events i)
    (now : Instant) :
    let p := (of m).run events
    let after := (p.step (.advance i now)).member
    after = p.member ∨ ∃ msg, Taken m events i msg ∧ msg.Affects now p.member after := by
  intro p after
  cases here : p.activities[i]? with
  | none => exact .inl (by simp only [after, step, here])
  | some a =>
      have affects := (serving_run m events i a here remote).affects now p.member
      simpa only [after, step_advance here] using affects

theorem member_step (p : Pool) {e : Event} (idle : ∀ i now, e ≠ .advance i now) :
    (p.step e).member = p.member :=
  (p.member_step_cases e).resolve_right fun ⟨i, now, _, here, _⟩ => idle i now here

structure Guarded (m : Member) (events : List Event) (after : Member) : Prop where
  owned : after.registry.owned = m.registry.owned
  keys : m.registry.keys <+: after.registry.keys
  admitted : ∀ k ∈ after.registry.keys, k ∈ m.registry.keys ∨
    ∃ i msg c, Taken m events i msg ∧ msg.admits = true ∧ msg.Carries c ∧ c.key = k
  stored : ∀ q ∈ after.registry.list, q ∈ m.registry.list ∨
    ∃ i msg, Taken m events i msg ∧ msg.Carries q

namespace Guarded

variable {m after : Member} {events : List Event}

theorem append (h : Guarded m events after) (more : List Event) :
    Guarded m (events ++ more) after where
  owned := h.owned
  keys := h.keys
  admitted k hk := (h.admitted k hk).imp id fun ⟨i, msg, c, taken, rest⟩ =>
    ⟨i, msg, c, taken.mono, rest⟩
  stored q hq := (h.stored q hq).imp id fun ⟨i, msg, taken, carried⟩ =>
    ⟨i, msg, taken.mono, carried⟩

theorem affected {later : Member} {i : Nat} {msg : Message} {now : Instant}
    (h : Guarded m events after) (taken : Taken m events i msg)
    (how : msg.Affects now after later) : Guarded m events later where
  owned := how.owned.trans h.owned
  keys := h.keys.trans how.keys_prefix
  admitted k hk := by
    rcases how.old_or_admitted hk with old | ⟨admits, c, carried, key⟩
    · exact h.admitted k old
    · exact .inr ⟨i, msg, c, taken, admits, carried, key⟩
  stored q hq := by
    rcases how.old_or_carried hq with old | carried
    · exact h.stored q old
    · exact .inr ⟨i, msg, taken, carried⟩

end Guarded

theorem guarded_run (m : Member) {events : List Event}
    (remote : ∀ job ∈ jobs events, job.isRemote = true) :
    Guarded m events ((of m).run events).member := by
  induction events using List.reverseRecOn with
  | nil => exact ⟨rfl, List.prefix_refl _, fun _ hk => .inl hk, fun _ hq => .inl hq⟩
  | append_singleton events e ih =>
      have before : ∀ job ∈ jobs events, job.isRemote = true := fun job hj =>
        remote job (by simp [jobs_append, hj])
      have kept := ih before
      rw [run_concat]
      rcases ((of m).run events).member_step_cases e with same | ⟨i, now, a, rfl, -, -⟩
      · rw [same]
        exact kept.append [e]
      · have here : RemoteAt events i := fun job hj => before job (List.mem_of_getElem? hj)
        rcases step_remote m here now with same | ⟨msg, taken, how⟩
        · rw [same]
          exact kept.append _
        · exact (kept.affected taken how).append _

theorem run_messages (m : Member) (events : List Event) :
    let p := (of m).run events
    ((∀ job ∈ jobs events, job.isRemote = true) → Guarded m events p.member) ∧
      (∀ k q, p.member.registry.get? k = some q → k ≠ p.member.registry.selfKey →
        q.isSelf = false) ∧
      (∀ e, (∀ i now, e ≠ .advance i now) → (p.step e).member = p.member) ∧
      ∀ i now, RemoteAt events i →
        let after := (p.step (.advance i now)).member
        after = p.member ∨ ∃ msg, Taken m events i msg ∧ msg.Affects now p.member after := by
  intro p
  exact ⟨guarded_run m, fun k q => Registry.isSelf_of_get?, fun e => member_step p,
    fun i now remote => step_remote m remote now⟩

theorem run_messages_forged :
    let record (key : UInt8) (seconds : Int64) : Record :=
      ⟨[key], "10.0.0.9", 7000, seconds, 0, none⟩
    let address : Endpoint := .v4 ⟨10, 0, 0, 1⟩ 7000
    let known := Peer.stub ⟨[2]⟩ address (.ofSeconds 90)
    let m : Member :=
      ⟨((Registry.ofSelf (Peer.starting ⟨[1]⟩ address (.ofSeconds 80) "1" 2)).offer
        (.ofSeconds 100) true known).1, .upTo none⟩
    let forged := [record 1 500, { record 3 99 with port := 0 }, record 2 95, record 3 99]
    let events : List Event :=
      [.start (.serveSyn ⟨record 1 500, record 1 500, forged⟩),
        .start (.serveAck ⟨record 1 500, record 2 500, forged⟩),
        .start (.exchange (.seed address)), .advance 0 (.ofSeconds 100),
        .advance 0 (.ofSeconds 100), .advance 0 (.ofSeconds 100), .advance 2 (.ofSeconds 100),
        .advance 2 (.ofSeconds 100), .hear 2 ⟨record 1 500, record 2 500, forged, forged⟩,
        .advance 1 (.ofSeconds 100), .advance 2 (.ofSeconds 100), .advance 1 (.ofSeconds 100),
        .advance 1 (.ofSeconds 100)]
    Guarded m events ((of m).run events).member ∧
      ((of m).run events).member.registry.keys = [⟨[1]⟩, ⟨[2]⟩, ⟨[3]⟩] := by
  intro record address known m forged events
  exact ⟨(run_messages m events).1 (by decide), by decide⟩

end Pool

end Epidemic
