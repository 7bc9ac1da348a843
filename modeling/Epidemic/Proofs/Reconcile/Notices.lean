import Epidemic.Proofs.Reconcile.Offer

namespace Epidemic

variable {σ τ : Type}

structure Observer (σ : Type) where
  notify : Peer → σ → σ × Bool

namespace Observer

def notifyAll (o : Observer σ) (s : σ) : List Peer → σ × Nat
  | [] => (s, 0)
  | p :: ps =>
      match o.notify p s with
      | (s, true) =>
          let (s, taken) := o.notifyAll s ps
          (s, taken + 1)
      | (s, false) => (s, 0)

def recorded (o : Observer σ) : Observer (σ × List (Peer × Bool)) where
  notify p s :=
    let (after, taken) := o.notify p s.1
    ((after, s.2 ++ [(p, taken)]), taken)

end Observer

def Notifier.observer : Observer Notifier where
  notify p n := n.notify p.key

structure Batch where
  allowInsert : Bool
  offers : List (Instant × Peer)

def Batch.at (now : Instant) (allowInsert : Bool) (candidates : List Peer) : Batch :=
  ⟨allowInsert, candidates.map (now, ·)⟩

structure Attended (σ : Type) where
  registry : Registry
  report : Reconciled
  calls : List (Peer × Bool)
  observer : σ

namespace Attended

def keys (done : Attended σ) : List Key :=
  done.calls.map fun call => call.1.key

def view (done : Attended σ) : Registry × Reconciled :=
  (done.registry, { done.report with notified := 0 })

end Attended

namespace Registry

def offerEach (allowInsert : Bool) (r : Registry) (report : Reconciled) (news : List Peer) :
    List (Instant × Peer) → Registry × Reconciled × List Peer
  | [] => (r, report, news)
  | (now, c) :: offers =>
      let (r, outcome) := r.offer now allowInsert c
      r.offerEach allowInsert (report.record c.key outcome)
        (if outcome = .inserted then news ++ [c] else news) offers

def attend (r : Registry) (o : Observer σ) (s : σ) (b : Batch) : Attended σ :=
  let (r, report, news) := r.offerEach b.allowInsert {} [] b.offers
  let ((s, calls), taken) := o.recorded.notifyAll (s, []) news
  ⟨r, { report with notified := taken }, calls, s⟩

def attendAll (o : Observer σ) (r : Registry) (s : σ) : List Batch → List (Attended σ)
  | [] => []
  | b :: bs =>
      let done := r.attend o s b
      done :: done.registry.attendAll o done.observer bs

end Registry

def Member.applyAll (m : Member) : List (Instant × Bool × List Peer) → List (Member × Reconciled)
  | [] => []
  | (now, allowInsert, candidates) :: batches =>
      let done := m.apply now allowInsert candidates
      done :: done.1.applyAll batches

def Attended.applied (done : Attended Notifier) : Member × Reconciled :=
  (⟨done.registry, done.observer⟩, done.report)

structure Attended.Told (done : Attended σ) : Prop where
  offered : done.keys <+: done.report.inserted
  answers : done.calls.map Prod.snd = List.replicate done.report.notified true ++
    if done.report.notified = done.report.inserted.length then [] else [false]
  count : done.calls.length = done.report.notified +
    if done.report.notified = done.report.inserted.length then 0 else 1
  begins : done.keys.head? = done.report.inserted.head?

namespace Observer

theorem notifyAll_observer (n : Notifier) (ps : List Peer) :
    Notifier.observer.notifyAll n ps = n.notifyAll (ps.map Peer.key) := by
  induction ps generalizing n with
  | nil => rfl
  | cons p ps ih =>
      have told : Notifier.observer.notify p n = n.notify p.key := rfl
      rcases answer : n.notify p.key with ⟨after, taken⟩
      cases taken with
      | false => simp only [notifyAll, List.map_cons, Notifier.notifyAll, told, answer]
      | true => simp only [notifyAll, List.map_cons, Notifier.notifyAll, told, answer, ih]

theorem notifyAll_recorded (o : Observer σ) (s : σ) (log : List (Peer × Bool)) (ps : List Peer) :
    ∃ calls, o.recorded.notifyAll (s, log) ps =
        (((o.notifyAll s ps).1, log ++ calls), (o.notifyAll s ps).2) ∧
      calls.map Prod.fst <+: ps ∧ (calls.map Prod.fst).head? = ps.head? ∧
      calls.map Prod.snd = List.replicate (o.notifyAll s ps).2 true ++
        if (o.notifyAll s ps).2 = ps.length then [] else [false] := by
  induction ps generalizing s log with
  | nil => exact ⟨[], by simp [notifyAll], by simp, rfl, by simp [notifyAll]⟩
  | cons p ps ih =>
      rcases told : o.notify p s with ⟨after, taken⟩
      have noted : o.recorded.notify p (s, log) = ((after, log ++ [(p, taken)]), taken) := by
        simp only [recorded, told]
      cases taken with
      | false =>
          simp only [notifyAll, noted, told]
          exact ⟨[(p, false)], rfl, by simp, rfl, rfl⟩
      | true =>
          obtain ⟨calls, same, offered, -, answers⟩ := ih after (log ++ [(p, true)])
          simp only [notifyAll, noted, told, same]
          refine ⟨(p, true) :: calls, by simp, by simpa using offered, rfl, ?_⟩
          simp only [List.map_cons, answers, List.length_cons, Nat.add_right_cancel_iff,
            List.replicate_succ, List.cons_append]

end Observer

namespace Registry

theorem offerEach_at (now : Instant) (allowInsert : Bool) (r : Registry) (report : Reconciled)
    (news cs : List Peer) :
    let done := r.offerEach allowInsert report news (cs.map (now, ·))
    (done.1, done.2.1) = r.offerAll now allowInsert report cs := by
  induction cs generalizing r report news with
  | nil => rfl
  | cons c cs ih => exact ih ..

theorem keys_offerEach (allowInsert : Bool) (r : Registry) (report : Reconciled)
    (news : List Peer) (offers : List (Instant × Peer)) :
    let done := r.offerEach allowInsert report news offers
    ∃ ks, done.1.keys = r.keys ++ ks ∧ done.2.1.inserted = report.inserted ++ ks ∧
      done.2.2.map Peer.key = news.map Peer.key ++ ks := by
  induction offers generalizing r report news with
  | nil => exact ⟨[], by simp [offerEach]⟩
  | cons offer offers ih =>
      obtain ⟨now, c⟩ := offer
      have met := offered r now allowInsert c
      simp only [offerEach]
      generalize r.offer now allowInsert c = result at met
      obtain ⟨after, outcome⟩ := result
      obtain ⟨ks, later⟩ := ih after (report.record c.key outcome)
        (if outcome = .inserted then news ++ [c] else news)
      rw [met.keys_eq, Reconciled.inserted_record] at later
      by_cases new : outcome = .inserted
      · simp only [if_pos new, List.append_assoc, List.map_append] at later ⊢
        exact ⟨c.key :: ks, later⟩
      · simp only [if_neg new, List.append_nil] at later ⊢
        exact ⟨ks, later⟩

variable {o : Observer σ} {r : Registry} {s : σ} {bs : List Batch}

theorem keys_attend (r : Registry) (o : Observer σ) (s : σ) (b : Batch) :
    (r.attend o s b).registry.keys = r.keys ++ (r.attend o s b).report.inserted := by
  obtain ⟨ks, keys, inserted, -⟩ := keys_offerEach b.allowInsert r {} [] b.offers
  rw [List.nil_append] at inserted
  exact keys.trans (congrArg (r.keys ++ ·) inserted.symm)

theorem told_attend (r : Registry) (o : Observer σ) (s : σ) (b : Batch) :
    (r.attend o s b).Told := by
  obtain ⟨ks, -, inserted, news⟩ := keys_offerEach b.allowInsert r {} [] b.offers
  rw [List.nil_append] at inserted
  rw [List.map_nil, List.nil_append, ← inserted] at news
  simp only [attend]
  generalize r.offerEach b.allowInsert {} [] b.offers = merged at news
  obtain ⟨calls, same, offered, begins, answers⟩ := o.notifyAll_recorded s [] merged.2.2
  have keys : (calls.map fun call => call.1.key) = (calls.map Prod.fst).map Peer.key :=
    List.map_map.symm
  have length : merged.2.2.length = merged.2.1.inserted.length := by rw [← news, List.length_map]
  rw [length] at answers
  simp only [same, List.nil_append]
  refine ⟨?_, answers, ?_, ?_⟩
  · simp only [Attended.keys, keys, ← news]
    exact offered.map Peer.key
  · have count := congrArg List.length answers
    rw [List.length_map, List.length_append, List.length_replicate] at count
    rw [count]
    split <;> rfl
  · simp only [Attended.keys, keys, ← news, List.head?_map, ← begins]

end Registry

namespace Member

theorem apply_eq_attend (m : Member) (now : Instant) (allowInsert : Bool)
    (candidates : List Peer) :
    m.apply now allowInsert candidates = (m.registry.attend Notifier.observer m.notifier
      (.at now allowInsert candidates)).applied := by
  have same := m.registry.offerEach_at now allowInsert {} [] candidates
  obtain ⟨ks, -, inserted, news⟩ :=
    Registry.keys_offerEach allowInsert m.registry {} [] (candidates.map (now, ·))
  rw [List.nil_append] at inserted
  rw [List.map_nil, List.nil_append, ← inserted] at news
  simp only [apply, ← same, Registry.attend, Batch.at, Attended.applied]
  generalize m.registry.offerEach allowInsert {} [] (candidates.map (now, ·)) = merged at news
  obtain ⟨calls, recorded, -⟩ :=
    Notifier.observer.notifyAll_recorded m.notifier [] merged.2.2
  simp only [recorded, Observer.notifyAll_observer, news]

theorem applyAll_eq_attendAll (m : Member) (batches : List (Instant × Bool × List Peer)) :
    m.applyAll batches = (m.registry.attendAll Notifier.observer m.notifier
      (batches.map fun b => .at b.1 b.2.1 b.2.2)).map Attended.applied := by
  induction batches generalizing m with
  | nil => rfl
  | cons b batches ih =>
      simp only [applyAll, apply_eq_attend m, ih]
      rfl

end Member

namespace Registry

def brought (run : List (Attended σ)) : List Key :=
  run.flatMap (·.report.inserted)

theorem keys_attendAll (o : Observer σ) (r : Registry) (s : σ) (bs : List Batch) :
    ∃ after : Registry, after.keys = r.keys ++ brought (r.attendAll o s bs) := by
  induction bs generalizing r s with
  | nil => exact ⟨r, by simp [attendAll, brought]⟩
  | cons b bs ih =>
      obtain ⟨after, keys⟩ := ih (r.attend o s b).registry (r.attend o s b).observer
      refine ⟨after, ?_⟩
      rw [keys, keys_attend, List.append_assoc]
      rfl

theorem told_attendAll (o : Observer σ) (r : Registry) (s : σ) (bs : List Batch) :
    ∀ done ∈ r.attendAll o s bs, done.Told := by
  induction bs generalizing r s with
  | nil => simp [attendAll]
  | cons b bs ih =>
      rintro done (_ | ⟨_, later⟩)
      · exact r.told_attend o s b
      · exact ih _ _ done later

theorem keys_sublist {run : List (Attended σ)} (told : ∀ done ∈ run, done.Told) :
    (run.flatMap Attended.keys).Sublist (brought run) := by
  induction run with
  | nil => exact .slnil
  | cons done run ih =>
      obtain ⟨first, rest⟩ := List.forall_mem_cons.mp told
      exact first.offered.sublist.append (ih rest)

theorem view_attendAll (o : Observer σ) (o' : Observer τ) (r : Registry) (s : σ) (s' : τ)
    (bs : List Batch) :
    (r.attendAll o s bs).map Attended.view = (r.attendAll o' s' bs).map Attended.view := by
  induction bs generalizing r s s' with
  | nil => rfl
  | cons b bs ih => exact congrArg (_ :: ·) (ih ..)

theorem attendAll_notices (o : Observer σ) (o' : Observer τ) (r : Registry) (s : σ) (s' : τ)
    (bs : List Batch) :
    let run := r.attendAll o s bs
    run.map Attended.view = (r.attendAll o' s' bs).map Attended.view ∧
      (∀ done ∈ run, done.Told) ∧
      (run.flatMap Attended.keys).Nodup ∧ (∀ k ∈ run.flatMap Attended.keys, k ∉ r.keys) ∧
      ∀ (m : Member) (batches : List (Instant × Bool × List Peer)),
        m.applyAll batches = (m.registry.attendAll Notifier.observer m.notifier
          (batches.map fun b => .at b.1 b.2.1 b.2.2)).map Attended.applied := by
  intro run
  have told : ∀ done ∈ run, done.Told := told_attendAll o r s bs
  obtain ⟨after, keys⟩ := keys_attendAll o r s bs
  obtain ⟨-, distinct, apart⟩ := List.nodup_append.mp (keys ▸ after.sound.nodup_keys)
  have offered : (run.flatMap Attended.keys).Sublist (brought run) := keys_sublist told
  exact ⟨view_attendAll o o' r s s' bs, told, distinct.sublist offered,
    fun k hk old => apart k old k (offered.subset hk) rfl, Member.applyAll_eq_attendAll⟩

example :
    let made (n : UInt8) := Peer.stub ⟨[n]⟩ (.v4 ⟨10, 0, 0, n⟩ 7000) ⟨1000, 0⟩
    let o : Observer Nat := ⟨fun _ n => (n + 1, n ≠ 1)⟩
    let r := Registry.ofSelf (made 1)
    let run := r.attendAll o 0 [.at ⟨1010, 0⟩ true ([2, 3, 4].map made),
      .at ⟨1011, 0⟩ false ([4, 5].map made), .at ⟨1012, 0⟩ true ([2, 5].map made)]
    run.map (fun done => (done.keys.map Key.bytes, done.report.notified)) =
      [([[2], [3]], 1), ([], 0), ([[5]], 1)] := by
  decide

end Registry

end Epidemic
