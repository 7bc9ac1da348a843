import Epidemic.Proofs.Interleaving.Step

namespace Epidemic

def Occurrence.admits (k : Key) : Occurrence → Bool
  | .admitted key => key = k
  | _ => false

def Occurrence.notifies (k : Key) : Occurrence → Bool
  | .noticed key _ => key = k
  | _ => false

def admissions (k : Key) (history : List Occurrence) : Nat :=
  history.countP (·.admits k)

def notices (k : Key) (history : List Occurrence) : Nat :=
  history.countP (·.notifies k)

def Activity.owed (k : Key) : Activity → Nat
  | .merging _ _ report _ => report.inserted.count k
  | .notifying ahead _ _ => ahead.count k
  | _ => 0

def owed (k : Key) : List Activity → Nat
  | [] => 0
  | a :: as => a.owed k + owed k as

variable {k : Key}

@[simp] theorem admissions_nil (k : Key) : admissions k [] = 0 := rfl

@[simp] theorem notices_nil (k : Key) : notices k [] = 0 := rfl

@[simp] theorem admissions_cons (k : Key) (o : Occurrence) (history : List Occurrence) :
    admissions k (o :: history) = admissions k history + if o.admits k then 1 else 0 :=
  List.countP_cons

@[simp] theorem notices_cons (k : Key) (o : Occurrence) (history : List Occurrence) :
    notices k (o :: history) = notices k history + if o.notifies k then 1 else 0 :=
  List.countP_cons

theorem admissions_append (k : Key) (h h' : List Occurrence) :
    admissions k (h ++ h') = admissions k h + admissions k h' :=
  List.countP_append

theorem notices_append (k : Key) (h h' : List Occurrence) :
    notices k (h ++ h') = notices k h + notices k h' :=
  List.countP_append

theorem notices_pos {history : List Occurrence} :
    0 < notices k history ↔ ∃ taken, .noticed k taken ∈ history := by
  rw [notices, List.countP_pos_iff]
  constructor
  · rintro ⟨o, member, about⟩
    cases o with
    | noticed key taken =>
        obtain rfl : key = k := by simpa [Occurrence.notifies] using about
        exact ⟨taken, member⟩
    | admitted key => cases about
    | settled report => cases about
  · rintro ⟨taken, member⟩
    exact ⟨_, member, by simp [Occurrence.notifies]⟩

theorem admissions_eq_zero {history : List Occurrence} (none : ∀ k, .admitted k ∉ history) :
    admissions k history = 0 := by
  rw [admissions, List.countP_eq_zero]
  rintro (key | _ | _) member
  · exact absurd member (none key)
  · simp [Occurrence.admits]
  · simp [Occurrence.admits]

theorem owed_append (k : Key) (as bs : List Activity) :
    owed k (as ++ bs) = owed k as + owed k bs := by
  induction as with
  | nil => simp [owed]
  | cons a as ih => simp [owed, ih, Nat.add_assoc]

theorem owed_set (k : Key) {as : List Activity} {i : Nat} {a : Activity} (h : as[i]? = some a)
    (b : Activity) : owed k (as.set i b) + a.owed k = owed k as + b.owed k := by
  induction as generalizing i with
  | nil => simp at h
  | cons c as ih =>
      cases i with
      | zero =>
          obtain rfl : c = a := by simpa using h
          simp only [List.set_cons_zero, owed]
          omega
      | succ i =>
          have rest := ih (by simpa using h)
          simp only [List.set_cons_succ, owed]
          omega

theorem owed_activity (k : Key) (job : Job) : job.activity.owed k = 0 := by
  cases job <;> rfl

theorem Activity.owed_hear (k : Key) (answer : Wire.SynAck) (a : Activity) :
    (a.hear answer).owed k = a.owed k := by
  cases a <;> rfl

theorem Reconciled.count_record (k : Key) (report : Reconciled) (key : Key)
    (o : Registry.Outcome) : (report.record key o).inserted.count k =
      report.inserted.count k + admissions k (if o = .inserted then [.admitted key] else []) := by
  cases o with
  | inserted => simp [record, Occurrence.admits, List.count_cons]
  | replaced => rfl
  | unchanged => rfl
  | rejectedSelf => rfl

theorem notices_admitted (k key : Key) (o : Registry.Outcome) :
    notices k (if o = .inserted then [.admitted key] else []) = 0 := by
  cases o <;> rfl

theorem Activity.owed_advance (k : Key) (now : Instant) (m : Member) (a : Activity) :
    notices k (a.advance now m).2.2 + (a.advance now m).2.1.owed k ≤
      admissions k (a.advance now m).2.2 + a.owed k := by
  cases a with
  | merging allowInsert ahead report next =>
      cases ahead with
      | nil => simp [advance, owed]
      | cons c ahead =>
          simp only [advance, owed, notices_admitted, Reconciled.count_record]
          omega
  | notifying ahead report next =>
      cases ahead with
      | nil => simp [advance, owed, Occurrence.notifies]
      | cons key ahead =>
          simp only [advance]
          rcases m.notifier.notify key with ⟨notifier, _ | _⟩
          · simp [owed, Occurrence.notifies, Occurrence.admits, List.count_cons]
          · simp [owed, Occurrence.notifies, List.count_cons, Nat.add_comm]
  | inserting p =>
      simp only [advance]
      split <;> simp [owed, Occurrence.notifies]
  | refreshing f =>
      simp only [advance]
      split <;> simp [owed]
  | listing target => simp [advance, owed]
  | naming target known => simp [advance, owed]
  | awaiting target owned body => simp [advance, owed]
  | sorting body => simp [advance, owed]
  | following report next => simp [advance, owed]
  | ended result => simp [advance, owed]

structure Balanced (r : Registry) (k : Key) (p : Pool) : Prop where
  selfKey : p.member.registry.selfKey = r.selfKey
  kept : r.keys ⊆ p.member.registry.keys
  admitted : admissions k p.history = if k ∈ p.member.registry.keys ∧ k ∉ r.keys then 1 else 0
  noticed : notices k p.history + owed k p.activities ≤ admissions k p.history

namespace Balanced

variable {r : Registry} {p : Pool}

theorem of (m : Member) (k : Key) : Balanced m.registry k (.of m) where
  selfKey := rfl
  kept := fun _ h => h
  admitted := by
    rw [if_neg fun h => h.2 h.1]
    rfl
  noticed := Nat.le_refl 0

theorem advance (h : Balanced r k p) {i : Nat} {a : Activity} (here : p.activities[i]? = some a)
    (now : Instant) : Balanced r k (p.step (.advance i now)) := by
  have touched := a.touched now p.member
  have due := a.owed_advance k now p.member
  have moved := owed_set k here (a.advance now p.member).2.1
  have noticed := h.noticed
  rw [Pool.step_advance here]
  refine ⟨touched.selfKey_eq.trans h.selfKey, ?_, ?_, ?_⟩
  · rcases touched.keys_eq with ⟨keys, _⟩ | ⟨key, _, keys, _⟩
    · exact fun x hx => keys ▸ h.kept hx
    · exact fun x hx => keys ▸ List.mem_append_left _ (h.kept hx)
  · simp only [admissions_append, h.admitted]
    rcases touched.keys_eq with ⟨keys, none⟩ | ⟨key, absent, keys, seen⟩
    · rw [admissions_eq_zero none, keys, Nat.add_zero]
    · -- Keys are never lost, so one that was there at the start is not admitted again.
      have fresh : key ∉ r.keys := fun old => absent (h.kept old)
      rw [seen, keys]
      by_cases e : key = k
      · subst e
        simp [absent, fresh, Occurrence.admits]
      · simp [e, Ne.symm e, Occurrence.admits]
  · simp only [admissions_append, notices_append]
    omega

theorem step (h : Balanced r k p) (e : Event) : Balanced r k (p.step e) := by
  cases e with
  | start job =>
      refine ⟨h.selfKey, h.kept, h.admitted, ?_⟩
      have more := owed_append k p.activities [job.activity]
      have free := owed_activity k job
      have noticed := h.noticed
      simp only [owed] at more
      simp only [Pool.step]
      omega
  | advance i now =>
      cases here : p.activities[i]? with
      | none => simpa only [Pool.step, here] using h
      | some a => exact h.advance here now
  | hear i answer =>
      cases here : p.activities[i]? with
      | none => simpa only [Pool.step, here] using h
      | some a =>
          have moved := owed_set k here (a.hear answer)
          have noticed := h.noticed
          rw [a.owed_hear] at moved
          simp only [Pool.step, here]
          exact ⟨h.selfKey, h.kept, h.admitted, by simp only []; omega⟩
  | cancel i =>
      refine ⟨h.selfKey, h.kept, h.admitted, ?_⟩
      have noticed := h.noticed
      simp only [Pool.step]
      cases here : p.activities[i]? with
      | none => rwa [List.set_eq_of_length_le (List.getElem?_eq_none_iff.mp here)]
      | some a =>
          have moved := owed_set k here (.ended none)
          have free : Activity.owed k (.ended none) = 0 := rfl
          omega

end Balanced

def Told (history : List Occurrence) (report : Reconciled) : Prop :=
  (∀ k ∈ report.inserted, ∃ taken, .noticed k taken ∈ history) ∨
    ∃ k ∈ report.inserted, .noticed k false ∈ history

def Activity.Telling (history : List Occurrence) : Activity → Prop
  | .notifying ahead report _ =>
      (∀ k ∈ ahead, k ∈ report.inserted) ∧
        ∀ k ∈ report.inserted, k ∈ ahead ∨ ∃ taken, .noticed k taken ∈ history
  | _ => True

theorem Told.mono {h h' : List Occurrence} {report : Reconciled} (sub : h ⊆ h') :
    Told h report → Told h' report := by
  rintro (all | ⟨k, member, refused⟩)
  · refine .inl fun k hk => ?_
    obtain ⟨taken, told⟩ := all k hk
    exact ⟨taken, sub told⟩
  · exact .inr ⟨k, member, sub refused⟩

namespace Activity.Telling

variable {h h' : List Occurrence} {a : Activity}

theorem mono (sub : h ⊆ h') (telling : a.Telling h) : a.Telling h' := by
  cases a with
  | notifying ahead report next =>
      refine ⟨telling.1, fun k hk => ?_⟩
      rcases telling.2 k hk with coming | ⟨taken, told⟩
      · exact .inl coming
      · exact .inr ⟨taken, sub told⟩
  | _ => trivial

theorem hear (answer : Wire.SynAck) (telling : a.Telling h) : (a.hear answer).Telling h := by
  cases a with
  | notifying ahead report next => exact telling
  | _ => trivial

theorem advance (now : Instant) (m : Member) (telling : a.Telling h) :
    let seen := (a.advance now m).2.2
    (a.advance now m).2.1.Telling (h ++ seen) ∧
      ∀ report, .settled report ∈ seen → Told (h ++ seen) report := by
  cases a with
  | merging allowInsert ahead report next =>
      cases ahead with
      | nil => exact ⟨⟨fun k hk => hk, fun k hk => .inl hk⟩, by simp [Activity.advance]⟩
      | cons c ahead =>
          refine ⟨trivial, fun report settled => ?_⟩
          simp only [Activity.advance] at settled
          split at settled <;> simp at settled
  | notifying ahead report next =>
      obtain ⟨within, covered⟩ := telling
      cases ahead with
      | nil =>
          refine ⟨trivial, fun report' settled => ?_⟩
          obtain rfl : report' = report := by simpa [Activity.advance] using settled
          refine .inl fun k hk => ?_
          obtain ⟨taken, told⟩ := (covered k hk).resolve_left (by simp)
          exact ⟨taken, List.mem_append_left _ told⟩
      | cons key ahead =>
          simp only [Activity.advance]
          rcases m.notifier.notify key with ⟨notifier, _ | _⟩
          · refine ⟨trivial, fun report' settled => .inr ⟨key, ?_, by simp⟩⟩
            obtain rfl : report' = report := by simpa using settled
            exact within key (List.mem_cons_self ..)
          · refine ⟨⟨fun k hk => within k (List.mem_cons_of_mem _ hk), fun k hk => ?_⟩, by simp⟩
            rcases covered k hk with coming | ⟨taken, told⟩
            · rcases List.mem_cons.mp coming with rfl | coming
              · exact .inr ⟨true, by simp⟩
              · exact .inl coming
            · exact .inr ⟨taken, List.mem_append_left _ told⟩
  | inserting p =>
      simp only [Activity.advance]
      split <;> exact ⟨trivial, by simp⟩
  | refreshing f =>
      simp only [Activity.advance]
      split <;> exact ⟨trivial, by simp⟩
  | _ => exact ⟨trivial, by simp [Activity.advance]⟩

end Activity.Telling

structure Announced (p : Pool) : Prop where
  telling : ∀ a ∈ p.activities, a.Telling p.history
  settled : ∀ report, .settled report ∈ p.history → Told p.history report

namespace Announced

variable {p : Pool}

theorem of (m : Member) : Announced (.of m) :=
  ⟨by simp [Pool.of], by simp [Pool.of]⟩

theorem put (h : Announced p) (i : Nat) {a : Activity} (telling : a.Telling p.history) :
    Announced { p with activities := p.activities.set i a } := by
  refine ⟨fun b hb => ?_, h.settled⟩
  rcases List.mem_or_eq_of_mem_set hb with old | rfl
  · exact h.telling b old
  · exact telling

theorem step (h : Announced p) (e : Event) : Announced (p.step e) := by
  cases e with
  | start job =>
      refine ⟨fun a ha => ?_, h.settled⟩
      rcases List.mem_append.mp ha with old | new
      · exact h.telling a old
      · obtain rfl := List.mem_singleton.mp new
        cases job <;> trivial
  | advance i now =>
      cases here : p.activities[i]? with
      | none => simpa only [Pool.step, here] using h
      | some a =>
          rw [Pool.step_advance here]
          obtain ⟨telling, settled⟩ :=
            (h.telling a (List.mem_of_getElem? here)).advance now p.member
          have grows : p.history ⊆ p.history ++ (a.advance now p.member).2.2 :=
            List.subset_append_left ..
          constructor
          · intro b hb
            rcases List.mem_or_eq_of_mem_set hb with old | rfl
            · exact (h.telling b old).mono grows
            · exact telling
          · intro report member
            rcases List.mem_append.mp member with old | new
            · exact (h.settled report old).mono grows
            · exact settled report new
  | hear i answer =>
      cases here : p.activities[i]? with
      | none => simpa only [Pool.step, here] using h
      | some a =>
          simp only [Pool.step, here]
          exact h.put i ((h.telling a (List.mem_of_getElem? here)).hear answer)
  | cancel i => exact h.put i trivial

end Announced

def Occurrence.delivery? : Occurrence → Option Key
  | .noticed k true => some k
  | _ => none

def Occurrence.isNotice : Occurrence → Bool
  | .noticed _ _ => true
  | _ => false

def Kept (accepts : Nat → Bool) (attempts : Nat) (delivered : List Key) (p : Pool) : Prop :=
  p.member.notifier =
    .book accepts (attempts + p.history.countP (·.isNotice))
      (delivered ++ p.history.filterMap (·.delivery?))

theorem Activity.notifier_advance {accepts : Nat → Bool} {attempts : Nat} {delivered : List Key}
    {m : Member} (book : m.notifier = .book accepts attempts delivered) (now : Instant)
    (a : Activity) :
    (a.advance now m).1.notifier =
      .book accepts (attempts + (a.advance now m).2.2.countP (·.isNotice))
        (delivered ++ (a.advance now m).2.2.filterMap (·.delivery?)) := by
  cases a with
  | merging allowInsert ahead report next =>
      cases ahead with
      | nil => simpa [advance] using book
      | cons c ahead =>
          simp only [advance]
          split <;> simpa [Occurrence.isNotice, Occurrence.delivery?] using book
  | notifying ahead report next =>
      cases ahead with
      | nil => simpa [advance, Occurrence.isNotice, Occurrence.delivery?] using book
      | cons k ahead =>
          simp only [advance, book, Notifier.notify]
          cases accepts attempts <;> simp [Occurrence.isNotice, Occurrence.delivery?]
  | inserting p =>
      simp only [advance]
      split <;> simpa [Occurrence.isNotice, Occurrence.delivery?] using book
  | refreshing f =>
      simp only [advance]
      split <;> simpa using book
  | _ => simpa [advance] using book

theorem Kept.step {accepts : Nat → Bool} {attempts : Nat} {delivered : List Key} {p : Pool}
    (h : Kept accepts attempts delivered p) (e : Event) :
    Kept accepts attempts delivered (p.step e) := by
  cases e with
  | advance i now =>
      cases here : p.activities[i]? with
      | none => simpa only [Pool.step, here] using h
      | some a =>
          rw [Pool.step_advance here, Kept, a.notifier_advance h]
          simp [Nat.add_assoc]
  | hear i answer =>
      cases here : p.activities[i]? with
      | none => simpa only [Pool.step, here] using h
      | some a =>
          simp only [Pool.step, here]
          exact h
  | start job => exact h
  | cancel i => exact h

theorem Pool.notifier_run (r : Registry) (accepts : Nat → Bool) (attempts : Nat)
    (delivered : List Key) (events : List Event) :
    let p := (of ⟨r, .book accepts attempts delivered⟩).run events
    p.member.notifier =
      .book accepts (attempts + p.history.countP (·.isNotice))
        (delivered ++ p.history.filterMap (·.delivery?)) := by
  intro p
  have start : Kept accepts attempts delivered (of ⟨r, .book accepts attempts delivered⟩) := by
    simp [Kept, of]
  exact run_of_step (fun _ e h => h.step e) start events

theorem Pool.run_admissions (m : Member) (events : List Event) (k : Key) :
    let p := (of m).run events
    admissions k p.history =
        (if k ≠ p.member.registry.selfKey ∧ k ∈ p.member.registry.keys ∧ k ∉ m.registry.keys then 1
        else 0) ∧
      notices k p.history ≤ 1 ∧
      ∀ report, .settled report ∈ p.history → k ∈ report.inserted →
        (∀ k' ∈ report.inserted, .noticed k' false ∉ p.history) → notices k p.history = 1 := by
  intro p
  have balanced : Balanced m.registry k p :=
    run_of_step (fun _ e h => h.step e) (Balanced.of m k) events
  have announced : Announced p := run_of_step (fun _ e h => h.step e) (Announced.of m) events
  have bounded : admissions k p.history ≤ 1 := by
    rw [balanced.admitted]
    split <;> omega
  have noticed := balanced.noticed
  refine ⟨?_, by omega, ?_⟩
  · rw [balanced.admitted]
    by_cases new : k ∈ p.member.registry.keys ∧ k ∉ m.registry.keys
    · have other : k ≠ p.member.registry.selfKey := by
        rintro rfl
        exact new.2 (balanced.selfKey ▸ m.registry.sound.selfKey_mem_keys)
      rw [if_pos new, if_pos ⟨other, new⟩]
    · rw [if_neg new, if_neg fun h => new h.2]
  · intro report settled member unrefused
    rcases announced.settled report settled with all | ⟨key, hk, refused⟩
    · have told := notices_pos.mpr (all k member)
      omega
    · exact absurd refused (unrefused key hk)

theorem Pool.run_admissions_race :
    let newcomer := Peer.stub ⟨[2]⟩ (.v4 ⟨10, 0, 0, 2⟩ 7000) (.ofSeconds 90)
    let owned := Peer.starting ⟨[1]⟩ (.v4 ⟨10, 0, 0, 1⟩ 7000) (.ofSeconds 80) "1" 2
    let p := (of ⟨.ofSelf owned, .upTo none⟩).run
      [.start (.reconcile [newcomer]), .start (.reconcile [newcomer]),
        .advance 1 (.ofSeconds 100), .advance 0 (.ofSeconds 100), .advance 1 (.ofSeconds 100),
        .advance 1 (.ofSeconds 100), .advance 0 (.ofSeconds 100), .advance 1 (.ofSeconds 100)]
    admissions newcomer.key p.history = 1 ∧ notices newcomer.key p.history = 1 := by
  intro newcomer owned p
  obtain ⟨admitted, -, told⟩ := run_admissions ⟨.ofSelf owned, .upTo none⟩
    [.start (.reconcile [newcomer]), .start (.reconcile [newcomer]),
      .advance 1 (.ofSeconds 100), .advance 0 (.ofSeconds 100), .advance 1 (.ofSeconds 100),
      .advance 1 (.ofSeconds 100), .advance 0 (.ofSeconds 100), .advance 1 (.ofSeconds 100)]
    newcomer.key
  refine ⟨admitted.trans (by decide), ?_⟩
  exact told { inserted := [newcomer.key], notified := 1 } (by decide) (by decide) (by decide)

end Epidemic
