import Epidemic.Proofs.Mesh.Genuine
import Epidemic.Proofs.Time.Order

namespace Epidemic

open Wire (Record)

variable {size : Nat} {i : Fin size} {q : Peer}

namespace Mesh

variable {w : Mesh size} {m : Fin size}

structure Traced (w : Mesh size) : Prop where
  pools : ∀ i, (w.pools i).Traced w.placed i
  messages : ∀ msg ∈ w.sent, msg.Genuine w.placed

theorem traced_start (clock : Instant) (members : Fin size → Member) :
    (start clock members).Traced where
  pools i := ⟨fun q hq => .inl ⟨q, mem_placed_start.mpr hq, rfl⟩, fun _ ha => by cases ha⟩
  messages _ sent := by cases sent

namespace Traced

theorem work (h : w.Traced) {e : Event} (genuine : e.Genuine w.placed i) :
    (w.work i e).Traced ∧ ∀ m, ((w.work i e).registry m).owned = (w.registry m).owned := by
  obtain ⟨traced, owned⟩ := (h.pools i).step genuine
  refine ⟨⟨fun m => ?_, h.messages⟩, fun m => ?_⟩
  · rw [Mesh.work, pools_setPool]
    split
    · rename_i same
      exact same ▸ traced
    · exact h.pools m
  · rw [registry, Mesh.work, pools_setPool]
    split
    · rename_i same
      exact same ▸ owned
    · rfl

theorem sends (h : w.Traced) {j : Nat} {msg : Message} (sent : msg ∈ w.sends i j) :
    msg.Genuine w.placed := by
  obtain ⟨a, here, last⟩ := Option.bind_eq_some_iff.mp (Option.mem_toList.mp sent)
  exact ((h.pools i).activities a (List.mem_of_getElem? here)).sends last

theorem job {n : Nat} {job : Job} (h : w.Traced) (sent : w.sent[n]?.bind Message.job? = some job) :
    job.activity.Genuine w.placed i := by
  obtain ⟨msg, here, gives⟩ := Option.bind_eq_some_iff.mp sent
  have genuine := h.messages msg (List.mem_of_getElem? here)
  cases msg with
  | syn body =>
      cases gives
      exact genuine
  | answer body => cases gives
  | ack body =>
      cases gives
      exact ⟨fun c hc => genuine c (Message.carries_iff.mpr hc), trivial⟩

theorem step_message (h : w.Traced) {d : Deed size} (message : ∀ i how, d ≠ .place i how) :
    (w.step d).Traced ∧ (w.step d).placed = w.placed ∧
      ∀ m, ((w.step d).registry m).owned = (w.registry m).owned := by
  cases d with
  | tick now => exact ⟨⟨h.pools, h.messages⟩, rfl, fun _ => rfl⟩
  | contact i target =>
      obtain ⟨traced, owned⟩ := h.work (i := i) (e := .start (.exchange target)) trivial
      exact ⟨traced, rfl, owned⟩
  | serve i n =>
      cases sent : w.sent[n]?.bind Message.job? with
      | none =>
          simp only [step, sent]
          exact ⟨h, trivial, fun _ => trivial⟩
      | some job =>
          obtain ⟨traced, owned⟩ := h.work (i := i) (e := .start job) (h.job sent)
          simp only [step, sent]
          exact ⟨traced, rfl, owned⟩
  | hear i j n =>
      simp only [step]
      split
      · rename_i body sent
        obtain ⟨traced, owned⟩ := h.work (i := i) (e := .hear j body)
          (h.messages _ (List.mem_of_getElem? sent))
        exact ⟨traced, rfl, owned⟩
      · exact ⟨h, rfl, fun _ => rfl⟩
  | advance i j =>
      obtain ⟨traced, owned⟩ := h.work (i := i) (e := .advance j w.clock) trivial
      refine ⟨⟨traced.pools, fun msg sent => ?_⟩, rfl, owned⟩
      rcases List.mem_append.mp sent with old | new
      · exact h.messages msg old
      · exact traced.sends new
  | cancel i j =>
      obtain ⟨traced, owned⟩ := h.work (i := i) (e := .cancel j) trivial
      exact ⟨traced, rfl, owned⟩
  | place i how => exact absurd rfl (message i how)

theorem step_place (h : w.Traced) (i : Fin size) (how : Placement) :
    (w.step (.place i how)).Traced := by
  have places := (w.registry i).places w.clock how
  have more : w.placed ⊆ (w.step (.place i how)).placed := List.subset_append_left ..
  refine ⟨fun m => ?_, fun msg sent => (h.messages msg sent).mono more⟩
  have kept := (h.pools m).mono more
  rw [pools_place]
  split
  · rename_i same
    subst same
    refine ⟨fun q hq => ?_, kept.activities⟩
    rcases places.stored q hq with old | ⟨p, hp, same⟩
    · exact kept.held q old
    · exact .inl ⟨p, List.mem_append_right _ (List.mem_map_of_mem hp), same⟩
  · exact kept

theorem step (h : w.Traced) (d : Deed size) : (w.step d).Traced := by
  rcases d.message_or_place with message | ⟨i, how, rfl⟩
  · exact (h.step_message message).1
  · exact h.step_place i how

theorem run (h : w.Traced) (deeds : List (Deed size)) : (w.run deeds).Traced := by
  induction deeds generalizing w with
  | nil => exact h
  | cons d deeds ih => exact ih (h.step d)

end Traced

theorem selfKey_step (h : w.Traced) (d : Deed size) (m : Fin size) :
    ((w.step d).registry m).selfKey = (w.registry m).selfKey := by
  rcases d.message_or_place with message | ⟨i, how, rfl⟩
  · rw [Registry.selfKey_eq, (h.step_message message).2.2 m, Registry.selfKey_eq]
  · exact selfKey_place w i m how

theorem selfKey_run (h : w.Traced) (deeds : List (Deed size)) (m : Fin size) :
    ((w.run deeds).registry m).selfKey = (w.registry m).selfKey := by
  induction deeds generalizing w with
  | nil => rfl
  | cons d deeds ih => exact (ih (h.step d)).trans (selfKey_step h d m)

structure Current (w : Mesh size) : Prop where
  clock : ∀ m, (w.registry m).owned.generated ≤ w.clock
  dated : ∀ a ∈ w.placed, Instant.inRange a.2.generated.seconds = true
  placed : ∀ a ∈ w.placed, ∀ m, a.2.key = (w.registry m).selfKey →
    a.2.generated ≤ (w.registry m).owned.generated

instance (w : Mesh size) : Decidable w.Current :=
  decidable_of_iff
    ((∀ m, (w.registry m).owned.generated ≤ w.clock) ∧
      (∀ a ∈ w.placed, Instant.inRange a.2.generated.seconds = true) ∧
      ∀ a ∈ w.placed, ∀ m, a.2.key = (w.registry m).selfKey →
        a.2.generated ≤ (w.registry m).owned.generated)
    ⟨fun h => ⟨h.1, h.2.1, h.2.2⟩, fun h => ⟨h.1, h.2, h.3⟩⟩

def Allows (w : Mesh size) : Deed size → Prop
  | .tick now => w.clock ≤ now
  | .place i how =>
      ∀ p ∈ ((w.registry i).place w.clock how).2, Instant.inRange p.generated.seconds = true ∧
        ∀ m, p.key = (w.registry m).selfKey →
          if m = i then p.generated = w.clock else p.generated ≤ (w.registry m).owned.generated
  | _ => True

instance (w : Mesh size) : (d : Deed size) → Decidable (w.Allows d)
  | .tick now => inferInstanceAs (Decidable (w.clock ≤ now))
  | .place i how =>
      inferInstanceAs (Decidable (∀ p ∈ ((w.registry i).place w.clock how).2, _ ∧ ∀ _, _ → ite ..))
  | .contact .. | .serve .. | .hear .. | .advance .. | .cancel .. => isTrue trivial

def Truthful (w : Mesh size) : List (Deed size) → Prop
  | [] => True
  | d :: deeds => w.Allows d ∧ (w.step d).Truthful deeds

instance decideTruthful (w : Mesh size) : (deeds : List (Deed size)) → Decidable (w.Truthful deeds)
  | [] => isTrue trivial
  | d :: deeds => @instDecidableAnd _ _ _ (decideTruthful (w.step d) deeds)

theorem clock_step {d : Deed size} (allowed : w.Allows d) : w.clock ≤ (w.step d).clock := by
  cases d with
  | tick now => exact allowed
  | serve i n =>
      simp only [step]
      split <;> exact Instant.le_refl _
  | hear i j n =>
      simp only [step]
      split <;> exact Instant.le_refl _
  | _ => exact Instant.le_refl _

namespace Current

theorem renewed (c : w.Current) {how : Placement} (allowed : w.Allows (.place i how))
    (m : Fin size) :
    (w.registry m).owned.generated ≤ ((w.step (.place i how)).registry m).owned.generated ∧
      ((w.step (.place i how)).registry m).owned.generated ≤ w.clock := by
  rw [registry_place]
  split
  · rename_i same
    subst same
    rcases ((w.registry m).places w.clock how).renewed with old | ⟨p, hp, own, new⟩
    · rw [old]
      exact ⟨Instant.le_refl _, c.clock m⟩
    · have clock := (allowed p hp).2 m own
      rw [if_pos rfl] at clock
      rw [new, clock]
      exact ⟨c.clock m, Instant.le_refl _⟩
  · exact ⟨Instant.le_refl _, c.clock m⟩

theorem step_place (c : w.Current) {how : Placement} (allowed : w.Allows (.place i how)) :
    (w.step (.place i how)).Current := by
  refine ⟨fun m => (c.renewed allowed m).2, fun a ha => ?_, fun a ha m own => ?_⟩
  · rcases mem_placed_place.mp ha with old | ⟨p, hp, rfl⟩
    · exact c.dated a old
    · exact (allowed p hp).1
  · rw [selfKey_place] at own
    rcases mem_placed_place.mp ha with old | ⟨p, hp, rfl⟩
    · exact Instant.le_trans (c.placed a old m own) (c.renewed allowed m).1
    · have time := (allowed p hp).2 m own
      rw [registry_place]
      split at time
      · rename_i same
        subst same
        have made := congrArg Peer.generated (((w.registry m).places w.clock how).own p hp own)
        rw [if_pos rfl]
        exact made ▸ Instant.le_refl _
      · rename_i other
        rw [if_neg other]
        exact time

theorem step (c : w.Current) (h : w.Traced) {d : Deed size} (allowed : w.Allows d) :
    (w.step d).Current := by
  rcases d.message_or_place with message | ⟨i, how, rfl⟩
  · obtain ⟨-, placed, owned⟩ := h.step_message message
    refine ⟨fun m => ?_, placed ▸ c.dated, fun a ha m own => ?_⟩
    · rw [owned]
      exact Instant.le_trans (c.clock m) (clock_step allowed)
    · rw [selfKey_step h] at own
      rw [owned]
      exact c.placed a (placed ▸ ha) m own
  · exact c.step_place allowed

theorem run (c : w.Current) (h : w.Traced) {deeds : List (Deed size)} (allowed : w.Truthful deeds) :
    (w.run deeds).Current := by
  induction deeds generalizing w with
  | nil => exact c
  | cons d deeds ih => exact ih (c.step h allowed.1) (h.step d) allowed.2

theorem le_owned (c : w.Current) (h : w.Traced) (hq : q ∈ (w.registry i).list)
    (key : q.key = (w.registry m).selfKey) : q.generated ≤ (w.registry m).owned.generated := by
  rcases (h.pools i).held q hq with ⟨p, member, same⟩ | ⟨j, p, member, same, image⟩
  · have own : p.key = (w.registry m).selfKey := (congrArg Peer.key same.symm :).trans key
    have generated : q.generated = p.generated := (congrArg Peer.generated same :)
    exact generated ▸ c.placed _ member m own
  · have cut := Wire.generated_of_toPeer (c.dated _ member) (image ⟨0, 0⟩)
    refine Instant.le_trans ?_ (c.placed _ member m (same.trans key))
    rw [cut]
    exact .inr ⟨rfl, Nat.zero_le _⟩

end Current

theorem run_provenance (clock : Instant) (members : Fin size → Member) (deeds : List (Deed size)) :
    let w := (start clock members).run deeds
    (∀ i, (w.registry i).selfKey = (members i).registry.selfKey) ∧
      (∀ i k q, k ≠ (members i).registry.selfKey → (w.registry i).get? k = some q →
        (∃ p, (i, p) ∈ w.placed ∧ p.key = k ∧ q = p.toRemote) ∨
          ∃ j p, (j, p) ∈ w.placed ∧ p.key = k ∧ ∀ now, (Record.ofPeer now p).toPeer = .ok q) ∧
      ((start clock members).Current → (start clock members).Truthful deeds →
        ∀ i m q, (w.registry i).get? (members m).registry.selfKey = some q →
          q.generated ≤ (w.registry m).owned.generated) := by
  intro w
  have begun := traced_start clock members
  have traced := begun.run deeds
  have selfKey (m : Fin size) : (w.registry m).selfKey = (members m).registry.selfKey :=
    selfKey_run begun deeds m
  refine ⟨selfKey, fun i k q other found => ?_, fun current truthful i m q found => ?_⟩
  · obtain ⟨member, rfl⟩ := Registry.get?_eq_some_iff.mp found
    have remote := Peer.toRemote_eq_self (Registry.isSelf_of_get? found (selfKey i ▸ other))
    rcases (traced.pools i).held q member with ⟨p, hp, same⟩ | image
    · exact .inl ⟨p, hp, (congrArg Peer.key same.symm :), remote.symm.trans same⟩
    · exact .inr image
  · obtain ⟨member, key⟩ := Registry.get?_eq_some_iff.mp found
    exact (current.run begun truthful).le_owned traced member (key.trans (selfKey m).symm)

theorem run_provenance_relayed :
    let host (n : UInt8) := Peer.starting ⟨[n]⟩ (.v4 ⟨10, 0, 0, n⟩ 7000) ⟨90, 500⟩ "1" 2
    let members (i : Fin 3) : Member := ⟨.ofSelf (host (UInt8.ofNat i.val)), .log⟩
    let deeds : List (Deed 3) :=
      [.contact 0 (.seed (host 1).address), .advance 0 0, .advance 0 0, .serve 1 0, .advance 1 0,
        .advance 1 0, .advance 1 0, .advance 1 0, .hear 0 0 1, .advance 0 0, .cancel 0 0,
        .tick (.ofSeconds 120), .contact 2 (.seed (host 0).address), .advance 2 0, .advance 2 0,
        .serve 0 2, .advance 0 1, .advance 0 1, .advance 0 1, .advance 0 1, .hear 2 0 3,
        .advance 2 0, .advance 2 0]
    let w := (start (.ofSeconds 100) members).run deeds
    ∃ q j p, (w.registry 2).get? ⟨[1]⟩ = some q ∧ (j, p) ∈ w.placed ∧ p.key = ⟨[1]⟩ ∧
      (∀ now, (Record.ofPeer now p).toPeer = .ok q) ∧
      q.generated ≤ (w.registry 1).owned.generated := by
  intro host members deeds
  have stored : (((start (.ofSeconds 100) members).run deeds).registry 2).get? ⟨[1]⟩ |>.isSome := by
    decide +kernel
  have heard : ∀ a ∈ ((start (.ofSeconds 100) members).run deeds).placed,
      a.1 = 2 → a.2.key ≠ ⟨[1]⟩ := by decide +kernel
  have current : (start (.ofSeconds 100) members).Current := by decide +kernel
  have truthful : (start (.ofSeconds 100) members).Truthful deeds := by decide +kernel
  have own : (members 1).registry.selfKey = ⟨[1]⟩ := by decide
  obtain ⟨-, origin, fresh⟩ := run_provenance (.ofSeconds 100) members deeds
  replace fresh := fresh current truthful 2 1
  rw [own] at fresh
  -- The state is not to be evaluated again.
  generalize (start (.ofSeconds 100) members).run deeds = w at stored heard origin fresh ⊢
  obtain ⟨q, found⟩ := Option.isSome_iff_exists.mp stored
  rcases origin 2 ⟨[1]⟩ q (by decide) found with ⟨p, placed, key, -⟩ | ⟨j, p, placed, key, image⟩
  · exact absurd key (heard _ placed rfl)
  · exact ⟨q, j, p, found, placed, key, image, fresh q found⟩

end Mesh

end Epidemic
