import Epidemic.Proofs.Mesh.Basic

namespace Epidemic

open Wire (Record Syn SynAck Ack)

variable {size : Nat} {placed placed' : List (Fin size × Peer)} {i : Fin size} {p q : Peer}

def Imaged (placed : List (Fin size × Peer)) (q : Peer) : Prop :=
  ∃ j p, (j, p) ∈ placed ∧ p.key = q.key ∧ ∀ now, (Record.ofPeer now p).toPeer = .ok q

def Held (placed : List (Fin size × Peer)) (i : Fin size) (q : Peer) : Prop :=
  (∃ p, (i, p) ∈ placed ∧ q.toRemote = p.toRemote) ∨ Imaged placed q

def Message.Genuine (placed : List (Fin size × Peer)) (msg : Message) : Prop :=
  ∀ c, msg.Carries c → Imaged placed c

theorem Imaged.mono (h : Imaged placed q) (more : placed ⊆ placed') : Imaged placed' q := by
  obtain ⟨j, p, member, rest⟩ := h
  exact ⟨j, p, more member, rest⟩

theorem Imaged.toRemote (h : Imaged placed q) : q.toRemote = q := by
  obtain ⟨j, p, -, -, image⟩ := h
  exact Peer.toRemote_eq_self (Wire.accepted_of_toPeer (image ⟨0, 0⟩)).isSelf

theorem Held.mono (h : Held placed i q) (more : placed ⊆ placed') : Held placed' i q :=
  h.imp (fun ⟨p, member, same⟩ => ⟨p, more member, same⟩) fun image => image.mono more

theorem Held.imaged (h : Held placed i p) {now : Instant}
    (read : (Record.ofPeer now p).toPeer = .ok q) : Imaged placed q := by
  rcases h with ⟨x, member, same⟩ | ⟨j, x, member, key, image⟩
  · have hop (now' : Instant) : (Record.ofPeer now' x).toPeer = .ok q :=
      (Wire.toPeer_ofPeer_congr same.symm now' now).trans read
    exact ⟨i, x, member, (Wire.accepted_of_toPeer (hop now)).key.symm, hop⟩
  · have again := Wire.toPeer_ofPeer_again (image now) now
    obtain rfl : p = q := Except.ok.inj (again.symm.trans read)
    exact ⟨j, x, member, key, image⟩

theorem Message.genuine_of_held {msg : Message} {ps : List Peer} {now : Instant}
    (h : ∀ p ∈ ps, Held placed i p) (records : msg.records = Record.ofPeers now ps) :
    msg.Genuine placed := by
  rintro c ⟨record, member, read⟩
  rw [records] at member
  obtain ⟨p, hp, rfl⟩ := List.mem_map.mp member
  exact (h p hp).imaged read

theorem Message.Genuine.mono {msg : Message} (h : msg.Genuine placed) (more : placed ⊆ placed') :
    msg.Genuine placed' :=
  fun c hc => (h c hc).mono more

def Sequel.Genuine (placed : List (Fin size × Peer)) (i : Fin size) : Sequel → Prop
  | .reply _ sorted => ∀ p ∈ sorted.teach, Held placed i p
  | _ => True

def Activity.Genuine (placed : List (Fin size × Peer)) (i : Fin size) : Activity → Prop
  | .naming _ known => ∀ p ∈ known, Held placed i p
  | .awaiting _ _ body => (Message.syn body).Genuine placed
  | .sorting body => (Message.syn body).Genuine placed
  | .merging _ ahead _ next => (∀ c ∈ ahead, Imaged placed c) ∧ next.Genuine placed i
  | .notifying _ _ next => next.Genuine placed i
  | .following _ next => next.Genuine placed i
  | .inserting _ => False
  | .refreshing _ => False
  | .ended result => ∀ msg, (Activity.ended result).sends = some msg → msg.Genuine placed
  | .listing _ => True

theorem Sequel.Genuine.mono {next : Sequel} (h : next.Genuine placed i) (more : placed ⊆ placed') :
    next.Genuine placed' i := by
  cases next with
  | reply body sorted => exact fun p hp => (h p hp).mono more
  | _ => trivial

namespace Activity.Genuine

variable {a : Activity}

theorem mono (h : a.Genuine placed i) (more : placed ⊆ placed') : a.Genuine placed' i := by
  cases a with
  | naming target known => exact fun p hp => (h p hp).mono more
  | awaiting target owned body => exact Message.Genuine.mono h more
  | sorting body => exact Message.Genuine.mono h more
  | merging allowInsert ahead report next =>
      exact ⟨fun c hc => (h.1 c hc).mono more, h.2.mono more⟩
  | notifying ahead report next => exact Sequel.Genuine.mono h more
  | following report next => exact Sequel.Genuine.mono h more
  | inserting p => exact h
  | refreshing f => exact h
  | ended result => exact fun msg sent => (h msg sent).mono more
  | listing target => trivial

theorem sends (h : a.Genuine placed i) {msg : Message} (sent : a.sends = some msg) :
    msg.Genuine placed := by
  cases a with
  | awaiting target owned body =>
      cases sent
      exact h
  | ended result => exact h msg sent
  | _ => cases sent

theorem hear {answer : SynAck} (h : a.Genuine placed i)
    (genuine : (Message.answer answer).Genuine placed) : (a.hear answer).Genuine placed i := by
  cases a with
  | awaiting target owned body =>
      exact ⟨fun c hc => genuine c (Message.carries_iff.mpr hc), trivial⟩
  | _ => exact h

theorem follow {next : Sequel} {now : Instant} {r : Registry} {report : Reconciled}
    (h : next.Genuine placed i) (held : ∀ p ∈ r.list, Held placed i p) :
    (Activity.ended (some (next.follow now r report))).Genuine placed i := by
  intro msg sent
  cases next with
  | report => cases sent
  | reply body sorted =>
      cases sent
      exact Message.genuine_of_held h rfl
  | close target owned answer =>
      simp only [Sequel.follow, Registry.conclude] at sent
      split at sent
      · cases sent
      · cases sent
        exact Message.genuine_of_held (fun p hp => held p (List.mem_filter.mp hp).1) rfl

theorem advance {m : Member} (h : a.Genuine placed i)
    (held : ∀ p ∈ m.registry.list, Held placed i p) (now : Instant) :
    (a.advance now m).2.1.Genuine placed i := by
  cases a with
  | listing target => exact held
  | naming target known => exact Message.genuine_of_held h rfl
  | awaiting target owned body => exact h
  | sorting body =>
      refine ⟨fun c hc => h c (Message.carries_iff.mpr (List.mem_filter.mp hc).1), fun p hp => ?_⟩
      exact held p (List.mem_filter.mp hp).1
  | merging allowInsert ahead report next =>
      cases ahead with
      | nil => exact h.2
      | cons c ahead => exact ⟨fun d hd => h.1 d (List.mem_cons_of_mem _ hd), h.2⟩
  | notifying ahead report next =>
      cases ahead with
      | nil => exact h
      | cons k ahead =>
          simp only [Activity.advance]
          split <;> exact h
  | following report next => exact follow h held
  | inserting p => exact h.elim
  | refreshing f => exact h.elim
  | ended result => exact h

theorem stores {m : Member} (h : a.Genuine placed i) (now : Instant) :
    (a.advance now m).1.registry.owned = m.registry.owned ∧
      ∀ q ∈ (a.advance now m).1.registry.list, q ∈ m.registry.list ∨ Imaged placed q := by
  have touched := a.touched now m
  generalize (a.advance now m).1.registry = after at touched ⊢
  generalize (a.advance now m).2.2 = seen at touched
  cases touched with
  | untouched none => exact ⟨rfl, fun q hq => .inl hq⟩
  | @offered allowInsert c ahead report next _ o how =>
      have image := h.1 c (List.mem_cons_self ..)
      refine ⟨how.owned_eq, fun q hq => (how.old_or_new hq).imp_right fun new => ?_⟩
      rw [new, image.toRemote]
      exact image
  | inserted absent selfKey list => exact h.elim
  | refreshed key generated selfKey list => exact h.elim

end Activity.Genuine

def Event.Genuine (placed : List (Fin size × Peer)) (i : Fin size) : Event → Prop
  | .start job => job.activity.Genuine placed i
  | .hear _ answer => (Message.answer answer).Genuine placed
  | _ => True

structure Pool.Traced (placed : List (Fin size × Peer)) (i : Fin size) (p : Pool) : Prop where
  held : ∀ q ∈ p.member.registry.list, Held placed i q
  activities : ∀ a ∈ p.activities, a.Genuine placed i

namespace Pool.Traced

variable {p : Pool}

theorem mono (h : Traced placed i p) (more : placed ⊆ placed') : Traced placed' i p where
  held q hq := (h.held q hq).mono more
  activities a ha := (h.activities a ha).mono more

theorem step (h : Traced placed i p) {e : Event} (genuine : e.Genuine placed i) :
    Traced placed i (p.step e) ∧ (p.step e).member.registry.owned = p.member.registry.owned := by
  have activities : ∀ b ∈ (p.step e).activities, b.Genuine placed i := by
    intro b hb
    cases Pool.arises hb with
    | kept there => exact h.activities b there
    | begun => exact genuine
    | advanced there => exact (h.activities _ there).advance h.held _
    | heard there => exact (h.activities _ there).hear genuine
    | ended => exact fun msg sent => by cases sent
  rcases p.member_step_cases e with same | ⟨j, now, a, rfl, there, moved⟩
  · exact ⟨⟨same ▸ h.held, activities⟩, same ▸ rfl⟩
  · obtain ⟨owned, stored⟩ := (h.activities a there).stores (m := p.member) now
    refine ⟨⟨fun q hq => ?_, activities⟩, moved ▸ owned⟩
    exact (stored q (moved ▸ hq)).elim (h.held q) .inr

end Pool.Traced

end Epidemic
