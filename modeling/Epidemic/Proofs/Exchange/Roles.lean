import Epidemic.Exchange
import Epidemic.Proofs.Reconcile.Batch
import Epidemic.Proofs.Wire.Image

namespace Epidemic

open Wire (Record Syn SynAck Ack)

theorem missingFrom_eq_filter (held candidates : List Peer) :
    missingFrom held candidates =
      candidates.filter fun p => p.key ∉ held.map Peer.key := by
  refine List.filter_congr fun p _ => ?_
  rw [Bool.eq_iff_iff]
  simp

theorem eraseDups_of_nodup {l : List Key} (h : l.Nodup) : l.eraseDups = l := by
  induction l with
  | nil => rfl
  | cons k l ih =>
      obtain ⟨apart, distinct⟩ := List.nodup_cons.mp h
      have kept : l.filter (fun b => !b == k) = l := by
        refine List.filter_eq_self.mpr fun b hb => ?_
        have : b ≠ k := fun e => apart (e ▸ hb)
        simpa using this
      rw [List.eraseDups_cons, kept, ih distinct]

namespace Registry

def WireValid (r : Registry) : Prop :=
  ∀ p ∈ r.list, p.WireValid

instance (r : Registry) : Decidable r.WireValid :=
  inferInstanceAs (Decidable (∀ p ∈ r.list, p.WireValid))

def beyond (a b : Registry) : List Peer :=
  b.list.filter fun p => p.key ∉ a.keys

def refreshedBy (now : Instant) (a b : Registry) (p : Peer) : Peer :=
  if p.key = b.selfKey then p
  else
    match a.get? p.key with
    | some q => if q.image.supersedes p now then q.image else p
    | none => p

def passed (a b : Registry) : List Peer :=
  (beyond b a).filter Peer.isDiscovered

def closing (now : Instant) (a b : Registry) : Ack where
  initiator := Record.ofPeer now a.owned
  receiver := Record.ofPeer now b.owned
  details := Record.ofPeers now (passed a b)

variable {a b : Registry} {now : Instant}

@[simp] theorem key_refreshedBy (now : Instant) (a b : Registry) (p : Peer) :
    (refreshedBy now a b p).key = p.key := by
  unfold refreshedBy
  split
  · rfl
  · split
    · rename_i q found
      have same : q.key = p.key := (get?_eq_some_iff.mp found).2
      split
      · exact same
      · rfl
    · rfl

theorem key_not_mem_of_mem_beyond {p : Peer} (h : p ∈ beyond a b) : p.key ∉ a.keys := by
  simpa using (List.mem_filter.mp h).2

theorem key_mem_of_mem_beyond {p : Peer} (h : p ∈ beyond a b) : p.key ∈ b.keys :=
  mem_keys_iff.mpr ⟨p, (List.mem_filter.mp h).1, rfl⟩

theorem nodup_key_filter (r : Registry) (f : Peer → Bool) :
    ((r.list.filter f).map Peer.key).Nodup :=
  r.nodup_keys.sublist (List.filter_sublist.map Peer.key)

theorem WireValid.of_beyond (h : b.WireValid) : ∀ p ∈ beyond a b, p.WireValid :=
  fun p hp => h p (List.mem_filter.mp hp).1

theorem map_key_image (ps : List Peer) : (ps.map Peer.image).map Peer.key = ps.map Peer.key := by
  simp

theorem map_toRemote_image (ps : List Peer) :
    (ps.map Peer.image).map Peer.toRemote = ps.map Peer.image := by
  simp

theorem map_key_ofPeers (now : Instant) (ps : List Peer) :
    (Record.ofPeers now ps).map (fun r => Key.mk r.key) = ps.map Peer.key := by
  simp only [Record.ofPeers, List.map_map]
  rfl

theorem details_beyond (b r : Registry) :
    r.details ((beyond b r).map Peer.key) = passed r b := by
  rw [details, passed, beyond, List.filter_filter]
  refine List.filter_congr fun p hp => ?_
  rw [Bool.and_comm]
  congr 1
  rw [Bool.eq_iff_iff, decide_eq_true_eq, decide_eq_true_eq, List.mem_map]
  constructor
  · rintro ⟨q, hq, e⟩
    rw [← e]
    exact key_not_mem_of_mem_beyond hq
  · exact fun lacking => ⟨p, List.mem_filter.mpr ⟨hp, decide_eq_true lacking⟩, rfl⟩

theorem find?_images {k : Key} (hk : k ∈ b.keys) :
    ((a.list.filter fun p => p.key ∈ b.keys).map Peer.image).find? (fun c => c.key = k) =
      (a.get? k).map Peer.image := by
  rw [get?_eq_find?, List.find?_map, List.find?_filter]
  congr 2
  funext p
  rw [Bool.eq_iff_iff]
  simp only [Function.comp, Peer.key_image, decide_eq_true_eq]
  constructor
  · exact fun h => of_decide_eq_true h.2
  · rintro rfl
    exact ⟨hk, decide_eq_true rfl⟩

theorem foldl_fresher_images {p : Peer} (hp : p ∈ b.list) (other : p.key ≠ b.selfKey) :
    ((a.list.filter fun p => p.key ∈ b.keys).map Peer.image).foldl (fresher now) p =
      refreshedBy now a b p := by
  have distinct : (((a.list.filter fun p => p.key ∈ b.keys).map Peer.image).map Peer.key).Nodup := by
    rw [map_key_image]
    exact nodup_key_filter a _
  rw [foldl_fresher now distinct, find?_images (mem_keys_iff.mpr ⟨p, hp, rfl⟩), refreshedBy,
    if_neg other]
  cases a.get? p.key <;> rfl

end Registry

namespace Member

open Registry

variable {a b : Registry} {now : Instant}

theorem refresh_eq (held received : List Peer) :
    (received.filter fun p => !(missingFrom held received).any fun q => q.key = p.key) =
      received.filter fun p => p.key ∈ held.map Peer.key := by
  refine List.filter_congr fun p hp => ?_
  rw [Bool.eq_iff_iff, missingFrom_eq_filter]
  simp only [Bool.not_eq_true', List.any_eq_false, List.mem_filter, decide_eq_true_eq]
  constructor
  · intro h
    by_contra unknown
    exact h p ⟨hp, unknown⟩ rfl
  · intro known q hq e
    exact hq.2 (e ▸ known)

theorem answer_opening (m : Member) (valid : a.WireValid) (now : Instant) (t : Target) :
    (m.answer now (a.opening now t)).1.registry.list =
        m.registry.list.map (refreshedBy now a m.registry) ∧
      (m.answer now (a.opening now t)).1.registry.owned = m.registry.owned ∧
      (m.answer now (a.opening now t)).2 =
        { initiator := Record.ofPeer now a.owned
          receiver := Record.ofPeer now m.registry.owned
          fresh := Record.ofPeers now (beyond a m.registry)
          wanted := Record.ofPeers now ((beyond m.registry a).map Peer.image) } := by
  have received : Record.toPeers (a.opening now t).known = a.list.map Peer.image :=
    Wire.toPeers_ofPeers valid now
  have teach : missingFrom (a.list.map Peer.image) m.registry.list = beyond a m.registry := by
    rw [missingFrom_eq_filter, map_key_image]
    rfl
  have unknown : missingFrom m.registry.list (a.list.map Peer.image) =
      (beyond m.registry a).map Peer.image := by
    rw [missingFrom_eq_filter, List.filter_map]
    rfl
  have known : ((a.list.map Peer.image).filter fun p => p.key ∈ m.registry.list.map Peer.key) =
      (a.list.filter fun p => p.key ∈ m.registry.keys).map Peer.image :=
    List.filter_map
  have owned := owned_offerAll m.registry now false {}
    ((a.list.filter fun p => p.key ∈ m.registry.keys).map Peer.image)
  have list := list_offerAll_closed m.registry now {}
    ((a.list.filter fun p => p.key ∈ m.registry.keys).map Peer.image)
  simp only [answer, Registry.sort, received, refresh_eq, known, refreshKnown, apply]
  refine ⟨?_, owned, ?_⟩
  · rw [list]
    refine List.map_congr_left fun p hp => ?_
    by_cases own : p.key = m.registry.selfKey
    · rw [if_pos own, refreshedBy, if_pos own]
    · rw [if_neg own, foldl_fresher_images hp own]
  · rw [owned, teach, unknown]
    rfl

theorem learn_answer (m : Member) (valid : b.WireValid) (now : Instant) (t : Target)
    (initiator : Record) :
    let answer : SynAck :=
      { initiator
        receiver := Record.ofPeer now b.owned
        fresh := Record.ofPeers now (beyond m.registry b)
        wanted := Record.ofPeers now ((beyond b m.registry).map Peer.image) }
    let learned := m.learn now t m.registry.owned answer
    learned.1.registry.list = m.registry.list ++ (beyond m.registry b).map Peer.image ∧
      learned.1.registry.owned = m.registry.owned ∧
      learned.2.1.target = t.address ∧
      learned.2.1.state = .done ∧
      learned.2.1.learned.inserted = (beyond m.registry b).map Peer.key ∧
      learned.2.1.requested = (beyond b m.registry).length ∧
      learned.2.1.sent = (passed m.registry b).length ∧
      learned.2.2 =
        if (passed m.registry b).isEmpty then none else some (closing now m.registry b) := by
  intro answer learned
  have fresh : Record.toPeers answer.fresh = (beyond m.registry b).map Peer.image :=
    Wire.toPeers_ofPeers valid.of_beyond now
  have new : ∀ c ∈ (beyond m.registry b).map Peer.image, c.key ∉ m.registry.keys := by
    intro c hc
    obtain ⟨p, hp, rfl⟩ := List.mem_map.mp hc
    exact key_not_mem_of_mem_beyond (p := p) hp
  have distinct : (((beyond m.registry b).map Peer.image).map Peer.key).Nodup := by
    rw [map_key_image]
    exact nodup_key_filter b _
  have wanted : answer.wantedKeys = (beyond b m.registry).map Peer.key := by
    rw [SynAck.wantedKeys, map_key_ofPeers, map_key_image]
    exact eraseDups_of_nodup (nodup_key_filter m.registry _)
  obtain ⟨list, report⟩ := offerAll_new m.registry now {} new distinct
  have kept := owned_offerAll m.registry now true {} ((beyond m.registry b).map Peer.image)
  rw [map_toRemote_image] at list
  have details : (m.registry.offerAll now true {} ((beyond m.registry b).map Peer.image)).1.details
      ((beyond b m.registry).map Peer.key) = passed m.registry b := by
    have old := details_beyond b m.registry
    have unwanted : ((beyond m.registry b).map Peer.image).filter (fun p =>
        decide (p.key ∈ (beyond b m.registry).map Peer.key) && p.isDiscovered) = [] := by
      refine List.filter_eq_nil_iff.mpr fun c hc wanted => new c hc ?_
      have asked : c.key ∈ (beyond b m.registry).map Peer.key := by simp_all
      obtain ⟨p, hp, e⟩ := List.mem_map.mp asked
      exact e ▸ key_mem_of_mem_beyond hp
    rw [Registry.details] at old
    rw [Registry.details, list, List.filter_append, old, unwanted, List.append_nil]
  simp only [learned, learn, conclude, reconcile, apply, fresh, wanted, details]
  refine ⟨list, kept, trivial, trivial, ?_, List.length_map .., trivial, rfl⟩
  simp [report]

theorem absorb_closing (m : Member) (valid : a.WireValid) (now : Instant)
    (same : m.registry.keys = b.keys) :
    (m.absorb now (closing now a b)).registry.list =
        m.registry.list ++ (passed a b).map Peer.image ∧
      (m.absorb now (closing now a b)).registry.owned = m.registry.owned := by
  have details : Record.toPeers (Record.ofPeers now (passed a b)) = (passed a b).map Peer.image :=
    Wire.toPeers_ofPeers (fun p hp => valid.of_beyond p (List.mem_filter.mp hp).1) now
  have new : ∀ c ∈ (passed a b).map Peer.image, c.key ∉ m.registry.keys := by
    intro c hc
    obtain ⟨p, hp, rfl⟩ := List.mem_map.mp hc
    rw [same]
    exact key_not_mem_of_mem_beyond (p := p) (List.mem_filter.mp hp).1
  have distinct : (((passed a b).map Peer.image).map Peer.key).Nodup := by
    rw [map_key_image]
    exact (nodup_key_filter a _).sublist (List.filter_sublist.map Peer.key)
  obtain ⟨list, _⟩ := offerAll_new m.registry now {} new distinct
  have kept := owned_offerAll m.registry now true {} ((passed a b).map Peer.image)
  rw [map_toRemote_image] at list
  simp only [absorb, closing, reconcile, apply, details]
  exact ⟨list, kept⟩

end Member

end Epidemic
