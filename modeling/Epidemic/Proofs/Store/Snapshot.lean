import Epidemic.Proofs.Store.Entries
import Epidemic.Proofs.Wire.Stored

namespace Epidemic

def Peer.Before (p q : Peer) : Prop :=
  p.key.bytes.Before q.key.bytes

instance : Std.Irrefl Peer.Before :=
  ⟨fun _ before => before.ne rfl⟩

instance : Std.Antisymm Peer.Before :=
  ⟨fun _ _ before after => absurd rfl (before.trans after).ne⟩

namespace Store

variable {s : Store} {ps loaded : List Peer} {key : Bytes} {k : Key}

def lastRemote? (ps : List Peer) (k : Key) : Option Peer :=
  ps.reverse.find? fun p => !p.isSelf && p.key = k

theorem lastRemote?_spec {p : Peer} (h : lastRemote? ps k = some p) :
    p ∈ ps ∧ p.isSelf = false ∧ p.key = k := by
  have holds := List.find?_some h
  simp only [Bool.and_eq_true, Bool.not_eq_true', decide_eq_true_eq] at holds
  exact ⟨List.mem_reverse.mp (List.mem_of_find?_eq_some h), holds⟩

theorem lookup_writes (ps : List Peer) (k : Key) :
    ((ps.filter fun p => !p.isSelf).map fun p =>
        (peerKey p.key, some (Wire.Format.peer.write p))).lookup (peerKey k) =
      (ps.find? fun p => !p.isSelf && p.key = k).map fun p => some (Wire.Format.peer.write p) := by
  induction ps with
  | nil => rfl
  | cons p ps ih =>
      rw [List.filter_cons, List.find?_cons]
      split
      · rename_i remote
        rw [List.map_cons, lookup_cons, ih]
        by_cases same : k = p.key <;> simp [remote, same, eq_comm]
      · rename_i own
        simp [own, ih]

theorem get?_cleared (s : Store) (key : Bytes) :
    (s.apply (s.peerEntries.map fun e => (e.1, none))).get? key =
      if isPeerKey key then none else s.get? key := by
  have keys : s.peerEntries.map (fun e => (e.1, (none : Option Bytes))) =
      (s.peerEntries.map Prod.fst).map fun k => (k, none) := by
    rw [List.map_map]
    rfl
  rw [keys, get?_apply_removals]
  cases held : s.get? key with
  | none => simp
  | some value =>
      have stored : key ∈ s.peerEntries.map Prod.fst ↔ isPeerKey key := by
        simp [mem_peerEntries, held]
      simp [stored]

theorem get?_save_peerKey (s : Store) (ps : List Peer) (k : Key) :
    (s.save ps).1.get? (peerKey k) = (lastRemote? ps k).map Wire.Format.peer.write := by
  rw [save, apply_append, get?_apply, get?_cleared, ← List.map_reverse, ← List.filter_reverse,
    lookup_writes, if_pos (isPeerKey_peerKey k), lastRemote?]
  cases ps.reverse.find? fun p => !p.isSelf && p.key = k <;> rfl

theorem get?_save_of_not_peerKey (s : Store) (ps : List Peer) (h : isPeerKey key = false) :
    (s.save ps).1.get? key = s.get? key := by
  rw [save, apply_append, get?_apply, get?_cleared, List.lookup_eq_none_iff.mpr, h]
  · rfl
  · intro c written
    obtain ⟨p, _, rfl⟩ := List.mem_map.mp (List.mem_reverse.mp written)
    rw [bne_iff_ne]
    rintro rfl
    rw [isPeerKey_peerKey] at h
    cases h

def entry (p : Peer) : Bytes × Bytes :=
  (peerKey p.key, Wire.Format.peer.write p)

def Holds (s : Store) (ps : List Peer) : Prop :=
  ∀ k, s.get? (peerKey k) = (lastRemote? ps k).map Wire.Format.peer.write

theorem holds_empty : empty.Holds [] :=
  fun _ => rfl

theorem holds_save (s : Store) (ps : List Peer) : (s.save ps).1.Holds ps :=
  get?_save_peerKey s ps

theorem Holds.mem_peerEntries (h : s.Holds ps) {e : Bytes × Bytes} :
    e ∈ s.peerEntries ↔ ∃ p, lastRemote? ps p.key = some p ∧ entry p = e := by
  obtain ⟨key, value⟩ := e
  rw [Store.mem_peerEntries, isPeerKey_iff]
  constructor
  · rintro ⟨⟨k, rfl⟩, held⟩
    obtain ⟨p, last, rfl⟩ := Option.map_eq_some_iff.mp ((h k).symm.trans held)
    obtain ⟨_, _, rfl⟩ := lastRemote?_spec last
    exact ⟨p, last, rfl⟩
  · rintro ⟨p, last, same⟩
    cases same
    exact ⟨⟨p.key, rfl⟩, by rw [h, last]; rfl⟩

theorem exists_map_entry {es : List (Bytes × Bytes)} {holds : Peer → Prop}
    (h : ∀ e ∈ es, ∃ p, holds p ∧ entry p = e) :
    ∃ qs : List Peer, es = qs.map entry ∧ ∀ p ∈ qs, holds p := by
  induction es with
  | nil => exact ⟨[], rfl, by simp⟩
  | cons e es ih =>
      obtain ⟨p, held, rfl⟩ := h e List.mem_cons_self
      obtain ⟨qs, rfl, rest⟩ := ih fun e he => h e (List.mem_cons_of_mem _ he)
      exact ⟨p :: qs, rfl, List.forall_mem_cons.mpr ⟨held, rest⟩⟩

structure IsLatest (ps kept : List Peer) : Prop where
  ascending : kept.Pairwise Peer.Before
  mem_iff : ∀ p, p ∈ kept ↔ lastRemote? ps p.key = some p

theorem Holds.exists_latest (h : s.Holds ps) :
    ∃ kept, IsLatest ps kept ∧ s.peerEntries = kept.map entry := by
  obtain ⟨qs, entries, last⟩ := exists_map_entry fun e he => h.mem_peerEntries.mp he
  refine ⟨qs, ⟨?_, fun p => ⟨last p, fun lastOf => ?_⟩⟩, entries⟩
  · have ascending := s.ascending.filter fun e => isPeerKey e.1
    rw [← peerEntries, entries, List.pairwise_map] at ascending
    exact ascending.imp before_peerKey.mp
  · have written : entry p ∈ qs.map entry := entries ▸ h.mem_peerEntries.mpr ⟨p, lastOf, rfl⟩
    obtain ⟨q, listed, same⟩ := List.mem_map.mp written
    have key : q.key = p.key := peerKey_inj.mp (congrArg Prod.fst same)
    -- records that differ in a scope are written alike, so the key has to tell which one it was
    have lastOf' := last q listed
    rw [key, lastOf] at lastOf'
    exact Option.some.inj lastOf' ▸ listed

theorem mapM_decode {qs : List Peer} (h : ∀ p ∈ qs, p.Storable) :
    ((qs.map entry).mapM fun e => (Wire.Format.peer.decode e.2).mapError Fault.badPeer) =
      .ok (qs.map Peer.stored) := by
  induction qs with
  | nil => rfl
  | cons p qs ih =>
      obtain ⟨first, rest⟩ := List.forall_mem_cons.mp h
      have read : (Wire.Format.peer.decode (entry p).2).mapError Fault.badPeer = .ok p.stored := by
        rw [entry, Wire.Format.decode_peer first]
        rfl
      rw [List.map_cons, List.mapM_cons, read, ih rest]
      rfl

theorem Holds.load_eq (h : s.Holds ps) :
    ∃ kept, IsLatest ps kept ∧ s.peerCount = kept.length ∧
      ((∀ p ∈ ps, p.Storable) → s.load = .ok (kept.map Peer.stored)) := by
  obtain ⟨kept, latest, entries⟩ := h.exists_latest
  refine ⟨kept, latest, ?_, fun storable => ?_⟩
  · rw [peerCount, entries, List.length_map]
  · rw [load, entries]
    exact mapM_decode fun p hp => storable p (lastRemote?_spec ((latest.mem_iff p).mp hp)).1

end Store

end Epidemic
