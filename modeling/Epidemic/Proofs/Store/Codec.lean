import Epidemic.Proofs.Except
import Epidemic.Proofs.Store.Snapshot

namespace Epidemic

open Wire

structure Peer.IsWritten (p : Peer) (bs : Bytes) : Prop where
  fields : bs = Format.key.write p.key ++ (Format.endpoint.write p.address ++
    (Format.text.write (String.ofList (Stamp.fields p.generated).text) ++
      (Format.bool.write p.isSelf ++ Format.peerState.option.write p.state)))
  twoDigits : (Stamp.fields p.generated).InRange
  fraction : ∃ width, Stamp.IsFraction (Stamp.fields p.generated).nanos width
    (Stamp.fractionText (Stamp.fields p.generated).nanos)

theorem Peer.isWritten_write {p : Peer} (h : p.generated.Representable) :
    p.IsWritten (Format.peer.write p) where
  fields := rfl
  twoDigits := Stamp.inRange_fields_spelled h
  fraction := Stamp.exists_isFraction (Stamp.inRange_fields_spelled h).nanos

structure Peer.IsStored (p q : Peer) : Prop where
  key : q.key = p.key
  ip : q.address.ip = p.address.ip
  port : q.address.port = p.address.port
  unscoped : ∀ ip port flow scope, q.address = .v6 ip port flow scope → flow = 0 ∧ scope = 0
  generated : q.generated = p.generated.spelled
  isSelf : q.isSelf = p.isSelf
  state : q.state = p.state

theorem Peer.isStored_stored (p : Peer) : p.IsStored p.stored where
  key := rfl
  ip := Endpoint.ip_ofIp ..
  port := Endpoint.port_ofIp ..
  unscoped ip port flow scope same := by
    have bare : Endpoint.ofIp p.address.ip p.address.port = .v6 ip port flow scope := same
    cases h : p.address.ip with
    | v4 _ => cases (h ▸ bare)
    | v6 _ =>
        cases h ▸ bare
        exact ⟨rfl, rfl⟩
  generated := rfl
  isSelf := rfl
  state := rfl

namespace Store

theorem load_error {s : Store} {k : Key} {value : Bytes} {e : Wire.Fault}
    (held : s.get? (peerKey k) = some value) (refused : Format.peer.decode value = .error e) :
    ∃ e', s.load = .error (.badPeer e') := by
  have listed : (peerKey k, value) ∈ s.peerEntries :=
    mem_peerEntries.mpr ⟨isPeerKey_peerKey k, held⟩
  have fails : (Format.peer.decode value).mapError Fault.badPeer = .error (.badPeer e) := by
    rw [refused, mapError_error]
  obtain ⟨entry, -, fault, first, whole⟩ :=
    mapM_error_of_mem
      (f := fun e : Bytes × Bytes => (Format.peer.decode e.2).mapError Fault.badPeer) listed fails
  rw [load, whole]
  cases read : Format.peer.decode entry.2 with
  | error e' =>
      rw [read, mapError_error, Except.error.injEq] at first
      exact ⟨e', by rw [first]⟩
  | ok q =>
      rw [read, mapError_ok] at first
      cases first

theorem peer_recalled (p : Peer) (h : p.Storable) :
    (∀ (s : Store) ps, lastRemote? ps p.key = some p →
        (s.save ps).1.get? (peerKey p.key) = some (Format.peer.write p)) ∧
      p.IsWritten (Format.peer.write p) ∧
      (∃ q, p.IsStored q ∧ ∀ rest, Format.peer.decode (Format.peer.write p ++ rest) = .ok q) ∧
      ∀ cut, cut <+: Format.peer.write p → cut ≠ Format.peer.write p →
        (∃ e, Format.peer.decode cut = .error e) ∧
          ∀ (s : Store) k, s.get? (peerKey k) = some cut → ∃ e, s.load = .error (.badPeer e) := by
  refine ⟨fun s ps last => ?_, Peer.isWritten_write h.dated, ?_, fun cut part proper => ?_⟩
  · rw [get?_save_peerKey, last, Option.map_some]
  · exact ⟨p.stored, p.isStored_stored, Format.decode_peer_append h⟩
  · obtain ⟨e, refused⟩ := Format.decode_peer_prefix h part proper
    exact ⟨⟨e, refused⟩, fun s k held => load_error held refused⟩

theorem peer_recalled_far :
    let address (flow scope : UInt32) : Endpoint :=
      .v6 ⟨[0xfe80, 0, 0, 0, 0, 0, 0, 1], rfl⟩ 7000 flow scope
    let state : PeerState :=
      ⟨.storageOnly, "1.0-é", ⟨⟨0x7fc00001⟩, ⟨0x80000000⟩⟩, 3, ⟨0xff800000⟩, ⟨1⟩, ⟨0x7f800001⟩⟩
    let p : Peer := ⟨⟨[]⟩, address 7 5, ⟨253402300859, 1000500000⟩, false, some state⟩
    let cut := (Format.peer.write p).take 40
    p.Storable ∧ Format.peer.decode (Format.peer.write p ++ [1]) =
        .ok { p with address := address 0 0 } ∧
      (∃ e, Format.peer.decode cut = .error e) ∧
      ∃ e, (empty.put (peerKey p.key) cut).load = .error (.badPeer e) := by
  intro address state p cut
  have storable : p.Storable := by decide +kernel
  obtain ⟨-, -, ⟨q, ⟨key, ip, port, unscoped, generated, own, known⟩, read⟩, refused⟩ :=
    peer_recalled p storable
  obtain ⟨fails, whole⟩ := refused cut (List.take_prefix ..) (by decide +kernel)
  refine ⟨storable, ?_, fails, whole _ p.key ?_⟩
  · rw [read]
    obtain ⟨k, e, t, own', state'⟩ := q
    cases e with
    | v4 _ _ => cases ip
    | v6 _ _ flow scope =>
        obtain ⟨rfl, rfl⟩ := unscoped _ _ _ _ rfl
        cases key; cases ip; cases port; cases generated; cases own; cases known
        rfl
  · rw [get?_put, if_pos rfl]

theorem peer_recalled_respelled :
    let p (seconds : Int) (nanos : Nat) : Peer :=
      ⟨⟨[2]⟩, .v4 ⟨10, 0, 0, 2⟩ 7000, ⟨seconds, nanos⟩, false, none⟩
    (p 30 1500000000).Storable ∧
      Format.peer.write (p 30 1500000000) = Format.peer.write (p 31 500000000) ∧
      Format.peer.decode (Format.peer.write (p 30 1500000000)) = .ok (p 31 500000000) ∧
      p 31 500000000 ≠ p 30 1500000000 := by
  decide +kernel

end Store

end Epidemic
