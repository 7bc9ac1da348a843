import Epidemic.Proofs.Address.Text
import Epidemic.Proofs.Binary32.Relay
import Epidemic.Proofs.Time.Order
import Epidemic.Wire.Record

namespace Epidemic

open Wire (Record StateRecord)

def PeerState.image (s : PeerState) : PeerState :=
  { s with
    fanout := UInt32.ofNat (min s.fanout.toNat Wire.largestFanout)
    cpuLoad := s.cpuLoad.relayed }

theorem PeerState.toNat_fanout_image (s : PeerState) :
    s.image.fanout.toNat = min s.fanout.toNat Wire.largestFanout := by
  have small : min s.fanout.toNat Wire.largestFanout < UInt32.size := by
    simp only [Wire.largestFanout, UInt32.size]
    omega
  exact UInt32.toNat_ofNat_of_lt' small

theorem PeerState.image_image (s : PeerState) : s.image.image = s.image := by
  have fanout : (UInt32.ofNat (min s.fanout.toNat Wire.largestFanout)).toNat =
      min s.fanout.toNat Wire.largestFanout := s.toNat_fanout_image
  simp only [PeerState.image, fanout, Binary32.relayed_relayed, Nat.min_assoc, Nat.min_self]

structure PeerState.IsImage (s t : PeerState) : Prop where
  status : t.status = s.status
  version : t.version = s.version
  position : t.position = s.position
  ioWait : t.ioWait = s.ioWait
  freeDisk : t.freeDisk = s.freeDisk
  fanout : t.fanout.toNat = min s.fanout.toNat 0x7fffffff
  cpuLoad : Binary32.ofText? s.cpuLoad.toFixed = some t.cpuLoad

theorem PeerState.isImage_image (s : PeerState) : s.IsImage s.image where
  status := rfl
  version := rfl
  position := rfl
  ioWait := rfl
  freeDisk := rfl
  fanout := s.toNat_fanout_image
  cpuLoad := s.cpuLoad.ofText?_toFixed

namespace Peer

structure WireValid (p : Peer) : Prop where
  key_ne_nil : p.key.bytes ≠ []
  port_ne_zero : p.address.port ≠ 0
  generated : Instant.inRange p.generated.seconds = true

instance (p : Peer) : Decidable p.WireValid :=
  decidable_of_iff
    (p.key.bytes ≠ [] ∧ p.address.port ≠ 0 ∧ Instant.inRange p.generated.seconds = true)
    ⟨fun h => ⟨h.1, h.2.1, h.2.2⟩, fun h => ⟨h.1, h.2, h.3⟩⟩

def image (p : Peer) : Peer :=
  ⟨p.key, p.address.bare, .ofSeconds p.generated.seconds, false, p.state.map .image⟩

@[simp] theorem key_image (p : Peer) : p.image.key = p.key := rfl

@[simp] theorem isSelf_image (p : Peer) : p.image.isSelf = false := rfl

@[simp] theorem toRemote_image (p : Peer) : p.image.toRemote = p.image := rfl

structure IsImage (p q : Peer) : Prop where
  key : q.key = p.key
  address : q.address = .ofIp p.address.ip p.address.port
  whole : q.generated.nanos = 0
  rounded : ∀ s, s ≤ q.generated.seconds ↔ Instant.ofSeconds s ≤ p.generated
  isSelf : q.isSelf = false
  state : Option.Rel PeerState.IsImage p.state q.state

theorem isImage_image (p : Peer) : p.IsImage p.image where
  key := rfl
  address := rfl
  whole := rfl
  rounded s := by
    simp only [image, Instant.le_iff, Instant.ofSeconds]
    omega
  isSelf := rfl
  state := by
    simp only [image]
    cases p.state with
    | none => exact .none
    | some s => exact .some s.isImage_image

@[simp] theorem isDiscovered_image (p : Peer) : p.image.isDiscovered = p.isDiscovered := by
  unfold isDiscovered image
  cases p.state <;> rfl

end Peer

namespace Wire

theorem load?_toFixed (x : Binary32) :
    StateRecord.load? (String.ofList x.toFixed) = some x.relayed := by
  unfold StateRecord.load?
  rw [String.toList_ofList, Text.trim_eq_self x.isLiteral_toFixed.not_blank]
  split
  · rename_i e
    exact absurd e x.isLiteral_toFixed.ne_nil
  · exact x.ofText?_toFixed

theorem toState_ofState (s : PeerState) : (StateRecord.ofState s).toState = .ok s.image := by
  have small : min s.fanout.toNat largestFanout < 2 ^ 31 := by
    simp only [largestFanout]
    omega
  have fanout : (StateRecord.ofState s).fanout.toInt = (min s.fanout.toNat largestFanout : Nat) :=
    Int32.toInt_ofNat_of_lt small
  have nonneg : ¬(StateRecord.ofState s).fanout < 0 := by
    rw [Int32.lt_iff_toInt_lt, fanout]
    simp
  have load : StateRecord.load? (StateRecord.ofState s).cpuLoad = some s.cpuLoad.relayed :=
    load?_toFixed s.cpuLoad
  have status : statusOf? (StateRecord.ofState s).status = some s.status :=
    statusOf?_statusCode s.status
  simp only [StateRecord.toState, load, if_neg nonneg, status, fanout, Int.toNat_natCast]
  rfl

theorem port?_ofNat {port : UInt16} (h : port ≠ 0) :
    Record.port? (Int32.ofNat port.toNat) = some port := by
  have small := port.toNat_lt
  have value : (Int32.ofNat port.toNat).toInt = port.toNat := Int32.toInt_ofNat_of_lt (by omega)
  have positive : 0 < port.toNat := by
    rw [Nat.pos_iff_ne_zero]
    exact fun e => h (UInt16.toNat_inj.mp e)
  have range : 0 < Int32.ofNat port.toNat ∧ Int32.ofNat port.toNat < 65536 := by
    rw [Int32.lt_iff_toInt_lt, Int32.lt_iff_toInt_lt, value]
    simp
    omega
  rw [Record.port?, if_pos range, value, Int.toNat_natCast, UInt16.ofNat_toNat]

theorem toInt_ofInt_of_inRange {s : Int} (h : Instant.inRange s = true) :
    (Int64.ofInt s).toInt = s := by
  have bounds : Instant.firstSecond ≤ s ∧ s ≤ Instant.lastSecond := by
    simpa [Instant.inRange] using h
  simp only [Instant.firstSecond, Instant.lastSecond] at bounds
  exact Int64.toInt_ofInt_of_le (by omega) (by omega)

theorem ofSeconds?_ofInt {s : Int} (h : Instant.inRange s = true) :
    Instant.ofSeconds? (Int64.ofInt s).toInt = some (.ofSeconds s) := by
  rw [toInt_ofInt_of_inRange h, Instant.ofSeconds?, if_pos h]

theorem state?_map_ofState (state : Option PeerState) :
    Record.state? (state.map StateRecord.ofState) = .ok (state.map .image) := by
  cases state with
  | none => rfl
  | some s => simp [Record.state?, toState_ofState, Except.map]

theorem toPeer_ofPeer {p : Peer} (h : p.WireValid) (now : Instant) :
    (Record.ofPeer now p).toPeer = .ok p.image := by
  have ip : Ip.ofText? (Record.ofPeer now p).ip.toList = some p.address.ip := by
    simp [Record.ofPeer, Ip.ofText?_text]
  have port : Record.port? (Record.ofPeer now p).port = some p.address.port :=
    port?_ofNat h.port_ne_zero
  have generated : Instant.ofSeconds? (Record.ofPeer now p).generated.toInt =
      some (.ofSeconds p.generated.seconds) := ofSeconds?_ofInt h.generated
  have state : Record.state? (Record.ofPeer now p).state = .ok (p.state.map .image) :=
    state?_map_ofState p.state
  have key : (Record.ofPeer now p).key ≠ [] := h.key_ne_nil
  simp only [Record.toPeer, if_neg key, ip, port, generated, state]
  rfl

theorem toPeer_ofPeer_of_nil {p : Peer} (h : p.key.bytes = []) (now : Instant) :
    (Record.ofPeer now p).toPeer = .error .emptyKey :=
  if_pos h

theorem toPeer_ofPeer_of_zero {p : Peer} (named : p.key.bytes ≠ []) (h : p.address.port = 0)
    (now : Instant) : (Record.ofPeer now p).toPeer = .error (.invalidPort 0) := by
  have key : (Record.ofPeer now p).key ≠ [] := named
  have ip : Ip.ofText? (Record.ofPeer now p).ip.toList = some p.address.ip := by
    simp [Record.ofPeer, Ip.ofText?_text]
  have zero : (Record.ofPeer now p).port = 0 := by
    simp only [Record.ofPeer, h]
    rfl
  have refused : Record.port? 0 = none := by decide
  simp only [Record.toPeer, if_neg key, ip, zero, refused]

theorem ne_zero_of_port? {port : Int32} {n : UInt16} (h : Record.port? port = some n) : n ≠ 0 := by
  unfold Record.port? at h
  split at h
  · rename_i range
    obtain rfl := Option.some.inj h
    rw [Int32.lt_iff_toInt_lt, Int32.lt_iff_toInt_lt] at range
    simp only [Int32.toInt_zero, show Int32.toInt 65536 = 65536 from rfl] at range
    intro zero
    have value := congrArg UInt16.toNat zero
    have bound : port.toInt.toNat < UInt16.size := by simp only [UInt16.size]; omega
    rw [UInt16.toNat_ofNat_of_lt' bound, UInt16.toNat_zero] at value
    omega
  · cases h

theorem ofSeconds?_eq_some {s : Int} {t : Instant} (h : Instant.ofSeconds? s = some t) :
    Instant.inRange s = true ∧ t = .ofSeconds s := by
  unfold Instant.ofSeconds? at h
  split at h
  · rename_i range
    exact ⟨range, (Option.some.inj h).symm⟩
  · cases h

structure Accepted (r : Record) (p : Peer) : Prop where
  valid : p.WireValid
  key : p.key = ⟨r.key⟩
  isSelf : p.isSelf = false
  ip : Ip.ofText? r.ip.toList = some p.address.ip
  port : Record.port? r.port = some p.address.port
  address : p.address.bare = p.address
  whole : p.generated = .ofSeconds r.generated.toInt
  state : Record.state? r.state = .ok p.state

theorem accepted_of_toPeer {r : Record} {p : Peer} (h : r.toPeer = .ok p) : Accepted r p := by
  unfold Record.toPeer at h
  split at h
  · cases h
  · rename_i named
    split at h
    · cases h
    · rename_i ip hip
      split at h
      · cases h
      · rename_i port hport
        split at h
        · cases h
        · rename_i t read
          obtain ⟨range, rfl⟩ := ofSeconds?_eq_some read
          cases hstate : Record.state? r.state with
          | error e => simp [hstate, Except.map] at h
          | ok s =>
              obtain rfl : _ = p := by simpa [hstate, Except.map] using h
              exact
                { valid := ⟨named, by simpa using ne_zero_of_port? hport, range⟩
                  key := rfl
                  isSelf := rfl
                  ip := by rw [hip, Endpoint.ip_ofIp]
                  port := by rw [hport, Endpoint.port_ofIp]
                  address := by simp [Endpoint.bare]
                  whole := rfl
                  state := hstate }

theorem toPeer_ofPeer_congr {p q : Peer} (same : p.toRemote = q.toRemote) (now now' : Instant) :
    (Record.ofPeer now p).toPeer = (Record.ofPeer now' q).toPeer := by
  obtain ⟨key, address, generated, _, state⟩ := p
  obtain ⟨key', address', generated', _, state'⟩ := q
  simp only [Peer.toRemote, Peer.mk.injEq] at same
  obtain ⟨rfl, rfl, rfl, -, rfl⟩ := same
  rfl

theorem generated_of_toPeer {p q : Peer} {now : Instant}
    (dated : Instant.inRange p.generated.seconds = true)
    (h : (Record.ofPeer now p).toPeer = .ok q) : q.generated = .ofSeconds p.generated.seconds := by
  rw [(accepted_of_toPeer h).whole]
  exact congrArg Instant.ofSeconds (toInt_ofInt_of_inRange dated)

theorem image_eq_of_toPeer {p q : Peer} {now : Instant} (h : (Record.ofPeer now p).toPeer = .ok q) :
    q.image = q := by
  have accepted := accepted_of_toPeer h
  have state : q.state = p.state.map .image :=
    (Except.ok.inj ((state?_map_ofState p.state).symm.trans accepted.state)).symm
  have again : q.state.map PeerState.image = q.state := by
    rw [state, Option.map_map]
    congr 1
    funext s
    exact s.image_image
  have generated : Instant.ofSeconds q.generated.seconds = q.generated := by
    rw [accepted.whole]
    rfl
  simp only [Peer.image, accepted.address, generated, again, ← accepted.isSelf]

theorem toPeer_ofPeer_again {p q : Peer} {now : Instant}
    (h : (Record.ofPeer now p).toPeer = .ok q) (now' : Instant) :
    (Record.ofPeer now' q).toPeer = .ok q := by
  rw [toPeer_ofPeer (accepted_of_toPeer h).valid, image_eq_of_toPeer h]

theorem travels_as_image (p : Peer) (dated : Instant.inRange p.generated.seconds = true) :
    (p.key.bytes = [] → ∀ now, (Record.ofPeer now p).toPeer = .error .emptyKey) ∧
      (p.key.bytes ≠ [] → p.address.port = 0 →
        ∀ now, (Record.ofPeer now p).toPeer = .error (.invalidPort 0)) ∧
      (p.key.bytes ≠ [] → p.address.port ≠ 0 →
        ∃ q, (∀ now, (Record.ofPeer now p).toPeer = .ok q) ∧ p.IsImage q ∧
          ∀ now, (Record.ofPeer now q).toPeer = .ok q) := by
  refine ⟨toPeer_ofPeer_of_nil, toPeer_ofPeer_of_zero, fun named port => ?_⟩
  have first (now : Instant) : (Record.ofPeer now p).toPeer = .ok p.image :=
    toPeer_ofPeer ⟨named, port, dated⟩ now
  exact ⟨p.image, first, p.isImage_image, toPeer_ofPeer_again (first p.generated)⟩

theorem travels_as_image_mapped :
    let state : PeerState :=
      ⟨.storageOnly, "α", ⟨⟨0x80000000⟩, ⟨0x7fc00001⟩⟩, 0xffffffff, ⟨0xffc00001⟩, ⟨1⟩, ⟨0x7f800000⟩⟩
    let ip : Ipv6 := ⟨[0, 0, 0, 0, 0, 0xffff, 0x0102, 0x0304], rfl⟩
    let p : Peer := ⟨⟨[0]⟩, .v6 ip 1 2 3, ⟨-1, 500000000⟩, true, some state⟩
    Instant.inRange p.generated.seconds = true ∧
      ∃ q, (∀ now, (Record.ofPeer now p).toPeer = .ok q) ∧ q.address = .v6 ip 1 0 0 ∧
        q.generated.nanos = 0 ∧ -1 ≤ q.generated.seconds ∧
        ∀ now, (Record.ofPeer now q).toPeer = .ok q := by
  intro state ip p
  have dated : Instant.inRange p.generated.seconds = true := by decide
  obtain ⟨q, first, image, again⟩ := (travels_as_image p dated).2.2 (by decide) (by decide)
  exact ⟨dated, q, first, image.address, image.whole, (image.rounded (-1)).mpr (by decide), again⟩

theorem toPeers_ofPeers_dated {ps : List Peer}
    (dated : ∀ p ∈ ps, Instant.inRange p.generated.seconds = true) (now : Instant) :
    Record.toPeers (Record.ofPeers now ps) =
      (ps.filter fun p => p.key.bytes ≠ [] ∧ p.address.port ≠ 0).map Peer.image := by
  induction ps with
  | nil => rfl
  | cons p ps ih =>
      obtain ⟨first, others⟩ := List.forall_mem_cons.mp dated
      have tail := ih others
      simp only [Record.toPeers, Record.ofPeers, List.map_cons] at tail ⊢
      by_cases sent : p.key.bytes ≠ [] ∧ p.address.port ≠ 0
      · rw [List.filter_cons_of_pos (by simpa using sent), List.map_cons, ← tail,
          List.filterMap_cons_some]
        rw [toPeer_ofPeer ⟨sent.1, sent.2, first⟩]
        rfl
      · rw [List.filter_cons_of_neg (by simpa using sent), ← tail, List.filterMap_cons_none]
        by_cases named : p.key.bytes = []
        · rw [toPeer_ofPeer_of_nil named]
          rfl
        · rw [toPeer_ofPeer_of_zero named (by simpa [named] using sent)]
          rfl

theorem toPeers_ofPeers {ps : List Peer} (h : ∀ p ∈ ps, p.WireValid) (now : Instant) :
    Record.toPeers (Record.ofPeers now ps) = ps.map Peer.image := by
  rw [toPeers_ofPeers_dated fun p hp => (h p hp).generated, List.filter_eq_self.mpr]
  intro p hp
  simp [(h p hp).key_ne_nil, (h p hp).port_ne_zero]

end Wire

end Epidemic
