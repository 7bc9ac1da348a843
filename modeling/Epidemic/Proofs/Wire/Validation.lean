import Epidemic.Proofs.Binary32.Grammar
import Epidemic.Proofs.Time.Calendar
import Epidemic.Proofs.Wire.Image
import Mathlib.Data.List.Forall2

namespace Epidemic.Wire

structure Check where
  holds : Prop
  fault : Record.Fault

def FirstFault (cs : List Check) (f : Record.Fault) : Prop :=
  ∃ before c after, cs = before ++ c :: after ∧ (∀ b ∈ before, b.holds) ∧ ¬c.holds ∧ f = c.fault

theorem firstFault_cons_iff {c : Check} {cs : List Check} {f : Record.Fault} :
    FirstFault (c :: cs) f ↔ ¬c.holds ∧ f = c.fault ∨ c.holds ∧ FirstFault cs f := by
  constructor
  · rintro ⟨_ | ⟨b, before⟩, d, after, same, passed, failed, rfl⟩
    · cases same
      exact .inl ⟨failed, rfl⟩
    · cases same
      obtain ⟨first, others⟩ := List.forall_mem_cons.mp passed
      exact .inr ⟨first, before, d, after, rfl, others, failed, rfl⟩
  · rintro (⟨failed, rfl⟩ | ⟨first, before, d, after, rfl, passed, failed, rfl⟩)
    · exact ⟨[], c, cs, rfl, by simp, failed, rfl⟩
    · exact ⟨c :: before, d, after, rfl, List.forall_mem_cons.mpr ⟨first, passed⟩, failed, rfl⟩

inductive Settles {α : Type} : List Check → Except Record.Fault α → Prop where
  | passed (a : α) : Settles [] (.ok a)
  | failed {c : Check} {cs : List Check} (fails : ¬c.holds) : Settles (c :: cs) (.error c.fault)
  | next {c : Check} {cs : List Check} {x : Except Record.Fault α} (holds : c.holds)
      (rest : Settles cs x) : Settles (c :: cs) x

namespace Settles

variable {α β : Type} {cs : List Check} {x : Except Record.Fault α}

theorem map (h : Settles cs x) (g : α → β) : Settles cs (x.map g) := by
  induction h with
  | passed a => exact .passed (g a)
  | failed fails => exact .failed fails
  | next holds _ ih => exact .next holds ih

theorem unread {value : Option β} {P : Prop} {f : Record.Fault} (spec : value.isSome ↔ P)
    (missing : value = none) : Settles (α := α) (⟨P, f⟩ :: cs) (.error f) :=
  .failed fun holds => by simpa [missing] using spec.mpr holds

theorem read {value : Option β} {b : β} {P : Prop} {f : Record.Fault} (spec : value.isSome ↔ P)
    (found : value = some b) (rest : Settles cs x) : Settles (⟨P, f⟩ :: cs) x :=
  .next (spec.mp (Option.isSome_of_eq_some found)) rest

theorem ok_iff (h : Settles cs x) : (∃ a, x = .ok a) ↔ ∀ c ∈ cs, c.holds := by
  induction h with
  | passed a => simp
  | failed fails => simp [fails]
  | next holds _ ih => simp [holds, ih]

theorem error_iff (h : Settles cs x) (f : Record.Fault) : x = .error f ↔ FirstFault cs f := by
  induction h with
  | passed a => simp [FirstFault]
  | failed fails => simp [firstFault_cons_iff, fails, eq_comm]
  | next holds _ ih => simp [firstFault_cons_iff, holds, ih]

end Settles

def IsLoad (cs : List Char) : Prop :=
  ∃ front body back, cs = front ++ body ++ back ∧ (∀ c ∈ front, Text.isBlank c = true) ∧
    (∀ c ∈ back, Text.isBlank c = true) ∧ (body = [] ∨ Binary32.IsLiteral body)

theorem isSome_load?_iff {text : String} :
    (StateRecord.load? text).isSome ↔ IsLoad text.toList := by
  constructor
  · intro h
    obtain ⟨front, back, parts, before, after⟩ := Text.exists_eq_trim text.toList
    refine ⟨front, _, back, parts, before, after, ?_⟩
    unfold StateRecord.load? at h
    split at h
    · exact .inl ‹_›
    · exact .inr (Binary32.isSome_ofText?_iff.mp h)
  -- a literal has no blanks, so no other part of the text can be what trimming leaves
  · rintro ⟨front, body, back, parts, before, after, rfl | literal⟩
    · have blank : ∀ c ∈ text.toList, Text.isBlank c = true := by
        rw [parts, List.append_nil, List.forall_mem_append]
        exact ⟨before, after⟩
      simp [StateRecord.load?, Text.trim_eq_nil blank]
    · have trimmed := Text.trim_append before literal.not_blank after literal.ne_nil
      have read := Binary32.isSome_ofText?_iff.mpr literal
      rw [← parts] at trimmed
      unfold StateRecord.load?
      split
      · rfl
      · rwa [trimmed]

namespace StateRecord

structure WellFormed (s : StateRecord) : Prop where
  cpuLoad : IsLoad s.cpuLoad.toList
  fanout : 0 ≤ s.fanout.toInt
  status : 0 ≤ s.status.toInt ∧ s.status.toInt ≤ 3

def checks (s : StateRecord) : List Check :=
  [⟨IsLoad s.cpuLoad.toList, .invalidField "cpu_load" s.cpuLoad⟩,
    ⟨0 ≤ s.fanout.toInt, .invalidField "p2p_factor" (Numeral.signedDecimal s.fanout.toInt)⟩,
    ⟨0 ≤ s.status.toInt ∧ s.status.toInt ≤ 3, .unknownStatus s.status⟩]

theorem wellFormed_iff (s : StateRecord) : s.WellFormed ↔ ∀ c ∈ s.checks, c.holds := by
  simp only [checks, List.forall_mem_cons]
  exact ⟨fun h => ⟨h.cpuLoad, h.fanout, h.status, List.forall_mem_nil _⟩,
    fun ⟨cpuLoad, fanout, status, _⟩ => ⟨cpuLoad, fanout, status⟩⟩

end StateRecord

theorem isSome_statusOf?_iff {code : Int32} :
    (statusOf? code).isSome ↔ 0 ≤ code.toInt ∧ code.toInt ≤ 3 := by
  have listed : (statusOf? code).isSome ↔
      code.toInt = 0 ∨ code.toInt = 1 ∨ code.toInt = 2 ∨ code.toInt = 3 := by
    simp only [statusOf?, ← Int32.toInt_inj, Int32.reduceToInt]
    split_ifs <;> simp [*]
  rw [listed]
  omega

theorem StateRecord.settles_toState (s : StateRecord) : Settles s.checks s.toState := by
  have negative : s.fanout < 0 ↔ ¬0 ≤ s.fanout.toInt := by
    rw [Int32.lt_iff_toInt_lt, Int.not_le, Int32.toInt_zero]
  unfold toState
  split
  · exact .unread isSome_load?_iff ‹_›
  · refine .read isSome_load?_iff ‹_› ?_
    split
    · exact .failed (negative.mp ‹_›)
    · refine .next (not_not.mp fun refused => absurd (negative.mpr refused) ‹_›) ?_
      split
      · exact .unread isSome_statusOf?_iff ‹_›
      · exact .read isSome_statusOf?_iff ‹_› (.passed _)

theorem isSome_port?_iff {port : Int32} :
    (Record.port? port).isSome ↔ 1 ≤ port.toInt ∧ port.toInt ≤ 65535 := by
  have range : 0 < port ∧ port < 65536 ↔ 1 ≤ port.toInt ∧ port.toInt ≤ 65535 := by
    rw [Int32.lt_iff_toInt_lt, Int32.lt_iff_toInt_lt, Int32.toInt_zero,
      show Int32.toInt 65536 = 65536 from rfl]
    omega
  rw [← range, Record.port?]
  split
  · exact ⟨fun _ => ‹_›, fun _ => rfl⟩
  · exact ⟨fun found => Bool.noConfusion found, fun within => absurd within ‹_›⟩

theorem isSome_ofSeconds?_iff {s : Int} :
    (Instant.ofSeconds? s).isSome ↔ Calendar.InYears s := by
  rw [← Calendar.inRange_iff_inYears, Instant.ofSeconds?]
  split <;> simp [*]

structure StateRecord.Tells (s : StateRecord) (t : PeerState) : Prop where
  status : statusCode t.status = s.status
  version : t.version = s.version
  position : t.position = ⟨s.lat, s.lon⟩
  fanout : (t.fanout.toNat : Int) = s.fanout.toInt
  cpuLoad : load? s.cpuLoad = some t.cpuLoad
  ioWait : t.ioWait = s.ioWait
  freeDisk : t.freeDisk = s.freeDisk

theorem statusCode_of_statusOf? {code : Int32} {status : Status} (h : statusOf? code = some status) :
    statusCode status = code := by
  unfold statusOf? at h
  split_ifs at h <;> cases h <;> simp [statusCode, *]

theorem StateRecord.tells_of_toState {s : StateRecord} {t : PeerState} (h : s.toState = .ok t) :
    s.Tells t := by
  unfold toState at h
  split at h
  · cases h
  · rename_i load read
    split at h
    · cases h
    · rename_i kept
      split at h
      · cases h
      · rename_i status named
        cases h
        have low : 0 ≤ s.fanout.toInt := by
          rw [Int32.lt_iff_toInt_lt, Int.not_lt, Int32.toInt_zero] at kept
          exact kept
        have high := s.fanout.toInt_lt
        have small : s.fanout.toInt.toNat < UInt32.size := by
          simp only [UInt32.size]
          omega
        exact
          { status := statusCode_of_statusOf? named
            version := rfl
            position := rfl
            fanout := by
              rw [UInt32.toNat_ofNat_of_lt' small, Int.toNat_of_nonneg low]
            cpuLoad := read
            ioWait := rfl
            freeDisk := rfl }

namespace Record

structure Tells (r : Record) (p : Peer) : Prop where
  key : p.key.bytes = r.key
  ip : Ip.Spelled r.ip.toList p.address.ip
  port : (p.address.port.toNat : Int) = r.port.toInt
  bare : p.address = .ofIp p.address.ip p.address.port
  generated : p.generated = .ofSeconds r.generated.toInt
  isSelf : p.isSelf = false
  state : Option.Rel StateRecord.Tells r.state p.state

theorem toNat_of_port? {port : Int32} {n : UInt16} (h : port? port = some n) :
    (n.toNat : Int) = port.toInt := by
  have range := isSome_port?_iff.mp (Option.isSome_of_eq_some h)
  unfold port? at h
  split at h
  · cases h
    have small : port.toInt.toNat < UInt16.size := by
      simp only [UInt16.size]
      omega
    rw [UInt16.toNat_ofNat_of_lt' small, Int.toNat_of_nonneg (by omega)]
  · cases h

theorem tells_of_state? {state : Option StateRecord} {found : Option PeerState}
    (h : state? state = .ok found) : Option.Rel StateRecord.Tells state found := by
  cases state with
  | none =>
      cases h
      exact .none
  | some s =>
      cases read : s.toState with
      | error f => simp [state?, read, Except.map] at h
      | ok t =>
          obtain rfl : some t = found := by simpa [state?, read, Except.map] using h
          exact .some (StateRecord.tells_of_toState read)

theorem tells_of_toPeer {r : Record} {p : Peer} (h : r.toPeer = .ok p) : r.Tells p := by
  have accepted := accepted_of_toPeer h
  exact
    { key := by rw [accepted.key]
      ip := Ip.ofText?_eq_some_iff.mp accepted.ip
      port := toNat_of_port? accepted.port
      bare := accepted.address.symm
      generated := accepted.whole
      isSelf := accepted.isSelf
      state := tells_of_state? accepted.state }

structure WellFormed (r : Record) : Prop where
  key : r.key ≠ []
  ip : ∃ ip, Ip.Spelled r.ip.toList ip
  port : 1 ≤ r.port.toInt ∧ r.port.toInt ≤ 65535
  generated : Calendar.InYears r.generated.toInt
  state : ∀ s ∈ r.state, s.WellFormed

def stateChecks : Option StateRecord → List Check
  | none => []
  | some s => s.checks

def checks (r : Record) : List Check :=
  [⟨r.key ≠ [], .emptyKey⟩,
    ⟨∃ ip, Ip.Spelled r.ip.toList ip, .invalidAddress r.ip⟩,
    ⟨1 ≤ r.port.toInt ∧ r.port.toInt ≤ 65535, .invalidPort r.port⟩,
    ⟨Calendar.InYears r.generated.toInt, .invalidTime r.generated⟩] ++ stateChecks r.state

theorem settles_state? (state : Option StateRecord) :
    Settles (stateChecks state) (state? state) := by
  cases state with
  | none => exact .passed none
  | some s => exact s.settles_toState.map some

theorem settles_toPeer (r : Record) : Settles r.checks r.toPeer := by
  unfold toPeer
  split
  · exact .failed (c := ⟨r.key ≠ [], .emptyKey⟩) fun named => named ‹_›
  · refine .next ‹_› ?_
    split
    · exact .unread Ip.isSome_ofText?_iff ‹_›
    · refine .read Ip.isSome_ofText?_iff ‹_› ?_
      split
      · exact .unread isSome_port?_iff ‹_›
      · refine .read isSome_port?_iff ‹_› ?_
        split
        · exact .unread isSome_ofSeconds?_iff ‹_›
        · exact .read isSome_ofSeconds?_iff ‹_› ((settles_state? r.state).map _)

theorem wellFormed_iff (r : Record) : r.WellFormed ↔ ∀ c ∈ r.checks, c.holds := by
  have state : (∀ c ∈ stateChecks r.state, c.holds) ↔ ∀ s ∈ r.state, s.WellFormed := by
    cases r.state with
    | none => simp [stateChecks]
    | some s => simp [stateChecks, StateRecord.wellFormed_iff]
  simp only [checks, List.forall_mem_append, state, List.forall_mem_cons]
  exact ⟨fun h => ⟨⟨h.key, h.ip, h.port, h.generated, List.forall_mem_nil _⟩, h.state⟩,
    fun ⟨⟨key, ip, port, generated, _⟩, state⟩ => ⟨key, ip, port, generated, state⟩⟩

theorem map_ok_toPeers (rs : List Record) :
    (toPeers rs).map .ok = (rs.map toPeer).filter Except.isOk := by
  induction rs with
  | nil => rfl
  | cons r rs ih =>
      rw [toPeers, List.filterMap_cons, List.map_cons, List.filter_cons]
      cases r.toPeer with
      | error f => exact ih
      | ok p => exact congrArg (.ok p :: ·) ih

theorem toPeers_filter (rs : List Record) :
    toPeers (rs.filter fun r => r.toPeer.isOk) = toPeers rs := by
  rw [toPeers, List.filterMap_filter, toPeers]
  congr 1
  funext r
  cases r.toPeer <;> rfl

theorem toPeer_validates :
    (∀ r : Record,
      ((∃ p, r.toPeer = .ok p) ↔ r.WellFormed) ∧
      (∀ f, r.toPeer = .error f ↔ FirstFault r.checks f) ∧
      (∀ n, ({ r with elapsed := n } : Record).toPeer = r.toPeer) ∧
      ∀ p, r.toPeer = .ok p →
        r.Tells p ∧ ∀ now, ∃ q, (ofPeer now p).toPeer = .ok q ∧ p.IsImage q) ∧
    (∀ rs, (toPeers rs).map .ok = (rs.map toPeer).filter Except.isOk) ∧
    (∀ rs rs' : List Record,
      (rs.filter fun r => r.toPeer.isOk) = (rs'.filter fun r => r.toPeer.isOk) →
        toPeers rs = toPeers rs') ∧
    ∀ (ps : List Peer) now, (∀ p ∈ ps, Instant.inRange p.generated.seconds = true) →
      List.Forall₂ Peer.IsImage (ps.filter fun p => p.key.bytes ≠ [] ∧ p.address.port ≠ 0)
        (toPeers (ofPeers now ps)) := by
  refine ⟨fun r => ⟨?_, r.settles_toPeer.error_iff, fun n => rfl,
      fun p accepted => ⟨tells_of_toPeer accepted, fun now => ?_⟩⟩,
    map_ok_toPeers, fun rs rs' same => ?_, fun ps now dated => ?_⟩
  · rw [r.settles_toPeer.ok_iff, r.wellFormed_iff]
  · exact ⟨p.image, toPeer_ofPeer (accepted_of_toPeer accepted).valid now, p.isImage_image⟩
  · rw [← toPeers_filter rs, same, toPeers_filter]
  · rw [toPeers_ofPeers_dated dated, List.forall₂_map_right_iff, List.forall₂_same]
    exact fun p _ => p.isImage_image

end Record

end Epidemic.Wire
