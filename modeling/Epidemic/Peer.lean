import Epidemic.Address.Endpoint
import Epidemic.Binary32.Basic
import Epidemic.Key
import Epidemic.Time.Instant

namespace Epidemic

inductive Status where
  | fault
  | bootstrapping
  | ok
  | storageOnly
  deriving DecidableEq, Repr

namespace Status

def name : Status → String
  | .fault => "fault"
  | .bootstrapping => "bootstrapping"
  | .ok => "ok"
  | .storageOnly => "storage-only"

def ofName? : String → Option Status
  | "fault" => some .fault
  | "bootstrapping" => some .bootstrapping
  | "ok" => some .ok
  | "storage-only" => some .storageOnly
  | _ => none

theorem ofName?_name (s : Status) : ofName? s.name = some s := by
  cases s <;> rfl

end Status

structure Position where
  lat : Binary32 := Binary32.zero
  lon : Binary32 := Binary32.zero
  deriving DecidableEq, Repr

structure PeerState where
  status : Status
  version : String
  position : Position
  fanout : UInt32
  cpuLoad : Binary32
  ioWait : Binary32
  freeDisk : Binary32
  deriving DecidableEq, Repr

def PeerState.bootstrapping (version : String) (fanout : UInt32) : PeerState where
  status := .bootstrapping
  version := version
  position := {}
  fanout := fanout
  cpuLoad := Binary32.zero
  ioWait := Binary32.zero
  freeDisk := Binary32.zero

structure Peer where
  key : Key
  address : Endpoint
  generated : Instant
  isSelf : Bool
  state : Option PeerState
  deriving DecidableEq, Repr

namespace Peer

def stub (key : Key) (address : Endpoint) (now : Instant) : Peer :=
  ⟨key, address, now, false, none⟩

def starting (key : Key) (address : Endpoint) (now : Instant) (version : String)
    (fanout : UInt32) : Peer :=
  ⟨key, address, now, true, some (.bootstrapping version fanout)⟩

def isDiscovered (p : Peer) : Bool :=
  match p.state with
  | some s => s.status = .ok
  | none => false

def toSelf (p : Peer) : Peer :=
  { p with isSelf := true }

def toRemote (p : Peer) : Peer :=
  { p with isSelf := false }

@[simp] theorem key_toSelf (p : Peer) : p.toSelf.key = p.key := rfl

@[simp] theorem key_toRemote (p : Peer) : p.toRemote.key = p.key := rfl

@[simp] theorem isSelf_toRemote (p : Peer) : p.toRemote.isSelf = false := rfl

@[simp] theorem toRemote_toRemote (p : Peer) : p.toRemote.toRemote = p.toRemote := rfl

theorem toRemote_eq_self {p : Peer} (h : p.isSelf = false) : p.toRemote = p := by
  obtain ⟨key, address, generated, isSelf, state⟩ := p
  obtain rfl : isSelf = false := h
  rfl

def elapsed (p : Peer) (now : Instant) : Int :=
  now.secondsSince p.generated

def supersedes (candidate stored : Peer) (now : Instant) : Bool :=
  candidate.elapsed now < stored.elapsed now

@[simp] theorem elapsed_toRemote (p : Peer) (now : Instant) :
    p.toRemote.elapsed now = p.elapsed now := rfl

end Peer

def missingFrom (held candidates : List Peer) : List Peer :=
  candidates.filter fun p => !held.any fun q => q.key = p.key

end Epidemic
