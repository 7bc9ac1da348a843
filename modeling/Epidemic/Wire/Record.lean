import Epidemic.Binary32.Decimal
import Epidemic.Peer
import Epidemic.Text.Blank
import Epidemic.Wire.Text

namespace Epidemic.Wire

structure StateRecord where
  status : Int32
  cpuLoad : String
  ioWait : Binary32
  freeDisk : Binary32
  version : String
  lat : Binary32
  lon : Binary32
  fanout : Int32
  deriving DecidableEq, Repr

structure Record where
  key : Bytes
  ip : String
  port : Int32
  generated : Int64
  elapsed : Int64
  state : Option StateRecord
  deriving DecidableEq, Repr

namespace Record

inductive Fault where
  | emptyKey
  | invalidAddress (text : String)
  | invalidPort (port : Int32)
  | invalidTime (seconds : Int64)
  | invalidField (field text : String)
  | unknownStatus (code : Int32)
  deriving DecidableEq, Repr

def Fault.message : Fault → String
  | .emptyKey => "Peer record has an empty public key"
  | .invalidAddress s => "Invalid IP address: " ++ s
  | .invalidPort n => "Invalid port: " ++ Numeral.signedDecimal n.toInt
  | .invalidTime n => "Invalid generation time: " ++ Numeral.signedDecimal n.toInt
  | .invalidField field s => "Invalid field " ++ field ++ ": " ++ s
  | .unknownStatus n => "Unknown peer status: " ++ Numeral.signedDecimal n.toInt

end Record

def statusCode : Status → Int32
  | .fault => 0
  | .bootstrapping => 1
  | .ok => 2
  | .storageOnly => 3

def statusOf? (code : Int32) : Option Status :=
  if code = 0 then some .fault
  else if code = 1 then some .bootstrapping
  else if code = 2 then some .ok
  else if code = 3 then some .storageOnly
  else none

theorem statusOf?_statusCode (s : Status) : statusOf? (statusCode s) = some s := by
  cases s <;> rfl

def largestFanout : Nat := 0x7fffffff

namespace StateRecord

def ofState (s : PeerState) : StateRecord where
  status := statusCode s.status
  cpuLoad := String.ofList s.cpuLoad.toFixed
  ioWait := s.ioWait
  freeDisk := s.freeDisk
  version := s.version
  lat := s.position.lat
  lon := s.position.lon
  fanout := Int32.ofNat (min s.fanout.toNat largestFanout)

def load? (text : String) : Option Binary32 :=
  match Text.trim text.toList with
  | [] => some Binary32.zero
  | cs => Binary32.ofText? cs

def toState (r : StateRecord) : Except Record.Fault PeerState :=
  match load? r.cpuLoad with
  | none => .error (.invalidField "cpu_load" r.cpuLoad)
  | some load =>
      if r.fanout < 0 then
        .error (.invalidField "p2p_factor" (Numeral.signedDecimal r.fanout.toInt))
      else
        match statusOf? r.status with
        | none => .error (.unknownStatus r.status)
        | some status =>
            .ok
              { status
                version := r.version
                position := ⟨r.lat, r.lon⟩
                fanout := UInt32.ofNat r.fanout.toInt.toNat
                cpuLoad := load
                ioWait := r.ioWait
                freeDisk := r.freeDisk }

end StateRecord

namespace Record

def ofAddress (address : Endpoint) (now : Instant) : Record where
  key := []
  ip := String.ofList address.ip.text
  port := Int32.ofNat address.port.toNat
  generated := Int64.ofInt now.seconds
  elapsed := 0
  state := none

def ofPeer (now : Instant) (p : Peer) : Record where
  key := p.key.bytes
  ip := String.ofList p.address.ip.text
  port := Int32.ofNat p.address.port.toNat
  generated := Int64.ofInt p.generated.seconds
  elapsed := Int64.ofInt (p.elapsed now)
  state := p.state.map StateRecord.ofState

def port? (port : Int32) : Option UInt16 :=
  if 0 < port ∧ port < 65536 then some (UInt16.ofNat port.toInt.toNat) else none

def state? : Option StateRecord → Except Fault (Option PeerState)
  | none => .ok none
  | some s => s.toState.map some

def toPeer (r : Record) : Except Fault Peer :=
  if r.key = [] then .error .emptyKey
  else
    match Ip.ofText? r.ip.toList with
    | none => .error (.invalidAddress r.ip)
    | some ip =>
        match port? r.port with
        | none => .error (.invalidPort r.port)
        | some port =>
            match Instant.ofSeconds? r.generated.toInt with
            | none => .error (.invalidTime r.generated)
            | some generated =>
                (state? r.state).map fun state =>
                  ⟨⟨r.key⟩, Endpoint.ofIp ip port, generated, false, state⟩

def ofPeers (now : Instant) (peers : List Peer) : List Record :=
  peers.map (ofPeer now)

def toPeers (records : List Record) : List Peer :=
  records.filterMap fun r => r.toPeer.toOption

end Record

namespace Format

def binary32 : Format Binary32 :=
  word32.iso Binary32.bits Binary32.mk

def stateRecord : Format StateRecord :=
  (int32.pair (text.pair (binary32.pair (binary32.pair (text.pair (binary32.pair
    (binary32.pair int32))))))).iso
    (fun s => (s.status, s.cpuLoad, s.ioWait, s.freeDisk, s.version, s.lat, s.lon, s.fanout))
    (fun (status, cpuLoad, ioWait, freeDisk, version, lat, lon, fanout) =>
      ⟨status, cpuLoad, ioWait, freeDisk, version, lat, lon, fanout⟩)

def record : Format Record :=
  (bytes.pair (text.pair (int32.pair (int64.pair (int64.pair (option stateRecord)))))).iso
    (fun r => (r.key, r.ip, r.port, r.generated, r.elapsed, r.state))
    (fun (key, ip, port, generated, elapsed, state) =>
      ⟨key, ip, port, generated, elapsed, state⟩)

end Format

end Epidemic.Wire
