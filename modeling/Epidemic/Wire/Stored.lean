import Epidemic.Peer
import Epidemic.Time.Stamp
import Epidemic.Wire.Record

namespace Epidemic.Wire.Format

def ipv4 : Format Ipv4 where
  write ip := ip.octets
  read bs := do
    let (os, bs) ← takeBytes 4 bs
    match os with
    | [a, b, c, d] => .ok (⟨a, b, c, d⟩, bs)
    | _ => .error .endOfInput

def ipv6 : Format Ipv6 :=
  (octets 16).via Ipv6.octets fun os => Ipv6.ofGroups? (Ipv6.pairOctets os)

def endpoint : Format Endpoint where
  write
    | .v4 ip port => writeVarint 0 ++ (ipv4.write ip ++ uint16.write port)
    | .v6 ip port _ _ => writeVarint 1 ++ (ipv6.write ip ++ uint16.write port)
  read bs := do
    let (tag, bs) ← (natural .w32).read bs
    match tag with
    | 0 =>
        let ((ip, port), bs) ← (ipv4.pair uint16).read bs
        .ok (.v4 ip port, bs)
    | 1 =>
        let ((ip, port), bs) ← (ipv6.pair uint16).read bs
        .ok (.v6 ip port 0 0, bs)
    | _ => .error .badValue

def instant : Format Instant :=
  text.via (fun t => String.ofList (Stamp.text t)) (fun s => Stamp.read? s.toList)

def statusNumber : Status → Nat
  | .fault => 0
  | .bootstrapping => 1
  | .ok => 2
  | .storageOnly => 3

def statusOfNumber? : Nat → Option Status
  | 0 => some .fault
  | 1 => some .bootstrapping
  | 2 => some .ok
  | 3 => some .storageOnly
  | _ => none

def status : Format Status :=
  (natural .w32).via statusNumber statusOfNumber?

def peerState : Format PeerState :=
  (status.pair (text.pair (binary32.pair (binary32.pair (uint32.pair (binary32.pair
    (binary32.pair binary32))))))).iso
    (fun s => (s.status, s.version, s.position.lat, s.position.lon, s.fanout, s.cpuLoad, s.ioWait,
      s.freeDisk))
    (fun (status, version, lat, lon, fanout, cpuLoad, ioWait, freeDisk) =>
      ⟨status, version, ⟨lat, lon⟩, fanout, cpuLoad, ioWait, freeDisk⟩)

def key : Format Key :=
  bytes.iso Key.bytes Key.mk

def peer : Format Peer :=
  (key.pair (endpoint.pair (instant.pair (bool.pair (option peerState))))).iso
    (fun p => (p.key, p.address, p.generated, p.isSelf, p.state))
    (fun (key, address, generated, isSelf, state) => ⟨key, address, generated, isSelf, state⟩)

end Epidemic.Wire.Format
