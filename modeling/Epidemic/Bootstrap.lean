import Epidemic.Config
import Epidemic.Store

namespace Epidemic

inductive StartError where
  | config (cause : NodeConfig.Fault)
  | transport (cause : TransportError)
  | store (cause : Store.Fault)
  deriving DecidableEq, Repr

def StartError.message : StartError → String
  | .config cause => cause.message
  | .transport cause => cause.message
  | .store cause => cause.message

structure Surroundings where
  ip : Ip
  position : Position
  notifier : Notifier
  selector : Selector

def Surroundings.probes (s : Surroundings) : Probes where
  location := .ok (s.ip, s.position)
  status := .ok .ok
  cpuLoad := .ok Binary32.zero
  ioWait := .ok Binary32.zero
  freeDisk := .ok Binary32.zero

def Registry.restore (r : Registry) : List Peer → Registry
  | [] => r
  | p :: ps =>
      match r.insert p with
      | .ok r => r.restore ps
      | .error _ => r.restore ps

namespace NodeConfig

def initialRegistry (c : NodeConfig) (bound : Endpoint) (now : Instant) : Registry :=
  c.seeds.foldl Registry.addSeed
    (Registry.ofSelf (Peer.starting c.key bound now c.version c.fanout))

def restored (r : Registry) : Option Store → Except Store.Fault Registry
  | none => .ok r
  | some s => s.load.map r.restore

def refresher (c : NodeConfig) (bound : Endpoint) (s : Surroundings) : Refresher where
  key := c.key
  port := bound.port
  version := c.version
  fanout := c.fanout
  probes := s.probes

def start (c : NodeConfig) (bind : String → UInt16 → Except TransportError Endpoint)
    (surroundings : Surroundings) (store : Option Store) (now : Instant) :
    Except StartError Node := do
  c.validate.mapError .config
  let bound ← (bind c.server.bindAddress c.server.bindPort).mapError .transport
  let registry ← (restored (c.initialRegistry bound now) store).mapError .store
  .ok
    { member := ⟨registry, surroundings.notifier⟩
      refresher := some (c.refresher bound surroundings)
      selector := surroundings.selector
      settings := c.gossip }

end NodeConfig

def Node.snapshot (n : Node) (s : Store) : Store :=
  (s.save n.registry.known).1

end Epidemic
