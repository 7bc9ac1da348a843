import Epidemic.Registry

namespace Epidemic

inductive ProbeError where
  | lookupFailed (cause : String)
  | metricsUnavailable (cause : String)
  | selfRejected (cause : Registry.Fault)
  deriving DecidableEq, Repr

def ProbeError.message : ProbeError → String
  | .lookupFailed cause => "Geolocation lookup failed: " ++ cause
  | .metricsUnavailable cause => "Metrics unavailable: " ++ cause
  | .selfRejected cause => "Refreshed self record rejected: " ++ cause.message

structure Probes where
  location : Except String (Ip × Position)
  status : Except String Status
  cpuLoad : Except String Binary32
  ioWait : Except String Binary32
  freeDisk : Except String Binary32

structure Refresher where
  key : Key
  port : UInt16
  version : String
  fanout : UInt32
  probes : Probes
  lookupDisabled : Bool := false

namespace Refresher

def location (f : Refresher) : Except ProbeError (Ip × Position) :=
  if f.lookupDisabled then .error (.lookupFailed "lookup disabled")
  else f.probes.location.mapError .lookupFailed

def measure (f : Refresher) : Except ProbeError (Ip × PeerState) := do
  let (ip, position) ← f.location
  let status ← f.probes.status.mapError .metricsUnavailable
  let cpuLoad ← f.probes.cpuLoad.mapError .metricsUnavailable
  let ioWait ← f.probes.ioWait.mapError .metricsUnavailable
  let freeDisk ← f.probes.freeDisk.mapError .metricsUnavailable
  .ok (ip, ⟨status, f.version, position, f.fanout, cpuLoad, ioWait, freeDisk⟩)

def refreshed (f : Refresher) (now : Instant) (ip : Ip) (state : PeerState) : Peer :=
  ⟨f.key, Endpoint.ofIp ip f.port, now, true, some state⟩

def refresh (f : Refresher) (now : Instant) (r : Registry) :
    Except ProbeError (Peer × Registry) := do
  let (ip, state) ← f.measure
  let p := f.refreshed now ip state
  let r ← (r.update p).mapError .selfRejected
  .ok (p, r)

end Refresher

end Epidemic
