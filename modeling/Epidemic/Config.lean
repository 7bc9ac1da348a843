import Epidemic.Round

namespace Epidemic

structure ServerSettings where
  limits : Limits := {}
  bindAddress : String := "0.0.0.0"
  bindPort : UInt16 := 0
  nodelay : Bool := true
  deriving DecidableEq, Repr

structure NodeConfig where
  key : Key
  fanout : UInt32 := 3
  version : String := "0.1.0"
  seeds : List Endpoint := []
  gossip : GossipSettings := {}
  server : ServerSettings := {}
  deriving DecidableEq, Repr

namespace NodeConfig

inductive Fault where
  | noSeeds
  | invalidInterval
  | invalidKey (cause : String)
  | transport (cause : TransportError)
  deriving DecidableEq, Repr

def Fault.message : Fault → String
  | .noSeeds => "Seed peer list is empty"
  | .invalidInterval => "Gossip interval must be non-zero"
  | .invalidKey cause => "Invalid identity key: " ++ cause
  | .transport cause => "Invalid transport configuration: " ++ cause.message

def validate (c : NodeConfig) : Except Fault Unit :=
  if c.seeds.isEmpty then .error .noSeeds
  else if c.key.isEmpty then .error (.invalidKey "empty public key")
  else if c.gossip.intervalMs = 0 then .error .invalidInterval
  else c.server.limits.validate.mapError .transport

end NodeConfig

end Epidemic
