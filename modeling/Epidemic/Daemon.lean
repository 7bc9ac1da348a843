import Epidemic.Bootstrap
import Epidemic.Options
import Epidemic.Session
import Epidemic.Transport.Stream

namespace Epidemic

inductive DaemonError where
  | store (cause : Store.Fault)
  | keypair (cause : Keypair.Fault)
  | start (cause : StartError)
  deriving DecidableEq, Repr

def DaemonError.message : DaemonError → String
  | .store cause => cause.message
  | .keypair cause => cause.message
  | .start cause => cause.message

namespace Options

def limits (o : Options) : Limits :=
  { connectMs := o.callTimeoutMs, messageMs := o.callTimeoutMs }

def gossip (o : Options) : GossipSettings where
  intervalMs := o.intervalMs
  roundTimeoutMs := o.roundTimeoutMs
  policy := if o.isolateFailures then .isolateTargets else .abortRound

def config (o : Options) (key : Key) : NodeConfig :=
  let c : NodeConfig :=
    { key := key
      fanout := o.fanout
      seeds := o.seeds
      gossip := o.gossip
      server := { limits := o.limits, bindAddress := o.bind, bindPort := o.port } }
  match o.version with
  | some version => { c with version := version }
  | none => c

def surroundings (o : Options) (selector : Selector) : Surroundings :=
  ⟨o.publicIp, o.position, .log, selector⟩

def keypair (o : Options) (store : Option Store) (fresh : Keypair) :
    Option Store × Except DaemonError Keypair :=
  match o.secretKey, store with
  | some secret, store => (store, (Keypair.ofHex secret).mapError .keypair)
  | none, some s =>
      let (s, k) := s.keypair fresh
      (some s, k.mapError .store)
  | none, none => (none, .ok fresh)

end Options

structure Daemon where
  node : Node
  store : Option Store
  underway : List Nat := []
  running : Bool := true

namespace Daemon

def openStore : Option Store.Place → Except DaemonError (Option Store)
  | none => .ok none
  | some place => ((Store.openAt place).map some).mapError .store

def start (o : Options) (bind : String → UInt16 → Except TransportError Endpoint)
    (place : Option Store.Place) (fresh : Keypair) (selector : Selector) (now : Instant) :
    Except DaemonError Daemon := do
  let store ← openStore place
  let (store, keypair) := o.keypair store fresh
  let keypair ← keypair
  let config := o.config keypair.publicKey
  let node ← (config.start bind (o.surroundings selector) store now).mapError .start
  .ok { node, store }

def serve (d : Daemon) (now : Instant) (limit : Nat) (stream : Bytes) : Daemon × Bytes :=
  let (reply, m) := (Member.service now).serve limit stream d.node.member
  ({ d with node := { d.node with member := m } }, reply)

-- A round goes by the number of rounds that began before it.
def beginRound (d : Daemon) (now : Instant) : Daemon × Option (Nat × RoundMove) :=
  if d.running then
    let (node, move) := d.node.started.beginRound now
    let round := d.node.stats.started
    ({ d with node, underway := round :: d.underway }, some (round, move))
  else (d, none)

def hear (d : Daemon) (now : Instant) (round : Nat) (turn : Turn)
    (reply : Except TransportError Wire.Response) : Daemon × Option RoundMove :=
  if round ∈ d.underway then
    let (node, move) := d.node.hear now turn reply
    ({ d with node }, some move)
  else (d, none)

def endRound (d : Daemon) (round : Nat) (outcome : Except RoundError RoundReport) : Daemon :=
  if round ∈ d.underway then
    { d with node := d.node.countRound outcome, underway := d.underway.erase round }
  else d

def interrupt (d : Daemon) : Daemon :=
  { d with underway := [], running := false }

def stop (d : Daemon) : Option Store :=
  d.store.map d.node.snapshot

end Daemon

end Epidemic
