import Epidemic.Daemon
import Epidemic.Transport.Stream
import Std.Async

namespace Epidemic.Daemon

open Std.Async Std.Net
open Std.Async.TCP.Socket (Client Server)

def wallClock : IO Instant := do
  let elapsed := (← Std.Time.Timestamp.now).toNanosecondsSinceUnixEpoch.val
  return ⟨elapsed / Instant.nanosPerSecond, (elapsed % Instant.nanosPerSecond).toNat⟩

def socketAddress : Endpoint → SocketAddress
  | .v4 ip port => .v4 ⟨.ofParts ip.a ip.b ip.c ip.d, port⟩
  | .v6 ip port _ _ => .v6 ⟨⟨ip.groups.toArray, by simpa using ip.size_groups⟩, port⟩

def endpoint : SocketAddress → Endpoint
  | .v4 a => .v4 ⟨a.addr.octets[0], a.addr.octets[1], a.addr.octets[2], a.addr.octets[3]⟩ a.port
  | .v6 a => .v6 ⟨a.addr.segments.toList, by simp⟩ a.port 0 0

def within {α : Type} (ms : Nat) (act : Async α) : Async (Option α) :=
  Async.race (some <$> act) (do sleep (.ofNat ms); return none)

partial def receive (client : Client) (limit : Nat) (stream : Bytes) : Async Bytes := do
  if Frame.isDecided limit stream then return stream
  match ← client.recv? 65536 with
  | some chunk => receive client limit (stream ++ chunk.data.toList)
  | none => return stream

def step {α : Type} (daemon : IO.Ref Daemon) (f : Instant → Daemon → Daemon × α) : IO α := do
  let now ← wallClock
  daemon.modifyGet fun d => (f now d).swap

def answer (daemon : IO.Ref Daemon) (limits : Limits) (client : Client) : Async Unit := do
  if let some stream ← within limits.messageMs (receive client limits.frameSize []) then
    let reply ← step daemon fun now d => d.serve now limits.frameSize stream
    if !reply.isEmpty then client.send ⟨reply.toArray⟩
  client.shutdown

partial def listen (daemon : IO.Ref Daemon) (limits : Limits) (server : Server) : Async Unit := do
  let client ← server.accept
  background (do try answer daemon limits client catch _ => return () : Async Unit)
  listen daemon limits server

def call (limits : Limits) (target : Endpoint) (request : Wire.Request) :
    Async (Except TransportError Wire.Response) := do
  let client ← Client.mk
  let dialled ← try within limits.connectMs (client.connect (socketAddress target))
    catch e => return .error (.connectionFailed target (toString e))
  if dialled.isNone then return .error (.timedOut target)
  match Frame.write limits.frameSize request.toBytes with
  | .error e => return .error e
  | .ok frame =>
      let exchange : Async Bytes := do
        client.send ⟨frame.toArray⟩
        receive client limits.frameSize []
      try
        match ← within limits.messageMs exchange with
        | some stream => return Line.readResponse limits.frameSize target stream
        | none => return .error (.timedOut target)
      catch e => return .error (.sendFailed (toString e))

partial def follow (daemon : IO.Ref Daemon) (limits : Limits) (round : Nat) :
    RoundMove → Async (Option (Except RoundError RoundReport))
  | .ended outcome => return some outcome
  | .call request turn => do
      let reply ← call limits turn.target.address request
      match ← step daemon fun now d => d.hear now round turn reply with
      | some move => follow daemon limits round move
      | none => return none

def gossipRound (daemon : IO.Ref Daemon) (limits : Limits) (limit : Nat) : Async Unit := do
  let some (round, move) ← step daemon fun now d => d.beginRound now | return
  let ended := (← within limit (follow daemon limits round move)).getD
    (some (.error (.timedOut limit)))
  let some outcome := ended | return
  daemon.modify fun d => d.endRound round outcome
  match outcome with
  | .ok report => report.failures.forM fun e => IO.eprintln e.message
  | .error e => IO.eprintln e.message

partial def gossip (daemon : IO.Ref Daemon) (limits : Limits) (settings : GossipSettings) :
    Async Unit := do
  background (gossipRound daemon limits settings.roundTimeoutMs)
  sleep (.ofNat settings.intervalMs)
  if (← daemon.get).running then gossip daemon limits settings

def bindTo (server : Server) (address : String) (port : UInt16) :
    IO (Except TransportError Endpoint) := do
  let some ip := Ip.ofText? address.toList
    | return .error (.invalidLimits ("bad address " ++ address))
  try
    server.bind (socketAddress (.ofIp ip port))
    server.listen 1024
    return .ok (endpoint (← server.getSockName))
  catch e => return .error (.invalidLimits (toString e))

def freshKeypair : IO Keypair := do
  let secret ← IO.getRandomBytes 32
  match Keypair.ofBytes secret.data.toList with
  | .ok k => return k
  | .error f => throw (IO.userError f.message)

def scattered (seed : Nat) : Selector :=
  ⟨fun n _ => (hash (seed, n)).toNat, 0⟩

def fail (message : String) : IO UInt32 := do
  IO.eprintln ("gossipd failed: " ++ message)
  return 1

def run (o : Options) : Async UInt32 := do
  let server ← Server.mk
  let bound ← bindTo server o.bind o.port
  -- The store lives as long as the process.
  let place := o.dataDir.map fun _ => Store.Place.nothing
  let selector := scattered (← IO.rand 0 0x40000000)
  match Daemon.start o (fun _ _ => bound) place (← freshKeypair) selector (← wallClock) with
  | .error e => fail e.message
  | .ok d =>
      let interrupted ← Signal.Waiter.mk .sigint false
      let interrupt ← interrupted.wait
      let daemon ← IO.mkRef d
      background (listen daemon o.limits server)
      background (gossip daemon o.limits o.gossip)
      discard (await interrupt)
      let left ← daemon.modifyGet fun d => (d.interrupt, d.interrupt)
      let saved := (left.stop.map Store.peerCount).getD 0
      IO.eprintln ("gossipd stopped with " ++ Numeral.decimal saved ++ " peers saved")
      return 0

def runWith (args : List String) : IO UInt32 := do
  match Options.read args with
  | .error .helpWanted =>
      IO.println Options.usage
      return 0
  | .error f =>
      IO.eprintln ("error: " ++ f.message)
      return 2
  | .ok o =>
      let secret ← IO.getEnv "GOSSIPD_SECRET_KEY"
      (run { o with secretKey := o.secretKey.or secret }).block

end Epidemic.Daemon

def main (args : List String) : IO UInt32 :=
  Epidemic.Daemon.runWith args
