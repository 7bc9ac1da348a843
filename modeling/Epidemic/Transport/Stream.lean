import Epidemic.Exchange
import Epidemic.Transport.Frame

namespace Epidemic

open Wire (Syn SynAck Ack Request Response)

structure Service (σ : Type) where
  synchronize : Syn → σ → SynAck × σ
  acknowledge : Ack → σ → σ

def Member.service (now : Instant) : Service Member where
  synchronize syn m :=
    let (m, answer) := m.answer now syn
    (answer, m)
  acknowledge ack m := m.absorb now ack

namespace Service

variable {σ : Type}

def respond (service : Service σ) (request : Request) (s : σ) : Response × σ :=
  match request with
  | .synchronize syn =>
      let (answer, s) := service.synchronize syn s
      (.synAck answer, s)
  | .acknowledge ack => (.empty, service.acknowledge ack s)

def respondTo (service : Service σ) (payload : Bytes) (s : σ) : Response × σ :=
  match Request.ofBytes? payload with
  | some request => service.respond request s
  | none => (.rejected MessageFault.undecodable.message, s)

def serve (service : Service σ) (limit : Nat) (stream : Bytes) (s : σ) : Bytes × σ :=
  match (Frame.read limit stream).1 with
  | .error _ => ([], s)
  | .ok payload =>
      let (response, s) := service.respondTo payload s
      match Frame.write limit response.toBytes with
      | .ok frame => (frame, s)
      | .error _ => ([], s)

end Service

inductive Line (σ : Type) where
  | refused (cause : String)
  | silent
  | served (serve : Bytes → σ → Bytes × σ)

namespace Line

variable {σ : Type}

def readResponse (limit : Nat) (target : Endpoint) (stream : Bytes) :
    Except TransportError Response :=
  match (Frame.read limit stream).1 with
  | .error e => .error e
  | .ok payload =>
      match Response.ofBytes? payload with
      | none => .error (.content .undecodable)
      | some (.rejected reason) => .error (.rejected target reason)
      | some response => .ok response

def call (line : Line σ) (limit : Nat) (target : Endpoint) (request : Request) (s : σ) :
    Except TransportError Response × σ :=
  match line with
  | .refused cause => (.error (.connectionFailed target cause), s)
  | .silent =>
      match Frame.write limit request.toBytes with
      | .error e => (.error e, s)
      | .ok _ => (.error (.timedOut target), s)
  | .served serve =>
      match Frame.write limit request.toBytes with
      | .error e => (.error e, s)
      | .ok frame =>
          let (stream, s) := serve frame s
          (readResponse limit target stream, s)

def synchronize (line : Line σ) (limit : Nat) (target : Endpoint) (syn : Syn) (s : σ) :
    Except TransportError SynAck × σ :=
  match line.call limit target (.synchronize syn) s with
  | (.ok (.synAck answer), s) => (.ok answer, s)
  | (.ok other, s) => (.error (.content (.unexpected other)), s)
  | (.error e, s) => (.error e, s)

def acknowledge (line : Line σ) (limit : Nat) (target : Endpoint) (ack : Ack) (s : σ) :
    Except TransportError Unit × σ :=
  match line.call limit target (.acknowledge ack) s with
  | (.ok .empty, s) => (.ok (), s)
  | (.ok other, s) => (.error (.content (.unexpected other)), s)
  | (.error e, s) => (.error e, s)

end Line

end Epidemic
