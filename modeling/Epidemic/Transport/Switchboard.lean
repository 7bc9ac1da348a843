import Epidemic.Transport.Stream

namespace Epidemic

open Wire (Syn SynAck Ack)

structure Switchboard (σ : Type) where
  services : List (Endpoint × Service σ)
  unreachable : List Endpoint := []

namespace Switchboard

variable {σ : Type}

def service (b : Switchboard σ) (target : Endpoint) : Except TransportError (Service σ) :=
  if target ∈ b.unreachable then .error (.unreachable target)
  else
    match b.services.lookup target with
    | some s => .ok s
    | none => .error (.connectionFailed target "no route")

def synchronize (b : Switchboard σ) (target : Endpoint) (syn : Syn) (s : σ) :
    Except TransportError SynAck × σ :=
  match b.service target with
  | .error e => (.error e, s)
  | .ok service =>
      let (answer, s) := service.synchronize syn s
      (.ok answer, s)

def acknowledge (b : Switchboard σ) (target : Endpoint) (ack : Ack) (s : σ) :
    Except TransportError Unit × σ :=
  match b.service target with
  | .error e => (.error e, s)
  | .ok service => (.ok (), service.acknowledge ack s)

end Switchboard

end Epidemic
