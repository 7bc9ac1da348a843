import Epidemic.Reconcile
import Epidemic.Wire.Message

namespace Epidemic

open Wire (Record Syn SynAck Ack)

structure Target where
  address : Endpoint
  peer : Option Peer
  deriving DecidableEq, Repr

namespace Target

def seed (address : Endpoint) : Target :=
  ⟨address, none⟩

def ofPeer (p : Peer) : Target :=
  ⟨p.address, some p⟩

def record (t : Target) (now : Instant) : Record :=
  match t.peer with
  | some p => Record.ofPeer now p
  | none => Record.ofAddress t.address now

end Target

inductive ExchangeState where
  | idle
  | synSent
  | ackEvaluated
  | detailSent
  | done
  | failed
  deriving DecidableEq, Repr

structure ExchangeReport where
  target : Endpoint
  state : ExchangeState
  learned : Reconciled
  requested : Nat
  sent : Nat
  deriving DecidableEq, Repr

def Target.opening (t : Target) (now : Instant) (owned : Peer) (known : List Peer) : Syn where
  initiator := Record.ofPeer now owned
  receiver := t.record now
  known := Record.ofPeers now known

def Registry.opening (r : Registry) (now : Instant) (t : Target) : Syn :=
  t.opening now r.owned r.list

def Wire.SynAck.wantedKeys (answer : SynAck) : List Key :=
  (answer.wanted.map fun r => Key.mk r.key).eraseDups

def Registry.details (r : Registry) (wanted : List Key) : List Peer :=
  r.list.filter fun p => p.key ∈ wanted && p.isDiscovered

def Registry.conclude (r : Registry) (now : Instant) (t : Target) (owned : Peer) (answer : SynAck)
    (learned : Reconciled) : ExchangeReport × Option Ack :=
  let wanted := answer.wantedKeys
  let details := r.details wanted
  let ack :=
    if details.isEmpty then none
    else
      some
        { initiator := Record.ofPeer now owned
          receiver := answer.receiver
          details := Record.ofPeers now details }
  (⟨t.address, .done, learned, wanted.length, details.length⟩, ack)

structure Sorted where
  teach : List Peer
  unknown : List Peer
  refresh : List Peer
  deriving DecidableEq, Repr

def Registry.sort (r : Registry) (syn : Syn) : Sorted :=
  let received := Record.toPeers syn.known
  let unknown := missingFrom r.list received
  { teach := missingFrom received r.list
    unknown := unknown
    refresh := received.filter fun p => !unknown.any fun q => q.key = p.key }

def Sorted.reply (s : Sorted) (now : Instant) (owned : Peer) (syn : Syn) : SynAck where
  initiator := syn.initiator
  receiver := Record.ofPeer now owned
  fresh := Record.ofPeers now s.teach
  wanted := Record.ofPeers now s.unknown

namespace Member

def learn (m : Member) (now : Instant) (t : Target) (owned : Peer) (answer : SynAck) :
    Member × ExchangeReport × Option Ack :=
  let (m, learned) := m.reconcile now (Record.toPeers answer.fresh)
  (m, m.registry.conclude now t owned answer learned)

def answer (m : Member) (now : Instant) (syn : Syn) : Member × SynAck :=
  let sorted := m.registry.sort syn
  let (m, _) := m.refreshKnown now sorted.refresh
  (m, sorted.reply now m.registry.owned syn)

def absorb (m : Member) (now : Instant) (ack : Ack) : Member :=
  (m.reconcile now (Record.toPeers ack.details)).1

end Member

end Epidemic
