import Epidemic.Exchange
import Epidemic.Refresh
import Epidemic.Selector
import Epidemic.Time.Span
import Epidemic.Transport.Error

namespace Epidemic

inductive FailurePolicy where
  | abortRound
  | isolateTargets
  deriving DecidableEq, Repr

structure GossipSettings where
  intervalMs : Nat := 1000
  roundTimeoutMs : Nat := 10000
  policy : FailurePolicy := .abortRound
  deriving DecidableEq, Repr

inductive RoundError where
  | noSeeds
  | network (target : Endpoint) (cause : TransportError)
  | timedOut (limitMs : Nat)
  deriving DecidableEq, Repr

def RoundError.message : RoundError → String
  | .noSeeds => "No seed peers configured"
  | .network target cause => "Exchange with " ++ target.text ++ " failed: " ++ cause.message
  | .timedOut limit => "Round timed out after " ++ Span.text limit

structure RoundReport where
  targets : List Endpoint
  exchanges : List ExchangeReport := []
  failures : List RoundError := []
  deriving DecidableEq, Repr

def RoundReport.isClean (r : RoundReport) : Bool :=
  r.failures.isEmpty

structure RoundStats where
  started : Nat := 0
  completed : Nat := 0
  failed : Nat := 0
  exchanges : Nat := 0
  deriving DecidableEq, Repr

def Registry.eligibleSeeds (r : Registry) : List Endpoint :=
  if r.seeds.any (· ≠ r.owned.address) then r.seeds.filter (· ≠ r.owned.address) else r.seeds

def Registry.targets (r : Registry) (s : Selector) : Selector × Except RoundError (List Target) :=
  match s.choose r.eligibleSeeds with
  | (s, none) => (s, .error .noSeeds)
  | (s, some seed) =>
      match s.choose r.known with
      | (s, none) => (s, .ok [.seed seed])
      | (s, some p) => (s, .ok [.seed seed, .ofPeer p])

structure Node where
  member : Member
  refresher : Option Refresher
  selector : Selector
  settings : GossipSettings
  stats : RoundStats := {}

namespace Node

def registry (n : Node) : Registry :=
  n.member.registry

def withRegistry (n : Node) (r : Registry) : Node :=
  { n with member := { n.member with registry := r } }

def refreshed (n : Node) (now : Instant) : Node :=
  match n.refresher with
  | none => n
  | some f =>
      match f.refresh now n.registry with
      | .ok (_, r) => n.withRegistry r
      | .error _ => n

def selectTargets (n : Node) : Node × Except RoundError (List Target) :=
  let (s, targets) := n.registry.targets n.selector
  ({ n with selector := s }, targets)

def prepare (n : Node) (now : Instant) : Node × Except RoundError (List Target) :=
  (n.refreshed now).selectTargets

end Node

end Epidemic
