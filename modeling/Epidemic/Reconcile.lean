import Epidemic.Notifier
import Epidemic.Registry

namespace Epidemic

structure Member where
  registry : Registry
  notifier : Notifier

structure Reconciled where
  inserted : List Key := []
  replaced : Nat := 0
  unchanged : Nat := 0
  skippedSelf : Nat := 0
  notified : Nat := 0
  deriving DecidableEq, Repr

namespace Reconciled

def changed (r : Reconciled) : Bool :=
  !r.inserted.isEmpty || 0 < r.replaced

def record (r : Reconciled) (key : Key) : Registry.Outcome → Reconciled
  | .inserted => { r with inserted := r.inserted ++ [key] }
  | .replaced => { r with replaced := r.replaced + 1 }
  | .unchanged => { r with unchanged := r.unchanged + 1 }
  | .rejectedSelf => { r with skippedSelf := r.skippedSelf + 1 }

end Reconciled

def Registry.offer (r : Registry) (now : Instant) (allowInsert : Bool) (candidate : Peer) :
    Registry × Registry.Outcome :=
  r.merge candidate allowInsert fun c s => c.supersedes s now

def Registry.offerAll (now : Instant) (allowInsert : Bool) (r : Registry) (report : Reconciled) :
    List Peer → Registry × Reconciled
  | [] => (r, report)
  | c :: cs =>
      let (r, outcome) := r.offer now allowInsert c
      r.offerAll now allowInsert (report.record c.key outcome) cs

namespace Member

def apply (m : Member) (now : Instant) (allowInsert : Bool) (candidates : List Peer) :
    Member × Reconciled :=
  let (registry, report) := m.registry.offerAll now allowInsert {} candidates
  let (notifier, taken) := m.notifier.notifyAll report.inserted
  (⟨registry, notifier⟩, { report with notified := taken })

def reconcile (m : Member) (now : Instant) (candidates : List Peer) : Member × Reconciled :=
  m.apply now true candidates

def refreshKnown (m : Member) (now : Instant) (candidates : List Peer) : Member × Reconciled :=
  m.apply now false candidates

end Member

end Epidemic
