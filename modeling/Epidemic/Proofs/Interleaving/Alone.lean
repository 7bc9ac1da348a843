import Epidemic.Proofs.Interleaving.Activity
import Epidemic.Proofs.Reconcile.Batch

namespace Epidemic.Pool

open Activity
open Wire (Record Syn SynAck Ack)

theorem notified_offerAll (r : Registry) (now : Instant) (allowInsert : Bool) (report : Reconciled)
    (cs : List Peer) : (r.offerAll now allowInsert report cs).2.notified = report.notified := by
  induction cs generalizing r report with
  | nil => rfl
  | cons c cs ih =>
      rw [Registry.offerAll_cons, ih]
      cases (r.offer now allowInsert c).2 <;> rfl

namespace Leads

variable (now : Instant) (m : Member)

theorem merging (allowInsert : Bool) (cs : List Peer) (r : Registry) (n : Notifier)
    (report : Reconciled) (next : Sequel) :
    let batch := r.offerAll now allowInsert report cs
    Leads now ⟨r, n⟩ (.merging allowInsert cs report next) ⟨batch.1, n⟩
      (.notifying batch.2.inserted batch.2 next) := by
  induction cs generalizing r report with
  | nil => exact .head .refl
  | cons c cs ih => exact .head (ih _ _)

theorem notifying (r : Registry) (n : Notifier) (ks : List Key) (report : Reconciled)
    (next : Sequel) :
    Leads now ⟨r, n⟩ (.notifying ks report next) ⟨r, (n.notifyAll ks).1⟩
      (.following { report with notified := report.notified + (n.notifyAll ks).2 } next) := by
  induction ks generalizing n report with
  | nil => exact .head .refl
  | cons k ks ih =>
      refine .head ?_
      simp only [Activity.advance, Notifier.notifyAll]
      rcases n.notify k with ⟨after, _ | _⟩
      · exact .refl
      · simp only [Nat.add_comm _ 1, ← Nat.add_assoc]
        exact ih _ _

theorem batch (allowInsert : Bool) (cs : List Peer) (next : Sequel) :
    Leads now m (.merging allowInsert cs {} next) (m.apply now allowInsert cs).1
      (.ended (some (next.follow now (m.apply now allowInsert cs).1.registry
        (m.apply now allowInsert cs).2))) := by
  have stored := merging now allowInsert cs m.registry m.notifier {} next
  have told := notifying now (m.registry.offerAll now allowInsert {} cs).1 m.notifier
    (m.registry.offerAll now allowInsert {} cs).2.inserted
    (m.registry.offerAll now allowInsert {} cs).2 next
  rw [notified_offerAll, Nat.zero_add] at told
  exact (stored.trans told).trans (.head .refl)

theorem reconcile (cs : List Peer) :
    Leads now m (Job.reconcile cs).activity (m.reconcile now cs).1
      (.ended (some (.reconciled (m.reconcile now cs).2))) :=
  batch now m true cs .report

theorem refreshKnown (cs : List Peer) :
    Leads now m (Job.refreshKnown cs).activity (m.refreshKnown now cs).1
      (.ended (some (.reconciled (m.refreshKnown now cs).2))) :=
  batch now m false cs .report

theorem serveAck (body : Ack) :
    Leads now m (Job.serveAck body).activity (m.absorb now body)
      (.ended (some (.reconciled (m.reconcile now (Record.toPeers body.details)).2))) :=
  batch now m true (Record.toPeers body.details) .report

theorem serveSyn (body : Syn) :
    Leads now m (Job.serveSyn body).activity (m.answer now body).1
      (.ended (some (.answered (m.answer now body).2))) :=
  .head (batch now m false (m.registry.sort body).refresh (.reply body (m.registry.sort body)))

theorem opening (target : Target) :
    Leads now m (Job.exchange target).activity m
      (.awaiting target m.registry.owned (m.registry.opening now target)) :=
  .head (.head .refl)

theorem learn (target : Target) (owned : Peer) (body : Syn) (answer : SynAck) :
    Leads now m ((Activity.awaiting target owned body).hear answer)
      (m.learn now target owned answer).1
      (.ended (some (.exchanged (m.learn now target owned answer).2.1
        (m.learn now target owned answer).2.2))) :=
  batch now m true (Record.toPeers answer.fresh) (.close target owned answer)

end Leads

theorem run_exchange (m : Member) (now : Instant) (target : Target) (answer : SynAck) :
    let learned := m.learn now target m.registry.owned answer
    ∃ i j history,
      (of m).run (.start (.exchange target) :: List.replicate i (.advance 0 now) ++
        .hear 0 answer :: List.replicate j (.advance 0 now)) =
      ⟨learned.1, [.ended (some (.exchanged learned.2.1 learned.2.2))], history⟩ := by
  intro learned
  obtain ⟨i, between, opened⟩ := Leads.opening now m target []
  obtain ⟨j, history, ended⟩ := Leads.learn now m target m.registry.owned
    (m.registry.opening now target) answer between
  refine ⟨i, j, history, ?_⟩
  have begun : (of m).run (.start (.exchange target) :: List.replicate i (.advance 0 now)) = _ :=
    opened
  rw [run_append, begun]
  exact ended

end Epidemic.Pool
