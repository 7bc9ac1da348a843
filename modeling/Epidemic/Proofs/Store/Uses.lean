import Epidemic.Proofs.Store.Snapshot

namespace Epidemic

namespace Store

inductive Use where
  | save (peers : List Peer)
  | load
  | keypair (fresh : Keypair)
  | stats
  | flush
  | reopen
  deriving DecidableEq, Repr

inductive Reply where
  | saved (count : Nat)
  | loaded (answer : Except Fault (List Peer))
  | keypair (answer : Except Fault Keypair)
  | counted (peers : Nat)
  | flushed
  | opened (answer : Except Fault Store)
  deriving DecidableEq, Repr

def use (s : Store) : Use → Store × Reply
  | .save ps => ((s.save ps).1, .saved (s.save ps).2)
  | .load => (s, .loaded s.load)
  | .keypair fresh => ((s.keypair fresh).1, .keypair (s.keypair fresh).2)
  | .stats => (s, .counted s.peerCount)
  | .flush => (s, .flushed)
  | .reopen => ((openAt (.directory s)).toOption.getD s, .opened (openAt (.directory s)))

def after (s : Store) (us : List Use) : Store :=
  us.foldl (fun s u => (s.use u).1) s

def answer (us : List Use) (u : Use) : Reply :=
  ((empty.after us).use u).2

def Use.saved? : Use → Option (List Peer)
  | .save ps => some ps
  | _ => none

def Use.fresh? : Use → Option Keypair
  | .keypair fresh => some fresh
  | _ => none

def lastSaved (us : List Use) : List Peer :=
  (us.reverse.findSome? Use.saved?).getD []

def firstKeypair? (us : List Use) : Option Keypair :=
  us.findSome? Use.fresh?

variable {s : Store} {ps : List Peer} {kept : Option Keypair}

def Keeps (s : Store) (kept : Option Keypair) : Prop :=
  s.get? secretKey = kept.map Keypair.secret

theorem keeps_empty : empty.Keeps none :=
  rfl

theorem Keeps.keypair_eq (h : s.Keeps kept) (fresh : Keypair) :
    (s.keypair fresh).2 = .ok (kept.getD fresh) ∧
      (s.keypair fresh).1.Keeps (kept.or (some fresh)) := by
  rw [Keeps] at h
  cases kept with
  | none =>
      rw [keypair, h]
      exact ⟨rfl, by simp [Keeps, get?_put]⟩
  | some k =>
      have read : Keypair.ofBytes k.secret = .ok k := dif_pos k.size_secret
      rw [keypair, h]
      simp only [Option.map_some, read]
      exact ⟨rfl, h⟩

theorem Keeps.use (h : s.Keeps kept) (u : Use) : (s.use u).1.Keeps (kept.or u.fresh?) := by
  cases u with
  | save ps =>
      refine (get?_save_of_not_peerKey s ps isPeerKey_secretKey).trans (h.trans ?_)
      exact congrArg (Option.map _) Option.or_none.symm
  | keypair fresh => exact (h.keypair_eq fresh).2
  | load | stats | flush | reopen => exact Option.or_none.symm ▸ h

theorem Keeps.after (h : s.Keeps kept) (us : List Use) :
    (s.after us).Keeps (kept.or (us.findSome? Use.fresh?)) := by
  induction us generalizing s kept with
  | nil => exact Option.or_none.symm ▸ h
  | cons u us ih =>
      have split : kept.or ((u :: us).findSome? Use.fresh?) =
          (kept.or u.fresh?).or (us.findSome? Use.fresh?) := by
        rw [Option.or_assoc, List.findSome?_cons]
        cases u.fresh? <;> rfl
      rw [split]
      exact ih (h.use u)

theorem Holds.keypair (h : s.Holds ps) (fresh : Keypair) : (s.keypair fresh).1.Holds ps := by
  intro k
  rw [Store.keypair]
  split
  · exact h k
  · rw [get?_put, if_neg (peerKey_ne_secretKey k)]
    exact h k

theorem Holds.use (h : s.Holds ps) (u : Use) : (s.use u).1.Holds (u.saved?.getD ps) := by
  cases u with
  | save ps' => exact holds_save s ps'
  | keypair fresh => exact h.keypair fresh
  | load | stats | flush | reopen => exact h

theorem Holds.after (h : s.Holds ps) (us : List Use) :
    (s.after us).Holds ((us.reverse.findSome? Use.saved?).getD ps) := by
  induction us generalizing s ps with
  | nil => exact h
  | cons u us ih =>
      have split : ((u :: us).reverse.findSome? Use.saved?).getD ps =
          (us.reverse.findSome? Use.saved?).getD (u.saved?.getD ps) := by
        rw [List.reverse_cons, List.findSome?_append, Option.getD_or]
        cases saved : u.saved? <;> simp [saved]
      rw [split]
      exact ih (h.use u)

theorem answers_recall (us : List Use) :
    (∃ kept, IsLatest (lastSaved us) kept ∧ answer us .stats = .counted kept.length ∧
        ((∀ p ∈ lastSaved us, p.Storable) →
          answer us .load = .loaded (.ok (kept.map Peer.stored)))) ∧
      (∀ ps, answer us (.save ps) = .saved (ps.filter fun p => !p.isSelf).length) ∧
      ∀ fresh, answer us (.keypair fresh) = .keypair (.ok ((firstKeypair? us).getD fresh)) := by
  have holds : (empty.after us).Holds (lastSaved us) := holds_empty.after us
  have keeps : (empty.after us).Keeps (firstKeypair? us) := keeps_empty.after us
  refine ⟨?_, fun ps => rfl, fun fresh => ?_⟩
  · obtain ⟨kept, latest, count, load⟩ := holds.load_eq
    exact ⟨kept, latest, congrArg Reply.counted count,
      fun storable => congrArg Reply.loaded (load storable)⟩
  · exact congrArg Reply.keypair (keeps.keypair_eq fresh).1

theorem answers_recall_mixed :
    let first : Keypair := ⟨List.replicate 32 1, rfl⟩
    let second : Keypair := ⟨List.replicate 32 2, rfl⟩
    let p (k : Bytes) (seconds : Int) (scope : UInt32) : Peer :=
      ⟨⟨k⟩, .v6 ⟨[0xfe80, 0, 0, 0, 0, 0, 0, 1], rfl⟩ 7000 0 scope, ⟨seconds, 5⟩, false, none⟩
    let us : List Use :=
      [.save [p [9] 0 0], .keypair first, .reopen,
        .save [p [2] 1 3, p [] 2 0, (p [7] 3 0).toSelf, p [2] 4 5], .flush, .keypair second]
    (∃ loaded, answer us .load = .loaded (.ok loaded) ∧ p [] 2 0 ∈ loaded ∧ p [2] 4 0 ∈ loaded ∧
        answer us .stats = .counted loaded.length) ∧
      answer us (.save [p [2] 1 3, (p [7] 3 0).toSelf, p [2] 4 5]) = .saved 2 ∧
      answer us (.keypair second) = .keypair (.ok first) := by
  intro first second p us
  obtain ⟨⟨kept, latest, counted, load⟩, save, pair⟩ := answers_recall us
  have empty : p [] 2 0 ∈ kept := (latest.mem_iff _).mpr (by decide)
  have twice : p [2] 4 5 ∈ kept := (latest.mem_iff _).mpr (by decide)
  refine ⟨⟨_, load (by decide +kernel), ?_, ?_, ?_⟩, save _, pair second⟩
  · exact List.mem_map.mpr ⟨_, empty, by decide⟩
  · exact List.mem_map.mpr ⟨_, twice, by decide⟩
  · rw [List.length_map]
    exact counted

theorem answers_recall_respelled :
    let p (seconds : Int) (nanos : Nat) : Peer :=
      ⟨⟨[2]⟩, .v4 ⟨10, 0, 0, 2⟩ 7000, ⟨seconds, nanos⟩, false, none⟩
    let us : List Use := [.save [p 30 1500000000]]
    (p 30 1500000000).Storable ∧ lastRemote? (lastSaved us) ⟨[2]⟩ = some (p 30 1500000000) ∧
      answer us .load = .loaded (.ok [p 31 500000000]) ∧
      p 31 500000000 ≠ p 30 1500000000 := by
  decide +kernel

end Store

end Epidemic
