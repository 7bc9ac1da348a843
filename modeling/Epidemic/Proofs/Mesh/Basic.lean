import Epidemic.Bootstrap
import Epidemic.Proofs.Interleaving.Messages

namespace Epidemic

def Activity.sends : Activity → Option Message
  | .awaiting _ _ body => some (.syn body)
  | .ended (some (.answered answer)) => some (.answer answer)
  | .ended (some (.exchanged _ (some ack))) => some (.ack ack)
  | _ => none

def Message.job? : Message → Option Job
  | .syn body => some (.serveSyn body)
  | .answer _ => none
  | .ack body => some (.serveAck body)

inductive Placement where
  | insert (p : Peer)
  | update (p : Peer)
  | refresh (f : Refresher)
  | restart (owned : Peer) (snapshot : List Peer)

def Registry.place (r : Registry) (now : Instant) : Placement → Registry × List Peer
  | .insert p =>
      match r.insert p with
      | .ok after => (after, [p])
      | .error _ => (r, [])
  | .update p =>
      match r.update p with
      | .ok after => (after, [p])
      | .error _ => (r, [])
  | .refresh f =>
      match f.refresh now r with
      | .ok (p, after) => (after, [p])
      | .error _ => (r, [])
  | .restart owned snapshot =>
      if owned.key = r.selfKey then
        let after := (Registry.ofSelf owned).restore snapshot
        (after, after.list)
      else (r, [])

namespace Registry

variable {r after : Registry} {p q : Peer}

theorem selfKey_restore (r : Registry) (ps : List Peer) : (r.restore ps).selfKey = r.selfKey := by
  induction ps generalizing r with
  | nil => rfl
  | cons p ps ih =>
      cases stored : r.insert p with
      | ok after =>
          simp only [restore, stored, ih]
          exact (insert_ok stored).2.1
      | error e => simp only [restore, stored, ih]

structure Places (r after : Registry) (placed : List Peer) : Prop where
  selfKey : after.selfKey = r.selfKey
  stored : ∀ q ∈ after.list, q ∈ r.list ∨ ∃ p ∈ placed, q.toRemote = p.toRemote
  own : ∀ p ∈ placed, p.key = r.selfKey → after.owned.toRemote = p.toRemote

theorem Places.renewed {placed : List Peer} (h : Places r after placed) :
    after.owned = r.owned ∨
      ∃ p ∈ placed, p.key = r.selfKey ∧ after.owned.generated = p.generated := by
  have own : after.owned.key = r.selfKey := after.sound.key_owned.trans h.selfKey
  rcases h.stored after.owned (List.mem_cons_self ..) with old | ⟨p, hp, same⟩
  · exact .inl (eq_owned_of_key old own)
  · exact .inr ⟨p, hp, (congrArg Peer.key same.symm :).trans own,
      (congrArg Peer.generated same :)⟩

theorem Places.refused (r : Registry) : Places r r [] :=
  ⟨rfl, fun _ hq => .inl hq, by simp⟩

theorem Places.inserted (h : r.insert p = .ok after) : Places r after [p] := by
  obtain ⟨absent, selfKey, list⟩ := insert_ok h
  refine ⟨selfKey, fun q hq => ?_, fun q hq own => ?_⟩
  · rcases List.mem_append.mp (list ▸ hq) with old | new
    · exact .inl old
    · rw [List.mem_singleton.mp new]
      exact .inr ⟨p, List.mem_singleton_self p, rfl⟩
  · rw [List.mem_singleton.mp hq] at own
    exact absurd (own ▸ r.sound.selfKey_mem_keys) absent

theorem Places.updated (h : r.update p = .ok after) : Places r after [p] := by
  obtain ⟨q, same, selfKey, list⟩ := update_ok h
  refine ⟨selfKey, fun x hx => ?_, fun x hx own => ?_⟩
  · obtain ⟨y, hy, rfl⟩ := List.mem_map.mp (list ▸ hx)
    split
    · exact .inr ⟨p, List.mem_singleton_self p, same⟩
    · exact .inl hy
  · obtain rfl := List.mem_singleton.mp hx
    have first : after.owned = if r.owned.key = x.key then q else r.owned := (List.cons.inj list).1
    rw [if_pos (r.sound.key_owned.trans own.symm)] at first
    rw [first, same]

theorem places (r : Registry) (now : Instant) (how : Placement) :
    Places r (r.place now how).1 (r.place now how).2 := by
  cases how with
  | insert p =>
      cases stored : r.insert p with
      | ok after => simpa only [place, stored] using .inserted stored
      | error e => simpa only [place, stored] using .refused r
  | update p =>
      cases stored : r.update p with
      | ok after => simpa only [place, stored] using .updated stored
      | error e => simpa only [place, stored] using .refused r
  | refresh f =>
      cases made : f.refresh now r with
      | ok result =>
          simpa only [place, made] using .updated (Refresher.update_of_refresh made).1
      | error e => simpa only [place, made] using .refused r
  | restart owned snapshot =>
      by_cases own : owned.key = r.selfKey
      · simp only [place, if_pos own]
        have selfKey := (selfKey_restore (ofSelf owned) snapshot).trans own
        refine ⟨selfKey, fun q hq => .inr ⟨q, hq, rfl⟩, fun p hp key => ?_⟩
        rw [eq_owned_of_key hp (key.trans selfKey.symm)]
      · simpa only [place, if_neg own] using .refused r

end Registry

inductive Deed (size : Nat) where
  | tick (now : Instant)
  | contact (i : Fin size) (target : Target)
  | serve (i : Fin size) (n : Nat)
  | hear (i : Fin size) (j n : Nat)
  | advance (i : Fin size) (j : Nat)
  | cancel (i : Fin size) (j : Nat)
  | place (i : Fin size) (how : Placement)

theorem Deed.message_or_place {size : Nat} (d : Deed size) :
    (∀ i how, d ≠ .place i how) ∨ ∃ i how, d = .place i how := by
  cases d with
  | place i how => exact .inr ⟨i, how, rfl⟩
  | _ => exact .inl (by simp)

def Pool.withRegistry (p : Pool) (r : Registry) : Pool :=
  ⟨⟨r, p.member.notifier⟩, p.activities, p.history⟩

structure Mesh (size : Nat) where
  clock : Instant
  pools : Fin size → Pool
  sent : List Message
  placed : List (Fin size × Peer)

namespace Mesh

variable {size : Nat}

def registry (w : Mesh size) (i : Fin size) : Registry :=
  (w.pools i).member.registry

def start (clock : Instant) (members : Fin size → Member) : Mesh size where
  clock := clock
  pools i := .of (members i)
  sent := []
  placed := (List.finRange size).flatMap fun i => (members i).registry.list.map fun p => (i, p)

def setPool (w : Mesh size) (i : Fin size) (p : Pool) : Mesh size :=
  { w with pools := Function.update w.pools i p }

def work (w : Mesh size) (i : Fin size) (e : Event) : Mesh size :=
  w.setPool i ((w.pools i).step e)

def sends (w : Mesh size) (i : Fin size) (j : Nat) : List Message :=
  ((w.pools i).activities[j]?.bind Activity.sends).toList

def step (w : Mesh size) : Deed size → Mesh size
  | .tick now => { w with clock := now }
  | .contact i target => w.work i (.start (.exchange target))
  | .serve i n =>
      match w.sent[n]?.bind Message.job? with
      | some job => w.work i (.start job)
      | none => w
  | .hear i j n =>
      match w.sent[n]? with
      | some (.answer body) => w.work i (.hear j body)
      | _ => w
  | .advance i j =>
      let after := w.work i (.advance j w.clock)
      { after with sent := w.sent ++ after.sends i j }
  | .cancel i j => w.work i (.cancel j)
  | .place i how =>
      let (registry, placed) := (w.registry i).place w.clock how
      { w.setPool i ((w.pools i).withRegistry registry) with
        placed := w.placed ++ placed.map fun p => (i, p) }

def run (w : Mesh size) (deeds : List (Deed size)) : Mesh size :=
  deeds.foldl step w

variable {w : Mesh size} {i m : Fin size}

theorem pools_setPool (w : Mesh size) (i m : Fin size) (p : Pool) :
    (w.setPool i p).pools m = if m = i then p else w.pools m := by
  simp only [setPool, Function.update_apply]

theorem pools_place (w : Mesh size) (i m : Fin size) (how : Placement) :
    (w.step (.place i how)).pools m =
      if m = i then (w.pools i).withRegistry ((w.registry i).place w.clock how).1 else w.pools m :=
  pools_setPool ..

theorem registry_place (w : Mesh size) (i m : Fin size) (how : Placement) :
    (w.step (.place i how)).registry m =
      if m = i then ((w.registry i).place w.clock how).1 else w.registry m := by
  rw [registry, pools_place]
  split <;> rfl

theorem selfKey_place (w : Mesh size) (i m : Fin size) (how : Placement) :
    ((w.step (.place i how)).registry m).selfKey = (w.registry m).selfKey := by
  rw [registry_place]
  split
  · rename_i same
    rw [((w.registry i).places w.clock how).selfKey, same]
  · rfl

theorem mem_placed_place {how : Placement} {a : Fin size × Peer} :
    a ∈ (w.step (.place i how)).placed ↔
      a ∈ w.placed ∨ ∃ p ∈ ((w.registry i).place w.clock how).2, (i, p) = a := by
  simp only [step, List.mem_append, List.mem_map]

theorem mem_placed_start {clock : Instant} {members : Fin size → Member} {p : Peer} :
    (i, p) ∈ (start clock members).placed ↔ p ∈ (members i).registry.list := by
  simp [start]

end Mesh

end Epidemic
