import Epidemic.Peer

namespace Epidemic

namespace Registry

inductive Fault where
  | cannotAddSelf
  | cannotOverwriteSelf
  | alreadyKnown (key : Key)
  | peerNotFound (key : Key)
  deriving DecidableEq, Repr

def Fault.message : Fault → String
  | .cannotAddSelf => "Cannot add self as a peer"
  | .cannotOverwriteSelf => "Self peer can only be replaced by a self record"
  | .alreadyKnown k => "Peer " ++ k.short ++ " already known"
  | .peerNotFound k => "Peer " ++ k.short ++ " not found"

inductive Outcome where
  | inserted
  | replaced
  | unchanged
  | rejectedSelf
  deriving DecidableEq, Repr

structure Stats where
  total : Nat
  discovered : Nat
  undiscovered : Nat
  seeds : Nat
  deriving DecidableEq, Repr

end Registry

open Registry (Fault Outcome)

structure Roster where
  selfKey : Key
  owned : Peer
  others : List Peer
  index : List (Key × Nat)
  seeds : List Endpoint
  deriving DecidableEq, Repr

namespace Roster

def ofSelf (owned : Peer) : Roster :=
  ⟨owned.key, owned.toSelf, [], [(owned.key, 0)], []⟩

def list (r : Roster) : List Peer :=
  r.owned :: r.others

def keys (r : Roster) : List Key :=
  r.list.map Peer.key

def known (r : Roster) : List Peer :=
  r.list.filter fun p => p.key ≠ r.selfKey

def slot? (r : Roster) (k : Key) : Option Nat :=
  r.index.lookup k

def get? (r : Roster) (k : Key) : Option Peer :=
  (r.slot? k).bind fun i => r.list[i]?

def push (r : Roster) (p : Peer) : Roster :=
  { r with others := r.others ++ [p], index := (p.key, r.list.length) :: r.index }

def put (r : Roster) (p : Peer) : Nat → Roster
  | 0 => { r with owned := p }
  | i + 1 => { r with others := r.others.set i p }

def replace (r : Roster) (p : Peer) : Roster × Bool :=
  match r.slot? p.key with
  | some i => (r.put p i, true)
  | none => (r, false)

def insert (r : Roster) (p : Peer) : Roster × Except Fault Unit :=
  if p.key = r.selfKey then (r, .error .cannotAddSelf)
  else if (r.slot? p.key).isSome then (r, .error (.alreadyKnown p.key))
  else (r.push p.toRemote, .ok ())

def admissible (r : Roster) (p : Peer) : Except Fault Peer :=
  if p.key = r.selfKey then if p.isSelf then .ok p else .error .cannotOverwriteSelf
  else .ok p.toRemote

def update (r : Roster) (p : Peer) : Roster × Except Fault Unit :=
  match r.admissible p with
  | .error e => (r, .error e)
  | .ok q =>
      match r.replace q with
      | (r, true) => (r, .ok ())
      | (r, false) => (r, .error (.peerNotFound p.key))

def merge (r : Roster) (candidate : Peer) (allowInsert : Bool) (rule : Peer → Peer → Bool) :
    Roster × Outcome :=
  if candidate.key = r.selfKey then (r, .rejectedSelf)
  else
    match (r.get? candidate.key).map (rule candidate.toRemote) with
    | some true => ((r.replace candidate.toRemote).1, .replaced)
    | some false => (r, .unchanged)
    | none => if allowInsert then (r.push candidate.toRemote, .inserted) else (r, .unchanged)

def addSeed (r : Roster) (seed : Endpoint) : Roster :=
  if seed ∈ r.seeds then r else { r with seeds := r.seeds ++ [seed] }

def size (r : Roster) : Nat :=
  r.list.length

def discoveredCount (r : Roster) : Nat :=
  (r.list.filter Peer.isDiscovered).length

def stats (r : Roster) : Registry.Stats :=
  ⟨r.size, r.discoveredCount, r.size - r.discoveredCount, r.seeds.length⟩

@[simp] theorem list_push (r : Roster) (p : Peer) : (r.push p).list = r.list ++ [p] := rfl

@[simp] theorem keys_push (r : Roster) (p : Peer) : (r.push p).keys = r.keys ++ [p.key] := by
  simp [keys]

@[simp] theorem seeds_push (r : Roster) (p : Peer) : (r.push p).seeds = r.seeds := rfl

@[simp] theorem selfKey_push (r : Roster) (p : Peer) : (r.push p).selfKey = r.selfKey := rfl

theorem slot?_push (r : Roster) (p : Peer) (k : Key) :
    (r.push p).slot? k = if k = p.key then some r.list.length else r.slot? k := by
  simp only [slot?, push, List.lookup_cons]
  split <;> simp_all

@[simp] theorem list_put (r : Roster) (p : Peer) (i : Nat) : (r.put p i).list = r.list.set i p := by
  cases i <;> rfl

@[simp] theorem index_put (r : Roster) (p : Peer) (i : Nat) : (r.put p i).index = r.index := by
  cases i <;> rfl

@[simp] theorem seeds_put (r : Roster) (p : Peer) (i : Nat) : (r.put p i).seeds = r.seeds := by
  cases i <;> rfl

@[simp] theorem selfKey_put (r : Roster) (p : Peer) (i : Nat) :
    (r.put p i).selfKey = r.selfKey := by
  cases i <;> rfl

theorem keys_put {r : Roster} {p : Peer} {i : Nat} (h : r.keys[i]? = some p.key) :
    (r.put p i).keys = r.keys := by
  simp only [keys, list_put, List.map_set]
  apply List.ext_getElem?
  intro j
  rw [List.getElem?_set]
  split
  · rename_i hij
    subst hij
    obtain ⟨hi, _⟩ := List.getElem?_eq_some_iff.mp h
    rw [if_pos (by simpa [keys] using hi)]
    exact h.symm
  · rfl

theorem update_fst (r : Roster) (p : Peer) :
    (r.update p).1 = r ∨ ∃ q, r.admissible p = .ok q ∧ (r.update p).1 = (r.replace q).1 := by
  unfold update
  split
  · exact .inl rfl
  · rename_i q hq
    refine .inr ⟨q, hq, ?_⟩
    split <;> rename_i e <;> simp [e]

structure Sound (r : Roster) : Prop where
  key_owned : r.owned.key = r.selfKey
  isSelf_owned : r.owned.isSelf = true
  isSelf_others : ∀ p ∈ r.others, p.isSelf = false
  nodup_keys : r.keys.Nodup
  slot?_iff : ∀ k i, r.slot? k = some i ↔ r.keys[i]? = some k
  nodup_seeds : r.seeds.Nodup

namespace Sound

variable {r : Roster} {p : Peer} {k : Key}

theorem slot?_isSome_iff (h : r.Sound) : (r.slot? k).isSome ↔ k ∈ r.keys := by
  rw [Option.isSome_iff_exists, List.mem_iff_getElem?]
  exact exists_congr fun i => h.slot?_iff k i

theorem get?_eq_some_iff (h : r.Sound) : r.get? k = some p ↔ p ∈ r.list ∧ p.key = k := by
  simp only [get?, Option.bind_eq_some_iff, h.slot?_iff, keys, List.getElem?_map,
    Option.map_eq_some_iff]
  constructor
  · rintro ⟨i, ⟨q, hq, rfl⟩, hp⟩
    obtain rfl : q = p := by simpa [hq] using hp
    exact ⟨List.mem_of_getElem? hp, rfl⟩
  · rintro ⟨hp, rfl⟩
    obtain ⟨i, hi⟩ := List.mem_iff_getElem?.mp hp
    exact ⟨i, ⟨p, hi, rfl⟩, hi⟩

theorem get?_eq_none_iff (h : r.Sound) : r.get? k = none ↔ k ∉ r.keys := by
  rw [Option.eq_none_iff_forall_ne_some]
  simp only [ne_eq, h.get?_eq_some_iff, keys, List.mem_map, not_exists]

theorem key_ne_selfKey (h : r.Sound) (hp : p ∈ r.others) : p.key ≠ r.selfKey := by
  have hn := h.nodup_keys
  simp only [keys, list, List.map_cons, List.nodup_cons, h.key_owned] at hn
  exact fun e => hn.1 (e ▸ List.mem_map_of_mem hp)

theorem selfKey_mem_keys (h : r.Sound) : r.selfKey ∈ r.keys := by
  simp [keys, list, h.key_owned]

theorem slot?_selfKey (h : r.Sound) : r.slot? r.selfKey = some 0 := by
  rw [h.slot?_iff]
  simp [keys, list, h.key_owned]

theorem ofSelf (owned : Peer) : (ofSelf owned).Sound where
  key_owned := rfl
  isSelf_owned := rfl
  isSelf_others := by simp [Roster.ofSelf]
  nodup_keys := by simp [Roster.ofSelf, keys, list]
  slot?_iff k i := by
    have one : (Roster.ofSelf owned).slot? k = if k = owned.key then some 0 else none := by
      simp only [Roster.ofSelf, slot?, List.lookup_cons]
      split <;> simp_all
    rw [one]
    cases i <;> simp [Roster.ofSelf, keys, list, eq_comm]
  nodup_seeds := by simp [Roster.ofSelf]

theorem push (h : r.Sound) (hp : p.isSelf = false) (hk : p.key ∉ r.keys) : (r.push p).Sound where
  key_owned := h.key_owned
  isSelf_owned := h.isSelf_owned
  isSelf_others := by
    intro q hq
    rcases List.mem_append.mp hq with hq | hq
    · exact h.isSelf_others q hq
    · rw [List.mem_singleton.mp hq, hp]
  nodup_keys := by
    rw [keys_push, List.nodup_append]
    exact ⟨h.nodup_keys, by simp, fun a ha b hb e => hk (by simp_all)⟩
  slot?_iff k i := by
    have size : r.list.length = r.keys.length := by simp [keys]
    rw [slot?_push, keys_push, size]
    split
    · rename_i e
      subst e
      rw [List.getElem?_append]
      split
      · rename_i hi
        have absent : r.keys[i]? ≠ some p.key := fun e => hk (List.mem_of_getElem? e)
        simp only [Option.some.injEq, absent, iff_false]
        omega
      · simp only [Option.some.injEq, List.getElem?_singleton]
        split <;> simp <;> omega
    · rename_i e
      rw [h.slot?_iff, List.getElem?_append]
      split
      · rfl
      · rename_i hi
        rw [List.getElem?_eq_none (Nat.le_of_not_lt hi), List.getElem?_singleton]
        split <;> simp [Ne.symm e]
  nodup_seeds := h.nodup_seeds

theorem put {i : Nat} (h : r.Sound) (hi : r.slot? p.key = some i)
    (hp : p.isSelf = decide (p.key = r.selfKey)) : (r.put p i).Sound := by
  have hk := (h.slot?_iff p.key i).mp hi
  have keys := keys_put hk
  have own : i = 0 ↔ p.key = r.selfKey := by
    constructor
    · rintro rfl
      simpa [Roster.keys, list, h.key_owned, eq_comm] using hk
    · intro e
      rw [e, h.slot?_selfKey] at hi
      exact (Option.some.inj hi).symm
  constructor
  · cases i with
    | zero => simpa [Roster.put] using own.mp rfl
    | succ i => exact h.key_owned
  · cases i with
    | zero => simpa [Roster.put, hp] using own.mp rfl
    | succ i => exact h.isSelf_owned
  · cases i with
    | zero => exact h.isSelf_others
    | succ i =>
        intro q hq
        rcases List.mem_or_eq_of_mem_set hq with hq | rfl
        · exact h.isSelf_others q hq
        · rw [hp, decide_eq_false_iff_not]
          exact fun e => absurd (own.mpr e) (by simp)
  · rw [keys]; exact h.nodup_keys
  · intro k j
    rw [keys, slot?, index_put]
    exact h.slot?_iff k j
  · rw [seeds_put]; exact h.nodup_seeds

theorem replace (h : r.Sound) (hp : p.isSelf = decide (p.key = r.selfKey)) :
    (r.replace p).1.Sound := by
  unfold Roster.replace
  split
  · rename_i i hi; exact h.put hi hp
  · exact h

theorem insert (h : r.Sound) (p : Peer) : (r.insert p).1.Sound := by
  unfold Roster.insert
  split
  · exact h
  · split
    · exact h
    · rename_i hk
      exact h.push rfl (by rwa [h.slot?_isSome_iff] at hk)

theorem update (h : r.Sound) (p : Peer) : (r.update p).1.Sound := by
  obtain e | ⟨q, hq, e⟩ := update_fst r p <;> rw [e]
  · exact h
  · refine h.replace ?_
    simp only [admissible] at hq
    split at hq
    · rename_i hk
      split at hq
      · rename_i hs; cases hq; simp [hk, hs]
      · cases hq
    · rename_i hk; cases hq; simp [hk]

theorem merge (h : r.Sound) (candidate : Peer) (allowInsert : Bool)
    (rule : Peer → Peer → Bool) : (r.merge candidate allowInsert rule).1.Sound := by
  unfold Roster.merge
  split
  · exact h
  · rename_i hk
    split
    · exact h.replace (by simp [hk])
    · exact h
    · rename_i none
      split
      · rw [Option.map_eq_none_iff, h.get?_eq_none_iff] at none
        exact h.push rfl none
      · exact h

theorem addSeed (h : r.Sound) (seed : Endpoint) : (r.addSeed seed).Sound := by
  unfold Roster.addSeed
  split
  · exact h
  · rename_i new
    refine ⟨h.key_owned, h.isSelf_owned, h.isSelf_others, h.nodup_keys, h.slot?_iff, ?_⟩
    rw [List.nodup_append]
    exact ⟨h.nodup_seeds, by simp, fun a ha b hb e => new (by simp_all)⟩

end Sound

end Roster

end Epidemic
