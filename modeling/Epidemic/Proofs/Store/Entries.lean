import Epidemic.Store

namespace Epidemic

namespace Store

variable {s : Store} {es : List (Bytes × Bytes)} {key value : Bytes}

theorem lookup_cons (key : Bytes) {α : Type} (e : Bytes × α) (es : List (Bytes × α)) :
    (e :: es).lookup key = if key = e.1 then some e.2 else es.lookup key := by
  obtain ⟨k, a⟩ := e
  rw [List.lookup_cons]
  split <;> simp_all

theorem lookup_eq_some_iff (h : es.Pairwise fun e f => e.1.Before f.1) :
    es.lookup key = some value ↔ (key, value) ∈ es := by
  induction es with
  | nil => simp
  | cons e es ih =>
      obtain ⟨first, rest⟩ := List.pairwise_cons.mp h
      rw [lookup_cons, List.mem_cons, Prod.ext_iff]
      split
      · rename_i same
        -- a second entry of the key would have to stand before itself
        have once : (key, value) ∉ es := fun again => (first _ again).ne same.symm
        simp [same, eq_comm, same ▸ once]
      · rename_i other
        simp [ih rest, other]

theorem get?_eq_some_iff : s.get? key = some value ↔ (key, value) ∈ s.entries :=
  lookup_eq_some_iff s.ascending

theorem lookup_insertEntry (new : Bytes) (es : List (Bytes × Bytes)) :
    (insertEntry new value es).lookup key = if key = new then some value else es.lookup key := by
  induction es with
  | nil => exact lookup_cons key (new, value) []
  | cons e es ih =>
      simp only [insertEntry]
      split
      · rw [lookup_cons]
      · rename_i same
        obtain rfl := Bytes.eq_of_order_eq same
        rw [lookup_cons, lookup_cons]
        split <;> rfl
      · rename_i after
        have apart := (Bytes.before_of_order_gt after).ne
        rw [lookup_cons, lookup_cons, ih]
        split
        · rename_i same
          rw [if_neg (same ▸ apart)]
        · rfl

theorem get?_put (s : Store) (new value key : Bytes) :
    (s.put new value).get? key = if key = new then some value else s.get? key :=
  lookup_insertEntry new s.entries

theorem get?_delete (s : Store) (old key : Bytes) :
    (s.delete old).get? key = if key = old then none else s.get? key := by
  apply Option.ext
  intro value
  rw [get?_eq_some_iff]
  split <;> simp_all [delete, get?_eq_some_iff]

theorem get?_change (s : Store) (c : Bytes × Option Bytes) (key : Bytes) :
    (s.change c).get? key = if key = c.1 then c.2 else s.get? key := by
  obtain ⟨k, none | value⟩ := c
  · exact get?_delete s k key
  · exact get?_put s k value key

theorem apply_append (s : Store) (cs ds : List (Bytes × Option Bytes)) :
    s.apply (cs ++ ds) = (s.apply cs).apply ds :=
  List.foldl_append

theorem get?_apply (s : Store) (cs : List (Bytes × Option Bytes)) (key : Bytes) :
    (s.apply cs).get? key = (cs.reverse.lookup key).getD (s.get? key) := by
  induction cs generalizing s with
  | nil => rfl
  | cons c cs ih =>
      have step : s.apply (c :: cs) = (s.change c).apply cs := rfl
      rw [step, ih, get?_change, List.reverse_cons, List.lookup_append, lookup_cons]
      cases cs.reverse.lookup key with
      | some _ => rfl
      | none => split <;> rfl

theorem get?_apply_removals (s : Store) (keys : List Bytes) (key : Bytes) :
    (s.apply (keys.map fun k => (k, none))).get? key =
      if key ∈ keys then none else s.get? key := by
  induction keys generalizing s with
  | nil => rfl
  | cons k keys ih =>
      have step : s.apply ((k :: keys).map fun k => (k, none)) =
          (s.change (k, none)).apply (keys.map fun k => (k, none)) := rfl
      rw [step, ih, get?_change]
      by_cases same : key = k <;> simp [same]

theorem isPeerKey_iff : isPeerKey key ↔ ∃ k, key = peerKey k := by
  rw [isPeerKey, List.isPrefixOf_iff_prefix]
  constructor
  · rintro ⟨bytes, rfl⟩
    exact ⟨⟨bytes⟩, rfl⟩
  · rintro ⟨k, rfl⟩
    exact ⟨k.bytes, rfl⟩

@[simp] theorem isPeerKey_peerKey (k : Key) : isPeerKey (peerKey k) :=
  isPeerKey_iff.mpr ⟨k, rfl⟩

theorem isPeerKey_secretKey : isPeerKey secretKey = false := rfl

theorem peerKey_ne_secretKey (k : Key) : peerKey k ≠ secretKey := by
  intro same
  have peer := isPeerKey_peerKey k
  rw [same, isPeerKey_secretKey] at peer
  cases peer

@[simp] theorem peerKey_inj {k k' : Key} : peerKey k = peerKey k' ↔ k = k' := by
  rw [peerKey, peerKey, List.append_cancel_left_eq]
  exact ⟨fun same => congrArg Key.mk same, fun same => congrArg Key.bytes same⟩

theorem before_peerKey {k k' : Key} :
    (peerKey k).Before (peerKey k') ↔ k.bytes.Before k'.bytes := by
  rw [Bytes.Before, peerKey, peerKey, Bytes.order_append]
  rfl

theorem mem_peerEntries :
    (key, value) ∈ s.peerEntries ↔ isPeerKey key ∧ s.get? key = some value := by
  rw [peerEntries, List.mem_filter, get?_eq_some_iff, and_comm]

end Store

end Epidemic
