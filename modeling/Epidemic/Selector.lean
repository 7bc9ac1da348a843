namespace Epidemic

-- `pick n size` answers the `n`th question, about a pool of `size`; answers may be out of range.
structure Selector where
  pick : Nat → Nat → Nat
  calls : Nat

namespace Selector

def fixed (index : Nat) : Selector :=
  ⟨fun _ _ => index, 0⟩

def choose {α : Type} (s : Selector) (pool : List α) : Selector × Option α :=
  match pool with
  | [] => (s, none)
  | [a] => (s, some a)
  | pool => ({ s with calls := s.calls + 1 }, pool[s.pick s.calls pool.length % pool.length]?)

def chooseTimes {α : Type} (s : Selector) (pool : List α) : Nat → Selector × List (Option α)
  | 0 => (s, [])
  | n + 1 =>
      let (s, a) := s.choose pool
      let (s, rest) := chooseTimes s pool n
      (s, a :: rest)

end Selector

end Epidemic
