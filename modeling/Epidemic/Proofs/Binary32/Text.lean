import Epidemic.Proofs.Binary32.Grammar

namespace Epidemic

open Numeral

namespace Binary32

def relayed (x : Binary32) : Binary32 :=
  (ofText? x.toFixed).getD zero

theorem paddedPlaces_two {n : Nat} (small : n < 100) : paddedPlaces 2 n = [n / 10, n % 10] := by
  rw [paddedPlaces, places]
  split
  · rename_i one
    have zero : n / 10 = 0 := by omega
    have rest : n % 10 = n := by omega
    rw [zero, rest]
    rfl
  · have one : places 10 (n / 10) = [n / 10] := by rw [places, if_pos (.inl (by omega))]
    rw [one]
    rfl

theorem readLiteral?_hundredthsText (h : Nat) :
    ∃ l, readLiteral? (hundredthsText h) = some l ∧ l.significand = h ∧ l.places = 2 ∧
      l.exponent = 0 := by
  have part := span_padded 2 (h % 100) (show span 10 [] = ([], []) from rfl)
  rw [List.append_nil, paddedPlaces_two (Nat.mod_lt _ (by decide))] at part
  have point (cs : List Char) : span 10 ('.' :: cs) = ([], '.' :: cs) :=
    span_cons_of_none (by decide)
  have whole := span_digits (show 2 ≤ 10 by decide) (by decide) (h / 100)
    (point (padded 2 10 (h % 100)))
  have read : readLiteral? (hundredthsText h) =
      some ⟨places 10 (h / 100) ++ [h % 100 / 10, h % 100 % 10], 2, 0⟩ := by
    simp [readLiteral?, hundredthsText, whole, part, readExponent?]
  refine ⟨_, read, ?_, rfl, rfl⟩
  have split (ds : List Nat) (a b : Nat) : ds ++ [a, b] = (ds ++ [a]) ++ [b] := by simp
  rw [Literal.significand, split, value_append, value_append, value_places (by decide)]
  omega

theorem readSign_hundredthsText (h : Nat) :
    readSign (hundredthsText h) = (false, hundredthsText h) := by
  obtain ⟨d, ds, e⟩ := List.exists_cons_of_ne_nil (places_ne_nil 10 (h / 100))
  have small : d < 10 := places_lt (by decide) (n := h / 100) (by simp [e])
  rw [hundredthsText, digits_eq_map, e]
  interval_cases d <;> simp [readSign, digitChar]

theorem ofText?_of_readSign {negative : Bool} {cs body : List Char} {l : Literal}
    (sign : readSign cs = (negative, body)) (literal : readLiteral? body = some l) :
    ofText? cs = some (ofParts negative l.magnitude) := by
  simp [ofText?, sign, literal]

theorem ofText?_toFixed (x : Binary32) : ofText? x.toFixed = some x.relayed := by
  have some : (ofText? x.toFixed).isSome := by
    obtain ⟨l, read, -⟩ := readLiteral?_hundredthsText x.hundredths
    unfold toFixed
    split
    · decide
    · split
      · split <;> decide
      · split
        · exact Option.isSome_of_eq_some (ofText?_of_readSign rfl read)
        · exact Option.isSome_of_eq_some (ofText?_of_readSign (readSign_hundredthsText _) read)
  rw [relayed, ← Option.some_get some]
  rfl

theorem isLiteral_toFixed (x : Binary32) : IsLiteral x.toFixed :=
  isSome_ofText?_iff.mp (Option.isSome_of_eq_some x.ofText?_toFixed)

end Binary32

end Epidemic
