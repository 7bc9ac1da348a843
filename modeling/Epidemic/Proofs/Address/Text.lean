import Epidemic.Proofs.Address.Grammar

namespace Epidemic

open Numeral

namespace Ipv6

theorem isGroup_groupText (g : UInt16) : IsGroup (groupText g) g := by
  have small (d : Nat) (h : d ∈ places 16 g.toNat) : d < 16 := places_lt (by decide) h
  have row : (groupText g).map (digitValue? 16) = (places 16 g.toNat).map some := by
    rw [groupText, digits_eq_map, List.map_map]
    exact List.map_congr_left fun d h => digitValue?_digitChar (small d h) (by decide)
  have bound : g.toNat < 65536 := g.toNat_lt
  exact ⟨places 16 g.toNat, (row_sixteen_iff.mp row).1, small, places_ne_nil 16 _,
    length_places_le (by decide) (k := 3) (by omega), (value_places (by decide) _).symm⟩

theorem row_joined {dotted : Bool} (g : UInt16) (gs : List UInt16) :
    Row dotted (joined (g :: gs)) (g :: gs) := by
  induction gs generalizing g with
  | nil => exact .one (isGroup_groupText g)
  | cons h gs ih => exact .more (isGroup_groupText g) (ih h)

theorem part_joined {dotted : Bool} (gs : List UInt16) : Part dotted (joined gs) gs := by
  cases gs with
  | nil => exact .inl ⟨rfl, rfl⟩
  | cons g gs => exact .inr (row_joined g gs)

theorem eq_replicate_leadingZeros (gs : List UInt16) :
    gs = List.replicate (leadingZeros gs) 0 ++ gs.drop (leadingZeros gs) := by
  induction gs with
  | nil => rfl
  | cons g gs ih =>
      simp only [leadingZeros]
      split
      · rename_i zero
        rw [List.replicate_succ, List.cons_append, List.drop_succ_cons, ← ih, zero]
      · rfl

theorem eq_of_longestZeros {gs : List UInt16} {start length : Nat}
    (h : longestZeros gs = (start, length)) :
    gs = gs.take start ++ List.replicate length 0 ++ gs.drop (start + length) := by
  induction gs generalizing start length with
  | nil =>
      cases h
      rfl
  | cons g gs ih =>
      simp only [longestZeros] at h
      split at h
      · cases h
        simpa using eq_replicate_leadingZeros (g :: gs)
      · cases h
        have rest := ih (Prod.mk.eta (p := longestZeros gs)).symm
        rw [Nat.add_right_comm, List.take_succ_cons, List.drop_succ_cons, List.cons_append,
          List.cons_append, ← rest]

theorem groups_of_mapped? {ip : Ipv6} {inner : Ipv4} (h : ip.mapped? = some inner) :
    ip.groups = List.replicate 5 0 ++ 0xffff :: inner.groups := by
  unfold mapped? at h
  split at h
  · rename_i same
    cases h
    rw [same, Ipv4.groups_ofGroups]
    rfl
  · cases h

theorem spelled_text (ip : Ipv6) : Spelled ip.text ip := by
  unfold text
  split
  · rename_i inner mapped
    have mark : groupText 0xffff = ['f', 'f', 'f', 'f'] := by simp [groupText, digits, digitChar]
    have tail : Row true (['f', 'f', 'f', 'f'] ++ ':' :: inner.text) (0xffff :: inner.groups) :=
      .more (mark ▸ isGroup_groupText 0xffff) (.inner inner rfl)
    exact .shortened (n := 5) (.inl ⟨rfl, rfl⟩) (.inr tail) (by decide) (groups_of_mapped? mapped)
  · split
    rename_i start length longest
    split
    · rename_i long
      exact .shortened (part_joined _) (part_joined _) (Nat.le_of_succ_le long)
        (eq_of_longestZeros longest)
    · have part : Part true (joined ip.groups) ip.groups := part_joined _
      rcases part with ⟨-, none⟩ | row
      · exact absurd ip.size_groups (by simp [none])
      · exact .full row

end Ipv6

namespace Ip

theorem spelled_text (ip : Ip) : Spelled ip.text ip := by
  cases ip with
  | v4 ip => exact .v4 ip
  | v6 ip => exact .v6 ip.spelled_text

theorem ofText?_text (ip : Ip) : ofText? ip.text = some ip :=
  ofText?_eq_some_iff.mpr ip.spelled_text

end Ip

end Epidemic
