import Epidemic.Address.Ip
import Epidemic.Proofs.Numeral

namespace Epidemic

open Numeral

namespace Ipv4

variable {cs rest : List Char}

theorem readOctet?_eq_some_iff {o : UInt8} :
    readOctet? cs = some (o, rest) ↔ span 10 rest = ([], rest) ∧ cs = octetText o ++ rest := by
  constructor
  · intro h
    cases spanned : span 10 cs with
    | mk ds tail =>
        obtain ⟨ends, front, rfl, row⟩ := span_eq_iff.mp spanned
        obtain ⟨rfl, small⟩ := row_ten_iff.mp row
        simp only [readOctet?, spanned] at h
        split at h
        · cases h
        · split at h
          · cases h
          · rename_i bounds lead
            simp only [List.isEmpty_iff, not_or, not_and, Nat.not_lt] at bounds lead
            obtain ⟨rfl, rfl⟩ := Prod.mk.inj (Option.some.inj h)
            have value : (UInt8.ofNat (value 10 ds)).toNat = value 10 ds :=
              UInt8.toNat_ofNat_of_lt' (show value 10 ds < 256 by omega)
            exact ⟨ends, by rw [octetText, value, digits_eq_map, places_value bounds.1 small lead]⟩
  · rintro ⟨ends, rfl⟩
    have small : o.toNat < 256 := o.toNat_lt
    have spanned := span_digits (by decide) (by decide) o.toNat ends
    have value := value_places (show 2 ≤ 10 by decide) o.toNat
    have short : (places 10 o.toNat).length ≤ 3 :=
      length_places_le (by decide) (k := 2) (by omega)
    have ne := places_ne_nil 10 o.toNat
    have lead : ¬((places 10 o.toNat).head? = some 0 ∧ 1 < (places 10 o.toNat).length) := by
      rintro ⟨h, long⟩
      rw [head?_places (by decide) h] at long
      simp at long
    simp only [readOctet?, octetText, spanned, value]
    rw [if_neg (by simp [ne]; omega), if_neg lead, UInt8.ofNat_toNat]

theorem readDotted?_eq_some_iff {o : UInt8} :
    readDotted? cs = some (o, rest) ↔
      span 10 rest = ([], rest) ∧ cs = '.' :: (octetText o ++ rest) := by
  unfold readDotted?
  split
  · rw [readOctet?_eq_some_iff, List.cons.injEq, eq_self_iff_true, true_and]
  · rename_i other
    simp only [reduceCtorEq, false_iff, not_and]
    exact fun _ same => other _ same

theorem read?_eq_some_iff {ip : Ipv4} :
    read? cs = some (ip, rest) ↔ span 10 rest = ([], rest) ∧ cs = ip.text ++ rest := by
  have dot (cs : List Char) : span 10 ('.' :: cs) = ([], '.' :: cs) :=
    span_cons_of_none (by decide)
  simp only [read?, Option.bind_eq_bind, Option.bind_eq_some_iff, Prod.exists, Option.some.injEq,
    Prod.mk.injEq, readOctet?_eq_some_iff, readDotted?_eq_some_iff]
  constructor
  · rintro ⟨a, _, ⟨-, rfl⟩, b, _, ⟨-, rfl⟩, c, _, ⟨-, rfl⟩, d, _, ⟨ends, rfl⟩, rfl, rfl⟩
    exact ⟨ends, by simp [text]⟩
  · rintro ⟨ends, rfl⟩
    exact ⟨ip.a, _, ⟨dot _, by simp [text]⟩, ip.b, _, ⟨dot _, rfl⟩, ip.c, _, ⟨dot _, rfl⟩, ip.d, _,
      ⟨ends, rfl⟩, rfl, rfl⟩

theorem groups_ofGroups (high low : UInt16) : (ofGroups high low).groups = [high, low] := by
  have join (g : UInt16) : UInt16.ofNat (256 * (g.toNat / 256) + g.toNat % 256) = g := by
    rw [Nat.div_add_mod, UInt16.ofNat_toNat]
  have byte (g : UInt16) : g.toNat / 256 < 256 := by
    have := g.toNat_lt
    omega
  simp [groups, ofGroups, Nat.mod_eq_of_lt (byte _), join]

theorem isDigit_of_mem_octetText {o : UInt8} {c : Char} (h : c ∈ octetText o) :
    c.isDigit = true := by
  rw [octetText, digits_eq_map] at h
  obtain ⟨d, hd, rfl⟩ := List.mem_map.mp h
  have small := places_lt (by decide) hd
  interval_cases d <;> rfl

end Ipv4

namespace Ipv6

variable {cs rest : List Char} {g : UInt16}

def IsGroup (cs : List Char) (g : UInt16) : Prop :=
  ∃ ds : List Nat, cs.map Char.toLower = ds.map digitChar ∧ (∀ d ∈ ds, d < 16) ∧ ds ≠ [] ∧
    ds.length ≤ 4 ∧ g.toNat = value 16 ds

inductive Row (dotted : Bool) : List Char → List UInt16 → Prop where
  | one {cs : List Char} {g : UInt16} (group : IsGroup cs g) : Row dotted cs [g]
  | inner (ip : Ipv4) (allowed : dotted = true) : Row dotted ip.text ip.groups
  | more {cs rest : List Char} {g : UInt16} {gs : List UInt16} (group : IsGroup cs g)
      (others : Row dotted rest gs) : Row dotted (cs ++ ':' :: rest) (g :: gs)

def Part (dotted : Bool) (cs : List Char) (gs : List UInt16) : Prop :=
  cs = [] ∧ gs = [] ∨ Row dotted cs gs

inductive Spelled : List Char → Ipv6 → Prop where
  | full {cs : List Char} {ip : Ipv6} (row : Row true cs ip.groups) : Spelled cs ip
  | shortened {front back : List Char} {gs hs : List UInt16} {n : Nat} {ip : Ipv6}
      (head : Part false front gs) (tail : Part true back hs) (some : 1 ≤ n)
      (groups : ip.groups = gs ++ List.replicate n 0 ++ hs) :
      Spelled (front ++ ':' :: ':' :: back) ip

theorem readGroup?_eq_some_iff :
    readGroup? cs = some (g, rest) ↔
      span 16 rest = ([], rest) ∧ ∃ front, cs = front ++ rest ∧ IsGroup front g := by
  constructor
  · intro h
    cases spanned : span 16 cs with
    | mk ds tail =>
        obtain ⟨ends, front, rfl, row⟩ := span_eq_iff.mp spanned
        simp only [readGroup?, spanned] at h
        split at h
        · cases h
        · rename_i bounds
          simp only [List.isEmpty_iff, not_or, Nat.not_lt] at bounds
          obtain ⟨rfl, rfl⟩ := Prod.mk.inj (Option.some.inj h)
          obtain ⟨lower, small⟩ := row_sixteen_iff.mp row
          have below : value 16 ds < 65536 :=
            (value_lt small).trans_le (Nat.pow_le_pow_right (by decide) bounds.2)
          exact ⟨ends, front, rfl, ds, lower, small, bounds.1, bounds.2,
            UInt16.toNat_ofNat_of_lt' below⟩
  · rintro ⟨ends, front, rfl, ds, lower, small, ne, short, value⟩
    have spanned := span_eq_iff.mpr ⟨ends, front, rfl, row_sixteen_iff.mpr ⟨lower, small⟩⟩
    have fits : ¬(ds.isEmpty = true ∨ 4 < ds.length) := by
      simp only [List.isEmpty_iff, not_or, Nat.not_lt]
      exact ⟨ne, short⟩
    simp only [readGroup?, spanned, if_neg fits, ← value, UInt16.ofNat_toNat]

def Stops (rest : List Char) : Prop :=
  rest = [] ∨ ∃ cs, rest = ':' :: cs

def Ends (rest : List Char) : Prop :=
  rest = [] ∨ ∃ cs, rest = ':' :: ':' :: cs

theorem Stops.span_eq (h : Stops rest) {base : Nat} : span base rest = ([], rest) := by
  rcases h with rfl | ⟨cs, rfl⟩
  · rfl
  · apply span_cons_of_none
    simp [digitValue?]

theorem Ends.stops (h : Ends rest) : Stops rest :=
  h.imp_right fun ⟨cs, same⟩ => ⟨':' :: cs, same⟩

theorem Stops.read?_eq_none (h : Stops rest) : Ipv4.read? rest = none := by
  simp [Ipv4.read?, Ipv4.readOctet?, h.span_eq]

theorem Stops.readGroup?_eq_none (h : Stops rest) : readGroup? rest = none := by
  simp [readGroup?, h.span_eq]

theorem IsGroup.dot_not_mem (h : IsGroup cs g) : '.' ∉ cs := by
  obtain ⟨ds, lower, small, -⟩ := h
  intro dot
  have written : Char.toLower '.' ∈ ds.map digitChar := lower ▸ List.mem_map_of_mem dot
  obtain ⟨d, listed, same⟩ := List.mem_map.mp written
  have range := small d listed
  interval_cases d <;> simp [digitChar] at same

theorem IsGroup.read?_eq_none (h : IsGroup cs g) (stops : Stops rest) :
    Ipv4.read? (cs ++ rest) = none := by
  cases read : Ipv4.read? (cs ++ rest) with
  | none => rfl
  | some r =>
      obtain ⟨ip, tail⟩ := r
      have same := (Ipv4.read?_eq_some_iff.mp read).2
      simp only [Ipv4.text, List.append_assoc, List.cons_append] at same
      -- the point after the first octet stands in the group, or before the end of it
      rcases List.append_eq_append_iff.mp same with ⟨as, octet, after⟩ | ⟨bs, front, after⟩
      · rcases stops with rfl | ⟨more, rfl⟩
        · simp at after
        · cases as with
          | nil => simp at after
          | cons c as =>
              obtain ⟨rfl, -⟩ := List.cons.inj after
              have colon : ':' ∈ Ipv4.octetText ip.a :=
                octet ▸ List.mem_append_right _ List.mem_cons_self
              have digit := Ipv4.isDigit_of_mem_octetText colon
              cases digit
      · cases bs with
        | nil => rcases stops with rfl | ⟨more, rfl⟩ <;> simp at after
        | cons c bs =>
            obtain ⟨rfl, -⟩ := List.cons.inj after
            have dot : '.' ∈ cs := front ▸ List.mem_append_right _ List.mem_cons_self
            exact absurd dot h.dot_not_mem

def lead (first : Bool) : List Char :=
  if first then [] else [':']

theorem afterColon?_eq_some_iff {first : Bool} {body : List Char} :
    afterColon? first cs = some body ↔ cs = lead first ++ body := by
  cases first with
  | true => simp [afterColon?, lead]
  | false =>
      simp only [afterColon?, lead, Bool.false_eq_true, if_false, List.cons_append, List.nil_append]
      split
      · simp
      · rename_i other
        simp only [reduceCtorEq, false_iff]
        exact other body

theorem Ends.readGroups_eq (h : Ends rest) (n : Nat) (first : Bool) :
    readGroups n first rest = ([], false, rest) := by
  cases n with
  | zero => rfl
  | succ n =>
      have stuck {body : List Char} (colon : afterColon? first rest = some body) : Stops body := by
        have same := afterColon?_eq_some_iff.mp colon
        cases first with
        | true => exact (show rest = body from same) ▸ h.stops
        | false =>
            rcases h with rfl | ⟨cs, rfl⟩
            · cases same
            · exact .inr ⟨cs, (List.cons.inj same).2.symm⟩
      cases colon : afterColon? first rest with
      | none => simp [readGroups, colon]
      | some body =>
          have stops := stuck colon
          simp [readGroups, colon, stops.read?_eq_none, stops.readGroup?_eq_none]

theorem readGroups_sound {n : Nat} {first dotted : Bool} {gs : List UInt16}
    (h : readGroups n first cs = (gs, dotted, rest)) :
    gs.length ≤ n ∧ ((gs = [] ∧ rest = cs) ∨
      ∃ row, cs = lead first ++ row ++ rest ∧ Row dotted row gs) := by
  -- on the room that is left: a group is taken from the front, an IPv4 address ends the row
  induction n generalizing first cs gs dotted rest with
  | zero =>
      cases h
      exact ⟨Nat.le_refl 0, .inl ⟨rfl, rfl⟩⟩
  | succ n ih =>
      simp only [readGroups] at h
      split at h
      · cases h
        exact ⟨Nat.zero_le _, .inl ⟨rfl, rfl⟩⟩
      · rename_i body colon
        obtain rfl := afterColon?_eq_some_iff.mp colon
        split at h
        · rename_i inner tail read
          cases h
          split at read
          · rename_i room
            obtain ⟨-, rfl⟩ := Ipv4.read?_eq_some_iff.mp read
            exact ⟨Nat.succ_le_succ room, .inr ⟨inner.text, by simp, .inner inner rfl⟩⟩
          · cases read
        · split at h
          · cases h
            exact ⟨Nat.zero_le _, .inl ⟨rfl, rfl⟩⟩
          · rename_i g tail read
            obtain ⟨-, front, rfl, group⟩ := readGroup?_eq_some_iff.mp read
            cases others : readGroups n false tail with
            | mk hs result =>
                obtain ⟨dotted', rest'⟩ := result
                simp only [others] at h
                cases h
                obtain ⟨room, ⟨rfl, rfl⟩ | ⟨row, rfl, grammar⟩⟩ := ih others
                · exact ⟨Nat.succ_le_succ room, .inr ⟨front, by simp, .one group⟩⟩
                · exact ⟨Nat.succ_le_succ room, .inr ⟨front ++ ':' :: row, by simp [lead],
                    .more group grammar⟩⟩

theorem readGroups_group {n : Nat} {first : Bool} (group : IsGroup cs g) (stops : Stops rest) :
    readGroups (n + 1) first (lead first ++ cs ++ rest) =
      (g :: (readGroups n false rest).1, (readGroups n false rest).2) := by
  have colon : afterColon? first (lead first ++ cs ++ rest) = some (cs ++ rest) :=
    afterColon?_eq_some_iff.mpr (List.append_assoc ..)
  have undotted : (if 1 ≤ n then Ipv4.read? (cs ++ rest) else none) = none := by
    rw [group.read?_eq_none stops, ite_self]
  have read : readGroup? (cs ++ rest) = some (g, rest) :=
    readGroup?_eq_some_iff.mpr ⟨stops.span_eq, cs, rfl, group⟩
  simp only [readGroups, colon, undotted, read]

theorem readGroups_inner {n : Nat} {first : Bool} (ip : Ipv4) (stops : Stops rest) :
    readGroups (n + 2) first (lead first ++ ip.text ++ rest) = (ip.groups, true, rest) := by
  have colon : afterColon? first (lead first ++ ip.text ++ rest) = some (ip.text ++ rest) :=
    afterColon?_eq_some_iff.mpr (List.append_assoc ..)
  have read : (if 1 ≤ n + 1 then Ipv4.read? (ip.text ++ rest) else none) = some (ip, rest) := by
    rw [if_pos (Nat.le_add_left 1 n), Ipv4.read?_eq_some_iff]
    exact ⟨stops.span_eq, rfl⟩
  rw [readGroups, colon]
  simp only [read]

theorem Row.readGroups_eq {dotted : Bool} {row : List Char} {gs : List UInt16}
    (h : Row dotted row gs) (ends : Ends rest) {n : Nat} (room : gs.length ≤ n) (first : Bool) :
    ∃ found, (found = true → dotted = true) ∧
      readGroups n first (lead first ++ row ++ rest) = (gs, found, rest) := by
  induction h generalizing n first with
  | one group =>
      obtain ⟨m, rfl⟩ := Nat.exists_eq_add_of_le' room
      refine ⟨false, by simp, ?_⟩
      rw [List.length_singleton, readGroups_group group ends.stops, ends.readGroups_eq]
  | inner ip allowed =>
      obtain ⟨m, rfl⟩ := Nat.exists_eq_add_of_le' (show 2 ≤ n from room)
      exact ⟨true, fun _ => allowed, readGroups_inner ip ends.stops⟩
  | @more cs after g gs group others ih =>
      obtain ⟨m, rfl⟩ : ∃ m, n = m + 1 := ⟨n - 1, by simp at room; omega⟩
      obtain ⟨found, allowed, read⟩ := ih (Nat.le_of_succ_le_succ room) false
      refine ⟨found, allowed, ?_⟩
      have parts : lead first ++ (cs ++ ':' :: after) ++ rest =
          lead first ++ cs ++ (lead false ++ after ++ rest) := by simp [lead]
      have stops : Stops (lead false ++ after ++ rest) := .inr ⟨after ++ rest, rfl⟩
      rw [parts, readGroups_group group stops, read]

theorem Part.readGroups_eq {dotted : Bool} {part : List Char} {gs : List UInt16}
    (h : Part dotted part gs) (ends : Ends rest) {n : Nat} (room : gs.length ≤ n) :
    ∃ found, (found = true → dotted = true) ∧ readGroups n true (part ++ rest) = (gs, found, rest) := by
  rcases h with ⟨rfl, rfl⟩ | row
  · exact ⟨false, by simp, ends.readGroups_eq n true⟩
  · exact row.readGroups_eq ends room true

theorem part_of_readGroups {n : Nat} {dotted : Bool} {gs : List UInt16}
    (h : readGroups n true cs = (gs, dotted, rest)) :
    gs.length ≤ n ∧ ∃ part, cs = part ++ rest ∧ Part dotted part gs := by
  obtain ⟨room, ⟨rfl, rfl⟩ | ⟨row, rfl, grammar⟩⟩ := readGroups_sound h
  · exact ⟨room, [], rfl, .inl ⟨rfl, rfl⟩⟩
  · exact ⟨room, row, rfl, .inr grammar⟩

theorem Row.dotted {dotted : Bool} {row : List Char} {gs : List UInt16} (h : Row dotted row gs) :
    Row true row gs := by
  induction h with
  | one group => exact .one group
  | inner ip _ => exact .inner ip rfl
  | more group _ ih => exact .more group ih

theorem ofGroups?_eq_some_iff {gs : List UInt16} {ip : Ipv6} :
    ofGroups? gs = some ip ↔ ip.groups = gs := by
  obtain ⟨groups, size⟩ := ip
  unfold ofGroups?
  split
  · rename_i length
    simp [eq_comm]
  · rename_i length
    simp only [reduceCtorEq, false_iff]
    rintro rfl
    exact length size

theorem read?_of_spelled {ip : Ipv6} (h : Spelled cs ip) : read? cs = some (ip, []) := by
  cases h with
  | full row =>
      obtain ⟨found, -, read⟩ := row.readGroups_eq (show Ends [] from .inl rfl) ip.size_groups.le true
      have read : readGroups 8 true cs = (ip.groups, found, []) := by simpa [lead] using read
      simp [read?, read, ip.size_groups, ofGroups?_eq_some_iff]
  | @shortened front back gs hs n _ head tail some groups =>
      have size := congrArg List.length groups
      simp only [ip.size_groups, List.length_append, List.length_replicate] at size
      have ends : Ends (':' :: ':' :: back) := .inr ⟨back, rfl⟩
      obtain ⟨found, allowed, first⟩ := head.readGroups_eq ends (show gs.length ≤ 8 by omega)
      obtain ⟨_, -, second⟩ := tail.readGroups_eq (show Ends [] from .inl rfl)
        (show hs.length ≤ 7 - gs.length by omega)
      have undotted : found = false := by simpa using allowed
      have short : gs.length ≠ 8 := by omega
      have zeros : 8 - gs.length - hs.length = n := by omega
      rw [List.append_nil] at second
      simp [read?, first, undotted, short, second, zeros, ofGroups?_eq_some_iff, groups]

theorem spelled_of_read? {ip : Ipv6} (h : read? cs = some (ip, [])) : Spelled cs ip := by
  cases first : readGroups 8 true cs with
  | mk gs result =>
      obtain ⟨dotted, rest⟩ := result
      obtain ⟨room, front, rfl, head⟩ := part_of_readGroups first
      simp only [read?, first] at h
      split at h
      · rename_i whole
        obtain ⟨_, made, same⟩ := Option.map_eq_some_iff.mp h
        obtain ⟨rfl, rfl⟩ := Prod.mk.inj same
        have groups := ofGroups?_eq_some_iff.mp made
        rcases head with ⟨rfl, rfl⟩ | row
        · cases whole
        · rw [List.append_nil]
          exact .full (groups ▸ row.dotted)
      · split at h
        · cases h
        · rename_i partly undotted
          obtain rfl : dotted = false := by simpa using undotted
          split at h
          · rename_i back
            cases second : readGroups (7 - gs.length) true back with
            | mk hs result =>
                obtain ⟨dotted, left⟩ := result
                obtain ⟨space, part, rfl, tail⟩ := part_of_readGroups second
                simp only [second] at h
                obtain ⟨_, made, same⟩ := Option.map_eq_some_iff.mp h
                obtain ⟨rfl, rfl⟩ := Prod.mk.inj same
                rw [List.append_nil]
                refine .shortened head (tail.imp_right Row.dotted) ?_ (ofGroups?_eq_some_iff.mp made)
                omega
          · cases h

theorem Row.read?_eq_none {dotted : Bool} {row : List Char} {gs : List UInt16}
    (h : Row dotted row gs) (long : dotted = true → 2 < gs.length) (stops : Stops rest) :
    Ipv4.read? (row ++ rest) = none := by
  cases h with
  | one group => exact group.read?_eq_none stops
  | inner ip allowed => exact absurd (long allowed) (Nat.lt_irrefl 2)
  | more group others =>
      rw [List.append_assoc]
      exact group.read?_eq_none (.inr ⟨_, rfl⟩)

theorem Spelled.read?_eq_none {ip : Ipv6} (h : Spelled cs ip) : Ipv4.read? cs = none := by
  cases h with
  | full row =>
      have none := row.read?_eq_none (fun _ => by simp [ip.size_groups]) (show Stops [] from .inl rfl)
      rwa [List.append_nil] at none
  | @shortened front back _ _ _ _ head _ _ _ =>
      have stops : Stops (':' :: ':' :: back) := .inr ⟨_, rfl⟩
      rcases head with ⟨rfl, -⟩ | row
      · exact stops.read?_eq_none
      · exact row.read?_eq_none (by simp) stops

end Ipv6

namespace Ip

inductive Spelled : List Char → Ip → Prop where
  | v4 (ip : Ipv4) : Spelled ip.text (.v4 ip)
  | v6 {cs : List Char} {ip : Ipv6} (spelled : Ipv6.Spelled cs ip) : Spelled cs (.v6 ip)

theorem ofText?_eq_some_iff {cs : List Char} {ip : Ip} : ofText? cs = some ip ↔ Spelled cs ip := by
  have whole : ofText? cs = some ip ↔ read? cs = some (ip, []) := by
    unfold ofText?
    split
    · rename_i found read
      simp [read]
    · rename_i other
      simp only [reduceCtorEq, false_iff]
      exact other ip
  rw [whole, read?]
  constructor
  · intro h
    split at h
    · rename_i inner rest read
      cases h
      obtain ⟨-, rfl⟩ := Ipv4.read?_eq_some_iff.mp read
      rw [List.append_nil]
      exact .v4 inner
    · obtain ⟨⟨inner, rest⟩, read, same⟩ := Option.map_eq_some_iff.mp h
      cases same
      exact .v6 (Ipv6.spelled_of_read? read)
  · rintro (⟨inner⟩ | spelled)
    · have read : Ipv4.read? inner.text = some (inner, []) :=
        Ipv4.read?_eq_some_iff.mpr ⟨rfl, (List.append_nil _).symm⟩
      simp [read]
    · simp [spelled.read?_eq_none, Ipv6.read?_of_spelled spelled]

theorem isSome_ofText?_iff {cs : List Char} :
    (ofText? cs).isSome ↔ ∃ ip, Spelled cs ip := by
  rw [Option.isSome_iff_exists]
  exact exists_congr fun ip => ofText?_eq_some_iff

end Ip

end Epidemic
