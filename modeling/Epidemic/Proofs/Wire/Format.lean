import Epidemic.Proofs.Except
import Epidemic.Wire.Text

namespace Epidemic.Wire.Format

variable {α β : Type} {f : Format α} {g : Format β}

def Stable (f : Format α) : Prop :=
  ∀ bs a rest more, f.read bs = .ok (a, rest) → f.read (bs ++ more) = .ok (a, rest ++ more)

theorem Stable.decode_prefix (h : f.Stable) {bs whole : Bytes} {a : α}
    (read : f.read whole = .ok (a, [])) (cut : bs <+: whole) (proper : bs ≠ whole) :
    ∃ e, f.decode bs = .error e := by
  cases got : f.read bs with
  | error e => exact ⟨e, by rw [decode, got]; rfl⟩
  | ok result =>
      obtain ⟨b, rest⟩ := result
      obtain ⟨more, rfl⟩ := cut
      have long := h bs b rest more got
      rw [read] at long
      have nothing : [] = rest ++ more := congrArg Prod.snd (Except.ok.inj long)
      rw [(List.append_eq_nil_iff.mp nothing.symm).2, List.append_nil] at proper
      exact absurd rfl proper

structure Lawful (f : Format α) : Prop where
  read_write : ∀ a rest, (f.write a).length < UInt64.size →
    f.read (f.write a ++ rest) = .ok (a, rest)
  read_append : ∀ bs a rest more, f.read bs = .ok (a, rest) →
    f.read (bs ++ more) = .ok (a, rest ++ more)
  shortest : ∀ bs a rest, f.read bs = .ok (a, rest) →
    ∃ used, bs = used ++ rest ∧ (f.write a).length ≤ used.length

namespace Lawful

theorem decode_write (h : f.Lawful) {a : α} (short : (f.write a).length < UInt64.size)
    (rest : Bytes) : f.decode (f.write a ++ rest) = .ok a := by
  rw [decode, h.read_write a rest short]
  rfl

theorem decode_prefix (h : f.Lawful) {a : α} (short : (f.write a).length < UInt64.size)
    {bs : Bytes} (cut : bs <+: f.write a) (proper : bs ≠ f.write a) :
    ∃ e, f.decode bs = .error e := by
  have read := h.read_write a [] short
  rw [List.append_nil] at read
  exact Stable.decode_prefix h.read_append read cut proper

theorem decode_shortest (h : f.Lawful) {bs : Bytes} {a : α} (got : f.decode bs = .ok a) :
    ∃ used rest, bs = used ++ rest ∧ f.read bs = .ok (a, rest) ∧
      (f.write a).length ≤ used.length := by
  cases read : f.read bs with
  | error e =>
      rw [decode, read] at got
      cases got
  | ok result =>
      obtain ⟨b, rest⟩ := result
      rw [decode, read] at got
      obtain rfl : b = a := Except.ok.inj got
      obtain ⟨used, split, length⟩ := h.shortest bs b rest read
      exact ⟨used, rest, split, rfl, length⟩

end Lawful

theorem read_pair {bs rest : Bytes} {v : α × β} :
    (f.pair g).read bs = .ok (v, rest) ↔
      ∃ mid, f.read bs = .ok (v.1, mid) ∧ g.read mid = .ok (v.2, rest) := by
  obtain ⟨a, b⟩ := v
  simp only [pair, bind_ok, Prod.exists, Except.ok.injEq, Prod.mk.injEq]
  constructor
  · rintro ⟨a, mid, first, b, rest, second, ⟨rfl, rfl⟩, rfl⟩
    exact ⟨mid, first, second⟩
  · rintro ⟨mid, first, second⟩
    exact ⟨a, mid, first, b, rest, second, ⟨rfl, rfl⟩, rfl⟩

theorem Stable.pair (hf : f.Stable) (hg : g.Stable) : (f.pair g).Stable := by
  intro bs v rest more got
  obtain ⟨mid, first, second⟩ := read_pair.mp got
  exact read_pair.mpr ⟨mid ++ more, hf bs v.1 mid more first, hg mid v.2 rest more second⟩

theorem Lawful.pair (hf : f.Lawful) (hg : g.Lawful) : (f.pair g).Lawful where
  read_write v rest short := by
    have size : (f.write v.1).length + (g.write v.2).length < UInt64.size := by
      simpa only [Format.pair, List.length_append] using short
    refine read_pair.mpr ⟨g.write v.2 ++ rest, ?_, hg.read_write v.2 rest (by omega)⟩
    rw [Format.pair, List.append_assoc]
    exact hf.read_write v.1 _ (by omega)
  read_append := Stable.pair hf.read_append hg.read_append
  shortest bs v rest got := by
    obtain ⟨mid, first, second⟩ := read_pair.mp got
    obtain ⟨used, rfl, le⟩ := hf.shortest bs v.1 mid first
    obtain ⟨used', rfl, le'⟩ := hg.shortest mid v.2 rest second
    refine ⟨used ++ used', (List.append_assoc ..).symm, ?_⟩
    simp only [Format.pair, List.length_append]
    omega

theorem read_via {back : β → α} {make : α → Option β} {bs rest : Bytes} {b : β} :
    (f.via back make).read bs = .ok (b, rest) ↔
      ∃ a, f.read bs = .ok (a, rest) ∧ make a = some b := by
  simp only [via, bind_ok, Prod.exists]
  constructor
  · rintro ⟨a, rest, read, made⟩
    cases value : make a with
    | none => simp [value] at made
    | some b =>
        simp only [value, Except.ok.injEq, Prod.mk.injEq] at made
        obtain ⟨rfl, rfl⟩ := made
        exact ⟨a, read, value⟩
  · rintro ⟨a, read, made⟩
    exact ⟨a, rest, read, by rw [made]⟩

theorem read_iso {back : β → α} {make : α → β} {bs rest : Bytes} {b : β} :
    (f.iso back make).read bs = .ok (b, rest) ↔ ∃ a, f.read bs = .ok (a, rest) ∧ make a = b := by
  simp only [iso, read_via, Function.comp_apply, Option.some.injEq]

theorem Stable.via (h : f.Stable) {back : β → α} {make : α → Option β} :
    (f.via back make).Stable := by
  intro bs b rest more got
  obtain ⟨a, read, made⟩ := read_via.mp got
  exact read_via.mpr ⟨a, h bs a rest more read, made⟩

theorem Stable.iso (h : f.Stable) {back : β → α} {make : α → β} : (f.iso back make).Stable :=
  h.via

theorem Lawful.via (h : f.Lawful) {back : β → α} {make : α → Option β}
    (make_back : ∀ b, make (back b) = some b) (back_make : ∀ a b, make a = some b → back b = a) :
    (f.via back make).Lawful where
  read_write b rest short :=
    read_via.mpr ⟨back b, h.read_write (back b) rest short, make_back b⟩
  read_append := Stable.via h.read_append
  shortest bs b rest got := by
    obtain ⟨a, read, made⟩ := read_via.mp got
    simpa only [Format.via, back_make a b made] using h.shortest bs a rest read

theorem Lawful.iso (h : f.Lawful) {back : β → α} {make : α → β} (make_back : ∀ b, make (back b) = b)
    (back_make : ∀ a, back (make a) = a) : (f.iso back make).Lawful :=
  h.via (fun b => congrArg some (make_back b)) fun a _ made => Option.some.inj made ▸ back_make a

inductive Spells (last : Nat) : Nat → Bytes → Nat → Prop where
  | stop {left : Nat} {b : UInt8} (one : b.toNat < 128) (fits : left = 0 → b.toNat ≤ last) :
      Spells last (left + 1) [b] b.toNat
  | more {left n : Nat} {b : UInt8} {bs : Bytes} (big : 128 ≤ b.toNat)
      (higher : Spells last left bs n) : Spells last (left + 1) (b :: bs) (b.toNat - 128 + 128 * n)

def reach (last : Nat) : Nat → Nat
  | 0 => 0
  | 1 => last + 1
  | left + 2 => 128 * reach last (left + 1)

theorem reach_pos (last left : Nat) : 0 < reach last (left + 1) := by
  induction left with
  | zero => exact Nat.succ_pos last
  | succ left ih => simp only [reach]; omega

theorem writeVarint_of_lt {n : Nat} (h : n < 128) : writeVarint n = [UInt8.ofNat n] := by
  rw [writeVarint, if_pos h]

theorem writeVarint_of_le {n : Nat} (h : 128 ≤ n) :
    writeVarint n = UInt8.ofNat (n % 128 + 128) :: writeVarint (n / 128) := by
  rw [writeVarint, if_neg (Nat.not_lt.mpr h)]

theorem writeVarint_ne_nil (n : Nat) : writeVarint n ≠ [] := by
  rw [writeVarint]
  split <;> simp

theorem toNat_ofNat_of_lt {n : Nat} (h : n < 256) : (UInt8.ofNat n).toNat = n :=
  UInt8.toNat_ofNat_of_lt' h

theorem spells_writeVarint {last : Nat} (small : last < 128) {left n : Nat}
    (fits : n < reach last left) : Spells last left (writeVarint n) n := by
  induction left generalizing n with
  | zero => exact absurd fits (Nat.not_lt_zero n)
  | succ left ih =>
      by_cases one : n < 128
      · have byte := toNat_ofNat_of_lt (n := n) (by omega)
        have stop : Spells last (left + 1) [UInt8.ofNat n] (UInt8.ofNat n).toNat := by
          refine .stop (by omega) ?_
          rintro rfl
          simp only [reach] at fits
          omega
        rw [byte] at stop
        rw [writeVarint_of_lt one]
        exact stop
      · cases left with
        | zero =>
            simp only [reach] at fits
            omega
        | succ left =>
            have byte := toNat_ofNat_of_lt (n := n % 128 + 128) (by omega)
            have higher : n / 128 < reach last (left + 1) := by
              simp only [reach] at fits
              omega
            have more := Spells.more (b := UInt8.ofNat (n % 128 + 128)) (by omega) (ih higher)
            have value : n % 128 + 128 - 128 + 128 * (n / 128) = n := by omega
            rw [byte, value] at more
            rw [writeVarint_of_le (by omega)]
            exact more

theorem readVarint_iff {last left n : Nat} {bs rest : Bytes} :
    readVarint last left bs = .ok (n, rest) ↔
      ∃ used, bs = used ++ rest ∧ Spells last left used n := by
  constructor
  · intro got
    induction left generalizing bs n with
    | zero =>
        rw [readVarint] at got
        cases got
    | succ left ih =>
        cases bs with
        | nil =>
            rw [readVarint] at got
            cases got
        | cons b bs =>
            rw [readVarint] at got
            split at got
            · rename_i one
              split at got
              · cases got
              · cases got
                exact ⟨[b], rfl, .stop one (by omega)⟩
            · obtain ⟨⟨m, _⟩, read, same⟩ := bind_ok.mp got
              cases same
              obtain ⟨used, rfl, spells⟩ := ih read
              exact ⟨b :: used, rfl, .more (by omega) spells⟩
  · rintro ⟨used, rfl, spells⟩
    induction spells with
    | stop one fits =>
        rw [List.cons_append, readVarint, if_pos one, if_neg (by omega), List.nil_append]
    | more big _ ih =>
        rw [List.cons_append, readVarint, if_neg (by omega), ih]
        rfl

theorem Spells.length_le {last left n : Nat} {used : Bytes} (h : Spells last left used n) :
    (writeVarint n).length ≤ used.length := by
  induction h with
  | stop one _ =>
      rw [writeVarint_of_lt one]
      exact Nat.le_refl 1
  | @more _ n b _ big _ ih =>
      have byte := b.toNat_lt
      by_cases zeros : n = 0
      · rw [writeVarint_of_lt (by omega)]
        simp
      · have higher : (b.toNat - 128 + 128 * n) / 128 = n := by omega
        rw [writeVarint_of_le (by omega), higher]
        exact Nat.succ_le_succ ih

theorem Spells.lt_reach {last left n : Nat} {used : Bytes} (h : Spells last left used n) :
    n < reach last left := by
  induction h with
  | @stop left b one fits =>
      cases left with
      | zero => exact Nat.lt_succ_of_le (fits rfl)
      | succ left =>
          have positive := reach_pos last left
          simp only [reach]
          omega
  | @more left n b _ big _ ih =>
      cases left with
      | zero => exact absurd ih (Nat.not_lt_zero n)
      | succ left =>
          have byte := b.toNat_lt
          simp only [reach]
          omega

theorem read_natural {w : Width} {n : Nat} {bs rest : Bytes} :
    (natural w).read bs = .ok (n, rest) ↔
      ∃ used, bs = used ++ rest ∧ Spells w.room.2 w.room.1 used n :=
  readVarint_iff

theorem Lawful.natural {w : Width} {back : β → Nat} {make : Nat → Option β}
    (fits : ∀ b, back b < reach w.room.2 w.room.1) (make_back : ∀ b, make (back b) = some b)
    (back_make : ∀ n b, n < reach w.room.2 w.room.1 → make n = some b → back b = n) :
    ((Format.natural w).via back make).Lawful where
  read_write b rest _ := by
    have small : w.room.2 < 128 := by cases w <;> decide
    exact read_via.mpr ⟨back b, read_natural.mpr ⟨_, rfl, spells_writeVarint small (fits b)⟩,
      make_back b⟩
  read_append bs b rest more got := by
    obtain ⟨n, read, made⟩ := read_via.mp got
    obtain ⟨used, rfl, spells⟩ := read_natural.mp read
    exact read_via.mpr ⟨n, read_natural.mpr ⟨used, List.append_assoc .., spells⟩, made⟩
  shortest bs b rest got := by
    obtain ⟨n, read, made⟩ := read_via.mp got
    obtain ⟨used, rfl, spells⟩ := read_natural.mp read
    refine ⟨used, rfl, ?_⟩
    simp only [Format.via, Format.natural, back_make n b spells.lt_reach made]
    exact spells.length_le

theorem Lawful.natural_iso {w : Width} {back : β → Nat} {make : Nat → β}
    (fits : ∀ b, back b < reach w.room.2 w.room.1) (make_back : ∀ b, make (back b) = b)
    (back_make : ∀ n, n < reach w.room.2 w.room.1 → back (make n) = n) :
    ((Format.natural w).iso back make).Lawful :=
  .natural fits (fun b => congrArg some (make_back b))
    fun n _ small made => Option.some.inj made ▸ back_make n small

theorem reach_w32 : reach Width.w32.room.2 Width.w32.room.1 = UInt32.size := by decide

theorem reach_w64 : reach Width.w64.room.2 Width.w64.room.1 = UInt64.size := by decide

theorem zigzag_unzigzag (n : Nat) : zigzag (unzigzag n) = n := by
  simp only [zigzag, unzigzag]
  split <;> split <;> omega

theorem zigzag_lt {i : Int} (half : Nat) (low : -half ≤ i) (high : i < half) :
    zigzag i < 2 * half := by
  simp only [zigzag]
  split <;> omega

theorem unzigzag_range {n : Nat} (half : Nat) (small : n < 2 * half) :
    -(half : Int) ≤ unzigzag n ∧ unzigzag n < half := by
  simp only [unzigzag]
  split <;> omega

theorem int32_lawful : int32.Lawful := by
  refine .natural_iso (fun i => ?_) (fun i => ?_) fun n small => ?_
  · rw [reach_w32]
    exact zigzag_lt 0x80000000 i.le_toInt i.toInt_lt
  · rw [unzigzag_zigzag, Int32.ofInt_toInt]
  · rw [reach_w32] at small
    obtain ⟨low, high⟩ := unzigzag_range 0x80000000 small
    rw [Int32.toInt_ofInt_of_le low high, zigzag_unzigzag]

theorem uint16_lawful : uint16.Lawful := by
  have reach : reach Width.w16.room.2 Width.w16.room.1 = UInt16.size := by decide
  refine .natural_iso (fun n => reach ▸ n.toNat_lt) (fun _ => UInt16.ofNat_toNat) fun n small => ?_
  rw [reach] at small
  exact UInt16.toNat_ofNat_of_lt' small

theorem uint32_lawful : uint32.Lawful := by
  refine .natural_iso (fun n => reach_w32 ▸ n.toNat_lt) (fun _ => UInt32.ofNat_toNat) fun n small => ?_
  rw [reach_w32] at small
  exact UInt32.toNat_ofNat_of_lt' small

theorem int64_lawful : int64.Lawful := by
  refine .natural_iso (fun i => ?_) (fun i => ?_) fun n small => ?_
  · rw [reach_w64]
    exact zigzag_lt 0x8000000000000000 i.le_toInt i.toInt_lt
  · rw [unzigzag_zigzag, Int64.ofInt_toInt]
  · rw [reach_w64] at small
    obtain ⟨low, high⟩ := unzigzag_range 0x8000000000000000 small
    rw [Int64.toInt_ofInt_of_le low high, zigzag_unzigzag]

theorem bool_lawful : bool.Lawful where
  read_write b rest _ := by cases b <;> rfl
  read_append bs b rest more got := by
    cases bs with
    | nil => cases got
    | cons c bs =>
        simp only [bool, List.cons_append] at got ⊢
        split at got
        · cases got
          rw [if_pos (by assumption)]
        · split at got
          · cases got
            rw [if_neg (by assumption), if_pos (by assumption)]
          · cases got
  shortest bs b rest got := by
    cases bs with
    | nil => cases got
    | cons c bs =>
        simp only [bool] at got
        split at got
        · cases got
          exact ⟨[c], rfl, Nat.le_refl 1⟩
        · split at got
          · cases got
            exact ⟨[c], rfl, Nat.le_refl 1⟩
          · cases got

theorem word32_lawful : word32.Lawful where
  read_write w rest _ := by
    have bound := w.toNat_lt
    simp only [word32, List.cons_append, List.nil_append, Except.ok.injEq, Prod.mk.injEq, and_true]
    apply UInt32.toNat_inj.mp
    simp
    omega
  read_append bs w rest more got := by
    match bs, got with
    | a :: b :: c :: d :: bs, got =>
        cases got
        rfl
  shortest bs w rest got := by
    match bs, got with
    | a :: b :: c :: d :: bs, got =>
        cases got
        exact ⟨[a, b, c, d], rfl, Nat.le_refl 4⟩

theorem takeBytes_iff {n : Nat} {bs body rest : Bytes} :
    takeBytes n bs = .ok (body, rest) ↔ bs = body ++ rest ∧ n = body.length := by
  unfold takeBytes
  constructor
  · intro got
    split at got
    · cases got
      exact ⟨(List.take_append_drop n bs).symm, (List.length_take_of_le (by assumption)).symm⟩
    · cases got
  · rintro ⟨rfl, rfl⟩
    rw [if_pos (by simp), List.take_left, List.drop_left]

theorem read_bytes {bs body rest : Bytes} :
    bytes.read bs = .ok (body, rest) ↔
      ∃ count, bs = count ++ (body ++ rest) ∧
        Spells Width.w64.room.2 Width.w64.room.1 count body.length := by
  simp only [bytes, bind_ok, Prod.exists, read_natural, takeBytes_iff]
  constructor
  · rintro ⟨n, mid, ⟨count, rfl, spells⟩, rfl, rfl⟩
    exact ⟨count, rfl, spells⟩
  · rintro ⟨count, rfl, spells⟩
    exact ⟨body.length, body ++ rest, ⟨count, rfl, spells⟩, rfl, rfl⟩

theorem spells_count {n : Nat} (short : n < UInt64.size) :
    Spells Width.w64.room.2 Width.w64.room.1 (writeVarint n) n :=
  spells_writeVarint (by decide) (reach_w64 ▸ short)

theorem bytes_lawful : bytes.Lawful where
  read_write body rest short := by
    have size : (writeVarint body.length).length + body.length < UInt64.size := by
      simpa only [bytes, List.length_append] using short
    exact read_bytes.mpr ⟨_, List.append_assoc .., spells_count (by omega)⟩
  read_append bs body rest more got := by
    obtain ⟨count, rfl, spells⟩ := read_bytes.mp got
    exact read_bytes.mpr ⟨count, by simp only [List.append_assoc], spells⟩
  shortest bs body rest got := by
    obtain ⟨count, rfl, spells⟩ := read_bytes.mp got
    refine ⟨count ++ body, (List.append_assoc ..).symm, ?_⟩
    simp only [bytes, List.length_append]
    exact Nat.add_le_add_right spells.length_le _

theorem bytes_ne_nil (body : Bytes) : bytes.write body ≠ [] := by
  simp [bytes, writeVarint_ne_nil]

theorem read_text {bs rest : Bytes} {s : String} :
    text.read bs = .ok (s, rest) ↔ bytes.read bs = .ok (Text.utf8 s, rest) := by
  simp only [text, bind_ok, Prod.exists]
  constructor
  · rintro ⟨body, _, read, made⟩
    cases spelled : Text.ofUtf8? body with
    | none => simp [spelled] at made
    | some s' =>
        simp only [spelled, Except.ok.injEq, Prod.mk.injEq] at made
        obtain ⟨rfl, rfl⟩ := made
        rwa [Text.utf8_of_ofUtf8? spelled]
  · intro read
    exact ⟨Text.utf8 s, rest, read, by rw [Text.ofUtf8?_utf8]⟩

theorem text_lawful : text.Lawful where
  read_write s rest short := read_text.mpr (bytes_lawful.read_write (Text.utf8 s) rest short)
  read_append bs s rest more got :=
    read_text.mpr (bytes_lawful.read_append bs (Text.utf8 s) rest more (read_text.mp got))
  shortest bs s rest got := bytes_lawful.shortest bs (Text.utf8 s) rest (read_text.mp got)

theorem read_option_cons {b : UInt8} {bs rest : Bytes} {o : Option α} :
    (option f).read (b :: bs) = .ok (o, rest) ↔
      (b = 0 ∧ o = none ∧ rest = bs) ∨ (b = 1 ∧ ∃ a, o = some a ∧ f.read bs = .ok (a, rest)) := by
  simp only [option]
  by_cases zero : b = 0
  · subst zero
    simp only [if_true, Except.ok.injEq, Prod.mk.injEq]
    constructor
    · rintro ⟨rfl, rfl⟩
      exact .inl ⟨trivial, rfl, rfl⟩
    · rintro (⟨-, rfl, rfl⟩ | ⟨one, -⟩)
      · exact ⟨rfl, rfl⟩
      · exact absurd one (by decide)
  · by_cases one : b = 1
    · subst one
      simp only [if_neg zero, if_true, bind_ok, Prod.exists, Except.ok.injEq, Prod.mk.injEq]
      constructor
      · rintro ⟨a, _, read, rfl, rfl⟩
        exact .inr ⟨trivial, a, rfl, read⟩
      · rintro (⟨other, -⟩ | ⟨-, a, rfl, read⟩)
        · exact absurd other zero
        · exact ⟨a, rest, read, rfl, rfl⟩
    · simp [zero, one]

theorem Lawful.option (h : f.Lawful) : (option f).Lawful where
  read_write o rest short := by
    cases o with
    | none => rfl
    | some a =>
        have size : (f.write a).length + 1 < UInt64.size := short
        exact read_option_cons.mpr (.inr ⟨rfl, a, rfl, h.read_write a rest (by omega)⟩)
  read_append bs o rest more got := by
    cases bs with
    | nil => cases got
    | cons b bs =>
        rw [List.cons_append, read_option_cons]
        rcases read_option_cons.mp got with ⟨zero, none, rfl⟩ | ⟨one, a, some, read⟩
        · exact .inl ⟨zero, none, rfl⟩
        · exact .inr ⟨one, a, some, h.read_append bs a rest more read⟩
  shortest bs o rest got := by
    cases bs with
    | nil => cases got
    | cons b bs =>
        rcases read_option_cons.mp got with ⟨-, rfl, rfl⟩ | ⟨-, a, rfl, read⟩
        · exact ⟨[b], rfl, Nat.le_refl 1⟩
        · obtain ⟨used, rfl, le⟩ := h.shortest bs a rest read
          exact ⟨b :: used, rfl, Nat.succ_le_succ le⟩

theorem readMany_cons {n : Nat} {bs rest : Bytes} {as : List α} :
    readMany f (n + 1) bs = .ok (as, rest) ↔
      ∃ a tail mid, as = a :: tail ∧ f.read bs = .ok (a, mid) ∧
        readMany f n mid = .ok (tail, rest) := by
  simp only [readMany, bind_ok, Prod.exists, Except.ok.injEq, Prod.mk.injEq]
  constructor
  · rintro ⟨a, mid, first, tail, _, others, rfl, rfl⟩
    exact ⟨a, tail, mid, rfl, first, others⟩
  · rintro ⟨a, tail, mid, rfl, first, others⟩
    exact ⟨a, mid, first, tail, rest, others, rfl, rfl⟩

theorem readMany_flatMap (h : f.Lawful) (as : List α) (rest : Bytes)
    (short : (as.flatMap f.write).length < UInt64.size) :
    readMany f as.length (as.flatMap f.write ++ rest) = .ok (as, rest) := by
  induction as with
  | nil => rfl
  | cons a as ih =>
      have size : (f.write a).length + (as.flatMap f.write).length < UInt64.size := by
        simpa only [List.flatMap_cons, List.length_append] using short
      have first := h.read_write a (as.flatMap f.write ++ rest) (by omega)
      refine readMany_cons.mpr ⟨a, as, _, rfl, ?_, ih (by omega)⟩
      rw [List.flatMap_cons, List.append_assoc]
      exact first

theorem readMany_append (h : f.Lawful) {n : Nat} {bs rest : Bytes} {as : List α} (more : Bytes)
    (got : readMany f n bs = .ok (as, rest)) :
    readMany f n (bs ++ more) = .ok (as, rest ++ more) := by
  induction n generalizing bs as with
  | zero =>
      cases got
      rfl
  | succ n ih =>
      obtain ⟨a, tail, mid, rfl, first, others⟩ := readMany_cons.mp got
      exact readMany_cons.mpr
        ⟨a, tail, mid ++ more, rfl, h.read_append bs a mid more first, ih others⟩

theorem readMany_shortest (h : f.Lawful) {n : Nat} {bs rest : Bytes} {as : List α}
    (got : readMany f n bs = .ok (as, rest)) :
    as.length = n ∧
      ∃ used, bs = used ++ rest ∧ (as.flatMap f.write).length ≤ used.length := by
  induction n generalizing bs as with
  | zero =>
      cases got
      exact ⟨rfl, [], rfl, Nat.le_refl 0⟩
  | succ n ih =>
      obtain ⟨a, tail, mid, rfl, first, others⟩ := readMany_cons.mp got
      obtain ⟨used, rfl, le⟩ := h.shortest bs a mid first
      obtain ⟨count, used', rfl, le'⟩ := ih others
      refine ⟨congrArg Nat.succ count, used ++ used', (List.append_assoc ..).symm, ?_⟩
      simp only [List.flatMap_cons, List.length_append]
      omega

theorem length_le_flatMap (heavy : ∀ a, f.write a ≠ []) (as : List α) :
    as.length ≤ (as.flatMap f.write).length := by
  induction as with
  | nil => exact Nat.le_refl 0
  | cons a as ih =>
      have one := List.length_pos_iff.mpr (heavy a)
      simp only [List.flatMap_cons, List.length_append, List.length_cons]
      omega

theorem read_list {bs rest : Bytes} {as : List α} :
    (list f).read bs = .ok (as, rest) ↔
      ∃ n count body, bs = count ++ body ∧ Spells Width.w64.room.2 Width.w64.room.1 count n ∧
        readMany f n body = .ok (as, rest) := by
  simp only [list, bind_ok, Prod.exists, read_natural]
  constructor
  · rintro ⟨n, body, ⟨count, rfl, spells⟩, read⟩
    exact ⟨n, count, body, rfl, spells, read⟩
  · rintro ⟨n, count, body, rfl, spells, read⟩
    exact ⟨n, body, ⟨count, rfl, spells⟩, read⟩

theorem Lawful.list (h : f.Lawful) (heavy : ∀ a, f.write a ≠ []) : (list f).Lawful where
  read_write as rest short := by
    have size : (writeVarint as.length).length + (as.flatMap f.write).length < UInt64.size := by
      simpa only [Format.list, List.length_append] using short
    have count := length_le_flatMap heavy as
    exact read_list.mpr ⟨as.length, _, _, List.append_assoc .., spells_count (by omega),
      readMany_flatMap h as rest (by omega)⟩
  read_append bs as rest more got := by
    obtain ⟨n, count, body, rfl, spells, read⟩ := read_list.mp got
    exact read_list.mpr
      ⟨n, count, body ++ more, List.append_assoc .., spells, readMany_append h more read⟩
  shortest bs as rest got := by
    obtain ⟨n, count, body, rfl, spells, read⟩ := read_list.mp got
    obtain ⟨rfl, used, rfl, le⟩ := readMany_shortest h read
    refine ⟨count ++ used, (List.append_assoc ..).symm, ?_⟩
    simp only [Format.list, List.length_append]
    exact Nat.add_le_add spells.length_le le

end Epidemic.Wire.Format
