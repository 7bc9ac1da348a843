import Epidemic.Binary32.Decimal
import Epidemic.Proofs.Numeral
import Epidemic.Proofs.Text.Blank

namespace Epidemic

open Numeral

namespace Binary32

variable {cs rest : List Char}

def IsSign (cs : List Char) : Prop :=
  cs = [] ∨ cs = ['+'] ∨ cs = ['-']

def Digits (cs : List Char) : Prop :=
  ∀ c ∈ cs, c.isDigit = true

inductive IsDecimal : List Char → Prop where
  | whole {ds : List Char} (digits : Digits ds) (ne : ds ≠ []) : IsDecimal ds
  | point {ds es : List Char} (before : Digits ds) (after : Digits es) (ne : ds ≠ [] ∨ es ≠ []) :
      IsDecimal (ds ++ '.' :: es)

inductive IsExponent : List Char → Prop where
  | absent : IsExponent []
  | present {mark : Char} {sign ds : List Char} (letter : mark = 'e' ∨ mark = 'E')
      (signed : IsSign sign) (digits : Digits ds) (ne : ds ≠ []) :
      IsExponent (mark :: (sign ++ ds))

def names : List (List Char) :=
  [['i', 'n', 'f'], ['i', 'n', 'f', 'i', 'n', 'i', 't', 'y'], ['n', 'a', 'n']]

inductive IsLiteral : List Char → Prop where
  | number {sign body exponent : List Char} (signed : IsSign sign) (decimal : IsDecimal body)
      (scaled : IsExponent exponent) : IsLiteral (sign ++ (body ++ exponent))
  | name {sign body : List Char} (signed : IsSign sign) (named : body.map Char.toLower ∈ names) :
      IsLiteral (sign ++ body)

theorem isDigit_iff {c : Char} : c.isDigit = true ↔ ∃ d, digitValue? 10 c = some d := by
  have bounds : c.isDigit = true ↔ 48 ≤ c.toNat ∧ c.toNat ≤ 57 := by
    simp only [Char.isDigit, Bool.and_eq_true, decide_eq_true_eq, ge_iff_le, UInt32.le_iff_toNat_le]
    rfl
  simp only [bounds, digitValue?_eq_some_iff]
  constructor
  · rintro ⟨low, high⟩
    exact ⟨c.toNat - 48, by omega⟩
  · rintro ⟨d, small, h⟩
    omega

theorem digits_iff : Digits cs ↔ ∃ ds : List Nat, cs.map (digitValue? 10) = ds.map some := by
  induction cs with
  | nil => exact ⟨fun _ => ⟨[], rfl⟩, fun _ _ none => nomatch none⟩
  | cons c cs ih =>
      rw [Digits, List.forall_mem_cons, ← Digits, ih, isDigit_iff]
      constructor
      · rintro ⟨⟨d, first⟩, ds, others⟩
        exact ⟨d :: ds, by simp [first, others]⟩
      · rintro ⟨_ | ⟨d, ds⟩, row⟩
        · cases row
        · obtain ⟨first, others⟩ := List.cons.inj row
          exact ⟨⟨d, first⟩, ds, others⟩

theorem span_spec {ds : List Nat} (h : span 10 cs = (ds, rest)) :
    ∃ front, cs = front ++ rest ∧ Digits front ∧ (front = [] ↔ ds = []) := by
  obtain ⟨-, front, rfl, row⟩ := span_eq_iff.mp h
  refine ⟨front, rfl, digits_iff.mpr ⟨ds, row⟩, ?_⟩
  rw [← List.map_eq_nil_iff (f := digitValue? 10), row, List.map_eq_nil_iff]

theorem Digits.span_append (h : Digits cs) (ends : span 10 rest = ([], rest)) :
    ∃ ds, span 10 (cs ++ rest) = (ds, rest) ∧ (ds = [] ↔ cs = []) := by
  obtain ⟨ds, row⟩ := digits_iff.mp h
  refine ⟨ds, span_eq_iff.mpr ⟨ends, cs, rfl, row⟩, ?_⟩
  rw [← List.map_eq_nil_iff (f := some), ← row, List.map_eq_nil_iff]

theorem readSign_spec {negative : Bool} {body : List Char} (h : readSign cs = (negative, body)) :
    ∃ sign, IsSign sign ∧ cs = sign ++ body := by
  unfold readSign at h
  split at h <;> cases h
  · exact ⟨['-'], .inr (.inr rfl), rfl⟩
  · exact ⟨['+'], .inr (.inl rfl), rfl⟩
  · exact ⟨[], .inl rfl, rfl⟩

def Unsigned (cs : List Char) : Prop :=
  ∀ c ∈ cs.head?, c ≠ '-' ∧ c ≠ '+'

theorem Unsigned.readSign_eq (h : Unsigned cs) : readSign cs = (false, cs) := by
  unfold readSign
  split
  · exact absurd rfl (h '-' rfl).1
  · exact absurd rfl (h '+' rfl).2
  · rfl

theorem IsSign.readSign_append {sign : List Char} (h : IsSign sign) (unsigned : Unsigned cs) :
    ∃ negative, readSign (sign ++ cs) = (negative, cs) := by
  rcases h with rfl | rfl | rfl
  · exact ⟨false, unsigned.readSign_eq⟩
  · exact ⟨false, rfl⟩
  · exact ⟨true, rfl⟩

theorem Digits.unsigned (h : Digits cs) (ne : cs ≠ []) : Unsigned (cs ++ rest) := by
  cases cs with
  | nil => exact absurd rfl ne
  | cons c cs =>
      intro d same
      obtain rfl : c = d := by simpa using same
      have digit := h c List.mem_cons_self
      constructor <;> rintro rfl <;> cases digit

theorem IsExponent.span_eq (h : IsExponent cs) : span 10 cs = ([], cs) := by
  cases h with
  | absent => rfl
  | present letter signed digits ne =>
      rcases letter with rfl | rfl <;> exact span_cons_of_none (by decide)

theorem isSome_readExponent?_iff : (readExponent? cs).isSome ↔ IsExponent cs := by
  constructor
  · intro h
    unfold readExponent? at h
    split at h
    · exact .absent
    · split at h
      · rename_i mark cs letter
        cases sign : readSign cs with
        | mk negative body =>
            obtain ⟨sign', signed, rfl⟩ := readSign_spec sign
            cases spanned : span 10 body with
            | mk ds tail =>
                obtain ⟨front, rfl, digits, none⟩ := span_spec spanned
                simp only [sign, spanned] at h
                split at h
                · cases h
                · rename_i some same
                  obtain ⟨rfl, rfl⟩ := Prod.mk.inj same
                  rw [List.append_nil]
                  exact .present letter signed digits fun empty => some (none.mp empty)
                · cases h
      · cases h
  · intro h
    cases h with
    | absent => rfl
    | @present mark sign ds letter signed digits ne =>
        have unsigned : Unsigned (ds ++ []) := digits.unsigned ne
        obtain ⟨ds', spanned, none⟩ := digits.span_append (show span 10 [] = ([], []) from rfl)
        rw [List.append_nil] at unsigned spanned
        obtain ⟨negative, sign⟩ := signed.readSign_append unsigned
        cases ds' with
        | nil => exact absurd (none.mp rfl) ne
        | cons d ds' => simp [readExponent?, letter, sign, spanned]

theorem readLiteral?_of_point {ds es : List Nat} {after : List Char}
    (before : span 10 cs = (ds, '.' :: after)) (part : span 10 after = (es, rest)) :
    (readLiteral? cs).isSome ↔ (ds ≠ [] ∨ es ≠ []) ∧ IsExponent rest := by
  rw [← isSome_readExponent?_iff]
  simp only [readLiteral?, before, part]
  cases ds <;> cases es <;> simp

theorem readLiteral?_of_whole {ds : List Nat} (whole : span 10 cs = (ds, rest))
    (pointless : ∀ after, rest ≠ '.' :: after) :
    (readLiteral? cs).isSome ↔ ds ≠ [] ∧ IsExponent rest := by
  rw [← isSome_readExponent?_iff]
  simp only [readLiteral?, whole]
  cases ds <;> simp

theorem IsExponent.ne_point (h : IsExponent cs) (after : List Char) : cs ≠ '.' :: after := by
  cases h with
  | absent => simp
  | present letter signed digits ne => rcases letter with rfl | rfl <;> simp

theorem isSome_readLiteral?_iff :
    (readLiteral? cs).isSome ↔
      ∃ body exponent, cs = body ++ exponent ∧ IsDecimal body ∧ IsExponent exponent := by
  constructor
  · intro h
    cases first : span 10 cs with
    | mk ds tail =>
        obtain ⟨front, rfl, before, none⟩ := span_spec first
        by_cases point : ∃ after, tail = '.' :: after
        · obtain ⟨after, rfl⟩ := point
          cases second : span 10 after with
          | mk es tail =>
              obtain ⟨part, rfl, digits, none'⟩ := span_spec second
              obtain ⟨ne, scaled⟩ := (readLiteral?_of_point first second).mp h
              rw [ne_eq, ne_eq, ← none, ← none'] at ne
              exact ⟨front ++ '.' :: part, tail, by simp, .point before digits ne, scaled⟩
        · obtain ⟨ne, scaled⟩ :=
            (readLiteral?_of_whole first fun after same => point ⟨after, same⟩).mp h
          exact ⟨front, tail, rfl, .whole before fun empty => ne (none.mp empty), scaled⟩
  · rintro ⟨body, exponent, rfl, decimal, scaled⟩
    cases decimal with
    | whole digits ne =>
        obtain ⟨ds, first, none⟩ := digits.span_append scaled.span_eq
        exact (readLiteral?_of_whole first scaled.ne_point).mpr
          ⟨fun empty => ne (none.mp empty), scaled⟩
    | @point whole part before after ne =>
        have point : span 10 ('.' :: (part ++ exponent)) = ([], '.' :: (part ++ exponent)) :=
          span_cons_of_none (by decide)
        obtain ⟨ds, first, none⟩ := before.span_append point
        obtain ⟨es, second, none'⟩ := after.span_append scaled.span_eq
        rw [List.append_assoc, List.cons_append, readLiteral?_of_point first second]
        rw [ne_eq, ne_eq, ← none, ← none'] at ne
        exact ⟨ne, scaled⟩

theorem isSome_named?_iff : (named? cs).isSome ↔ cs.map Char.toLower ∈ names := by
  simp only [named?, names, List.mem_cons, List.not_mem_nil, or_false, ← or_assoc]
  split
  · simp [*]
  · split <;> simp [*]

theorem IsDecimal.unsigned (h : IsDecimal cs) : Unsigned (cs ++ rest) := by
  cases h with
  | whole digits ne => exact digits.unsigned ne
  | @point ds es before after ne =>
      rw [List.append_assoc]
      cases ds with
      | nil =>
          intro c same
          obtain rfl : '.' = c := by simpa using same
          decide
      | cons d ds => exact before.unsigned (by simp)

theorem unsigned_of_named (h : cs.map Char.toLower ∈ names) : Unsigned cs := by
  intro c first
  obtain ⟨cs, rfl⟩ : ∃ cs', cs = c :: cs' := by
    cases cs with
    | nil => cases first
    | cons d cs => exact ⟨cs, by simpa using first⟩
  constructor <;> rintro rfl <;> simp [names] at h

theorem isSome_ofText?_iff : (ofText? cs).isSome ↔ IsLiteral cs := by
  cases sign : readSign cs with
  | mk negative body =>
      have split : (ofText? cs).isSome ↔ (readLiteral? body).isSome ∨ (named? body).isSome := by
        simp only [ofText?, sign]
        cases readLiteral? body <;> simp
      rw [split, isSome_readLiteral?_iff, isSome_named?_iff]
      constructor
      · obtain ⟨sign, signed, rfl⟩ := readSign_spec sign
        rintro (⟨body, exponent, rfl, decimal, scaled⟩ | named)
        · exact .number signed decimal scaled
        · exact .name signed named
      · intro h
        cases h with
        | @number front body' exponent signed decimal scaled =>
            have unsigned : Unsigned (body' ++ exponent) := decimal.unsigned
            obtain ⟨negative', read⟩ := signed.readSign_append unsigned
            obtain ⟨-, rfl⟩ := Prod.mk.inj (sign.symm.trans read)
            exact .inl ⟨body', exponent, rfl, decimal, scaled⟩
        | name signed named =>
            obtain ⟨negative', read⟩ := signed.readSign_append (unsigned_of_named named)
            obtain ⟨-, rfl⟩ := Prod.mk.inj (sign.symm.trans read)
            exact .inr named

theorem Digits.not_blank (h : Digits cs) : ∀ c ∈ cs, Text.isBlank c = false := by
  intro c listed
  obtain ⟨d, value⟩ := isDigit_iff.mp (h c listed)
  rw [digitValue?_eq_some_iff] at value
  exact Text.isBlank_of_range (by omega)

theorem IsSign.not_blank (h : IsSign cs) : ∀ c ∈ cs, Text.isBlank c = false := by
  rcases h with rfl | rfl | rfl <;> simp [Text.isBlank, Text.blanks]

theorem not_blank_of_named (h : cs.map Char.toLower ∈ names) : ∀ c ∈ cs, Text.isBlank c = false := by
  intro c listed
  have letters : ∀ name ∈ names, ∀ c ∈ name, 97 ≤ c.toNat ∧ c.toNat ≤ 122 := by simp [names]
  have lower := letters _ h c.toLower (List.mem_map_of_mem listed)
  rw [toNat_toLower] at lower
  apply Text.isBlank_of_range
  split at lower <;> omega

theorem IsLiteral.not_blank (h : IsLiteral cs) : ∀ c ∈ cs, Text.isBlank c = false := by
  cases h with
  | number signed decimal scaled =>
      rw [List.forall_mem_append, List.forall_mem_append]
      refine ⟨signed.not_blank, ?_, ?_⟩
      · cases decimal with
        | whole digits ne => exact digits.not_blank
        | point before after ne =>
            rw [List.forall_mem_append, List.forall_mem_cons]
            exact ⟨before.not_blank, by decide, after.not_blank⟩
      · cases scaled with
        | absent => simp
        | present letter signed digits ne =>
            rw [List.forall_mem_cons, List.forall_mem_append]
            exact ⟨by rcases letter with rfl | rfl <;> decide, signed.not_blank, digits.not_blank⟩
  | name signed named =>
      rw [List.forall_mem_append]
      exact ⟨signed.not_blank, not_blank_of_named named⟩

theorem IsLiteral.ne_nil (h : IsLiteral cs) : cs ≠ [] := by
  rintro rfl
  exact absurd (isSome_ofText?_iff.mpr h) (by decide)

end Binary32

end Epidemic
