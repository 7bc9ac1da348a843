import Epidemic.Proofs.Registry.Operations
import Epidemic.Round

namespace Epidemic

namespace Selector

variable {α : Type} {s s' : Selector} {pool : List α}

theorem choose_of_two (s : Selector) (two : 2 ≤ pool.length) :
    s.choose pool =
      ({ s with calls := s.calls + 1 }, pool[s.pick s.calls pool.length % pool.length]?) := by
  match pool, two with
  | _ :: _ :: _, _ => rfl

theorem choose_fst (s : Selector) (pool : List α) :
    (s.choose pool).1 = { s with calls := s.calls + if 2 ≤ pool.length then 1 else 0 } := by
  match pool with
  | [] => rfl
  | [_] => rfl
  | a :: b :: pool => rw [choose_of_two s (by simp), if_pos (by simp)]

theorem choose_nil (s : Selector) : (s.choose ([] : List α)).2 = none := rfl

theorem choose_of_ne_nil (s : Selector) (some : pool ≠ []) :
    ∃ a, (s.choose pool).2 = .some a ∧
      pool[s.pick s.calls pool.length % pool.length]? = .some a := by
  match pool, some with
  | [a], _ => exact ⟨a, rfl, by rw [List.length_singleton, Nat.mod_one]; rfl⟩
  | a :: b :: pool, _ =>
      have inside : s.pick s.calls (a :: b :: pool).length % (a :: b :: pool).length <
          (a :: b :: pool).length := Nat.mod_lt _ (by simp)
      exact ⟨_, List.getElem?_eq_getElem inside, List.getElem?_eq_getElem inside⟩

theorem choose_congr
    (same : 2 ≤ pool.length → s'.pick s'.calls pool.length = s.pick s.calls pool.length) :
    (s'.choose pool).2 = (s.choose pool).2 := by
  match pool with
  | [] => rfl
  | [_] => rfl
  | a :: b :: pool => rw [choose_of_two s (by simp), choose_of_two s' (by simp), same (by simp)]

end Selector

namespace Registry

variable {r : Registry}

theorem eligibleSeeds_sublist (r : Registry) : r.eligibleSeeds.Sublist r.seeds := by
  unfold eligibleSeeds
  split
  · exact List.filter_sublist
  · exact .refl _

theorem mem_eligibleSeeds_iff {a : Endpoint} :
    a ∈ r.eligibleSeeds ↔
      a ∈ r.seeds ∧ (a ≠ r.owned.address ∨ ∀ b ∈ r.seeds, b = r.owned.address) := by
  unfold eligibleSeeds
  split
  · rename_i others
    obtain ⟨b, listed, other⟩ := List.any_eq_true.mp others
    have mixed : ¬∀ b ∈ r.seeds, b = r.owned.address :=
      fun own => of_decide_eq_true other (own b listed)
    simp [mixed]
  · rename_i none
    have own : ∀ b ∈ r.seeds, b = r.owned.address := by simpa using none
    exact ⟨fun listed => ⟨listed, .inr own⟩, And.left⟩

theorem eligibleSeeds_eq_nil_iff : r.eligibleSeeds = [] ↔ r.seeds = [] := by
  constructor
  · intro none
    have own : ∀ b ∈ r.seeds, b = r.owned.address := fun b seed =>
      Decidable.byContradiction fun other =>
        List.not_mem_nil (none ▸ mem_eligibleSeeds_iff.mpr ⟨seed, .inl other⟩)
    exact List.eq_nil_iff_forall_not_mem.mpr fun a seed =>
      List.not_mem_nil (none ▸ mem_eligibleSeeds_iff.mpr ⟨seed, .inr own⟩)
  · intro none
    exact List.sublist_nil.mp (none ▸ r.eligibleSeeds_sublist)

def questions (r : Registry) : List Nat :=
  [r.eligibleSeeds.length, r.others.length].filter (2 ≤ ·)

def seedQuestions (r : Registry) : Nat :=
  if 2 ≤ r.eligibleSeeds.length then 1 else 0

theorem length_questions (r : Registry) :
    r.questions.length = r.seedQuestions + if 2 ≤ r.others.length then 1 else 0 := by
  unfold questions seedQuestions
  by_cases seeds : 2 ≤ r.eligibleSeeds.length <;> by_cases members : 2 ≤ r.others.length <;>
    simp [seeds, members]

theorem questions_seeds (two : 2 ≤ r.eligibleSeeds.length) :
    r.questions[0]? = some r.eligibleSeeds.length := by
  simp [questions, two]

theorem questions_others (two : 2 ≤ r.others.length) :
    r.questions[r.seedQuestions]? = some r.others.length := by
  unfold questions seedQuestions
  by_cases seeds : 2 ≤ r.eligibleSeeds.length <;> simp [seeds, two]

structure Targeted (r : Registry) (s : Selector) (seed : Endpoint) (further : List Target) :
    Prop where
  listed : seed ∈ r.seeds
  elsewhere : (∃ a ∈ r.seeds, a ≠ r.owned.address) → seed ≠ r.owned.address
  place : r.eligibleSeeds[s.pick s.calls r.eligibleSeeds.length % r.eligibleSeeds.length]? =
    some seed
  further : r.others = [] ∧ further = [] ∨
    ∃ p ∈ r.others, p ∈ r.list ∧ p.key ≠ r.selfKey ∧ p.isSelf = false ∧
      further = [⟨p.address, some p⟩] ∧
      r.others[s.pick (s.calls + r.seedQuestions) r.others.length % r.others.length]? = some p

theorem targets_of_none {s : Selector} (none : (s.choose r.eligibleSeeds).2 = none) :
    r.targets s = ((s.choose r.eligibleSeeds).1, .error .noSeeds) := by
  have first : s.choose r.eligibleSeeds = ((s.choose r.eligibleSeeds).1, .none) := Prod.ext rfl none
  rw [targets, first]

theorem targets_eq {s : Selector} {seed : Endpoint}
    (chosen : (s.choose r.eligibleSeeds).2 = some seed) :
    r.targets s =
      let asked : Selector := { s with calls := s.calls + r.seedQuestions }
      ((asked.choose r.others).1,
        .ok (.seed seed :: ((asked.choose r.others).2.map Target.ofPeer).toList)) := by
  have first : s.choose r.eligibleSeeds = ({ s with calls := s.calls + r.seedQuestions }, some seed) :=
    Prod.ext (s.choose_fst _) chosen
  simp only [targets, first, r.sound.known_eq]
  split <;> rename_i second <;> simp [second]

theorem targets_of_seeds (r : Registry) (s : Selector) (seeds : r.seeds ≠ []) :
    ∃ seed further, (r.targets s).2 = .ok (⟨seed, none⟩ :: further) ∧ r.Targeted s seed further := by
  obtain ⟨seed, chosen, place⟩ := s.choose_of_ne_nil (mt eligibleSeeds_eq_nil_iff.mp seeds)
  obtain ⟨listed, own⟩ := mem_eligibleSeeds_iff.mp (List.mem_of_getElem? place)
  have elsewhere : (∃ a ∈ r.seeds, a ≠ r.owned.address) → seed ≠ r.owned.address := by
    rintro ⟨a, other, apart⟩
    exact own.resolve_right fun all => apart (all a other)
  refine ⟨seed, _, congrArg Prod.snd (targets_eq chosen), listed, elsewhere, place, ?_⟩
  by_cases alone : r.others = []
  · rw [alone]
    exact .inl ⟨rfl, rfl⟩
  · let asked : Selector := { s with calls := s.calls + r.seedQuestions }
    obtain ⟨p, second, place⟩ := asked.choose_of_ne_nil alone
    have known := List.mem_of_getElem? place
    refine .inr ⟨p, known, List.mem_cons_of_mem _ known, r.sound.key_ne_selfKey known,
      r.sound.isSelf_others p known, ?_, place⟩
    rw [second]
    rfl

theorem targets_congr {s s' : Selector} (calls : s'.calls = s.calls)
    (same : ∀ i n, r.questions[i]? = some n → s'.pick (s.calls + i) n = s.pick (s.calls + i) n) :
    (r.targets s').2 = (r.targets s).2 := by
  have seeds : (s'.choose r.eligibleSeeds).2 = (s.choose r.eligibleSeeds).2 :=
    Selector.choose_congr fun two => calls ▸ same 0 _ (questions_seeds two)
  cases chosen : (s.choose r.eligibleSeeds).2 with
  | none => rw [targets_of_none chosen, targets_of_none (seeds.trans chosen)]
  | some seed =>
      rw [targets_eq chosen, targets_eq (seeds.trans chosen)]
      have members :
          (Selector.choose { s' with calls := s'.calls + r.seedQuestions } r.others).2 =
            (Selector.choose { s with calls := s.calls + r.seedQuestions } r.others).2 :=
        Selector.choose_congr fun two => calls ▸ same _ _ (questions_others two)
      simp only [members]

theorem targets_chosen (r : Registry) (s : Selector) :
    r.seeds = [] ∧ r.targets s = (s, .error .noSeeds) ∨
      r.seeds ≠ [] ∧
        (∃ seed further, (r.targets s).2 = .ok (⟨seed, none⟩ :: further) ∧
          r.Targeted s seed further) ∧
        (r.eligibleSeeds.Sublist r.seeds ∧ ∀ a, a ∈ r.eligibleSeeds ↔
          a ∈ r.seeds ∧ (a ≠ r.owned.address ∨ ∀ b ∈ r.seeds, b = r.owned.address)) ∧
        (r.targets s).1 = { s with calls := s.calls + r.questions.length } ∧
        (∀ n ∈ r.questions, 2 ≤ n) ∧
        ∀ s' : Selector, s'.calls = s.calls →
          (∀ i n, r.questions[i]? = some n → s'.pick (s.calls + i) n = s.pick (s.calls + i) n) →
          (r.targets s').2 = (r.targets s).2 := by
  by_cases none : r.seeds = []
  · have empty := eligibleSeeds_eq_nil_iff.mpr none
    refine .inl ⟨none, ?_⟩
    rw [targets_of_none (by rw [empty, Selector.choose_nil]), empty]
    rfl
  · obtain ⟨seed, chosen, -⟩ := s.choose_of_ne_nil (mt eligibleSeeds_eq_nil_iff.mp none)
    refine .inr ⟨none, r.targets_of_seeds s none,
      ⟨r.eligibleSeeds_sublist, fun a => mem_eligibleSeeds_iff⟩, ?_, fun n asked => ?_,
      fun s' => targets_congr⟩
    · rw [targets_eq chosen, Selector.choose_fst, length_questions, ← Nat.add_assoc]
    · exact of_decide_eq_true (List.mem_filter.mp asked).2

end Registry

end Epidemic
