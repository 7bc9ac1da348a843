import Epidemic.Peer
import Epidemic.Proofs.Time.Order
import Mathlib.Logic.Relation
import Mathlib.Order.Defs.Unbundled

namespace Epidemic

open Instant (nanosPerSecond)

namespace Instant

variable {a b now : Instant}

theorem nanosSince_of_leap (leap : now.isLeap = true) (ha : a.isLeap = false) :
    now.nanosSince a =
      (now.seconds - a.seconds - if now.secondOfDay < a.secondOfDay then 1 else 0) *
        nanosPerSecond + (now.nanos - a.nanos) := by
  by_cases later : now.secondOfDay < a.secondOfDay
  · simp [nanosSince, leapCorrection, leap, ha, later, Int.sub_eq_add_neg]
  · simp [nanosSince, leapCorrection, ha, later]

theorem secondsSince_lt_of_wide (short : now.nanos < 2 * nanosPerSecond) (ha : a.isLeap = false)
    (hb : b.isLeap = false) (wide : 2 * nanosPerSecond ≤ a.nanosSince b) :
    now.secondsSince a < now.secondsSince b := by
  refine Int.lt_of_not_ge fun stale => ?_
  cases leap : now.isLeap with
  | false =>
      have near := (nanosSince_lt_of_secondsSince_le (.of_not_leap leap) ha hb stale).1
      exact absurd wide (Int.not_le.mpr near)
  | true =>
      obtain ⟨near, sided⟩ := sub_lt_of_tdiv_le stale
      rw [nanosSince_of_leap leap ha, nanosSince_of_leap leap hb] at near sided
      rw [nanosSince_of_not_leap ha hb] at wide
      rw [isLeap_eq_false] at ha hb
      have long : nanosPerSecond ≤ now.nanos := of_decide_eq_true leap
      -- A second taken off for `b` alone means a midnight between the two, and then the clock is
      -- not between them unless they are a day apart.
      simp only [nanosPerSecond, secondOfDay, secondsPerDay] at *
      omega

end Instant

namespace Peer

variable {p q : Peer} {now : Instant}

theorem lt_of_supersedes (hn : now.Regular) (hp : p.generated.isLeap = false)
    (hq : q.generated.isLeap = false) (h : p.supersedes q now = true) :
    q.generated < p.generated :=
  Instant.not_le_iff.mp (Instant.not_le_of_secondsSince_lt hn hp hq (of_decide_eq_true h))

structure Overtakes (p q : Peer) : Prop where
  candidate : p.generated.isLeap = false
  stored : q.generated.isLeap = false
  verdict : ∃ now : Instant, now.Regular ∧ p.supersedes q now = true

theorem Overtakes.lt (h : Overtakes p q) : q.generated < p.generated := by
  obtain ⟨now, regular, fresher⟩ := h.verdict
  exact lt_of_supersedes regular h.candidate h.stored fresher

theorem lt_of_overtakes_all (h : Relation.TransGen Overtakes p q) : q.generated < p.generated := by
  induction h with
  | single first => exact first.lt
  | tail _ last ih => exact Instant.lt_trans last.lt ih

theorem not_overtakes_all_self (p : Peer) : ¬Relation.TransGen Overtakes p p :=
  fun cycle => Instant.lt_irrefl _ (lt_of_overtakes_all cycle)

theorem supersedes_iff : p.supersedes q now = true ↔ p.elapsed now < q.elapsed now :=
  decide_eq_true_iff

theorem supersedes_strictWeakOrder (now : Instant) :
    IsStrictWeakOrder Peer fun p q => p.supersedes q now = true where
  irrefl p := by
    rw [supersedes_iff]
    omega
  trans p q r := by
    simp only [supersedes_iff]
    omega
  incomp_trans p q r := by
    simp only [supersedes_iff]
    omega

theorem supersedes_of_ahead (hn : now.Regular) (hp : p.generated.isLeap = false)
    (hq : q.generated.isLeap = false)
    (ahead : nanosPerSecond ≤ p.generated.nanosSince q.generated) (past : p.generated ≤ now) :
    p.supersedes q now = true := by
  refine supersedes_iff.mpr (Int.lt_of_not_ge fun stale => ?_)
  have near := (Instant.nanosSince_lt_of_secondsSince_le hn hp hq stale).2 past
  exact absurd ahead (Int.not_le.mpr near)

theorem verdicts_agree {a b c : Peer} {t₁ t₂ t₃ : Instant} (ha : a.generated.isLeap = false)
    (hb : b.generated.isLeap = false) (hc : c.generated.isLeap = false) (h₁ : t₁.Regular)
    (h₂ : t₂.Regular) (h₃ : t₃.Regular) :
    (a.supersedes b t₁ = true → b.generated < a.generated) ∧
      ¬(a.supersedes b t₁ = true ∧ b.supersedes a t₂ = true) ∧
      ¬(a.supersedes b t₁ = true ∧ b.supersedes c t₂ = true ∧ c.supersedes a t₃ = true) ∧
      (∀ p, ¬Relation.TransGen Overtakes p p) ∧
      (∀ t, IsStrictWeakOrder Peer fun p q => p.supersedes q t = true) ∧
      (nanosPerSecond ≤ a.generated.nanosSince b.generated → a.generated ≤ t₁ →
        a.supersedes b t₁ = true) ∧
      (2 * nanosPerSecond ≤ a.generated.nanosSince b.generated →
        ∀ t, t.nanos < 2 * nanosPerSecond → a.supersedes b t = true) := by
  have ahead : a.supersedes b t₁ = true → Overtakes a b := fun first => ⟨ha, hb, t₁, h₁, first⟩
  refine ⟨lt_of_supersedes h₁ ha hb, ?_, ?_, not_overtakes_all_self, supersedes_strictWeakOrder,
    supersedes_of_ahead h₁ ha hb, fun wide t short => ?_⟩
  · rintro ⟨first, second⟩
    exact not_overtakes_all_self a (.tail (.single (ahead first)) ⟨hb, ha, t₂, h₂, second⟩)
  · rintro ⟨first, second, third⟩
    exact not_overtakes_all_self a (.tail (.tail (.single (ahead first)) ⟨hb, hc, t₂, h₂, second⟩)
      ⟨hc, ha, t₃, h₃, third⟩)
  · exact supersedes_iff.mpr (Instant.secondsSince_lt_of_wide short ha hb wide)

theorem verdicts_agree_leap :
    let made (t : Instant) := Peer.stub ⟨[1]⟩ (.v4 ⟨10, 0, 0, 1⟩ 7000) t
    let a := made ⟨86302, 500000000⟩
    let b := made ⟨86300, 500000000⟩
    let c := made ⟨86290, 0⟩
    let leap : Instant := ⟨86399, 1900000000⟩
    leap.isLeap = true ∧ leap.Regular ∧ a.supersedes b leap = true ∧ b.generated < a.generated ∧
      b.supersedes c ⟨86295, 0⟩ = true ∧ ¬c.supersedes a ⟨0, 0⟩ = true ∧
      a.supersedes b ⟨0, 0⟩ = true := by
  intro made a b c leap
  have regular : leap.Regular := by decide
  obtain ⟨order, -, cycle, -, -, past, wide⟩ :=
    @verdicts_agree a b c leap ⟨86295, 0⟩ ⟨0, 0⟩ (by decide) (by decide) (by decide) regular
      (by decide) (by decide)
  have first : a.supersedes b leap = true := past (by decide) (by decide)
  have second : b.supersedes c ⟨86295, 0⟩ = true := by decide
  exact ⟨by decide, regular, first, order first, second,
    fun third => cycle ⟨first, second, third⟩, wide (by decide) _ (by decide)⟩

theorem verdicts_differ_leap :
    let made (t : Instant) := Peer.stub ⟨[1]⟩ (.v4 ⟨10, 0, 0, 1⟩ 7000) t
    let a := made ⟨-1, 500000000⟩
    let b := made ⟨0, 0⟩
    let c := made ⟨-1, 800000000⟩
    let d := made ⟨0, 500000000⟩
    let leap : Instant := ⟨59, 1200000000⟩
    leap.Valid ∧ (∀ p ∈ [a, b, c, d], p.generated.isLeap = false ∧ p.generated ≤ leap) ∧
      (a.supersedes b leap = true ∧ a.generated < b.generated) ∧
      b.supersedes a ⟨100, 500000000⟩ = true ∧
      (b.supersedes c ⟨100, 800000000⟩ = true ∧ c.supersedes a ⟨100, 500000000⟩ = true) ∧
      nanosPerSecond ≤ d.generated.nanosSince a.generated ∧ d.supersedes a leap = false := by
  decide

end Peer

end Epidemic
