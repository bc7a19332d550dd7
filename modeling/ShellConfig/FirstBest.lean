/-!
# The first of the best

The element of a list with the highest score, and of several the earliest.
-/

namespace ShellConfig

variable {α : Type _}

/-- The earliest element of a list that no other one outscores. -/
def firstBest (score : α → Nat) : List α → Option α
  | [] => none
  | a :: l =>
    match firstBest score l with
    | none => some a
    | some b => if score a < score b then some b else some a

theorem firstBest_eq_none_iff {score : α → Nat} {l : List α} :
    firstBest score l = none ↔ l = [] := by
  cases l with
  | nil => simp [firstBest]
  | cons a l =>
    simp only [firstBest, reduceCtorEq, iff_false]
    cases firstBest score l with
    | none => simp
    | some b => by_cases h : score a < score b <;> simp [h]

/-- The best element has a higher score than all before it, and none behind it has a higher one. -/
theorem exists_of_firstBest {score : α → Nat} {l : List α} {b : α}
    (h : firstBest score l = some b) :
    ∃ as bs, l = as ++ b :: bs ∧ (∀ a ∈ as, score a < score b) ∧ ∀ c ∈ bs, score c ≤ score b := by
  induction l generalizing b with
  | nil => simp [firstBest] at h
  | cons a l ih =>
    simp only [firstBest] at h
    cases hl : firstBest score l with
    | none =>
      rw [hl, Option.some.injEq] at h
      subst h
      rw [firstBest_eq_none_iff.1 hl]
      exact ⟨[], [], rfl, by simp, by simp⟩
    | some c =>
      obtain ⟨as, bs, rfl, has, hbs⟩ := ih hl
      rw [hl] at h
      by_cases hc : score a < score c
      · simp only [hc, if_true, Option.some.injEq] at h
        subst h
        exact ⟨a :: as, bs, rfl, by simpa [hc] using has, hbs⟩
      · simp only [hc, if_false, Option.some.injEq] at h
        subst h
        refine ⟨[], as ++ c :: bs, rfl, by simp, fun x hx => ?_⟩
        rw [List.mem_append, List.mem_cons] at hx
        rcases hx with hx | rfl | hx
        · have := has x hx
          omega
        · omega
        · have := hbs x hx
          omega

end ShellConfig
