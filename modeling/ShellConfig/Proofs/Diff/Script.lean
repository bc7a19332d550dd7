import ShellConfig.Diff.Markdown
import ShellConfig.Proofs.Text.Lines

/-!
# Differences as scripts

A difference is a script: read from the top, it takes each line of the first list away or over, and
puts the lines between that are new. Main statements: `isScript_walk`, that the walk over two lists
writes a script that leads from one to the other; and `between_tells`, that no line of either list
is lost, doubled or misnumbered, and that only equal texts have no changes.
-/

namespace ShellConfig

namespace DiffLine

variable {j : Nat} {ls : List DiffLine} {xs ys : List Text}

/-! ### Scripts -/

/-- Lines that lead from the first list to the second, which has lost `j` lines already. -/
inductive IsScript : Nat → List DiffLine → List Text → List Text → Prop
  | nil (j : Nat) : IsScript j [] [] []
  | keep {j : Nat} {ls : List DiffLine} {xs ys : List Text} (x : Text)
      (h : IsScript (j + 1) ls xs ys) :
      IsScript j (⟨.unchanged, x, some (j + 1)⟩ :: ls) (x :: xs) (x :: ys)
  | remove {j : Nat} {ls : List DiffLine} {xs ys : List Text} (x : Text)
      (h : IsScript j ls xs ys) : IsScript j (⟨.remove, x, none⟩ :: ls) (x :: xs) ys
  | add {j : Nat} {ls : List DiffLine} {xs ys : List Text} (y : Text)
      (h : IsScript (j + 1) ls xs ys) :
      IsScript j (⟨.add, y, some (j + 1)⟩ :: ls) xs (y :: ys)

/-- The walk over two lists writes a script. Whatever a step decides, it tells what it takes. -/
theorem isScript_walk (j : Nat) (xs ys : List Text) : IsScript j (walk j xs ys) xs ys := by
  fun_induction walk j xs ys with
  | case1 j => exact .nil j
  | case2 j y ys ih => exact .add y ih
  | case3 j x xs ih => exact .remove x ih
  | case4 j xs y ys ih => exact .keep y ih
  | case5 j x xs y ys _ _ ih => exact .remove x ih
  | case6 j x xs y ys _ _ ih => exact .add y ih
  | case7 j x xs y ys _ _ ih => exact .remove x (.add y ih)

namespace IsScript

/-- Without the added lines, the first list is left. -/
theorem before (h : IsScript j ls xs ys) :
    (ls.filter (·.change ≠ .add)).map (·.content) = xs := by
  induction h with
  | nil => rfl
  | keep x _ ih => simpa using ih
  | remove x _ ih => simpa using ih
  | add y _ ih => simpa using ih

/-- Without the removed lines, the second list is left. -/
theorem after (h : IsScript j ls xs ys) :
    (ls.filter (·.change ≠ .remove)).map (·.content) = ys := by
  induction h with
  | nil => rfl
  | keep x _ ih => simpa using ih
  | remove x _ ih => simpa using ih
  | add y _ ih => simpa using ih

/-- The lines of the second list are numbered as they stand there. -/
theorem numbers (h : IsScript j ls xs ys) :
    (ls.filter (·.change ≠ .remove)).map (·.lineNumber) =
      (List.range' (j + 1) ys.length).map fun n => some (n : Int) := by
  induction h with
  | nil => rfl
  | keep x _ ih => simpa [List.range'_succ] using ih
  | remove x _ ih => simpa using ih
  | add y _ ih => simpa [List.range'_succ] using ih

theorem lineNumber_eq_none (h : IsScript j ls xs ys) {l : DiffLine} (hl : l ∈ ls)
    (hremove : l.change = .remove) : l.lineNumber = none := by
  induction h with
  | nil => cases hl
  | keep x _ ih =>
    rcases List.mem_cons.1 hl with rfl | hl
    · cases hremove
    · exact ih hl
  | remove x _ ih =>
    rcases List.mem_cons.1 hl with rfl | hl
    · rfl
    · exact ih hl
  | add y _ ih =>
    rcases List.mem_cons.1 hl with rfl | hl
    · cases hremove
    · exact ih hl

theorem eq_of_countOf (h : IsScript j ls xs ys) (hadd : countOf .add ls = 0)
    (hremove : countOf .remove ls = 0) : xs = ys := by
  have hnone : ∀ c, countOf c ls = 0 → ls.filter (·.change ≠ c) = ls := by
    intro c hc
    apply List.filter_eq_self.2
    intro l hl
    have hl' := List.countP_eq_zero.1 hc l hl
    simpa using hl'
  have hbefore := h.before
  have hafter := h.after
  rw [hnone _ hadd] at hbefore
  rw [hnone _ hremove] at hafter
  rw [← hbefore, ← hafter]

end IsScript

theorem change_of_mem_walk_self {l : DiffLine} (h : l ∈ walk j xs xs) : l.change = .unchanged := by
  induction xs generalizing j with
  | nil =>
    rw [walk] at h
    cases h
  | cons x xs ih =>
    rw [walk, if_pos rfl, List.mem_cons] at h
    rcases h with rfl | h
    · rfl
    · exact ih h

theorem countOf_walk_self {c : Change} (hc : c ≠ .unchanged) (j : Nat) (xs : List Text) :
    countOf c (walk j xs xs) = 0 := by
  apply List.countP_eq_zero.2
  intro l hl
  rw [change_of_mem_walk_self hl]
  simpa using hc.symm

/-- What a difference tells of two lists of lines: nothing of them is lost, doubled, reordered or
misnumbered. -/
structure Tells (xs ys : List Text) (ls : List DiffLine) : Prop where
  before : (ls.filter (·.change ≠ .add)).map (·.content) = xs
  after : (ls.filter (·.change ≠ .remove)).map (·.content) = ys
  numbers : (ls.filter (·.change ≠ .remove)).map (·.lineNumber) =
    (List.range' 1 ys.length).map fun n => some (n : Int)
  unnumbered : ∀ l ∈ ls, l.change = .remove → l.lineNumber = none

theorem IsScript.tells (h : IsScript 0 ls xs ys) : Tells xs ys ls :=
  ⟨h.before, h.after, h.numbers, fun _ hl => h.lineNumber_eq_none hl⟩

end DiffLine

namespace Diff

open DiffLine

variable {t u : Text}

/-! ### Differences of texts -/

theorem hasChanges_between_eq_false (t u : Text) (context : Int) :
    (between t u context).hasChanges = false ↔
      countOf .add (between t u context).lines = 0 ∧
        countOf .remove (between t u context).lines = 0 := by
  have hadd : (between t u context).additions = countOf .add (between t u context).lines := rfl
  have hremove : (between t u context).deletions =
    countOf .remove (between t u context).lines := rfl
  unfold hasChanges tellsChange
  rw [hadd, hremove]
  simp

theorem eq_of_splitOn (h : t.splitOn '\n' = u.splitOn '\n') : t = u := by
  rw [← Text.join_splitOn '\n' t, h, Text.join_splitOn]

theorem hasChanges_between (t u : Text) (context : Int) :
    (between t u context).hasChanges = false ↔ t = u := by
  rw [hasChanges_between_eq_false]
  constructor
  · rintro ⟨hadd, hremove⟩
    exact eq_of_splitOn ((isScript_walk 0 _ _).eq_of_countOf hadd hremove)
  · rintro rfl
    exact ⟨countOf_walk_self (by decide) 0 _, countOf_walk_self (by decide) 0 _⟩

/-- **What a difference tells.** Without the added lines it is the first list and without the
removed ones the second, whose lines it numbers as they stand there. Of two texts it tells the same
of their lines, has changes unless the texts are equal, and counts its added and removed lines. -/
theorem between_tells :
    (∀ before after, Tells before after (DiffLine.between before after)) ∧
      ∀ t u context, Tells (t.splitOn '\n') (u.splitOn '\n') (between t u context).lines ∧
        ((between t u context).hasChanges = false ↔ t = u) ∧
        (between t u context).additions =
          ((between t u context).lines.filter (·.change = .add)).length ∧
        (between t u context).deletions =
          ((between t u context).lines.filter (·.change = .remove)).length := by
  have htells : ∀ before after, Tells before after (DiffLine.between before after) :=
    fun before after => (isScript_walk 0 before after).tells
  refine ⟨htells, fun t u context => ⟨htells _ _, hasChanges_between t u context, ?_, ?_⟩⟩
  · rw [← List.countP_eq_length_filter]
    rfl
  · rw [← List.countP_eq_length_filter]
    rfl

/-- Both first lines come back in the other list, the second one sooner. -/
example : DiffLine.between [['a'], ['b'], ['c'], ['a']] [['b'], ['c'], ['a']] =
    [⟨.remove, ['a'], none⟩, ⟨.unchanged, ['b'], some 1⟩, ⟨.unchanged, ['c'], some 2⟩,
      ⟨.unchanged, ['a'], some 3⟩] := by
  cbv

end Diff
end ShellConfig
