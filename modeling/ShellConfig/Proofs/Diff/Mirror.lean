import ShellConfig.Proofs.Diff.Script

/-!
# Differences the other way around

What a difference tells if its two lists are exchanged. Main statements: `step_mirror`, that the
choice at two lines that differ does not depend on which list comes first; `mirrors_walk`, that the
two walks over the lists go through them in step; and `between_exchanged`, that what one of the
differences adds the other removes, while both leave the same lines unchanged.
-/

namespace ShellConfig

/-- The change to a line if the two lists are exchanged. -/
def Change.mirror : Change → Change
  | add => remove
  | remove => add
  | unchanged => unchanged

namespace DiffLine

variable {ls ls' : List DiffLine}

/-! ### One step -/

/-- The step at two lines that differ if the two lists are exchanged. -/
def Step.mirror : Step → Step
  | remove => add
  | add => remove
  | replace => replace

/-- Both distances are looked at in the same way, so that the choice is mirrored. -/
theorem step_mirror (x y : Text) (xs ys : List Text) :
    step y x ys xs = (step x y xs ys).mirror := by
  unfold step
  cases ys.idxOf? x with
  | none => cases xs.idxOf? y <;> rfl
  | some a =>
    cases xs.idxOf? y with
    | none => rfl
    | some r =>
      rcases Nat.lt_trichotomy r a with h | rfl | h
      · simp [h, Nat.lt_asymm h, Step.mirror]
      · simp [Step.mirror]
      · simp [h, Nat.lt_asymm h, Step.mirror]

/-! ### Whole walks -/

/-- Two differences go through exchanged lists in step. Where a line takes the place of another,
both tell first what they remove. -/
inductive Mirrors : List DiffLine → List DiffLine → Prop
  | nil : Mirrors [] []
  | keep {ls ls' : List DiffLine} (x : Text) (m n : Option Int) (h : Mirrors ls ls') :
      Mirrors (⟨.unchanged, x, m⟩ :: ls) (⟨.unchanged, x, n⟩ :: ls')
  | remove {ls ls' : List DiffLine} (x : Text) (m n : Option Int) (h : Mirrors ls ls') :
      Mirrors (⟨.remove, x, m⟩ :: ls) (⟨.add, x, n⟩ :: ls')
  | add {ls ls' : List DiffLine} (y : Text) (m n : Option Int) (h : Mirrors ls ls') :
      Mirrors (⟨.add, y, m⟩ :: ls) (⟨.remove, y, n⟩ :: ls')
  | replace {ls ls' : List DiffLine} (x y : Text) (k l m n : Option Int) (h : Mirrors ls ls') :
      Mirrors (⟨.remove, x, k⟩ :: ⟨.add, y, l⟩ :: ls) (⟨.remove, y, m⟩ :: ⟨.add, x, n⟩ :: ls')

/-- The walks over two lists and over the lists exchanged go through them in step, wherever the
numbers of their lines begin. -/
theorem mirrors_walk (i j : Nat) (xs ys : List Text) :
    Mirrors (walk i xs ys) (walk j ys xs) := by
  fun_induction walk i xs ys generalizing j with
  | case1 i =>
    rw [walk]
    exact .nil
  | case2 i y ys ih =>
    rw [walk]
    exact .add y _ _ (ih j)
  | case3 i x xs ih =>
    rw [walk]
    exact .remove x _ _ (ih (j + 1))
  | case4 i xs y ys ih =>
    rw [walk, if_pos rfl]
    exact .keep y _ _ (ih (j + 1))
  | case5 i x xs y ys hne hstep ih =>
    rw [walk, if_neg (Ne.symm hne), step_mirror, hstep]
    exact .remove x _ _ (ih (j + 1))
  | case6 i x xs y ys hne hstep ih =>
    rw [walk, if_neg (Ne.symm hne), step_mirror, hstep]
    exact .add y _ _ (ih j)
  | case7 i x xs y ys hne hstep ih =>
    rw [walk, if_neg (Ne.symm hne), step_mirror, hstep]
    exact .replace x y _ _ _ _ (ih (j + 1))

/-- What the lines with a change say, in order. -/
def contentsOf (c : Change) (ls : List DiffLine) : List Text :=
  (ls.filter (·.change = c)).map (·.content)

theorem length_contentsOf (c : Change) (ls : List DiffLine) :
    (contentsOf c ls).length = countOf c ls := by
  rw [contentsOf, List.length_map, countOf, List.countP_eq_length_filter]

/-- What one difference tells of a change, the other tells of the mirrored one. -/
theorem Mirrors.contentsOf_mirror (h : Mirrors ls ls') (c : Change) :
    contentsOf c.mirror ls' = contentsOf c ls := by
  unfold contentsOf
  induction h with
  | nil => rfl
  | keep x m n _ ih => cases c <;> simpa [Change.mirror] using ih
  | remove x m n _ ih => cases c <;> simpa [Change.mirror] using ih
  | add y m n _ ih => cases c <;> simpa [Change.mirror] using ih
  | replace x y k l m n _ ih => cases c <;> simpa [Change.mirror] using ih

theorem Mirrors.countOf_mirror (h : Mirrors ls ls') (c : Change) :
    countOf c.mirror ls' = countOf c ls := by
  rw [← length_contentsOf, h.contentsOf_mirror, length_contentsOf]

end DiffLine

namespace Diff

open DiffLine

/-- **Exchanging two texts.** The difference from the second text to the first adds as many lines as
that from the first to the second removes, and removes as many as that adds: the same lines in the
same order. The lines that stay unchanged are the same in both. -/
theorem between_exchanged (t u : Text) (context : Int) :
    (between u t context).additions = (between t u context).deletions ∧
      (between u t context).deletions = (between t u context).additions ∧
      contentsOf .unchanged (between u t context).lines =
        contentsOf .unchanged (between t u context).lines ∧
      contentsOf .add (between u t context).lines =
        contentsOf .remove (between t u context).lines ∧
      contentsOf .remove (between u t context).lines =
        contentsOf .add (between t u context).lines := by
  have hmirrors : Mirrors (between t u context).lines (between u t context).lines :=
    mirrors_walk 0 0 _ _
  have hadd :
      countOf .add (between u t context).lines = countOf .remove (between t u context).lines :=
    hmirrors.countOf_mirror .remove
  have hremove :
      countOf .remove (between u t context).lines = countOf .add (between t u context).lines :=
    hmirrors.countOf_mirror .add
  exact ⟨congrArg Nat.cast hadd, congrArg Nat.cast hremove, hmirrors.contentsOf_mirror .unchanged,
    hmirrors.contentsOf_mirror .remove, hmirrors.contentsOf_mirror .add⟩

end Diff
end ShellConfig
