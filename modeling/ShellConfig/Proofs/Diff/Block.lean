import ShellConfig.Proofs.Diff.Script

/-!
# Blocks in a difference

A block of lines that is put in, taken out or exchanged for another is told as that and as nothing
else, if its lines are fresh: then no line comes back where the walk looks ahead, except those of
the common end, and these come back only where the block is over. Main statements: `walk_append`,
that a common front stays unchanged; `walk_exchanged`, that the walk goes through two blocks line by
line and finds their common end again; and `between_block`, what is told of the whole lists.
-/

namespace ShellConfig

namespace DiffLine

variable {c : Change} {j : Nat} {ps ss xs ys : List Text} {x y : Text}

/-! ### Lines told alike -/

/-- Lines of the second list that have the same change, numbered from behind `j`. -/
def told (c : Change) (j : Nat) : List Text → List DiffLine
  | [] => []
  | x :: xs => ⟨c, x, some (j + 1)⟩ :: told c (j + 1) xs

/-- Lines of the first list that are removed. -/
def removed (xs : List Text) : List DiffLine := xs.map fun x => ⟨.remove, x, none⟩

@[simp] theorem length_told (c : Change) (j : Nat) (xs : List Text) :
    (told c j xs).length = xs.length := by
  induction xs generalizing j with
  | nil => rfl
  | cons x xs ih => simp [told, ih]

theorem change_of_mem_told {l : DiffLine} (h : l ∈ told c j xs) : l.change = c := by
  induction xs generalizing j with
  | nil => cases h
  | cons x xs ih =>
    rcases List.mem_cons.1 h with rfl | h
    · rfl
    · exact ih h

theorem change_of_mem_removed {l : DiffLine} (h : l ∈ removed xs) : l.change = .remove := by
  obtain ⟨x, -, rfl⟩ := List.mem_map.1 h
  rfl

/-- Of lines with the same change, either all have another or none has. -/
theorem filter_of_change {ls : List DiffLine} (h : ∀ l ∈ ls, l.change = c) (d : Change) :
    ls.filter (·.change = d) = if c = d then ls else [] := by
  split
  · next hcd => exact List.filter_eq_self.2 fun l hl => decide_eq_true ((h l hl).trans hcd)
  · next hcd =>
    refine List.filter_eq_nil_iff.2 fun l hl => ?_
    rw [h l hl, decide_eq_true_eq]
    exact hcd

theorem filter_told (c d : Change) (j : Nat) (xs : List Text) :
    (told c j xs).filter (·.change = d) = if c = d then told c j xs else [] :=
  filter_of_change (fun _ => change_of_mem_told) d

theorem filter_removed (d : Change) (xs : List Text) :
    (removed xs).filter (·.change = d) = if .remove = d then removed xs else [] :=
  filter_of_change (fun _ => change_of_mem_removed) d

theorem countOf_append (c : Change) (ls ls' : List DiffLine) :
    countOf c (ls ++ ls') = countOf c ls + countOf c ls' := List.countP_append

theorem countOf_told_of_ne {d : Change} (h : d ≠ c) (j : Nat) (xs : List Text) :
    countOf c (told d j xs) = 0 := by
  rw [countOf, List.countP_eq_length_filter, filter_told, if_neg h, List.length_nil]

/-! ### Steps at fresh lines -/

/-- If both lines are gone from the rest of the other list, one takes the place of the other. -/
theorem step_of_fresh (hx : x ∉ ys) (hy : y ∉ xs) : step x y xs ys = .replace := by
  rw [step, List.idxOf?_eq_none_iff.2 hx, List.idxOf?_eq_none_iff.2 hy]

theorem step_of_new (hx : x ∈ ys) (hy : y ∉ xs) : step x y xs ys = .add := by
  rw [step, List.idxOf?_eq_none_iff.2 hy]
  cases hback : ys.idxOf? x with
  | none => exact absurd hx (List.idxOf?_eq_none_iff.1 hback)
  | some a => rfl

theorem step_of_gone (hx : x ∉ ys) (hy : y ∈ xs) : step x y xs ys = .remove := by
  rw [step, List.idxOf?_eq_none_iff.2 hx]
  cases hback : xs.idxOf? y with
  | none => exact absurd hy (List.idxOf?_eq_none_iff.1 hback)
  | some r => rfl

/-! ### Walks -/

/-- A common front stays unchanged, whatever stands behind it. -/
theorem walk_append (j : Nat) (ps xs ys : List Text) :
    walk j (ps ++ xs) (ps ++ ys) = told .unchanged j ps ++ walk (j + ps.length) xs ys := by
  induction ps generalizing j with
  | nil => rfl
  | cons p ps ih =>
    rw [List.cons_append, List.cons_append, walk, if_pos rfl, ih, List.length_cons,
      Nat.add_right_comm, ← Nat.add_assoc]
    rfl

theorem walk_same (j : Nat) (xs : List Text) : walk j xs xs = told .unchanged j xs := by
  have h := walk_append j xs [] []
  rw [List.append_nil, walk, List.append_nil] at h
  exact h

theorem walk_added (hys : ∀ y ∈ ys, y ∉ ss) (j : Nat) :
    walk j ss (ys ++ ss) = told .add j ys ++ told .unchanged (j + ys.length) ss := by
  induction ys generalizing j with
  | nil => exact walk_same j ss
  | cons y ys ih =>
    obtain ⟨hy, hys⟩ := List.forall_mem_cons.1 hys
    have hadd : walk j ss (y :: (ys ++ ss)) =
        ⟨.add, y, some (j + 1)⟩ :: walk (j + 1) ss (ys ++ ss) := by
      cases ss with
      | nil => rw [walk]
      | cons s ss =>
        rw [List.mem_cons, not_or] at hy
        rw [walk, if_neg (Ne.symm hy.1), step_of_new (by simp) hy.2]
    rw [List.cons_append, hadd, ih hys, List.length_cons, Nat.add_right_comm, ← Nat.add_assoc]
    rfl

theorem walk_removed (hxs : ∀ x ∈ xs, x ∉ ss) (j : Nat) :
    walk j (xs ++ ss) ss = removed xs ++ told .unchanged j ss := by
  induction xs with
  | nil => exact walk_same j ss
  | cons x xs ih =>
    obtain ⟨hx, hxs⟩ := List.forall_mem_cons.1 hxs
    have hremove : walk j (x :: (xs ++ ss)) ss = ⟨.remove, x, none⟩ :: walk j (xs ++ ss) ss := by
      cases ss with
      | nil => rw [walk]
      | cons s ss =>
        rw [List.mem_cons, not_or] at hx
        rw [walk, if_neg hx.1, step_of_gone hx.2 (by simp)]
    rw [List.cons_append, hremove, ih hxs]
    rfl

/-- Two blocks told line by line: as long as both have lines, one takes the place of another. -/
def exchanged (j : Nat) : List Text → List Text → List DiffLine
  | [], ys => told .add j ys
  | xs, [] => removed xs
  | x :: xs, y :: ys => ⟨.remove, x, none⟩ :: ⟨.add, y, some (j + 1)⟩ :: exchanged (j + 1) xs ys

theorem forall_not_mem_of_cons (h : ∀ x ∈ xs, x ∉ y :: ys ∧ x ∉ ss) :
    ∀ x ∈ xs, x ∉ ys ∧ x ∉ ss :=
  fun x hx => ⟨fun hmem => (h x hx).1 (List.mem_cons_of_mem y hmem), (h x hx).2⟩

/-- In front of a common end the walk exchanges two blocks if none of their lines is found in the
other block or in the end. -/
theorem walk_exchanged (hxs : ∀ x ∈ xs, x ∉ ys ∧ x ∉ ss) (hys : ∀ y ∈ ys, y ∉ xs ∧ y ∉ ss)
    (j : Nat) :
    walk j (xs ++ ss) (ys ++ ss) = exchanged j xs ys ++ told .unchanged (j + ys.length) ss := by
  fun_induction exchanged j xs ys with
  | case1 j ys => exact walk_added (fun y hy => (hys y hy).2) j
  | case2 j xs hne => exact walk_removed (fun x hx => (hxs x hx).2) j
  | case3 j x xs y ys ih =>
    obtain ⟨⟨hxy, hxss⟩, hxs⟩ := List.forall_mem_cons.1 hxs
    obtain ⟨⟨hyx, hyss⟩, hys⟩ := List.forall_mem_cons.1 hys
    rw [List.mem_cons, not_or] at hxy hyx
    have hstep : step x y (xs ++ ss) (ys ++ ss) = .replace :=
      step_of_fresh (by simp [hxy.2, hxss]) (by simp [hyx.2, hyss])
    have hrest := ih (forall_not_mem_of_cons hxs) (forall_not_mem_of_cons hys)
    rw [List.cons_append, List.cons_append, walk, if_neg hxy.1, hstep, hrest, List.length_cons,
      Nat.add_right_comm, ← Nat.add_assoc]
    rfl

/-! ### Blocks -/

/-- Lines of a difference exchange one block for another that stands behind `j` lines: those of the
first are removed and those of the second added, in order, and nothing else is told. -/
structure Exchanges (j : Nat) (xs ys : List Text) (block : List DiffLine) : Prop where
  removed : block.filter (·.change = .remove) = removed xs
  added : block.filter (·.change = .add) = told .add j ys
  changed : ∀ l ∈ block, l.change ≠ .unchanged

theorem exchanges_exchanged (j : Nat) (xs ys : List Text) :
    Exchanges j xs ys (exchanged j xs ys) := by
  fun_induction exchanged j xs ys with
  | case1 j ys =>
    refine ⟨filter_told .add .remove j ys, filter_told .add .add j ys, fun l hl => ?_⟩
    rw [change_of_mem_told hl]
    decide
  | case2 j xs hne =>
    refine ⟨filter_removed .remove xs, filter_removed .add xs, fun l hl => ?_⟩
    rw [change_of_mem_removed hl]
    decide
  | case3 j x xs y ys ih =>
    obtain ⟨hremoved, hadded, hchanged⟩ := ih
    refine ⟨?_, ?_, ?_⟩
    · simpa [DiffLine.removed] using hremoved
    · simpa [told] using hadded
    · simpa using hchanged

theorem Exchanges.countOf_add {block : List DiffLine} (h : Exchanges j xs ys block) :
    countOf .add block = ys.length := by
  rw [countOf, List.countP_eq_length_filter, h.added, length_told]

theorem Exchanges.countOf_remove {block : List DiffLine} (h : Exchanges j xs ys block) :
    countOf .remove block = xs.length := by
  rw [countOf, List.countP_eq_length_filter, h.removed, DiffLine.removed, List.length_map]

/-- **Blocks.** Two lists with a common front and a common end, between which one has a block of
lines and the other another one: if no line of a block is found in the other block or in the common
end, the front and the end are told as unchanged, the lines of the first block as removed and those
of the second as added, and nothing else is told. Either block may be empty, and lines may be
repeated. -/
theorem between_block (hxs : ∀ x ∈ xs, x ∉ ys ∧ x ∉ ss) (hys : ∀ y ∈ ys, y ∉ xs ∧ y ∉ ss) :
    (∃ block, between (ps ++ xs ++ ss) (ps ++ ys ++ ss) =
        told .unchanged 0 ps ++ (block ++ told .unchanged (ps.length + ys.length) ss) ∧
      Exchanges ps.length xs ys block) ∧
      countOf .add (between (ps ++ xs ++ ss) (ps ++ ys ++ ss)) = ys.length ∧
      countOf .remove (between (ps ++ xs ++ ss) (ps ++ ys ++ ss)) = xs.length := by
  have hwalk : between (ps ++ xs ++ ss) (ps ++ ys ++ ss) = told .unchanged 0 ps ++
      (exchanged ps.length xs ys ++ told .unchanged (ps.length + ys.length) ss) := by
    rw [between, List.append_assoc, List.append_assoc, walk_append, Nat.zero_add,
      walk_exchanged hxs hys]
  have hblock := exchanges_exchanged ps.length xs ys
  refine ⟨⟨_, hwalk, hblock⟩, ?_, ?_⟩
  · rw [hwalk, countOf_append, countOf_append, countOf_told_of_ne (by decide),
      countOf_told_of_ne (by decide), hblock.countOf_add, Nat.zero_add, Nat.add_zero]
  · rw [hwalk, countOf_append, countOf_append, countOf_told_of_ne (by decide),
      countOf_told_of_ne (by decide), hblock.countOf_remove, Nat.zero_add, Nat.add_zero]

def frontLines : List Text := [['a'], ['b'], ['a']]

def endLines : List Text := [['b'], ['a'], ['b']]

theorem between_block_repeated :
    (∃ block, between (frontLines ++ [['c'], ['d'], ['c']] ++ endLines)
        (frontLines ++ [['x'], ['x']] ++ endLines) =
      told .unchanged 0 frontLines ++ (block ++ told .unchanged 5 endLines) ∧
      Exchanges 3 [['c'], ['d'], ['c']] [['x'], ['x']] block) ∧
    countOf .add (between (frontLines ++ [['c'], ['d'], ['c']] ++ endLines)
      (frontLines ++ [['x'], ['x']] ++ endLines)) = 2 ∧
    countOf .remove (between (frontLines ++ [['c'], ['d'], ['c']] ++ endLines)
      (frontLines ++ [['x'], ['x']] ++ endLines)) = 3 := by
  have hxs : ∀ x ∈ [['c'], ['d'], ['c']], x ∉ [['x'], ['x']] ∧ x ∉ endLines := by decide
  have hys : ∀ y ∈ [['x'], ['x']], y ∉ [['c'], ['d'], ['c']] ∧ y ∉ endLines := by decide
  exact between_block hxs hys

end DiffLine
end ShellConfig
