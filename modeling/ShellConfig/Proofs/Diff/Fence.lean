import ShellConfig.Proofs.Diff.Context

/-!
# The fenced block

What stands in the fenced block of a difference, however its changes are spaced. The context of a
change is shown in two places, behind it and in front of the next one, and the two never overlap.
Main statements: `places_shown_sublist`, that no line is shown twice or out of order;
`isNear_of_mem_shown`, that nothing is shown that is far from the changes; and `markdown_fence`,
what the lines of the block are.
-/

namespace ShellConfig

namespace DiffLine

variable {all as ls rest us : List DiffLine} {c i k : Nat} {l m : DiffLine} {sh : List Shown}

/-! ### Places -/

/-- The place of a line that is shown. -/
def Shown.place? : Shown → Option Nat
  | .line i _ => some i
  | .gap => none

def places (sh : List Shown) : List Nat := sh.filterMap Shown.place?

@[simp] theorem places_nil : places [] = [] := rfl

@[simp] theorem places_line (i : Nat) (l : DiffLine) (sh : List Shown) :
    places (.line i l :: sh) = i :: places sh := rfl

@[simp] theorem places_gap (sh : List Shown) : places (.gap :: sh) = places sh := rfl

@[simp] theorem places_append (sh sh' : List Shown) :
    places (sh ++ sh') = places sh ++ places sh' := List.filterMap_append

@[simp] theorem places_run (i : Nat) (us : List DiffLine) :
    places (run i us) = List.range' i us.length := by
  induction us generalizing i with
  | nil => rfl
  | cons u us ih => simp [List.range'_succ, ih]

theorem mem_places_iff : k ∈ places sh ↔ ∃ l, .line k l ∈ sh := by
  induction sh with
  | nil => simp
  | cons x sh ih =>
    cases x with
    | gap => simp [ih]
    | line i l => simp [ih, exists_or]

theorem range'_cut (i : Nat) (h : c ≤ k) :
    List.range' i k = List.range' i (k - c) ++ List.range' (i + (k - c)) c := by
  rw [List.range'_append_1, Nat.sub_add_cancel h]

theorem range'_take_sublist (i : Nat) (h : min c us.length ≤ k) :
    (List.range' i (us.take c).length).Sublist (List.range' i k) := by
  rw [List.length_take]
  exact List.range'_sublist_right.2 h

/-- Of a run between two changes no line is shown twice: where both ends are shown, they are apart.
-/
theorem places_middle_sublist (c i : Nat) (us : List DiffLine) :
    (places (middle c i us)).Sublist (List.range' i us.length) := by
  unfold middle
  split
  · rw [places_run]
  · next hlong =>
    split
    · next htwice =>
      have hle : c ≤ us.length := Nat.le_of_not_le hlong
      have hdrop : (us.drop (us.length - c)).length = c := by
        rw [List.length_drop, Nat.sub_sub_self hle]
      have hfront : (List.range' i (us.take c).length).Sublist (List.range' i (us.length - c)) :=
        range'_take_sublist i (by omega)
      rw [places_append, places_run, places_gap, places_run, hdrop, range'_cut i hle]
      exact hfront.append (List.Sublist.refl _)
    · rw [List.append_nil, places_run]
      exact range'_take_sublist i (Nat.min_le_right ..)

theorem places_opening_sublist (c : Nat) (us : List DiffLine) :
    (places (opening c us)).Sublist (List.range' 0 us.length) := by
  unfold opening
  split
  · next hlong =>
    rw [places_run, List.length_drop, Nat.sub_sub_self hlong, range'_cut 0 hlong, Nat.zero_add]
    exact List.sublist_append_right _ _
  · exact List.nil_sublist _

theorem range'_change (i : Nat) (us : List DiffLine) (m : DiffLine) (rest : List DiffLine) :
    List.range' i (us ++ m :: rest).length = List.range' i us.length ++
      (i + us.length) :: List.range' (i + us.length + 1) rest.length := by
  rw [List.length_append, ← List.range'_append_1, List.length_cons, List.range'_succ]

theorem places_showFrom_sublist (hall : all = as ++ l :: rest) (hl : l.change ≠ .unchanged) :
    (places (showFrom c all true as.length (as.length + 1) rest)).Sublist
      (List.range' (as.length + 1) rest.length) := by
  refine induction_on_changes (P := fun as _ rest =>
    (places (showFrom c all true as.length (as.length + 1) rest)).Sublist
      (List.range' (as.length + 1) rest.length)) ?_ ?_ hall hl
  · intro as l us hall hus
    rw [showFrom_last hus, places_run]
    exact range'_take_sublist _ (Nat.min_le_right ..)
  · intro as l us m rest hall hus hl hm ih
    rw [length_append_cons] at ih
    rw [showFrom_middle hall hus hm, places_append, places_line, range'_change]
    exact (places_middle_sublist c _ us).append (ih.cons_cons _)

/-- Each line is shown once at most, and in its order. -/
theorem places_shown_sublist (c : Nat) (ls : List DiffLine) :
    (places (shown c ls)).Sublist (List.range ls.length) := by
  rw [List.range_eq_range']
  rcases isPlain_or_exists_first ls with hplain | ⟨us, m, rest, rfl, hus, hm⟩
  · rw [shown_of_isPlain hplain]
    exact List.nil_sublist _
  · have hrest : (places (showFrom c (us ++ m :: rest) true us.length (us.length + 1) rest)).Sublist
        (List.range' (us.length + 1) rest.length) := places_showFrom_sublist rfl hm
    rw [shown_opening hus hm, places_append, places_line, range'_change, Nat.zero_add]
    exact (places_opening_sublist c us).append (hrest.cons_cons _)

/-! ### Distances -/

/-- Some change is at most `c` positions away. -/
def IsNear (c : Nat) (ls : List DiffLine) (k : Nat) : Prop :=
  ∃ j, changesAt ls j = true ∧ k ≤ j + c ∧ j ≤ k + c

theorem changesAt_of_split (hall : all = as ++ l :: rest) (hl : l.change ≠ .unchanged) :
    changesAt all as.length = true := by
  rw [hall, changesAt_cons, decide_eq_true hl]

theorem isNear_of_changesAt (h : changesAt ls k = true) : IsNear c ls k :=
  ⟨k, h, Nat.le_add_right k c, Nat.le_add_right k c⟩

/-- What is shown between two changes is near the one or the other. -/
theorem near_of_mem_middle (h : .line k l ∈ middle c i us) : k < i + c ∨ i + us.length ≤ k + c := by
  have hbounds := lt_of_mem_middle h
  unfold middle at h
  split at h
  · omega
  · rw [List.mem_append] at h
    rcases h with h | h
    · have hfront := lt_of_mem_run h
      rw [List.length_take] at hfront
      omega
    · split at h
      · rcases List.mem_cons.1 h with h | h
        · cases h
        · have hback := lt_of_mem_run h
          omega
      · cases h

theorem isNear_of_mem_showFrom (hall : all = as ++ l :: rest) (hl : l.change ≠ .unchanged)
    (h : .line k m ∈ showFrom c all true as.length (as.length + 1) rest) : IsNear c all k := by
  revert h
  refine induction_on_changes (P := fun as l rest => l.change ≠ .unchanged →
    .line k m ∈ showFrom c all true as.length (as.length + 1) rest → IsNear c all k)
    ?_ ?_ hall hl hl
  · intro as l us hall hus hl h
    have hchange := changesAt_of_split hall hl
    rw [showFrom_last hus] at h
    have hbounds := lt_of_mem_run h
    rw [List.length_take] at hbounds
    exact ⟨as.length, hchange, by omega, by omega⟩
  · intro as l us m' rest hall hus hl hm ih _ h
    have hchange := changesAt_of_split hall hl
    have hnext : changesAt all (as.length + 1 + us.length) = true := by
      rw [hall, changesAt_behind, changesAt_of_split rfl hm]
    rw [length_append_cons] at ih
    rw [showFrom_middle hall hus hm, List.mem_append, List.mem_cons] at h
    rcases h with h | h | h
    · have hbounds := lt_of_mem_middle h
      rcases near_of_mem_middle h with hnear | hnear
      · exact ⟨as.length, hchange, by omega, by omega⟩
      · exact ⟨as.length + 1 + us.length, hnext, by omega, by omega⟩
    · rw [Shown.line.injEq] at h
      exact isNear_of_changesAt (h.1 ▸ hnext)
    · exact ih hm h

/-- Nothing is shown that is far from the changes. -/
theorem isNear_of_mem_shown (h : .line k m ∈ shown c ls) : IsNear c ls k := by
  rcases isPlain_or_exists_first ls with hplain | ⟨us, l, rest, rfl, hus, hl⟩
  · rw [shown_of_isPlain hplain] at h
    cases h
  · have hfirst : changesAt (us ++ l :: rest) us.length = true := changesAt_of_split rfl hl
    rw [shown_opening hus hl, List.mem_append, List.mem_cons] at h
    rcases h with h | h | h
    · unfold opening at h
      split at h
      · have hbounds := lt_of_mem_run h
        rw [List.length_drop] at hbounds
        exact ⟨us.length, hfirst, by omega, by omega⟩
      · cases h
    · rw [Shown.line.injEq] at h
      exact isNear_of_changesAt (h.1 ▸ hfirst)
    · exact isNear_of_mem_showFrom rfl hl h

theorem mem_places_of_changesAt (h : changesAt ls k = true) : k ∈ places (shown c ls) := by
  obtain ⟨as, l, rest, hall, rfl, hl⟩ := exists_of_changesAt h
  obtain ⟨out, -, hshown⟩ := exists_shown_eq hall hl c
  rw [hshown, places_append, places_line]
  simp

/-! ### Texts -/

/-- Some texts are an excerpt of a difference: its lines at some places, in order and each at most
once, with their signs; among them each change, and otherwise only lines that are at most `c`
positions away from a change. -/
structure IsExcerpt (c : Nat) (ls : List DiffLine) (is : List Nat) (ts : List Text) : Prop where
  sorted : is.Pairwise (· < ·)
  texts : List.Forall₂ (fun i t => ∃ l, ls[i]? = some l ∧ t = sign l.change ++ l.content) is ts
  changes : ∀ i, changesAt ls i = true → i ∈ is
  near : ∀ i ∈ is, IsNear c ls i

def gapMark : Text := "...".toList

theorem sign_append_ne {t : Text} (d : Change) (s : Text) (ht : t.head? ≠ some '+')
    (ht' : t.head? ≠ some '-') (ht'' : t.head? ≠ some ' ') : sign d ++ s ≠ t := by
  rintro rfl
  cases d <;> simp [sign] at ht ht' ht''

theorem forall₂_texts (h : ∀ i l, .line i l ∈ sh → ls[i]? = some l) :
    List.Forall₂ (fun i t => ∃ l, ls[i]? = some l ∧ t = sign l.change ++ l.content) (places sh)
      ((sh.map Shown.text).filter (· ≠ gapMark)) := by
  induction sh with
  | nil => exact .nil
  | cons x sh ih =>
    have hsh := ih fun i l hl => h i l (List.mem_cons_of_mem x hl)
    cases x with
    | gap => exact hsh
    | line i l =>
      have hline : Shown.text (.line i l) ≠ gapMark :=
        sign_append_ne _ _ (by decide) (by decide) (by decide)
      rw [List.map_cons, List.filter_cons_of_pos (by simpa using hline)]
      exact .cons ⟨l, h i l List.mem_cons_self, rfl⟩ hsh

theorem isExcerpt_shown (c : Nat) (ls : List DiffLine) :
    IsExcerpt c ls (places (shown c ls)) (((shown c ls).map Shown.text).filter (· ≠ gapMark)) where
  sorted := List.pairwise_lt_range.sublist (places_shown_sublist c ls)
  texts := forall₂_texts fun _ _ => getElem?_of_mem_showFrom rfl
  changes := fun _ => mem_places_of_changesAt
  near := fun _ hi => by
    obtain ⟨l, hl⟩ := mem_places_iff.1 hi
    exact isNear_of_mem_shown hl

/-! ### Lines of the markdown -/

theorem not_mem_summaryLine {word : Text} (h : '\n' ∉ word) (n : Int) :
    '\n' ∉ summaryLine n word := by
  have hdigits : '\n' ∉ Text.ofInt n := fun hmem => by
    rcases Text.isDigit_of_mem_ofInt hmem with heq | hdigit
    · exact absurd heq (by decide)
    · exact absurd hdigit (by decide)
  unfold summaryLine
  simp only [List.mem_append, not_or]
  refine ⟨⟨⟨⟨by decide, hdigits⟩, by decide⟩, h⟩, ?_⟩
  split <;> decide

theorem not_mem_text (h : ∀ l ∈ ls, '\n' ∉ l.content) {x : Shown} (hx : x ∈ shown c ls) :
    '\n' ∉ x.text := by
  cases x with
  | gap => decide
  | line i l =>
    have hl := h l (List.mem_of_getElem? (getElem?_of_mem_showFrom rfl hx))
    rw [Shown.text, List.mem_append, not_or]
    refine ⟨?_, hl⟩
    cases l.change <;> decide

/-- **The fenced block.** The markdown of a difference with at least one change, whose lines hold no
line feeds, has one opening fence and one closing fence at its end. Without the marks, the lines
between them are an excerpt of the difference. -/
theorem markdown_fence (c : Nat) (hfeed : ∀ l ∈ ls, '\n' ∉ l.content)
    (hchange : ∃ l ∈ ls, l.change ≠ .unchanged) :
    ∃ head body,
      Text.splitOn '\n' (markdown ls (countOf .add ls) (countOf .remove ls) c) =
        head ++ "```diff".toList :: (body ++ ["```".toList]) ∧
      "```diff".toList ∉ head ∧ "```".toList ∉ body ∧
      ∃ is, IsExcerpt c ls is (body.filter (· ≠ gapMark)) := by
  have hcount : ¬((countOf .add ls : Int) = 0 ∧ (countOf .remove ls : Int) = 0) := by
    rintro ⟨hadd, hremove⟩
    obtain ⟨l, hl, hne⟩ := hchange
    have hnoAdd := List.countP_eq_zero.1 (Int.ofNat_eq_zero.1 hadd) l hl
    have hnoRemove := List.countP_eq_zero.1 (Int.ofNat_eq_zero.1 hremove) l hl
    rw [decide_eq_true_eq] at hnoAdd hnoRemove
    cases hl' : l.change <;> contradiction
  have hlines : ∀ t ∈ markdownLines ls (countOf .add ls) (countOf .remove ls) c, '\n' ∉ t := by
    intro t ht
    simp only [markdownLines, List.mem_append, List.mem_cons, List.mem_map, List.not_mem_nil,
      or_false] at ht
    rcases ht with ((rfl | rfl | rfl | rfl | rfl | rfl) | ⟨x, hx, rfl⟩) | rfl
    · decide
    · exact not_mem_summaryLine (by decide) _
    · exact not_mem_summaryLine (by decide) _
    · decide
    · decide
    · decide
    · exact not_mem_text hfeed hx
    · decide
  rw [markdown, if_neg hcount, Text.splitOn_join (by simp [markdownLines]) hlines]
  refine ⟨["## Changes Summary".toList, summaryLine (countOf .add ls) "addition".toList,
    summaryLine (countOf .remove ls) "deletion".toList, [], "## Diff".toList],
    (shown c ls).map Shown.text, by simp [markdownLines], ?_, ?_, _, isExcerpt_shown c ls⟩
  · simp [summaryLine]
  · rw [List.mem_map]
    rintro ⟨x, -, hx⟩
    cases x with
    | gap => exact absurd hx (by decide)
    | line i l => exact sign_append_ne _ _ (by decide) (by decide) (by decide) hx

/-- Two changes with three unchanged lines between them, of which the last is not shown with two
lines of context. -/
def closeLines : List DiffLine :=
  [⟨.unchanged, ['a'], some 1⟩, ⟨.remove, ['b'], none⟩, ⟨.add, "...".toList, some 2⟩,
    ⟨.unchanged, ['c'], some 3⟩, ⟨.unchanged, ['d'], some 4⟩, ⟨.unchanged, ['e'], some 5⟩,
    ⟨.remove, "```".toList, none⟩]

theorem markdown_fence_close :
    (∀ l ∈ closeLines, '\n' ∉ l.content) ∧ (∃ l ∈ closeLines, l.change ≠ .unchanged) ∧
      ∃ head body,
        Text.splitOn '\n'
            (markdown closeLines (countOf .add closeLines) (countOf .remove closeLines) 2) =
          head ++ "```diff".toList :: (body ++ ["```".toList]) ∧
        "```diff".toList ∉ head ∧ "```".toList ∉ body ∧
        ∃ is, IsExcerpt 2 closeLines is (body.filter (· ≠ gapMark)) := by
  have hfeed : ∀ l ∈ closeLines, '\n' ∉ l.content := by decide
  have hchange : ∃ l ∈ closeLines, l.change ≠ .unchanged := by decide
  exact ⟨hfeed, hchange, markdown_fence 2 hfeed hchange⟩

end DiffLine
end ShellConfig
