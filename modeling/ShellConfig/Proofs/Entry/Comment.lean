import ShellConfig.Entry.Edit
import ShellConfig.Proofs.Text.Blank
import ShellConfig.Proofs.Text.Lines

/-!
# Comment signs

How a comment sign is put in front of a line and taken away. Main statements: `uncomment_commented`
and `comment_append`, what becomes of a line that is given in parts; `uncomment_comment`, that the
sign can be taken away again; and `comment_signs`, these laws for every line.
-/

namespace ShellConfig.Edit

open Text

variable {b l s t : Text}

/-! ### Commented lines -/

theorem exists_of_isCommented (h : isCommented t = true) :
    ∃ b r, allBlank b = true ∧ t = b ++ '#' :: r := by
  obtain ⟨r, hr⟩ : ∃ r, trimLeft t = '#' :: r := by
    simpa [isCommented, List.head?_eq_some_iff] using h
  exact ⟨leadingBlanks t, r, allBlank_leadingBlanks t,
    by rw [← hr, leadingBlanks_append_trimLeft]⟩

theorem trimLeft_commented (hb : allBlank b = true) (r : Text) :
    trimLeft (b ++ '#' :: r) = '#' :: r := by
  rw [trimLeft_append hb]
  exact trimLeft_cons_of_not_blank (by decide) r

theorem isCommented_commented (hb : allBlank b = true) (r : Text) :
    isCommented (b ++ '#' :: r) = true := by
  unfold isCommented
  rw [trimLeft_commented hb]
  rfl

theorem isCommented_blanks_append (hb : allBlank b = true) (t : Text) :
    isCommented (b ++ t) = isCommented t := by
  unfold isCommented
  rw [trimLeft_append hb]

theorem isCommented_append (h : allBlank t = false) (s : Text) :
    isCommented (t ++ s) = isCommented t := by
  obtain ⟨c, u, hu, -⟩ := exists_trimLeft_eq_cons h
  unfold isCommented
  rw [trimLeft_append_of_not_blank h, hu]
  rfl

/-- The carriage return at the end of a line has nothing to do with whether it is a comment. -/
theorem isCommented_dropReturn (h : isCommented t = true) : isCommented (dropReturn t) = true := by
  obtain ⟨b, r, hb, rfl⟩ := exists_of_isCommented h
  rw [dropReturn_append_cons (by decide)]
  exact isCommented_commented hb _

/-! ### Taking a sign away -/

theorem uncomment_of_not_commented (h : isCommented t = false) : uncomment t = t := by
  unfold uncomment
  split
  · next r hr =>
    unfold isCommented at h
    rw [hr] at h
    cases h
  · rfl

/-- The sign goes, and the blanks behind it. -/
theorem uncomment_commented (hb : allBlank b = true) (r : Text) :
    uncomment (b ++ '#' :: r) = b ++ trimLeft r := by
  unfold uncomment
  rw [trimLeft_commented hb, leadingBlanks_append hb (by decide)]
  rfl

theorem uncomment_sublist (t : Text) : (uncomment t).Sublist t := by
  cases h : isCommented t with
  | false => rw [uncomment_of_not_commented h]
  | true =>
    obtain ⟨b, r, hb, rfl⟩ := exists_of_isCommented h
    rw [uncomment_commented hb]
    refine (List.Sublist.refl b).append ?_
    exact (List.dropWhile_sublist _).trans (List.sublist_cons_self _ r)

theorem uncomment_ne (h : isCommented t = true) : uncomment t ≠ t := by
  obtain ⟨b, r, hb, rfl⟩ := exists_of_isCommented h
  intro hsame
  rw [uncomment_commented hb, List.append_cancel_left_eq] at hsame
  have hlength := (List.dropWhile_sublist (p := isBlank) (l := r)).length_le
  rw [← trimLeft, hsame, List.length_cons] at hlength
  omega

theorem uncomment_eq_self_iff : uncomment t = t ↔ isCommented t = false := by
  refine ⟨fun h => ?_, uncomment_of_not_commented⟩
  rw [← Bool.not_eq_true]
  exact fun hc => uncomment_ne hc h

/-! ### Putting a sign in front -/

/-- The sign and a space come behind the first blanks. -/
theorem comment_append (hb : allBlank b = true) (hs : ∀ c ∈ s.head?, isBlank c = false) :
    comment (b ++ s) = b ++ '#' :: ' ' :: s := by
  rw [comment, leadingBlanks_append_eq hb hs, trimLeft_append_eq hb hs]

theorem isCommented_comment (t : Text) : isCommented (comment t) = true :=
  isCommented_commented (allBlank_leadingBlanks t) _

theorem mem_of_mem_comment {c : Char} (h : c ∈ comment t) (hc : c ≠ '#') (hs : c ≠ ' ') :
    c ∈ t := by
  rw [← leadingBlanks_append_trimLeft t, List.mem_append]
  simpa [comment, hc, hs] using h

theorem length_comment (l : Text) : (comment l).length = l.length + 2 := by
  have hl := congrArg List.length (leadingBlanks_append_trimLeft l)
  rw [List.length_append] at hl
  simp only [comment, List.length_append, List.length_cons]
  omega

/-- The sign can be taken away again. -/
theorem uncomment_comment (l : Text) : uncomment (comment l) = l := by
  have hsign : uncomment (comment l) = leadingBlanks l ++ trimLeft (' ' :: trimLeft l) :=
    uncomment_commented (allBlank_leadingBlanks l) _
  rw [hsign, trimLeft_cons_of_blank (by decide), trimLeft_trimLeft, leadingBlanks_append_trimLeft]

/-- **Comment signs.** A line with a sign put in front is commented out, and the same line again
once the sign is taken away; only commented lines are changed by taking a sign away. Such a line is
made of blanks, its first sign, blanks again and what is commented out. Without the sign, the first
blanks are left in front of what was commented out, and a sign that is put there again stands
between these two and is taken away as it was put. -/
theorem comment_signs (l : Text) :
    isCommented (comment l) = true ∧ uncomment (comment l) = l ∧
      (uncomment l = l ↔ isCommented l = false) ∧
      (isCommented l = true ↔ ∃ b b' s, allBlank b = true ∧ allBlank b' = true ∧
        (∀ c ∈ s.head?, isBlank c = false) ∧ l = b ++ '#' :: (b' ++ s) ∧ uncomment l = b ++ s ∧
        comment (uncomment l) = b ++ '#' :: ' ' :: s ∧
        uncomment (comment (uncomment l)) = uncomment l) := by
  refine ⟨isCommented_comment l, uncomment_comment l, uncomment_eq_self_iff, fun h => ?_, ?_⟩
  · obtain ⟨b, r, hb, rfl⟩ := exists_of_isCommented h
    have hs : ∀ c ∈ (trimLeft r).head?, isBlank c = false := fun c => isBlank_of_head?_trimLeft
    have hsign := uncomment_commented hb r
    refine ⟨b, leadingBlanks r, trimLeft r, hb, allBlank_leadingBlanks r, hs, ?_, hsign, ?_,
      uncomment_comment _⟩
    · rw [leadingBlanks_append_trimLeft]
    · rw [hsign, comment_append hb hs]
  · rintro ⟨b, b', s, hb, -, -, rfl, -⟩
    exact isCommented_commented hb _

end ShellConfig.Edit
