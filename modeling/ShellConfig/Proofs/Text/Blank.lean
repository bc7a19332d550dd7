import ShellConfig.Text.Blank

/-!
# Blanks in front

What trimming and reading blanks do to a text that is given as blanks and what follows them. Main
statements: `trimLeft_append`, that blanks in front are dropped; `after?_trimLeft_eq_some_iff`, what
it means that a word stands behind the first blanks; and `someBlanksThen_eq_true_iff`, what it means
that something follows a gap.
-/

namespace ShellConfig.Text

variable {b t : Text} {c : Char} {p : Text → Bool}

theorem isBlank_of_mem (h : allBlank b = true) (hc : c ∈ b) : isBlank c = true :=
  List.all_eq_true.1 h c hc

@[simp] theorem allBlank_nil : allBlank [] = true := rfl

@[simp] theorem allBlank_cons (c : Char) (t : Text) :
    allBlank (c :: t) = (isBlank c && allBlank t) := rfl

theorem allBlank_leadingBlanks (t : Text) : allBlank (leadingBlanks t) = true :=
  List.all_takeWhile

theorem trimLeft_cons_of_blank (h : isBlank c = true) (t : Text) :
    trimLeft (c :: t) = trimLeft t := List.dropWhile_cons_of_pos h

theorem trimLeft_cons_of_not_blank (h : isBlank c = false) (t : Text) :
    trimLeft (c :: t) = c :: t := List.dropWhile_cons_of_neg (by simp [h])

/-- Blanks in front are dropped. -/
theorem trimLeft_append (h : allBlank b = true) (t : Text) : trimLeft (b ++ t) = trimLeft t := by
  induction b with
  | nil => rfl
  | cons c b ih =>
    rw [allBlank_cons, Bool.and_eq_true] at h
    rw [List.cons_append, trimLeft_cons_of_blank h.1, ih h.2]

theorem leadingBlanks_append (h : allBlank b = true) (hc : isBlank c = false) (t : Text) :
    leadingBlanks (b ++ c :: t) = b := by
  have htake : leadingBlanks (c :: t) = [] := List.takeWhile_cons_of_neg (by simp [hc])
  have happend : leadingBlanks (b ++ c :: t) = b ++ leadingBlanks (c :: t) :=
    List.takeWhile_append_of_pos fun d hd => isBlank_of_mem h hd
  rw [happend, htake, List.append_nil]

theorem trimLeft_trimLeft (t : Text) : trimLeft (trimLeft t) = trimLeft t := by
  induction t with
  | nil => rfl
  | cons c t ih =>
    cases hc : isBlank c with
    | true => rw [trimLeft_cons_of_blank hc, ih]
    | false => rw [trimLeft_cons_of_not_blank hc, trimLeft_cons_of_not_blank hc]

theorem isBlank_of_head?_trimLeft (h : (trimLeft t).head? = some c) : isBlank c = false := by
  have hhead := List.head?_dropWhile_not isBlank t
  rw [← trimLeft, h] at hhead
  simpa using hhead

/-- Blanks in front are parted from what begins with none. -/
theorem trimLeft_append_eq (hb : allBlank b = true) (ht : ∀ c ∈ t.head?, isBlank c = false) :
    trimLeft (b ++ t) = t := by
  rw [trimLeft_append hb]
  cases t with
  | nil => rfl
  | cons c t => exact trimLeft_cons_of_not_blank (ht c rfl) t

theorem leadingBlanks_append_eq (hb : allBlank b = true)
    (ht : ∀ c ∈ t.head?, isBlank c = false) : leadingBlanks (b ++ t) = b := by
  have h := leadingBlanks_append_trimLeft (b ++ t)
  rw [trimLeft_append_eq hb ht] at h
  exact List.append_cancel_right h

theorem eq_leadingBlanks_append {u : Text} (h : trimLeft t = u) : t = leadingBlanks t ++ u := by
  rw [← h, leadingBlanks_append_trimLeft]

/-- A text begins with a word behind its first blanks. -/
theorem after?_trimLeft_eq_some_iff {w r : Text} (hw : (w.head?.any fun c => !isBlank c) = true) :
    after? w (trimLeft t) = some r ↔ ∃ b, allBlank b = true ∧ t = b ++ (w ++ r) := by
  rw [after?_eq_some_iff]
  constructor
  · intro h
    exact ⟨leadingBlanks t, allBlank_leadingBlanks t, eq_leadingBlanks_append h⟩
  · rintro ⟨b, hb, rfl⟩
    cases w with
    | nil => cases hw
    | cons c w =>
      rw [trimLeft_append hb]
      exact trimLeft_cons_of_not_blank (by simpa using hw) _

/-! ### Gaps between words -/

/-- Blanks between two words, at least one. -/
structure IsGap (b : Text) : Prop where
  ne_nil : b ≠ []
  allBlank : allBlank b = true

theorem isGap_cons (hc : isBlank c = true) (hb : allBlank b = true) : IsGap (c :: b) :=
  ⟨List.cons_ne_nil c b, by rw [allBlank_cons, hc, hb]; rfl⟩

/-- What it means that something follows a gap. -/
theorem someBlanksThen_eq_true_iff :
    someBlanksThen p t = true ↔ ∃ b r, IsGap b ∧ t = b ++ r ∧ p r = true := by
  induction t with
  | nil =>
    simp only [someBlanksThen, Bool.false_eq_true, false_iff]
    rintro ⟨b, r, hb, ht, -⟩
    exact hb.ne_nil (List.append_eq_nil_iff.1 ht.symm).1
  | cons c t ih =>
    rw [someBlanksThen, Bool.and_eq_true, Bool.or_eq_true, ih]
    constructor
    · rintro ⟨hc, hp | ⟨b, r, hb, rfl, hp⟩⟩
      · exact ⟨[c], t, isGap_cons hc rfl, rfl, hp⟩
      · exact ⟨c :: b, r, isGap_cons hc hb.allBlank, rfl, hp⟩
    · rintro ⟨b, r, hb, ht, hp⟩
      cases b with
      | nil => exact absurd rfl hb.ne_nil
      | cons d b =>
        rw [List.cons_append, List.cons.injEq] at ht
        obtain ⟨rfl, rfl⟩ := ht
        have hblank := hb.allBlank
        rw [allBlank_cons, Bool.and_eq_true] at hblank
        refine ⟨hblank.1, ?_⟩
        by_cases hnil : b = []
        · subst hnil
          exact .inl hp
        · exact .inr ⟨b, r, ⟨hnil, hblank.2⟩, rfl, hp⟩

theorem blanksThen_eq_true_iff :
    blanksThen p t = true ↔ ∃ b r, allBlank b = true ∧ t = b ++ r ∧ p r = true := by
  rw [blanksThen, Bool.or_eq_true, someBlanksThen_eq_true_iff]
  constructor
  · rintro (hp | ⟨b, r, hb, rfl, hp⟩)
    · exact ⟨[], t, rfl, rfl, hp⟩
    · exact ⟨b, r, hb.allBlank, rfl, hp⟩
  · rintro ⟨b, r, hb, rfl, hp⟩
    by_cases hnil : b = []
    · subst hnil
      exact .inl hp
    · exact .inr ⟨b, r, ⟨hnil, hb⟩, rfl, hp⟩

theorem afterBlanks?_append (hb : IsGap b) (t : Text) :
    afterBlanks? (b ++ t) = some (trimLeft t) := by
  obtain ⟨hne, hblank⟩ := hb
  cases b with
  | nil => exact absurd rfl hne
  | cons c b =>
    rw [allBlank_cons, Bool.and_eq_true] at hblank
    rw [List.cons_append, afterBlanks?, if_pos hblank.1, trimLeft_append hblank.2]

theorem exists_gap_of_afterBlanks? {r : Text} (h : afterBlanks? t = some r) :
    ∃ b, IsGap b ∧ t = b ++ r := by
  cases t with
  | nil => cases h
  | cons c t =>
    rw [afterBlanks?] at h
    split at h
    · next hc =>
      obtain rfl := Option.some.inj h
      refine ⟨c :: leadingBlanks t, isGap_cons hc (allBlank_leadingBlanks t), ?_⟩
      rw [List.cons_append, leadingBlanks_append_trimLeft]
    · cases h

/-! ### Blanks at the end -/

theorem allBlank_append (s t : Text) : allBlank (s ++ t) = (allBlank s && allBlank t) :=
  List.all_append

theorem trimRight_eq_nil_iff : trimRight t = [] ↔ allBlank t = true := by
  induction t with
  | nil => exact ⟨fun _ => rfl, fun _ => rfl⟩
  | cons c t ih =>
    have hcons : allBlank (c :: t) = true ↔ trimRight t = [] ∧ isBlank c = true := by
      rw [allBlank_cons, Bool.and_eq_true, ih, and_comm]
    rw [hcons, trimRight_cons]
    split
    · next h =>
      rw [Bool.and_eq_true, List.isEmpty_iff] at h
      exact ⟨fun _ => h, fun _ => rfl⟩
    · next h =>
      rw [Bool.and_eq_true, List.isEmpty_iff] at h
      constructor
      · intro hnil
        cases hnil
      · intro hblank
        exact absurd hblank h

theorem exists_trimRight_append (t : Text) : ∃ b, allBlank b = true ∧ t = trimRight t ++ b := by
  induction t with
  | nil => exact ⟨[], rfl, rfl⟩
  | cons c t ih =>
    obtain ⟨b, hb, ht⟩ := ih
    rw [trimRight_cons]
    split
    · next h =>
      rw [Bool.and_eq_true, List.isEmpty_iff] at h
      refine ⟨c :: t, ?_, rfl⟩
      rw [allBlank_cons, h.2, trimRight_eq_nil_iff.1 h.1]
      rfl
    · exact ⟨b, hb, congrArg (c :: ·) ht⟩

theorem trim_eq_nil (h : allBlank (trim t) = true) : trim t = [] := by
  obtain ⟨b, hb, ht⟩ := exists_trimRight_append (trimLeft t)
  apply trimRight_eq_nil_iff.2
  rw [ht, allBlank_append, Bool.and_eq_true]
  exact ⟨h, hb⟩

theorem allBlank_trimLeft (t : Text) : allBlank (trimLeft t) = allBlank t := by
  have h := congrArg allBlank (leadingBlanks_append_trimLeft t)
  rwa [allBlank_append, allBlank_leadingBlanks, Bool.true_and] at h

theorem trim_eq_nil_iff : trim t = [] ↔ allBlank t = true := by
  rw [trim, trimRight_eq_nil_iff, allBlank_trimLeft]

theorem exists_trimLeft_eq_cons (h : allBlank t = false) :
    ∃ c r, trimLeft t = c :: r ∧ isBlank c = false := by
  induction t with
  | nil => cases h
  | cons c t ih =>
    cases hc : isBlank c with
    | true =>
      rw [allBlank_cons, hc, Bool.true_and] at h
      rw [trimLeft_cons_of_blank hc]
      exact ih h
    | false => exact ⟨c, t, trimLeft_cons_of_not_blank hc t, hc⟩

theorem isBlank_of_getLast?_trimRight (h : (trimRight t).getLast? = some c) :
    isBlank c = false := by
  induction t with
  | nil => cases h
  | cons d t ih =>
    rw [trimRight_cons] at h
    split at h
    · cases h
    · next hd =>
      cases hr : trimRight t with
      | nil =>
        rw [hr] at h hd
        obtain rfl : d = c := by simpa using h
        simpa using hd
      | cons e r =>
        rw [hr, List.getLast?_cons_cons, ← hr] at h
        exact ih h

theorem trimLeft_append_blank (hc : isBlank c = true) (t : Text) :
    trimLeft (t ++ [c]) = if allBlank t then [] else trimLeft t ++ [c] := by
  induction t with
  | nil => exact trimLeft_cons_of_blank hc []
  | cons d t ih =>
    cases hd : isBlank d with
    | true =>
      rw [List.cons_append, trimLeft_cons_of_blank hd, ih, allBlank_cons, hd, Bool.true_and,
        trimLeft_cons_of_blank hd]
    | false =>
      rw [List.cons_append, trimLeft_cons_of_not_blank hd, allBlank_cons, hd, Bool.false_and,
        trimLeft_cons_of_not_blank hd]
      rfl

theorem trimLeft_append_of_not_blank (h : allBlank t = false) (s : Text) :
    trimLeft (t ++ s) = trimLeft t ++ s := by
  induction t with
  | nil => cases h
  | cons d t ih =>
    cases hd : isBlank d with
    | true =>
      rw [allBlank_cons, hd, Bool.true_and] at h
      rw [List.cons_append, trimLeft_cons_of_blank hd, trimLeft_cons_of_blank hd, ih h]
    | false =>
      rw [List.cons_append, trimLeft_cons_of_not_blank hd, trimLeft_cons_of_not_blank hd]
      rfl

theorem trimLeft_eq_nil_iff : trimLeft t = [] ↔ allBlank t = true := by
  induction t with
  | nil => exact ⟨fun _ => rfl, fun _ => rfl⟩
  | cons d t ih =>
    cases hd : isBlank d with
    | true => rw [trimLeft_cons_of_blank hd, ih, allBlank_cons, hd, Bool.true_and]
    | false => simp [trimLeft_cons_of_not_blank hd, hd]

/-- Blanks at the end are dropped. -/
theorem trimRight_append (hb : allBlank b = true) (t : Text) :
    trimRight (t ++ b) = trimRight t := by
  induction t with
  | nil => exact trimRight_eq_nil_iff.2 hb
  | cons d t ih => rw [List.cons_append, trimRight_cons, trimRight_cons, ih]

theorem trimRight_append_blank (hc : isBlank c = true) (t : Text) :
    trimRight (t ++ [c]) = trimRight t :=
  trimRight_append (by rw [allBlank_cons, hc]; rfl) t

theorem trimRight_append_of_not_blank (hc : isBlank c = false) (t : Text) :
    trimRight (t ++ [c]) = t ++ [c] := by
  induction t with
  | nil => simp [hc]
  | cons d t ih => simp [ih]

theorem trimRight_of_getLast? (h : ∀ c ∈ t.getLast?, isBlank c = false) : trimRight t = t := by
  rcases List.eq_nil_or_concat t with rfl | ⟨s, c, rfl⟩
  · rfl
  · rw [List.concat_eq_append] at h ⊢
    exact trimRight_append_of_not_blank (h c (by simp)) s

theorem trimRight_eq_iff {v : Text} :
    trimRight t = v ↔
      (∀ c ∈ v.getLast?, isBlank c = false) ∧ ∃ b, allBlank b = true ∧ t = v ++ b := by
  constructor
  · rintro rfl
    exact ⟨fun c hc => isBlank_of_getLast?_trimRight hc, exists_trimRight_append t⟩
  · rintro ⟨hv, b, hb, rfl⟩
    rw [trimRight_append hb, trimRight_of_getLast? hv]

theorem trim_append_blank (hc : isBlank c = true) (t : Text) : trim (t ++ [c]) = trim t := by
  unfold trim
  rw [trimLeft_append_blank hc]
  split
  · next h => rw [trimLeft_eq_nil_iff.2 h]
  · exact trimRight_append_blank hc _

theorem after?_append_of_not_mem {w : Text} (h : c ∉ w) (t : Text) :
    after? w (t ++ [c]) = (after? w t).map (· ++ [c]) := by
  induction w generalizing t with
  | nil => rfl
  | cons p w ih =>
    rw [List.mem_cons, not_or] at h
    cases t with
    | nil => exact if_neg (Ne.symm h.1)
    | cons d t =>
      rw [List.cons_append, after?, after?, ih h.2]
      split <;> rfl

theorem afterBy?_append_of_any {same : Char → Char → Bool} {w : Text}
    (h : w.any (same · c) = false) (t s : Text) :
    afterBy? same w (t ++ c :: s) = (afterBy? same w t).map (· ++ c :: s) := by
  induction w generalizing t with
  | nil => rfl
  | cons p w ih =>
    rw [List.any_cons, Bool.or_eq_false_iff] at h
    cases t with
    | nil => simp [afterBy?, h.1]
    | cons d t =>
      rw [List.cons_append, afterBy?, afterBy?, ih h.2]
      split <;> rfl

end ShellConfig.Text
