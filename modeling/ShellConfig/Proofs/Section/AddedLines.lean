import ShellConfig.Proofs.Section.Insertion

/-!
# Lines that are added

What inserting aliases adds to a text. Main statements: `addsLines_intoSection`,
`addsLines_newSection` and `addsLines_atEnd`, that lines are added and nothing else is changed;
`insert_harmless`, that none of them runs anything but the declaration of an alias; and
`insert_lineBreaks`, that this needs names and descriptions without line breaks.
-/

namespace ShellConfig.Insert

open Text

variable {a : AliasDefinition} {as : List AliasDefinition} {name t u x l : Text}
  {m : SectionMatch} {new before after : List Text} {P : Text → Prop}

/-! ### Adding lines -/

/-- A text that comes of another by putting lines of some kind between two of its lines, or behind
all of them. The lines end as those of the first text do. -/
def AddsLines (P : Text → Prop) (t u : Text) : Prop :=
  ∃ before added after, (LineEnding.of t).split t = before ++ after ∧
    (LineEnding.of t).split u = before ++ (added ++ after) ∧ ∀ l ∈ added, '\n' ∉ l ∧ P l

/-- No line is left that was not there and is not of the kind of the added ones. -/
theorem AddsLines.of_mem (h : AddsLines P t u) (hl : l ∈ (LineEnding.of t).split u) :
    l ∈ (LineEnding.of t).split t ∨ P l := by
  obtain ⟨before, added, after, ht, hu, hadded⟩ := h
  rw [hu, List.mem_append, List.mem_append] at hl
  rw [ht, List.mem_append]
  rcases hl with hl | hl | hl
  · exact .inl (.inl hl)
  · exact .inr (hadded l hl).2
  · exact .inl (.inr hl)

theorem addsLines_join (ht : (LineEnding.of t).split t = before ++ after)
    (hnew : ∀ l ∈ new, '\n' ∉ l ∧ P l) :
    AddsLines P t (join (LineEnding.of t).text (before ++ (new ++ after))) := by
  refine ⟨before, new, after, ht, LineEnding.split_join _ ?_ fun l hl => ?_, hnew⟩
  · have hne := LineEnding.split_ne_nil (LineEnding.of t) t
    rw [ht] at hne
    simp only [ne_eq, List.append_eq_nil_iff] at hne ⊢
    tauto
  · have hold : ∀ l ∈ before ++ after, '\n' ∉ l := fun l hl =>
      LineEnding.not_mem_of_mem_split (t := t) (ht ▸ hl)
    simp only [List.mem_append] at hl hold
    rcases hl with hl | hl | hl
    · exact hold l (.inl hl)
    · exact (hnew l hl).1
    · exact hold l (.inr hl)

/-- Lines that are put behind a section are added, perhaps with an empty line before them. -/
theorem addsLines_intoSection (hnil : P []) (hnew : ∀ l ∈ new, '\n' ∉ l ∧ P l) :
    AddsLines P t (intoSection t m new) := by
  have hsplit := List.take_append_drop m.endLine ((LineEnding.of t).split t)
  unfold intoSection
  dsimp only
  rw [List.append_assoc]
  split
  · refine addsLines_join hsplit.symm fun l hl => ?_
    rcases List.mem_cons.1 hl with rfl | hl
    · exact ⟨List.not_mem_nil, hnil⟩
    · exact hnew l hl
  · exact addsLines_join hsplit.symm hnew

/-- Lines that are put behind a text are added if an ending stands before them. -/
theorem addsLines_append (hne : new ≠ []) (hnew : ∀ l ∈ new, '\n' ∉ l ∧ P l) :
    AddsLines P t (t ++ ((LineEnding.of t).text ++ join (LineEnding.of t).text new)) := by
  have hjoin := join_append (LineEnding.of t).text (LineEnding.split_ne_nil (LineEnding.of t) t) hne
  rw [LineEnding.join_split] at hjoin
  have h := addsLines_join (List.append_nil ((LineEnding.of t).split t)).symm hnew
  rwa [List.append_nil, hjoin] at h

/-- An alias at the end of a text is added on lines of its own. -/
theorem addsLines_atEnd (hnil : P []) (hne : new ≠ []) (hnew : ∀ l ∈ new, '\n' ∉ l ∧ P l) :
    AddsLines P t (t ++ (LineEnding.of t).text ++ join (LineEnding.of t).text new ++
      (LineEnding.of t).text) := by
  have hjoin := join_append (LineEnding.of t).text hne (List.cons_ne_nil [] [])
  have hlast : ∀ l ∈ new ++ [[]], '\n' ∉ l ∧ P l := by
    intro l hl
    rcases List.mem_append.1 hl with hl | hl
    · exact hnew l hl
    · exact List.mem_singleton.1 hl ▸ ⟨List.not_mem_nil, hnil⟩
  have h := addsLines_append (t := t) (by simp) hlast
  rw [hjoin] at h
  simpa [join] using h

/-! ### Harmless lines -/

/-- A line that runs nothing but the declaration of one of some aliases: it is blank, a comment, or
the line of that alias. -/
def IsHarmless (as : List AliasDefinition) (l : Text) : Prop :=
  allBlank l = true ∨ l.head? = some '#' ∨
    ∃ a ∈ as, Shell.aliasLine? a.name a.command = some l

instance (as : List AliasDefinition) (l : Text) : Decidable (IsHarmless as l) :=
  inferInstanceAs (Decidable (_ ∨ _ ∨ _))

theorem isHarmless_nil : IsHarmless as [] := .inl rfl

/-- A comment that says a text, with words of its own around it. -/
def IsCommentOf (x l : Text) : Prop :=
  ∃ r s : Text, l = r ++ x ++ s ∧ r.head? = some '#' ∧ '\n' ∉ r ∧ '\n' ∉ s

theorem IsCommentOf.isHarmless (h : IsCommentOf x l) (hx : '\n' ∉ x) :
    '\n' ∉ l ∧ IsHarmless as l := by
  obtain ⟨r, s, rfl, hhead, hr, hs⟩ := h
  obtain ⟨r, rfl⟩ := List.head?_eq_some_iff.1 hhead
  simp only [List.mem_cons, not_or] at hr
  exact ⟨by simp [hr, hx, hs], .inr (.inl rfl)⟩

theorem isCommentOf_origin (name : Text) (attribution : Option Text) :
    IsCommentOf (attributed name attribution) (origin name attribution) :=
  ⟨"# Added from ".toList, [], (List.append_nil _).symm, by decide, by decide, by decide⟩

theorem isCommentOf_startLine (f : HeadingFormat) (name : Text) :
    IsCommentOf name (f.startLine name) := by
  cases f with
  | dashed => exact ⟨"# --- ".toList, " --- #".toList, rfl, by decide, by decide, by decide⟩
  | bracketed => exact ⟨"# [ ".toList, " ]".toList, rfl, by decide, by decide, by decide⟩
  | hash => exact ⟨"## ".toList, [], (List.append_nil _).symm, by decide, by decide, by decide⟩
  | labeled =>
    exact ⟨"# Section: ".toList, [], (List.append_nil _).symm, by decide, by decide, by decide⟩
  | custom =>
    exact ⟨"# @start ".toList, [], (List.append_nil _).symm, by decide, by decide, by decide⟩

theorem isCommentOf_endLine {f : HeadingFormat} (h : f.endLine? name = some l) :
    IsCommentOf name l := by
  cases f with
  | dashed =>
    obtain rfl := Option.some.inj h
    exact ⟨"# --- End ".toList, " --- #".toList, rfl, by decide, by decide, by decide⟩
  | custom =>
    obtain rfl := Option.some.inj h
    exact ⟨"# @end ".toList, [], (List.append_nil _).symm, by decide, by decide, by decide⟩
  | bracketed | hash | labeled => cases h

theorem isHarmless_of_aliasLines {as' : List AliasDefinition} (has : ∀ a ∈ as', a ∈ as)
    (hplain : ∀ a ∈ as', a.IsUnbroken) (h : aliasLines as' = .ok new) :
    ∀ l ∈ new, '\n' ∉ l ∧ IsHarmless as l := by
  have hnames := AliasDefinition.isAliasName_of_aliasLines h
  rw [AliasDefinition.aliasLines_eq hnames, Except.ok.injEq] at h
  subst h
  intro l hl
  obtain ⟨a, ha, hl⟩ := List.mem_flatMap.1 hl
  refine ⟨(hplain a ha).not_mem_written hl, ?_⟩
  rcases AliasDefinition.mem_written.1 hl with ⟨d, -, rfl⟩ | rfl
  · exact .inr (.inl rfl)
  · exact .inr (.inr ⟨a, has a ha, by rw [Shell.aliasLine?, if_pos (hnames a ha)]; rfl⟩)

/-- The lines of a new section are added: harmless lines between comments. -/
theorem addsLines_newSection (hname : '\n' ∉ name)
    (hnew : ∀ l ∈ new, '\n' ∉ l ∧ IsHarmless as l) (f : HeadingFormat) :
    AddsLines (IsHarmless as) t (newSection t name new f) := by
  have hnil : '\n' ∉ ([] : Text) ∧ IsHarmless as [] := ⟨List.not_mem_nil, isHarmless_nil⟩
  have hstart : '\n' ∉ f.startLine name ∧ IsHarmless as (f.startLine name) :=
    (isCommentOf_startLine f name).isHarmless hname
  have hblock : ∀ closing : List Text, (∀ l ∈ closing, '\n' ∉ l ∧ IsHarmless as l) →
      AddsLines (IsHarmless as) t (t ++ join (LineEnding.of t).text
        ([[], f.startLine name, []] ++ new ++ closing ++ [[]])) := by
    intro closing hclosing
    have hlines : [[], f.startLine name, []] ++ new ++ closing ++ [[]] =
        [] :: (f.startLine name :: [] :: (new ++ (closing ++ [[]]))) := by simp
    rw [hlines, join_cons _ _ (List.cons_ne_nil _ _), List.nil_append]
    refine addsLines_append (List.cons_ne_nil _ _) fun l hl => ?_
    simp only [List.mem_cons, List.mem_append, List.not_mem_nil, or_false] at hl
    rcases hl with rfl | rfl | hl | hl | rfl
    · exact hstart
    · exact hnil
    · exact hnew l hl
    · exact hclosing l hl
    · exact hnil
  unfold newSection
  dsimp only
  split
  · next e he =>
    refine hblock _ fun l hl => ?_
    rcases List.mem_cons.1 hl with rfl | hl
    · exact hnil
    · exact List.mem_singleton.1 hl ▸ (isCommentOf_endLine he).isHarmless hname
  · exact hblock _ fun l hl => by cases hl

/-! ### Inserting -/

/-- What aliases that were added give: a text with their lines behind a section, or with a new
section. -/
theorem many_eq_ok {attribution : Option Text} {format : Option HeadingFormat} {r : InsertResult}
    (h : many t name as attribution format = .ok r) :
    ∃ new, aliasLines as = .ok new ∧
      ((∃ m, SectionMatch.find? t name = some m ∧ r.addedTo = .existing ∧
          r.content = intoSection t m (origin name attribution :: new)) ∨
        SectionMatch.find? t name = none ∧ r.addedTo = .new ∧
          r.content = newSection t (attributed name attribution) new
            (format.getD (HeadingFormat.detect t))) := by
  cases hlines : aliasLines as with
  | error e =>
    rw [many, hlines] at h
    cases h
  | ok new =>
    rw [many, hlines] at h
    cases hfind : SectionMatch.find? t name with
    | some m =>
      rw [hfind] at h
      cases h
      exact ⟨new, rfl, .inl ⟨m, rfl, rfl, rfl⟩⟩
    | none =>
      rw [hfind] at h
      cases h
      exact ⟨new, rfl, .inr ⟨rfl, rfl, rfl⟩⟩

theorem one_eq_ok {name : Option Text} {format : Option HeadingFormat} {r : InsertResult}
    (h : one t a name format = .ok r) :
    ∃ new, aliasLines [a] = .ok new ∧ new ≠ [] ∧
      ((∃ x m, name = some x ∧ SectionMatch.find? t x = some m ∧ r.addedTo = .existing ∧
          r.content = intoSection t m new) ∨
        (∃ x, name = some x ∧ SectionMatch.find? t x = none ∧ r.addedTo = .new ∧
          ∃ f, r.content = newSection t x new f) ∨
        name = none ∧ r.addedTo = .endOfText ∧
          r.content = t ++ (LineEnding.of t).text ++ join (LineEnding.of t).text new ++
            (LineEnding.of t).text) := by
  cases hlines : aliasLines [a] with
  | error e =>
    rw [one, hlines] at h
    cases h
  | ok new =>
    have hne : new ≠ [] := by
      rw [AliasDefinition.aliasLines_eq (AliasDefinition.isAliasName_of_aliasLines hlines),
        Except.ok.injEq] at hlines
      simp [← hlines, AliasDefinition.written]
    refine ⟨new, rfl, hne, ?_⟩
    rw [one, hlines] at h
    cases name with
    | none =>
      cases h
      exact .inr (.inr ⟨rfl, rfl, rfl⟩)
    | some x =>
      dsimp only at h
      cases hfind : SectionMatch.find? t x with
      | some m =>
        rw [hfind] at h
        cases h
        exact .inl ⟨x, m, rfl, hfind, rfl, rfl⟩
      | none =>
        rw [hfind] at h
        cases h
        exact .inr (.inl ⟨x, rfl, hfind, rfl, _, rfl⟩)

theorem addsLines_many {attribution : Option Text} {format : Option HeadingFormat}
    {r : InsertResult} (hname : '\n' ∉ name) (hattribution : ∀ x ∈ attribution, '\n' ∉ x)
    (has : ∀ a ∈ as, a.IsUnbroken) (h : many t name as attribution format = .ok r) :
    AddsLines (IsHarmless as) t r.content := by
  obtain ⟨new, hlines, hplace⟩ := many_eq_ok h
  have hnew := isHarmless_of_aliasLines (fun a ha => ha) has hlines
  have hshown := not_mem_attributed hname hattribution
  obtain ⟨m, -, -, hr⟩ | ⟨-, -, hr⟩ := hplace
  · rw [hr]
    refine addsLines_intoSection isHarmless_nil fun l hl => ?_
    rcases List.mem_cons.1 hl with rfl | hl
    · exact (isCommentOf_origin name attribution).isHarmless hshown
    · exact hnew l hl
  · rw [hr]
    exact addsLines_newSection hshown hnew _

theorem addsLines_one {name : Option Text} {format : Option HeadingFormat} {r : InsertResult}
    (hname : ∀ x ∈ name, '\n' ∉ x) (ha : a.IsUnbroken)
    (h : one t a name format = .ok r) : AddsLines (IsHarmless [a]) t r.content := by
  obtain ⟨new, hlines, hne, hplace⟩ := one_eq_ok h
  have hnew := isHarmless_of_aliasLines (fun b hb => hb) (by simpa using ha) hlines
  obtain ⟨x, m, -, -, -, hr⟩ | ⟨x, hx, -, -, f, hr⟩ | ⟨-, -, hr⟩ := hplace
  · rw [hr]
    exact addsLines_intoSection isHarmless_nil hnew
  · rw [hr]
    exact addsLines_newSection (hname x hx) hnew f
  · rw [hr]
    exact addsLines_atEnd isHarmless_nil hne hnew

/-- **Harmless insertions.** If no line break stands in the name of the section, in the attribution
and in the aliases, then inserting aliases adds lines and changes nothing else, and each of these
lines is blank, a comment or the line of one of the aliases. -/
theorem insert_harmless (t : Text) (format : Option HeadingFormat) :
    (∀ name as attribution r, '\n' ∉ name → (∀ x ∈ attribution, '\n' ∉ x) →
      (∀ a ∈ as, a.IsUnbroken) → many t name as attribution format = .ok r →
        AddsLines (IsHarmless as) t r.content) ∧
    ∀ a name r, (∀ x ∈ name, '\n' ∉ x) → a.IsUnbroken → one t a name format = .ok r →
      AddsLines (IsHarmless [a]) t r.content :=
  ⟨fun _ _ _ _ hname hattribution has h => addsLines_many hname hattribution has h,
    fun _ _ _ hname ha h => addsLines_one hname ha h⟩

theorem insert_harmless_git :
    (∃ r, many sampleText "git".toList [sampleAlias] (some "plugin".toList) = .ok r ∧
      AddsLines (IsHarmless [sampleAlias]) sampleText r.content) ∧
    ∃ r, one sampleText sampleAlias (some "New".toList) (some .custom) = .ok r ∧
      AddsLines (IsHarmless [sampleAlias]) sampleText r.content := by
  have hplain : ∀ a ∈ [sampleAlias], a.IsUnbroken := by
    intro a ha
    obtain rfl := List.mem_singleton.1 ha
    exact sampleAlias_isPlain.isUnbroken
  refine ⟨⟨_, rfl, ?_⟩, ⟨_, rfl, ?_⟩⟩
  · exact (insert_harmless sampleText none).1 "git".toList [sampleAlias] (some "plugin".toList) _
      (by decide) (by decide) hplain rfl
  · exact (insert_harmless sampleText (some .custom)).2 sampleAlias (some "New".toList) _
      (by decide) (hplain sampleAlias List.mem_cons_self) rfl

/-- A name that ends with a line break counts as one, and then the line of the alias is two lines
that are none. A line break in a description or in the name of a section starts a line that is no
comment. -/
theorem insert_lineBreaks :
    (∃ r, one [] ⟨"a\n".toList, "ls".toList, none⟩ = .ok r ∧
      ¬ AddsLines (IsHarmless [⟨"a\n".toList, "ls".toList, none⟩]) [] r.content) ∧
    (∃ r, one [] ⟨"a".toList, "ls".toList, some "x\nls".toList⟩ = .ok r ∧
      ¬ AddsLines (IsHarmless [⟨"a".toList, "ls".toList, some "x\nls".toList⟩]) [] r.content) ∧
    ∃ r, many [] "x\nls".toList [⟨"a".toList, "ls".toList, none⟩] = .ok r ∧
      ¬ AddsLines (IsHarmless [⟨"a".toList, "ls".toList, none⟩]) [] r.content := by
  refine ⟨⟨_, rfl, fun h => ?_⟩, ⟨_, rfl, fun h => ?_⟩, ⟨_, rfl, fun h => ?_⟩⟩
  · exact absurd (h.of_mem (l := "='ls'".toList) (by decide)) (by decide)
  · exact absurd (h.of_mem (l := "ls".toList) (by decide)) (by decide)
  · exact absurd (h.of_mem (l := "ls --- #".toList) (by decide)) (by decide)

end ShellConfig.Insert
