import ShellConfig.Proofs.Section.AddedLines
import ShellConfig.Proofs.Section.Heading
import Mathlib.Logic.Relation

/-!
# Inserting again

A section that was opened for a name is found under this name from then on. Main statements:
`endedLines_of_run`, that no insertion undoes a line that a line feed ends; `headsFor_startLine`,
that the heading of a new section fits its name; and `many_again`, that aliases for this name go to
a section that is there, however many insertions lie between.
-/

namespace ShellConfig

open Text

namespace Text

variable {a b t : Text}

/-! ### Lines with an end -/

/-- The lines of a text that a line feed ends. -/
def endedLines (t : Text) : List Text := (lines t).dropLast

theorem lines_ne_nil (t : Text) : lines t ≠ [] := by
  intro hnil
  have hlength := length_dropReturns (splitOn '\n' t)
  rw [← lines_eq, hnil] at hlength
  exact splitOn_ne_nil '\n' t (List.length_eq_zero_iff.1 hlength.symm)

theorem endedLines_append_feed (a b : Text) :
    endedLines (a ++ '\n' :: b) = (splitOn '\n' a).map dropReturn ++ endedLines b := by
  unfold endedLines
  rw [lines_append_feed, List.dropLast_append_of_ne_nil (lines_ne_nil b)]

theorem exists_last_feed (t : Text) :
    endedLines t = [] ∨ ∃ a b, t = a ++ '\n' :: b ∧ '\n' ∉ b := by
  by_cases hmem : '\n' ∈ t
  · obtain ⟨r, s, hr, hs⟩ := List.eq_append_cons_of_mem (List.mem_reverse.2 hmem)
    refine .inr ⟨s.reverse, r.reverse, ?_, by simpa using hs⟩
    simpa using congrArg List.reverse hr
  · rw [endedLines, lines_of_not_mem hmem]
    exact .inl rfl

theorem endedLines_append (t s : Text) : (endedLines t).Sublist (endedLines (t ++ s)) := by
  obtain hnil | ⟨a, b, rfl, hb⟩ := exists_last_feed t
  · rw [hnil]
    exact List.nil_sublist _
  · have hlast : endedLines b = [] := by rw [endedLines, lines_of_not_mem hb]; rfl
    rw [List.append_assoc, List.cons_append, endedLines_append_feed, endedLines_append_feed, hlast,
      List.append_nil]
    exact List.sublist_append_left _ _

theorem endedLines_insert (a s b : Text) :
    (endedLines (a ++ '\n' :: b)).Sublist (endedLines (a ++ '\n' :: (s ++ '\n' :: b))) := by
  rw [endedLines_append_feed, endedLines_append_feed, endedLines_append_feed]
  exact (List.sublist_append_right _ _).append_left _

theorem mem_endedLines (h : '\n' ∉ t) (a b : Text) :
    dropReturn t ∈ endedLines (a ++ '\n' :: (t ++ '\n' :: b)) := by
  rw [endedLines_append_feed, endedLines_append_feed, splitOn_of_not_mem h]
  simp

theorem endedLines_join (e : LineEnding) {before after new : List Text} (hbefore : before ≠ [])
    (hnew : new ≠ []) : (endedLines (join e.text (before ++ after))).Sublist
      (endedLines (join e.text (before ++ (new ++ after)))) := by
  obtain ⟨r, hr⟩ : ∃ r, e.text = r ++ ['\n'] := by
    cases e with
    | lf => exact ⟨[], rfl⟩
    | crlf => exact ⟨['\r'], rfl⟩
  by_cases hafter : after = []
  · subst hafter
    rw [List.append_nil, List.append_nil, join_append _ hbefore hnew]
    exact endedLines_append _ _
  · rw [join_append _ hbefore hafter, join_append _ hbefore (by simp [hnew]),
      join_append _ hnew hafter, hr]
    have h := endedLines_insert (join (r ++ ['\n']) before ++ r) (join (r ++ ['\n']) new ++ r)
      (join (r ++ ['\n']) after)
    simpa using h

end Text

namespace Insert

variable {a : AliasDefinition} {as : List AliasDefinition} {attribution : Option Text}
  {format : Option HeadingFormat} {l name t u : Text} {m : SectionMatch} {new : List Text}
  {r : InsertResult}

/-! ### Any insertion -/

theorem endedLines_intoSection (hfind : SectionMatch.find? t name = some m) (hnew : new ≠ []) :
    (endedLines t).Sublist (endedLines (intoSection t m new)) := by
  obtain ⟨hpos, hend, -⟩ := SectionMatch.labelAfter_of_find? hfind
  rw [← SectionMatch.length_split t] at hend
  have hsplit := List.take_append_drop m.endLine ((LineEnding.of t).split t)
  have hlength := List.length_take_of_le hend
  have hne : ((LineEnding.of t).split t).take m.endLine ≠ [] := List.ne_nil_of_length_pos (by omega)
  have hold : t = join (LineEnding.of t).text (((LineEnding.of t).split t).take m.endLine ++
      ((LineEnding.of t).split t).drop m.endLine) := by
    rw [hsplit, LineEnding.join_split]
  unfold intoSection
  dsimp only
  rw [List.append_assoc]
  conv_lhs => rw [hold]
  split
  · exact endedLines_join _ hne (List.cons_ne_nil [] new)
  · exact endedLines_join _ hne hnew

/-- One text comes of another by inserting aliases in some way. -/
inductive Inserts (t : Text) : Text → Prop
  | many (name : Text) (as : List AliasDefinition) (attribution : Option Text)
      (format : Option HeadingFormat) (r : InsertResult)
      (h : Insert.many t name as attribution format = .ok r) : Inserts t r.content
  | one (a : AliasDefinition) (name : Option Text) (format : Option HeadingFormat)
      (r : InsertResult) (h : Insert.one t a name format = .ok r) : Inserts t r.content

/-- No insertion undoes a line that has an end. -/
theorem endedLines_of_inserts (h : Inserts t u) : (endedLines t).Sublist (endedLines u) := by
  cases h with
  | many name as attribution format r h =>
    obtain ⟨new, -, ⟨m, hfind, -, hr⟩ | ⟨-, -, hr⟩⟩ := many_eq_ok h
    · rw [hr]
      exact endedLines_intoSection hfind (List.cons_ne_nil _ new)
    · rw [hr]
      exact endedLines_append _ _
  | one a name format r h =>
    obtain ⟨new, -, hne, ⟨x, m, -, hfind, -, hr⟩ | ⟨x, -, -, -, f, hr⟩ | ⟨-, -, hr⟩⟩ := one_eq_ok h
    · rw [hr]
      exact endedLines_intoSection hfind hne
    · rw [hr]
      exact endedLines_append _ _
    · rw [hr, List.append_assoc, List.append_assoc]
      exact endedLines_append _ _

/-- Nor do any number of insertions. -/
theorem endedLines_of_run (h : Relation.ReflTransGen Inserts t u) :
    (endedLines t).Sublist (endedLines u) := by
  induction h with
  | refl => exact List.Sublist.refl _
  | tail _ hstep ih => exact ih.trans (endedLines_of_inserts hstep)

/-! ### Headings -/

/-- A line that opens a section which fits a name. -/
def HeadsFor (name l : Text) : Prop :=
  ∀ n, ∃ m, Marker.ofLine? ⟨n, l⟩ = some m ∧ m.isEnd = false ∧ 0 < SectionName.score name m.label

/-- Where a line opens a section which fits a name, a section is found. -/
theorem exists_find?_of_headsFor (hl : l ∈ lines t) (h : HeadsFor name l) :
    ∃ m, SectionMatch.find? t name = some m := by
  rw [← Option.ne_none_iff_exists', ne_eq, SectionMatch.find?_eq_none_iff]
  intro hnone
  obtain ⟨n, hn⟩ := Line.exists_mem_numbered hl 1
  obtain ⟨m, hm, hstart, hscore⟩ := h n
  have hmem : m ∈ Marker.all t := List.mem_filterMap.2 ⟨_, hn, hm⟩
  have := hnone m hmem hstart
  omega

/-- What makes the heading of a new section fit the name it was opened for: it shows the name with
its attribution, the label of a heading that looks like another one fits all the same, and the
attribution does not make the name another one. -/
structure IsRefound (f : HeadingFormat) (name : Text) (attribution : Option Text) : Prop where
  shows : f.Shows (attributed name attribution)
  labeled : f = .hash → ∀ x,
    Marker.readAs? (f.startLine (attributed name attribution)) .labeled = some x →
      0 < SectionName.score name x
  akin : SectionName.AreAkin name (attributed name attribution)

theorem headsFor_startLine {f : HeadingFormat} {shown : Text}
    (hname : SectionName.normalize name ≠ [])
    (hlength : (f.startLine shown).length ≤ Marker.maxLength) (hfeed : '\n' ∉ shown)
    (hshown : SectionName.normalize shown = SectionName.normalize (attributed name attribution))
    (hshows : f.Shows shown)
    (hlabeled : f = .hash → ∀ x, Marker.readAs? (f.startLine shown) .labeled = some x →
      0 < SectionName.score name x)
    (hakin : SectionName.AreAkin name (attributed name attribution)) :
    HeadsFor name (f.startLine shown) := by
  have hne : SectionName.normalize shown ≠ [] :=
    hshown ▸ SectionName.normalize_attributed_ne_nil hname attribution
  obtain ⟨d, x, hmarker, hstart, hlabel⟩ :=
    HeadingFormat.ofLine?_startLine hlength hfeed hne hshows
  refine fun n => ⟨_, hmarker n, hstart, ?_⟩
  rcases hlabel with hlabel | ⟨hf, hlabel⟩
  · exact SectionName.score_attributed_pos hname (hlabel.trans hshown) hakin
  · exact hlabeled hf x hlabel

theorem dropReturn_startLine (f : HeadingFormat) (shown : Text) :
    dropReturn (f.startLine shown) = f.startLine shown ∨
      dropReturn (f.startLine shown) = f.startLine (dropReturn shown) := by
  cases f with
  | dashed =>
    have hlast : (HeadingFormat.dashed.startLine shown).getLast? = some '#' :=
      List.getLast?_append_of_ne_nil _ (by decide)
    exact .inl (dropReturn_of_getLast (by rw [hlast]; decide))
  | bracketed =>
    have hlast : (HeadingFormat.bracketed.startLine shown).getLast? = some ']' :=
      List.getLast?_append_of_ne_nil _ (by decide)
    exact .inl (dropReturn_of_getLast (by rw [hlast]; decide))
  | hash => exact .inr (dropReturn_append (by decide) shown)
  | labeled => exact .inr (dropReturn_append (by decide) shown)
  | custom => exact .inr (dropReturn_append (by decide) shown)

/-- The heading of a new section fits the name it was opened for, also without the carriage return
it may end with. -/
theorem headsFor_of_isRefound {f : HeadingFormat} (hname : SectionName.normalize name ≠ [])
    (hlength : (f.startLine (attributed name attribution)).length ≤ Marker.maxLength)
    (hfeed : '\n' ∉ attributed name attribution) (hrefound : IsRefound f name attribution) :
    HeadsFor name (f.startLine (attributed name attribution)) ∧
      HeadsFor name (dropReturn (f.startLine (attributed name attribution))) := by
  have hwhole : HeadsFor name (f.startLine (attributed name attribution)) :=
    headsFor_startLine hname hlength hfeed rfl hrefound.shows hrefound.labeled hrefound.akin
  refine ⟨hwhole, ?_⟩
  have hdrop := length_dropReturn_le (f.startLine (attributed name attribution))
  rcases dropReturn_startLine f (attributed name attribution) with hsame | hless
  · rwa [hsame]
  · rw [hless] at hdrop ⊢
    have hshown := SectionName.normalize_dropReturn (attributed name attribution)
    rcases eq_dropReturn_append (attributed name attribution) with hsame | hreturn
    · rwa [← hsame]
    · -- the heading shows what stands in front of the carriage return
      have hshows := hrefound.shows
      have hlabeled := hrefound.labeled
      have hne := SectionName.normalize_attributed_ne_nil hname attribution
      rw [← hshown] at hne
      generalize dropReturn (attributed name attribution) = s at hreturn hdrop hshown hne ⊢
      rw [hreturn] at hfeed hshows hlabeled
      refine headsFor_startLine hname (Nat.le_trans hdrop hlength)
        (fun hmem => hfeed (List.mem_append_left _ hmem)) hshown
        (hshows.of_append_return (SectionName.allBlank_of_normalize hne)) ?_ hrefound.akin
      rintro rfl x hx
      have hsplit : HeadingFormat.hash.startLine s ++ ['\r'] =
          HeadingFormat.hash.startLine (s ++ ['\r']) := List.append_assoc ..
      exact hlabeled rfl x (hsplit ▸ Marker.readAs?_append_return hx)

theorem exists_heading_of_newSection {f : HeadingFormat} {shown : Text} (hfeed : '\n' ∉ shown)
    (t : Text) (new : List Text) :
    ∃ l ∈ endedLines (newSection t shown new f),
      l = f.startLine shown ∨ l = dropReturn (f.startLine shown) := by
  obtain ⟨rest, hrest⟩ : ∃ rest, newSection t shown new f =
      t ++ ((LineEnding.of t).text ++ (f.startLine shown ++ ((LineEnding.of t).text ++ rest))) :=
    ⟨_, rfl⟩
  have hfeed' : '\n' ∉ f.startLine shown := by
    obtain ⟨r, s, hstart, -, hr, hs⟩ := isCommentOf_startLine f shown
    simp [hstart, hr, hs, hfeed]
  rw [hrest]
  cases LineEnding.of t with
  | lf => exact ⟨_, mem_endedLines hfeed' t rest, .inr rfl⟩
  | crlf =>
    have hreturn : '\n' ∉ f.startLine shown ++ ['\r'] := by simp [hfeed']
    have hmem := mem_endedLines hreturn (t ++ ['\r']) rest
    refine ⟨f.startLine shown, ?_, .inl rfl⟩
    rw [dropReturn_append_return] at hmem
    simpa [LineEnding.text] using hmem

/-- **Inserting again.** Where aliases open a new section and its heading can be refound, then after
any number of insertions more aliases for the same name go to a section that is there. -/
theorem many_again (hname : SectionName.normalize name ≠ []) (hfeed : '\n' ∉ name)
    (hattribution : ∀ x ∈ attribution, '\n' ∉ x)
    (hlength : ((format.getD (HeadingFormat.detect t)).startLine
      (attributed name attribution)).length ≤ Marker.maxLength)
    (hrefound : IsRefound (format.getD (HeadingFormat.detect t)) name attribution)
    (h : many t name as attribution format = .ok r) (hnew : r.addedTo = .new)
    (hrun : Relation.ReflTransGen Inserts r.content u) (bs : List AliasDefinition)
    (hbs : ∀ b ∈ bs, Shell.isAliasName b.name = true) (attribution' : Option Text)
    (format' : Option HeadingFormat) :
    ∃ r', many u name bs attribution' format' = .ok r' ∧ r'.addedTo = .existing := by
  have hshown := not_mem_attributed hfeed hattribution
  obtain ⟨new, -, ⟨m, -, hadded, -⟩ | ⟨-, -, hr⟩⟩ := many_eq_ok h
  · rw [hnew] at hadded
    cases hadded
  · obtain ⟨hwhole, hless⟩ := headsFor_of_isRefound hname hlength hshown hrefound
    obtain ⟨l, hl, hheading⟩ := exists_heading_of_newSection hshown t new
    rw [← hr] at hl
    have hhead : HeadsFor name l := by
      rcases hheading with rfl | rfl
      · exact hwhole
      · exact hless
    obtain ⟨m, hfind⟩ := exists_find?_of_headsFor
      (List.dropLast_subset _ ((endedLines_of_run hrun).subset hl)) hhead
    unfold many
    rw [AliasDefinition.aliasLines_eq hbs, hfind]
    exact ⟨_, rfl, rfl⟩

theorem many_again_deploy :
    ∃ r r', many sampleText "Deploy Aliases".toList [sampleAlias] (some "k8s".toList) = .ok r ∧
      r.addedTo = .new ∧ one r.content sampleAlias none = .ok r' ∧
        ∃ r'', many r'.content "Deploy Aliases".toList [sampleAlias] = .ok r'' ∧
          r''.addedTo = .existing := by
  obtain ⟨r, hr, hnew⟩ : ∃ r, many sampleText "Deploy Aliases".toList [sampleAlias]
      (some "k8s".toList) = .ok r ∧ r.addedTo = .new := ⟨_, rfl, rfl⟩
  obtain ⟨r', hr'⟩ : ∃ r', one r.content sampleAlias none = .ok r' := ⟨_, rfl⟩
  have hhash : IsRefound .hash "Deploy Aliases".toList (some "k8s".toList) :=
    { shows := ⟨fun hf => absurd hf (by decide), fun _ => by decide⟩
      labeled := fun _ x hx => by cases hx
      akin := by decide }
  have hrefound : IsRefound ((none : Option HeadingFormat).getD (HeadingFormat.detect sampleText))
      "Deploy Aliases".toList (some "k8s".toList) := hhash
  exact ⟨r, r', hr, hnew, hr', many_again (by decide) (by decide) (by decide) (by decide) hrefound
    hr hnew (.single (.one sampleAlias none none r' hr')) [sampleAlias] (by decide) none none⟩

/-- An attribution can make a short name another one, and a heading can look like one that closes a
section, like one of another kind, or like none. Then a second section is opened for the name. -/
theorem many_twice :
    (∃ r r', many [] "ab".toList [⟨"x".toList, "1".toList, none⟩] (some "xyz".toList) = .ok r ∧
      many r.content "ab".toList [⟨"x".toList, "1".toList, none⟩] (some "xyz".toList) = .ok r' ∧
      r.addedTo = .new ∧ r'.addedTo = .new) ∧
    (∃ r r', many [] "End x".toList [⟨"x".toList, "1".toList, none⟩] = .ok r ∧
      many r.content "End x".toList [⟨"x".toList, "1".toList, none⟩] = .ok r' ∧
      r.addedTo = .new ∧ r'.addedTo = .new) ∧
    (∃ r r', many [] "#a".toList [⟨"x".toList, "1".toList, none⟩] none (some .hash) = .ok r ∧
      many r.content "#a".toList [⟨"x".toList, "1".toList, none⟩] none (some .hash) = .ok r' ∧
      r.addedTo = .new ∧ r'.addedTo = .new) ∧
    ∃ r r', many [] "Section: git".toList [⟨"x".toList, "1".toList, none⟩] none (some .hash) =
        .ok r ∧
      many r.content "Section: git".toList [⟨"x".toList, "1".toList, none⟩] none (some .hash) =
        .ok r' ∧
      r.addedTo = .new ∧ r'.addedTo = .new :=
  ⟨⟨_, _, rfl, rfl, rfl, rfl⟩, ⟨_, _, rfl, rfl, rfl, rfl⟩, ⟨_, _, rfl, rfl, rfl, rfl⟩,
    ⟨_, _, rfl, rfl, rfl, rfl⟩⟩

end Insert
end ShellConfig
