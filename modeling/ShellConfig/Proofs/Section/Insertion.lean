import ShellConfig.Proofs.Entry.AliasLine
import ShellConfig.Proofs.Section.Find

/-!
# Inserting aliases into a section

What is read of a text after aliases are put into a section that is there. Main statements:
`exists_lines_of_intoSection`, which lines the new text has; `onLines_written`, what is read of the
new ones; and `many_existing`, what is read of the whole text.
-/

namespace ShellConfig

open Text

namespace AliasDefinition

variable {a : AliasDefinition} {as : List AliasDefinition} {l l' : Text} {n : Nat}

/-! ### Written lines are read -/

def entry (label : Option Text) (n : Nat) (a : AliasDefinition) : Entry :=
  { kind := .aliased, lineNumber := n, lineText := a.line, label := label
    payload := { name := some a.name, command := some (Shell.quoteSingle a.command) } }

/-- The entries that are read of the lines written for some aliases from number `n` on. The line of
an alias is the last one written for it. -/
def entries (label : Option Text) (n : Nat) : List AliasDefinition → List Entry
  | [] => []
  | a :: as =>
    a.entry label (n + a.comment?.toList.length) :: entries label (n + a.written.length) as

theorem entries_map_withLabel (label : Text) (n : Nat) (as : List AliasDefinition) :
    (entries none n as).map (Entry.withLabel label) = entries (some label) n as := by
  induction as generalizing n with
  | nil => rfl
  | cons a as ih =>
    rw [entries, entries, List.map_cons, ih]
    rfl

theorem onLines_line (ha : a.IsPlain) (n : Nat) :
    Entry.onLines Kind.all false (Line.short Entry.defaultLimit n [a.line]) = [a.entry none n] := by
  have hlength := ha.length_le a.line (mem_written.2 (.inr rfl))
  have hshort : Line.short Entry.defaultLimit n [a.line] = [⟨n, a.line⟩] := by
    simp [Line.short, Line.fits, hlength]
  have hopening := (isSwitchable_line a).opening?_eq_none
  have hkind : ∀ k, Entry.onLine false ⟨n, a.line⟩ k =
      if k = .aliased then [a.entry none n] else [] := by
    intro k
    by_cases hk : k = .plugin
    · subst hk
      simp [Entry.onLine, Entry.payloadsOn, Plugins.read_of_opening hopening]
    · rw [Entry.onLine, Entry.payloadsOn_of_ne hk, payloads_line ha]
      split
      · next h =>
        rw [h]
        rfl
      · rfl
  rw [hshort, Entry.onLines_of_opening (by simpa using hopening), List.flatMap_singleton,
    funext hkind]
  rfl

theorem isCommented_comment (h : l ∈ a.comment?) : Edit.isCommented l = true := by
  obtain ⟨d, -, rfl⟩ := Option.map_eq_some_iff.1 h
  exact Edit.isCommented_commented (b := []) allBlank_nil _

/-- What is read of the lines that are written for aliases, with a carriage return lost or not. -/
theorem onLines_written {ls : List Text} (h : ∀ a ∈ as, a.IsPlain)
    (hls : List.Forall₂ (fun l l' => l' = l ∨ l' = dropReturn l) (as.flatMap written) ls) :
    Entry.onLines Kind.all false (Line.short Entry.defaultLimit n ls) = entries none n as := by
  induction as generalizing n ls with
  | nil =>
    cases hls
    rfl
  | cons a as ih =>
    have ha := h a List.mem_cons_self
    have ih' := fun n ls => @ih n ls fun b hb => h b (List.mem_cons_of_mem a hb)
    -- the line of the alias, which loses nothing, and what is written behind it
    have hline : ∀ {n ls}, List.Forall₂ (fun l l' => l' = l ∨ l' = dropReturn l)
        (a.line :: as.flatMap written) ls →
        Entry.onLines Kind.all false (Line.short Entry.defaultLimit n ls) =
          a.entry none n :: entries none (n + 1) as := by
      intro n ls hls
      obtain ⟨l, ls', hl, hls', rfl⟩ := List.forall₂_cons_left_iff.1 hls
      rw [dropReturn_line, or_self] at hl
      subst hl
      rw [Entry.onLines_short_cons (isSwitchable_line a).opening?_eq_none, onLines_line ha,
        ih' _ _ hls']
      rfl
    rw [List.flatMap_cons, written] at hls
    rw [entries, written]
    cases hc : a.comment? with
    | none =>
      rw [hc] at hls
      exact hline hls
    | some c =>
      rw [hc] at hls
      obtain ⟨l, ls', hl, hls', rfl⟩ := List.forall₂_cons_left_iff.1 hls
      have hcomment : Edit.isCommented l = true := by
        rcases hl with rfl | rfl
        · exact isCommented_comment hc
        · exact Edit.isCommented_dropReturn (isCommented_comment hc)
      rw [Entry.onLines_short_comment hcomment, hline hls']
      rfl

end AliasDefinition

namespace Insert

variable {a : AliasDefinition} {as : List AliasDefinition} {attribution : Option Text}
  {l l' name t : Text} {m : SectionMatch} {new : List Text}

/-! ### Ordinary lines -/

/-- A line that opens no plugin list and is no marker. -/
structure IsOrdinary (l : Text) : Prop where
  opening : Plugins.opening? l = none
  marker : ∀ n, Marker.ofLine? ⟨n, l⟩ = none

theorem isOrdinary_nil : IsOrdinary [] :=
  ⟨rfl, fun _ => Marker.ofLine?_eq_none_iff.2 (.inr (Marker.readAs?_of_not_commented rfl))⟩

/-- The comment that says where aliases come from. -/
def origin (name : Text) (attribution : Option Text) : Text :=
  "# Added from ".toList ++ attributed name attribution

theorem isOrdinary_origin
    (h : l = origin name attribution ∨ l = dropReturn (origin name attribution)) :
    IsOrdinary l := by
  obtain ⟨r, rfl⟩ : ∃ r, l = [] ++ '#' :: ' ' :: 'A' :: r := by
    rcases h with rfl | rfl
    · exact ⟨_, rfl⟩
    · unfold origin
      rw [dropReturn_append (by decide)]
      exact ⟨_, rfl⟩
  refine ⟨Plugins.opening?_of_isCommented (Edit.isCommented_commented allBlank_nil _), fun n => ?_⟩
  have htrim : trimLeft (' ' :: 'A' :: r) = 'A' :: r := rfl
  exact Marker.ofLine?_eq_none_iff.2 <| .inr <| Marker.readAs?_of_commented allBlank_nil htrim
    (by decide) (by decide) (by decide) (by decide) rfl

theorem isOrdinary_comment (ha : a.IsPlain) (hl : l ∈ a.comment?)
    (h : l' = l ∨ l' = dropReturn l) : IsOrdinary l' := by
  have hcomment := AliasDefinition.isCommented_comment hl
  have hnone := ha.noMarker l hl
  have hlength : l.length ≤ Marker.maxLength := by
    have hwritten : l ∈ a.written := List.mem_append_left _ (Option.mem_toList.2 hl)
    have := ha.length_le l hwritten
    unfold Entry.defaultLimit at this
    unfold Marker.maxLength
    omega
  rcases h with rfl | rfl
  · have hread := Marker.ofLine?_eq_none_iff.1 hnone
    exact ⟨Plugins.opening?_of_isCommented hcomment, fun _ => Marker.ofLine?_eq_none_iff.2 hread⟩
  · exact ⟨Plugins.opening?_of_isCommented (Edit.isCommented_dropReturn hcomment),
      Marker.ofLine?_dropReturn hlength hnone⟩

theorem isOrdinary_line (a : AliasDefinition) : IsOrdinary a.line :=
  have hline := AliasDefinition.isSwitchable_line a
  ⟨hline.opening?_eq_none, fun _ => Marker.ofLine?_eq_none_iff.2 (.inr hline.readAs?_eq_none)⟩

theorem isOrdinary_written (ha : a.IsPlain) (hl : l ∈ a.written)
    (h : l' = l ∨ l' = dropReturn l) : IsOrdinary l' := by
  rcases List.mem_append.1 hl with hl | hl
  · exact isOrdinary_comment ha (Option.mem_toList.1 hl) h
  · obtain rfl := List.mem_singleton.1 hl
    rw [AliasDefinition.dropReturn_line, or_self] at h
    exact h ▸ isOrdinary_line a

/-! ### The new lines -/

theorem not_mem_attributed (hname : '\n' ∉ name) (hattribution : ∀ x ∈ attribution, '\n' ∉ x) :
    '\n' ∉ attributed name attribution := by
  unfold attributed
  cases hp : present attribution with
  | none => exact hname
  | some x =>
    have hx := hattribution x (AliasDefinition.mem_of_present hp)
    have hopen : '\n' ∉ " (".toList := by decide
    simp only [List.mem_append, List.mem_singleton, not_or]
    exact ⟨⟨⟨hname, hopen⟩, hx⟩, by decide⟩

theorem not_mem_origin (hname : '\n' ∉ name) (hattribution : ∀ x ∈ attribution, '\n' ∉ x) :
    '\n' ∉ origin name attribution := by
  have hfront : '\n' ∉ "# Added from ".toList := by decide
  unfold origin
  rw [List.mem_append, not_or]
  exact ⟨hfront, not_mem_attributed hname hattribution⟩

/-- The lines of a text with lines put behind a section: the new ones stand behind its last line,
perhaps with an empty one in front. Each keeps its text but for a carriage return at its end. -/
theorem exists_lines_of_intoSection (hlast : t.getLast? ≠ some '\r')
    (hend : m.endLine ≤ t.lines.length) (hne : new ≠ []) (hnew : ∀ l ∈ new, '\n' ∉ l) :
    ∃ as ms bs h, h ≤ 1 ∧ t.lines = as ++ bs ∧ (intoSection t m new).lines = as ++ (ms ++ bs) ∧
      as.length = m.endLine ∧
      List.Forall₂ (fun l l' => l' = l ∨ l' = dropReturn l) (List.replicate h [] ++ new) ms := by
  let e := LineEnding.of t
  let ls := e.split t
  have htake : ls.take m.endLine ++ ls.drop m.endLine = ls := List.take_append_drop ..
  obtain ⟨h, hle, hcontent⟩ : ∃ h, h ≤ 1 ∧ intoSection t m new =
      join e.text (ls.take m.endLine ++ ((List.replicate h [] ++ new) ++ ls.drop m.endLine)) := by
    unfold intoSection
    dsimp only
    split
    · exact ⟨1, Nat.le_refl 1, by rw [List.append_assoc]; rfl⟩
    · exact ⟨0, Nat.zero_le 1, by rw [List.append_assoc]; rfl⟩
  have hblock : List.replicate h [] ++ new ≠ [] := by simp [hne]
  obtain ⟨as, ms, bs, hold, hlines, hlength, hms⟩ :=
    e.trimmed_insert (ls.take m.endLine) (ls.drop m.endLine) hblock
      fun l hl => LineEnding.getLast?_of_split hlast e (by rwa [htake] at hl)
  refine ⟨as, ms, bs, h, hle, ?_, ?_, ?_, hms⟩
  · rw [← hold, htake]
    exact LineEnding.lines_eq_trimmed t
  · rw [hcontent, ← hlines]
    have hpieces := List.append_ne_nil_of_left_ne_nil hblock (ls.drop m.endLine)
    refine LineEnding.lines_join e (List.append_ne_nil_of_right_ne_nil _ hpieces) fun l hl => ?_
    simp only [List.mem_append, List.mem_replicate] at hl
    rcases hl with hl | (⟨-, rfl⟩ | hl) | hl
    · exact LineEnding.not_mem_of_mem_split (List.mem_of_mem_take hl)
    · exact List.not_mem_nil
    · exact hnew l hl
    · exact LineEnding.not_mem_of_mem_split (List.mem_of_mem_drop hl)
  · have hpieces : ls.length = t.lines.length := SectionMatch.length_split t
    rw [hlength, List.length_take, hpieces, Nat.min_eq_left hend]

theorem isOrdinary_new {h : Nat} {ms : List Text} (has : ∀ a ∈ as, a.IsPlain)
    (hms : List.Forall₂ (fun l l' => l' = l ∨ l' = dropReturn l)
      (List.replicate h [] ++ origin name attribution :: as.flatMap AliasDefinition.written) ms) :
    ∀ l ∈ ms, IsOrdinary l := by
  intro l' hl'
  obtain ⟨l, hl, hdrop⟩ := exists_of_forall₂ hms hl'
  rcases List.mem_append.1 hl with hl | hl
  · obtain rfl := List.eq_of_mem_replicate hl
    rw [dropReturn_nil, or_self] at hdrop
    exact hdrop ▸ isOrdinary_nil
  · rcases List.mem_cons.1 hl with rfl | hl
    · exact isOrdinary_origin hdrop
    · obtain ⟨a, ha, hl⟩ := List.mem_flatMap.1 hl
      exact isOrdinary_written (has a ha) hl hdrop

theorem onLines_new {h n : Nat} {ms : List Text} (has : ∀ a ∈ as, a.IsPlain)
    (hms : List.Forall₂ (fun l l' => l' = l ∨ l' = dropReturn l)
      (List.replicate h [] ++ origin name attribution :: as.flatMap AliasDefinition.written) ms) :
    Entry.onLines Kind.all false (Line.short Entry.defaultLimit n ms) =
      AliasDefinition.entries none (n + h + 1) as := by
  induction h generalizing n ms with
  | zero =>
    obtain ⟨l, ms', hl, hms', rfl⟩ := List.forall₂_cons_left_iff.1 hms
    have horigin : Edit.isCommented (origin name attribution) = true :=
      Edit.isCommented_commented (b := []) allBlank_nil _
    have hcomment : Edit.isCommented l = true := by
      rcases hl with rfl | rfl
      · exact horigin
      · exact Edit.isCommented_dropReturn horigin
    rw [Entry.onLines_short_comment hcomment, AliasDefinition.onLines_written has hms']
  | succ h ih =>
    obtain ⟨l, ms', hl, hms', rfl⟩ := List.forall₂_cons_left_iff.1 hms
    rw [dropReturn_nil, or_self] at hl
    subst hl
    have hnil : Entry.onLines Kind.all false (Line.short Entry.defaultLimit n [[]]) = [] := rfl
    rw [Entry.onLines_short_cons rfl, hnil, List.nil_append, ih hms', Nat.add_right_comm n 1 h]
    rfl

theorem many_eq (hfind : SectionMatch.find? t name = some m)
    (has : ∀ a ∈ as, Shell.isAliasName a.name = true) (format : Option HeadingFormat) :
    ∃ r, many t name as attribution format = .ok r ∧
      r.content =
        intoSection t m (origin name attribution :: as.flatMap AliasDefinition.written) := by
  unfold many
  rw [AliasDefinition.aliasLines_eq has, hfind]
  exact ⟨_, rfl, rfl⟩

/-- **Inserting aliases.** Where a section fits a name and no plugin list is open behind it, aliases
are put behind it. Of the new text the same entries are read as before, those behind the section
further down by the number of new lines, and between them one entry for each alias, with the label
of the section. In front of the aliases stands a comment, perhaps with an empty line before it. -/
theorem many_existing (hlast : t.getLast? ≠ some '\r')
    (hfind : SectionMatch.find? t name = some m) (hname : '\n' ∉ name)
    (hattribution : ∀ x ∈ attribution, '\n' ∉ x) (has : ∀ a ∈ as, a.IsPlain)
    (hopen : Plugins.openAfter false
      ((Line.safe Entry.defaultLimit t).filter (·.number ≤ m.endLine)) = false)
    (format : Option HeadingFormat) :
    ∃ r k h, many t name as attribution format = .ok r ∧
      r.content.lines.length = t.lines.length + k ∧
      k = h + (as.flatMap AliasDefinition.written).length ∧ 1 ≤ h ∧ h ≤ 2 ∧
      Entry.inSections r.content =
        (Entry.inSections t).filter (·.lineNumber ≤ (m.endLine : Int)) ++
          AliasDefinition.entries (some (if m.label.isEmpty then unlabeled else m.label))
            (m.endLine + h + 1) as ++
          ((Entry.inSections t).filter ((m.endLine : Int) < ·.lineNumber)).map (Entry.moved k) := by
  obtain ⟨-, hend, hlabel⟩ := SectionMatch.labelAfter_of_find? hfind
  obtain ⟨r, hr, hcontent⟩ := many_eq hfind (fun a ha => (has a ha).isAliasName) format
  have hnew : ∀ l ∈ origin name attribution :: as.flatMap AliasDefinition.written, '\n' ∉ l := by
    intro l hl
    rcases List.mem_cons.1 hl with rfl | hl
    · exact not_mem_origin hname hattribution
    · obtain ⟨a, ha, hl⟩ := List.mem_flatMap.1 hl
      exact AliasDefinition.not_mem_written (has a ha) hl
  obtain ⟨before, ms, behind, h, hle, hold, hlines, hlength, hms⟩ :=
    exists_lines_of_intoSection hlast hend (List.cons_ne_nil _ _) hnew
  rw [← hcontent] at hlines
  have hbefore : t.lines.take m.endLine = before := by
    rw [hold, ← hlength, List.take_left]
  rw [Line.safe_eq, hold, ← hlength, Line.filter_short_append] at hopen
  have hlimit : (Marker.maxLength : Int) ≤ Entry.defaultLimit := by decide
  rw [hbefore, ← Marker.ofLines_short hlimit] at hlabel
  have hordinary := isOrdinary_new has hms
  have hentries := Entry.inSections_insert hold hlines hopen (fun l hl => (hordinary l hl).opening)
    (fun l hl => (hordinary l hl).marker)
  refine ⟨r, ms.length, h + 1, hr, ?_, ?_, by omega, by omega, ?_⟩
  · rw [hlines, hold]
    simp only [List.length_append]
    omega
  · rw [← hms.length_eq]
    simp only [List.length_append, List.length_replicate, List.length_cons]
    omega
  · have hnumber : 1 + m.endLine + h + 1 = m.endLine + (h + 1) + 1 := by omega
    rw [hentries, onLines_new has hms, hlength, hlabel, AliasDefinition.entries_map_withLabel,
      hnumber]

def sampleText : Text := "## Git\nexport PAGER=less\n## Tools\nalias ll='ls -l'\n".toList

def sampleAlias : AliasDefinition :=
  ⟨"gs".toList, "git status".toList, some "Short for status".toList⟩

theorem sampleAlias_isPlain : sampleAlias.IsPlain where
  isAliasName := by decide
  name := by decide
  command := by decide
  description := by decide
  length_le := by decide
  noMarker := by decide

theorem many_existing_git :
    ∃ r k h, many sampleText "git".toList [sampleAlias] (some "plugin".toList) = .ok r ∧
      r.content.lines.length = sampleText.lines.length + k ∧ k = h + 2 ∧ 1 ≤ h ∧ h ≤ 2 ∧
      Entry.inSections r.content =
        (Entry.inSections sampleText).filter (·.lineNumber ≤ 2) ++
          [sampleAlias.entry (some "Git".toList) (2 + h + 1 + 1)] ++
          ((Entry.inSections sampleText).filter (2 < ·.lineNumber)).map (Entry.moved k) := by
  have hfind : SectionMatch.find? sampleText "git".toList = some ⟨"Git".toList, 1, 2, 100⟩ := rfl
  have hopen : Plugins.openAfter false
      ((Line.safe Entry.defaultLimit sampleText).filter (·.number ≤ 2)) = false := rfl
  exact many_existing (by decide) hfind (by decide) (by decide)
    (by simpa using sampleAlias_isPlain) hopen none

end Insert
end ShellConfig
