import ShellConfig.Proofs.Entry.Declaration
import ShellConfig.Section.Insert

/-!
# Lines that are written for aliases

What is read of the lines that are written for an alias. Main statements: `stripQuotes_quote`, that
a quoted command is read as it was escaped; `payloads_line`, that the line of an alias declares this
alias and nothing else; and `aliasLines_eq`, which lines are written.
-/

namespace ShellConfig

open Text

/-! ### Quoted commands -/

/-- A quoted command is read as it was escaped. -/
theorem Shell.stripQuotes_quote (t : Text) : stripQuotes (trimRight (quote t)) = quoteSingle t := by
  have htrim : trimRight (quote t) = quote t :=
    trimRight_append_of_not_blank (by decide) (singleQuote :: quoteSingle t)
  rw [htrim]
  unfold quote
  cases hq : quoteSingle t ++ [singleQuote] with
  | nil => simp at hq
  | cons c r =>
    have hlast : (c :: r).getLast? = some singleQuote := by
      rw [← hq]
      simp
    rw [stripQuotes, if_pos ⟨by decide, hlast⟩, ← hq]
    simp

theorem Shell.isName_of_not_mem {next : Char → Bool} {n : Text} (h : isName next n = true)
    (hbreak : '\n' ∉ n) : IsName isNameStart next n := by
  have hbody : nameBody n = n := by
    unfold nameBody
    cases hb : before? ['\n'] n with
    | none => rfl
    | some r =>
      rw [before?_eq_some_iff] at hb
      exact absurd (by simp [hb]) hbreak
  unfold isName at h
  rw [hbody] at h
  cases n with
  | nil => cases h
  | cons c r =>
    rw [Bool.and_eq_true, List.all_eq_true] at h
    exact ⟨c, r, rfl, h.1, h.2⟩

/-- An alias name of one line is a key of an alias that begins like a name. -/
theorem Shell.isAliasName_spec {n : Text} (h : isAliasName n = true) (hbreak : '\n' ∉ n) :
    (∃ c r, n = c :: r ∧ isNameStart c = true) ∧ ∀ c ∈ n, Recognize.isAliasChar c = true := by
  obtain ⟨c, r, rfl, hc, hr⟩ := isName_of_not_mem h hbreak
  refine ⟨⟨c, r, rfl, hc⟩, fun d hd => ?_⟩
  rcases List.mem_cons.1 hd with rfl | hd
  · exact Recognize.isAliasChar_of_isNameStart hc
  · have hnext := hr d hd
    simp only [Bool.or_eq_true, beq_iff_eq] at hnext
    simp only [Recognize.isAliasChar, Bool.or_eq_true, decide_eq_true_eq, List.mem_cons]
    tauto

/-- The first word of the line is no function name: no parenthesis follows. -/
theorem Recognize.bareFunction?_alias {c : Char} (hc : isBlank c = false) (hparen : '(' ≠ c)
    (r : Text) : bareFunction? ('a' :: 'l' :: 'i' :: 'a' :: 's' :: ' ' :: c :: r) = none := by
  have hname : name? isNameStart isFunctionChar
      ('a' :: 'l' :: 'i' :: 'a' :: 's' :: ' ' :: c :: r) =
        some ("alias".toList, ' ' :: c :: r) := rfl
  have hparens : afterParens? (trimLeft (' ' :: c :: r)) = none := by
    rw [trimLeft_cons_of_blank (by decide), trimLeft_cons_of_not_blank hc]
    simp [afterParens?, after?, hparen]
  unfold bareFunction?
  rw [hname]
  change (afterParens? (trimLeft (' ' :: c :: r))).bind _ = none
  rw [hparens]
  rfl

namespace AliasDefinition

variable {a : AliasDefinition} {as : List AliasDefinition} {k : Kind} {n : Nat}

/-! ### Lines of aliases -/

def line (a : AliasDefinition) : Text :=
  "alias ".toList ++ a.name ++ ['='] ++ Shell.quote a.command

/-- The comment above the line, if there is a description. -/
def comment? (a : AliasDefinition) : Option Text :=
  (Insert.present a.description).map fun d => ['#', ' '] ++ d

def written (a : AliasDefinition) : List Text := a.comment?.toList ++ [a.line]

/-- An alias that can be written on lines of its own: its name may be written and nothing holds a
line break, the lines are short enough to be read, and the description makes no marker. -/
structure IsPlain (a : AliasDefinition) : Prop where
  isAliasName : Shell.isAliasName a.name = true
  name : '\n' ∉ a.name
  command : '\n' ∉ a.command
  description : ∀ d ∈ a.description, '\n' ∉ d
  length_le : ∀ l ∈ a.written, (l.length : Int) ≤ Entry.defaultLimit
  noMarker : ∀ l ∈ a.comment?, Marker.ofLine? ⟨0, l⟩ = none

/-- Nothing of an alias holds a line break. -/
structure IsUnbroken (a : AliasDefinition) : Prop where
  name : '\n' ∉ a.name
  command : '\n' ∉ a.command
  description : ∀ d ∈ a.description, '\n' ∉ d

theorem IsPlain.isUnbroken (ha : a.IsPlain) : a.IsUnbroken := ⟨ha.name, ha.command, ha.description⟩

theorem line_eq (a : AliasDefinition) :
    a.line = [] ++ ("alias".toList ++ ([' '] ++ (a.name ++ '=' :: Shell.quote a.command))) := by
  have hword : "alias ".toList = "alias".toList ++ [' '] := by decide
  unfold line
  rw [hword]
  simp only [List.append_assoc, List.nil_append, List.cons_append]

theorem isSwitchable_line (a : AliasDefinition) : Edit.IsSwitchable a.line := by
  rw [line_eq]
  exact Edit.IsSwitchable.active (b := []) (w := "alias".toList) _ allBlank_nil (by decide)

theorem dropReturn_line (a : AliasDefinition) : dropReturn a.line = a.line := by
  refine dropReturn_of_getLast ?_
  have hlast : a.line.getLast? = some Shell.singleQuote := by
    unfold line Shell.quote
    rw [← List.cons_append, ← List.append_assoc, List.getLast?_concat]
  rw [hlast]
  decide

theorem alias?_line (ha : Shell.isAliasName a.name = true) (hbreak : '\n' ∉ a.name) :
    Recognize.alias? a.line = some (a.name, Shell.quoteSingle a.command) := by
  obtain ⟨⟨c, r, hname, -⟩, hchars⟩ := Shell.isAliasName_spec ha hbreak
  have hne : a.name ≠ [] := by simp [hname]
  have hgap : IsGap [' '] := isGap_cons rfl allBlank_nil
  rw [line_eq, ← Shell.stripQuotes_quote]
  exact Recognize.alias?_eq allBlank_nil hgap .absent hne hchars _

/-- The line of an alias declares this alias and nothing else. -/
theorem payloads_line (ha : a.IsPlain) (k : Kind) :
    Recognize.payloads a.line k =
      if k = .aliased then
        [{ name := some a.name, command := some (Shell.quoteSingle a.command) }]
      else [] := by
  obtain ⟨⟨c, r, hname, hc⟩, hchars⟩ := Shell.isAliasName_spec ha.isAliasName ha.name
  have htrim : trimLeft a.line =
      'a' :: 'l' :: 'i' :: 'a' :: 's' :: ' ' :: c :: (r ++ '=' :: Shell.quote a.command) := by
    rw [line_eq, Edit.trimLeft_firstWord (by decide) allBlank_nil, hname]
    rfl
  have hparen : '(' ≠ c := by
    rintro rfl
    cases hc
  have hblank : isBlank c = false :=
    Recognize.isBlank_of_isAliasChar (hchars c (by simp [hname]))
  cases k with
  | aliased => rw [Recognize.payloads, alias?_line ha.isAliasName ha.name]; rfl
  | exported => unfold Recognize.payloads Recognize.export?; rw [htrim]; rfl
  | function =>
    unfold Recognize.payloads Recognize.function? Recognize.namedFunction?
    rw [htrim, Recognize.bareFunction?_alias hblank hparen]
    rfl
  | source => unfold Recognize.payloads Recognize.source?; rw [htrim]; rfl
  | plugin => rfl
  | autoload =>
    unfold Recognize.payloads Recognize.autoload Recognize.command?
    rw [htrim]
    rfl
  | fpath => unfold Recognize.payloads Recognize.fpath; rw [htrim]; rfl
  | path => unfold Recognize.payloads Recognize.path?; rw [htrim]; rfl
  | theme => unfold Recognize.payloads Recognize.theme?; rw [htrim]; rfl
  | completion => unfold Recognize.payloads Recognize.completion?; rw [htrim]; rfl
  | history => unfold Recognize.payloads Recognize.history?; rw [htrim]; rfl
  | setopt | eval | keybinding => unfold Recognize.payloads Recognize.command?; rw [htrim]; rfl

/-! ### Written lines -/

theorem linesOf_eq (ha : Shell.isAliasName a.name = true) :
    Insert.linesOf true a = .ok a.written := by
  unfold Insert.linesOf Shell.aliasLine? written comment?
  rw [if_pos ha]
  cases Insert.present a.description <;> rfl

/-- The lines that are written for aliases whose names may be written. -/
theorem aliasLines_eq (h : ∀ a ∈ as, Shell.isAliasName a.name = true) :
    Insert.aliasLines as = .ok (as.flatMap written) := by
  induction as with
  | nil => rfl
  | cons a as ih =>
    rw [Insert.aliasLines, linesOf_eq (h a List.mem_cons_self),
      ih fun b hb => h b (List.mem_cons_of_mem a hb), List.flatMap_cons]
    rfl

theorem isAliasName_of_aliasLines {ls : List Text} (h : Insert.aliasLines as = .ok ls) :
    ∀ a ∈ as, Shell.isAliasName a.name = true := by
  induction as generalizing ls with
  | nil => simp
  | cons a as ih =>
    rw [Insert.aliasLines] at h
    cases ha : Shell.isAliasName a.name with
    | false =>
      rw [Insert.linesOf, Shell.aliasLine?, ha] at h
      cases h
    | true =>
      rw [linesOf_eq ha] at h
      cases hrest : Insert.aliasLines as with
      | error e =>
        rw [hrest] at h
        cases h
      | ok rest =>
        intro b hb
        rcases List.mem_cons.1 hb with rfl | hb
        · exact ha
        · exact ih hrest b hb

/-- A line that is written is the line of an alias or the comment above it. -/
theorem mem_written {l : Text} :
    l ∈ a.written ↔ (∃ d, Insert.present a.description = some d ∧ l = '#' :: ' ' :: d) ∨
      l = a.line := by
  unfold written comment?
  cases Insert.present a.description <;> simp

theorem mem_of_present {t : Option Text} {d : Text} (h : Insert.present t = some d) :
    t = some d := by
  match t, h with
  | some (_ :: _), rfl => rfl

theorem not_mem_line (hname : '\n' ∉ a.name) (hcommand : '\n' ∉ a.command) : '\n' ∉ a.line := by
  have hquote : '\n' ∉ Shell.quoteSingle a.command := by
    intro hmem
    obtain ⟨c, hc, hmem⟩ := List.mem_flatMap.1 hmem
    split at hmem
    · exact absurd hmem (by decide)
    · exact hcommand (List.mem_singleton.1 hmem ▸ hc)
  have hsingle : '\n' ≠ Shell.singleQuote := by decide
  rw [line_eq]
  simp [Shell.quote, hname, hquote, hsingle]

theorem IsUnbroken.not_mem_written (ha : a.IsUnbroken) {l : Text} (hl : l ∈ a.written) :
    '\n' ∉ l := by
  rcases mem_written.1 hl with ⟨d, hd, rfl⟩ | rfl
  · simpa using ha.description d (mem_of_present hd)
  · exact not_mem_line ha.name ha.command

theorem not_mem_written (ha : a.IsPlain) {l : Text} (hl : l ∈ a.written) : '\n' ∉ l :=
  ha.isUnbroken.not_mem_written hl

end AliasDefinition
end ShellConfig
