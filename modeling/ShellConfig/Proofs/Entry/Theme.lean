import ShellConfig.Proofs.Entry.Grammar

/-!
# Themes

The name of a theme may stand between quotes. A pattern that tries one reading of the value after
the other decides whether these belong to it, where the command of an alias is stripped of its
quotes. Main statements: `themeName_eq`, that a theme is stripped of the same quotes;
`isFirstReading_iff`, that the name left over is the one that the pattern finds first; and
`ofKind_theme`, the theme that a line sets.
-/

namespace ShellConfig

open Text

variable {b n q t v : Text} {c : Char}

namespace Text

/-! ### Readings of a value -/

theorem isBlank_of_isQuote (h : isQuote c = true) : isBlank c = false := by
  simp only [isQuote, Bool.or_eq_true, beq_iff_eq] at h
  rcases h with rfl | rfl <;> decide

/-- A way to read a value: blanks, a quote or nothing, a name, the same quote or nothing, and
blanks. -/
structure IsReading (v b q n : Text) : Prop where
  blank : allBlank b = true
  quote : q = [] ∨ ∃ c, isQuote c = true ∧ q = [c]
  value : ∃ b', allBlank b' = true ∧ v = b ++ (q ++ (n ++ (q ++ b')))

/-- The name that is read of a value first: behind as many blanks as there can be, behind a quote
rather than behind none, and then as short as it can be. -/
def IsFirstReading (v n : Text) : Prop :=
  ∃ b q, IsReading v b q n ∧ ∀ b' q' n', IsReading v b' q' n' →
    b'.length ≤ b.length ∧ (b' = b → q'.length ≤ q.length ∧ (q' = q → n.length ≤ n'.length))

theorem IsFirstReading.unique {n' : Text} (h : IsFirstReading v n) (h' : IsFirstReading v n') :
    n = n' := by
  obtain ⟨b, q, hread, hfirst⟩ := h
  obtain ⟨b', q', hread', hfirst'⟩ := h'
  obtain ⟨s, -, hv⟩ := hread.value
  obtain ⟨s', -, hv'⟩ := hread'.value
  obtain ⟨hb, hq⟩ := hfirst b' q' n' hread'
  obtain ⟨hb', hq'⟩ := hfirst' b q n hread
  obtain ⟨rfl, hrest⟩ := List.append_inj (hv.symm.trans hv') (Nat.le_antisymm hb' hb)
  obtain ⟨hq, hn⟩ := hq rfl
  obtain ⟨hq', hn'⟩ := hq' rfl
  obtain ⟨rfl, hrest⟩ := List.append_inj hrest (Nat.le_antisymm hq' hq)
  exact (List.append_inj hrest (Nat.le_antisymm (hn rfl) (hn' rfl))).1

theorem IsReading.length_le (h : IsReading v b q n) : b.length ≤ (leadingBlanks v).length := by
  obtain ⟨s, -, rfl⟩ := h.value
  have htake : leadingBlanks (b ++ (q ++ (n ++ (q ++ s)))) =
      b ++ leadingBlanks (q ++ (n ++ (q ++ s))) :=
    List.takeWhile_append_of_pos fun c hc => isBlank_of_mem h.blank hc
  rw [htake, List.length_append]
  exact Nat.le_add_right _ _

/-- A reading behind all blanks in front, as a form of the value without the blanks around it. -/
theorem IsReading.trim_eq (h : IsReading v (leadingBlanks v) q n) :
    (q = [] ∧ trim v = trimRight n) ∨
      ∃ c, isQuote c = true ∧ q = [c] ∧ trim v = c :: (n ++ [c]) := by
  obtain ⟨s, hs, hv⟩ := h.value
  have hrest : trimLeft v = q ++ (n ++ (q ++ s)) :=
    List.append_cancel_left ((leadingBlanks_append_trimLeft v).trans hv)
  rw [trim, hrest]
  rcases h.quote with rfl | ⟨c, hc, rfl⟩
  · exact .inl ⟨rfl, trimRight_append hs n⟩
  · refine .inr ⟨c, hc, rfl, ?_⟩
    have hparts : [c] ++ (n ++ ([c] ++ s)) = (c :: n) ++ [c] ++ s := by simp
    rw [hparts, trimRight_append hs, trimRight_append_of_not_blank (isBlank_of_isQuote hc)]
    rfl

theorem length_trimRight_le (t : Text) : (trimRight t).length ≤ t.length := by
  obtain ⟨b, -, h⟩ := exists_trimRight_append t
  have := congrArg List.length h
  rw [List.length_append] at this
  omega

theorem isFirstReading_of_unquotes (h : Unquotes (trim v) n) : IsFirstReading v n := by
  obtain ⟨s, hs, htrim⟩ := exists_trimRight_append (trimLeft v)
  rw [← trim] at htrim
  have hv : v = leadingBlanks v ++ (trim v ++ s) := eq_leadingBlanks_append htrim
  have hblank := allBlank_leadingBlanks v
  generalize htext : trim v = u at h
  cases h with
  | @quoted c w hc =>
    refine ⟨leadingBlanks v, [c], ⟨hblank, .inr ⟨c, hc, rfl⟩, s, hs, ?_⟩, fun b q n h => ?_⟩
    · rw [htext] at hv
      simpa using hv
    · refine ⟨h.length_le, ?_⟩
      rintro rfl
      rcases h.trim_eq with ⟨rfl, -⟩ | ⟨d, -, rfl, hd⟩
      · exact ⟨Nat.zero_le 1, fun hnil => absurd hnil.symm (List.cons_ne_nil c [])⟩
      · rw [htext, List.cons.injEq] at hd
        obtain ⟨rfl, hw⟩ := hd
        exact ⟨Nat.le_refl 1, fun _ => Nat.le_of_eq (congrArg _ (List.append_cancel_right hw))⟩
  | plain hplain =>
    refine ⟨leadingBlanks v, [], ⟨hblank, .inl rfl, s, hs, ?_⟩, fun b q n h => ?_⟩
    · rw [htext] at hv
      simpa using hv
    · refine ⟨h.length_le, ?_⟩
      rintro rfl
      rcases h.trim_eq with ⟨rfl, hn⟩ | ⟨d, hd, rfl, hquoted⟩
      · rw [htext] at hn
        exact ⟨Nat.le_refl 0, fun _ => hn ▸ length_trimRight_le n⟩
      · exact absurd (htext.symm.trans hquoted) (hplain d n hd)

/-- Taking quotes off finds the name that is read first. -/
theorem isFirstReading_iff : IsFirstReading v n ↔ n = stripQuotes (trim v) := by
  have hfirst := isFirstReading_of_unquotes (unquotes_stripQuotes (trim v))
  constructor
  · exact fun h => h.unique hfirst
  · rintro rfl
    exact hfirst

-- a quote that stands alone is the name
example : IsFirstReading " \" ".toList ['"'] := isFirstReading_iff.2 rfl

end Text

namespace Recognize

/-! ### The theme of a line -/

/-- The name of a theme is its value without blanks around it and without quotes around these. -/
theorem themeName_eq (v : Text) : themeName v = stripQuotes (trim v) := by
  apply Eq.symm
  apply stripQuotes_eq_iff.2
  unfold themeName trim
  cases hv : trimLeft v with
  | nil => exact .plain nofun
  | cons q r =>
    have hq : isBlank q = false := isBlank_of_head?_trimLeft (by rw [hv]; rfl)
    have htrim : trimRight (q :: r) = q :: trimRight r := by
      rw [trimRight_cons, hq, Bool.and_false]
      rfl
    dsimp only
    rw [htrim]
    split
    · next h =>
      obtain ⟨w, hw⟩ := List.getLast?_eq_some_iff.1 h.2
      rw [hw, List.dropLast_concat]
      exact .quoted w h.1
    · next h =>
      refine .plain fun c u hc heq => h ?_
      obtain ⟨rfl, hrest⟩ := List.cons.inj heq
      exact ⟨hc, by rw [hrest, List.getLast?_concat]⟩

/-- The lines that give the theme a value. -/
def SetsTheme (t v : Text) : Prop :=
  ∃ b b', allBlank b = true ∧ allBlank b' = true ∧
    t = b ++ ("ZSH_THEME".toList ++ (b' ++ '=' :: v))

theorem themeValue_eq_some_iff :
    (after? "ZSH_THEME".toList (trimLeft t)).bind afterEquals? = some v ↔ SetsTheme t v := by
  rw [Option.bind_eq_some_iff]
  constructor
  · rintro ⟨r, hr, hv⟩
    obtain ⟨b, hb, rfl⟩ := (after?_trimLeft_eq_some_iff rfl).1 hr
    obtain ⟨b', hb', rfl⟩ := Edit.afterEquals?_eq_some_iff.1 hv
    exact ⟨b, b', hb, hb', rfl⟩
  · rintro ⟨b, b', hb, hb', rfl⟩
    exact ⟨_, (after?_trimLeft_eq_some_iff rfl).2 ⟨b, hb, rfl⟩,
      Edit.afterEquals?_eq_some_iff.2 ⟨b', hb', rfl⟩⟩

theorem theme?_of_setsTheme (h : SetsTheme t v) :
    theme? t = if stripQuotes (trim v) = [] then none else some (stripQuotes (trim v)) := by
  unfold theme?
  rw [themeValue_eq_some_iff.2 h]
  simp only [Option.bind_eq_bind, Option.bind_some, themeName_eq, List.isEmpty_iff]
  rfl

theorem theme?_of_not_setsTheme (h : ∀ v, ¬ SetsTheme t v) : theme? t = none := by
  have hvalue : (after? "ZSH_THEME".toList (trimLeft t)).bind afterEquals? = none :=
    Option.eq_none_iff_forall_ne_some.2 fun v hv => h v (themeValue_eq_some_iff.1 hv)
  unfold theme?
  rw [hvalue]
  rfl

end Recognize

/-- **Themes.** A short line that gives the theme a value is one entry, under the value without
blanks around it and without quotes around these, which is the name that is read of the value first.
It is none if the name is empty, and neither is any other line. -/
theorem Entry.ofKind_theme {limit : Int} (hfeed : '\n' ∉ t) (hlength : (t.length : Int) ≤ limit) :
    (∀ v, Recognize.SetsTheme t v → (∀ n, IsFirstReading v n ↔ n = stripQuotes (trim v)) ∧
      ofKind .theme t limit =
        if stripQuotes (trim v) = [] then []
        else [{ kind := .theme, lineNumber := 1, lineText := t,
                payload := { name := some (stripQuotes (trim v)) } }]) ∧
    ((∀ v, ¬ Recognize.SetsTheme t v) → ofKind .theme t limit = []) := by
  rw [ofKind_of_not_mem hfeed hlength, onLine, payloadsOn_of_ne (by decide), Recognize.payloads]
  constructor
  · intro v hv
    refine ⟨fun n => isFirstReading_iff, ?_⟩
    rw [Recognize.theme?_of_setsTheme hv]
    split
    · rfl
    · rfl
  · intro h
    rw [Recognize.theme?_of_not_setsTheme h]
    rfl

theorem Entry.ofKind_theme_quotes :
    let t := "ZSH_THEME = \"a\" \" ".toList
    ('\n' ∉ t ∧ (t.length : Int) ≤ 30 ∧ Recognize.SetsTheme t " \"a\" \" ".toList) ∧
      ofKind .theme t 30 =
        [{ kind := .theme, lineNumber := 1, lineText := t,
           payload := { name := some "a\" ".toList } }] := by
  intro t
  have hfeed : '\n' ∉ t := by decide
  have hlength : (t.length : Int) ≤ 30 := by decide
  have hsets : Recognize.SetsTheme t " \"a\" \" ".toList := ⟨[], [' '], rfl, rfl, rfl⟩
  exact ⟨⟨hfeed, hlength, hsets⟩, ((ofKind_theme hfeed hlength).1 _ hsets).2⟩

end ShellConfig
