import ShellConfig.Proofs.Section.AddedLines

/-!
# One block is put in

Inserting aliases puts one block into a text and leaves every other character where it is. Main
statements: `isSpliced_intoSection`, that the block of a section stands at the end of its last line;
`isPaired_of_addsLines`, that a text whose lines end with both characters keeps them so; and
`insert_putsBlock`, both for every way to insert.
-/

namespace ShellConfig

namespace Text

variable {c : Char} {l t : Text} {ls : List Text}

/-! ### Line feeds behind carriage returns -/

/-- Each line feed of a text stands right behind a carriage return. -/
def IsPaired (t : Text) : Prop := ∀ a b, t = a ++ '\n' :: b → a.getLast? = some '\r'

theorem isPaired_of_not_mem (h : '\n' ∉ t) : IsPaired t := by
  rintro a b rfl
  simp at h

theorem IsPaired.of_cons (h : IsPaired (c :: t)) (hfirst : c = '\r' → t.head? ≠ some '\n') :
    c ≠ '\n' ∧ IsPaired t := by
  refine ⟨?_, fun a b ht => ?_⟩
  · rintro rfl
    exact absurd (h [] t rfl) (by simp)
  · have hlast := h (c :: a) b (by rw [ht, List.cons_append])
    cases a with
    | nil =>
      obtain rfl := Option.some.inj hlast
      exact absurd (by rw [ht]; rfl) (hfirst rfl)
    | cons d a => rwa [List.getLast?_cons_of_ne_nil (List.cons_ne_nil d a)] at hlast

theorem IsPaired.of_pair (h : IsPaired ('\r' :: '\n' :: t)) : IsPaired t := by
  intro a b ht
  have hlast := h ('\r' :: '\n' :: a) b (by rw [ht]; rfl)
  cases a with
  | nil => exact absurd hlast (by decide)
  | cons d a => simpa using hlast

theorem IsPaired.crlfCount_eq (h : IsPaired t) : crlfCount t = t.count '\n' := by
  fun_induction crlfCount t with
  | case1 => rfl
  | case2 t ih => simpa using ih h.of_pair
  | case3 c t hpair ih =>
    have hfirst : c = '\r' → t.head? ≠ some '\n' := by
      rintro rfl hhead
      obtain ⟨t', rfl⟩ := List.head?_eq_some_iff.1 hhead
      exact hpair t' rfl rfl
    obtain ⟨hc, ht⟩ := h.of_cons hfirst
    rw [ih ht, List.count_cons_of_ne hc]

theorem IsPaired.pair_append (hl : '\n' ∉ l) (ht : IsPaired t) :
    IsPaired (l ++ '\r' :: '\n' :: t) := by
  intro a b h
  induction l generalizing a with
  | nil =>
    match a with
    | [] => exact absurd (List.cons.inj h).1 (by decide)
    | [c] =>
      obtain rfl := (List.cons.inj h).1
      rfl
    | c :: d :: a =>
      have hlast := ht a b (List.cons.inj (List.cons.inj h).2).2
      rw [List.getLast?_cons, List.getLast?_cons, hlast]
      rfl
  | cons c l ih =>
    rw [List.mem_cons, not_or] at hl
    cases a with
    | nil => exact absurd (List.cons.inj h).1.symm hl.1
    | cons d a =>
      rw [List.getLast?_cons, ih hl.2 a (List.cons.inj h).2]
      rfl

theorem isPaired_join (h : ∀ l ∈ ls, '\n' ∉ l) : IsPaired (join ['\r', '\n'] ls) := by
  induction ls with
  | nil => exact isPaired_of_not_mem List.not_mem_nil
  | cons l ls ih =>
    have hl := h l List.mem_cons_self
    by_cases hls : ls = []
    · subst hls
      exact isPaired_of_not_mem hl
    · rw [join_cons _ l hls]
      exact .pair_append hl (ih fun l' hl' => h l' (List.mem_cons_of_mem l hl'))

end Text

namespace LineEnding

open Text

variable {t : Text} {ls : List Text}

/-- Where a text has a line feed and all of them stand behind carriage returns, its lines end with
both characters. -/
theorem of_eq_crlf (hmem : '\n' ∈ t) (h : IsPaired t) : of t = crlf := by
  have hcount := List.count_pos_iff.2 hmem
  rw [of, if_pos ⟨h.crlfCount_eq ▸ hcount, h.crlfCount_eq⟩]

theorem count_text (e : LineEnding) : e.text.count '\n' = 1 := by
  cases e <;> rfl

theorem count_join (e : LineEnding) (hne : ls ≠ []) (h : ∀ l ∈ ls, '\n' ∉ l) :
    (join e.text ls).count '\n' + 1 = ls.length := by
  induction ls with
  | nil => exact absurd rfl hne
  | cons l ls ih =>
    have hl := List.count_eq_zero.2 (h l List.mem_cons_self)
    by_cases hls : ls = []
    · subst hls
      simpa [join] using hl
    · have hrest := ih hls fun l' hl' => h l' (List.mem_cons_of_mem l hl')
      rw [join_cons _ l hls, List.count_append, List.count_append, hl, count_text,
        List.length_cons]
      omega

end LineEnding

namespace Insert

open Text

variable {a : AliasDefinition} {as : List AliasDefinition} {name t u : Text}
  {attribution : Option Text} {format : Option HeadingFormat} {m : SectionMatch}
  {new : List Text} {P : Text → Prop} {r : InsertResult}

/-! ### One block -/

/-- Two parts of a text meet at the end of its line with a number: behind it comes what ends the
line, or nothing. -/
def MeetAtEnd (t : Text) (n : Nat) (pre post : Text) : Prop :=
  pre.count '\n' + 1 = n ∧ (post = [] ∨ (LineEnding.of t).text <+: post)

/-- A text that comes of another by putting one block into it: at the end of the line with a number,
or behind all of the text. -/
def IsSpliced (t : Text) (line? : Option Nat) (u : Text) : Prop :=
  ∃ pre block post, t = pre ++ post ∧ u = pre ++ (block ++ post) ∧
    match line? with
    | some n => MeetAtEnd t n pre post
    | none => post = []

theorem isSpliced_append (t block : Text) : IsSpliced t none (t ++ block) :=
  ⟨t, block, [], (List.append_nil t).symm, by rw [List.append_nil], rfl⟩

/-- Pieces that are joined fall in two behind any of them, and more pieces fit between. -/
theorem isSpliced_join {before after : List Text}
    (ht : (LineEnding.of t).split t = before ++ after) (hbefore : before ≠ []) (hnew : new ≠ []) :
    IsSpliced t (some before.length) (join (LineEnding.of t).text (before ++ (new ++ after))) := by
  have hjoin := LineEnding.join_split (LineEnding.of t) t
  rw [ht] at hjoin
  generalize he : LineEnding.of t = e at hjoin ⊢
  have hcount := e.count_join hbefore fun l hl =>
    LineEnding.not_mem_of_mem_split (t := t) (ht ▸ List.mem_append_left after hl)
  by_cases hafter : after = []
  · subst hafter
    rw [List.append_nil] at hjoin ⊢
    rw [join_append _ hbefore hnew]
    exact ⟨join e.text before, e.text ++ join e.text new, [], by simp [hjoin], by simp, hcount,
      .inl rfl⟩
  · rw [join_append _ hbefore hafter] at hjoin
    rw [join_append _ hbefore (by simp [hnew]), join_append _ hnew hafter]
    exact ⟨join e.text before, e.text ++ join e.text new, e.text ++ join e.text after, hjoin.symm,
      by simp, hcount, .inr (he ▸ List.prefix_append ..)⟩

theorem isSpliced_intoSection (hfind : SectionMatch.find? t name = some m) (hnew : new ≠ []) :
    IsSpliced t (some m.endLine) (intoSection t m new) := by
  obtain ⟨hpos, hend, -⟩ := SectionMatch.labelAfter_of_find? hfind
  rw [← SectionMatch.length_split t] at hend
  have hsplit := List.take_append_drop m.endLine ((LineEnding.of t).split t)
  have hlength := List.length_take_of_le hend
  have hne : ((LineEnding.of t).split t).take m.endLine ≠ [] := List.ne_nil_of_length_pos (by omega)
  unfold intoSection
  dsimp only
  rw [List.append_assoc]
  split
  · have h := isSpliced_join hsplit.symm hne (List.cons_ne_nil [] new)
    rwa [hlength] at h
  · have h := isSpliced_join hsplit.symm hne hnew
    rwa [hlength] at h

/-- Where lines are added to a text whose lines end with both characters, all lines do. -/
theorem isPaired_of_addsLines (hmem : '\n' ∈ t) (ht : IsPaired t) (h : AddsLines P t u) :
    IsPaired u := by
  obtain ⟨before, added, after, hold, hnew, hadded⟩ := h
  have hpieces : ∀ l ∈ before ++ (added ++ after), '\n' ∉ l := by
    intro l hl
    have hof : ∀ l ∈ before ++ after, '\n' ∉ l := fun l hl =>
      LineEnding.not_mem_of_mem_split (t := t) (hold ▸ hl)
    simp only [List.mem_append] at hl hof
    rcases hl with hl | hl | hl
    · exact hof l (.inl hl)
    · exact (hadded l hl).1
    · exact hof l (.inr hl)
  rw [LineEnding.of_eq_crlf hmem ht] at hnew
  rw [← LineEnding.join_split .crlf u, hnew]
  exact isPaired_join hpieces

/-! ### Every way to insert -/

/-- The end of the section that fits a name, where a name is given and a section fits it. -/
def sectionEnd? (t : Text) (name : Option Text) : Option Nat :=
  (name.bind (SectionMatch.find? t)).map SectionMatch.endLine

/-- One block was put into a text: behind the section that fits a name if there is one, as the
result says, and else behind the text. -/
def PutsBlock (t : Text) (name : Option Text) (r : InsertResult) : Prop :=
  IsSpliced t (sectionEnd? t name) r.content ∧
    (r.addedTo = .existing ↔ (sectionEnd? t name).isSome = true)

theorem putsBlock_many (h : many t name as attribution format = .ok r) :
    PutsBlock t (some name) r := by
  obtain ⟨new, -, ⟨m, hfind, hadded, hr⟩ | ⟨hfind, hadded, hr⟩⟩ := many_eq_ok h
  · have hend : sectionEnd? t (some name) = some m.endLine := by simp [sectionEnd?, hfind]
    rw [PutsBlock, hend, hr, hadded]
    exact ⟨isSpliced_intoSection hfind (List.cons_ne_nil _ new), by simp⟩
  · have hend : sectionEnd? t (some name) = none := by simp [sectionEnd?, hfind]
    rw [PutsBlock, hend, hr, hadded]
    exact ⟨isSpliced_append t _, by simp⟩

theorem putsBlock_one {name : Option Text} (h : one t a name format = .ok r) :
    PutsBlock t name r := by
  obtain ⟨new, -, hne, ⟨x, m, rfl, hfind, hadded, hr⟩ | ⟨x, rfl, hfind, hadded, f, hr⟩ |
    ⟨rfl, hadded, hr⟩⟩ := one_eq_ok h
  · have hend : sectionEnd? t (some x) = some m.endLine := by simp [sectionEnd?, hfind]
    rw [PutsBlock, hend, hr, hadded]
    exact ⟨isSpliced_intoSection hfind hne, by simp⟩
  · have hend : sectionEnd? t (some x) = none := by simp [sectionEnd?, hfind]
    rw [PutsBlock, hend, hr, hadded]
    exact ⟨isSpliced_append t _, by simp⟩
  · have hend : sectionEnd? t none = none := rfl
    rw [PutsBlock, hend, hr, hadded]
    simp only [List.append_assoc]
    exact ⟨isSpliced_append t _, by simp⟩

/-- **One block is put in.** However aliases are inserted, the new text is the old one with one
block put into it: at the end of the last line of the section that fits the name, or else behind all
of the text. If the text has a line feed, each stands behind a carriage return and none stands in
what is given, then each one of the new text stands behind a carriage return. -/
theorem insert_putsBlock (t : Text) (format : Option HeadingFormat) :
    (∀ name as attribution r, many t name as attribution format = .ok r →
      PutsBlock t (some name) r ∧
        ('\n' ∈ t → IsPaired t → '\n' ∉ name → (∀ x ∈ attribution, '\n' ∉ x) →
          (∀ a ∈ as, a.IsUnbroken) → IsPaired r.content)) ∧
    ∀ a name r, one t a name format = .ok r →
      PutsBlock t name r ∧
        ('\n' ∈ t → IsPaired t → (∀ x ∈ name, '\n' ∉ x) → a.IsUnbroken → IsPaired r.content) :=
  ⟨fun _ _ _ _ h => ⟨putsBlock_many h, fun hmem ht hname hattribution has =>
      isPaired_of_addsLines hmem ht (addsLines_many hname hattribution has h)⟩,
    fun _ _ _ h => ⟨putsBlock_one h, fun hmem ht hname ha =>
      isPaired_of_addsLines hmem ht (addsLines_one hname ha h)⟩⟩

def samplePairs : Text := "## Git\r\nexport PAGER=less\r\n## Tools\r\n".toList

theorem isPaired_samplePairs : IsPaired samplePairs := by
  have hjoin : samplePairs = join ['\r', '\n']
      ["## Git".toList, "export PAGER=less".toList, "## Tools".toList, []] := by decide
  rw [hjoin]
  exact isPaired_join (by decide)

theorem insert_putsBlock_git :
    (∃ r, many samplePairs "git".toList [sampleAlias] (some "plugin".toList) = .ok r ∧
      PutsBlock samplePairs (some "git".toList) r ∧ IsPaired r.content) ∧
    ∃ r, one samplePairs sampleAlias none = .ok r ∧ PutsBlock samplePairs none r ∧
      IsPaired r.content := by
  have hplain : ∀ a ∈ [sampleAlias], a.IsUnbroken := by
    intro a ha
    obtain rfl := List.mem_singleton.1 ha
    exact sampleAlias_isPlain.isUnbroken
  refine ⟨⟨_, rfl, ?_⟩, ⟨_, rfl, ?_⟩⟩
  · have h := (insert_putsBlock samplePairs none).1 "git".toList [sampleAlias]
      (some "plugin".toList) _ rfl
    exact ⟨h.1, h.2 (by decide) isPaired_samplePairs (by decide) (by decide) hplain⟩
  · have h := (insert_putsBlock samplePairs none).2 sampleAlias none _ rfl
    exact ⟨h.1, h.2 (by decide) isPaired_samplePairs (by decide) (hplain _ List.mem_cons_self)⟩

end Insert
end ShellConfig
