import ShellConfig.Proofs.Entry.Declaration
import ShellConfig.Proofs.Text.Lines
import ShellConfig.Section.Insert
import Mathlib.Tactic.SplitIfs

/-!
# How names of sections match

What is left of a name once it is reduced, and when two names match. Main statements:
`normalize_trim`, that blanks do not count; `core_isPrefix`, that the core of a name begins it;
`score_attributed_pos`, when the name of a section matches itself with an attribution; and
`score_pos_iff_of_named`, when names match of which one is not reduced to nothing.
-/

namespace ShellConfig

open Text

namespace SectionName

variable {c : Char} {name label t : Text}

/-! ### Reduced names -/

theorem fold_of_isBlank (h : isBlank c = true) : fold c = [] := by
  have hplain : ¬(isLetter c = true ∨ isDigit c = true) := by
    intro hc
    have hchar : Recognize.isAliasChar c = true := by
      rcases hc with hc | hc <;> simp [Recognize.isAliasChar, isNameChar, hc]
    rw [Recognize.isBlank_of_isAliasChar hchar] at h
    cases h
  unfold fold
  rw [if_neg hplain, if_neg, if_neg]
  · rintro rfl
    cases h
  · rintro rfl
    cases h

theorem normalize_append (s t : Text) : normalize (s ++ t) = normalize s ++ normalize t :=
  List.flatMap_append

theorem normalize_of_allBlank (h : allBlank t = true) : normalize t = [] :=
  List.flatMap_eq_nil_iff.2 fun _ hc => fold_of_isBlank (isBlank_of_mem h hc)

theorem allBlank_of_normalize (h : normalize t ≠ []) : allBlank t = false := by
  cases hb : allBlank t with
  | false => rfl
  | true => exact absurd (normalize_of_allBlank hb) h

@[simp] theorem normalize_trimLeft (t : Text) : normalize (trimLeft t) = normalize t := by
  conv_rhs => rw [← leadingBlanks_append_trimLeft t, normalize_append,
    normalize_of_allBlank (allBlank_leadingBlanks t), List.nil_append]

@[simp] theorem normalize_trimRight (t : Text) : normalize (trimRight t) = normalize t := by
  obtain ⟨b, hb, ht⟩ := exists_trimRight_append t
  conv_rhs => rw [ht, normalize_append, normalize_of_allBlank hb, List.append_nil]

/-- Blanks around a name do not count. -/
@[simp] theorem normalize_trim (t : Text) : normalize (trim t) = normalize t := by
  rw [trim, normalize_trimRight, normalize_trimLeft]

@[simp] theorem normalize_dropReturn (t : Text) : normalize (dropReturn t) = normalize t := by
  obtain h | h := eq_dropReturn_append t
  · rw [← h]
  · have hreturn : normalize ['\r'] = [] := normalize_of_allBlank rfl
    conv_rhs => rw [h, normalize_append, hreturn, List.append_nil]

/-! ### Cores -/

theorem core_eq (t : Text) : core t = t ∨ core t ≠ [] ∧ ∃ s ∈ suffixes, t = core t ++ s := by
  unfold core
  cases hcut : suffixes.findSome? fun s => (before? s t).filter (!·.isEmpty) with
  | none => exact .inl rfl
  | some x =>
    obtain ⟨s, hs, hx⟩ := List.exists_of_findSome?_eq_some hcut
    obtain ⟨hbefore, hne⟩ := Option.filter_eq_some_iff.1 hx
    exact .inr ⟨by simpa using hne, s, hs, before?_eq_some_iff.1 hbefore⟩

/-- The core of a name begins it. -/
theorem core_isPrefix (t : Text) : core t <+: t := by
  obtain h | ⟨-, s, -, h⟩ := core_eq t
  · exact ⟨[], by rw [List.append_nil, h]⟩
  · exact ⟨s, h.symm⟩

theorem core_ne_nil (h : t ≠ []) : core t ≠ [] := by
  obtain hcore | ⟨hne, -⟩ := core_eq t
  · rwa [hcore]
  · exact hne

/-! ### Matching -/

/-- Two names are similar enough for one to begin with the other: their cores are the same, or none
of them is short. -/
def AreAkin (s t : Text) : Prop :=
  core (normalize s) = core (normalize t) ∨
    3 ≤ (core (normalize s)).length ∧ 3 ≤ (core (normalize t)).length

instance (s t : Text) : Decidable (AreAkin s t) := inferInstanceAs (Decidable (_ ∨ _ ∧ _))

/-- What it means that a heading matches a name. -/
theorem score_pos_iff : 0 < score name label ↔
    normalize name = normalize label ∨
      core (normalize name) ≠ [] ∧ core (normalize label) ≠ [] ∧ AreAkin name label ∧
        (core (normalize name) <+: core (normalize label) ∨
          core (normalize label) <+: core (normalize name)) := by
  unfold score AreAkin
  dsimp only
  simp only [List.isEmpty_iff, List.isPrefixOf_iff_prefix, Nat.le_min]
  split_ifs with hname hnil hcores hpref
  · simp [hname]
  · simp only [hname, false_or, Nat.lt_irrefl, false_iff]
    tauto
  · simp only [not_or] at hnil
    simp [hnil, hcores]
  · simp only [not_or] at hnil
    simp [hnil, hpref]
  · simp only [hname, hcores, false_or, Nat.lt_irrefl, false_iff]
    tauto

/-- An attribution stands behind the name. -/
theorem exists_attributed_eq (name : Text) (attribution : Option Text) :
    ∃ s, normalize (Insert.attributed name attribution) = normalize name ++ s := by
  unfold Insert.attributed
  split
  · exact ⟨_, by rw [List.append_assoc, List.append_assoc, normalize_append]⟩
  · exact ⟨[], (List.append_nil _).symm⟩

theorem normalize_attributed_ne_nil (h : normalize name ≠ []) (attribution : Option Text) :
    normalize (Insert.attributed name attribution) ≠ [] := by
  obtain ⟨s, hs⟩ := exists_attributed_eq name attribution
  simp [hs, h]

/-- A name matches itself with an attribution, if both are akin. -/
theorem score_attributed_pos {attribution : Option Text} (hname : normalize name ≠ [])
    (hlabel : normalize label = normalize (Insert.attributed name attribution))
    (hakin : AreAkin name (Insert.attributed name attribution)) : 0 < score name label := by
  obtain ⟨s, hs⟩ := exists_attributed_eq name attribution
  have hlonger : normalize label = normalize name ++ s := hlabel.trans hs
  have hlabel' : normalize label ≠ [] := hlabel ▸ normalize_attributed_ne_nil hname attribution
  rw [AreAkin, ← hlabel] at hakin
  refine score_pos_iff.2 (.inr ⟨core_ne_nil hname, core_ne_nil hlabel', hakin, ?_⟩)
  -- both cores begin the longer name, so one of them begins the other
  refine List.prefix_or_prefix_of_prefix ?_ (core_isPrefix (normalize label))
  exact (core_isPrefix (normalize name)).trans (hlonger ▸ List.prefix_append _ _)

/-! ### Letters in common -/

theorem fold_eq_of_mem {d : Char} (h : c ∈ fold d) : fold d = [c] := by
  unfold fold at h ⊢
  split_ifs at h ⊢ <;> simp_all

/-- Two names share a letter or digit, in either case. -/
def ShareLetter (s t : Text) : Prop := ∃ c ∈ s, ∃ d ∈ t, fold c = fold d ∧ fold c ≠ []

theorem shareLetter_of_mem (hs : c ∈ normalize name) (ht : c ∈ normalize label) :
    ShareLetter name label := by
  obtain ⟨a, ha, hca⟩ := List.mem_flatMap.1 hs
  obtain ⟨b, hb, hcb⟩ := List.mem_flatMap.1 ht
  refine ⟨a, ha, b, hb, ?_, List.ne_nil_of_mem hca⟩
  rw [fold_eq_of_mem hca, fold_eq_of_mem hcb]

/-- Names of which one core begins the other share the first letter of both. -/
theorem shareLetter_of_isPrefix (hne : core (normalize name) ≠ [])
    (h : core (normalize name) <+: core (normalize label)) : ShareLetter name label := by
  obtain ⟨c, hc⟩ := List.exists_mem_of_ne_nil _ hne
  exact shareLetter_of_mem ((core_isPrefix _).subset hc) ((core_isPrefix _).subset (h.subset hc))

theorem ShareLetter.symm (h : ShareLetter name label) : ShareLetter label name := by
  obtain ⟨c, hc, d, hd, heq, hne⟩ := h
  exact ⟨d, hd, c, hc, heq.symm, heq ▸ hne⟩

/-- **When names match.** If not both of two names are reduced to nothing, they match exactly if
both have cores, which are the same or none of them short, and one core begins the other. So names
that share no letter or digit do not match. -/
theorem score_pos_iff_of_named (hnamed : normalize name ≠ [] ∨ normalize label ≠ []) :
    (0 < score name label ↔
      core (normalize name) ≠ [] ∧ core (normalize label) ≠ [] ∧ AreAkin name label ∧
        (core (normalize name) <+: core (normalize label) ∨
          core (normalize label) <+: core (normalize name))) ∧
    (¬ShareLetter name label → score name label = 0) := by
  have hiff : 0 < score name label ↔
      core (normalize name) ≠ [] ∧ core (normalize label) ≠ [] ∧ AreAkin name label ∧
        (core (normalize name) <+: core (normalize label) ∨
          core (normalize label) <+: core (normalize name)) := by
    rw [score_pos_iff]
    refine ⟨fun h => ?_, .inr⟩
    rcases h with heq | h
    · rw [heq, or_self] at hnamed
      rw [AreAkin, heq]
      exact ⟨core_ne_nil hnamed, core_ne_nil hnamed, .inl rfl, .inl List.prefix_rfl⟩
    · exact h
  refine ⟨hiff, fun hshare => ?_⟩
  by_contra hscore
  obtain ⟨hname, hlabel, -, hprefix | hprefix⟩ := hiff.1 (Nat.pos_of_ne_zero hscore)
  · exact hshare (shareLetter_of_isPrefix hname hprefix)
  · exact hshare (shareLetter_of_isPrefix hlabel hprefix).symm

theorem score_pos_iff_of_named_docker :
    normalize "Docker".toList ≠ [] ∧ 0 < score "Docker".toList "docker Compose Aliases".toList ∧
      core (normalize "docker Compose Aliases".toList) = "dockercompose".toList ∧
      ¬ShareLetter "Docker".toList "网络".toList ∧ score "Docker".toList "网络".toList = 0 := by
  have hnamed : normalize "Docker".toList ≠ [] := by decide
  have hmatch : 0 < score "Docker".toList "docker Compose Aliases".toList :=
    (score_pos_iff_of_named (.inl hnamed)).1.2 (by decide)
  have hshare : ¬ShareLetter "Docker".toList "网络".toList := by
    -- nothing is left of the other name
    rintro ⟨c, -, d, hd, heq, hne⟩
    obtain rfl | rfl : d = '网' ∨ d = '络' := by simpa using hd
    · exact hne heq
    · exact hne heq
  exact ⟨hnamed, hmatch, by decide, hshare, (score_pos_iff_of_named (.inl hnamed)).2 hshare⟩

/-- Names of which nothing is left match each other, though they have no core and share no letter:
what is written for one section goes to the other. -/
theorem score_unnamed :
    score "数据库".toList "网络".toList = 100 ∧ core (normalize "数据库".toList) = [] ∧
      core (normalize "网络".toList) = [] ∧ (∀ c ∈ "数据库".toList, c ∉ "网络".toList) ∧
      SectionMatch.find? "# --- 网络 --- #\nalias p=ping\n".toList "数据库".toList =
        some ⟨"网络".toList, 1, 2, 100⟩ :=
  ⟨by decide, by decide, by decide, by simp, by decide⟩

end SectionName
end ShellConfig
