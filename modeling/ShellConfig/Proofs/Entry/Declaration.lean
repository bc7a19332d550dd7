import ShellConfig.Proofs.Entry.Written
import ShellConfig.Proofs.Text.Lines
import ShellConfig.Section.Marker

/-!
# Lines that can be switched

A line that declares an entry of an editable kind begins with one of a few words, perhaps behind a
comment sign. Main statements: `IsSwitchable.of_isDeclaration`, that the lines an edit finds are
such lines; `IsSwitchable.opening?_eq_none`, that these open no plugin list; and
`alias?_of_declares`, that the reader finds the alias that such a line declares.
-/

namespace ShellConfig

open Text

namespace Edit

variable {b key l t w : Text} {kind : Kind} {limit : Int}

/-! ### First words -/

/-- The words that declarations of editable kinds begin with. -/
def firstWords : List Text :=
  ["alias".toList, "export".toList, "typeset".toList, "setopt".toList, "source".toList, ['.'],
    "HIST".toList]

theorem firstWord_spec (hw : w ∈ firstWords) :
    (∃ c v, w = c :: v ∧ isBlank c = false ∧ c ≠ '#') ∧ w.getLast? ≠ some '\r' := by
  simp only [firstWords, List.mem_cons, List.not_mem_nil, or_false] at hw
  rcases hw with rfl | rfl | rfl | rfl | rfl | rfl | rfl <;>
    exact ⟨⟨_, _, rfl, by decide, by decide⟩, by decide⟩

theorem trimLeft_firstWord (hw : w ∈ firstWords) (hb : allBlank b = true) (r : Text) :
    trimLeft (b ++ (w ++ r)) = w ++ r := by
  obtain ⟨⟨c, v, rfl, hc, -⟩, -⟩ := firstWord_spec hw
  rw [trimLeft_append hb]
  exact trimLeft_cons_of_not_blank hc _

theorem dropReturn_firstWord (hw : w ∈ firstWords) (b r : Text) :
    dropReturn (b ++ (w ++ r)) = b ++ (w ++ dropReturn r) := by
  obtain ⟨⟨c, v, rfl, -, -⟩, hlast⟩ := firstWord_spec hw
  have hbw : (b ++ c :: v).getLast? ≠ some '\r' := by
    rwa [List.getLast?_append_of_ne_nil b (List.cons_ne_nil c v)]
  rw [← List.append_assoc, dropReturn_append hbw, List.append_assoc]

/-- The history variables that can be edited. -/
def IsHistoryKey (key : Text) : Prop :=
  ∃ v, key = "HIST".toList ++ v ∧ v.all Recognize.isHistoryChar = true

theorem exists_firstWord (hkey : kind = .history → IsHistoryKey key)
    (h : declares key t kind = true) :
    ∃ b w r, allBlank b = true ∧ w ∈ firstWords ∧ t = b ++ (w ++ r) := by
  cases declares_eq_true_iff.1 h with
  | aliased v hb => exact ⟨_, "alias".toList, _, hb, by decide, rfl⟩
  | exported v hb hw =>
    cases hw with
    | plain => exact ⟨_, "export".toList, _, hb, by decide, rfl⟩
    | typed hgap =>
      rw [List.append_assoc "typeset".toList]
      exact ⟨_, "typeset".toList, _, hb, by decide, rfl⟩
  | setopt hb => exact ⟨_, "setopt".toList, _, hb, by decide, rfl⟩
  | source hb hw =>
    rcases hw with rfl | rfl
    · exact ⟨_, "source".toList, _, hb, by decide, rfl⟩
    · exact ⟨_, ['.'], _, hb, by decide, rfl⟩
  | history v hb =>
    obtain ⟨n, rfl, -⟩ := hkey rfl
    rw [List.append_assoc "HIST".toList]
    exact ⟨_, "HIST".toList, _, hb, by decide, rfl⟩

/-! ### Switches -/

/-- A line that begins with one of the words, perhaps behind a comment sign. -/
inductive IsSwitchable : Text → Prop
  | active {b w : Text} (r : Text) (hb : allBlank b = true) (hw : w ∈ firstWords) :
      IsSwitchable (b ++ (w ++ r))
  | commented {b b' w : Text} (r : Text) (hb : allBlank b = true) (hb' : allBlank b' = true)
      (hw : w ∈ firstWords) : IsSwitchable (b ++ '#' :: (b' ++ (w ++ r)))

theorem isCommented_active (hw : w ∈ firstWords) (hb : allBlank b = true) (r : Text) :
    isCommented (b ++ (w ++ r)) = false := by
  unfold isCommented
  rw [trimLeft_firstWord hw hb]
  obtain ⟨⟨c, v, rfl, -, hc⟩, -⟩ := firstWord_spec hw
  simpa using hc

theorem comment_active (hw : w ∈ firstWords) (hb : allBlank b = true) (r : Text) :
    comment (b ++ (w ++ r)) = b ++ '#' :: ([' '] ++ (w ++ r)) := by
  obtain ⟨⟨c, v, rfl, hc, -⟩, -⟩ := firstWord_spec hw
  refine comment_append hb fun d hd => ?_
  obtain rfl := Option.some.inj hd
  exact hc

namespace IsSwitchable

/-- The lines that an edit finds can be switched. -/
theorem of_isDeclaration (hkey : kind = .history → IsHistoryKey key)
    (h : isDeclaration kind key limit l = true) : IsSwitchable l := by
  simp only [isDeclaration, Bool.and_eq_true, Bool.or_eq_true] at h
  rcases h.2 with hd | hd
  · obtain ⟨b, w, r, hb, hw, rfl⟩ := exists_firstWord hkey hd
    exact .active r hb hw
  · obtain ⟨b, w, r, hb, hw, hl⟩ := exists_firstWord hkey hd
    cases hc : isCommented l with
    | false =>
      rw [uncomment_of_not_commented hc] at hl
      rw [hl]
      exact .active r hb hw
    | true =>
      obtain ⟨b', s, hb', rfl⟩ := exists_of_isCommented hc
      rw [uncomment_commented hb'] at hl
      have hs : trimLeft s = w ++ r := by
        rw [← trimLeft_firstWord hw hb r, ← hl, trimLeft_append hb', trimLeft_trimLeft]
      rw [← leadingBlanks_append_trimLeft s, hs]
      exact .commented r hb' (allBlank_leadingBlanks s) hw

theorem dropReturn (h : IsSwitchable t) : IsSwitchable (dropReturn t) := by
  cases h with
  | active r hb hw =>
    rw [dropReturn_firstWord hw]
    exact .active _ hb hw
  | @commented b b' w r hb hb' hw =>
    have hr := dropReturn_firstWord hw (b ++ '#' :: b') r
    rw [List.append_assoc, List.append_assoc] at hr
    exact hr ▸ .commented _ hb hb' hw

theorem comment (h : IsSwitchable t) (hc : isCommented t = false) : IsSwitchable (comment t) := by
  cases h with
  | active r hb hw =>
    rw [comment_active hw hb]
    exact .commented r hb (by decide) hw
  | commented r hb =>
    rw [isCommented_commented hb] at hc
    cases hc

theorem uncomment (h : IsSwitchable t) : IsSwitchable (uncomment t) := by
  cases h with
  | active r hb hw =>
    rw [uncomment_of_not_commented (isCommented_active hw hb r)]
    exact .active r hb hw
  | commented r hb hb' hw =>
    rw [uncomment_commented hb, trimLeft_firstWord hw hb']
    exact .active r hb hw

/-- A line that can be switched opens no plugin list. -/
theorem opening?_eq_none (h : IsSwitchable t) : Plugins.opening? t = none := by
  cases h with
  | active r hb hw =>
    unfold Plugins.opening?
    rw [trimLeft_firstWord hw hb]
    simp only [firstWords, List.mem_cons, List.not_mem_nil, or_false] at hw
    rcases hw with rfl | rfl | rfl | rfl | rfl | rfl | rfl <;> rfl
  | commented r hb => exact Plugins.opening?_of_isCommented (isCommented_commented hb _)

end IsSwitchable
end Edit
namespace Recognize

variable {b b' key t : Text} {c : Char}

/-! ### Aliases -/

theorem isBlank_of_isAliasChar (h : isAliasChar c = true) : isBlank c = false := by
  have hbound : 33 ≤ c.toNat ∧ c.toNat < 128 := by
    simp only [isAliasChar, isNameChar, isLetter, isDigit, Bool.or_eq_true, Bool.and_eq_true,
      decide_eq_true_eq, Char.le_def, UInt32.le_iff_toNat_le, beq_iff_eq, List.mem_cons,
      List.not_mem_nil, or_false] at h
    rcases h with (((h | h) | h) | rfl) | rfl | rfl | rfl | rfl | rfl
    · obtain ⟨h₁, h₂⟩ := h
      change 97 ≤ c.toNat at h₁
      change c.toNat ≤ 122 at h₂
      omega
    · obtain ⟨h₁, h₂⟩ := h
      change 65 ≤ c.toNat at h₁
      change c.toNat ≤ 90 at h₂
      omega
    · obtain ⟨h₁, h₂⟩ := h
      change 48 ≤ c.toNat at h₁
      change c.toNat ≤ 57 at h₂
      omega
    all_goals decide
  simp only [isBlank, Bool.or_eq_false_iff, Bool.and_eq_false_iff, decide_eq_false_iff_not,
    beq_eq_false_iff_ne]
  omega

theorem eq_false_of_isBlank {next : Char → Bool} (hnext : ∀ c, next c = true → isAliasChar c = true)
    (h : isBlank c = true) : next c = false := by
  apply Bool.eq_false_iff.2
  intro hc
  rw [isBlank_of_isAliasChar (hnext c hc)] at h
  cases h

theorem isAliasChar_of_isNameStart (h : isNameStart c = true) : isAliasChar c = true := by
  simp only [isNameStart, Bool.or_eq_true] at h
  simp only [isAliasChar, isNameChar, Bool.or_eq_true]
  tauto

theorem isBlank_of_isNameStart (h : isNameStart c = true) : isBlank c = false :=
  isBlank_of_isAliasChar (isAliasChar_of_isNameStart h)

theorem trimLeft_name {next : Char → Bool} (hn : IsName isNameStart next key) (r : Text) :
    trimLeft (key ++ r) = key ++ r := by
  obtain ⟨c, s, rfl, hc, -⟩ := hn
  exact trimLeft_cons_of_not_blank (isBlank_of_isNameStart hc) _

theorem trimLeft_key (hne : key ≠ []) (hkey : ∀ c ∈ key, isAliasChar c = true) (v : Text) :
    trimLeft (key ++ '=' :: v) = key ++ '=' :: v := by
  cases key with
  | nil => exact absurd rfl hne
  | cons c key =>
    exact trimLeft_cons_of_not_blank (isBlank_of_isAliasChar (hkey c List.mem_cons_self)) _

/-- A key is not taken for a flag. -/
theorem dropFlag_key (hne : key ≠ []) (hkey : ∀ c ∈ key, isAliasChar c = true) (v : Text) :
    dropFlag (key ++ '=' :: v) = key ++ '=' :: v := by
  unfold dropFlag
  split
  · next f b r heq =>
    rw [if_neg]
    · exact heq.symm
    · rintro ⟨hf, hb⟩
      match key, hne with
      | [c], _ =>
        obtain rfl : '=' = f := by simpa using (List.cons.inj (List.cons.inj heq).2).1
        exact absurd hf (by decide)
      | c :: d :: key, _ =>
        have hthird : key ++ '=' :: v = b :: r := (List.cons.inj (List.cons.inj heq).2).2
        have hblank : isBlank b = false := by
          cases key with
          | nil =>
            rw [← (List.cons.inj hthird).1]
            decide
          | cons e key =>
            rw [← (List.cons.inj hthird).1]
            exact isBlank_of_isAliasChar (hkey e (by simp))
        rw [hblank] at hb
        cases hb
  · rfl

theorem dropFlag_flag {f : Text} (hf : Edit.IsFlag f) (hne : key ≠ [])
    (hkey : ∀ c ∈ key, isAliasChar c = true) (v : Text) :
    dropFlag (trimLeft (f ++ (key ++ '=' :: v))) = key ++ '=' :: v := by
  cases hf with
  | absent => rw [List.nil_append, trimLeft_key hne hkey, dropFlag_key hne hkey]
  | @present f b hf hb =>
    obtain ⟨hnil, hblank⟩ := hb
    cases b with
    | nil => exact absurd rfl hnil
    | cons c b =>
      rw [allBlank_cons, Bool.and_eq_true] at hblank
      rw [List.cons_append, trimLeft_cons_of_not_blank (by decide)]
      rw [List.cons_append, List.cons_append, dropFlag, if_pos ⟨hf, hblank.1⟩,
        trimLeft_append hblank.2, trimLeft_key hne hkey]

theorem alias?_eq (hb : allBlank b = true) (hb' : IsGap b') {f : Text} (hf : Edit.IsFlag f)
    (hne : key ≠ []) (hkey : ∀ c ∈ key, isAliasChar c = true) (v : Text) :
    alias? (b ++ ("alias".toList ++ (b' ++ (f ++ (key ++ '=' :: v))))) =
      some (key, stripQuotes (trimRight v)) := by
  have hname := (isName_self_iff.2 ⟨hne, hkey⟩).name?_append (c := '=') (by decide) v
  unfold alias?
  rw [Edit.trimLeft_firstWord (by decide) hb, after?_append]
  simp only [Option.bind_eq_bind, Option.bind_some, afterBlanks?_append hb',
    dropFlag_flag hf hne hkey, hname, after?, if_pos]
  rfl

theorem export?_eq {w : Text} (hb : allBlank b = true) (hw : Edit.IsExport w) (hb' : IsGap b')
    (hkey : IsName isNameStart isNameChar key) (v : Text) :
    export? (b ++ (w ++ (b' ++ (key ++ '=' :: v)))) =
      if (trimRight v).isEmpty then none else some (key, trimRight v) := by
  have hname := hkey.name?_append (c := '=') (by decide) v
  unfold export?
  rw [Edit.exportCommand?_trimLeft_eq_some_iff.2 ⟨b, w, hb, hw, rfl⟩]
  simp only [Option.bind_eq_bind, Option.bind_some, afterBlanks?_append hb', trimLeft_name hkey,
    hname, after?, if_pos]
  rfl

/-- The reader finds the alias that a line declares for an edit, whatever its command. -/
theorem alias?_of_declares (hkey : ∀ c ∈ key, isAliasChar c = true) (hne : key ≠ [])
    (h : Edit.declares key t .aliased = true) :
    ∃ p v, t = p ++ '=' :: v ∧
      ∀ v, alias? (p ++ '=' :: v) = some (key, stripQuotes (trimRight v)) := by
  cases Edit.declares_eq_true_iff.1 h with
  | @aliased b b' f v hb hb' hf =>
    refine ⟨b ++ ("alias".toList ++ (b' ++ (f ++ key))), v, by simp, fun v => ?_⟩
    simpa using alias?_eq hb hb' hf hne hkey v

end Recognize
end ShellConfig
