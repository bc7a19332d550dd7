import ShellConfig.Proofs.Entry.Reading
import ShellConfig.Proofs.Text.Blank

/-!
# How declarations are written

Reading a text and editing it each have rules of their own for the lines that declare an entry. Both
are compared here with the forms in which such lines are written. Main statements:
`declares_eq_true_iff`, that edits know exactly the lines in these forms; and
`isWritten_of_mem_payloads`, that what is read of a line is written there in one of them.
-/

namespace ShellConfig

open Text

namespace Text

variable {b r t : Text}

/-! ### What is said -/

/-- A text that says something from its first character to its last: neither of them is a blank. -/
structure IsTrimmed (w : Text) : Prop where
  said : allBlank w = false
  first : ∀ c ∈ w.head?, isBlank c = false
  last : ∀ c ∈ w.getLast?, isBlank c = false

theorem isTrimmed_trim (h : allBlank t = false) : IsTrimmed (trim t) := by
  obtain ⟨c, r, hr, hc⟩ := exists_trimLeft_eq_cons h
  have htrim : trim t = c :: trimRight r := by
    rw [trim, hr, trimRight_cons, hc, Bool.and_false]
    rfl
  refine ⟨?_, ?_, fun d hd => isBlank_of_getLast?_trimRight hd⟩
  · rw [htrim, allBlank_cons, hc, Bool.false_and]
  · intro d hd
    rw [htrim] at hd
    obtain rfl := Option.some.inj hd
    exact hc

/-- What a text says: all of it but the blanks around, or its last blank if there is nothing else.
-/
inductive Says : Text → Text → Prop
  | content {b w b' : Text} (hb : allBlank b = true) (hw : IsTrimmed w) (hb' : allBlank b' = true) :
      Says (b ++ (w ++ b')) w
  | blank {b : Text} {c : Char} (hb : allBlank b = true) (hc : isBlank c = true) :
      Says (b ++ [c]) [c]

theorem says_of_content? {w : Text} (h : content? t = some w) : Says t w := by
  unfold content? at h
  split at h
  · next htrim =>
    obtain ⟨c, hc, rfl⟩ := Option.map_eq_some_iff.1 h
    obtain ⟨b, rfl⟩ := List.getLast?_eq_some_iff.1 hc
    have hblank := trim_eq_nil_iff.1 htrim
    rw [allBlank_append, Bool.and_eq_true, allBlank_cons, Bool.and_eq_true] at hblank
    exact .blank hblank.1 hblank.2.1
  · next htrim =>
    obtain rfl := Option.some.inj h
    have hsaid : allBlank t = false := by
      rw [← Bool.not_eq_true, ← trim_eq_nil_iff]
      exact htrim
    obtain ⟨b', hb', ht⟩ := exists_trimRight_append (trimLeft t)
    have hsays := Says.content (allBlank_leadingBlanks t) (isTrimmed_trim hsaid) hb'
    rwa [trim, ← ht, leadingBlanks_append_trimLeft] at hsays

theorem content?_eq_none_iff : content? t = none ↔ t = [] := by
  unfold content?
  split
  · rw [Option.map_eq_none_iff, List.getLast?_eq_none_iff]
  · next h =>
    constructor
    · intro hnone
      cases hnone
    · rintro rfl
      exact absurd rfl h

/-- What a text says is the text without blanks around it, unless there is nothing but blanks. -/
theorem exists_of_content? {key : Text} (h : content? t = some key) (hkey : allBlank key = false) :
    ∃ b b', allBlank b = true ∧ allBlank b' = true ∧ t = b ++ (key ++ b') := by
  cases says_of_content? h with
  | @content b _ b' hb _ hb' => exact ⟨b, b', hb, hb', rfl⟩
  | blank _ hc =>
    rw [allBlank_cons, hc] at hkey
    cases hkey

theorem exists_of_argument? {key : Text} (h : argument? t = some key)
    (hkey : allBlank key = false) :
    ∃ b b', IsGap b ∧ allBlank b' = true ∧ t = b ++ (key ++ b') := by
  cases t with
  | nil => cases h
  | cons c t =>
    rw [argument?] at h
    split at h
    · next hc =>
      obtain ⟨b, b', hb, hb', rfl⟩ := exists_of_content? h hkey
      exact ⟨c :: b, b', isGap_cons hc hb, hb', rfl⟩
    · cases h

/-! ### Names -/

variable {start next : Char → Bool} {n : Text}

/-- A name: a character that may start it, and then characters that may continue it. -/
def IsName (start next : Char → Bool) (n : Text) : Prop :=
  ∃ c r, n = c :: r ∧ start c = true ∧ ∀ d ∈ r, next d = true

/-- Where any character may start a name that may continue it, a name is a word of such characters.
-/
theorem isName_self_iff : IsName next next n ↔ n ≠ [] ∧ ∀ c ∈ n, next c = true := by
  cases n with
  | nil => simp [IsName]
  | cons c r => simp [IsName]

/-- A name is read up to the first character that cannot continue it. -/
theorem name?_eq_some_iff :
    name? start next t = some (n, r) ↔
      IsName start next n ∧ t = n ++ r ∧ ∀ c ∈ r.head?, next c = false := by
  constructor
  · intro h
    cases t with
    | nil => cases h
    | cons c t =>
      rw [name?] at h
      split at h
      · next hc =>
        obtain ⟨rfl, rfl⟩ := Prod.mk.inj (Option.some.inj h)
        refine ⟨⟨c, _, rfl, hc, List.all_eq_true.1 List.all_takeWhile⟩, ?_, fun d hd => ?_⟩
        · rw [List.cons_append, List.takeWhile_append_dropWhile]
        · have hhead := List.head?_dropWhile_not next t
          rw [hd] at hhead
          simpa using hhead
      · cases h
  · rintro ⟨⟨c, s, rfl, hc, hs⟩, rfl, hr⟩
    rw [List.cons_append, name?, if_pos hc, List.takeWhile_append_of_pos hs,
      List.dropWhile_append_of_pos hs]
    cases r with
    | nil => simp
    | cons d r =>
      have hd : ¬ next d = true := by simpa using hr d rfl
      rw [List.takeWhile_cons_of_neg hd, List.dropWhile_cons_of_neg hd, List.append_nil]

theorem append_of_name? (h : name? start next t = some (n, r)) : t = n ++ r :=
  (name?_eq_some_iff.1 h).2.1

theorem IsName.name?_append {c : Char} (hn : IsName start next n) (hc : next c = false)
    (r : Text) : name? start next (n ++ c :: r) = some (n, c :: r) :=
  name?_eq_some_iff.2 ⟨hn, rfl, by simpa using hc⟩

end Text

namespace Edit

variable {key s t w : Text} {kind : Kind}

/-! ### Forms of declarations -/

/-- The flag of an alias with the blanks behind it, or none. -/
inductive IsFlag : Text → Prop
  | absent : IsFlag []
  | present {f : Char} {b : Text} (hf : f ∈ ['g', 's', 'S']) (hb : IsGap b) : IsFlag ('-' :: f :: b)

inductive IsExport : Text → Prop
  | plain : IsExport "export".toList
  | typed {b : Text} (hb : IsGap b) : IsExport ("typeset".toList ++ (b ++ "-x".toList))

/-- The lines that declare an entry of an editable kind under a key. Blanks may stand in front, and
behind a key that ends the line. -/
inductive IsWritten (key : Text) : Kind → Text → Prop
  | aliased {b b' f : Text} (v : Text) (hb : allBlank b = true) (hb' : IsGap b') (hf : IsFlag f) :
      IsWritten key .aliased (b ++ ("alias".toList ++ (b' ++ (f ++ (key ++ '=' :: v)))))
  | exported {b b' w : Text} (v : Text) (hb : allBlank b = true) (hw : IsExport w)
      (hb' : IsGap b') : IsWritten key .exported (b ++ (w ++ (b' ++ (key ++ '=' :: v))))
  | setopt {b b' b'' : Text} (hb : allBlank b = true) (hb' : IsGap b')
      (hb'' : allBlank b'' = true) :
      IsWritten key .setopt (b ++ ("setopt".toList ++ (b' ++ (key ++ b''))))
  | source {b b' b'' w : Text} (hb : allBlank b = true) (hw : w = "source".toList ∨ w = ['.'])
      (hb' : IsGap b') (hb'' : allBlank b'' = true) :
      IsWritten key .source (b ++ (w ++ (b' ++ (key ++ b''))))
  | history {b b' : Text} (v : Text) (hb : allBlank b = true) (hb' : allBlank b' = true) :
      IsWritten key .history (b ++ (key ++ (b' ++ '=' :: v)))

namespace IsWritten

theorem ne_nil (h : IsWritten key kind t) : t ≠ [] := by
  cases h with
  | source hb hw hb' hb'' => rcases hw with rfl | rfl <;> simp
  | _ => simp

theorem not_blank (h : IsWritten key kind t) : allBlank t = false := by
  cases h with
  | exported v hb hw hb' => cases hw <;> simp [allBlank_append, isBlank]
  | source hb hw hb' hb'' => rcases hw with rfl | rfl <;> simp [allBlank_append, isBlank]
  | _ => simp [allBlank_append, isBlank]

theorem append_blanks (h : IsWritten key kind t) (hs : allBlank s = true) :
    IsWritten key kind (t ++ s) := by
  cases h with
  | aliased v hb hb' hf =>
    simp only [List.append_assoc, List.cons_append]
    exact .aliased (v ++ s) hb hb' hf
  | exported v hb hw hb' =>
    simp only [List.append_assoc, List.cons_append]
    exact .exported (v ++ s) hb hw hb'
  | setopt hb hb' hb'' =>
    simp only [List.append_assoc]
    exact .setopt hb hb' (by rw [allBlank_append, hb'', hs]; rfl)
  | source hb hw hb' hb'' =>
    simp only [List.append_assoc]
    exact .source hb hw hb' (by rw [allBlank_append, hb'', hs]; rfl)
  | history v hb hb' =>
    simp only [List.append_assoc, List.cons_append]
    exact .history (v ++ s) hb hb'

end IsWritten

/-! ### What edits know -/

theorem isPrefixOf_eq_true_iff :
    (key ++ ['=']).isPrefixOf t = true ↔ ∃ v, t = key ++ '=' :: v := by
  rw [List.isPrefixOf_iff_prefix]
  constructor
  · rintro ⟨v, rfl⟩
    exact ⟨v, by simp⟩
  · rintro ⟨v, rfl⟩
    exact ⟨v, by simp⟩

theorem after?_any_allBlank_iff :
    (after? key t).any allBlank = true ↔ ∃ b, allBlank b = true ∧ t = key ++ b := by
  rw [Option.any_eq_true]
  constructor
  · rintro ⟨b, hb, hblank⟩
    exact ⟨b, hblank, after?_eq_some_iff.1 hb⟩
  · rintro ⟨b, hblank, rfl⟩
    exact ⟨b, after?_append key b, hblank⟩

theorem afterEquals?_eq_some_iff {v : Text} :
    afterEquals? t = some v ↔ ∃ b, allBlank b = true ∧ t = b ++ '=' :: v :=
  after?_trimLeft_eq_some_iff rfl

/-- What it means that something follows a flag, or no flag. -/
theorem flagThen_or_eq_true_iff {p : Text → Bool} :
    (flagThen p t || p t) = true ↔ ∃ f r, IsFlag f ∧ t = f ++ r ∧ p r = true := by
  rw [Bool.or_eq_true]
  constructor
  · rintro (h | h)
    · unfold flagThen at h
      split at h
      · next f u =>
        rw [Bool.and_eq_true, decide_eq_true_eq, someBlanksThen_eq_true_iff] at h
        obtain ⟨hf, b, r, hb, rfl, hr⟩ := h
        exact ⟨'-' :: f :: b, r, .present hf hb, rfl, hr⟩
      · cases h
    · exact ⟨[], t, .absent, rfl, h⟩
  · rintro ⟨f, r, hf, rfl, hr⟩
    cases hf with
    | absent => exact .inr hr
    | present hf hb =>
      left
      simp only [List.cons_append, flagThen, Bool.and_eq_true, decide_eq_true_eq]
      exact ⟨hf, someBlanksThen_eq_true_iff.2 ⟨_, r, hb, rfl, hr⟩⟩

theorem exportCommand?_eq_some_iff {r : Text} :
    Recognize.exportCommand? t = some r ↔ ∃ w, IsExport w ∧ t = w ++ r := by
  unfold Recognize.exportCommand?
  rw [Option.orElse_eq_orElse, Option.orElse_eq_or, Option.or_eq_some_iff]
  constructor
  · rintro (h | ⟨-, h⟩)
    · exact ⟨_, .plain, after?_eq_some_iff.1 h⟩
    · obtain ⟨s, hs, hx⟩ := Option.bind_eq_some_iff.1 h
      obtain ⟨u, hu, hs⟩ := Option.bind_eq_some_iff.1 hs
      obtain ⟨b, hb, rfl⟩ := exists_gap_of_afterBlanks? hs
      refine ⟨_, .typed hb, ?_⟩
      rw [after?_eq_some_iff.1 hu, after?_eq_some_iff.1 hx, List.append_assoc, List.append_assoc]
  · rintro ⟨w, hw, rfl⟩
    cases hw with
    | plain => exact .inl (after?_append _ r)
    | @typed b hb =>
      have htrim : trimLeft ("-x".toList ++ r) = "-x".toList ++ r :=
        trimLeft_cons_of_not_blank (by decide) _
      rw [List.append_assoc, List.append_assoc]
      refine .inr ⟨rfl, ?_⟩
      rw [after?_append, Option.bind_some, afterBlanks?_append hb, htrim, Option.bind_some,
        after?_append]

theorem exportCommand?_trimLeft_eq_some_iff {r : Text} :
    Recognize.exportCommand? (trimLeft t) = some r ↔
      ∃ b w, allBlank b = true ∧ IsExport w ∧ t = b ++ (w ++ r) := by
  rw [exportCommand?_eq_some_iff]
  constructor
  · rintro ⟨w, hw, h⟩
    exact ⟨leadingBlanks t, w, allBlank_leadingBlanks t, hw, eq_leadingBlanks_append h⟩
  · rintro ⟨b, w, hb, hw, rfl⟩
    refine ⟨w, hw, ?_⟩
    rw [trimLeft_append hb]
    cases hw with
    | plain => exact trimLeft_cons_of_not_blank (by decide) _
    | typed hb' => exact trimLeft_cons_of_not_blank (by decide) _

theorem sourceCommand?_trimLeft_eq_some_iff {r : Text} :
    (after? "source".toList (trimLeft t) <|> after? ['.'] (trimLeft t)) = some r ↔
      ∃ b w, allBlank b = true ∧ (w = "source".toList ∨ w = ['.']) ∧ t = b ++ (w ++ r) := by
  rw [Option.orElse_eq_orElse, Option.orElse_eq_or, Option.or_eq_some_iff]
  constructor
  · rintro (h | ⟨-, h⟩)
    · obtain ⟨b, hb, rfl⟩ := (after?_trimLeft_eq_some_iff rfl).1 h
      exact ⟨b, _, hb, .inl rfl, rfl⟩
    · obtain ⟨b, hb, rfl⟩ := (after?_trimLeft_eq_some_iff rfl).1 h
      exact ⟨b, _, hb, .inr rfl, rfl⟩
  · rintro ⟨b, w, hb, rfl | rfl, rfl⟩
    · exact .inl ((after?_trimLeft_eq_some_iff rfl).2 ⟨b, hb, rfl⟩)
    · refine .inr ⟨?_, (after?_trimLeft_eq_some_iff rfl).2 ⟨b, hb, rfl⟩⟩
      rw [trimLeft_append hb]
      rfl

theorem isWritten_of_declares (h : declares key t kind = true) : IsWritten key kind t := by
  cases kind with
  | aliased =>
    obtain ⟨r, hr, hrest⟩ := (Option.any_eq_true _ _).1 h
    obtain ⟨b, hb, rfl⟩ := (after?_trimLeft_eq_some_iff rfl).1 hr
    obtain ⟨b', s, hb', rfl, hs⟩ := someBlanksThen_eq_true_iff.1 hrest
    obtain ⟨f, u, hf, rfl, hu⟩ := flagThen_or_eq_true_iff.1 hs
    obtain ⟨v, rfl⟩ := isPrefixOf_eq_true_iff.1 hu
    exact .aliased v hb hb' hf
  | exported =>
    obtain ⟨r, hr, hrest⟩ := (Option.any_eq_true _ _).1 h
    obtain ⟨b, w, hb, hw, rfl⟩ := exportCommand?_trimLeft_eq_some_iff.1 hr
    obtain ⟨b', s, hb', rfl, hs⟩ := someBlanksThen_eq_true_iff.1 hrest
    obtain ⟨v, rfl⟩ := isPrefixOf_eq_true_iff.1 hs
    exact .exported v hb hw hb'
  | setopt =>
    obtain ⟨r, hr, hrest⟩ := (Option.any_eq_true _ _).1 h
    obtain ⟨b, hb, rfl⟩ := (after?_trimLeft_eq_some_iff rfl).1 hr
    obtain ⟨b', s, hb', rfl, hs⟩ := someBlanksThen_eq_true_iff.1 hrest
    obtain ⟨b'', hb'', rfl⟩ := after?_any_allBlank_iff.1 hs
    exact .setopt hb hb' hb''
  | source =>
    obtain ⟨r, hr, hrest⟩ := (Option.any_eq_true _ _).1 h
    obtain ⟨b, w, hb, hw, rfl⟩ := sourceCommand?_trimLeft_eq_some_iff.1 hr
    obtain ⟨b', s, hb', rfl, hs⟩ := someBlanksThen_eq_true_iff.1 hrest
    obtain ⟨b'', hb'', rfl⟩ := after?_any_allBlank_iff.1 hs
    exact .source hb hw hb' hb''
  | history =>
    rw [declares, blanksThen_eq_true_iff] at h
    obtain ⟨b, r, hb, rfl, hrest⟩ := h
    obtain ⟨v, hv⟩ := Option.isSome_iff_exists.1 hrest
    obtain ⟨s, hs, hequals⟩ := Option.bind_eq_some_iff.1 hv
    obtain rfl := after?_eq_some_iff.1 hs
    obtain ⟨b', hb', rfl⟩ := afterEquals?_eq_some_iff.1 hequals
    exact .history v hb hb'
  | _ => cases h

theorem IsWritten.declares (h : IsWritten key kind t) : declares key t kind = true := by
  cases h with
  | aliased v hb hb' hf =>
    refine (Option.any_eq_true _ _).2 ⟨_, (after?_trimLeft_eq_some_iff rfl).2 ⟨_, hb, rfl⟩, ?_⟩
    refine someBlanksThen_eq_true_iff.2 ⟨_, _, hb', rfl, ?_⟩
    exact flagThen_or_eq_true_iff.2 ⟨_, _, hf, rfl, isPrefixOf_eq_true_iff.2 ⟨v, rfl⟩⟩
  | exported v hb hw hb' =>
    refine (Option.any_eq_true _ _).2
      ⟨_, exportCommand?_trimLeft_eq_some_iff.2 ⟨_, _, hb, hw, rfl⟩, ?_⟩
    exact someBlanksThen_eq_true_iff.2 ⟨_, _, hb', rfl, isPrefixOf_eq_true_iff.2 ⟨v, rfl⟩⟩
  | setopt hb hb' hb'' =>
    refine (Option.any_eq_true _ _).2 ⟨_, (after?_trimLeft_eq_some_iff rfl).2 ⟨_, hb, rfl⟩, ?_⟩
    exact someBlanksThen_eq_true_iff.2
      ⟨_, _, hb', rfl, after?_any_allBlank_iff.2 ⟨_, hb'', rfl⟩⟩
  | source hb hw hb' hb'' =>
    refine (Option.any_eq_true _ _).2
      ⟨_, sourceCommand?_trimLeft_eq_some_iff.2 ⟨_, _, hb, hw, rfl⟩, ?_⟩
    exact someBlanksThen_eq_true_iff.2
      ⟨_, _, hb', rfl, after?_any_allBlank_iff.2 ⟨_, hb'', rfl⟩⟩
  | history v hb hb' =>
    rw [declares, blanksThen_eq_true_iff]
    refine ⟨_, _, hb, rfl, ?_⟩
    rw [after?_append, Option.bind_some, afterEquals?_eq_some_iff.2 ⟨_, hb', rfl⟩]
    rfl

/-- Edits know exactly the lines that are written in these forms. -/
theorem declares_eq_true_iff : declares key t kind = true ↔ IsWritten key kind t :=
  ⟨isWritten_of_declares, IsWritten.declares⟩

end Edit

/-- The key under which an edit looks for what is recorded of a kind. -/
def Payload.editKey? (p : Payload) : Kind → Option Text
  | .aliased => p.name
  | .exported | .history => p.varName
  | .setopt => p.option
  | .source => p.path
  | _ => none

namespace Recognize

open Edit

variable {c key t v : Text} {p : Payload} {kind : Kind}

/-! ### What is read is written -/

theorem exists_flag_append (t : Text) : ∃ f, IsFlag f ∧ t = f ++ dropFlag t := by
  unfold dropFlag
  split
  · next f b r =>
    split
    · next hflag =>
      refine ⟨'-' :: f :: b :: leadingBlanks r,
        .present hflag.1 (isGap_cons hflag.2 (allBlank_leadingBlanks r)), ?_⟩
      simp only [List.cons_append, leadingBlanks_append_trimLeft]
    · exact ⟨[], .absent, rfl⟩
  · exact ⟨[], .absent, rfl⟩

theorem exists_of_alias? (h : alias? t = some (key, c)) :
    ∃ b b' f v, allBlank b = true ∧ IsGap b' ∧ IsFlag f ∧ IsName isAliasChar isAliasChar key ∧
      t = b ++ ("alias".toList ++ (b' ++ (f ++ (key ++ '=' :: v)))) ∧
      c = stripQuotes (trimRight v) := by
  obtain ⟨r, hr, h⟩ := Option.bind_eq_some_iff.1 h
  obtain ⟨s, hs, h⟩ := Option.bind_eq_some_iff.1 h
  obtain ⟨⟨n, u⟩, hn, h⟩ := Option.bind_eq_some_iff.1 h
  obtain ⟨v, hv, h⟩ := Option.bind_eq_some_iff.1 h
  obtain ⟨rfl, rfl⟩ := Prod.mk.inj (Option.some.inj h)
  obtain ⟨b, hb, rfl⟩ := (after?_trimLeft_eq_some_iff rfl).1 hr
  obtain ⟨b', hb', rfl⟩ := exists_gap_of_afterBlanks? hs
  obtain ⟨f, hf, hflag⟩ := exists_flag_append s
  obtain ⟨hname, hrest, -⟩ := name?_eq_some_iff.1 hn
  refine ⟨b, b', f, v, hb, hb', hf, hname, ?_, rfl⟩
  rw [hflag, hrest, after?_eq_some_iff.1 hv]
  rfl

theorem exists_of_export? (h : export? t = some (key, v)) :
    ∃ b w b' x, allBlank b = true ∧ IsExport w ∧ IsGap b' ∧ IsName isNameStart isNameChar key ∧
      t = b ++ (w ++ (b' ++ (key ++ '=' :: x))) ∧ v = trimRight x ∧ v ≠ [] := by
  obtain ⟨r, hr, h⟩ := Option.bind_eq_some_iff.1 h
  obtain ⟨s, hs, h⟩ := Option.bind_eq_some_iff.1 h
  obtain ⟨⟨n, u⟩, hn, h⟩ := Option.bind_eq_some_iff.1 h
  obtain ⟨x, hx, h⟩ := Option.bind_eq_some_iff.1 h
  split at h
  · cases h
  · next hne =>
    obtain ⟨rfl, rfl⟩ := Prod.mk.inj (Option.some.inj h)
    obtain ⟨b, w, hb, hw, rfl⟩ := exportCommand?_trimLeft_eq_some_iff.1 hr
    obtain ⟨b', hb', rfl⟩ := exists_gap_of_afterBlanks? hs
    obtain ⟨hname, hrest, -⟩ := name?_eq_some_iff.1 hn
    refine ⟨b, w, b', x, hb, hw, hb', hname, ?_, rfl, by simpa using hne⟩
    rw [hrest, after?_eq_some_iff.1 hx]
    rfl

theorem isWritten_of_alias? (h : alias? t = some (key, c)) : IsWritten key .aliased t := by
  obtain ⟨b, b', f, x, hb, hb', hf, -, rfl, -⟩ := exists_of_alias? h
  exact .aliased x hb hb' hf

theorem isWritten_of_export? (h : export? t = some (key, v)) : IsWritten key .exported t := by
  obtain ⟨b, w, b', x, hb, hw, hb', -, rfl, -, -⟩ := exists_of_export? h
  exact .exported x hb hw hb'

theorem isWritten_of_setopt (h : command? "setopt".toList t = some key)
    (hkey : allBlank key = false) : IsWritten key .setopt t := by
  obtain ⟨r, hr, hargument⟩ := Option.bind_eq_some_iff.1 h
  obtain ⟨b, hb, rfl⟩ := (after?_trimLeft_eq_some_iff rfl).1 hr
  obtain ⟨b', b'', hb', hb'', rfl⟩ := exists_of_argument? hargument hkey
  exact .setopt hb hb' hb''

theorem isWritten_of_source? (h : source? t = some key) (hkey : allBlank key = false) :
    IsWritten key .source t := by
  obtain ⟨r, hr, hargument⟩ := Option.bind_eq_some_iff.1 h
  obtain ⟨b, w, hb, hw, rfl⟩ := sourceCommand?_trimLeft_eq_some_iff.1 hr
  obtain ⟨b', b'', hb', hb'', rfl⟩ := exists_of_argument? hargument hkey
  exact .source hb hw hb' hb''

theorem isWritten_of_history? (h : history? t = some (key, v)) : IsWritten key .history t := by
  obtain ⟨r, hr, h⟩ := Option.bind_eq_some_iff.1 h
  obtain ⟨x, hx, h⟩ := Option.bind_eq_some_iff.1 h
  obtain ⟨rfl, -⟩ := Prod.mk.inj (Option.some.inj h)
  obtain ⟨u, hu, -⟩ := Option.bind_eq_some_iff.1 hx
  obtain ⟨b, hb, rfl⟩ := (after?_trimLeft_eq_some_iff rfl).1 hr
  -- the variable ends where the blanks before the equals sign begin
  obtain ⟨b', hb', hrest⟩ := afterEquals?_eq_some_iff.1 hu
  have hname : "HIST".toList ++ r =
      ("HIST".toList ++ r.takeWhile isHistoryChar) ++ (b' ++ '=' :: u) := by
    rw [← hrest, List.append_assoc, List.takeWhile_append_dropWhile]
  rw [hname]
  exact .history u hb hb'

/-- What is read of a line under a key is written there under this key. -/
theorem isWritten_of_mem_payloads (hkind : isEditable kind = true) (hp : p ∈ payloads t kind) :
    ∃ key, p.editKey? kind = some key ∧ (allBlank key = false → IsWritten key kind t) := by
  cases kind with
  | aliased =>
    obtain ⟨⟨n, c⟩, h, rfl⟩ := List.mem_map.1 hp
    exact ⟨n, rfl, fun _ => isWritten_of_alias? (Option.mem_toList.1 h)⟩
  | exported =>
    obtain ⟨⟨n, v⟩, h, rfl⟩ := List.mem_map.1 hp
    exact ⟨n, rfl, fun _ => isWritten_of_export? (Option.mem_toList.1 h)⟩
  | setopt =>
    obtain ⟨o, h, rfl⟩ := List.mem_map.1 hp
    exact ⟨o, rfl, isWritten_of_setopt (Option.mem_toList.1 h)⟩
  | source =>
    obtain ⟨path, h, rfl⟩ := List.mem_map.1 hp
    exact ⟨path, rfl, isWritten_of_source? (Option.mem_toList.1 h)⟩
  | history =>
    obtain ⟨⟨n, v⟩, h, rfl⟩ := List.mem_map.1 hp
    exact ⟨n, rfl, fun _ => isWritten_of_history? (Option.mem_toList.1 h)⟩
  | _ => cases hkind

end Recognize
end ShellConfig
