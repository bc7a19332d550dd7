import ShellConfig.Settings.Basic

/-!
# Settings pass their own check

Main statements: `ofMembers_eq_ok`, that each of the settings is what is checked of its member;
`isValid_of_ofMembers`, what holds of settings that were checked; and `ofJson_toJson`, that they can
be checked again and come out as they were.
-/

namespace ShellConfig

/-! ### Checks -/

namespace Checked

variable {α β : Type} {x : Checked α} {f : Checked (α → β)} {b : β}

theorem map_eq_ok {g : α → β} : g <$> x = .ok b ↔ ∃ a, x = .ok a ∧ b = g a := by
  cases x with
  | ok a =>
    constructor
    · intro h
      exact ⟨a, rfl, (Checked.ok.inj h).symm⟩
    · rintro ⟨_, h, rfl⟩
      cases h
      rfl
  | bad is =>
    constructor
    · intro h
      cases h
    · rintro ⟨_, h, -⟩
      cases h

theorem seq_eq_ok : f <*> x = .ok b ↔ ∃ g a, f = .ok g ∧ x = .ok a ∧ b = g a := by
  cases f with
  | ok g =>
    cases x with
    | ok a =>
      constructor
      · intro h
        exact ⟨g, a, rfl, rfl, (Checked.ok.inj h).symm⟩
      · rintro ⟨_, _, hg, ha, rfl⟩
        cases hg
        cases ha
        rfl
    | bad is =>
      constructor
      · intro h
        cases h
      · rintro ⟨_, _, -, h, -⟩
        cases h
  | bad is =>
    constructor
    · intro h
      cases x <;> cases h
    · rintro ⟨_, _, h, -⟩
      cases h

theorem inside_eq_ok {l : Location} {a : α} : x.inside l = .ok a ↔ x = .ok a := by
  cases x with
  | ok a' => rfl
  | bad is => simp [inside]

theorem andThen_eq_ok {k : α → Checked β} : x.andThen k = .ok b ↔ ∃ a, x = .ok a ∧ k a = .ok b := by
  cases x <;> simp [andThen]

end Checked

namespace Json

variable {ms : List (Text × Json)} {key : Text} {v : Json} {n : Nat}

/-- What a check of whole numbers lets through: those that meet its condition. -/
theorem asInt_andThen_eq_ok {P : Int → Prop} [DecidablePred P] {k : IssueKind} :
    ((asInt v).andThen fun i => if P i then .ok i.toNat else .fail k v) = .ok n ↔
      ∃ i, asInt v = .ok i ∧ P i ∧ n = i.toNat := by
  rw [Checked.andThen_eq_ok]
  refine exists_congr fun i => and_congr_right fun _ => ?_
  by_cases h : P i
  · simp [h, eq_comm]
  · simp [h, Checked.fail]

theorem asPositive_eq_ok : asPositive v = .ok n ↔ ∃ i, asInt v = .ok i ∧ 0 < i ∧ n = i.toNat :=
  asInt_andThen_eq_ok

theorem asNatural_eq_ok : asNatural v = .ok n ↔ ∃ i, asInt v = .ok i ∧ 0 ≤ i ∧ n = i.toNat :=
  asInt_andThen_eq_ok

theorem pos_of_asPositive (h : asPositive v = .ok n) : 0 < n := by
  obtain ⟨i, -, hi, rfl⟩ := asPositive_eq_ok.1 h
  omega

theorem pos_of_optional {default : Nat} (hdefault : 0 < default)
    (h : optional key default asPositive ms = .ok n) : 0 < n := by
  unfold optional at h
  split at h
  · exact pos_of_asPositive (Checked.inside_eq_ok.1 h)
  · cases h
    exact hdefault

theorem asInt_nat (n : Nat) : asInt (.nat n) = .ok n := rfl

theorem asPositive_nat (h : 0 < n) : asPositive (.nat n) = .ok n := by
  simp [asPositive, asInt_nat, Checked.andThen, h]

theorem asNatural_nat (n : Nat) : asNatural (.nat n) = .ok n := by
  simp [asNatural, asInt_nat, Checked.andThen]

theorem orNull_asWording (w : Option Wording) : orNull asWording (.ofWording? w) = .ok w := by
  cases w with
  | none => rfl
  | some w => cases w <;> rfl

end Json

namespace Settings

open Json

variable {ms : List (Text × Json)} {c s : Settings}

/-! ### Settings -/

/-- Settings are others with members in place: each is what is checked of its member, and stays
where there is none. -/
structure Replaces (ms : List (Text × Json)) (s c : Settings) : Prop where
  path : optional pathKey s.path (orNull asWording) ms = .ok c.path
  startupFile : optional startupFileKey s.startupFile asStartupFile ms = .ok c.startupFile
  maxLineLength : optional maxLineLengthKey s.maxLineLength asPositive ms = .ok c.maxLineLength
  maxFileSize : optional maxFileSizeKey s.maxFileSize asPositive ms = .ok c.maxFileSize
  contextLines : optional contextLinesKey s.contextLines asNatural ms = .ok c.contextLines
  previewLines : optional previewLinesKey s.previewLines asPositive ms = .ok c.previewLines
  headingFormat :
    optional headingFormatKey s.headingFormat (orNull asHeadingFormat) ms = .ok c.headingFormat

theorem ofMembers_eq_ok : ofMembers ms = .ok c ↔ Replaces ms {} c := by
  constructor
  · intro h
    unfold ofMembers at h
    obtain ⟨f₆, format, h₆, hformat, rfl⟩ := Checked.seq_eq_ok.1 h
    obtain ⟨f₅, preview, h₅, hpreview, rfl⟩ := Checked.seq_eq_ok.1 h₆
    obtain ⟨f₄, context, h₄, hcontext, rfl⟩ := Checked.seq_eq_ok.1 h₅
    obtain ⟨f₃, size, h₃, hsize, rfl⟩ := Checked.seq_eq_ok.1 h₄
    obtain ⟨f₂, length, h₂, hlength, rfl⟩ := Checked.seq_eq_ok.1 h₃
    obtain ⟨f₁, startup, h₁, hstartup, rfl⟩ := Checked.seq_eq_ok.1 h₂
    obtain ⟨path, hpath, rfl⟩ := Checked.map_eq_ok.1 h₁
    exact ⟨hpath, hstartup, hlength, hsize, hcontext, hpreview, hformat⟩
  · rintro ⟨hpath, hstartup, hlength, hsize, hcontext, hpreview, hformat⟩
    rw [ofMembers, hpath, hstartup, hlength, hsize, hcontext, hpreview, hformat]
    rfl

/-- Settings that pass their own check: the numbers that must be positive are. -/
structure IsValid (s : Settings) : Prop where
  maxLineLength : 0 < s.maxLineLength
  maxFileSize : 0 < s.maxFileSize
  previewLines : 0 < s.previewLines

theorem isValid_default : IsValid {} := ⟨by decide, by decide, by decide⟩

/-- Settings that were checked are valid. -/
theorem isValid_of_ofMembers (h : ofMembers ms = .ok s) : s.IsValid := by
  have hs : Replaces ms {} s := ofMembers_eq_ok.1 h
  exact ⟨pos_of_optional (by decide) hs.maxLineLength,
    pos_of_optional (by decide) hs.maxFileSize,
    pos_of_optional (by decide) hs.previewLines⟩

theorem isValid_of_ofJson {v : Json} (h : ofJson v = .ok s) : s.IsValid := by
  cases v with
  | object ms => exact isValid_of_ofMembers h
  | _ => cases h

theorem asStartupFile_name (f : StartupFile) : asStartupFile (.text f.name) = .ok f := by
  cases f <;> rfl

theorem orNull_asHeadingFormat (f : Option HeadingFormat) :
    Json.orNull asHeadingFormat (.ofText? (f.map HeadingFormat.name)) = .ok f := by
  cases f with
  | none => rfl
  | some f => cases f <;> rfl

theorem replaces_toMembers (h : s.IsValid) : Replaces s.toMembers {} s := by
  have hfield : ∀ {α : Type} {check : Json → Checked α} {v : Json} {a : α} (key : Text),
      check v = .ok a → (check v).inside (.field key) = .ok a :=
    fun key hcheck => Checked.inside_eq_ok.2 hcheck
  have hpath : optional pathKey none (orNull asWording) s.toMembers = .ok s.path :=
    hfield pathKey (orNull_asWording s.path)
  have hstartup : optional startupFileKey .zshrc asStartupFile s.toMembers =
      .ok s.startupFile := hfield startupFileKey (asStartupFile_name s.startupFile)
  have hlength : optional maxLineLengthKey 1000 asPositive s.toMembers =
      .ok s.maxLineLength := hfield maxLineLengthKey (asPositive_nat h.maxLineLength)
  have hsize : optional maxFileSizeKey (1024 * 1024) asPositive s.toMembers =
      .ok s.maxFileSize := hfield maxFileSizeKey (asPositive_nat h.maxFileSize)
  have hcontext : optional contextLinesKey 3 asNatural s.toMembers =
      .ok s.contextLines := hfield contextLinesKey (asNatural_nat s.contextLines)
  have hpreview : optional previewLinesKey 20 asPositive s.toMembers =
      .ok s.previewLines := hfield previewLinesKey (asPositive_nat h.previewLines)
  have hformat : optional headingFormatKey none (orNull asHeadingFormat) s.toMembers =
      .ok s.headingFormat := hfield headingFormatKey (orNull_asHeadingFormat s.headingFormat)
  exact ⟨hpath, hstartup, hlength, hsize, hcontext, hpreview, hformat⟩

/-- Valid settings pass their own check again and come out as they were. -/
theorem ofJson_toJson (h : s.IsValid) : ofJson s.toJson = .ok s :=
  ofMembers_eq_ok.2 (replaces_toMembers h)

end Settings
end ShellConfig
