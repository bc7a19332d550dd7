import ShellConfig.Service.Basic
import ShellConfig.Proofs.Json.ReadRange
import ShellConfig.Proofs.Settings.Valid

/-!
# Replaced settings

What becomes of settings when some of them are replaced. Main statements: `update_eq_ok` and
`replaces_of_checkUpdate`, that every setting that is named is what is checked of its new value and
the others stay; `Replaces.isStorable`, that they can be stored; and `parse_fileText`, that they are
read again as they were written.
-/

namespace ShellConfig

/-! ### Members of records -/

theorem Checked.all_cons_eq_ok {α : Type} {x : Checked α} {xs : List (Checked α)} {as : List α} :
    Checked.all (x :: xs) = .ok as ↔
      ∃ a bs, x = .ok a ∧ Checked.all xs = .ok bs ∧ as = a :: bs := by
  change Checked.apply (Checked.map List.cons x) (Checked.all xs) = .ok as ↔ _
  cases x <;> cases Checked.all xs <;> simp [Checked.map, Checked.apply, eq_comm]

namespace Json

variable {α : Type} {check : Json → Checked α} {default x y : α} {key : Text}
  {ms ns : List (Text × Json)} {v : Json}

theorem member?_append (key : Text) (ms ns : List (Text × Json)) :
    member? key (ms ++ ns) = (member? key ns).or (member? key ms) := by
  unfold member?
  rw [List.reverse_append, List.find?_append, Option.map_or]

theorem member?_singleton (key key' : Text) (v : Json) :
    member? key [(key', v)] = if key' = key then some v else none := by
  unfold member?
  by_cases h : key' = key <;> simp [h]

theorem mem_of_member? (h : member? key ms = some v) : (key, v) ∈ ms := by
  obtain ⟨⟨key', w⟩, hfind, rfl⟩ := Option.map_eq_some_iff.1 h
  have hkey : key' = key := by simpa using List.find?_some hfind
  exact hkey ▸ List.mem_reverse.1 (List.mem_of_find?_eq_some hfind)

theorem optional_of_none (h : member? key ms = none) :
    optional key default check ms = .ok default := by
  rw [optional, h]

theorem optional_of_some (h : member? key ms = some v) :
    optional key default check ms = .ok x ↔ check v = .ok x := by
  rw [optional, h]
  exact Checked.inside_eq_ok

theorem orNull_of_ne (h : v ≠ null) : orNull check v = (check v).map some := by
  cases v with
  | null => exact absurd rfl h
  | _ => rfl

/-- What more members are checked to is what they are with the members before as defaults. -/
theorem optional_append (h : optional key default check ms = .ok x) :
    optional key default check (ms ++ ns) = optional key x check ns := by
  unfold optional at h ⊢
  rw [member?_append]
  cases member? key ns with
  | some v => rfl
  | none => exact h

end Json

namespace Settings

open Json

variable {digits : Nat} {ms ns : List (Text × Json)} {s c : Settings}

/-! ### Replacing -/

/-- Replacing some of valid settings leaves the others as they were. -/
theorem update_eq_ok (h : s.IsValid) : s.update ms = .ok c ↔ Replaces ms s c := by
  obtain ⟨hpath, hstartup, hlength, hsize, hcontext, hpreview, hformat⟩ := replaces_toMembers h
  rw [update, ofMembers_eq_ok]
  constructor
  · rintro ⟨h₁, h₂, h₃, h₄, h₅, h₆, h₇⟩
    exact ⟨optional_append hpath ▸ h₁, optional_append hstartup ▸ h₂,
      optional_append hlength ▸ h₃, optional_append hsize ▸ h₄, optional_append hcontext ▸ h₅,
      optional_append hpreview ▸ h₆, optional_append hformat ▸ h₇⟩
  · rintro ⟨h₁, h₂, h₃, h₄, h₅, h₆, h₇⟩
    exact ⟨(optional_append hpath).trans h₁, (optional_append hstartup).trans h₂,
      (optional_append hlength).trans h₃, (optional_append hsize).trans h₄,
      (optional_append hcontext).trans h₅, (optional_append hpreview).trans h₆,
      (optional_append hformat).trans h₇⟩

theorem Replaces.eq {c' : Settings} (h : Replaces ms s c) (hs : s.IsValid)
    (h' : Replaces ms s c') : c = c' :=
  Checked.ok.inj (((update_eq_ok hs).2 h).symm.trans ((update_eq_ok hs).2 h'))

/-! ### Storing -/

/-- Settings that can be stored: the path is a string as it is read, and the numbers have no more
digits than are read. -/
structure IsStorable (s : Settings) (digits : Nat) : Prop where
  path : ∀ w ∈ s.path, w.IsRead
  maxLineLength : s.maxLineLength < 10 ^ digits
  maxFileSize : s.maxFileSize < 10 ^ digits
  contextLines : s.contextLines < 10 ^ digits
  previewLines : s.previewLines < 10 ^ digits

theorem isStorable_default (hdigits : Numeral.maxLength ≤ digits) : IsStorable {} digits := by
  have hpow : 10 ^ 7 ≤ 10 ^ digits :=
    Nat.pow_le_pow_right (by decide) ((by decide : 7 ≤ Numeral.maxLength).trans hdigits)
  have hsmall : ∀ n < 10 ^ 7, n < 10 ^ digits := fun n h => h.trans_le hpow
  exact ⟨nofun, hsmall _ (by decide), hsmall _ (by decide), hsmall _ (by decide),
    hsmall _ (by decide)⟩

/-- What holds of an old value and of all that is checked holds of the new one. -/
theorem of_optional {α : Type} {P : α → Prop} {check : Json → Checked α} {key : Text} {x y : α}
    (h : optional key x check ms = .ok y)
    (hms : ∀ m ∈ ms, IsInRange digits m.2) (hx : P x)
    (hcheck : ∀ v, IsInRange digits v → check v = .ok y → P y) : P y := by
  cases hmember : member? key ms with
  | none =>
    rw [optional_of_none hmember] at h
    cases h
    exact hx
  | some v =>
    exact hcheck v (hms _ (mem_of_member? hmember)) ((optional_of_some hmember).1 h)

theorem isRead_of_asWording {digits : Nat} {v : Json} {w? : Option Wording}
    (hv : IsInRange digits v) (h : orNull asWording v = .ok w?) : ∀ w ∈ w?, w.IsRead := by
  rintro w rfl
  cases hv with
  | text t =>
    cases h
    exact Wording.isRead_text t
  | brokenText hps =>
    cases h
    exact hps
  | null | bool | int | decimal | array | object => cases h

theorem toNat_lt_of_asInt {v : Json} {i : Int} (hdigits : Numeral.maxLength ≤ digits)
    (hv : IsInRange digits v) (h : asInt v = .ok i) : i.toNat < 10 ^ digits := by
  have hbound := natAbs_of_asInt hdigits hv h
  omega

theorem lt_of_asPositive {v : Json} {n : Nat} (hdigits : Numeral.maxLength ≤ digits)
    (hv : IsInRange digits v) (h : asPositive v = .ok n) : n < 10 ^ digits := by
  obtain ⟨i, hi, -, rfl⟩ := asPositive_eq_ok.1 h
  exact toNat_lt_of_asInt hdigits hv hi

theorem lt_of_asNatural {v : Json} {n : Nat} (hdigits : Numeral.maxLength ≤ digits)
    (hv : IsInRange digits v) (h : asNatural v = .ok n) : n < 10 ^ digits := by
  obtain ⟨i, hi, -, rfl⟩ := asNatural_eq_ok.1 h
  exact toNat_lt_of_asInt hdigits hv hi

/-- Settings that can be stored still can be with members in place that were read. -/
theorem Replaces.isStorable (hdigits : Numeral.maxLength ≤ digits) (h : Replaces ms s c)
    (hs : s.IsStorable digits) (hms : ∀ m ∈ ms, IsInRange digits m.2) : c.IsStorable digits := by
  have hnumber : ∀ {check : Json → Checked Nat} {key : Text} {m n : Nat},
      (∀ {v n}, IsInRange digits v → check v = .ok n →
        n < 10 ^ digits) →
      m < 10 ^ digits → optional key m check ms = .ok n →
      n < 10 ^ digits := fun {_ _ _ _} hcheck hm hn =>
    of_optional (P := (· < 10 ^ digits)) hn hms hm fun _ => hcheck
  exact ⟨of_optional (P := fun w? => ∀ w ∈ w?, w.IsRead) h.path hms hs.path
      fun _ => isRead_of_asWording,
    hnumber (lt_of_asPositive hdigits) hs.maxLineLength h.maxLineLength,
    hnumber (lt_of_asPositive hdigits) hs.maxFileSize h.maxFileSize,
    hnumber (lt_of_asNatural hdigits) hs.contextLines h.contextLines,
    hnumber (lt_of_asPositive hdigits) hs.previewLines h.previewLines⟩

theorem Replaces.isValid (h : Replaces ms s c) (hs : s.IsValid) : c.IsValid :=
  isValid_of_ofMembers ((update_eq_ok hs).2 h)

theorem IsStorable.isField (h : s.IsStorable digits) :
    ∀ m ∈ s.toMembers, IsField digits m.2 := by
  have hpath : IsField digits (.ofWording? s.path) := by
    cases hs : s.path with
    | none => exact .null
    | some w => exact .wording (h.path w hs)
  have hformat : IsField digits
      (.ofText? (s.headingFormat.map HeadingFormat.name)) := by
    cases s.headingFormat with
    | none => exact .null
    | some f => exact isField_text _ _
  simp only [toMembers, List.forall_mem_cons]
  exact ⟨hpath, isField_text _ _, .nat h.maxLineLength, .nat h.maxFileSize, .nat h.contextLines,
    .nat h.previewLines, hformat, nofun⟩

end Settings

namespace SettingsStore

variable {env : Environment} {s : Settings} {t : Text}

/-- Settings that can be stored are read as they were written. -/
theorem parse_fileText (hvalid : s.IsValid) (hstorable : s.IsStorable env.maxDigits) :
    parse env.settingsLimits (fileText s) = .ok s := by
  have hdigits : 0 < env.maxDigits := (by decide : 0 < Numeral.maxLength).trans_le env.maxLength_le
  have hread : Json.read env.settingsLimits (fileText s) = .ok s.toJson :=
    Json.read_pretty hstorable.isField hdigits env.settingsDepth_pos (by simp [Settings.toMembers])
  rw [parse, hread]
  dsimp only
  rw [Settings.ofJson_toJson hvalid]

theorem isStorable_of_parse (h : parse env.settingsLimits t = .ok s) :
    s.IsValid ∧ s.IsStorable env.maxDigits := by
  have hdefault := Settings.isStorable_default env.maxLength_le
  unfold parse at h
  split at h
  · next v hread =>
    split at h
    · next s' hcheck =>
      cases h
      cases v with
      | object ms =>
        have hreplaces : Settings.Replaces ms {} s := Settings.ofMembers_eq_ok.1 hcheck
        cases Json.isInRange_of_read hread with
        | object hms =>
          exact ⟨Settings.isValid_of_ofJson hcheck,
            hreplaces.isStorable env.maxLength_le hdefault hms⟩
      | _ => cases hcheck
    · cases h
      exact ⟨Settings.isValid_default, hdefault⟩
  · cases h
    exact ⟨Settings.isValid_default, hdefault⟩
  · cases h

end SettingsStore

/-! ### What a client may replace -/

namespace Service

open Json Settings

variable {key : Text} {l ms ns : List (Text × Json)} {s c : Settings}
  {check : Json → Checked Json} {checks : List (Text × (Json → Checked Json))}
  {ls : List (List (Text × Json))} {v w : Json}

/-- The member of a key, checked, if it is given. -/
def given (ms : List (Text × Json)) (key : Text) (check : Json → Checked Json) :
    Checked (List (Text × Json)) :=
  match member? key ms with
  | none => .ok []
  | some v => ((check v).map fun w => [(key, w)]).inside (.field key)

/-- A check whose value is written again, or nothing. -/
def rewritten {α : Type} (check : Json → Checked α) (write : α → Json) (v : Json) : Checked Json :=
  (orNull (fun v => (check v).map write) v).map fun w => w.getD .null

/-- The keys of the settings with their first checks. -/
def updateChecks : List (Text × (Json → Checked Json)) :=
  [(pathKey, rewritten asWording .ofWording),
    (startupFileKey, rewritten asStartupFile fun f => .text f.name),
    (maxLineLengthKey, rewritten asInt .int), (maxFileSizeKey, rewritten asInt .int),
    (contextLinesKey, rewritten asInt .int), (previewLinesKey, rewritten asInt .int),
    (headingFormatKey, rewritten asHeadingFormat fun f => .text f.name)]

theorem checkUpdate_eq (ms : List (Text × Json)) : checkUpdate ms =
    (Checked.all (updateChecks.map fun g => given ms g.1 g.2)).map List.flatten := rfl

theorem given_eq_ok : given ms key check = .ok l ↔
    member? key ms = none ∧ l = [] ∨
      ∃ v w, member? key ms = some v ∧ check v = .ok w ∧ l = [(key, w)] := by
  unfold given
  cases hmember : member? key ms with
  | none => simp [eq_comm]
  | some v =>
    rw [Checked.inside_eq_ok]
    cases hcheck : check v with
    | ok w => simp [Checked.map, hcheck, eq_comm]
    | bad is => simp [Checked.map, hcheck]

theorem member?_of_given (h : given ms key check = .ok l) {key' : Text} (hkey : key' ≠ key) :
    member? key' l = none := by
  rcases given_eq_ok.1 h with ⟨-, rfl⟩ | ⟨v, w, -, -, rfl⟩
  · rfl
  · rw [member?_singleton, if_neg hkey.symm]

theorem member?_flatten_of_ne (h : Checked.all (checks.map fun g => given ms g.1 g.2) = .ok ls)
    (hkey : key ∉ checks.map Prod.fst) : member? key ls.flatten = none := by
  induction checks generalizing ls with
  | nil =>
    cases h
    rfl
  | cons g checks ih =>
    obtain ⟨l, ls, hg, hrest, rfl⟩ := Checked.all_cons_eq_ok.1 h
    rw [List.map_cons, List.mem_cons, not_or] at hkey
    rw [List.flatten_cons, member?_append, ih hrest hkey.2, member?_of_given hg hkey.1]
    rfl

/-- Checked members are found under their keys. -/
theorem member?_flatten (h : Checked.all (checks.map fun g => given ms g.1 g.2) = .ok ls)
    (hnodup : (checks.map Prod.fst).Nodup) (hg : (key, check) ∈ checks) :
    member? key ms = none ∧ member? key ls.flatten = none ∨
      ∃ v w, member? key ms = some v ∧ check v = .ok w ∧ member? key ls.flatten = some w := by
  induction checks generalizing ls with
  | nil => cases hg
  | cons g checks ih =>
    obtain ⟨l, ls, hl, hrest, rfl⟩ := Checked.all_cons_eq_ok.1 h
    obtain ⟨hnot, hnodup⟩ := List.nodup_cons.1 hnodup
    rw [List.flatten_cons, member?_append]
    rcases List.mem_cons.1 hg with rfl | hg
    · rw [member?_flatten_of_ne hrest hnot]
      rcases given_eq_ok.1 hl with ⟨hnone, rfl⟩ | ⟨v, w, hv, hw, rfl⟩
      · exact .inl ⟨hnone, rfl⟩
      · exact .inr ⟨v, w, hv, hw, by simp [member?_singleton]⟩
    · have hne : key ≠ g.1 := fun heq => hnot (heq ▸ List.mem_map_of_mem hg)
      rw [member?_of_given hl hne, Option.or_none]
      exact ih hrest hnodup hg

/-- A second check takes what a first one made of a value just as the value. -/
def Confirms {α : Type} (first : Json → Checked Json) (second : Json → Checked α) : Prop :=
  ∀ v w y, first v = .ok w → second w = .ok y → second v = .ok y

/-- What passes the first check of a key passes the second one as it was given. -/
theorem optional_of_checkUpdate {α : Type} {second : Json → Checked α} {x y : α}
    (h : checkUpdate ms = .ok ns) (hconfirms : Confirms check second)
    (hns : optional key x second ns = .ok y) (hg : (key, check) ∈ updateChecks) :
    optional key x second ms = .ok y := by
  rw [checkUpdate_eq] at h
  cases hall : Checked.all (updateChecks.map fun g => given ms g.1 g.2) with
  | bad is =>
    rw [hall] at h
    cases h
  | ok ls =>
    rw [hall] at h
    cases h
    rcases member?_flatten hall (by decide) hg with ⟨hnone, hnone'⟩ | ⟨v, w, hv, hw, hv'⟩
    · rw [optional_of_none hnone'] at hns
      rwa [optional_of_none hnone]
    · exact (optional_of_some hv).2 (hconfirms v w y hw ((optional_of_some hv').1 hns))

theorem rewritten_eq_ok {α : Type} {first : Json → Checked α} {write : α → Json} :
    rewritten first write v = .ok w ↔
      v = .null ∧ w = .null ∨ v ≠ .null ∧ ∃ a, first v = .ok a ∧ w = write a := by
  unfold rewritten
  cases v with
  | null => simp [orNull, Checked.map, eq_comm]
  | _ =>
    rw [orNull_of_ne (by simp)]
    cases first _ <;> simp [Checked.map, eq_comm]

section Confirms

variable {α β : Type} {first : Json → Checked α} {second : Json → Checked β} {write : α → Json}

theorem confirms_rewritten
    (h : ∀ v a y, first v = .ok a → second (write a) = .ok y → second v = .ok y) :
    Confirms (rewritten first write) second := by
  intro v w y hw hy
  rcases rewritten_eq_ok.1 hw with ⟨rfl, rfl⟩ | ⟨-, a, ha, rfl⟩
  · exact hy
  · exact h v a y ha hy

theorem confirms_self (hwrite : ∀ a, first (write a) = .ok a) :
    Confirms (rewritten first write) first := by
  refine confirms_rewritten fun v a y ha hy => ?_
  rw [hwrite] at hy
  rwa [← hy]

theorem confirms_orNull (hwrite : ∀ a, first (write a) = .ok a) (hnull : ∀ a, first .null ≠ .ok a) :
    Confirms (rewritten first write) (orNull first) := by
  refine confirms_rewritten fun v a y ha hy => ?_
  have hne : ∀ {u b}, first u = .ok b → u ≠ .null := by
    rintro _ b hb rfl
    exact hnull b hb
  rw [orNull_of_ne (hne (hwrite a)), hwrite] at hy
  rw [orNull_of_ne (hne ha), ha, hy]

theorem confirms_asPositive : Confirms (rewritten asInt .int) asPositive := by
  refine confirms_rewritten fun v i y hi hy => ?_
  obtain ⟨_, ⟨⟩, hpos, hy⟩ := asPositive_eq_ok.1 hy
  exact asPositive_eq_ok.2 ⟨i, hi, hpos, hy⟩

theorem confirms_asNatural : Confirms (rewritten asInt .int) asNatural := by
  refine confirms_rewritten fun v i y hi hy => ?_
  obtain ⟨_, ⟨⟩, hnonneg, hy⟩ := asNatural_eq_ok.1 hy
  exact asNatural_eq_ok.2 ⟨i, hi, hnonneg, hy⟩

end Confirms

theorem asHeadingFormat_name (f : HeadingFormat) : asHeadingFormat (.text f.name) = .ok f := by
  cases f <;> rfl

theorem asWording_ofWording (w : Wording) : asWording (.ofWording w) = .ok w := by
  cases w <;> rfl

/-- What a client may replace is what it gives, checked against the old settings. -/
theorem replaces_of_checkUpdate (h : checkUpdate ms = .ok ns) (hns : Replaces ns s c) :
    Replaces ms s c := by
  have hpath : Confirms (rewritten asWording .ofWording) (orNull asWording) :=
    confirms_orNull asWording_ofWording (by rintro _ ⟨⟩)
  have hstartup : Confirms (rewritten asStartupFile fun f => .text f.name) asStartupFile :=
    confirms_self asStartupFile_name
  have hformat : Confirms (rewritten asHeadingFormat fun f => .text f.name)
      (orNull asHeadingFormat) := confirms_orNull asHeadingFormat_name (by rintro _ ⟨⟩)
  exact ⟨optional_of_checkUpdate h hpath hns.path (by simp [updateChecks]),
    optional_of_checkUpdate h hstartup hns.startupFile (by simp [updateChecks]),
    optional_of_checkUpdate h confirms_asPositive hns.maxLineLength (by simp [updateChecks]),
    optional_of_checkUpdate h confirms_asPositive hns.maxFileSize (by simp [updateChecks]),
    optional_of_checkUpdate h confirms_asNatural hns.contextLines (by simp [updateChecks]),
    optional_of_checkUpdate h confirms_asPositive hns.previewLines (by simp [updateChecks]),
    optional_of_checkUpdate h hformat hns.headingFormat (by simp [updateChecks])⟩

end Service
end ShellConfig
