import ShellConfig.Proofs.Entry.AliasLine
import ShellConfig.Proofs.Section.Marker
import ShellConfig.Proofs.Section.Name
import ShellConfig.Proofs.Text.Pieces

/-!
# Headings that are read back

What is read of the line that opens a section in a format. Main statements: `readAs?_dashed`,
`readAs?_bracketed`, `readAs?_labeled`, `readAs?_custom` and `readAs?_hash`, that the name is read
as the label, behind nothing but number signs unless it begins with one; and `ofLine?_startLine`,
that the line is a start marker.
-/

namespace ShellConfig

open Text

namespace Marker

variable {d : Dialect} {t x : Text}

/-! ### One dialect -/

theorem ofLine?_of_readAs? (hlength : t.length ≤ maxLength)
    (hfirst : (Dialect.all.takeWhile (· ≠ d)).all (fun d' => (readAs? t d').isNone) = true)
    (hread : readAs? t d = some x) (n : Nat) : ofLine? ⟨n, t⟩ = some ⟨d, x, n⟩ := by
  obtain ⟨ds, hds⟩ : ∃ ds, Dialect.all = Dialect.all.takeWhile (· ≠ d) ++ d :: ds := by
    cases d <;> exact ⟨_, rfl⟩
  have hnone : (Dialect.all.takeWhile (· ≠ d)).findSome?
      (fun d => (readAs? t d).map fun x => (⟨d, x, n⟩ : Marker)) = none :=
    List.findSome?_eq_none_iff.2 fun d' hd' =>
      Option.map_eq_none_iff.2 (Option.isNone_iff_eq_none.1 (List.all_eq_true.1 hfirst d' hd'))
  rw [ofLine?, if_neg (Nat.not_lt.2 hlength), hds, List.findSome?_append, hnone, Option.none_or,
    List.findSome?_cons, hread]
  rfl

theorem label?_eq_some (h : '\n' ∉ t) : label? t = some (trim t) :=
  if_neg fun hmem => h ((trim_isInfix t).subset hmem)

theorem requiredLabel?_eq_some (hfeed : '\n' ∉ t) (ht : allBlank t = false) :
    requiredLabel? t = some (trim t) := by
  rw [requiredLabel?, if_neg (by simp [ht]), label?_eq_some hfeed]

end Marker

namespace HeadingFormat

open Marker

variable {t x : Text}

/-! ### Each format -/

theorem beforeRule?_rule (t : Text) :
    beforeRule? (t ++ " --- #".toList) = some (t ++ [' ']) := by
  have hsign : trimRight (t ++ " --- #".toList) = t ++ " --- ".toList ++ ['#'] := by
    have hlast : t ++ " --- #".toList = t ++ " --- ".toList ++ ['#'] := by simp
    rw [hlast, trimRight_append_of_not_blank (by decide)]
  have hrule : trimRight (t ++ " --- ".toList) = t ++ [' '] ++ "---".toList := by
    have hblank : t ++ " --- ".toList = t ++ " --".toList ++ ['-'] ++ [' '] := by simp
    rw [hblank, trimRight_append_blank (by decide), trimRight_append_of_not_blank (by decide)]
    simp
  rw [beforeRule?, hsign, before?_eq_some_iff.2 rfl, Option.map_some, Option.bind_some, hrule,
    before?_eq_some_iff.2 rfl]

/-- Between rules a name is read that does not begin with the word that closes sections. -/
theorem readAs?_dashed (hfeed : '\n' ∉ t) (ht : allBlank t = false)
    (hend : afterWord? "End".toList (trimLeft t) = none) :
    readAs? (dashed.startLine t) .dashedStart = some (trim t) ∧
      readAs? (dashed.startLine t) .dashedEnd = none := by
  have hrule : (afterRule? (dashed.startLine t)).map trimLeft =
      some (trimLeft t ++ " --- #".toList) :=
    congrArg some (trimLeft_append_of_not_blank ht _)
  have hend' : afterWord? "End".toList (trimLeft t ++ " --- #".toList) = none := by
    refine (afterWord?_append ?_ ?_ (trimLeft t) "--- #".toList).trans ?_
    · decide
    · decide
    · rw [hend, Option.map_none]
  constructor
  · have hlabel : label? (trimLeft t ++ [' ']) = some (trim t) := by
      rw [label?_eq_some, trim_append_blank (by decide), trim, trimLeft_trimLeft, trim]
      simpa using fun hmem => hfeed ((trimLeft_isSuffix t).subset hmem)
    unfold readAs?
    rw [hrule]
    refine Option.bind_eq_some_iff.2 ⟨_, rfl, ?_⟩
    rw [hend', if_neg (by simp), beforeRule?_rule]
    refine Option.bind_eq_some_iff.2 ⟨_, rfl, ?_⟩
    rw [hlabel, if_neg (by simp)]
  · rw [readAs?, hrule, Option.bind_some, hend']
    rfl

theorem readAs?_bracketed (hfeed : '\n' ∉ t) (ht : allBlank t = false) :
    readAs? (bracketed.startLine t) .bracketed = some (trim t) := by
  have hopen : ((afterHashes? (bracketed.startLine t)).map trimLeft).bind (after? ['[']) =
      some (' ' :: (t ++ " ]".toList)) := rfl
  have hclose : before? [']'] (trimRight (' ' :: (t ++ " ]".toList))) =
      some (' ' :: (t ++ [' '])) := by
    have hlast : ' ' :: (t ++ " ]".toList) = ' ' :: (t ++ [' ']) ++ [']'] := by simp
    rw [hlast, trimRight_append_of_not_blank (by decide), before?_eq_some_iff.2 rfl]
  have hlabel : trim (' ' :: (t ++ [' '])) = trim t := by
    have hspace : trim (' ' :: (t ++ [' '])) = trim (t ++ [' ']) := rfl
    rw [hspace, trim_append_blank (by decide)]
  unfold readAs?
  rw [hopen]
  refine Option.bind_eq_some_iff.2 ⟨_, rfl, Option.bind_eq_some_iff.2 ⟨_, hclose, ?_⟩⟩
  rw [requiredLabel?_eq_some, hlabel]
  · simp [hfeed]
  · simp [allBlank_append, ht]

theorem readAs?_labeled (hfeed : '\n' ∉ t) (ht : allBlank t = false) :
    readAs? (labeled.startLine t) .labeled = some (trim t) := by
  have hlabel : readAs? (labeled.startLine t) .labeled = requiredLabel? (' ' :: t) := rfl
  rw [hlabel, requiredLabel?_eq_some]
  · rfl
  · simp [hfeed]
  · simp [ht]

theorem readAs?_custom (hfeed : '\n' ∉ t) (ht : allBlank t = false) :
    readAs? (custom.startLine t) .customStart = some (trim t) := by
  have hlabel : readAs? (custom.startLine t) .customStart = requiredLabel? t := rfl
  rw [hlabel, requiredLabel?_eq_some hfeed ht]

theorem readAs?_hash (hfeed : '\n' ∉ t) (ht : allBlank t = false)
    (hsign : (trimLeft t).head? ≠ some '#') :
    readAs? (hash.startLine t) .hash = some (trim t) := by
  have hlabel : label? (trimLeft t) = some (trim t) := by
    rw [label?_eq_some, trim, trimLeft_trimLeft, trim]
    exact fun hmem => hfeed ((trimLeft_isSuffix t).subset hmem)
  have hne : trimLeft t ≠ [] := fun hnil => by
    rw [trimLeft_eq_nil_iff, ht] at hnil
    cases hnil
  unfold readAs?
  refine Option.bind_eq_some_iff.2 ⟨trimLeft t, rfl, ?_⟩
  rw [hlabel, if_neg (by simp [hne, hsign])]

theorem normalize_of_readAs?_hash (hfeed : '\n' ∉ t) (ht : SectionName.normalize t ≠ [])
    (h : readAs? (hash.startLine t) .bracketed = some x) :
    SectionName.normalize x = SectionName.normalize t := by
  obtain ⟨r, hr, h⟩ := Option.bind_eq_some_iff.1 h
  obtain ⟨b, hb, hx⟩ := Option.bind_eq_some_iff.1 h
  have hopen : trimLeft t = ['['] ++ r := after?_eq_some_iff.1 hr
  have hclose : trimRight r = b ++ [']'] := before?_eq_some_iff.1 hb
  have hname : SectionName.normalize b = SectionName.normalize t := by
    have hbracket : SectionName.normalize ['['] = [] := rfl
    have hbracket' : SectionName.normalize [']'] = [] := rfl
    rw [← SectionName.normalize_trimLeft t, hopen, SectionName.normalize_append, hbracket,
      List.nil_append, ← SectionName.normalize_trimRight r, hclose, SectionName.normalize_append,
      hbracket', List.append_nil]
  have hinner : b <:+: t := by
    have hr : r <:+: t := (hopen ▸ List.suffix_append ['['] r).isInfix.trans
      (trimLeft_isSuffix t).isInfix
    exact (hclose ▸ List.prefix_append b [']']).isInfix.trans
      ((trimRight_isPrefix r).isInfix.trans hr)
  rw [requiredLabel?_eq_some (fun hmem => hfeed (hinner.subset hmem))
    (SectionName.allBlank_of_normalize (hname ▸ ht)), Option.some.injEq] at hx
  rw [← hx, SectionName.normalize_trim, hname]

/-! ### All formats -/

/-- A name that a heading of a format does not turn into something else: between rules it does not
begin with the word that closes sections, and behind number signs it does not begin with one more.
-/
structure Shows (f : HeadingFormat) (t : Text) : Prop where
  notEnd : f = .dashed → afterWord? "End".toList (trimLeft t) = none
  notSign : f = .hash → (trimLeft t).head? ≠ some '#'

theorem Shows.of_append_return {f : HeadingFormat} (ht : allBlank t = false)
    (h : f.Shows (t ++ ['\r'])) : f.Shows t where
  notEnd hf := by
    have hend := h.notEnd hf
    rw [trimLeft_append_of_not_blank ht, afterWord?_append (by decide) (by decide),
      Option.map_eq_none_iff] at hend
    exact hend
  notSign hf hsign := h.notSign hf <| by
    rw [trimLeft_append_of_not_blank ht, List.head?_append, hsign]
    rfl

/-- The line that opens a section is a start marker. Its label is the name, as far as names are
compared, or what stands behind a word for sections with which the name begins. -/
theorem ofLine?_startLine {f : HeadingFormat} (hlength : (f.startLine t).length ≤ maxLength)
    (hfeed : '\n' ∉ t) (ht : SectionName.normalize t ≠ []) (hshows : f.Shows t) :
    ∃ d x, (∀ n, ofLine? ⟨n, f.startLine t⟩ = some ⟨d, x, n⟩) ∧ d.isEnd = false ∧
      (SectionName.normalize x = SectionName.normalize t ∨
        f = .hash ∧ readAs? (f.startLine t) .labeled = some x) := by
  have hblank := SectionName.allBlank_of_normalize ht
  have htrim := SectionName.normalize_trim t
  cases f with
  | dashed =>
    obtain ⟨hstart, hend⟩ := readAs?_dashed hfeed hblank (hshows.notEnd rfl)
    refine ⟨.dashedStart, trim t, ofLine?_of_readAs? hlength ?_ hstart, rfl, .inl htrim⟩
    change ((readAs? (dashed.startLine t) .dashedEnd).isNone && true) = true
    rw [hend]
    rfl
  | bracketed =>
    have hread := readAs?_bracketed hfeed hblank
    exact ⟨.bracketed, trim t, ofLine?_of_readAs? hlength rfl hread, rfl, .inl htrim⟩
  | labeled =>
    have hread := readAs?_labeled hfeed hblank
    exact ⟨.labeled, trim t, ofLine?_of_readAs? hlength rfl hread, rfl, .inl htrim⟩
  | custom =>
    have hread := readAs?_custom hfeed hblank
    exact ⟨.customStart, trim t, ofLine?_of_readAs? hlength rfl hread, rfl, .inl htrim⟩
  | hash =>
    -- the name may look like one in brackets, or like one behind a word for sections
    cases hbracketed : readAs? (hash.startLine t) .bracketed with
    | some x =>
      exact ⟨.bracketed, x, ofLine?_of_readAs? hlength rfl hbracketed, rfl,
        .inl (normalize_of_readAs?_hash hfeed ht hbracketed)⟩
    | none =>
      cases hlabeled : readAs? (hash.startLine t) .labeled with
      | some x =>
        refine ⟨.labeled, x, ofLine?_of_readAs? hlength ?_ hlabeled, rfl, .inr ⟨rfl, rfl⟩⟩
        change ((readAs? (hash.startLine t) .bracketed).isNone && true) = true
        rw [hbracketed]
        rfl
      | none =>
        have hread := readAs?_hash hfeed hblank (hshows.notSign rfl)
        refine ⟨.hash, trim t, ofLine?_of_readAs? hlength ?_ hread, rfl, .inl htrim⟩
        change ((readAs? (hash.startLine t) .bracketed).isNone &&
          ((readAs? (hash.startLine t) .labeled).isNone && true)) = true
        rw [hbracketed, hlabeled]
        rfl

end HeadingFormat
end ShellConfig
