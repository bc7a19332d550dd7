import ShellConfig.Proofs.Section.Heading

/-!
# Headings, format by format

A heading is written for a name and read again. Main statements: `isSome_afterWord?_iff`, when a
name begins with the word that closes sections; `readAs?_dashed_end`, what is read then; and
`headings_readBack`, for which names and formats the lines that open and close a section are read as
what they are, with the name as their label.
-/

namespace ShellConfig

open Text

namespace Marker

variable {d : Dialect} {l r t x : Text} {w : Text} {f : HeadingFormat} {n : Nat}

/-- A line is read as a marker of a format with a label, wherever it stands. -/
def IsRead (l : Text) (f : HeadingFormat) (isEnd : Bool) (x : Text) : Prop :=
  ∃ d : Dialect, d.format = f ∧ d.isEnd = isEnd ∧ ∀ n, ofLine? ⟨n, l⟩ = some ⟨d, x, n⟩

theorem IsRead.unique {g : HeadingFormat} {b c : Bool} {y : Text} (h : IsRead l f b x)
    (h' : IsRead l g c y) : f = g ∧ b = c ∧ x = y := by
  obtain ⟨d, rfl, rfl, hd⟩ := h
  obtain ⟨d', rfl, rfl, hd'⟩ := h'
  have heq := Option.some.inj ((hd 0).symm.trans (hd' 0))
  cases heq
  exact ⟨rfl, rfl, rfl⟩

theorem readAs?_of_ofLine? (h : ofLine? ⟨n, l⟩ = some ⟨d, x, n⟩) : readAs? l d = some x := by
  unfold ofLine? at h
  split at h
  · cases h
  · obtain ⟨d', -, hd⟩ := List.exists_of_findSome?_eq_some h
    obtain ⟨x', hx, heq⟩ := Option.map_eq_some_iff.1 hd
    cases heq
    exact hx

/-! ### The word that closes sections -/

theorem afterBy?_eq_some_iff {same : Char → Char → Bool} :
    afterBy? same w t = some r ↔
      ∃ u, List.Forall₂ (fun p c => same p c = true) w u ∧ t = u ++ r := by
  induction w generalizing t with
  | nil =>
    rw [afterBy?, Option.some.injEq]
    constructor
    · rintro rfl
      exact ⟨[], .nil, rfl⟩
    · rintro ⟨_, ⟨⟩, rfl⟩
      rfl
  | cons p w ih =>
    cases t with
    | nil =>
      constructor
      · rintro ⟨⟩
      · rintro ⟨_, hu, h⟩
        cases hu
        cases h
    | cons c t =>
      constructor
      · intro h
        rw [afterBy?] at h
        split at h
        · obtain ⟨u, hu, rfl⟩ := ih.1 h
          exact ⟨c :: u, .cons ‹_› hu, rfl⟩
        · cases h
      · rintro ⟨_, hu, h⟩
        cases hu with
        | cons hc hu =>
          obtain ⟨rfl, rfl⟩ := List.cons.inj h
          rw [afterBy?, if_pos hc]
          exact ih.2 ⟨_, hu, rfl⟩

/-- A text begins, in any case, with the word that closes sections, and that ends there. -/
def BeginsWithEnd (t : Text) : Prop :=
  ∃ w r, t = w ++ r ∧ w.map Char.toLower = "end".toList ∧ atWordEnd r = true

theorem sameLetter_iff {p c : Char} (hs : p.toLower ≠ 's') (hi : p.toLower ≠ 'i') :
    sameLetter p c = true ↔ c.toLower = p.toLower := by
  simp only [sameLetter, Bool.or_eq_true, Bool.and_eq_true, beq_iff_eq, hs, hi, false_and, or_false]
  exact eq_comm

theorem forall₂_sameLetter_iff {u : Text} (hw : ∀ p ∈ w, p.toLower ≠ 's' ∧ p.toLower ≠ 'i') :
    List.Forall₂ (fun p c => sameLetter p c = true) w u ↔
      u.map Char.toLower = w.map Char.toLower := by
  induction w generalizing u with
  | nil => cases u <;> simp
  | cons p w ih =>
    obtain ⟨hp, hw⟩ := List.forall_mem_cons.1 hw
    cases u with
    | nil => simp
    | cons c u => simp [ih hw, sameLetter_iff hp.1 hp.2]

theorem isSome_afterWord?_iff : (afterWord? "End".toList t).isSome = true ↔ BeginsWithEnd t := by
  have hplain : "End".toList.all (fun p => p.toLower ≠ 's' ∧ p.toLower ≠ 'i') = true := by decide
  have hletters : ∀ u : Text, List.Forall₂ (fun p c => sameLetter p c = true) "End".toList u ↔
      u.map Char.toLower = "end".toList := fun u =>
    forall₂_sameLetter_iff fun p hp => of_decide_eq_true (List.all_eq_true.1 hplain p hp)
  rw [Option.isSome_iff_exists]
  constructor
  · rintro ⟨r, hr⟩
    obtain ⟨hafter, hend⟩ := afterWord?_eq_some_iff.1 hr
    obtain ⟨u, hu, rfl⟩ := afterBy?_eq_some_iff.1 hafter
    exact ⟨u, r, rfl, (hletters u).1 hu, hend⟩
  · rintro ⟨u, r, rfl, hu, hend⟩
    exact ⟨r, afterWord?_eq_some_iff.2 ⟨afterBy?_eq_some_iff.2 ⟨u, (hletters u).2 hu, rfl⟩, hend⟩⟩

end Marker

namespace HeadingFormat

open Marker

variable {l r t : Text}

/-! ### Lines that close sections -/

theorem trimLeft_of_trim (h : trim t = t) : trimLeft t = t := by
  refine (trimLeft_isSuffix t).eq_of_length_le ?_
  have hlength := (trimRight_isPrefix (trimLeft t)).length_le
  rw [← trim, h] at hlength
  exact hlength

/-- Between rules a name is read as the end of a section if it begins with the word for that. -/
theorem readAs?_dashed_end (hfeed : '\n' ∉ t) (h : afterWord? "End".toList (trimLeft t) = some r) :
    readAs? (dashed.startLine t) .dashedEnd = some (trim r) := by
  have hblank : allBlank t = false := by
    by_contra hblank
    rw [trimLeft_eq_nil_iff.2 (by simpa using hblank)] at h
    cases h
  have hrule : (afterRule? (dashed.startLine t)).map trimLeft =
      some (trimLeft t ++ " --- #".toList) :=
    congrArg some (trimLeft_append_of_not_blank hblank _)
  have hend : afterWord? "End".toList (trimLeft t ++ " --- #".toList) =
      some (r ++ " --- #".toList) := by
    refine (afterWord?_append ?_ ?_ (trimLeft t) "--- #".toList).trans ?_
    · decide
    · decide
    · rw [h]
      rfl
  have hfeed' : '\n' ∉ r ++ [' '] := by
    obtain ⟨u, -, hu⟩ := afterBy?_eq_some_iff.1 (afterWord?_eq_some_iff.1 h).1
    have hsub : r <:+ t := (hu ▸ List.suffix_append u r).trans (trimLeft_isSuffix t)
    simpa using fun hmem => hfeed (hsub.subset hmem)
  rw [readAs?, hrule, Option.bind_some, hend, Option.bind_some, beforeRule?_rule, Option.bind_some,
    label?_eq_some hfeed', trim_append_blank (by decide)]

theorem readAs?_customEnd (hfeed : '\n' ∉ t) :
    readAs? ("# @end ".toList ++ t) .customEnd = some (trim t) := by
  have hlabel : readAs? ("# @end ".toList ++ t) .customEnd = label? (' ' :: t) := rfl
  rw [hlabel, label?_eq_some (by simpa using hfeed)]
  rfl

theorem readAs?_hash_of_sign (hsign : (trimLeft t).head? = some '#') :
    readAs? (hash.startLine t) .hash = none := by
  change (if (trimLeft t).isEmpty = true ∨ (trimLeft t).head? = some '#' then none
    else label? (trimLeft t)) = none
  rw [if_pos (.inr hsign)]

/-! ### What is read of which name -/

/-- Brackets, a word for sections and a start sign let every name through. -/
theorem isRead_startLine {f : HeadingFormat} (hfeed : '\n' ∉ t) (hblank : allBlank t = false)
    (htrim : trim t = t) (hf : f ∈ [bracketed, labeled, custom])
    (hlength : (f.startLine t).length ≤ maxLength) : IsRead (f.startLine t) f false t := by
  have hcases : f = bracketed ∨ f = labeled ∨ f = custom := by simpa using hf
  obtain rfl | rfl | rfl := hcases
  · have hread := readAs?_bracketed hfeed hblank
    rw [htrim] at hread
    exact ⟨.bracketed, rfl, rfl, ofLine?_of_readAs? hlength rfl hread⟩
  · have hread := readAs?_labeled hfeed hblank
    rw [htrim] at hread
    exact ⟨.labeled, rfl, rfl, ofLine?_of_readAs? hlength rfl hread⟩
  · have hread := readAs?_custom hfeed hblank
    rw [htrim] at hread
    exact ⟨.customStart, rfl, rfl, ofLine?_of_readAs? hlength rfl hread⟩

/-- Rules close a section instead if the name says so. -/
theorem isRead_dashed_end (hfeed : '\n' ∉ t) (htrim : trim t = t) (hend : BeginsWithEnd t)
    (hlength : (dashed.startLine t).length ≤ maxLength) :
    ∃ x, IsRead (dashed.startLine t) dashed true x := by
  obtain ⟨r, hr⟩ := Option.isSome_iff_exists.1 (isSome_afterWord?_iff.2 hend)
  rw [← trimLeft_of_trim htrim] at hr
  exact ⟨trim r, .dashedEnd, rfl, rfl,
    ofLine?_of_readAs? hlength rfl (readAs?_dashed_end hfeed hr)⟩

theorem isRead_dashed_iff (hfeed : '\n' ∉ t) (hblank : allBlank t = false) (htrim : trim t = t)
    (hlength : (dashed.startLine t).length ≤ maxLength) :
    IsRead (dashed.startLine t) dashed false t ↔ ¬BeginsWithEnd t := by
  constructor
  · intro h hend
    obtain ⟨x, hx⟩ := isRead_dashed_end hfeed htrim hend hlength
    exact Bool.noConfusion (h.unique hx).2.1
  · intro hend
    have hnone : afterWord? "End".toList (trimLeft t) = none := by
      rw [trimLeft_of_trim htrim]
      exact Option.not_isSome_iff_eq_none.1 (mt isSome_afterWord?_iff.1 hend)
    obtain ⟨hstart, hnot⟩ := readAs?_dashed hfeed hblank hnone
    rw [htrim] at hstart
    refine ⟨.dashedStart, rfl, rfl, ofLine?_of_readAs? hlength ?_ hstart⟩
    change ((readAs? (dashed.startLine t) .dashedEnd).isNone && true) = true
    rw [hnot]
    rfl

/-- Number signs leave a name alone that begins with none, unless an earlier dialect takes it. -/
theorem isRead_hash_iff (hfeed : '\n' ∉ t) (hblank : allBlank t = false) (htrim : trim t = t)
    (hlength : (hash.startLine t).length ≤ maxLength) :
    IsRead (hash.startLine t) hash false t ↔
      t.head? ≠ some '#' ∧ readAs? (hash.startLine t) .bracketed = none ∧
        readAs? (hash.startLine t) .labeled = none := by
  constructor
  · intro h
    have hbracketed : readAs? (hash.startLine t) .bracketed = none := by
      refine Option.eq_none_iff_forall_ne_some.2 fun x hx => ?_
      have hread := ofLine?_of_readAs? hlength rfl hx
      exact HeadingFormat.noConfusion (h.unique ⟨.bracketed, rfl, rfl, hread⟩).1
    have hlabeled : readAs? (hash.startLine t) .labeled = none := by
      refine Option.eq_none_iff_forall_ne_some.2 fun x hx => ?_
      have hfirst : ((readAs? (hash.startLine t) .bracketed).isNone && true) = true := by
        rw [hbracketed]
        rfl
      have hread : ∀ n, ofLine? ⟨n, hash.startLine t⟩ = some ⟨.labeled, x, n⟩ :=
        ofLine?_of_readAs? hlength hfirst hx
      exact HeadingFormat.noConfusion (h.unique ⟨.labeled, rfl, rfl, hread⟩).1
    refine ⟨fun hsign => ?_, hbracketed, hlabeled⟩
    obtain ⟨d, hd, -, hread⟩ := h
    have hhash : d = .hash := by cases d <;> first | rfl | cases hd
    subst hhash
    have hnone := readAs?_hash_of_sign (by rwa [trimLeft_of_trim htrim])
    exact Option.some_ne_none _ ((readAs?_of_ofLine? (hread 0)).symm.trans hnone)
  · rintro ⟨hsign, hbracketed, hlabeled⟩
    have hread := readAs?_hash hfeed hblank (by rwa [trimLeft_of_trim htrim])
    rw [htrim] at hread
    refine ⟨.hash, rfl, rfl, ofLine?_of_readAs? hlength ?_ hread⟩
    change ((readAs? (hash.startLine t) .bracketed).isNone &&
      ((readAs? (hash.startLine t) .labeled).isNone && true)) = true
    rw [hbracketed, hlabeled]
    rfl

/-- The line that closes a section is always read as that. -/
theorem isRead_endLine {f : HeadingFormat} (hfeed : '\n' ∉ t) (htrim : trim t = t)
    (hend : f.endLine? t = some l) (hlength : l.length ≤ maxLength) : IsRead l f true t := by
  cases f with
  | bracketed | hash | labeled => cases hend
  | dashed =>
    obtain rfl : dashed.startLine ("End ".toList ++ t) = l := Option.some.inj hend
    have hfeed' : '\n' ∉ "End ".toList ++ t := by simpa using hfeed
    have hread := readAs?_dashed_end hfeed' (rfl : _ = some (' ' :: t))
    have hlabel : trim (' ' :: t) = t := htrim
    rw [hlabel] at hread
    exact ⟨.dashedEnd, rfl, rfl, ofLine?_of_readAs? hlength rfl hread⟩
  | custom =>
    obtain rfl : "# @end ".toList ++ t = l := Option.some.inj hend
    have hread := readAs?_customEnd hfeed
    rw [htrim] at hread
    exact ⟨.customEnd, rfl, rfl, ofLine?_of_readAs? hlength rfl hread⟩

/-- The lines written for a section are read as what they are, with the name as their label, except
between rules for a name that begins with the word for the end, and behind number signs for one that
begins with one more or that an earlier dialect reads. -/
theorem headings_readBack (hfeed : '\n' ∉ t) (hblank : allBlank t = false) (htrim : trim t = t) :
    (∀ f ∈ [bracketed, labeled, custom],
      (f.startLine t).length ≤ maxLength → IsRead (f.startLine t) f false t) ∧
    ((dashed.startLine t).length ≤ maxLength →
      (IsRead (dashed.startLine t) dashed false t ↔ ¬BeginsWithEnd t) ∧
      (BeginsWithEnd t → ∃ x, IsRead (dashed.startLine t) dashed true x)) ∧
    ((hash.startLine t).length ≤ maxLength →
      (IsRead (hash.startLine t) hash false t ↔
        t.head? ≠ some '#' ∧ readAs? (hash.startLine t) .bracketed = none ∧
          readAs? (hash.startLine t) .labeled = none)) ∧
    ∀ f ∈ [dashed, custom], ∃ l, f.endLine? t = some l ∧
      (l.length ≤ maxLength → IsRead l f true t) := by
  refine ⟨fun f hf => isRead_startLine hfeed hblank htrim hf, fun hlength =>
    ⟨isRead_dashed_iff hfeed hblank htrim hlength, fun hend =>
      isRead_dashed_end hfeed htrim hend hlength⟩,
    isRead_hash_iff hfeed hblank htrim, fun f hf => ?_⟩
  have hsome : (f.endLine? t).isSome = true := by
    have hcases : f = dashed ∨ f = custom := by simpa using hf
    obtain rfl | rfl := hcases <;> rfl
  obtain ⟨l, hl⟩ := Option.isSome_iff_exists.1 hsome
  exact ⟨l, hl, isRead_endLine hfeed htrim hl⟩

/-- Between brackets and behind number signs `end-to-end` is a name; between rules it closes a
section, and the line that is to close its own closes it. -/
theorem headings_readBack_endToEnd :
    IsRead "# [ end-to-end ]".toList bracketed false "end-to-end".toList ∧
      IsRead "## end-to-end".toList hash false "end-to-end".toList ∧
      (∃ x, IsRead "# --- end-to-end --- #".toList dashed true x) ∧
      IsRead "# --- End end-to-end --- #".toList dashed true "end-to-end".toList := by
  obtain ⟨hnamed, hdashed, hhash, hend⟩ :=
    headings_readBack (t := "end-to-end".toList) (by decide) (by decide) (by decide)
  have hword : BeginsWithEnd "end-to-end".toList :=
    ⟨"end".toList, "-to-end".toList, by decide, by decide, by decide⟩
  obtain ⟨l, hl, hread⟩ := hend dashed (by decide)
  obtain rfl : "# --- End end-to-end --- #".toList = l := Option.some.inj hl
  exact ⟨hnamed bracketed (by decide) (by decide), (hhash (by decide)).2 (by decide),
    (hdashed (by decide)).2 hword, hread (by decide)⟩

end HeadingFormat
end ShellConfig
