import ShellConfig.Proofs.Section.Partition

/-!
# Where sections end

A section that a start marker opens goes on to the line in front of the next start marker, or to an
end marker that closes it. Main statements: `cut_append_start` and `cut_eq_cons`, what becomes of a
start marker among others; and `closed_iff`, when a section ends with the end marker behind it.
-/

namespace ShellConfig

namespace Segment

variable {M : Marker} {bs ms : List Marker} {e last start : Nat}

/-! ### Open segments -/

/-- The last line of the segment that is open, given its label and the markers still to come. -/
def openEnd (label : Text) (last : Nat) : List Marker → Nat
  | [] => last
  | m :: ms =>
    if m.isEnd then
      if label = unlabeled then openEnd label last ms else m.lineNumber
    else m.lineNumber - 1

/-- The segment that is open comes first. -/
theorem cut_eq_cons (label : Text) (hstart : start ≤ last)
    (hms : ∀ m ∈ ms, start < m.lineNumber) :
    ∃ ss, cut label start last ms = ⟨label, start, openEnd label last ms⟩ :: ss := by
  induction ms with
  | nil => exact ⟨[], by rw [cut, close, if_pos hstart]; rfl⟩
  | cons m ms ih =>
    obtain ⟨hm, hms⟩ := List.forall_mem_cons.1 hms
    rw [cut, openEnd]
    split
    · split
      · exact ih hms
      · exact ⟨_, by rw [close, if_pos (Nat.le_of_lt hm), List.singleton_append]⟩
    · exact ⟨_, by rw [close, if_pos (Nat.le_sub_one_of_lt hm), List.singleton_append]⟩

/-- Whatever is open in front of a start marker, the segments go on with its own. -/
theorem cut_append_start (as : List Marker) (label : Text) (start : Nat) (hM : M.isEnd = false) :
    ∃ ss, cut label start last (as ++ M :: bs) =
      ss ++ cut (labelOf M) M.lineNumber last bs := by
  induction as generalizing label start with
  | nil =>
    refine ⟨close label start (M.lineNumber - 1), ?_⟩
    rw [List.nil_append, cut, hM, if_neg (by decide)]
  | cons m as ih =>
    rw [List.cons_append, cut]
    split
    · split
      · exact ih label start
      · obtain ⟨ss, hss⟩ := ih unlabeled (m.lineNumber + 1)
        exact ⟨close label start m.lineNumber ++ ss, by rw [hss, List.append_assoc]⟩
    · obtain ⟨ss, hss⟩ := ih (labelOf m) m.lineNumber
      exact ⟨close label start (m.lineNumber - 1) ++ ss, by rw [hss, List.append_assoc]⟩

/-- A start marker opens a segment with its label. -/
theorem mem_cut_start (as : List Marker) (label : Text) (start : Nat) (hM : M.isEnd = false)
    (hlast : M.lineNumber ≤ last) (hbs : ∀ m ∈ bs, M.lineNumber < m.lineNumber) :
    (⟨labelOf M, M.lineNumber, openEnd (labelOf M) last bs⟩ : Segment) ∈
      cut label start last (as ++ M :: bs) := by
  obtain ⟨ss, hss⟩ : ∃ ss, cut label start last (as ++ M :: bs) =
      ss ++ cut (labelOf M) M.lineNumber last bs := cut_append_start as label start hM
  obtain ⟨ss', hss'⟩ := cut_eq_cons (labelOf M) hlast hbs
  rw [hss, hss']
  exact List.mem_append_right _ List.mem_cons_self

theorem labelOf_eq_unlabeled_iff : labelOf M = unlabeled ↔ M.label = [] ∨ M.label = unlabeled := by
  unfold labelOf
  cases M.label with
  | nil => simp
  | cons c r => simp

theorem openEnd_unlabeled (last : Nat) (ms : List Marker) :
    openEnd unlabeled last ms = last ∨
      ∃ N ∈ ms, N.isEnd = false ∧ openEnd unlabeled last ms = N.lineNumber - 1 := by
  induction ms with
  | nil => exact .inl rfl
  | cons m ms ih =>
    rw [openEnd]
    split
    · rw [if_pos rfl]
      rcases ih with h | ⟨N, hN, h⟩
      · exact .inl h
      · exact .inr ⟨N, List.mem_cons_of_mem m hN, h⟩
    · next hm => exact .inr ⟨m, List.mem_cons_self, by simpa using hm, rfl⟩

/-- An unlabeled segment ends with a line in front of all markers to come only if this is the last
line or a start marker follows right behind. -/
theorem openEnd_unlabeled_eq_iff (hsorted : ms.Pairwise fun a b => a.lineNumber < b.lineNumber)
    (hms : ∀ m ∈ ms, e < m.lineNumber ∧ m.lineNumber ≤ last) :
    openEnd unlabeled last ms = e ↔
      e = last ∨ ∃ N ∈ ms, N.isEnd = false ∧ N.lineNumber = e + 1 := by
  constructor
  · rintro rfl
    rcases openEnd_unlabeled last ms with h | ⟨N, hN, hstart, h⟩
    · exact .inl h
    · have := (hms N hN).1
      exact .inr ⟨N, hN, hstart, by omega⟩
  · cases ms with
    | nil =>
      rintro (rfl | ⟨N, hN, -⟩)
      · rfl
      · cases hN
    | cons m ms =>
      have hm := hms m List.mem_cons_self
      rintro (rfl | ⟨N, hN, hstart, hnext⟩)
      · omega
      · -- the start marker is the first of all
        rcases List.mem_cons.1 hN with rfl | hN
        · rw [openEnd, hstart, if_neg (by decide)]
          omega
        · have := List.rel_of_pairwise_cons hsorted hN
          omega

end Segment

namespace Marker

variable {E N S : Marker} {limit : Int} {t : Text}

/-! ### Pairs of markers -/

/-- The markers of a text that are looked at: those on lines that are short enough. -/
def seen (limit : Int) (t : Text) : List Marker := ofLines (Line.safe limit t)

theorem sorted_seen (limit : Int) (t : Text) :
    (seen limit t).Pairwise fun a b => a.lineNumber < b.lineNumber :=
  sorted_ofLines (Line.short_sublist limit 1 t.lines)

theorem lineNumber_of_mem_seen (h : S ∈ seen limit t) :
    1 ≤ S.lineNumber ∧ S.lineNumber ≤ t.lines.length := by
  have := lineNumber_of_mem h (Line.short_sublist limit 1 t.lines)
  omega

theorem ne_nil_of_mem_seen (h : S ∈ seen limit t) : t ≠ [] := by
  rintro rfl
  obtain ⟨l, hl, hS⟩ := exists_line_of_mem h
  obtain rfl := List.mem_singleton.1 (List.mem_of_mem_filter hl)
  have hnone : ofLine? ⟨1, []⟩ = none := by decide
  rw [hnone] at hS
  cases hS

theorem mem_seen_iff_of_lt {as bs : List Marker} (h : seen limit t = as ++ S :: bs)
    (hlt : S.lineNumber < N.lineNumber) : N ∈ seen limit t ↔ N ∈ bs := by
  have hsorted := sorted_seen limit t
  rw [h, List.pairwise_append] at hsorted
  rw [h, List.mem_append, List.mem_cons]
  refine ⟨?_, fun hN => .inr (.inr hN)⟩
  rintro (hN | rfl | hN)
  · have := hsorted.2.2 N hN S List.mem_cons_self
    omega
  · omega
  · exact hN

theorem sorted_behind {as bs : List Marker} (h : seen limit t = as ++ S :: bs) :
    (S :: bs).Pairwise fun a b => a.lineNumber < b.lineNumber := by
  have hsorted := sorted_seen limit t
  rw [h, List.pairwise_append] at hsorted
  exact hsorted.2.1

theorem bounds_behind {as bs : List Marker} (h : seen limit t = as ++ S :: bs) :
    ∀ N ∈ bs, S.lineNumber < N.lineNumber ∧ N.lineNumber ≤ t.lines.length := by
  intro N hN
  have hmem : N ∈ seen limit t := by simp [h, hN]
  exact ⟨List.rel_of_pairwise_cons (sorted_behind h) hN, (lineNumber_of_mem_seen hmem).2⟩

/-- A start marker and an end marker of a text with no marker between them. -/
structure IsPair (t : Text) (limit : Int) (S E : Marker) : Prop where
  start_mem : S ∈ seen limit t
  end_mem : E ∈ seen limit t
  isStart : S.isEnd = false
  isEnd : E.isEnd = true
  lt : S.lineNumber < E.lineNumber
  noBetween : ∀ N ∈ seen limit t, ¬(S.lineNumber < N.lineNumber ∧ N.lineNumber < E.lineNumber)

theorem IsPair.exists_eq_append (h : IsPair t limit S E) :
    ∃ as bs, seen limit t = as ++ S :: E :: bs := by
  obtain ⟨as, rest, hall⟩ := List.append_of_mem h.start_mem
  have hE := (mem_seen_iff_of_lt hall h.lt).1 h.end_mem
  cases rest with
  | nil => cases hE
  | cons N bs =>
    have hsorted := sorted_behind hall
    rcases List.mem_cons.1 hE with rfl | hE
    · exact ⟨as, bs, hall⟩
    · have hbefore := List.rel_of_pairwise_cons hsorted.of_cons hE
      have hbehind := List.rel_of_pairwise_cons hsorted List.mem_cons_self
      exact absurd ⟨hbehind, hbefore⟩ (h.noBetween N (by simp [hall]))

end Marker

namespace Section

variable {S E : Marker} {as bs : List Marker} {e : Nat} {limit : Int} {t : Text}

/-! ### Closed sections -/

theorem mem_segments_start (h : Marker.seen limit t = as ++ S :: bs) (hS : S.isEnd = false) :
    (⟨Segment.labelOf S, S.lineNumber,
      Segment.openEnd (Segment.labelOf S) t.lines.length bs⟩ : Segment) ∈ segments t limit := by
  have hmem : S ∈ Marker.seen limit t := h ▸ List.mem_append_right as List.mem_cons_self
  have hempty : t.isEmpty = false := by simpa using Marker.ne_nil_of_mem_seen hmem
  have hcut := Segment.mem_cut_start as unlabeled 1 hS (Marker.lineNumber_of_mem_seen hmem).2
    fun m hm => (Marker.bounds_behind h m hm).1
  rw [← h] at hcut
  unfold segments
  rwa [hempty, if_neg (by decide)]

theorem exists_endLine_iff (h : Marker.seen limit t = as ++ S :: bs) (hS : S.isEnd = false) :
    (∃ s ∈ ofText t limit, s.startLine = S.lineNumber ∧ s.endLine = e) ↔
      Segment.openEnd (Segment.labelOf S) t.lines.length bs = e := by
  have hopen := mem_segments_start h hS
  have htiles : Segment.Tiles t.lines.length 1 (segments t limit) :=
    tiles_segments (Marker.ne_nil_of_mem_seen (h ▸ List.mem_append_right as List.mem_cons_self))
      limit
  have hle := htiles.startLine_le hopen
  constructor
  · rintro ⟨s, hs, hstart, rfl⟩
    obtain ⟨s', hs', rfl⟩ := List.mem_map.1 hs
    -- both segments hold the line of the marker
    have hthis := htiles.filter_contains hopen (Nat.le_refl S.lineNumber) hle
    have hother := htiles.filter_contains hs' (Nat.le_of_eq hstart)
      (hstart ▸ htiles.startLine_le hs')
    rw [hthis, List.cons.injEq] at hother
    exact congrArg Segment.endLine hother.1
  · rintro rfl
    exact ⟨_, List.mem_map_of_mem hopen, rfl, rfl⟩

/-- Where the segment behind an end marker goes on without a label, it ends with the marker only if
the text does or a start marker follows. -/
theorem openEnd_behind_iff (h : Marker.seen limit t = as ++ E :: bs) :
    Segment.openEnd unlabeled t.lines.length bs = E.lineNumber ↔
      E.lineNumber = t.lines.length ∨
        ∃ N ∈ Marker.seen limit t, N.isEnd = false ∧ N.lineNumber = E.lineNumber + 1 := by
  have hbounds := Marker.bounds_behind h
  rw [Segment.openEnd_unlabeled_eq_iff (Marker.sorted_behind h).of_cons hbounds]
  refine or_congr_right (exists_congr fun N => ?_)
  constructor
  · rintro ⟨hN, hstart, hnext⟩
    exact ⟨(Marker.mem_seen_iff_of_lt h (hbounds N hN).1).2 hN, hstart, hnext⟩
  · rintro ⟨hN, hstart, hnext⟩
    exact ⟨(Marker.mem_seen_iff_of_lt h (by omega)).1 hN, hstart, hnext⟩

/-- **Closed sections.** Between a start marker and the next marker, which is an end marker, there
is a section with exactly these lines if the label of the start marker is neither blank nor the one
of lines in no section; otherwise only where the section ends there anyway, with the last line or in
front of another start marker. -/
theorem closed_iff (h : Marker.IsPair t limit S E) :
    (∃ s ∈ ofText t limit, s.startLine = S.lineNumber ∧ s.endLine = E.lineNumber) ↔
      (S.label ≠ [] ∧ S.label ≠ unlabeled) ∨ E.lineNumber = t.lines.length ∨
        ∃ N ∈ Marker.seen limit t, N.isEnd = false ∧ N.lineNumber = E.lineNumber + 1 := by
  obtain ⟨as, bs, hall⟩ := h.exists_eq_append
  have hbehind : Marker.seen limit t = (as ++ [S]) ++ E :: bs := by simp [hall]
  have hlabel := Segment.labelOf_eq_unlabeled_iff (M := S)
  rw [exists_endLine_iff hall h.isStart, Segment.openEnd, if_pos h.isEnd]
  by_cases hopen : Segment.labelOf S = unlabeled
  · have hnone : ¬(S.label ≠ [] ∧ S.label ≠ unlabeled) := by
      rw [hlabel] at hopen
      tauto
    rw [hopen, if_pos rfl, openEnd_behind_iff hbehind, or_iff_right hnone]
  · rw [if_neg hopen]
    rw [hlabel, not_or] at hopen
    exact iff_of_true rfl (.inl hopen)

/-- Two pairs of markers, the second of which has the label of lines in no section. -/
def pairsText : Text :=
  "# @start Git\nalias g=git\n# @end Git\n# @start Unlabeled\nls\n# @end Unlabeled\nls".toList

theorem closed_iff_pairs :
    let S : Marker := ⟨.customStart, "Git".toList, 1⟩
    let E : Marker := ⟨.customEnd, "Git".toList, 3⟩
    Marker.IsPair pairsText 1000 S E ∧
      ((∃ s ∈ ofText pairsText 1000, s.startLine = S.lineNumber ∧ s.endLine = E.lineNumber) ↔
        (S.label ≠ [] ∧ S.label ≠ unlabeled) ∨ E.lineNumber = pairsText.lines.length ∨
          ∃ N ∈ Marker.seen 1000 pairsText, N.isEnd = false ∧ N.lineNumber = E.lineNumber + 1) := by
  have hpair : Marker.IsPair pairsText 1000 ⟨.customStart, "Git".toList, 1⟩
      ⟨.customEnd, "Git".toList, 3⟩ :=
    ⟨by decide, by decide, rfl, rfl, by decide, by decide⟩
  exact ⟨hpair, closed_iff hpair⟩

/-- An end marker does not close a section that is called unlabeled. -/
theorem unlabeled_not_closed :
    let S : Marker := ⟨.customStart, unlabeled, 4⟩
    let E : Marker := ⟨.customEnd, unlabeled, 6⟩
    Marker.IsPair pairsText 1000 S E ∧
      ¬∃ s ∈ ofText pairsText 1000, s.startLine = S.lineNumber ∧ s.endLine = E.lineNumber :=
  ⟨⟨by decide, by decide, rfl, rfl, by decide, by decide⟩, by decide⟩

end Section
end ShellConfig
