import ShellConfig.Proofs.Section.Label
import ShellConfig.Section.Name
import Mathlib.Tactic.ByContra

/-!
# Where a section ends

The section that fits a name is opened by a marker and ends before the next one, or with the text.
Main statements: `find?_eq_some`, which marker opens it; `endBefore_bounds`, where it ends; and
`labelAfter_of_find?`, that its label is the one that is open at its end.
-/

namespace ShellConfig

open Text

namespace Marker

variable {n : Nat} {limit : Int} {ts : List Text}

/-! ### All markers of a text -/

/-- No marker is lost where lines are passed over that are too long for markers. -/
theorem ofLines_short (hlimit : (maxLength : Int) ≤ limit) (n : Nat) (ts : List Text) :
    ofLines (Line.short limit n ts) = ofLines (Line.numbered n ts) := by
  unfold ofLines Line.short
  rw [List.filterMap_filter]
  refine List.filterMap_congr fun l _ => ?_
  cases hfits : Line.fits limit l with
  | true => rfl
  | false =>
    have hlength : maxLength < l.text.length := by
      unfold Line.fits at hfits
      rw [decide_eq_false_iff_not] at hfits
      omega
    exact (ofLine?_eq_none_iff.2 (.inl hlength)).symm

theorem all_eq (t : Text) : all t = ofLines (Line.numbered 1 t.lines) := rfl

theorem filter_all (t : Text) (hn : n ≤ t.lines.length) :
    (all t).filter (·.lineNumber ≤ n) = ofLines (Line.numbered 1 (t.lines.take n)) := by
  have hlength : (t.lines.take n).length = n := by
    rw [List.length_take, Nat.min_eq_left hn]
  have hsplit : all t = ofLines (Line.numbered 1 (t.lines.take n)) ++
      ofLines (Line.numbered (1 + n) (t.lines.drop n)) := by
    rw [all_eq, ← ofLines_append]
    conv_lhs => rw [← List.take_append_drop n t.lines, Line.numbered_append, hlength]
  rw [hsplit, List.filter_append, List.filter_eq_self.2, List.filter_eq_nil_iff.2, List.append_nil]
  · intro m hm
    have := lineNumber_of_mem hm (List.Sublist.refl _)
    simp only [decide_eq_true_eq]
    omega
  · intro m hm
    have := lineNumber_of_mem hm (List.Sublist.refl _)
    simp only [decide_eq_true_eq]
    omega

theorem labelAfter_append (label : Text) (as : List Marker) (m : Marker) (hm : m.isEnd = false) :
    labelAfter label (as ++ [m]) = Segment.labelOf m := by
  induction as generalizing label with
  | nil => rw [List.nil_append, labelAfter, hm]; rfl
  | cons a as ih => exact ih _

end Marker

namespace SectionMatch

variable {t name : Text} {m : SectionMatch} {last e : Nat} {M : Marker} {ms : List Marker}

/-! ### Ends of sections -/

/-- The last line before some markers, or the last line of all. -/
def endBefore (last : Nat) : List Marker → Nat
  | [] => last
  | m :: _ => m.lineNumber - 1

theorem map_fst_withEnds (last : Nat) (ms : List Marker) :
    (withEnds last ms).map Prod.fst = ms := by
  fun_induction withEnds last ms with
  | case1 => rfl
  | case2 => rfl
  | case3 m n ms ih => rw [List.map_cons, ih]

theorem eq_endBefore_of_withEnds {ps qs : List (Marker × Nat)}
    (h : withEnds last ms = ps ++ (M, e) :: qs) : e = endBefore last (qs.map Prod.fst) := by
  fun_induction withEnds last ms generalizing ps with
  | case1 => simp at h
  | case2 m =>
    cases ps with
    | nil =>
      obtain ⟨hhead, rfl⟩ := List.cons.inj h
      exact (Prod.mk.inj hhead).2.symm
    | cons p ps => simp at h
  | case3 m n ms ih =>
    cases ps with
    | nil =>
      obtain ⟨hhead, rfl⟩ := List.cons.inj h
      rw [map_fst_withEnds]
      exact (Prod.mk.inj hhead).2.symm
    | cons p ps => exact ih (List.cons.inj h).2

/-- No section fits a name where none of the markers that open one does. -/
theorem find?_eq_none_iff : find? t name = none ↔
    ∀ M ∈ Marker.all t, M.isEnd = false → SectionName.score name M.label = 0 := by
  unfold find?
  simp only [Option.map_eq_none_iff, firstBest_eq_none_iff, List.filter_eq_nil_iff]
  conv_rhs => rw [← map_fst_withEnds (lastLine t) (Marker.all t), List.forall_mem_map]
  refine forall₂_congr fun p _ => ?_
  cases p.1.isEnd <;> simp

theorem length_split (t : Text) : ((LineEnding.of t).split t).length = t.lines.length := by
  rw [LineEnding.lines_eq_trimmed t, LineEnding.length_trimmed]

theorem lastLine_le (t : Text) : lastLine t ≤ t.lines.length := by
  have hlength := length_split t
  unfold lastLine
  dsimp only
  split <;> omega

/-- The last line is not the empty one behind the ending of a text, so that markers come before. -/
theorem lineNumber_le_lastLine (h : M ∈ Marker.all t) : M.lineNumber ≤ lastLine t := by
  obtain ⟨l, hl, hM⟩ := Marker.exists_line_of_mem h
  rw [Marker.lineNumber_of_ofLine? hM]
  have hlength := length_split t
  have hbounds := Line.number_of_mem hl
  unfold lastLine
  dsimp only
  split
  · next hempty =>
    by_contra hlast
    have hplace : l.number - 1 = t.lines.length - 1 := by omega
    have htext := Line.getElem?_of_mem hl
    rw [hplace, ← List.getLast?_eq_getElem?, LineEnding.lines_eq_trimmed t,
      LineEnding.getLast?_trimmed, hempty.2, Option.some.injEq] at htext
    have hnone : Marker.ofLine? l = none := Marker.ofLine?_eq_none_iff.2 <| .inr <|
      Marker.readAs?_of_not_commented (by rw [← htext]; rfl)
    rw [hnone] at hM
    cases hM
  · omega

/-- The section that fits a name is opened by a start marker that fits, better than each start
marker before it and no worse than those behind it, and ends before the next marker. -/
theorem find?_eq_some (h : find? t name = some m) :
    ∃ as M bs, Marker.all t = as ++ M :: bs ∧ M.isEnd = false ∧
      m = ⟨M.label, M.lineNumber, endBefore (lastLine t) bs, SectionName.score name M.label⟩ ∧
      0 < m.score ∧
      (∀ N ∈ as, N.isEnd = false → SectionName.score name N.label < m.score) ∧
      ∀ N ∈ bs, N.isEnd = false → SectionName.score name N.label ≤ m.score := by
  obtain ⟨⟨M, e⟩, hbest, rfl⟩ := Option.map_eq_some_iff.1 h
  obtain ⟨ps, qs, hsplit, hps, hqs⟩ := exists_of_firstBest hbest
  -- the markers that are no candidates close sections or do not fit at all
  obtain ⟨ps', rest, hall, rfl, hrest⟩ := List.filter_eq_append_iff.1 hsplit
  obtain ⟨skipped, qs', rfl, hskipped, hM, rfl⟩ := List.filter_eq_cons_iff.1 hrest
  simp only [Bool.and_eq_true, Bool.not_eq_true', decide_eq_true_eq] at hM
  simp only [List.mem_filter, Bool.and_eq_true, Bool.not_eq_true', decide_eq_true_eq] at hps hqs
  rw [← List.append_assoc] at hall
  have hmarkers := congrArg (List.map Prod.fst) hall
  rw [map_fst_withEnds, List.map_append, List.map_cons] at hmarkers
  refine ⟨_, M, _, hmarkers, hM.1, ?_, hM.2, ?_, ?_⟩
  · rw [← eq_endBefore_of_withEnds hall]
  · intro N hN hstart
    obtain ⟨p, hp, rfl⟩ := List.mem_map.1 hN
    dsimp only
    by_cases hscore : 0 < SectionName.score name p.1.label
    · rcases List.mem_append.1 hp with hp | hp
      · exact hps p ⟨hp, hstart, hscore⟩
      · exact absurd (by simp [hstart, hscore]) (hskipped p hp)
    · omega
  · intro N hN hstart
    obtain ⟨p, hp, rfl⟩ := List.mem_map.1 hN
    dsimp only
    by_cases hscore : 0 < SectionName.score name p.1.label
    · exact hqs p ⟨hp, hstart, hscore⟩
    · omega

theorem endBefore_bounds {as bs : List Marker} (h : Marker.all t = as ++ M :: bs) :
    0 < M.lineNumber ∧ M.lineNumber ≤ endBefore (lastLine t) bs ∧
      endBefore (lastLine t) bs ≤ t.lines.length ∧
      (∀ N ∈ as, N.lineNumber < M.lineNumber) ∧
      ∀ N ∈ bs, endBefore (lastLine t) bs < N.lineNumber := by
  have hsorted := Marker.sorted_ofLines (List.Sublist.refl (Line.numbered 1 t.lines))
  rw [← Marker.all_eq, h, List.pairwise_append, List.pairwise_cons] at hsorted
  obtain ⟨-, ⟨hMbs, hbs⟩, has⟩ := hsorted
  have hmem : ∀ N ∈ as ++ M :: bs, 0 < N.lineNumber ∧ N.lineNumber ≤ t.lines.length := by
    intro N hN
    rw [← h] at hN
    have := Marker.lineNumber_of_mem hN (List.Sublist.refl _)
    omega
  have hpos := (hmem M (by simp)).1
  have hbefore : ∀ N ∈ as, N.lineNumber < M.lineNumber := fun N hN => has N hN M List.mem_cons_self
  cases bs with
  | nil => exact ⟨hpos, lineNumber_le_lastLine (by rw [h]; simp), lastLine_le t, hbefore, by simp⟩
  | cons N bs =>
    have hN := hMbs N List.mem_cons_self
    have hNlast := hmem N (by simp)
    refine ⟨hpos, by rw [endBefore]; omega, by rw [endBefore]; omega, hbefore, fun N' hN' => ?_⟩
    rw [endBefore]
    rcases List.mem_cons.1 hN' with rfl | hN'
    · omega
    · have := (List.pairwise_cons.1 hbs).1 N' hN'
      omega

theorem labelAfter_of_find? (h : find? t name = some m) :
    0 < m.endLine ∧ m.endLine ≤ t.lines.length ∧
      Marker.labelAfter unlabeled (Marker.ofLines (Line.numbered 1 (t.lines.take m.endLine))) =
        if m.label.isEmpty then unlabeled else m.label := by
  obtain ⟨as, M, bs, hall, hM, hm, -⟩ := find?_eq_some h
  obtain ⟨hpos, hle, hend, has, hbs⟩ := endBefore_bounds hall
  obtain ⟨hlabel, hlast⟩ : m.label = M.label ∧ m.endLine = endBefore (lastLine t) bs := by
    rw [hm]
    exact ⟨rfl, rfl⟩
  rw [← hlast] at hle hend hbs
  refine ⟨by omega, hend, ?_⟩
  -- the markers up to the end are those up to the one that opens the section
  have hmarkers : Marker.ofLines (Line.numbered 1 (t.lines.take m.endLine)) = as ++ [M] := by
    have happend : as ++ M :: bs = (as ++ [M]) ++ bs := by simp
    rw [← Marker.filter_all t hend, hall, happend, List.filter_append, List.filter_eq_self.2,
      List.filter_eq_nil_iff.2, List.append_nil]
    · intro N hN
      have := hbs N hN
      simp only [decide_eq_true_eq]
      omega
    · intro N hN
      rw [List.mem_append, List.mem_singleton] at hN
      simp only [decide_eq_true_eq]
      rcases hN with hN | rfl
      · have := has N hN
        omega
      · exact hle
  rw [hmarkers, Marker.labelAfter_append _ _ _ hM, Segment.labelOf, hlabel]

end SectionMatch
end ShellConfig
