import ShellConfig.Proofs.Section.Label
import Mathlib.Data.List.Chain

/-!
# Sections cover a text

The sections of a text are a partition of its lines. Main statements: `tiles_cut`, that segments are
cut one behind the other; `Tiles.flatMap_linesOf`, that they hold every line once; and
`ofText_partition`, what this means for the sections of a text.
-/

namespace ShellConfig

open Text

namespace Segment

variable {e last start : Nat} {ss : List Segment} {ms : List Marker}

/-! ### Tilings -/

/-- Segments that cover the lines from `start` to `last` one behind the other, each with at least
one line. -/
inductive Tiles (last : Nat) : Nat → List Segment → Prop
  | nil : Tiles last (last + 1) []
  | cons {start e : Nat} {ss : List Segment} (label : Text) (h : start ≤ e)
      (hss : Tiles last (e + 1) ss) : Tiles last start (⟨label, start, e⟩ :: ss)

/-- A range that is closed in front of a tiling is a part of it, or there is nothing to close. -/
theorem Tiles.close_append (label : Text) (hstart : start ≤ e + 1) (h : Tiles last (e + 1) ss) :
    Tiles last start (close label start e ++ ss) := by
  unfold close
  split
  · next hle => exact .cons label hle h
  · next hlt =>
    have hnext : start = e + 1 := by omega
    subst hnext
    exact h

/-- Segments are cut one behind the other. The induction is on the markers to come, which all stand
behind the line that the open segment begins with, or on it. -/
theorem tiles_cut (label : Text) (hpos : 0 < start) (hstart : start ≤ last + 1)
    (hsorted : ms.Pairwise fun a b => a.lineNumber < b.lineNumber)
    (hms : ∀ m ∈ ms, start ≤ m.lineNumber ∧ m.lineNumber ≤ last) :
    Tiles last start (cut label start last ms) := by
  induction ms generalizing label start with
  | nil =>
    rw [cut, ← List.append_nil (close label start last)]
    exact Tiles.nil.close_append label hstart
  | cons m ms ih =>
    obtain ⟨hm, hsorted⟩ := List.pairwise_cons.1 hsorted
    have hhere := hms m List.mem_cons_self
    have hrest : ∀ m' ∈ ms, m.lineNumber < m'.lineNumber ∧ m'.lineNumber ≤ last := by
      intro m' hm'
      exact ⟨hm m' hm', (hms m' (List.mem_cons_of_mem m hm')).2⟩
    rw [cut]
    by_cases hend : m.isEnd = true
    · rw [if_pos hend]
      by_cases hlabel : label = unlabeled
      · -- nothing is open that the marker could close
        rw [if_pos hlabel]
        apply ih label hpos hstart hsorted
        intro m' hm'
        have := hrest m' hm'
        omega
      · rw [if_neg hlabel]
        apply Tiles.close_append label (by omega)
        apply ih unlabeled (by omega) (by omega) hsorted
        intro m' hm'
        have := hrest m' hm'
        omega
    · rw [if_neg hend]
      have hbefore : m.lineNumber - 1 + 1 = m.lineNumber := by omega
      apply Tiles.close_append label (by omega)
      rw [hbefore]
      apply ih (labelOf m) (by omega) (by omega) hsorted
      intro m' hm'
      have := hrest m' hm'
      omega

namespace Tiles

theorem start_le (h : Tiles last start ss) : start ≤ last + 1 := by
  induction h with
  | nil => exact Nat.le_refl _
  | cons label hle _ ih => omega

theorem head? (h : Tiles last start ss) (hstart : start ≤ last) :
    ss.head?.map (·.startLine) = some start := by
  cases h with
  | nil => omega
  | cons label _ _ => rfl

theorem startLine_le (h : Tiles last start ss) {s : Segment} (hs : s ∈ ss) :
    s.startLine ≤ s.endLine := by
  induction h with
  | nil => cases hs
  | cons label hle _ ih =>
    rcases List.mem_cons.1 hs with rfl | hs
    · exact hle
    · exact ih hs

theorem start_le_of_mem (h : Tiles last start ss) {s : Segment} (hs : s ∈ ss) :
    start ≤ s.startLine := by
  induction h with
  | nil => cases hs
  | cons label hle _ ih =>
    rcases List.mem_cons.1 hs with rfl | hs
    · exact Nat.le_refl _
    · have := ih hs
      omega

theorem endLine_le (h : Tiles last start ss) {s : Segment} (hs : s ∈ ss) : s.endLine ≤ last := by
  induction h with
  | nil => cases hs
  | cons label hle hss ih =>
    rcases List.mem_cons.1 hs with rfl | hs
    · have := hss.start_le
      dsimp only
      omega
    · exact ih hs

theorem exists_mem_of_le (h : Tiles last start ss) {n : Nat} (hfrom : start ≤ n) (hto : n ≤ last) :
    ∃ s ∈ ss, s.startLine ≤ n ∧ n ≤ s.endLine := by
  induction h with
  | nil => omega
  | @cons start e ss label hle hss ih =>
    by_cases hn : n ≤ e
    · exact ⟨⟨label, start, e⟩, List.mem_cons_self, hfrom, hn⟩
    · obtain ⟨s, hs, hin⟩ := ih (by omega)
      exact ⟨s, List.mem_cons_of_mem _ hs, hin⟩

theorem filter_contains (h : Tiles last start ss) {s : Segment} (hs : s ∈ ss) {n : Nat}
    (hfrom : s.startLine ≤ n) (hto : n ≤ s.endLine) : ss.filter (·.contains n) = [s] := by
  have hself : s.contains n = true := (Section.contains_iff s n).2 ⟨hfrom, hto⟩
  induction h with
  | nil => cases hs
  | cons label hle hss ih =>
    rcases List.mem_cons.1 hs with rfl | hs
    · -- all others begin behind the first segment
      rw [List.filter_cons, if_pos hself, List.filter_eq_nil_iff.2]
      intro s' hs' hn
      have := hss.start_le_of_mem hs'
      have := (Section.contains_iff s' n).1 hn
      dsimp only at hto
      omega
    · rw [List.filter_cons, if_neg, ih hs]
      intro hn
      have := hss.start_le_of_mem hs
      have := ((Section.contains_iff _ n).1 hn).2
      dsimp only at this
      omega

theorem isChain (h : Tiles last start ss) :
    ss.IsChain fun a b => b.startLine = a.endLine + 1 := by
  induction h with
  | nil => exact .nil
  | cons label _ hss ih =>
    cases hss with
    | nil => exact .singleton _
    | cons label' _ _ => exact .cons_cons rfl ih

theorem getLast? (h : Tiles last start ss) (hstart : start ≤ last) :
    ss.getLast?.map (·.endLine) = some last := by
  induction h with
  | nil => omega
  | @cons _ e ss label _ hss ih =>
    cases hss with
    | nil => rfl
    | cons label' hle' hss' =>
      have hlast := hss'.start_le
      rw [List.getLast?_cons_cons]
      exact ih (by omega)

end Tiles

/-! ### Lines of segments -/

/-- The lines of a segment, among all lines. -/
def linesOf {α : Type} (s : Segment) (ls : List α) : List α :=
  (ls.drop (s.startLine - 1)).take (s.endLine + 1 - s.startLine)

theorem mem_of_mem_linesOf {α : Type} (s : Segment) {ls : List α} {a : α} (h : a ∈ s.linesOf ls) :
    a ∈ ls := List.mem_of_mem_drop (List.mem_of_mem_take h)

/-- The lines of a segment have its numbers. -/
theorem contains_of_mem_linesOf (s : Segment) {ts : List Text} {l : Line} (hs : 1 ≤ s.startLine)
    (hl : l ∈ s.linesOf (Line.numbered 1 ts)) : s.contains l.number = true := by
  obtain ⟨i, hi, rfl⟩ := List.mem_iff_getElem.1 hl
  unfold linesOf at hi ⊢
  rw [List.length_take] at hi
  rw [Section.contains_iff, List.getElem_take, List.getElem_drop]
  simp only [Line.numbered, List.getElem_map, List.getElem_zipIdx]
  omega

theorem Tiles.length_linesOf {α : Type} {ls : List α} (h : Tiles ls.length start ss)
    (hpos : 0 < start) {s : Segment} (hs : s ∈ ss) :
    (s.linesOf ls).length = s.endLine + 1 - s.startLine := by
  have := h.start_le_of_mem hs
  have := h.endLine_le hs
  unfold linesOf
  rw [List.length_take, List.length_drop]
  omega

theorem Tiles.linesOf_ne_nil {α : Type} {ls : List α} (h : Tiles ls.length start ss)
    (hpos : 0 < start) {s : Segment} (hs : s ∈ ss) : s.linesOf ls ≠ [] := by
  apply List.ne_nil_of_length_pos
  have := h.startLine_le hs
  rw [h.length_linesOf hpos hs]
  omega

/-- The segments of a tiling hold every line from the first on once, in order. -/
theorem Tiles.flatMap_linesOf {α : Type} {ls : List α} (h : Tiles ls.length start ss)
    (hpos : 0 < start) : ss.flatMap (·.linesOf ls) = ls.drop (start - 1) := by
  induction ss generalizing start with
  | nil =>
    cases h with
    | nil => simp
  | cons s ss ih =>
    cases h with
    | @cons _ e _ label hle hss =>
      have hskip : start - 1 + (e + 1 - start) = e + 1 - 1 := by omega
      rw [List.flatMap_cons, ih hss (by omega), ← hskip, ← List.drop_drop]
      exact List.take_append_drop _ _

end Segment

namespace Section

variable {es : List Entry} {ss : List Segment} {ts : List Text}

/-! ### Sections -/

/-- Sections that are a partition of some lines: they begin with the first line and end with the
last, each has a line and begins right behind the one before, and together their texts are that of
the lines. -/
structure IsPartition (ss : List Section) (ts : List Text) : Prop where
  first : ss.head?.map (·.startLine) = some 1
  nonempty : ∀ s ∈ ss, s.startLine ≤ s.endLine
  adjacent : ss.IsChain fun a b => b.startLine = a.endLine + 1
  last : ss.getLast?.map (·.endLine) = some ts.length
  content : join ['\n'] (ss.map (·.content)) = join ['\n'] ts

theorem content_ofSegment (ls : List Line) (es : List Entry) (s : Segment) :
    (ofSegment ls es s).content = join ['\n'] ((s.linesOf ls).map (·.text)) := rfl

theorem join_contents (h : Segment.Tiles ts.length 1 ss) :
    join ['\n'] ((ss.map (ofSegment (Line.numbered 1 ts) es)).map (·.content)) =
      join ['\n'] ts := by
  have htexts : (Line.numbered 1 ts).map (·.text) = ts := by
    unfold Line.numbered
    rw [List.map_map]
    exact List.zipIdx_map_fst 1 ts
  have hgroup : ∀ s : Segment,
      ((s.linesOf (Line.numbered 1 ts)).map (·.text)) = s.linesOf ts := by
    intro s
    unfold Segment.linesOf
    rw [List.map_take, List.map_drop, htexts]
  have hcontents : (ss.map (ofSegment (Line.numbered 1 ts) es)).map (·.content) =
      (ss.map (·.linesOf ts)).map (join ['\n']) := by
    rw [List.map_map, List.map_map]
    refine List.map_congr_left fun s _ => ?_
    show (ofSegment (Line.numbered 1 ts) es s).content = join ['\n'] (s.linesOf ts)
    rw [content_ofSegment, hgroup]
  have hne : ∀ g ∈ ss.map (·.linesOf ts), g ≠ [] := by
    intro g hg
    obtain ⟨s, hs, rfl⟩ := List.mem_map.1 hg
    exact h.linesOf_ne_nil Nat.one_pos hs
  have hall := h.flatMap_linesOf Nat.one_pos
  rw [hcontents, ← join_flatten _ hne, ← List.flatMap_def, hall]
  rfl

theorem isPartition_of_tiles (h : Segment.Tiles ts.length 1 ss) (hts : 1 ≤ ts.length)
    (es : List Entry) : IsPartition (ss.map (ofSegment (Line.numbered 1 ts) es)) ts where
  first := by
    rw [List.head?_map, Option.map_map]
    exact h.head? hts
  nonempty := by
    intro s hs
    obtain ⟨s', hs', rfl⟩ := List.mem_map.1 hs
    exact h.startLine_le hs'
  adjacent := (List.isChain_map _).2 h.isChain
  last := by
    rw [List.getLast?_map, Option.map_map]
    exact h.getLast? hts
  content := join_contents h

/-- The segments of a text that is not empty tile its lines. -/
theorem tiles_segments {t : Text} (ht : t ≠ []) (limit : Int) :
    Segment.Tiles t.lines.length 1 (segments t limit) := by
  have hsub : (Line.safe limit t).Sublist (Line.numbered 1 t.lines) := List.filter_sublist
  have hempty : t.isEmpty = false := by simpa using ht
  unfold segments
  rw [hempty, if_neg (by decide)]
  apply Segment.tiles_cut unlabeled Nat.one_pos (by omega) (Marker.sorted_ofLines hsub)
  intro m hm
  have := Marker.lineNumber_of_mem hm hsub
  omega

/-- **The sections of a text.** The empty text has none, and those of every other text are a
partition of its lines, whatever the limit. -/
theorem ofText_partition (limit : Int) :
    ofText [] limit = [] ∧ ∀ c t, IsPartition (ofText (c :: t) limit) (lines (c :: t)) := by
  refine ⟨rfl, fun c t => ?_⟩
  have hlines : 1 ≤ (lines (c :: t)).length := by
    rw [lines_eq, length_dropReturns]
    exact List.length_pos_iff.2 (splitOn_ne_nil _ _)
  exact isPartition_of_tiles (tiles_segments (List.cons_ne_nil c t) limit) hlines _

/-- An end marker on the last line leaves no empty section behind it. -/
example : (segments "x\n# @start A\ny\n# @end A".toList).map (fun s => (s.startLine, s.endLine)) =
    [(1, 1), (2, 4)] := rfl

end Section
end ShellConfig
