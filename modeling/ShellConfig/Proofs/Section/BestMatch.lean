import ShellConfig.Proofs.Section.Closed
import ShellConfig.Proofs.Section.Find
import ShellConfig.Proofs.Section.LabelWalk

/-!
# The section that fits a name best

New lines are written at the end of the section that fits a name best, so this section must be one
of those that the text falls into. Main statements: `exists_section`, that the section of a start
marker goes on at least to the next marker; and `find?_isBest`, which section is found for a name,
and where it lies.
-/

namespace ShellConfig

open Text

namespace SectionMatch

variable {t name : Text} {m : SectionMatch}

/-! ### Sections of start markers -/

/-- The segment that is open goes on at least to the line before the next marker. The induction is
on the markers to come: an end marker closes nothing where no label is open, and then the segment
goes on behind it. -/
theorem endBefore_le_openEnd (label : Text) {last : Nat} {ms : List Marker}
    (hsorted : ms.Pairwise fun a b => a.lineNumber < b.lineNumber)
    (hms : ∀ m ∈ ms, m.lineNumber ≤ last) : endBefore last ms ≤ Segment.openEnd label last ms := by
  induction ms with
  | nil => exact Nat.le_refl last
  | cons m ms ih =>
    obtain ⟨hhere, hms⟩ := List.forall_mem_cons.1 hms
    rw [Segment.openEnd, endBefore]
    split
    · split
      · refine Nat.le_trans ?_ (ih hsorted.of_cons hms)
        cases ms with
        | nil =>
          rw [endBefore]
          omega
        | cons m' ms =>
          have := List.rel_of_pairwise_cons hsorted List.mem_cons_self
          rw [endBefore]
          omega
      · exact Nat.sub_le _ 1
    · exact Nat.le_refl _

/-! ### The best match -/

/-- A section that is the one of a text which fits a name best. It is opened by the first of the
start markers with the highest score, and goes on over lines that are no markers up to the next one
or the last line. Among the sections that the text falls into, a single one holds all these lines;
it begins with the marker and has its label. -/
structure IsBest (t name : Text) (m : SectionMatch) : Prop where
  pos : 0 < m.score
  heading : ∃ as M bs, Marker.all t = as ++ M :: bs ∧ M.isEnd = false ∧
    M.lineNumber = m.startLine ∧ M.label = m.label ∧ SectionName.score name M.label = m.score ∧
    (∀ N ∈ as, N.isEnd = false → SectionName.score name N.label < m.score) ∧
    ∀ N ∈ bs, N.isEnd = false → SectionName.score name N.label ≤ m.score
  start_le : m.startLine ≤ m.endLine
  end_le : m.endLine ≤ t.lines.length
  unmarked : ∀ l ∈ Line.all t, m.startLine < l.number → l.number ≤ m.endLine →
    Marker.ofLine? l = none
  upTo : m.endLine = lastLine t ∨ ∃ N ∈ Marker.all t, N.lineNumber = m.endLine + 1
  inside : ∃ s : Section, s.startLine = m.startLine ∧
    s.label = (if allBlank m.label then unlabeled else m.label) ∧
    ∀ n : Nat, m.startLine ≤ n → n ≤ m.endLine → (Section.ofText t).filter (·.contains n) = [s]

theorem ofLine?_eq_none_of_between {as bs : List Marker} {M : Marker} {l : Line}
    (h : Marker.all t = as ++ M :: bs) (hl : l ∈ Line.all t) (hfrom : M.lineNumber < l.number)
    (hto : l.number ≤ endBefore (lastLine t) bs) : Marker.ofLine? l = none := by
  obtain ⟨-, -, -, has, hbs⟩ := endBefore_bounds h
  cases hN : Marker.ofLine? l with
  | none => rfl
  | some N =>
    have hmem : N ∈ as ++ M :: bs := h ▸ List.mem_filterMap.2 ⟨l, hl, hN⟩
    have hnumber := Marker.lineNumber_of_ofLine? hN
    rw [List.mem_append, List.mem_cons] at hmem
    rcases hmem with hmem | rfl | hmem
    · have := has N hmem
      omega
    · omega
    · have := hbs N hmem
      omega

/-- The section of a start marker, and the lines that it alone holds. -/
theorem exists_section {as bs : List Marker} {M : Marker} (h : Marker.all t = as ++ M :: bs)
    (hM : M.isEnd = false) :
    ∃ s : Section, s.startLine = M.lineNumber ∧ s.label = Segment.labelOf M ∧
      ∀ n : Nat, M.lineNumber ≤ n → n ≤ endBefore (lastLine t) bs →
        (Section.ofText t).filter (·.contains n) = [s] := by
  -- the default limit passes over no marker
  have hseen : Marker.seen Entry.defaultLimit t = as ++ M :: bs := by
    rw [Marker.seen, Line.safe_eq, Marker.ofLines_short (by decide), ← Marker.all_eq, h]
  have hne := Marker.ne_nil_of_mem_seen (hseen ▸ List.mem_append_right as List.mem_cons_self)
  obtain ⟨e, hsegment, he⟩ : ∃ e, (⟨Segment.labelOf M, M.lineNumber, e⟩ : Segment) ∈
      Section.segments t ∧ endBefore t.lines.length bs ≤ e :=
    ⟨_, Section.mem_segments_start hseen hM,
      endBefore_le_openEnd (Segment.labelOf M) (Marker.sorted_behind hseen).of_cons
        fun N hN => (Marker.bounds_behind hseen N hN).2⟩
  have hend : endBefore (lastLine t) bs ≤ endBefore t.lines.length bs := by
    cases bs with
    | nil => exact lastLine_le t
    | cons N bs => exact Nat.le_refl _
  refine ⟨Section.ofSegment (Line.all t) (Entry.ofText t) ⟨Segment.labelOf M, M.lineNumber, e⟩, rfl,
    rfl, fun n hfrom hto => ?_⟩
  have hfilter := (Section.tiles_segments hne Entry.defaultLimit).filter_contains hsegment hfrom
    (Nat.le_trans hto (Nat.le_trans hend he))
  unfold Section.ofText
  rw [List.filter_map]
  exact congrArg (List.map (Section.ofSegment (Line.all t) (Entry.ofText t))) hfilter

/-- **The best match.** No section is found for a name exactly if no start marker fits it, and a
section that is found is the one that fits it best. -/
theorem find?_isBest (t name : Text) :
    (find? t name = none ↔
      ∀ M ∈ Marker.all t, M.isEnd = false → SectionName.score name M.label = 0) ∧
    ∀ m, find? t name = some m → IsBest t name m := by
  refine ⟨find?_eq_none_iff, fun m hm => ?_⟩
  obtain ⟨as, M, bs, hall, hM, hmatch, hpos, has, hbs⟩ := find?_eq_some hm
  obtain ⟨hfirst, hle, hend, -, -⟩ := endBefore_bounds hall
  obtain ⟨s, hstart, hlabel, hinside⟩ := exists_section hall hM
  subst hmatch
  refine ⟨hpos, ⟨as, M, bs, hall, hM, rfl, rfl, rfl, has, hbs⟩, hle, hend, fun l hl hfrom hto =>
    ofLine?_eq_none_of_between hall hl hfrom hto, ?_, s, hstart, ?_, hinside⟩
  · cases bs with
    | nil => exact .inl rfl
    | cons N bs =>
      have hnext : Marker.all t = (as ++ [M]) ++ N :: bs := by rw [hall]; simp
      have hN := (endBefore_bounds hnext).1
      refine .inr ⟨N, by rw [hall]; simp, ?_⟩
      show N.lineNumber = N.lineNumber - 1 + 1
      omega
  · have hmem : M ∈ Marker.all t := hall ▸ List.mem_append_right as List.mem_cons_self
    obtain ⟨l, -, hl⟩ := Marker.exists_line_of_mem hmem
    rw [hlabel, Marker.labelOf_eq hl]

/-- A text with several sections that fit one name, the first of them closed. -/
def severalText : Text :=
  "## Digital\n# --- Git Stuff --- #\nalias g=git\n# --- End Git Stuff --- #\n\n## Git Config\n".toList

theorem find?_isBest_several :
    find? severalText "Docker".toList = none ∧
      find? severalText "Git".toList = some ⟨"Git Stuff".toList, 2, 3, 90⟩ ∧
        IsBest severalText "Git".toList ⟨"Git Stuff".toList, 2, 3, 90⟩ := by
  have hfind : find? severalText "Git".toList = some ⟨"Git Stuff".toList, 2, 3, 90⟩ := by decide
  have hzero : ∀ M ∈ Marker.all severalText, M.isEnd = false →
      SectionName.score "Docker".toList M.label = 0 := by decide
  exact ⟨(find?_isBest severalText _).1.2 hzero, hfind, (find?_isBest severalText _).2 _ hfind⟩

end SectionMatch
end ShellConfig
