import ShellConfig.Proofs.Section.Marker
import ShellConfig.Section.Basic

/-!
# Labels of lines

The label of a line is decided by the markers before it. Main statements: `labelAt_ofText`, that the
sections of a text give each line the label that is open there; `inSections_middle`, what is read of
a text around ordinary lines; and `inSections_insert`, what becomes of it when such lines are put
between others.
-/

namespace ShellConfig

namespace Marker

variable {k n : Nat} {m : Marker} {ms : List Marker} {label : Text}

/-! ### Open labels -/

/-- The label of a line behind some markers, given the label that is open before them. A start
marker counts from its own line on and an end marker behind its line. -/
def labelOn (label : Text) (n : Nat) : List Marker → Text
  | [] => label
  | m :: ms =>
    if m.isEnd then if m.lineNumber < n then labelOn unlabeled n ms else label
    else if m.lineNumber ≤ n then labelOn (Segment.labelOf m) n ms else label

/-- The label that is open behind some markers. -/
def labelAfter (label : Text) : List Marker → Text
  | [] => label
  | m :: ms => labelAfter (if m.isEnd then unlabeled else Segment.labelOf m) ms

theorem labelOn_of_lt (h : ∀ m ∈ ms, n < m.lineNumber) : labelOn label n ms = label := by
  cases ms with
  | nil => rfl
  | cons m ms =>
    have hm := h m List.mem_cons_self
    rw [labelOn, if_neg (Nat.not_lt.2 (Nat.le_of_lt hm)), if_neg (Nat.not_le.2 hm), ite_self]

theorem labelOn_append (as bs : List Marker) (h : ∀ m ∈ as, m.lineNumber < n) :
    labelOn label n (as ++ bs) = labelOn (labelAfter label as) n bs := by
  induction as generalizing label with
  | nil => rfl
  | cons m as ih =>
    have hm := h m List.mem_cons_self
    have ih' := fun label => @ih label fun m' hm' => h m' (List.mem_cons_of_mem m hm')
    rw [List.cons_append, labelOn, labelAfter]
    cases m.isEnd with
    | true => rw [if_pos rfl, if_pos hm, if_pos rfl, ih']
    | false => rw [if_neg (by decide), if_pos (Nat.le_of_lt hm), if_neg (by decide), ih']

theorem labelOn_append_of_lt (as bs : List Marker) (h : ∀ m ∈ bs, n < m.lineNumber) :
    labelOn label n (as ++ bs) = labelOn label n as := by
  induction as generalizing label with
  | nil => exact labelOn_of_lt h
  | cons m as ih => rw [List.cons_append, labelOn, labelOn, ih, ih]

theorem labelOn_moved (label : Text) (n k : Nat) (ms : List Marker) :
    labelOn label (n + k) (ms.map (moved k)) = labelOn label n ms := by
  induction ms generalizing label with
  | nil => rfl
  | cons m ms ih =>
    have hlt : (m.moved k).lineNumber < n + k ↔ m.lineNumber < n := Nat.add_lt_add_iff_right
    have hle : (m.moved k).lineNumber ≤ n + k ↔ m.lineNumber ≤ n := Nat.add_le_add_iff_right
    rw [List.map_cons, labelOn, labelOn, ih, ih]
    simp only [hlt, hle]
    rfl

end Marker

namespace Section

variable {label : Text} {last n start : Nat} {ms : List Marker}

/-! ### Segments -/

theorem contains_iff (s : Segment) (n : Nat) :
    s.contains n = true ↔ s.startLine ≤ n ∧ n ≤ s.endLine := by
  simp [Segment.contains]

theorem find?_close_append (label : Text) (hstart : start ≤ n) (e : Nat) (ss : List Segment) :
    (Segment.close label start e ++ ss).find? (·.contains n) =
      if n ≤ e then some ⟨label, start, e⟩ else ss.find? (·.contains n) := by
  unfold Segment.close
  by_cases he : n ≤ e
  · rw [if_pos (by omega), if_pos he]
    exact List.find?_cons_of_pos ((contains_iff _ n).2 ⟨hstart, he⟩)
  · rw [if_neg he]
    split
    · refine List.find?_cons_of_neg fun h => he ?_
      exact ((contains_iff _ n).1 h).2
    · rfl

/-- The segments of a text give each line the label that is open there. The induction is on the
markers to come, which all stand on later lines than the open segment begins with. -/
theorem find?_cut (hpos : 0 < start) (hstart : start ≤ n) (hlast : n ≤ last)
    (hsorted : ms.Pairwise fun a b => a.lineNumber < b.lineNumber)
    (hms : ∀ m ∈ ms, start ≤ m.lineNumber) :
    ((Segment.cut label start last ms).find? (·.contains n)).map (·.label) =
      some (Marker.labelOn label n ms) := by
  induction ms generalizing label start with
  | nil =>
    have hclose := find?_close_append label hstart last []
    rw [List.append_nil, if_pos hlast] at hclose
    rw [Segment.cut, hclose]
    rfl
  | cons m ms ih =>
    obtain ⟨hm, hsorted⟩ := List.pairwise_cons.1 hsorted
    have hmstart := hms m List.mem_cons_self
    rw [Segment.cut, Marker.labelOn]
    by_cases hend : m.isEnd = true
    · rw [if_pos hend, if_pos hend]
      by_cases hlabel : label = unlabeled
      · -- nothing is open that the marker could close
        subst hlabel
        rw [if_pos rfl, ih hpos hstart hsorted fun m' hm' => hms m' (List.mem_cons_of_mem m hm')]
        split
        · rfl
        · rw [Marker.labelOn_of_lt fun m' hm' => by have := hm m' hm'; omega]
      · rw [if_neg hlabel, find?_close_append label hstart]
        by_cases hn : n ≤ m.lineNumber
        · rw [if_pos hn, if_neg (by omega)]
          rfl
        · rw [if_neg hn, if_pos (by omega), ih (by omega) (by omega) hsorted hm]
    · rw [if_neg hend, if_neg hend, find?_close_append label hstart]
      by_cases hn : m.lineNumber ≤ n
      · rw [if_pos hn, if_neg (by omega), ih (by omega) hn hsorted
          fun m' hm' => Nat.le_of_lt (hm m' hm')]
      · rw [if_neg hn, if_pos (by omega)]
        rfl

theorem labelAt_map (ls : List Line) (es : List Entry) (ss : List Segment) (n : Int) :
    labelAt (ss.map (ofSegment ls es)) n =
      ((ss.find? (·.contains n)).map (·.label)).getD unlabeled := by
  unfold labelAt
  rw [List.find?_map, Option.map_map]
  rfl

theorem labelAt_ofText {t : Text} {limit : Int} (hn : 1 ≤ n) (hlast : n ≤ t.lines.length) :
    labelAt (ofText t limit) n =
      Marker.labelOn unlabeled n (Marker.ofLines (Line.safe limit t)) := by
  have hsub : (Line.safe limit t).Sublist (Line.numbered 1 t.lines) := List.filter_sublist
  unfold ofText
  rw [labelAt_map]
  unfold segments
  cases t with
  | nil =>
    have hnone : Marker.ofLines (Line.safe limit []) = [] :=
      Marker.ofLines_eq_nil fun l hl => Marker.ofLine?_eq_none_iff.2 <| .inr fun d => by
        obtain rfl : l = ⟨1, []⟩ := List.mem_singleton.1 (List.mem_of_mem_filter hl)
        exact Marker.readAs?_of_not_commented rfl d
    rw [hnone]
    rfl
  | cons c t =>
    rw [List.isEmpty_cons, if_neg (by decide),
      find?_cut Nat.one_pos hn hlast (Marker.sorted_ofLines hsub)]
    · rfl
    · exact fun m hm => (Marker.lineNumber_of_mem hm hsub).1

end Section
namespace Entry

variable {limit : Int} {t : Text} {as bs ms : List Text} {e : Entry}

/-! ### Entries with labels -/

def withLabel (label : Text) (e : Entry) : Entry := { e with label := some label }

/-- An entry with the label that some markers give its line. -/
def labeledBy (ms : List Marker) (e : Entry) : Entry :=
  withLabel (Marker.labelOn unlabeled e.lineNumber.toNat ms) e

/-- The entries of a text have the labels that its markers give their lines. -/
theorem inSections_eq (t : Text) (limit : Int) :
    inSections t none limit =
      (ofText t limit).map (labeledBy (Marker.ofLines (Line.safe limit t))) := by
  refine List.map_congr_left fun e he => ?_
  obtain ⟨n, hnumber, hpos, hlast⟩ := exists_number_of_mem he
  unfold labeled labeledBy withLabel
  rw [hnumber, Section.labelAt_ofText hpos hlast, Int.toNat_natCast]

/-- The entries of a text with lines in the middle that open no plugin list and are no markers. -/
theorem inSections_middle (ht : t.lines = as ++ (ms ++ bs))
    (has : Plugins.openAfter false (Line.short limit 1 as) = false)
    (hopening : ∀ x ∈ ms, Plugins.opening? x = none)
    (hmarker : ∀ x ∈ ms, ∀ n, Marker.ofLine? ⟨n, x⟩ = none) :
    inSections t none limit =
      (onLines Kind.all false (Line.short limit 1 as) ++
        onLines Kind.all false (Line.short limit (1 + as.length) ms) ++
        onLines Kind.all false (Line.short limit (1 + as.length + ms.length) bs)).map
      (labeledBy (Marker.ofLines (Line.short limit 1 as) ++
        Marker.ofLines (Line.short limit (1 + as.length + ms.length) bs))) := by
  have hsafe : Line.safe limit t = Line.short limit 1 as ++ Line.short limit (1 + as.length) ms ++
      Line.short limit (1 + as.length + ms.length) bs := by
    rw [Line.safe_eq, ht, Line.short_append, Line.short_append, List.append_assoc]
  have hnone : Marker.ofLines (Line.short limit (1 + as.length) ms) = [] :=
    Marker.ofLines_eq_nil fun l hl => hmarker l.text (Line.text_mem_of_mem_short hl) l.number
  rw [inSections_eq, ofText, hsafe, onLines_middle has
    (fun l hl => hopening l.text (Line.text_mem_of_mem_short hl)), Marker.ofLines_append,
    Marker.ofLines_append, hnone, List.append_nil]

/-! ### Lines put between others -/

theorem filter_onLines_le (kinds : List Kind) (limit : Int) (as bs : List Text) :
    (onLines kinds false (Line.short limit 1 as) ++
        onLines kinds false (Line.short limit (1 + as.length) bs)).filter
      (·.lineNumber ≤ (as.length : Int)) = onLines kinds false (Line.short limit 1 as) := by
  rw [List.filter_append, List.filter_eq_self.2, List.filter_eq_nil_iff.2, List.append_nil]
  · intro e he
    have := lineNumber_of_mem he
    rw [decide_eq_true_eq]
    omega
  · intro e he
    have := lineNumber_of_mem he
    exact decide_eq_true (by omega)

theorem filter_onLines_lt (kinds : List Kind) (limit : Int) (as bs : List Text) :
    (onLines kinds false (Line.short limit 1 as) ++
        onLines kinds false (Line.short limit (1 + as.length) bs)).filter
      ((as.length : Int) < ·.lineNumber) =
        onLines kinds false (Line.short limit (1 + as.length) bs) := by
  rw [List.filter_append, List.filter_eq_nil_iff.2, List.filter_eq_self.2, List.nil_append]
  · intro e he
    have := lineNumber_of_mem he
    exact decide_eq_true (by omega)
  · intro e he
    have := lineNumber_of_mem he
    rw [decide_eq_true_eq]
    omega

theorem labeledBy_before {k n : Nat} {M N : List Marker} (hN : ∀ m ∈ N, n < m.lineNumber)
    (he : e.lineNumber ≤ n) :
    labeledBy (M ++ N.map (Marker.moved k)) e = labeledBy (M ++ N) e := by
  unfold labeledBy
  rw [Marker.labelOn_append_of_lt, Marker.labelOn_append_of_lt]
  · intro m hm
    have := hN m hm
    omega
  · intro m hm
    obtain ⟨m', hm', rfl⟩ := List.mem_map.1 hm
    have := hN m' hm'
    have hmoved : (m'.moved k).lineNumber = m'.lineNumber + k := rfl
    omega

theorem labeledBy_inside {k n : Nat} {M N : List Marker} (hM : ∀ m ∈ M, m.lineNumber ≤ n)
    (hN : ∀ m ∈ N, n < m.lineNumber) (he : (n : Int) < e.lineNumber)
    (hk : e.lineNumber ≤ n + k) :
    labeledBy (M ++ N.map (Marker.moved k)) e = withLabel (Marker.labelAfter unlabeled M) e := by
  unfold labeledBy
  rw [Marker.labelOn_append, Marker.labelOn_of_lt]
  · intro m hm
    obtain ⟨m', hm', rfl⟩ := List.mem_map.1 hm
    have := hN m' hm'
    have hmoved : (m'.moved k).lineNumber = m'.lineNumber + k := rfl
    omega
  · intro m hm
    have := hM m hm
    omega

theorem labeledBy_behind {n : Nat} {M N : List Marker} (k : Nat)
    (hM : ∀ m ∈ M, m.lineNumber ≤ n) (he : (n : Int) < e.lineNumber) :
    labeledBy (M ++ N.map (Marker.moved k)) (e.moved k) = (labeledBy (M ++ N) e).moved k := by
  have hlater : (e.moved k).lineNumber.toNat = e.lineNumber.toNat + k := by
    change (e.lineNumber + k).toNat = _
    omega
  unfold labeledBy
  rw [hlater, Marker.labelOn_append, Marker.labelOn_append, Marker.labelOn_moved]
  · rfl
  · intro m hm
    have := hM m hm
    omega
  · intro m hm
    have := hM m hm
    omega

/-- Where lines are put between others that open no plugin list and are no markers, the entries of
the other lines stay the same but for their line numbers, and those of the new lines are labeled by
what is open there. -/
theorem inSections_insert {t' : Text} (ht : t.lines = as ++ bs) (ht' : t'.lines = as ++ (ms ++ bs))
    (has : Plugins.openAfter false (Line.short limit 1 as) = false)
    (hopening : ∀ x ∈ ms, Plugins.opening? x = none)
    (hmarker : ∀ x ∈ ms, ∀ n, Marker.ofLine? ⟨n, x⟩ = none) :
    inSections t' none limit =
      (inSections t none limit).filter (·.lineNumber ≤ (as.length : Int)) ++
        (onLines Kind.all false (Line.short limit (1 + as.length) ms)).map
          (withLabel (Marker.labelAfter unlabeled (Marker.ofLines (Line.short limit 1 as)))) ++
        ((inSections t none limit).filter ((as.length : Int) < ·.lineNumber)).map
          (moved ms.length) := by
  have hnothing : t.lines = as ++ ([] ++ bs) := ht
  have hold := inSections_middle hnothing has (by simp) (by simp)
  have hnil : Line.short limit (1 + as.length) [] = [] := rfl
  have hnone : onLines Kind.all false [] = [] := rfl
  rw [List.length_nil, Nat.add_zero, hnil, hnone, List.append_nil] at hold
  rw [inSections_middle ht' has hopening hmarker, hold, Line.short_add, onLines_moved,
    Marker.ofLines_moved, List.map_append, List.map_append, List.filter_map, List.filter_map]
  have hbefore : ∀ m ∈ Marker.ofLines (Line.short limit 1 as), m.lineNumber ≤ as.length := by
    intro m hm
    have := Marker.lineNumber_of_mem hm (Line.short_sublist limit 1 as)
    omega
  have hbehind : ∀ m ∈ Marker.ofLines (Line.short limit (1 + as.length) bs),
      as.length < m.lineNumber := by
    intro m hm
    have := Marker.lineNumber_of_mem hm (Line.short_sublist limit _ bs)
    omega
  generalize Marker.ofLines (Line.short limit 1 as) = M at *
  generalize Marker.ofLines (Line.short limit (1 + as.length) bs) = N at *
  have hle : (fun e : Entry => decide (e.lineNumber ≤ (as.length : Int))) ∘ labeledBy (M ++ N) =
      fun e => decide (e.lineNumber ≤ (as.length : Int)) := rfl
  have hlt : (fun e : Entry => decide ((as.length : Int) < e.lineNumber)) ∘ labeledBy (M ++ N) =
      fun e => decide ((as.length : Int) < e.lineNumber) := rfl
  rw [hle, hlt, filter_onLines_le, filter_onLines_lt, List.map_map, List.map_map]
  refine congrArg₂ _ (congrArg₂ _ ?_ ?_) ?_
  · refine List.map_congr_left fun e he => ?_
    have hnumber := lineNumber_of_mem he
    exact labeledBy_before hbehind (by omega)
  · refine List.map_congr_left fun e he => ?_
    have hnumber := lineNumber_of_mem he
    exact labeledBy_inside hbefore hbehind (by omega) (by omega)
  · refine List.map_congr_left fun e he => ?_
    have hnumber := lineNumber_of_mem he
    exact labeledBy_behind ms.length hbefore (by omega)

end Entry
end ShellConfig
