import ShellConfig.Proofs.Section.Label

/-!
# Labels by a walk over the lines

The label of a line can be told from the lines above it without any sections: a start marker sets
the label and an end marker takes it away. Main statements: `labelsAcross_eq`, what one line does to
the label; `getElem?_walkLabels`, what the walk finds on each line; and `labelAt_eq_walk`, that
sections give each line, and the entries on it, the label that the walk finds.
-/

namespace ShellConfig

open Text

namespace Marker

variable {t x : Text} {d : Dialect} {l : Line} {m : Marker}

/-! ### Blank labels -/

theorem eq_nil_of_label? (h : label? t = some x) (hx : allBlank x = true) : x = [] := by
  unfold label? at h
  split at h
  · cases h
  · obtain rfl := Option.some.inj h
    exact trim_eq_nil hx

theorem eq_nil_of_requiredLabel? (h : requiredLabel? t = some x) (hx : allBlank x = true) :
    x = [] := by
  unfold requiredLabel? at h
  split at h
  · split at h
    · exact (Option.some.inj h).symm
    · cases h
  · exact eq_nil_of_label? h hx

theorem eq_nil_of_readAs? (h : readAs? t d = some x) (hx : allBlank x = true) : x = [] := by
  cases d with
  | customEnd | dashedEnd =>
    obtain ⟨r, -, hr⟩ := Option.bind_eq_some_iff.1 h
    exact eq_nil_of_label? hr hx
  | customStart =>
    unfold readAs? at h
    dsimp only at h
    split at h
    · split at h
      · exact eq_nil_of_requiredLabel? h hx
      · cases h
    · cases h
  | dashedStart =>
    obtain ⟨r, -, h⟩ := Option.bind_eq_some_iff.1 h
    split at h
    · cases h
    · obtain ⟨b, -, h⟩ := Option.bind_eq_some_iff.1 h
      split at h
      · cases h
      · exact eq_nil_of_label? h hx
  | bracketed | labeled =>
    obtain ⟨r, -, h⟩ := Option.bind_eq_some_iff.1 h
    obtain ⟨b, -, h⟩ := Option.bind_eq_some_iff.1 h
    exact eq_nil_of_requiredLabel? h hx
  | hash =>
    obtain ⟨r, -, h⟩ := Option.bind_eq_some_iff.1 h
    split at h
    · cases h
    · exact eq_nil_of_label? h hx

theorem eq_nil_of_ofLine? (h : ofLine? l = some m) (hm : allBlank m.label = true) :
    m.label = [] := by
  unfold ofLine? at h
  split at h
  · cases h
  · obtain ⟨d, -, hd⟩ := List.exists_of_findSome?_eq_some h
    obtain ⟨x, hx, rfl⟩ := Option.map_eq_some_iff.1 hd
    exact eq_nil_of_readAs? hx hm

theorem labelOf_eq (h : ofLine? l = some m) :
    Segment.labelOf m = if allBlank m.label then unlabeled else m.label := by
  unfold Segment.labelOf
  by_cases hm : allBlank m.label = true
  · rw [eq_nil_of_ofLine? h hm]
    rfl
  · have hne : m.label.isEmpty = false := by
      apply Bool.eq_false_iff.2
      intro hempty
      rw [List.isEmpty_iff.1 hempty] at hm
      exact hm rfl
    rw [hne, if_neg (by decide), if_neg hm]

end Marker

namespace Section

variable {k : Nat} {l : Line} {label : Text} {limit : Int} {ts : List Text}

/-! ### The walk -/

/-- The label of a line and the label behind it, given the label before it. A start marker sets the
label from its own line on, an end marker takes it away behind its line, and any other line leaves
it. So does a line of more than `limit` characters, or too many for a marker. -/
def labelsAcross (limit : Int) (label : Text) (l : Line) : Text × Text :=
  if (l.text.length : Int) ≤ min limit Marker.maxLength then
    match Marker.ofLine? l with
    | none => (label, label)
    | some m =>
      if m.isEnd then (label, unlabeled)
      else if allBlank m.label then (unlabeled, unlabeled)
      else (m.label, m.label)
  else (label, label)

/-- The labels of some lines, given the label before them. -/
def walkLabels (limit : Int) (label : Text) : List Line → List Text
  | [] => []
  | l :: ls => (labelsAcross limit label l).1 :: walkLabels limit (labelsAcross limit label l).2 ls

/-- What one line does to the label is what its marker does, if it has one. -/
theorem labelsAcross_eq (limit : Int) (label : Text) (k : Nat) (t : Text) :
    labelsAcross limit label ⟨k, t⟩ =
      (Marker.labelOn label k (Marker.ofLines (Line.short limit k [t])),
        Marker.labelAfter label (Marker.ofLines (Line.short limit k [t]))) := by
  unfold labelsAcross
  by_cases hfits : (t.length : Int) ≤ limit
  · have hshort : Line.short limit k [t] = [⟨k, t⟩] := by
      simp [Line.short, Line.fits, hfits]
    rw [hshort]
    by_cases hmax : t.length ≤ Marker.maxLength
    · rw [if_pos (by dsimp only; omega)]
      cases hm : Marker.ofLine? ⟨k, t⟩ with
      | none =>
        rw [Marker.ofLines_eq_nil (by simpa using hm)]
        rfl
      | some m =>
        have hnumber : m.lineNumber = k := Marker.lineNumber_of_ofLine? hm
        have hmarkers : Marker.ofLines [⟨k, t⟩] = [m] := by
          simp [Marker.ofLines, hm]
        rw [hmarkers, Marker.labelOn, Marker.labelAfter, hnumber, if_neg (Nat.lt_irrefl k),
          if_pos (Nat.le_refl k), Marker.labelOf_eq hm]
        show (if m.isEnd = true then _ else _) = _
        cases m.isEnd with
        | true => rfl
        | false =>
          simp only [Bool.false_eq_true, if_false, Marker.labelOn, Marker.labelAfter]
          split <;> rfl
    · have hnone : Marker.ofLine? ⟨k, t⟩ = none :=
        Marker.ofLine?_eq_none_iff.2 (.inl (Nat.lt_of_not_le hmax))
      rw [if_neg (by dsimp only; omega), Marker.ofLines_eq_nil (by simpa using hnone)]
      rfl
  · have hshort : Line.short limit k [t] = [] := by
      simp [Line.short, Line.fits, hfits]
    rw [if_neg (by dsimp only; omega), hshort]
    rfl

/-- The walk finds on each line the label that is open there. The induction is on the lines, with
the label that is open before them. -/
theorem getElem?_walkLabels (limit : Int) (label : Text) (k : Nat) (ts : List Text) {i : Nat}
    (hi : i < ts.length) :
    (walkLabels limit label (Line.numbered k ts))[i]? =
      some (Marker.labelOn label (k + i) (Marker.ofLines (Line.short limit k ts))) := by
  induction ts generalizing label k i with
  | nil => cases hi
  | cons t ts ih =>
    have hmarkers : Marker.ofLines (Line.short limit k (t :: ts)) =
        Marker.ofLines (Line.short limit k [t]) ++
          Marker.ofLines (Line.short limit (k + 1) ts) := by
      rw [← Marker.ofLines_append, ← List.singleton_append, Line.short_append]
      rfl
    rw [Line.numbered_cons, walkLabels, labelsAcross_eq, hmarkers]
    cases i with
    | zero =>
      have hrest : ∀ m ∈ Marker.ofLines (Line.short limit (k + 1) ts), k < m.lineNumber := by
        intro m hm
        have := Marker.lineNumber_of_mem hm (Line.short_sublist limit (k + 1) ts)
        omega
      rw [List.getElem?_cons_zero, Nat.add_zero, Marker.labelOn_append_of_lt _ _ hrest]
    | succ i =>
      have hthis : ∀ m ∈ Marker.ofLines (Line.short limit k [t]), m.lineNumber < k + (i + 1) := by
        intro m hm
        have := Marker.lineNumber_of_mem hm (Line.short_sublist limit k [t])
        rw [List.length_singleton] at this
        omega
      have hplace : k + (i + 1) = k + 1 + i := by omega
      rw [List.getElem?_cons_succ, Marker.labelOn_append _ _ hthis, hplace]
      exact ih _ _ (Nat.lt_of_succ_lt_succ hi)

/-! ### Labels of lines and entries -/

theorem exists_number_of_mem {t : Text} {kind? : Option Kind} {e : Entry}
    (h : e ∈ Entry.inSections t kind? limit) :
    ∃ n : Nat, e.lineNumber = n ∧ 1 ≤ n ∧ n ≤ t.lines.length ∧
      e.label = some (labelAt (ofText t limit) n) := by
  obtain ⟨kinds, hkinds⟩ : ∃ kinds, Entry.inSections t kind? limit =
      (Entry.onLines kinds false (Line.safe limit t)).map (Entry.labeled (ofText t limit)) := by
    cases kind? with
    | none => exact ⟨Kind.all, rfl⟩
    | some k => exact ⟨[k], rfl⟩
  rw [hkinds] at h
  obtain ⟨e, he, rfl⟩ := List.mem_map.1 h
  obtain ⟨n, hnumber, hpos, hlast⟩ := Entry.exists_number_of_mem he
  refine ⟨n, hnumber, hpos, hlast, ?_⟩
  show some (labelAt (ofText t limit) e.lineNumber) = _
  rw [hnumber]

/-- **Labels of lines.** The sections of a text give each line the label that a walk over its lines
finds there, and with it every entry on the line. -/
theorem labelAt_eq_walk (t : Text) (limit : Int) :
    (∀ n, 1 ≤ n → n ≤ t.lines.length →
      (walkLabels limit unlabeled (Line.all t))[n - 1]? = some (labelAt (ofText t limit) n)) ∧
    ∀ kind? e, e ∈ Entry.inSections t kind? limit → ∃ n : Nat, e.lineNumber = n ∧
      1 ≤ n ∧ n ≤ t.lines.length ∧
        e.label = (walkLabels limit unlabeled (Line.all t))[n - 1]? := by
  have hlines : ∀ n, 1 ≤ n → n ≤ t.lines.length →
      (walkLabels limit unlabeled (Line.all t))[n - 1]? =
        some (labelAt (ofText t limit) n) := by
    intro n hn hlast
    have hplace : 1 + (n - 1) = n := by omega
    have hwalk := getElem?_walkLabels limit unlabeled 1 t.lines (i := n - 1) (by omega)
    rw [hplace] at hwalk
    rw [labelAt_ofText hn hlast]
    exact hwalk
  refine ⟨hlines, fun kind? e he => ?_⟩
  obtain ⟨n, hnumber, hn, hlast, hlabel⟩ := exists_number_of_mem he
  exact ⟨n, hnumber, hn, hlast, by rw [hlabel, hlines n hn hlast]⟩

def endedText : Text := "# @start Tools\nalias g=git\n# @end Tools\nexport A=1".toList

def endedExport : Entry :=
  { kind := .exported, lineNumber := 4, lineText := "export A=1".toList, label := some unlabeled
    payload := { varName := some "A".toList, value := some "1".toList } }

theorem labelAt_eq_walk_ended :
    (1 ≤ 3 ∧ 3 ≤ endedText.lines.length ∧
      (walkLabels 1000 unlabeled (Line.all endedText))[2]? =
        some (labelAt (ofText endedText 1000) 3)) ∧
    endedExport ∈ Entry.inSections endedText none 1000 ∧
      ∃ n : Nat, endedExport.lineNumber = n ∧ 1 ≤ n ∧ n ≤ endedText.lines.length ∧
        endedExport.label = (walkLabels 1000 unlabeled (Line.all endedText))[n - 1]? := by
  have hlast : 3 ≤ endedText.lines.length := by decide
  have hexport : endedExport ∈ Entry.inSections endedText none 1000 := by decide
  exact ⟨⟨by decide, hlast, (labelAt_eq_walk endedText 1000).1 3 (by decide) hlast⟩, hexport,
    (labelAt_eq_walk endedText 1000).2 none endedExport hexport⟩

end Section
end ShellConfig
