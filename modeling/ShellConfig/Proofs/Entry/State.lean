import ShellConfig.Proofs.Entry.SwitchedBack

/-!
# Putting entries into a state

The state of an entry is told by the line that declares it: this is commented out or not. Main
statements: `isCommented_switched` and `isDeclaration_switched`, that a switch changes the state of
such a line, which still declares the entry; `setEnabled_eq_ok`, which line is switched or left as
it is; and `setEnabled_settles`, that the line is in the state asked for afterwards, all other lines
stay, and asking for the state again changes nothing.
-/

namespace ShellConfig.Edit

open Text

variable {as bs : List Text} {b key l s t : Text} {enabled : Bool} {kind : Kind} {limit : Int}
  {r : EditResult}

/-! ### The state of a line -/

/-- A declaration that stands behind no comment sign is active. Only the key of a history variable
could begin with such a sign. -/
theorem isCommented_of_declares (hkey : kind = .history → isCommented key = false)
    (h : declares key t kind = true) : isCommented t = false := by
  by_cases hkind : kind = .history
  · subst hkind
    cases declares_eq_true_iff.1 h with
    | @history b b' v hb hb' =>
      rw [isCommented_blanks_append hb]
      by_cases hblank : allBlank key = true
      · rw [isCommented_blanks_append hblank, isCommented_blanks_append hb']
        rfl
      · rw [isCommented_append (by simpa using hblank), hkey rfl]
  · obtain ⟨b, w, u, hb, hw, rfl⟩ := exists_firstWord (fun h => absurd h hkind) h
    exact isCommented_active hw hb u

/-- A line that declares an entry declares it without its comment sign. -/
theorem declares_uncomment (hkey : kind = .history → isCommented key = false)
    (h : isDeclaration kind key limit l = true) : declares key (uncomment l) kind = true := by
  simp only [isDeclaration, Bool.and_eq_true, Bool.or_eq_true] at h
  rcases h.2 with hl | hl
  · rwa [uncomment_of_not_commented (isCommented_of_declares hkey hl)]
  · exact hl

theorem isCommented_switched (hkey : kind = .history → isCommented key = false)
    (h : isDeclaration kind key limit l = true) : isCommented (switched l) = !isCommented l := by
  unfold switched
  cases isCommented l with
  | true => exact isCommented_of_declares hkey (declares_uncomment hkey h)
  | false => exact isCommented_comment l

theorem uncomment_switched (hkey : kind = .history → isCommented key = false)
    (h : isDeclaration kind key limit l = true) : uncomment (switched l) = uncomment l := by
  have hswitched := isCommented_switched hkey h
  cases hc : isCommented l with
  | true =>
    rw [hc, Bool.not_true] at hswitched
    rw [uncomment_of_not_commented hswitched, switched, if_pos hc]
  | false =>
    have hcomment : switched l = comment l := if_neg (by simp [hc])
    rw [hcomment, uncomment_comment, uncomment_of_not_commented hc]

/-- A switched line declares the entry as before, if it is short enough to be looked at. -/
theorem isDeclaration_switched (hkey : kind = .history → isCommented key = false)
    (h : isDeclaration kind key limit l = true) :
    isDeclaration kind key limit (switched l) = decide (((switched l).length : Int) ≤ limit) := by
  have hdeclares := declares_uncomment hkey h
  have huncomment := uncomment_switched hkey h
  have hne : (switched l).isEmpty = false := by
    rw [List.isEmpty_eq_false_iff]
    intro hnil
    rw [hnil] at huncomment
    exact (declares_eq_true_iff.1 hdeclares).ne_nil huncomment.symm
  rw [isDeclaration, huncomment, hdeclares, hne, Bool.or_true, Bool.and_true]
  rfl

/-! ### The line of an entry -/

/-- A line that declares an entry as it is written or without a comment sign, and is short enough to
be looked at. -/
def IsDeclared (kind : Kind) (key : Text) (limit : Int) (l : Text) : Prop :=
  (l.length : Int) ≤ limit ∧ (IsWritten key kind l ∨ IsWritten key kind (uncomment l))

theorem isDeclaration_eq_true_iff :
    isDeclaration kind key limit l = true ↔ IsDeclared kind key limit l := by
  have hne : IsWritten key kind l ∨ IsWritten key kind (uncomment l) → l.isEmpty = false := by
    rintro (h | h)
    · simpa using h.ne_nil
    · rw [List.isEmpty_eq_false_iff]
      rintro rfl
      exact h.ne_nil rfl
  simp only [isDeclaration, IsDeclared, Bool.and_eq_true, Bool.or_eq_true, decide_eq_true_eq,
    declares_eq_true_iff, Bool.not_eq_true']
  constructor
  · rintro ⟨⟨-, hlength⟩, hwritten⟩
    exact ⟨hlength, hwritten⟩
  · rintro ⟨hlength, hwritten⟩
    exact ⟨⟨hne hwritten, hlength⟩, hwritten⟩

/-- A line that is put into a state. -/
def settled (enabled : Bool) (l : Text) : Text :=
  if isCommented l = enabled then switched l else l

theorem isCommented_settled (hkey : kind = .history → isCommented key = false)
    (h : isDeclaration kind key limit l = true) (enabled : Bool) :
    isCommented (settled enabled l) = !enabled := by
  unfold settled
  split
  · next hc => rw [isCommented_switched hkey h, hc]
  · next hc => exact Bool.eq_not.2 hc

theorem isDeclaration_settled (hkey : kind = .history → isCommented key = false)
    (h : isDeclaration kind key limit l = true)
    (hlength : ((settled enabled l).length : Int) ≤ limit) :
    isDeclaration kind key limit (settled enabled l) = true := by
  unfold settled at hlength ⊢
  split
  · next hc =>
    rw [if_pos hc] at hlength
    rw [isDeclaration_switched hkey h, decide_eq_true hlength]
  · exact h

theorem not_mem_settled (h : '\n' ∉ l) : '\n' ∉ settled enabled l := by
  unfold settled
  split
  · exact not_mem_switched h
  · exact h

theorem setEnabled_of_locate (h : locate t kind key limit = .ok (as ++ l :: bs, as.length)) :
    setEnabled t kind key enabled limit =
      if isCommented l = enabled then toggle t kind key limit
      else .ok
        { content := t
          message := about kind key ("is already ".toList ++ stateWord enabled)
          lineNumber := as.length + 1
          enabled := enabled
          changed := false } := by
  have hget : (as ++ l :: bs)[as.length]?.getD [] = l := by simp
  unfold setEnabled
  rw [h]
  simp only [bind, Except.bind, hget]
  rfl

/-- The first line that declares the entry is put into the state, and is told to be changed if it
had to be switched. -/
theorem setEnabled_eq_ok (h : setEnabled t kind key enabled limit = .ok r) :
    ∃ as l bs, locate t kind key limit = .ok (as ++ l :: bs, as.length) ∧
      (∀ a ∈ as, isDeclaration kind key limit a = false) ∧
      isDeclaration kind key limit l = true ∧
      r.content = join ['\n'] (as ++ settled enabled l :: bs) ∧ r.lineNumber = as.length + 1 ∧
      r.changed = decide (isCommented l = enabled) := by
  cases hlocate : locate t kind key limit with
  | error e =>
    unfold setEnabled at h
    rw [hlocate] at h
    cases h
  | ok x =>
    obtain ⟨ls, i⟩ := x
    obtain ⟨as, l, bs, rfl, rfl, hsplit, hdecl, hfirst⟩ := exists_of_locate hlocate
    refine ⟨as, l, bs, rfl, hfirst, hdecl, ?_⟩
    rw [setEnabled_of_locate hlocate] at h
    unfold settled
    split at h
    · next hc =>
      rw [toggle_of_locate hlocate, Except.ok.injEq] at h
      subst h
      rw [if_pos hc, decide_eq_true hc]
      exact ⟨rfl, rfl, rfl⟩
    · next hc =>
      rw [Except.ok.injEq] at h
      subst h
      rw [if_neg hc, decide_eq_false hc, ← hsplit, join_splitOn]
      exact ⟨rfl, rfl, rfl⟩

/-! ### The state of an entry -/

/-- An entry was put into a state: of the lines between line feeds the first that declares it, `l`,
became `l'`, which is commented out unless the state is that of an active entry. The others stay,
and the result tells the number of the line and whether the text is another one. -/
structure Settles (t : Text) (kind : Kind) (key : Text) (enabled : Bool) (limit : Int)
    (r : EditResult) (as : List Text) (l l' : Text) (bs : List Text) : Prop where
  before : splitOn '\n' t = as ++ l :: bs
  after : splitOn '\n' r.content = as ++ l' :: bs
  first : ∀ a ∈ as, ¬IsDeclared kind key limit a
  declared : IsDeclared kind key limit l
  lineNumber : r.lineNumber = as.length + 1
  state : isCommented l' = !enabled
  changed : r.changed = false ↔ r.content = t

/-- **Putting an entry into a state.** If this succeeds, the first line that declares the entry is
commented out or not, as asked for, and all other lines stay as they are; the result tells of a
change if the text is another one. As long as the line is short enough to be looked at, the same
state can be asked for again, and nothing changes. -/
theorem setEnabled_settles (hkey : kind = .history → isCommented key = false)
    (h : setEnabled t kind key enabled limit = .ok r) :
    ∃ as l l' bs, Settles t kind key enabled limit r as l l' bs ∧
      ((l'.length : Int) ≤ limit →
        setEnabled r.content kind key enabled limit = .ok
          { content := r.content
            message := about kind key ("is already ".toList ++ stateWord enabled)
            lineNumber := r.lineNumber
            enabled := enabled
            changed := false }) := by
  obtain ⟨as, l, bs, hlocate, hfirst, hdecl, hcontent, hnumber, hchanged⟩ := setEnabled_eq_ok h
  obtain ⟨hkind, hblank, hsplit, -⟩ := locate_eq_ok_iff.1 hlocate
  have hstate := isCommented_settled hkey hdecl enabled
  have hfeed : '\n' ∉ settled enabled l := not_mem_settled (not_mem_of_splitOn hsplit)
  have hpieces : splitOn '\n' r.content = as ++ settled enabled l :: bs := by
    rw [hcontent, splitOn_exchanged hsplit hfeed]
  refine ⟨as, l, settled enabled l, bs, ⟨hsplit, hpieces, fun a ha => ?_,
    isDeclaration_eq_true_iff.1 hdecl, hnumber, hstate, ?_⟩, fun hlength => ?_⟩
  · rw [← isDeclaration_eq_true_iff, hfirst a ha]
    exact Bool.false_ne_true
  · rw [hchanged, decide_eq_false_iff_not]
    constructor
    · intro hc
      rw [hcontent, settled, if_neg hc, ← hsplit, join_splitOn]
    · -- a line that had to be switched is not in the state it was in
      rintro hsame hc
      rw [hsame, hsplit, List.append_cancel_left_eq, List.cons.injEq] at hpieces
      rw [← hpieces.1, hc] at hstate
      exact (Bool.eq_not_self enabled).1 hstate
  · have hfind := findIdx?_append_cons hfirst (settled enabled l) bs
    rw [if_pos (isDeclaration_settled hkey hdecl hlength)] at hfind
    have hagain := locate_eq_ok_iff.2 ⟨hkind, hblank, hpieces, hfind⟩
    rw [setEnabled_of_locate hagain, if_neg (by simp [hstate]), hnumber]

/-- A text that declares a history variable twice, behind a line with two comment signs, which does
not declare it. -/
def historyText : Text := "\t## H=1\n  # H =2\r\nH=3".toList

theorem setEnabled_settles_history :
    ∃ r, setEnabled historyText .history ['H'] true 9 = .ok r ∧ r.lineNumber = 2 ∧
      setEnabled r.content .history ['H'] true 9 = .ok
        { content := r.content
          message := "History 'H' is already enabled".toList
          lineNumber := 2
          enabled := true
          changed := false } := by
  have hset : setEnabled historyText .history ['H'] true 9 = .ok
      { content := "\t## H=1\n  H =2\r\nH=3".toList
        message := "History 'H' enabled".toList, lineNumber := 2, enabled := true } := rfl
  have hkey : Kind.history = .history → isCommented ['H'] = false := fun _ => rfl
  obtain ⟨as, l, l', bs, hsettles, hagain⟩ := setEnabled_settles hkey hset
  have hline : l' = "  H =2\r".toList := by
    have hlength : as.length = 1 := by
      have hnumber := hsettles.lineNumber
      simpa using hnumber.symm
    have hget := congrArg (·[1]?) hsettles.after
    rw [List.getElem?_append_right (by omega), hlength] at hget
    exact (Option.some.inj hget).symm
  exact ⟨_, hset, rfl, hagain (by rw [hline]; decide)⟩

end ShellConfig.Edit
