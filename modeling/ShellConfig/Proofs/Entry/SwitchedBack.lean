import ShellConfig.Proofs.Entry.Toggle

/-!
# Switching back

Main statements: `isDeclaration_comment`, when a line that was commented out is still found as the
declaration it was; and `toggle_back`, that an entry which was switched off is switched on again by
the next switch, which gives the text back, as long as the comment sign has not made its line too
long to be looked at.
-/

namespace ShellConfig.Edit

open Text

variable {t key l : Text} {kind : Kind} {limit : Int} {r : EditResult} {as : List Text}

/-! ### The first declaration -/

theorem findIdx?_append_cons {p : Text → Bool} (has : ∀ a ∈ as, p a = false) (l : Text)
    (bs : List Text) :
    (as ++ l :: bs).findIdx? p =
      if p l then some as.length else (bs.findIdx? p).map (· + 1 + as.length) := by
  rw [List.findIdx?_append, List.findIdx?_eq_none_iff.2 has, Option.none_or, List.findIdx?_cons]
  cases p l with
  | true => simp
  | false => simp [Function.comp_def]

/-! ### Commented declarations -/

/-- An active line that declares an entry still does when it is commented out, exactly if it stays
short enough to be looked at. -/
theorem isDeclaration_comment (hc : isCommented l = false)
    (h : isDeclaration kind key limit l = true) :
    isDeclaration kind key limit (comment l) = decide ((l.length : Int) + 2 ≤ limit) := by
  simp only [isDeclaration, uncomment_of_not_commented hc, Bool.or_self, Bool.and_eq_true] at h
  have hne : (comment l).isEmpty = false := by
    rw [List.isEmpty_eq_false_iff_exists_mem]
    exact ⟨'#', by simp [comment]⟩
  have hlength : ((comment l).length : Int) = l.length + 2 := by
    rw [length_comment]
    rfl
  rw [isDeclaration, uncomment_comment, h.2, hne, hlength, Bool.or_true, Bool.not_false,
    Bool.true_and, Bool.and_true]

/-! ### Switching twice -/

/-- **Switching back.** If a switch has switched an entry off, the same switch again acts on the
same line, switches the entry on and gives the text back, provided that the line with its comment
sign is not longer than the limit. Otherwise no switch acts on that line or one before it. -/
theorem toggle_back (h : toggle t kind key limit = .ok r) (hoff : r.enabled = false) :
    ∃ l, (splitOn '\n' t)[r.lineNumber - 1]? = some l ∧
      ((l.length : Int) + 2 ≤ limit →
        toggle r.content kind key limit = .ok
          { content := t, message := about kind key "enabled".toList, lineNumber := r.lineNumber
            enabled := true }) ∧
      (limit < l.length + 2 →
        ∀ r', toggle r.content kind key limit = .ok r' → r.lineNumber < r'.lineNumber) := by
  obtain ⟨as, l, bs, hlocate, hfirst, hdecl, hcontent, hnumber, henabled⟩ :=
    toggle_eq_ok h
  obtain ⟨hkind, hkey, hsplit, -⟩ := locate_eq_ok_iff.1 hlocate
  have hc : isCommented l = false := henabled ▸ hoff
  have hswitched : switched l = comment l := if_neg (by simp [hc])
  have hfeed : '\n' ∉ comment l := hswitched ▸ not_mem_switched (not_mem_of_splitOn hsplit)
  have hpieces : splitOn '\n' r.content = as ++ comment l :: bs := by
    rw [hcontent, hswitched, splitOn_exchanged hsplit hfeed]
  have hfind := findIdx?_append_cons hfirst (comment l) bs
  rw [isDeclaration_comment hc hdecl] at hfind
  refine ⟨l, ?_, ?_, ?_⟩
  · rw [hsplit, hnumber, Nat.add_sub_cancel]
    simp
  · intro hshort
    rw [if_pos (decide_eq_true hshort)] at hfind
    have hback := toggle_of_locate (locate_eq_ok_iff.2 ⟨hkind, hkey, hpieces, hfind⟩)
    have hagain : switched (comment l) = l := by
      rw [switched, if_pos (isCommented_comment l), uncomment_comment]
    rw [hback, hagain, isCommented_comment, ← hsplit, join_splitOn, hnumber]
    rfl
  · intro hlong r' hr'
    rw [if_neg (by simpa using hlong)] at hfind
    obtain ⟨as', l', bs', hlocate', -, -, -, hnumber', -⟩ := toggle_eq_ok hr'
    obtain ⟨-, -, hsplit', hfind'⟩ := locate_eq_ok_iff.1 hlocate'
    rw [← hsplit', hpieces, hfind, Option.map_eq_some_iff] at hfind'
    obtain ⟨j, -, hj⟩ := hfind'
    omega

/-- A text that declares an alias twice, and a copy that is commented out. -/
def copiedText : Text := "export A=1\n  alias ll='ls -l'\n# alias ll=ls\nalias ll=x\r\n".toList

theorem toggle_back_copied :
    ∃ r, toggle copiedText .aliased "ll".toList 20 = .ok r ∧ r.enabled = false ∧
      toggle r.content .aliased "ll".toList 20 = .ok
        { content := copiedText, message := "Alias 'll' enabled".toList, lineNumber := 2
          enabled := true } := by
  have htoggle : toggle copiedText .aliased "ll".toList 20 = .ok
      { content := "export A=1\n  # alias ll='ls -l'\n# alias ll=ls\nalias ll=x\r\n".toList
        message := "Alias 'll' disabled".toList, lineNumber := 2, enabled := false } := rfl
  obtain ⟨l, hl, hback, -⟩ := toggle_back htoggle rfl
  obtain rfl : l = "  alias ll='ls -l'".toList := (Option.some.inj hl).symm
  exact ⟨_, htoggle, rfl, hback (by decide)⟩

/-- A line as long as the limit is switched off, and then is too long to be found. -/
theorem toggle_not_back :
    ∃ r, toggle "alias a=1".toList .aliased ['a'] 9 = .ok r ∧ r.enabled = false ∧
      toggle r.content .aliased ['a'] 9 = .error (.notFound .aliased ['a']) :=
  ⟨_, rfl, rfl, rfl⟩

end ShellConfig.Edit
