import ShellConfig.Proofs.Entry.Removal
import ShellConfig.Proofs.Text.Pieces

/-!
# Carriage returns in edited texts

Texts in which carriage returns stand only in front of line feeds. Main statements:
`returnsPaired_iff_lines`, that these are the texts with no carriage return in a line;
`not_mem_dropReturn_switched`, that a switch brings none into a line; and
`edits_pair_returns`, what becomes of such a text when an entry is switched, put into a state or
deleted.
-/

namespace ShellConfig

namespace Text

variable {as bs : List Text} {l l' s t : Text}

/-- Each carriage return of a text stands right in front of a line feed. -/
def ReturnsPaired (t : Text) : Prop := ∀ s u, t = s ++ '\r' :: u → ∃ v, u = '\n' :: v

/-! ### Carriage returns and lines -/

theorem returnsPaired_nil : ReturnsPaired [] := by
  intro s u h
  simp at h

theorem returnsPaired_cons {c : Char} :
    ReturnsPaired (c :: t) ↔ (c = '\r' → ∃ v, t = '\n' :: v) ∧ ReturnsPaired t := by
  constructor
  · intro h
    constructor
    · rintro rfl
      exact h [] t rfl
    · rintro s u rfl
      exact h (c :: s) u rfl
  · rintro ⟨hc, ht⟩ s u h
    cases s with
    | nil =>
      obtain ⟨rfl, rfl⟩ := List.cons.inj h
      exact hc rfl
    | cons d s =>
      obtain ⟨rfl, rfl⟩ := List.cons.inj h
      exact ht s u rfl

theorem forall_not_mem_consHead {c x : Char} {ls : List Text} :
    (∀ l ∈ consHead c ls, x ∉ l) ↔ x ≠ c ∧ ∀ l ∈ ls, x ∉ l := by
  cases ls with
  | nil => simp [consHead]
  | cons l ls => simp [consHead, and_assoc]

/-- Carriage returns that stand in front of line feeds belong to no line, and all others do. -/
theorem returnsPaired_iff_lines : ReturnsPaired t ↔ ∀ l ∈ lines t, '\r' ∉ l := by
  fun_induction lines t with
  | case1 => simp [returnsPaired_nil]
  | case2 t ih => simp [returnsPaired_cons, ih]
  | case3 t ih => simp [returnsPaired_cons, ih]
  | case4 c t hfeed hreturn ih =>
    rw [returnsPaired_cons, forall_not_mem_consHead, ih]
    refine and_congr_left fun _ => ?_
    constructor
    · rintro hc rfl
      obtain ⟨v, rfl⟩ := hc rfl
      exact hreturn v rfl rfl
    · intro hc h
      exact absurd h.symm hc

instance : DecidablePred ReturnsPaired := fun _ => decidable_of_iff _ returnsPaired_iff_lines.symm

/-- Of the pieces between line feeds all but the last may end with a carriage return. -/
theorem returnsPaired_join (h : ∀ p ∈ as ++ l :: bs, '\n' ∉ p) :
    ReturnsPaired (join ['\n'] (as ++ l :: bs)) ↔
      (∀ a ∈ as, '\r' ∉ dropReturn a) ∧ '\r' ∉ (if bs = [] then l else dropReturn l) ∧
        ∀ b ∈ dropReturns bs, '\r' ∉ b := by
  rw [returnsPaired_iff_lines, lines_join_middle as l bs h]
  simp [or_imp, forall_and]

/-- A piece may be replaced by one that brings no carriage return in front of its end. -/
theorem ReturnsPaired.of_piece (h : ReturnsPaired t) (hsplit : splitOn '\n' t = as ++ l :: bs)
    (hfeed : '\n' ∉ l') (hend : '\r' ∉ dropReturn l → '\r' ∉ dropReturn l')
    (hlast : '\r' ∉ l → '\r' ∉ l') : ReturnsPaired (join ['\n'] (as ++ l' :: bs)) := by
  rw [← join_splitOn '\n' t, hsplit, returnsPaired_join (forall_not_mem_of_splitOn hsplit)] at h
  rw [returnsPaired_join (forall_not_mem_exchanged hsplit hfeed)]
  refine ⟨h.1, ?_, h.2.2⟩
  have hl := h.2.1
  split at hl
  · next hbs =>
    rw [if_pos hbs]
    exact hlast hl
  · next hbs =>
    rw [if_neg hbs]
    exact hend hl

theorem ReturnsPaired.of_append (h : ReturnsPaired (s ++ '\r' :: t)) : ReturnsPaired s := by
  rintro a u rfl
  obtain ⟨v, hv⟩ := h a (u ++ '\r' :: t) (by simp)
  cases u with
  | nil => simp at hv
  | cons c u =>
    obtain ⟨rfl, -⟩ := List.cons.inj hv
    exact ⟨u, rfl⟩

/-! ### Pieces taken away -/

theorem ReturnsPaired.of_erased {b : Text} (h : ReturnsPaired t)
    (hsplit : splitOn '\n' t = as ++ l :: b :: bs) :
    ReturnsPaired (join ['\n'] (as ++ b :: bs)) := by
  have hpiece := forall_not_mem_of_splitOn hsplit
  rw [← join_splitOn '\n' t, hsplit, returnsPaired_join hpiece] at h
  rw [List.forall_mem_append, List.forall_mem_cons] at hpiece
  have hmiddle := dropReturns_middle [] b bs
  rw [List.nil_append, List.map_nil, List.nil_append] at hmiddle
  have hrest := h.2.2
  rw [hmiddle, List.forall_mem_cons] at hrest
  exact (returnsPaired_join (List.forall_mem_append.2 ⟨hpiece.1, hpiece.2.2⟩)).2 ⟨h.1, hrest⟩

/-- If the last piece cannot, then the one before it ends with a carriage return. -/
theorem ReturnsPaired.exists_of_init (h : ReturnsPaired t) (hsplit : splitOn '\n' t = as ++ [l])
    (hnot : ¬ReturnsPaired (join ['\n'] as)) :
    ∃ s, t = s ++ '\r' :: '\n' :: l ∧ join ['\n'] as = s ++ ['\r'] := by
  rcases List.eq_nil_or_concat as with rfl | ⟨as, a, rfl⟩
  · exact absurd returnsPaired_nil hnot
  · rw [List.concat_eq_append] at hsplit hnot ⊢
    have hpiece := forall_not_mem_of_splitOn hsplit
    have hreturn : a = dropReturn a ++ ['\r'] := by
      refine (eq_dropReturn_append a).resolve_left fun hsame => hnot ?_
      rw [← join_splitOn '\n' t, hsplit, returnsPaired_join hpiece] at h
      obtain ⟨has, ha⟩ := List.forall_mem_append.1 h.1
      rw [List.forall_mem_singleton, ← hsame] at ha
      rw [returnsPaired_join (List.forall_mem_append.1 hpiece).1, if_pos rfl]
      exact ⟨has, ha, nofun⟩
    have hinit : join ['\n'] (as ++ [a]) = join ['\n'] (as ++ [dropReturn a]) ++ ['\r'] := by
      rw [← join_concat_append, ← hreturn]
    refine ⟨join ['\n'] (as ++ [dropReturn a]), ?_, hinit⟩
    calc t = join ['\n'] (as ++ [a]) ++ (['\n'] ++ l) := by
          rw [← join_splitOn '\n' t, hsplit, join_append _ (by simp) (by simp)]
          rfl
      _ = _ := by simp [hinit]

end Text

namespace Edit

open Text

variable {key l t : Text} {enabled : Bool} {kind : Kind} {limit : Int} {r : EditResult}

/-! ### Switched lines -/

theorem not_blank_of_isDeclaration (h : isDeclaration kind key limit l = true) :
    allBlank l = false := by
  rw [Bool.eq_false_iff]
  intro hblank
  obtain ⟨-, hwritten | hwritten⟩ := isDeclaration_eq_true_iff.1 h
  · rw [hwritten.not_blank] at hblank
    cases hblank
  · have hless : allBlank (uncomment l) = true :=
      List.all_eq_true.2 fun c hc => isBlank_of_mem hblank ((uncomment_sublist l).subset hc)
    rw [hwritten.not_blank] at hless
    cases hless

theorem not_mem_dropReturn_uncomment (h : '\r' ∉ dropReturn l) :
    '\r' ∉ dropReturn (uncomment l) := by
  cases hc : isCommented l with
  | false => rwa [uncomment_of_not_commented hc]
  | true =>
    obtain ⟨b, r, hb, rfl⟩ := exists_of_isCommented hc
    rw [dropReturn_append_cons (by decide), List.mem_append, List.mem_cons, not_or, not_or] at h
    have hlast : b.getLast? ≠ some '\r' := fun hlast => h.1 (List.mem_of_getLast? hlast)
    rw [uncomment_commented hb, dropReturn_append hlast, List.mem_append, not_or]
    exact ⟨h.1, fun hr => h.2.2 ((dropReturn_isSuffix (trimLeft_isSuffix r)).subset hr)⟩

theorem not_mem_dropReturn_comment (hl : allBlank l = false) (h : '\r' ∉ dropReturn l) :
    '\r' ∉ dropReturn (comment l) := by
  obtain ⟨c, r, hr, hc⟩ := exists_trimLeft_eq_cons hl
  have hne : c ≠ '\r' := by
    rintro rfl
    revert hc
    decide
  rw [eq_leadingBlanks_append hr, dropReturn_append_cons hne] at h
  have hcomment : dropReturn (comment l) = leadingBlanks l ++ '#' :: ' ' :: c :: dropReturn r := by
    have hsigns := dropReturn_append_cons hne (leadingBlanks l ++ ['#', ' ']) r
    simpa [comment, hr] using hsigns
  rw [hcomment]
  simpa using h

theorem not_mem_dropReturn_switched (hdecl : isDeclaration kind key limit l = true)
    (h : '\r' ∉ dropReturn l) : '\r' ∉ dropReturn (switched l) := by
  unfold switched
  split
  · exact not_mem_dropReturn_uncomment h
  · exact not_mem_dropReturn_comment (not_blank_of_isDeclaration hdecl) h

theorem not_mem_return_switched (h : '\r' ∉ l) : '\r' ∉ switched l := by
  unfold switched
  split
  · exact fun hmem => h ((uncomment_sublist l).subset hmem)
  · exact fun hmem => h (mem_of_mem_comment hmem (by decide) (by decide))

/-! ### Edited texts -/

theorem returnsPaired_of_toggle (h : ReturnsPaired t) (hr : toggle t kind key limit = .ok r) :
    ReturnsPaired r.content := by
  obtain ⟨as, l, bs, hlocate, -, hdecl, hcontent, -, -⟩ := toggle_eq_ok hr
  obtain ⟨-, -, hsplit, -⟩ := locate_eq_ok_iff.1 hlocate
  have hfeed := not_mem_of_splitOn hsplit
  rw [hcontent]
  exact h.of_piece hsplit (not_mem_switched hfeed) (not_mem_dropReturn_switched hdecl)
    not_mem_return_switched

theorem returnsPaired_of_setEnabled (h : ReturnsPaired t)
    (hr : setEnabled t kind key enabled limit = .ok r) : ReturnsPaired r.content := by
  obtain ⟨as, l, bs, hlocate, -, hdecl, hcontent, -, -⟩ := setEnabled_eq_ok hr
  obtain ⟨-, -, hsplit, -⟩ := locate_eq_ok_iff.1 hlocate
  have hfeed := not_mem_of_splitOn hsplit
  have hend : '\r' ∉ dropReturn l → '\r' ∉ dropReturn (settled enabled l) := by
    unfold settled
    split
    · exact not_mem_dropReturn_switched hdecl
    · exact id
  have hlast : '\r' ∉ l → '\r' ∉ settled enabled l := by
    unfold settled
    split
    · exact not_mem_return_switched
    · exact id
  rw [hcontent]
  exact h.of_piece hsplit (not_mem_settled hfeed) hend hlast

/-- If a deletion leaves a carriage return alone, it has taken the last line, and the return is what
is left of the pair in front of that line. -/
theorem exists_of_delete (h : ReturnsPaired t) (hr : delete t kind key limit = .ok r)
    (hleft : ¬ReturnsPaired r.content) :
    ∃ s l, t = s ++ '\r' :: '\n' :: l ∧ '\n' ∉ l ∧ r.content = s ++ ['\r'] := by
  obtain ⟨as, l, bs, hline⟩ := deletes_of_delete hr
  have hcontent : r.content = join ['\n'] (as ++ bs) := by rw [hline.result]
  rw [hcontent] at hleft
  cases bs with
  | cons b bs => exact absurd (h.of_erased hline.before) hleft
  | nil =>
    rw [List.append_nil] at hcontent hleft
    obtain ⟨s, ht, hs⟩ := h.exists_of_init hline.before hleft
    exact ⟨s, l, ht, not_mem_of_splitOn hline.before, hcontent.trans hs⟩

/-- **Carriage returns in edited texts.** In a text in which each carriage return stands in front of
a line feed, each still does after an entry was switched or put into a state. So it is after a
deletion, unless this has taken the last line, with no line feed behind it, and the line before it
ended with a carriage return and a line feed: of these the return is left alone, and no other is. -/
theorem edits_pair_returns (h : ReturnsPaired t) (kind : Kind) (key : Text) (limit : Int) :
    (∀ r, toggle t kind key limit = .ok r → ReturnsPaired r.content) ∧
      (∀ enabled r, setEnabled t kind key enabled limit = .ok r → ReturnsPaired r.content) ∧
      ∀ r, delete t kind key limit = .ok r → (¬ReturnsPaired r.content ↔
        ∃ s l, t = s ++ '\r' :: '\n' :: l ∧ '\n' ∉ l ∧ r.content = s ++ ['\r'] ∧
          ReturnsPaired s) := by
  refine ⟨fun r hr => returnsPaired_of_toggle h hr, fun enabled r hr =>
    returnsPaired_of_setEnabled h hr, fun r hr => ⟨fun hleft => ?_, ?_⟩⟩
  · obtain ⟨s, l, rfl, hfeed, hcontent⟩ := exists_of_delete h hr hleft
    exact ⟨s, l, rfl, hfeed, hcontent, h.of_append⟩
  · rintro ⟨s, l, -, -, hcontent, -⟩ hpaired
    obtain ⟨v, hv⟩ := hpaired s [] hcontent
    cases hv

/-- A text with lines of both endings, in which an alias stands twice. -/
def mixedText : Text := "# alias a=1\r\ncd\n\r\n alias a=2\r\n".toList

theorem edits_pair_returns_mixed :
    ReturnsPaired mixedText ∧
      ∃ r r' r'', toggle mixedText .aliased ['a'] 20 = .ok r ∧ ReturnsPaired r.content ∧
        setEnabled mixedText .aliased ['a'] true 20 = .ok r' ∧ ReturnsPaired r'.content ∧
        delete mixedText .aliased ['a'] 20 = .ok r'' ∧ ReturnsPaired r''.content := by
  have h : ReturnsPaired mixedText := by decide
  obtain ⟨htoggle, hset, hdelete⟩ := edits_pair_returns h .aliased ['a'] 20
  refine ⟨h, _, _, _, rfl, htoggle _ rfl, rfl, hset true _ rfl, rfl, ?_⟩
  by_contra hleft
  obtain ⟨s, l, -, -, hcontent, -⟩ := (hdelete _ rfl).1 hleft
  have hlast := congrArg List.getLast? hcontent
  rw [List.getLast?_concat] at hlast
  exact absurd hlast (by decide)

theorem delete_leaves_return :
    ReturnsPaired "cd\r\nalias a=1".toList ∧
      ∃ r, delete "cd\r\nalias a=1".toList .aliased ['a'] = .ok r ∧
        r.content = "cd\r".toList ∧ ¬ReturnsPaired r.content :=
  ⟨by decide, _, rfl, rfl, by decide⟩

end Edit
end ShellConfig
