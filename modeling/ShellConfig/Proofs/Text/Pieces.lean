import ShellConfig.Entry.Recognize
import ShellConfig.Proofs.Text.Blank

/-!
# Pieces of a text

What is cut out of a text stands in it. `InOrder` says this of several pieces at once, each behind
the one before it. Main statements: `InOrder.within` and `InOrder.sublist`, that this carries over
to a text around and to some of the pieces; `inOrder_words`, that words are such pieces; and
`words_append_blank`, that words are read on either side of a blank.
-/

namespace ShellConfig.Text

variable {a b p r s t w : Text} {ps qs : List Text} {c : Char}

/-! ### Pieces one behind the other -/

/-- Some pieces stand in a text one behind the other. -/
inductive InOrder : List Text → Text → Prop
  | nil (t : Text) : InOrder [] t
  | cons (a p : Text) {ps : List Text} {t : Text} (h : InOrder ps t) :
      InOrder (p :: ps) (a ++ (p ++ t))

namespace InOrder

theorem append_left (h : InOrder ps t) (a : Text) : InOrder ps (a ++ t) := by
  cases h with
  | nil => exact .nil _
  | cons b p h =>
    rw [← List.append_assoc]
    exact .cons (a ++ b) p h

theorem append_right (h : InOrder ps t) (b : Text) : InOrder ps (t ++ b) := by
  induction h with
  | nil => exact .nil _
  | cons a p _ ih =>
    rw [List.append_assoc, List.append_assoc]
    exact .cons a p ih

/-- What stands in a part of a text stands in the text. -/
theorem within (h : InOrder ps s) (hs : s <:+: t) : InOrder ps t := by
  obtain ⟨a, b, rfl⟩ := hs
  exact (h.append_left a).append_right b

/-- Some of the pieces still stand one behind the other. -/
theorem sublist (h : InOrder ps t) (hqs : qs.Sublist ps) : InOrder qs t := by
  induction h generalizing qs with
  | nil t =>
    obtain rfl := List.sublist_nil.1 hqs
    exact .nil t
  | cons a p _ ih =>
    cases hqs with
    | cons _ hqs => exact ((ih hqs).append_left p).append_left a
    | cons_cons _ hqs => exact .cons a p (ih hqs)

theorem isInfix_of_mem (h : InOrder ps t) (hp : p ∈ ps) : p <:+: t := by
  induction h with
  | nil => cases hp
  | cons a q _ ih =>
    rcases List.mem_cons.1 hp with rfl | hp
    · exact ⟨a, _, List.append_assoc ..⟩
    · exact (ih hp).trans ((List.suffix_append q _).trans (List.suffix_append a _)).isInfix

end InOrder

theorem inOrder_singleton (h : p <:+: t) : InOrder [p] t := by
  obtain ⟨a, b, rfl⟩ := h
  rw [List.append_assoc]
  exact .cons a p (.nil b)

/-! ### Words -/

/-- The pieces between some characters stand in the text, the first of them at its front. -/
theorem exists_splitBy (p : Char → Bool) (t : Text) :
    ∃ q qs r, splitBy p t = q :: qs ∧ t = q ++ r ∧ InOrder qs r := by
  induction t with
  | nil => exact ⟨[], [], [], rfl, rfl, .nil []⟩
  | cons c t ih =>
    obtain ⟨q, qs, r, hsplit, rfl, hqs⟩ := ih
    rw [splitBy_cons, hsplit]
    split
    · exact ⟨[], q :: qs, c :: (q ++ r), rfl, rfl, .cons [c] q hqs⟩
    · exact ⟨c :: q, qs, r, rfl, rfl, hqs⟩

/-- The words of a text stand in it one behind the other. -/
theorem inOrder_words (t : Text) : InOrder (words t) t := by
  obtain ⟨q, qs, r, hsplit, ht, hqs⟩ := exists_splitBy isBlank t
  have hpieces : InOrder (splitBy isBlank t) t := by
    rw [hsplit, ht]
    exact .cons [] q hqs
  exact hpieces.sublist List.filter_sublist

/-- A blank parts the words in front of it from those behind it. -/
theorem words_append_blank (hc : isBlank c = true) (s t : Text) :
    words (s ++ c :: t) = words s ++ words t := by
  unfold words
  rw [splitBy_append_cons hc, List.filter_append]

theorem words_blanks_append (hb : allBlank b = true) (t : Text) : words (b ++ t) = words t := by
  induction b with
  | nil => rfl
  | cons c b ih =>
    rw [allBlank_cons, Bool.and_eq_true] at hb
    have hcut := words_append_blank hb.1 [] (b ++ t)
    rw [List.cons_append]
    exact hcut.trans (ih hb.2)

theorem words_of_allBlank (hb : allBlank b = true) : words b = [] := by
  have h := words_blanks_append hb []
  rwa [List.append_nil] at h

theorem words_word_append (hne : w ≠ []) (hw : ∀ c ∈ w, isBlank c = false)
    (ht : ∀ c ∈ t.head?, isBlank c = true) : words (w ++ t) = w :: words t := by
  have hword : words w = [w] := by
    unfold words
    rw [splitBy_of_forall hw]
    simpa using hne
  cases t with
  | nil => rw [List.append_nil, hword, words_of_allBlank rfl]
  | cons c t =>
    have hc := ht c rfl
    have hrest : words (c :: t) = words t := words_append_blank hc [] t
    rw [words_append_blank hc, hword, hrest, List.singleton_append]

/-! ### Parts -/

theorem trimLeft_isSuffix (t : Text) : trimLeft t <:+ t := List.dropWhile_suffix _

theorem trimRight_isPrefix (t : Text) : trimRight t <+: t := by
  obtain ⟨b, -, ht⟩ := exists_trimRight_append t
  exact ⟨b, ht.symm⟩

theorem trim_isInfix (t : Text) : trim t <:+: t :=
  (trimRight_isPrefix _).isInfix.trans (trimLeft_isSuffix t).isInfix

/-- What follows a word behind the first blanks is the end of the text. -/
theorem isSuffix_of_after? (h : after? w (trimLeft t) = some r) : r <:+ t := by
  rw [after?_eq_some_iff] at h
  exact (h ▸ List.suffix_append w r).trans (trimLeft_isSuffix t)

theorem isInfix_of_content? (h : content? t = some s) : s <:+: t := by
  unfold content? at h
  split at h
  · obtain ⟨c, hc, rfl⟩ := Option.map_eq_some_iff.1 h
    obtain ⟨u, rfl⟩ := List.getLast?_eq_some_iff.1 hc
    exact (List.suffix_append u [c]).isInfix
  · obtain rfl := Option.some.inj h
    exact trim_isInfix t

theorem isInfix_of_argument? (h : argument? t = some s) : s <:+: t := by
  cases t with
  | nil => cases h
  | cons c t =>
    rw [argument?] at h
    split at h
    · exact (isInfix_of_content? h).trans (List.suffix_cons c t).isInfix
    · cases h

theorem stripQuotes_isInfix (t : Text) : stripQuotes t <:+: t := by
  unfold stripQuotes
  split
  · next q c r =>
    split
    · exact (List.dropLast_prefix _).isInfix.trans (List.suffix_cons q (c :: r)).isInfix
    · exact List.infix_rfl
  · exact List.infix_rfl

theorem beforeComment_isPrefix (t : Text) : beforeComment t <+: t := by
  induction t with
  | nil => exact List.nil_prefix
  | cons c t ih =>
    rw [beforeComment]
    split
    · exact List.nil_prefix
    · exact List.prefix_cons_inj c |>.2 ih

theorem stripComment_isPrefix (t : Text) : stripComment t <+: t := by
  unfold stripComment
  split
  · exact List.nil_prefix
  · exact beforeComment_isPrefix t

end ShellConfig.Text
