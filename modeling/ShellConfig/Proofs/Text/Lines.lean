import ShellConfig.Text.Lines
import Mathlib.Data.List.Forall2

/-!
# Cutting into lines

How the ways to cut a text into lines are related. Main statements: `lines_eq`, that the lines are
the pieces between line feeds without the carriage returns before these; `LineEnding.lines_join`,
what the lines of a text are that was joined with either ending; `LineEnding.trimmed_insert`, what
they are where pieces are put between others; and `LineEnding.three_cuts`, how the three ways agree
line by line.
-/

namespace ShellConfig

namespace Text

variable {c sep : Char} {l t : Text} {ls : List Text}

/-! ### Carriage returns -/

/-- A piece without the carriage return it may end with. -/
def dropReturn (t : Text) : Text := (before? ['\r'] t).getD t

@[simp] theorem dropReturn_append_return (t : Text) : dropReturn (t ++ ['\r']) = t := by
  unfold dropReturn
  rw [before?_eq_some_iff.2 rfl, Option.getD_some]

theorem dropReturn_of_getLast (h : t.getLast? ≠ some '\r') : dropReturn t = t := by
  unfold dropReturn
  cases hb : before? ['\r'] t with
  | none => rfl
  | some r =>
    rw [before?_eq_some_iff] at hb
    exact absurd (by simp [hb]) h

@[simp] theorem dropReturn_nil : dropReturn [] = [] := rfl

theorem dropReturn_append (h : l.getLast? ≠ some '\r') (t : Text) :
    dropReturn (l ++ t) = l ++ dropReturn t := by
  by_cases ht : t.getLast? = some '\r'
  · obtain ⟨s, rfl⟩ := List.getLast?_eq_some_iff.1 ht
    rw [← List.append_assoc, dropReturn_append_return, dropReturn_append_return]
  · rw [dropReturn_of_getLast ht, dropReturn_of_getLast]
    cases t with
    | nil => simpa using h
    | cons c t => simpa [List.getLast?_append] using ht

theorem dropReturn_append_cons (hc : c ≠ '\r') (l t : Text) :
    dropReturn (l ++ c :: t) = l ++ c :: dropReturn t := by
  have hl : (l ++ [c]).getLast? ≠ some '\r' := by simpa using hc
  simpa using dropReturn_append hl t

theorem dropReturn_cons (h : c ≠ '\r' ∨ t ≠ []) : dropReturn (c :: t) = c :: dropReturn t := by
  by_cases ht : t = []
  · subst ht
    exact dropReturn_of_getLast (by simpa using h)
  · by_cases hlast : t.getLast? = some '\r'
    · obtain ⟨s, rfl⟩ := List.getLast?_eq_some_iff.1 hlast
      rw [← List.cons_append, dropReturn_append_return, dropReturn_append_return]
    · rw [dropReturn_of_getLast hlast, dropReturn_of_getLast]
      rwa [List.getLast?_cons_of_ne_nil ht]

theorem eq_dropReturn_append (t : Text) : t = dropReturn t ∨ t = dropReturn t ++ ['\r'] := by
  by_cases h : t.getLast? = some '\r'
  · obtain ⟨s, rfl⟩ := List.getLast?_eq_some_iff.1 h
    exact .inr (by rw [dropReturn_append_return])
  · exact .inl (dropReturn_of_getLast h).symm

theorem dropReturn_isSuffix {s : Text} (h : s <:+ t) : dropReturn s <:+ dropReturn t := by
  obtain ⟨a, rfl⟩ := h
  by_cases hs : s = []
  · rw [hs]
    exact List.nil_suffix
  · by_cases hlast : s.getLast? = some '\r'
    · obtain ⟨u, rfl⟩ := List.getLast?_eq_some_iff.1 hlast
      rw [← List.append_assoc, dropReturn_append_return, dropReturn_append_return]
      exact List.suffix_append a u
    · have hlast' : (a ++ s).getLast? ≠ some '\r' := by
        rwa [List.getLast?_append_of_ne_nil a hs]
      rw [dropReturn_of_getLast hlast, dropReturn_of_getLast hlast']
      exact List.suffix_append a s

theorem length_dropReturn_le (t : Text) : (dropReturn t).length ≤ t.length := by
  by_cases h : t.getLast? = some '\r'
  · obtain ⟨s, rfl⟩ := List.getLast?_eq_some_iff.1 h
    simp
  · exact Nat.le_of_eq (congrArg List.length (dropReturn_of_getLast h))

/-- The lines that the pieces between line feeds are: all but the last lose a carriage return. -/
def dropReturns : List Text → List Text
  | [] => []
  | [l] => [l]
  | l :: l' :: ls => dropReturn l :: dropReturns (l' :: ls)

theorem dropReturns_cons (l : Text) (h : ls ≠ []) :
    dropReturns (l :: ls) = dropReturn l :: dropReturns ls := by
  match ls, h with
  | _ :: _, _ => rfl

theorem dropReturns_append (as : List Text) (h : ls ≠ []) :
    dropReturns (as ++ ls) = as.map dropReturn ++ dropReturns ls := by
  induction as with
  | nil => rfl
  | cons a as ih =>
    rw [List.cons_append, dropReturns_cons a (by simp [h]), ih]
    rfl

/-- Whether a piece is the last decides what becomes of it; the pieces around it do not matter. -/
theorem dropReturns_middle (as : List Text) (l : Text) (bs : List Text) :
    dropReturns (as ++ l :: bs) =
      as.map dropReturn ++ (if bs = [] then l else dropReturn l) :: dropReturns bs := by
  rw [dropReturns_append as (List.cons_ne_nil l bs)]
  cases bs with
  | nil => rfl
  | cons b bs => rw [dropReturns_cons l (List.cons_ne_nil b bs), if_neg (List.cons_ne_nil b bs)]

theorem dropReturns_eq_map (h : ∀ l, ls.getLast? = some l → l.getLast? ≠ some '\r') :
    dropReturns ls = ls.map dropReturn := by
  induction ls with
  | nil => rfl
  | cons l ls ih =>
    by_cases hls : ls = []
    · subst hls
      simp [dropReturns, dropReturn_of_getLast (h l rfl)]
    · rw [dropReturns_cons l hls, ih, List.map_cons]
      intro l' hl'
      exact h l' (by rw [List.getLast?_cons_of_ne_nil hls, hl'])

theorem forall₂_dropReturns (ls : List Text) :
    List.Forall₂ (fun l l' => l' = l ∨ l' = dropReturn l) ls (dropReturns ls) := by
  induction ls with
  | nil => exact .nil
  | cons l ls ih =>
    by_cases hls : ls = []
    · subst hls
      exact .cons (.inl rfl) .nil
    · rw [dropReturns_cons l hls]
      exact .cons (.inr rfl) ih

/-- Each line by its place: the last is its piece as it stands. -/
theorem dropReturns_eq_mapIdx (ls : List Text) :
    dropReturns ls = ls.mapIdx fun i l => if i + 1 < ls.length then dropReturn l else l := by
  induction ls with
  | nil => rfl
  | cons l ls ih =>
    by_cases hls : ls = []
    · subst hls
      rfl
    · have hlength : 0 < ls.length := List.length_pos_iff.2 hls
      rw [dropReturns_cons l hls, ih, List.mapIdx_cons, if_pos (by simpa using hlength)]
      simp only [List.length_cons, Nat.add_lt_add_iff_right]

theorem exists_of_forall₂ {R : Text → Text → Prop} {ls' : List Text} {l' : Text}
    (h : List.Forall₂ R ls ls') (hl' : l' ∈ ls') : ∃ l ∈ ls, R l l' := by
  induction h with
  | nil => cases hl'
  | @cons x _ _ _ hR _ ih =>
    rcases List.mem_cons.1 hl' with rfl | hl'
    · exact ⟨x, List.mem_cons_self, hR⟩
    · obtain ⟨l, hl, hRl⟩ := ih hl'
      exact ⟨l, List.mem_cons_of_mem x hl, hRl⟩

theorem getLast?_dropReturns (ls : List Text) : (dropReturns ls).getLast? = ls.getLast? := by
  induction ls with
  | nil => rfl
  | cons l ls ih =>
    by_cases hls : ls = []
    · subst hls
      rfl
    · have hne : dropReturns ls ≠ [] := by
        intro hnil
        rw [hnil, List.getLast?_nil, eq_comm, List.getLast?_eq_none_iff] at ih
        exact hls ih
      rw [dropReturns_cons l hls, List.getLast?_cons_of_ne_nil hne,
        List.getLast?_cons_of_ne_nil hls, ih]

/-! ### Pieces -/

theorem splitOn_cons_self (sep : Char) (t : Text) :
    splitOn sep (sep :: t) = [] :: splitOn sep t := by
  simp [splitOn]

theorem splitOn_cons_of_ne (h : c ≠ sep) (t : Text) :
    splitOn sep (c :: t) = consHead c (splitOn sep t) := by
  simp [splitOn, h]

theorem splitOn_ne_nil (sep : Char) (t : Text) : splitOn sep t ≠ [] := splitBy_ne_nil _ t

theorem splitOn_of_not_mem (h : sep ∉ l) : splitOn sep l = [l] :=
  splitBy_of_forall fun _ hc => beq_false_of_ne fun heq => h (heq ▸ hc)

theorem splitOn_append_sep (a b : Text) :
    splitOn sep (a ++ sep :: b) = splitOn sep a ++ splitOn sep b :=
  splitBy_append_cons (p := (· == sep)) (beq_self_eq_true sep) a b

theorem splitOn_append (h : sep ∉ l) (t : Text) :
    splitOn sep (l ++ sep :: t) = l :: splitOn sep t := by
  rw [splitOn_append_sep, splitOn_of_not_mem h, List.singleton_append]

theorem join_cons (sep l : Text) (h : ls ≠ []) :
    join sep (l :: ls) = l ++ (sep ++ join sep ls) := by
  match ls, h with
  | _ :: _, _ => rfl

theorem getLast?_join (sep : Text) (h : ls.getLast? = some l) (hl : l ≠ []) :
    (join sep ls).getLast? = l.getLast? := by
  induction ls with
  | nil => cases h
  | cons l' ls ih =>
    by_cases hls : ls = []
    · subst hls
      obtain rfl := Option.some.inj h
      rfl
    · rw [List.getLast?_cons_of_ne_nil hls] at h
      have hjoin := ih h
      have hne : join sep ls ≠ [] := by
        intro hnil
        rw [hnil, List.getLast?_nil, eq_comm, List.getLast?_eq_none_iff] at hjoin
        exact hl hjoin
      rw [join_cons sep l' hls, List.getLast?_append_of_ne_nil _ (by simp [hne]),
        List.getLast?_append_of_ne_nil _ hne, hjoin]

theorem join_append (sep : Text) {as bs : List Text} (has : as ≠ []) (hbs : bs ≠ []) :
    join sep (as ++ bs) = join sep as ++ (sep ++ join sep bs) := by
  induction as with
  | nil => exact absurd rfl has
  | cons a as ih =>
    by_cases hnil : as = []
    · subst hnil
      exact join_cons sep a hbs
    · rw [List.cons_append, join_cons sep a (by simp [hnil]), ih hnil, join_cons sep a hnil]
      simp only [List.append_assoc]

theorem join_concat_append (sep : Text) (as : List Text) (s t : Text) :
    join sep (as ++ [s ++ t]) = join sep (as ++ [s]) ++ t := by
  by_cases has : as = []
  · rw [has]
    rfl
  · rw [join_append sep has (by simp), join_append sep has (by simp)]
    simp [join]

theorem join_flatten (sep : Text) {gs : List (List Text)} (h : ∀ g ∈ gs, g ≠ []) :
    join sep gs.flatten = join sep (gs.map (join sep)) := by
  induction gs with
  | nil => rfl
  | cons g gs ih =>
    have hg := h g List.mem_cons_self
    have hgs : ∀ g' ∈ gs, g' ≠ [] := fun g' hg' => h g' (List.mem_cons_of_mem g hg')
    cases gs with
    | nil => simp [join]
    | cons g' gs =>
      have hne : (g' :: gs).flatten ≠ [] := by simp [hgs g' List.mem_cons_self]
      rw [List.flatten_cons, join_append sep hg hne, ih hgs]
      exact (join_cons sep (join sep g) (List.cons_ne_nil _ _)).symm

/-- Cutting a text that was joined from pieces gives the pieces back, whatever the way of cutting,
if that leaves a piece alone and cuts it off where it stands in front of a separator. -/
theorem cut_join {cut : Text → List Text} {sep : Text} {p : Text → Prop}
    (halone : ∀ l, p l → cut l = [l]) (hfront : ∀ l t, p l → cut (l ++ (sep ++ t)) = l :: cut t)
    (hne : ls ≠ []) (h : ∀ l ∈ ls, p l) : cut (join sep ls) = ls := by
  induction ls with
  | nil => exact absurd rfl hne
  | cons l ls ih =>
    have hl := h l List.mem_cons_self
    by_cases hls : ls = []
    · subst hls
      exact halone l hl
    · rw [join_cons sep l hls, hfront l _ hl,
        ih hls fun l' hl' => h l' (List.mem_cons_of_mem l hl')]

theorem splitOn_join (hne : ls ≠ []) (h : ∀ l ∈ ls, sep ∉ l) :
    splitOn sep (join [sep] ls) = ls :=
  cut_join (fun _ => splitOn_of_not_mem) (fun _ t hl => splitOn_append hl t) hne h

/-- Joined pieces are cut again where they were joined. The empty text is one piece, even if it was
joined from none. -/
theorem splitOn_join_eq (h : ∀ l ∈ ls, sep ∉ l) :
    splitOn sep (join [sep] ls) = if ls = [] then [[]] else ls := by
  split
  · next hls =>
    subst hls
    rfl
  · next hls => exact splitOn_join hls h

theorem not_mem_of_mem_splitOn (h : l ∈ splitOn sep t) : sep ∉ l := by
  induction t generalizing l with
  | nil =>
    obtain rfl : l = [] := by simpa [splitOn] using h
    exact List.not_mem_nil
  | cons c t ih =>
    by_cases hc : c = sep
    · subst hc
      rw [splitOn_cons_self, List.mem_cons] at h
      rcases h with rfl | h
      · exact List.not_mem_nil
      · exact ih h
    · rw [splitOn_cons_of_ne hc] at h
      cases hs : splitOn sep t with
      | nil => exact absurd hs (splitOn_ne_nil sep t)
      | cons p ps =>
        rw [hs] at h ih
        rcases List.mem_cons.1 h with rfl | h
        · rw [List.mem_cons, not_or]
          exact ⟨Ne.symm hc, ih List.mem_cons_self⟩
        · exact ih (List.mem_cons_of_mem p h)

section Pieces

variable {l' : Text} {as bs : List Text}

theorem forall_not_mem_of_splitOn (h : splitOn sep t = ls) : ∀ l ∈ ls, sep ∉ l :=
  fun _ hl => not_mem_of_mem_splitOn (h ▸ hl)

theorem not_mem_of_splitOn (h : splitOn sep t = as ++ l :: bs) : sep ∉ l :=
  forall_not_mem_of_splitOn h l (List.mem_append_right as List.mem_cons_self)

theorem forall_not_mem_exchanged (h : splitOn sep t = as ++ l :: bs) (hl' : sep ∉ l') :
    ∀ p ∈ as ++ l' :: bs, sep ∉ p := by
  have hpiece := forall_not_mem_of_splitOn h
  rw [List.forall_mem_append, List.forall_mem_cons] at hpiece ⊢
  exact ⟨hpiece.1, hl', hpiece.2.2⟩

/-- It stands in its place when the text is cut again. -/
theorem splitOn_exchanged (h : splitOn sep t = as ++ l :: bs) (hl' : sep ∉ l') :
    splitOn sep (join [sep] (as ++ l' :: bs)) = as ++ l' :: bs :=
  splitOn_join (by simp) (forall_not_mem_exchanged h hl')

end Pieces

/-! ### Lines -/

/-- The lines are the pieces between line feeds, without the carriage returns before these. -/
theorem lines_eq (t : Text) : lines t = dropReturns (splitOn '\n' t) := by
  fun_induction lines t with
  | case1 => rfl
  | case2 t ih =>
    rw [splitOn_cons_self, dropReturns_cons [] (splitOn_ne_nil _ t), ih, dropReturn_nil]
  | case3 t ih =>
    rw [splitOn_cons_of_ne (by decide), splitOn_cons_self, consHead,
      dropReturns_cons _ (splitOn_ne_nil _ t), ih]
    rfl
  | case4 c t hfeed hreturn ih =>
    have hc : c ≠ '\n' := fun h => hfeed h
    rw [splitOn_cons_of_ne hc, ih]
    cases t with
    | nil => rfl
    | cons d t =>
      by_cases hd : d = '\n'
      · -- the piece is empty, but then `c` is no carriage return
        subst hd
        have hr : c ≠ '\r' := fun h => hreturn t h rfl
        rw [splitOn_cons_self, dropReturns_cons [] (splitOn_ne_nil _ t), consHead, consHead,
          dropReturns_cons _ (splitOn_ne_nil _ t), dropReturn_cons (.inl hr)]
      · rw [splitOn_cons_of_ne hd]
        cases hs : splitOn '\n' t with
        | nil => exact absurd hs (splitOn_ne_nil _ t)
        | cons p ps =>
          by_cases hps : ps = []
          · subst hps
            rfl
          · rw [consHead, consHead, dropReturns_cons _ hps, dropReturns_cons _ hps, consHead,
              dropReturn_cons (.inr (List.cons_ne_nil d p))]

theorem lines_join_middle (as : List Text) (l : Text) (bs : List Text)
    (h : ∀ p ∈ as ++ l :: bs, '\n' ∉ p) :
    lines (join ['\n'] (as ++ l :: bs)) =
      as.map dropReturn ++ ([if bs = [] then l else dropReturn l] ++ dropReturns bs) := by
  rw [lines_eq, splitOn_join (by simp) h, dropReturns_middle]
  rfl

theorem length_dropReturns (ls : List Text) : (dropReturns ls).length = ls.length :=
  (forall₂_dropReturns ls).length_eq.symm

/-- Each line is the piece between line feeds in its place, which may have lost a return. -/
theorem exists_piece_of_lines {i : Nat} (h : (lines t)[i]? = some l) :
    ∃ p, (splitOn '\n' t)[i]? = some p ∧ (p = l ∨ p = l ++ ['\r']) := by
  rw [lines_eq] at h
  obtain ⟨hi, hl⟩ := List.getElem?_eq_some_iff.1 h
  have hi' : i < (splitOn '\n' t).length := by
    rwa [length_dropReturns] at hi
  refine ⟨(splitOn '\n' t)[i], List.getElem?_eq_getElem hi', ?_⟩
  have hpair := (forall₂_dropReturns (splitOn '\n' t)).get hi' hi
  simp only [List.get_eq_getElem, hl] at hpair
  rcases hpair with hsame | hless
  · exact .inl hsame.symm
  · rw [hless]
    exact eq_dropReturn_append _

theorem lines_append_crlf (h : '\n' ∉ l) (t : Text) :
    lines (l ++ '\r' :: '\n' :: t) = l :: lines t := by
  rw [lines_eq, lines_eq, ← List.singleton_append, ← List.append_assoc,
    splitOn_append (by simpa using h), dropReturns_cons _ (splitOn_ne_nil _ t),
    dropReturn_append_return]

theorem lines_of_not_mem (h : '\n' ∉ l) : lines l = [l] := by
  rw [lines_eq, splitOn_of_not_mem h]
  rfl

/-! ### Pairs of carriage return and line feed -/

theorem splitCrlf_ne_nil (t : Text) : splitCrlf t ≠ [] := by
  fun_cases splitCrlf t with
  | case1 => simp
  | case2 t => simp
  | case3 c t => cases splitCrlf t <;> simp [consHead]

theorem join_splitCrlf (t : Text) : join ['\r', '\n'] (splitCrlf t) = t := by
  fun_induction splitCrlf t with
  | case1 => rfl
  | case2 t ih => rw [join_nil_cons _ (splitCrlf_ne_nil t), ih]; rfl
  | case3 c t _ ih => rw [join_consHead _ _ (splitCrlf_ne_nil t), ih]

theorem splitCrlf_of_not_mem (h : '\n' ∉ l) : splitCrlf l = [l] := by
  fun_induction splitCrlf l with
  | case1 => rfl
  | case2 t => simp at h
  | case3 c t _ ih =>
    rw [ih fun hmem => h (List.mem_cons_of_mem c hmem)]
    rfl

theorem splitCrlf_append (h : '\n' ∉ l) (t : Text) :
    splitCrlf (l ++ '\r' :: '\n' :: t) = l :: splitCrlf t := by
  induction l with
  | nil => rfl
  | cons c l ih =>
    rw [List.mem_cons, not_or] at h
    rw [List.cons_append, splitCrlf, ih h.2]
    · rfl
    · -- a carriage return in the piece has no line feed behind it
      intro r _ hr
      cases l with
      | nil => cases hr
      | cons d l =>
        rw [List.cons_append, List.cons.injEq] at hr
        exact h.2 (hr.1 ▸ List.mem_cons_self)

theorem splitCrlf_join (hne : ls ≠ []) (h : ∀ l ∈ ls, '\n' ∉ l) :
    splitCrlf (join ['\r', '\n'] ls) = ls :=
  cut_join (fun _ => splitCrlf_of_not_mem) (fun _ t hl => splitCrlf_append hl t) hne h

theorem crlfCount_le (t : Text) : crlfCount t ≤ t.count '\n' := by
  fun_induction crlfCount t with
  | case1 => exact Nat.zero_le _
  | case2 t ih => simpa using ih
  | case3 c t _ ih => exact Nat.le_trans ih List.count_le_count_cons

theorem not_mem_of_mem_splitCrlf (hcount : crlfCount t = t.count '\n') (h : l ∈ splitCrlf t) :
    '\n' ∉ l := by
  fun_induction splitCrlf t generalizing l with
  | case1 =>
    obtain rfl : l = [] := by simpa using h
    exact List.not_mem_nil
  | case2 t ih =>
    rcases List.mem_cons.1 h with rfl | h
    · exact List.not_mem_nil
    · exact ih (by simpa [crlfCount] using hcount) h
  | case3 c t hpair ih =>
    have hcrlf : crlfCount (c :: t) = crlfCount t := by
      rw [crlfCount]
      exact hpair
    have hle := crlfCount_le t
    have hc : c ≠ '\n' := by
      rintro rfl
      rw [hcrlf, List.count_cons_self] at hcount
      omega
    rw [hcrlf, List.count_cons_of_ne hc] at hcount
    cases hs : splitCrlf t with
    | nil => exact absurd hs (splitCrlf_ne_nil t)
    | cons p ps =>
      rw [hs] at h
      rcases List.mem_cons.1 h with rfl | h
      · rw [List.mem_cons, not_or]
        exact ⟨Ne.symm hc, ih hcount (hs ▸ List.mem_cons_self)⟩
      · exact ih hcount (hs ▸ List.mem_cons_of_mem p h)

end Text

namespace LineEnding

open Text

variable {l t : Text} {ls : List Text}

/-! ### Line endings -/

/-- The lines that pieces are once they are joined with an ending. -/
def trimmed : LineEnding → List Text → List Text
  | lf, ls => dropReturns ls
  | crlf, ls => ls

/-- The lines of a text that was joined from pieces. -/
theorem lines_join (e : LineEnding) (hne : ls ≠ []) (h : ∀ l ∈ ls, '\n' ∉ l) :
    lines (join e.text ls) = e.trimmed ls := by
  cases e with
  | lf => rw [lines_eq, text, splitOn_join hne h]; rfl
  | crlf => exact cut_join (fun _ => lines_of_not_mem) (fun _ t hl => lines_append_crlf hl t) hne h

theorem join_split (e : LineEnding) (t : Text) : join e.text (e.split t) = t := by
  cases e with
  | lf => exact join_splitOn '\n' t
  | crlf => exact join_splitCrlf t

/-- Cutting a text that was joined from pieces without line feeds gives the pieces back. -/
theorem split_join (e : LineEnding) (hne : ls ≠ []) (h : ∀ l ∈ ls, '\n' ∉ l) :
    e.split (join e.text ls) = ls := by
  cases e with
  | lf => exact splitOn_join hne h
  | crlf => exact splitCrlf_join hne h

theorem split_ne_nil (e : LineEnding) (t : Text) : e.split t ≠ [] := by
  cases e with
  | lf => exact splitOn_ne_nil '\n' t
  | crlf => exact splitCrlf_ne_nil t

theorem not_mem_of_mem_split (h : l ∈ (of t).split t) : '\n' ∉ l := by
  unfold of at h
  split at h
  · exact not_mem_of_mem_splitCrlf (by simp [*]) h
  · exact not_mem_of_mem_splitOn h

theorem lines_eq_trimmed (t : Text) : lines t = (of t).trimmed ((of t).split t) := by
  conv_lhs => rw [← join_split (of t) t]
  exact lines_join _ (split_ne_nil _ t) fun l hl => not_mem_of_mem_split hl

theorem length_trimmed (e : LineEnding) (ls : List Text) : (e.trimmed ls).length = ls.length := by
  cases e with
  | lf => exact length_dropReturns ls
  | crlf => rfl

theorem getLast?_trimmed (e : LineEnding) (ls : List Text) :
    (e.trimmed ls).getLast? = ls.getLast? := by
  cases e with
  | lf => exact getLast?_dropReturns ls
  | crlf => rfl

/-- Pieces that are put between others become lines of their own, and the lines around them stay the
same. At the end of the text this needs that no carriage return stands there. -/
theorem trimmed_insert (e : LineEnding) (as bs : List Text) {ms : List Text} (hne : ms ≠ [])
    (hlast : ∀ l, (as ++ bs).getLast? = some l → l.getLast? ≠ some '\r') :
    ∃ as' ms' bs', e.trimmed (as ++ bs) = as' ++ bs' ∧
      e.trimmed (as ++ (ms ++ bs)) = as' ++ (ms' ++ bs') ∧ as'.length = as.length ∧
      List.Forall₂ (fun l l' => l' = l ∨ l' = dropReturn l) ms ms' := by
  cases e with
  | crlf => exact ⟨as, ms, bs, rfl, rfl, rfl, List.forall₂_same.2 fun l _ => .inl rfl⟩
  | lf =>
    have hmap : dropReturns (as ++ bs) = as.map dropReturn ++ bs.map dropReturn := by
      rw [dropReturns_eq_map hlast, List.map_append]
    by_cases hbs : bs = []
    · subst hbs
      refine ⟨_, dropReturns ms, [], hmap, ?_, List.length_map .., forall₂_dropReturns ms⟩
      rw [List.append_nil, List.append_nil]
      exact dropReturns_append as hne
    · refine ⟨_, ms.map dropReturn, _, hmap, ?_, List.length_map .., ?_⟩
      · have hlast' : ∀ l, bs.getLast? = some l → l.getLast? ≠ some '\r' := fun l hl =>
          hlast l (by rw [List.getLast?_append_of_ne_nil as hbs, hl])
        rw [trimmed, dropReturns_append as (by simp [hbs]), dropReturns_append ms hbs,
          dropReturns_eq_map hlast']
      · exact List.forall₂_map_right_iff.2 (List.forall₂_same.2 fun l _ => .inr rfl)

theorem getLast?_of_split (h : t.getLast? ≠ some '\r') (e : LineEnding)
    (hl : (e.split t).getLast? = some l) : l.getLast? ≠ some '\r' := by
  cases hnil : l with
  | nil => simp
  | cons c r =>
    rw [← join_split e t, getLast?_join e.text hl (by simp [hnil]), hnil] at h
    exact h

/-- The pieces between the endings of a text are its lines, or the pieces between line feeds. -/
theorem split_eq_or (t : Text) : (of t).split t = splitOn '\n' t ∨ (of t).split t = lines t := by
  cases he : of t with
  | lf => exact .inl rfl
  | crlf =>
    right
    rw [lines_eq_trimmed t, he]
    rfl

/-- **Three ways to cut.** There are as many lines as pieces between line feeds and as pieces
between the endings of a text. Each line is the piece between line feeds in its place, and unless it
is the last it has lost the carriage return that the piece may end with. The pieces between the
endings are either the ones or the others, and joined with the ending they give the text back. -/
theorem three_cuts (t : Text) :
    (lines t).length = (splitOn '\n' t).length ∧
      ((of t).split t).length = (splitOn '\n' t).length ∧
      lines t = (splitOn '\n' t).mapIdx (fun i l =>
        if i + 1 < (splitOn '\n' t).length then dropReturn l else l) ∧
      ((of t).split t = splitOn '\n' t ∨ (of t).split t = lines t) ∧
      join (of t).text ((of t).split t) = t := by
  have hlines : lines t = _ := (lines_eq t).trans (dropReturns_eq_mapIdx (splitOn '\n' t))
  have hlength : (lines t).length = (splitOn '\n' t).length := by
    rw [lines_eq, length_dropReturns]
  have hsplit := split_eq_or t
  refine ⟨hlength, ?_, hlines, hsplit, join_split (of t) t⟩
  rcases hsplit with hsplit | hsplit
  · rw [hsplit]
  · rw [hsplit, hlength]

end LineEnding

namespace Text

/-! ### Two texts with a line feed between them -/

theorem lines_append_feed (a b : Text) :
    lines (a ++ '\n' :: b) = (splitOn '\n' a).map dropReturn ++ lines b := by
  rw [lines_eq, splitOn_append_sep, dropReturns_append _ (splitOn_ne_nil _ b), lines_eq]

/-- A line feed that makes no pair with a carriage return parts a text into two that are cut into
lines one by one. -/
theorem lines_append {a : Text} (h : a.getLast? ≠ some '\r') (b : Text) :
    lines (a ++ '\n' :: b) = lines a ++ lines b := by
  rw [lines_append_feed, lines_eq a, dropReturns_eq_map]
  exact fun l hl => LineEnding.getLast?_of_split h .lf hl

end Text
end ShellConfig
