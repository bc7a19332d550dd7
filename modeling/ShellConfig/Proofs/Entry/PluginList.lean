import ShellConfig.Proofs.Entry.Reading
import ShellConfig.Proofs.Text.Pieces

/-!
# Plugin lists as they are written

A plugin list can be laid out in many ways: over any number of lines, with blanks, empty lines and
comments among the names. Main statements: `Lists.row_append` and `Lists.row_closed`, what is read
of one row; `onLines_of_writes`, what is read of the lines of a list; and `ofKind_of_writes`, that
the entries of a text with a list in it are the names of the list, line by line, whatever the
layout.
-/

namespace ShellConfig

namespace Text

variable {b s t : Text} {c : Char}

/-! ### Comments at the end -/

/-- The comment of two texts is that of the second, if the first holds none and no comment begins
where they meet. -/
theorem beforeComment_append (hs : beforeComment s = s) (ht : t.head? ≠ some '#') :
    beforeComment (s ++ t) = s ++ beforeComment t := by
  induction s with
  | nil => rfl
  | cons c s ih =>
    rw [beforeComment] at hs
    split at hs
    · cases hs
    · next hc =>
      rw [List.cons.injEq] at hs
      have hmeet : ¬(isBlank c = true ∧ (s ++ t).head? = some '#') := by
        rintro ⟨hblank, hhead⟩
        cases s with
        | nil => exact ht hhead
        | cons d s => exact hc ⟨hblank, hhead⟩
      rw [List.cons_append, beforeComment, if_neg hmeet, ih hs.2]
      rfl

theorem beforeComment_of_not_mem (h : '#' ∉ t) : beforeComment t = t := by
  induction t with
  | nil => rfl
  | cons c t ih =>
    rw [List.mem_cons, not_or] at h
    have hhead : ¬(isBlank c = true ∧ t.head? = some '#') := fun hc =>
      h.2 (List.mem_of_mem_head? hc.2)
    rw [beforeComment, if_neg hhead, ih h.2]

theorem beforeComment_of_not_blank (h : ∀ c ∈ t, isBlank c = false) : beforeComment t = t := by
  induction t with
  | nil => rfl
  | cons c t ih =>
    rw [List.forall_mem_cons] at h
    rw [beforeComment, h.1, if_neg (by simp), ih h.2]

theorem not_mem_of_allBlank (hb : allBlank b = true) (hc : isBlank c = false) : c ∉ b := by
  intro hmem
  rw [isBlank_of_mem hb hmem] at hc
  cases hc

end Text

namespace Plugins

open Text

variable {e r t w : Text} {ws : List Text} {rows : List (List Text)} {ls ls' : List Text}
  {limit : Int}

/-! ### Rows of names -/

/-- A text that can be a name in a plugin list. -/
structure IsName (w : Text) : Prop where
  ne_nil : w ≠ []
  noBlank : ∀ c ∈ w, isBlank c = false
  noClosing : ')' ∉ w
  noComment : w.head? ≠ some '#'

theorem isName_iff :
    IsName w ↔ w ≠ [] ∧ w.any isBlank = false ∧ ')' ∉ w ∧ w.head? ≠ some '#' := by
  have hblank : w.any isBlank = false ↔ ∀ c ∈ w, isBlank c = false := by simp
  rw [hblank]
  exact ⟨fun h => ⟨h.ne_nil, h.noBlank, h.noClosing, h.noComment⟩,
    fun ⟨hne, hnoBlank, hclosing, hcomment⟩ => ⟨hne, hnoBlank, hclosing, hcomment⟩⟩

instance (w : Text) : Decidable (IsName w) := decidable_of_iff _ isName_iff.symm

/-- A text lists some names: blanks stand between them, and may stand in front of the first and
behind the last. -/
inductive Lists : List Text → Text → Prop
  | nil {b : Text} (hb : allBlank b = true) : Lists [] b
  | cons {b w r : Text} {ws : List Text} (hb : allBlank b = true) (hw : IsName w)
      (hr : ∀ c ∈ r.head?, isBlank c = true) (h : Lists ws r) : Lists (w :: ws) (b ++ (w ++ r))

namespace Lists

theorem words_eq (h : Lists ws r) : words r = ws := by
  induction h with
  | nil hb => exact words_of_allBlank hb
  | cons hb hw hr _ ih =>
    rw [words_blanks_append hb, words_word_append hw.ne_nil hw.noBlank hr, ih]

theorem noClosing (h : Lists ws r) : ')' ∉ r := by
  induction h with
  | nil hb => exact not_mem_of_allBlank hb rfl
  | cons hb hw _ _ ih =>
    simp only [List.mem_append, not_or]
    exact ⟨not_mem_of_allBlank hb rfl, hw.noClosing, ih⟩

theorem beforeComment_eq (h : Lists ws r) : beforeComment r = r := by
  induction h with
  | nil hb => exact beforeComment_of_not_mem (not_mem_of_allBlank hb rfl)
  | @cons b w r _ hb hw hr _ ih =>
    have hrest : r.head? ≠ some '#' := by
      intro hhead
      exact absurd (hr '#' hhead) (by decide)
    have hword : (w ++ r).head? ≠ some '#' := by
      rw [List.head?_append_of_ne_nil _ hw.ne_nil]
      exact hw.noComment
    rw [beforeComment_append (beforeComment_of_not_mem (not_mem_of_allBlank hb rfl)) hword,
      beforeComment_append (beforeComment_of_not_blank hw.noBlank) hrest, ih]

theorem head?_ne (h : Lists ws r) : r.head? ≠ some '#' := by
  cases h with
  | nil hb =>
    intro hhead
    exact not_mem_of_allBlank hb rfl (List.mem_of_mem_head? hhead)
  | @cons b w r _ hb hw _ _ =>
    intro hhead
    cases b with
    | nil =>
      rw [List.nil_append, List.head?_append_of_ne_nil _ hw.ne_nil] at hhead
      exact hw.noComment hhead
    | cons c b => exact not_mem_of_allBlank hb rfl (List.mem_of_mem_head? hhead)

theorem of_append_blank {c : Char} (hc : isBlank c = true) (h : Lists ws (r ++ [c])) :
    Lists ws r := by
  generalize hs : r ++ [c] = s at h
  induction h generalizing r with
  | nil hb =>
    subst hs
    rw [allBlank_append, Bool.and_eq_true] at hb
    exact .nil hb.1
  | @cons b w r' _ hb hw hr _ ih =>
    rcases List.eq_nil_or_concat r' with rfl | ⟨u, d, rfl⟩
    · -- a name does not end with a blank
      have hlast := congrArg List.getLast? hs
      rw [List.append_nil, List.getLast?_append_of_ne_nil _ hw.ne_nil,
        List.getLast?_concat] at hlast
      have hname := hw.noBlank c (List.mem_of_getLast? hlast.symm)
      rw [hc] at hname
      cases hname
    · rw [List.concat_eq_append, ← List.append_assoc, ← List.append_assoc] at hs
      obtain ⟨rfl, hd⟩ := List.append_inj' hs rfl
      rw [List.append_assoc]
      refine .cons hb hw (fun c' hc' => hr c' ?_) (ih (by rw [hd, List.concat_eq_append]))
      cases u with
      | nil => cases hc'
      | cons c'' u => exact hc'

end Lists

/-- What may stand behind a row on a line that does not close the list: nothing, or a comment, which
begins the line or follows a blank. -/
inductive MayFollow (r : Text) : Text → Prop
  | nothing : MayFollow r []
  | comment (t : Text) (hr : ∀ c ∈ r.getLast?, isBlank c = true) : MayFollow r ('#' :: t)

/-- A row that does not close the list names what it lists, and the list goes on. -/
theorem Lists.row_append (h : Lists ws r) (he : MayFollow r e) : row (r ++ e) = ⟨ws, true⟩ := by
  -- the comment takes the blank before it with it
  obtain ⟨s, hcomment, hs⟩ : ∃ s, stripComment (r ++ e) = s ∧ Lists ws s := by
    cases he with
    | nothing =>
      refine ⟨r, ?_, h⟩
      rw [List.append_nil, stripComment, if_neg h.head?_ne, h.beforeComment_eq]
    | comment t hr =>
      rcases List.eq_nil_or_concat r with rfl | ⟨u, c, rfl⟩
      · exact ⟨[], rfl, h⟩
      · rw [List.concat_eq_append] at h hr ⊢
        have hc : isBlank c = true := hr c (by simp)
        have hu := h.of_append_blank hc
        have hblank : c ≠ '#' := by
          rintro rfl
          cases hc
        have hhead : (u ++ [c] ++ '#' :: t).head? ≠ some '#' := by
          rw [List.head?_append_of_ne_nil _ (by simp)]
          exact h.head?_ne
        have hcut : beforeComment (c :: '#' :: t) = [] := if_pos ⟨hc, rfl⟩
        refine ⟨u, ?_, hu⟩
        rw [stripComment, if_neg hhead, List.append_assoc, List.singleton_append,
          beforeComment_append hu.beforeComment_eq (by simpa using hblank), hcut, List.append_nil]
  unfold row
  dsimp only
  rw [hcomment, if_neg hs.noClosing, hs.words_eq]

/-- A row with a closing parenthesis behind it names what it lists, and closes the list. -/
theorem Lists.row_closed (h : Lists ws r) (t : Text) : row (r ++ ')' :: t) = ⟨ws, false⟩ := by
  have hhead : (r ++ ')' :: t).head? ≠ some '#' := by
    cases r with
    | nil => simp
    | cons c r => exact h.head?_ne
  have hclose : ¬(isBlank ')' = true ∧ t.head? = some '#') := fun hc => absurd hc.1 (by decide)
  have hcomment : stripComment (r ++ ')' :: t) = r ++ ')' :: beforeComment t := by
    rw [stripComment, if_neg hhead, beforeComment_append h.beforeComment_eq (by simp),
      beforeComment, if_neg hclose]
  have hnames : (r ++ ')' :: beforeComment t).takeWhile (· ≠ ')') = r := by
    rw [List.takeWhile_append_of_pos, List.takeWhile_cons_of_neg (by simp), List.append_nil]
    intro c hc
    simp only [decide_eq_true_eq]
    rintro rfl
    exact h.noClosing hc
  unfold row
  dsimp only
  rw [hcomment, if_pos (by simp), hnames, h.words_eq]

/-! ### Lists over several lines -/

/-- Lines write rows of names behind the opening parenthesis of a list: a row on each, all but the
last perhaps with a comment, and the closing parenthesis and anything else behind the last. -/
inductive Continues : List (List Text) → List Text → Prop
  | last {ws : List Text} {r : Text} (h : Lists ws r) (t : Text) : Continues [ws] [r ++ ')' :: t]
  | more {ws : List Text} {r e : Text} {rows : List (List Text)} {ls : List Text}
      (h : Lists ws r) (he : MayFollow r e) (hrest : Continues rows ls) :
      Continues (ws :: rows) ((r ++ e) :: ls)

/-- Lines write a plugin list with some rows of names: the first row stands behind the opening
parenthesis, which blanks may precede, and each other row on a line of its own. -/
inductive Writes : List (List Text) → List Text → Prop
  | mk {rows : List (List Text)} {b l : Text} {ls : List Text} (hb : allBlank b = true)
      (h : Continues rows (l :: ls)) : Writes rows ((b ++ ("plugins=(".toList ++ l)) :: ls)

theorem Continues.length_eq (h : Continues rows ls) : ls.length = rows.length := by
  induction h with
  | last h t => rfl
  | more h he hrest ih => rw [List.length_cons, List.length_cons, ih]

theorem Writes.length_eq (h : Writes rows ls) : ls.length = rows.length := by
  obtain ⟨hb, h⟩ := h
  exact h.length_eq

/-- A carriage return at the end of a line belongs to a comment, to the text behind the list or to
the blanks of a row. -/
theorem Continues.dropReturns (h : Continues rows ls)
    (hls : List.Forall₂ (fun l l' => l' = l ∨ l' = dropReturn l) ls ls') : Continues rows ls' := by
  induction h generalizing ls' with
  | @last ws r h t =>
    obtain ⟨l', _, hl', hnil, rfl⟩ := List.forall₂_cons_left_iff.1 hls
    obtain rfl := List.forall₂_nil_left_iff.1 hnil
    rcases hl' with rfl | rfl
    · exact .last h t
    · rw [dropReturn_append_cons (by decide)]
      exact .last h (dropReturn t)
  | @more ws r e rows ls h he hrest ih =>
    obtain ⟨l', ls', hl', hls', rfl⟩ := List.forall₂_cons_left_iff.1 hls
    rcases hl' with rfl | rfl
    · exact .more h he (ih hls')
    · cases he with
      | nothing =>
        rw [List.append_nil]
        have hless : Lists ws (dropReturn r) := by
          rcases eq_dropReturn_append r with hr | hr
          · rwa [← hr]
          · rw [hr] at h
            exact h.of_append_blank rfl
        have := Continues.more hless .nothing (ih hls')
        rwa [List.append_nil] at this
      | comment t hr =>
        rw [dropReturn_append_cons (by decide)]
        exact .more h (.comment _ hr) (ih hls')

theorem Writes.dropReturns (h : Writes rows ls)
    (hls : List.Forall₂ (fun l l' => l' = l ∨ l' = dropReturn l) ls ls') : Writes rows ls' := by
  cases h with
  | @mk b l _ hb h =>
    obtain ⟨l', ls', hl', hls', rfl⟩ := List.forall₂_cons_left_iff.1 hls
    rcases hl' with rfl | rfl
    · exact .mk hb (h.dropReturns (.cons (.inl rfl) hls'))
    · have hopening : (b ++ "plugins=(".toList).getLast? ≠ some '\r' := by
        rw [List.getLast?_append_of_ne_nil _ (by decide)]
        decide
      have hdrop := dropReturn_append hopening l
      rw [List.append_assoc, List.append_assoc] at hdrop
      rw [hdrop]
      exact .mk hb (h.dropReturns (.cons (.inr rfl) hls'))

theorem opening?_append {b : Text} (hb : allBlank b = true) (l : Text) :
    opening? (b ++ ("plugins=(".toList ++ l)) = some l := by
  rw [opening?_blanks_append hb]
  rfl

/-! ### Entries -/

/-- The entries for names on a line. -/
def named (l : Line) (ws : List Text) : List Entry :=
  ws.map fun w =>
    { kind := .plugin, lineNumber := l.number, lineText := l.text, payload := { name := some w } }

theorem onLine_plugin (inside : Bool) (l : Line) :
    Entry.onLine inside l .plugin = named l (read inside l.text).names := by
  unfold Entry.onLine Entry.payloadsOn named
  rw [List.map_map]
  rfl

theorem onLines_cons {inside goesOn : Bool} {l : Line} (h : read inside l.text = ⟨ws, goesOn⟩)
    (ls : List Line) :
    Entry.onLines [.plugin] inside (l :: ls) = named l ws ++ Entry.onLines [.plugin] goesOn ls := by
  rw [Entry.onLines, List.flatMap_singleton, onLine_plugin, h]

theorem openAfter_cons {inside goesOn : Bool} {l : Line} (h : read inside l.text = ⟨ws, goesOn⟩)
    (ls : List Line) : openAfter inside (l :: ls) = openAfter goesOn ls := by
  unfold openAfter
  rw [List.foldl_cons, h]

/-- What is read of the lines of a list behind its opening parenthesis, where the first line may be
any that reads like the first row: each name on its line, and no list is open behind the last. -/
theorem onLines_of_continues {inside : Bool} {l l' : Text} (h : Continues rows (l :: ls))
    (hread : read inside l' = row l) (n : Nat) :
    Entry.onLines [.plugin] inside (Line.numbered n (l' :: ls)) =
        (List.zipWith named (Line.numbered n (l' :: ls)) rows).flatten ∧
      openAfter inside (Line.numbered n (l' :: ls)) = false := by
  induction rows generalizing inside l l' ls n with
  | nil => cases h
  | cons ws rows ih =>
    rw [Line.numbered_cons, List.zipWith_cons_cons, List.flatten_cons]
    cases h with
    | last h t =>
      rw [h.row_closed t] at hread
      rw [onLines_cons hread, openAfter_cons hread]
      exact ⟨rfl, rfl⟩
    | more h he hrest =>
      rw [h.row_append he] at hread
      cases ls with
      | nil => cases hrest
      | cons l ls =>
        have hnext : read true l = row l := rfl
        obtain ⟨hentries, hclosed⟩ := ih hrest hnext (n + 1)
        rw [onLines_cons hread, openAfter_cons hread, hentries]
        exact ⟨rfl, hclosed⟩

/-- What is read of the lines of a list: each name on its line, and no list is open behind the last.
-/
theorem onLines_of_writes (h : Writes rows ls) (n : Nat) :
    Entry.onLines [.plugin] false (Line.numbered n ls) =
        (List.zipWith named (Line.numbered n ls) rows).flatten ∧
      openAfter false (Line.numbered n ls) = false := by
  obtain ⟨hb, h⟩ := h
  refine onLines_of_continues h ?_ n
  unfold read
  rw [if_neg (by simp), opening?_append hb]

/-- What is read of lines with a list among them. -/
theorem onLines_short_of_writes {as bs : List Text} (h : Writes rows ls)
    (hfits : ∀ l ∈ ls, (l.length : Int) ≤ limit)
    (hopen : openAfter false (Line.short limit 1 as) = false) :
    Entry.onLines [.plugin] false (Line.short limit 1 (as ++ (ls ++ bs))) =
        Entry.onLines [.plugin] false (Line.short limit 1 as) ++
          ((List.zipWith named (Line.numbered (1 + as.length) ls) rows).flatten ++
            Entry.onLines [.plugin] false (Line.short limit (1 + as.length + ls.length) bs)) ∧
      openAfter false (Line.short limit 1 (as ++ ls)) = false := by
  have hshort : Line.short limit (1 + as.length) ls = Line.numbered (1 + as.length) ls :=
    List.filter_eq_self.2 fun l hl => decide_eq_true (hfits l.text (Line.text_mem_of_mem hl))
  obtain ⟨hentries, hclosed⟩ := onLines_of_writes h (1 + as.length)
  constructor
  · rw [Line.short_append, Entry.onLines_append, hopen, Line.short_append, Entry.onLines_append,
      hshort, hentries, hclosed]
  · rw [Line.short_append, openAfter_append, hopen, hshort, hclosed]

/-- **Plugin lists.** If a text holds the lines of a plugin list behind lines that leave none open,
the plugins that are read of these lines are the names of the list, in order, each on the line that
it is written on; and the lines behind them are read outside of a list. -/
theorem ofKind_of_writes {t : Text} {before block after : List Text}
    (hsplit : splitOn '\n' t = before ++ (block ++ after)) (h : Writes rows block)
    (hfits : ∀ l ∈ (t.lines.drop before.length).take block.length, (l.length : Int) ≤ limit)
    (hopen : openAfter false (Line.short limit 1 (t.lines.take before.length)) = false) :
    let as := t.lines.take before.length
    let ls := (t.lines.drop before.length).take block.length
    let bs := (t.lines.drop before.length).drop block.length
    ls.length = rows.length ∧
      Entry.ofKind .plugin t limit =
        Entry.onLines [.plugin] false (Line.short limit 1 as) ++
          ((List.zipWith named (Line.numbered (1 + as.length) ls) rows).flatten ++
            Entry.onLines [.plugin] false (Line.short limit (1 + as.length + ls.length) bs)) ∧
      openAfter false (Line.short limit 1 (as ++ ls)) = false := by
  intro as ls bs
  have hpieces := forall₂_dropReturns (splitOn '\n' t)
  rw [← lines_eq, hsplit] at hpieces
  have hblock := List.forall₂_take block.length (List.forall₂_drop before.length hpieces)
  rw [List.drop_left, List.take_left] at hblock
  have hwrites : Writes rows ls := h.dropReturns hblock
  have hlines : t.lines = as ++ (ls ++ bs) := by
    rw [List.take_append_drop, List.take_append_drop]
  refine ⟨hwrites.length_eq, ?_⟩
  unfold Entry.ofKind
  rw [Line.safe_eq, hlines]
  exact onLines_short_of_writes hwrites hfits hopen

/-- The lines of a list with comments, one of them with a parenthesis, an empty line, a carriage
return, and text behind the end. -/
def commentedBlock : List Text :=
  ["\tplugins=(git\r".toList, " # see (docs)".toList, [], "fzf  z # (fast)".toList,
    ") # done (x)".toList]

def commentedRows : List (List Text) := [["git".toList], [], [], ["fzf".toList, "z".toList], []]

theorem writes_commentedBlock : Writes commentedRows commentedBlock := by
  have hgit : Lists ["git".toList] "git\r".toList :=
    .cons (b := []) (r := "\r".toList) rfl (by decide) (by simp [isBlank]) (.nil rfl)
  have hcomment : Lists [] " ".toList := .nil rfl
  have hempty : Lists [] [] := .nil rfl
  have hz : Lists ["z".toList] "  z ".toList :=
    .cons (b := "  ".toList) (r := " ".toList) rfl (by decide) (by simp [isBlank]) (.nil rfl)
  have hfzf : Lists ["fzf".toList, "z".toList] "fzf  z ".toList :=
    .cons (b := []) (r := "  z ".toList) rfl (by decide) (by simp [isBlank]) hz
  refine .mk (b := ['\t']) rfl (.more hgit .nothing ?_)
  refine .more hcomment (.comment _ (by simp [isBlank])) (.more hempty .nothing ?_)
  exact .more hfzf (.comment _ (by simp [isBlank])) (.last hempty " # done (x)".toList)

theorem ofKind_of_writes_commented :
    let t := join ['\n'] (["alias g=git".toList] ++ (commentedBlock ++ ["plugins_x=1".toList]))
    (splitOn '\n' t = ["alias g=git".toList] ++ (commentedBlock ++ ["plugins_x=1".toList]) ∧
        Writes commentedRows commentedBlock ∧
        (∀ l ∈ (t.lines.drop 1).take 5, (l.length : Int) ≤ 15) ∧
        openAfter false (Line.short 15 1 (t.lines.take 1)) = false) ∧
      (Entry.ofKind .plugin t 15).map (fun e => (e.lineNumber, e.payload.name)) =
        [(2, some "git".toList), (5, some "fzf".toList), (5, some "z".toList)] := by
  intro t
  have hsplit :
      splitOn '\n' t = ["alias g=git".toList] ++ (commentedBlock ++ ["plugins_x=1".toList]) := by
    decide
  have hfits : ∀ l ∈ (t.lines.drop 1).take 5, (l.length : Int) ≤ 15 := by decide
  have hopen : openAfter false (Line.short 15 1 (t.lines.take 1)) = false := by decide
  refine ⟨⟨hsplit, writes_commentedBlock, hfits, hopen⟩, ?_⟩
  rw [(ofKind_of_writes hsplit writes_commentedBlock hfits hopen).2.1]
  decide

end Plugins
end ShellConfig
