import ShellConfig.Proofs.Entry.Declaration
import ShellConfig.Proofs.Entry.PluginList
import ShellConfig.Proofs.Section.Partition
import Mathlib.Algebra.BigOperators.Group.List.Basic
import Mathlib.Algebra.GroupWithZero.Nat

/-!
# What stands in sections

Sections count their entries of each kind, and the lines that are something else. Main statements:
`sum_countP`, counting in two ways; `onLine_of_bare`, that no entry stands on a blank line or a
comment, not even inside a plugin list; `existsUnique_class`, that each line is of one class; and
`ofText_counts`, what the counts of the sections of a text add up to.
-/

namespace ShellConfig

open Text

/-! ### Counting in two ways -/

theorem sum_ite_eq_countP {α : Type} (p : α → Bool) (xs : List α) :
    (xs.map fun x => if p x then 1 else 0).sum = xs.countP p := by
  induction xs with
  | nil => rfl
  | cons x xs ih => rw [List.map_cons, List.sum_cons, ih, List.countP_cons, Nat.add_comm]

/-- If each element of one list belongs to exactly one of another list, those that belong to the
elements of that list are as many as all of them. -/
theorem sum_countP {α β : Type} (xs : List α) {ys : List β} {r : α → β → Bool}
    (h : ∀ y ∈ ys, xs.countP (r · y) = 1) : (xs.map fun x => ys.countP (r x)).sum = ys.length := by
  induction ys with
  | nil => simp
  | cons y ys ih =>
    obtain ⟨hy, hys⟩ := List.forall_mem_cons.1 h
    simp only [List.countP_cons]
    rw [List.sum_map_add, ih hys, sum_ite_eq_countP, hy, List.length_cons]

/-! ### Lines without entries -/

namespace Entry

variable {e : Entry} {l : Line} {limit : Int} {t : Text}

theorem exists_of_bare (h : Section.isOther t = false) :
    ∃ b r, t = b ++ r ∧ allBlank b = true ∧ Plugins.MayFollow b r := by
  cases hblank : allBlank t with
  | true => exact ⟨t, [], (List.append_nil t).symm, hblank, .nothing⟩
  | false =>
    have hcomment : Section.isComment t = true := by simpa [Section.isOther, hblank] using h
    obtain ⟨b, r, hb, rfl⟩ := Edit.exists_of_isCommented hcomment
    refine ⟨b, '#' :: r, rfl, hb, .comment r fun c hc => ?_⟩
    exact isBlank_of_mem hb (List.mem_of_getLast? hc)

/-- No entry is read of a line that is blank or a comment, inside a plugin list or not. -/
theorem onLine_of_bare (h : Section.isOther l.text = false) (inside : Bool) (k : Kind) :
    onLine inside l k = [] := by
  obtain ⟨b, r, ht, hb, hr⟩ := exists_of_bare h
  have hpayloads : Recognize.payloads l.text k = [] := by
    rw [ht, Recognize.payloads_blanks_append hb]
    cases hr <;> cases k <;> rfl
  have hopening : Plugins.opening? l.text = none := by
    rw [ht, Plugins.opening?_blanks_append hb]
    cases hr <;> rfl
  have hrow : Plugins.row l.text = ⟨[], true⟩ := ht ▸ (Plugins.Lists.nil hb).row_append hr
  have hnames : (Plugins.read inside l.text).names = [] := by
    unfold Plugins.read
    rw [hrow, hopening]
    cases inside <;> rfl
  rw [onLine, List.map_eq_nil_iff]
  by_cases hk : k = .plugin
  · rw [hk, payloadsOn, hnames, List.map_nil]
  · rw [payloadsOn_of_ne hk, hpayloads]

/-- Whether one of some entries stands on a line. -/
def anyOn (es : List Entry) (l : Line) : Bool := es.any fun e => e.lineNumber = l.number

theorem isOther_of_anyOn (hl : l ∈ Line.all t) (h : anyOn (ofText t limit) l = true) :
    Section.isOther l.text = true := by
  obtain ⟨e, he, hnumber⟩ := List.any_eq_true.1 h
  obtain ⟨l', hl', k, -, inside, hread⟩ := exists_onLine_of_mem he
  have hsame : l'.number = l.number := by
    have := lineNumber_of_mem_onLine hread
    have := of_decide_eq_true hnumber
    omega
  obtain rfl := Line.eq_of_number_eq (List.mem_of_mem_filter hl') hl hsame
  by_contra hbare
  rw [onLine_of_bare (Bool.eq_false_iff.2 hbare)] at hread
  cases hread

theorem ofText_nil (limit : Int) : ofText [] limit = [] := by
  refine List.eq_nil_iff_forall_not_mem.2 fun e he => ?_
  obtain ⟨l, hl, hnumber⟩ := exists_line_of_mem he
  have hl := List.mem_of_mem_filter hl
  have hother := isOther_of_anyOn hl (List.any_eq_true.2 ⟨e, he, decide_eq_true hnumber⟩)
  obtain rfl := List.mem_singleton.1 hl
  cases hother

end Entry

/-! ### Classes of lines -/

/-- What a line can be: blank, a comment, a line with an entry, or none of these. -/
inductive LineClass
  | blank
  | comment
  | declaring
  | other
  deriving DecidableEq, Repr

namespace LineClass

variable {c : LineClass} {es : List Entry} {l : Line} {limit : Int} {ls : List Line} {t : Text}

def all : List LineClass := [blank, comment, declaring, other]

/-- Whether a line is of a class, given all entries. -/
def holds (es : List Entry) (l : Line) : LineClass → Bool
  | blank => allBlank l.text
  | comment => Section.isComment l.text
  | declaring => Entry.anyOn es l
  | other => Section.isOther l.text && !Entry.anyOn es l

theorem isComment_of_allBlank (h : allBlank t = true) : Section.isComment t = false := by
  unfold Section.isComment
  rw [trimLeft_eq_nil_iff.2 h]
  rfl

/-- Each line of a text is of one class. -/
theorem existsUnique_class (limit : Int) (hl : l ∈ Line.all t) :
    ∃! c : LineClass, c.holds (Entry.ofText t limit) l = true := by
  have hother : Entry.anyOn (Entry.ofText t limit) l = true → Section.isOther l.text = true :=
    Entry.isOther_of_anyOn hl
  have hcomment : allBlank l.text = true → Section.isComment l.text = false :=
    isComment_of_allBlank
  unfold Section.isOther at hother
  by_cases hany : Entry.anyOn (Entry.ofText t limit) l = true
  · refine ⟨declaring, hany, fun c hc => ?_⟩
    cases c <;> simp_all [holds, Section.isOther]
  · by_cases hbare : Section.isOther l.text = true
    · refine ⟨other, by simp [holds, hany, hbare], fun c hc => ?_⟩
      cases c <;> simp_all [holds, Section.isOther]
    · by_cases hblank : allBlank l.text = true
      · refine ⟨blank, hblank, fun c hc => ?_⟩
        cases c <;> simp_all [holds, Section.isOther]
      · refine ⟨comment, by simpa [holds, Section.isOther, hblank] using hbare, fun c hc => ?_⟩
        cases c <;> simp_all [holds, Section.isOther]

theorem countP_all (h : ∃! c : LineClass, c.holds es l = true) :
    all.countP (·.holds es l) = 1 := by
  obtain ⟨c, hc, honly⟩ := h
  have hclass : all.countP (·.holds es l) = all.countP (· = c) := by
    refine List.countP_congr fun c' _ => ?_
    rw [decide_eq_true_eq]
    refine ⟨honly c', ?_⟩
    rintro rfl
    exact hc
  rw [hclass]
  cases c <;> rfl

theorem length_eq (h : ∀ l ∈ ls, ∃! c : LineClass, c.holds es l = true) :
    ls.length = ls.countP (other.holds es) + ls.countP (blank.holds es) +
      ls.countP (comment.holds es) + ls.countP (declaring.holds es) := by
  rw [← sum_countP all fun l hl => countP_all (h l hl)]
  simp only [all, List.map_cons, List.map_nil, List.sum_cons, List.sum_nil]
  omega

end LineClass

namespace Section

variable {l : Line} {limit : Int} {n : Int} {s : Segment} {ss : List Segment} {t : Text}
  {ts : List Text}

/-! ### Counting section by section -/

theorem countP_contains {last : Nat} (h : Segment.Tiles last 1 ss) (hfrom : 1 ≤ n)
    (hto : n ≤ last) : ss.countP (·.contains n) = 1 := by
  obtain ⟨m, rfl⟩ := Int.eq_ofNat_of_zero_le (by omega : 0 ≤ n)
  obtain ⟨s, hs, hstart, hend⟩ := h.exists_mem_of_le (by omega : 1 ≤ m) (by omega)
  rw [List.countP_eq_length_filter, h.filter_contains hs hstart hend, List.length_singleton]

theorem sum_count {es : List Entry} (h : Segment.Tiles ts.length 1 ss)
    (hes : ∀ e ∈ es, 1 ≤ e.lineNumber ∧ e.lineNumber ≤ ts.length) (k : Kind) :
    ((ss.map (ofSegment (Line.numbered 1 ts) es)).map (·.count k)).sum =
      es.countP (·.kind = k) := by
  have hcount : ∀ s : Segment, (ofSegment (Line.numbered 1 ts) es s).count k =
      (es.filter (·.kind = k)).countP fun e => s.contains e.lineNumber := by
    intro s
    show (es.filter _).countP _ = _
    rw [List.countP_filter, List.countP_filter]
    exact List.countP_congr fun e _ => by rw [Bool.and_comm]
  rw [List.map_map, List.countP_eq_length_filter, ← sum_countP ss]
  · exact congrArg List.sum (List.map_congr_left fun s _ => hcount s)
  · intro e he
    have := hes e (List.mem_of_mem_filter he)
    exact countP_contains h this.1 this.2

/-- Whether an entry stands on a line of a segment can be told from the entries of the segment. -/
theorem any_filter_contains (h : s.contains l.number = true) (es : List Entry) :
    ((es.filter fun e => s.contains e.lineNumber).any fun e => e.lineNumber = l.number) =
      Entry.anyOn es l := by
  rw [List.any_filter, Entry.anyOn, Bool.eq_iff_iff, List.any_eq_true, List.any_eq_true]
  refine exists_congr fun e => and_congr_right fun _ => ?_
  rw [Bool.and_eq_true, decide_eq_true_eq]
  refine ⟨And.right, fun hnumber => ⟨?_, hnumber⟩⟩
  rwa [hnumber]

/-- How many lines of a segment are of a class. -/
def linesOfClass (ls : List Line) (es : List Entry) (s : Segment) (c : LineClass) : Nat :=
  (s.linesOf ls).countP (c.holds es)

theorem otherCount_ofSegment (hs : 1 ≤ s.startLine) (ts : List Text) (es : List Entry) :
    (ofSegment (Line.numbered 1 ts) es s).otherCount =
      linesOfClass (Line.numbered 1 ts) es s .other := by
  refine List.countP_congr fun l hl => ?_
  rw [any_filter_contains (s.contains_of_mem_linesOf hs hl)]
  rfl

theorem lineCount_ofSegment (h : Segment.Tiles ts.length 1 ss) (hs : s ∈ ss) (es : List Entry) :
    (ofSegment (Line.numbered 1 ts) es s).lineCount = (s.linesOf (Line.numbered 1 ts)).length := by
  have hnumbered : (Line.numbered 1 ts).length = ts.length := by simp [Line.numbered]
  have hle := h.startLine_le hs
  rw [← hnumbered] at h
  rw [h.length_linesOf Nat.one_pos hs]
  show (s.endLine : Int) - s.startLine + 1 = _
  omega

theorem lineCount_eq {es : List Entry} (h : Segment.Tiles ts.length 1 ss) (hs : s ∈ ss)
    (hclasses : ∀ l ∈ Line.numbered 1 ts, ∃! c : LineClass, c.holds es l = true) :
    (ofSegment (Line.numbered 1 ts) es s).lineCount =
      (ofSegment (Line.numbered 1 ts) es s).otherCount +
        linesOfClass (Line.numbered 1 ts) es s .blank +
        linesOfClass (Line.numbered 1 ts) es s .comment +
        linesOfClass (Line.numbered 1 ts) es s .declaring := by
  rw [lineCount_ofSegment h hs, otherCount_ofSegment (h.start_le_of_mem hs),
    LineClass.length_eq fun l hl => hclasses l (s.mem_of_mem_linesOf hl)]
  push_cast
  rfl

/-- **Counting.** The sections of a text count all entries of each kind that the text has. Each line
of the text is of one class: it is blank, or a comment, or carries an entry, or is something else;
and each line of a section is counted as what it is. -/
theorem ofText_counts (t : Text) (limit : Int) :
    (∀ k, ((ofText t limit).map (·.count k)).sum = (Entry.ofText t limit).countP (·.kind = k)) ∧
    (∀ l ∈ Line.all t, ∃! c : LineClass, c.holds (Entry.ofText t limit) l = true) ∧
    ∀ s ∈ ofText t limit,
      let number := linesOfClass (Line.all t) (Entry.ofText t limit) s.toSegment
      s.otherCount = number .other ∧
        s.lineCount = s.otherCount + number .blank + number .comment + number .declaring := by
  have hclasses : ∀ l ∈ Line.all t, ∃! c : LineClass, c.holds (Entry.ofText t limit) l = true :=
    fun l hl => LineClass.existsUnique_class limit hl
  cases t with
  | nil =>
    refine ⟨fun k => ?_, hclasses, fun s hs => nomatch hs⟩
    rw [Entry.ofText_nil]
    rfl
  | cons c t =>
    have htiles := tiles_segments (List.cons_ne_nil c t) limit
    refine ⟨sum_count htiles fun e he => ?_, hclasses, fun s hs => ?_⟩
    · obtain ⟨n, hn, hfrom, hto⟩ := Entry.exists_number_of_mem he
      omega
    · obtain ⟨s', hs', rfl⟩ := List.mem_map.1 hs
      exact ⟨otherCount_ofSegment (htiles.start_le_of_mem hs') _ _,
        lineCount_eq htiles hs' hclasses⟩

end Section
end ShellConfig
