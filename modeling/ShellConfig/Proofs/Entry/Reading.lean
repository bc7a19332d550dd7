import ShellConfig.Proofs.Entry.Comment
import Mathlib.Data.List.Basic

/-!
# Reading parts of a text

What is read of a text is put together from what is read of its parts. Main statements:
`onLines_append`, that lines are read one part after the other; `ofText_append`, that so are two
texts with a line feed between them; `onLines_middle`, that lines which open no plugin list do not
disturb what is around them; and `payloads_of_isCommented`, that nothing is read of a comment.
-/

namespace ShellConfig

open Text

namespace Line

variable {k n : Nat} {limit : Int} {l : Line} {t : Text} {as bs ts : List Text}

/-! ### Numbered lines -/

def numbered (n : Nat) (ts : List Text) : List Line := (ts.zipIdx n).map fun p => ⟨p.2, p.1⟩

/-- A line that stands `k` lines further down. -/
def moved (k : Nat) (l : Line) : Line := { l with number := l.number + k }

@[simp] theorem numbered_nil (n : Nat) : numbered n [] = [] := rfl

@[simp] theorem numbered_cons (n : Nat) (t : Text) (ts : List Text) :
    numbered n (t :: ts) = ⟨n, t⟩ :: numbered (n + 1) ts := rfl

theorem numbered_append (n : Nat) (as bs : List Text) :
    numbered n (as ++ bs) = numbered n as ++ numbered (n + as.length) bs := by
  unfold numbered
  rw [List.zipIdx_append, List.map_append]

theorem numbered_add (n k : Nat) (ts : List Text) :
    numbered (n + k) ts = (numbered n ts).map (moved k) := by
  induction ts generalizing n with
  | nil => rfl
  | cons t ts ih => simp only [numbered_cons, List.map_cons, ← ih, moved, Nat.add_right_comm]

theorem number_of_mem (h : l ∈ numbered n ts) : n ≤ l.number ∧ l.number < n + ts.length := by
  induction ts generalizing n with
  | nil => cases h
  | cons t ts ih =>
    rw [numbered_cons, List.mem_cons] at h
    rw [List.length_cons]
    rcases h with rfl | h
    · exact ⟨Nat.le_refl n, by dsimp only; omega⟩
    · have := ih h
      omega

theorem text_mem_of_mem (h : l ∈ numbered n ts) : l.text ∈ ts := by
  induction ts generalizing n with
  | nil => cases h
  | cons t ts ih =>
    rcases List.mem_cons.1 h with rfl | h
    · exact List.mem_cons_self
    · exact List.mem_cons_of_mem t (ih h)

theorem exists_mem_numbered (h : t ∈ ts) (n : Nat) : ∃ m, (⟨m, t⟩ : Line) ∈ numbered n ts := by
  induction ts generalizing n with
  | nil => cases h
  | cons t' ts ih =>
    rcases List.mem_cons.1 h with rfl | h
    · exact ⟨n, List.mem_cons_self⟩
    · obtain ⟨m, hm⟩ := ih h (n + 1)
      exact ⟨m, List.mem_cons_of_mem _ hm⟩

theorem getElem?_of_mem (h : l ∈ numbered n ts) : ts[l.number - n]? = some l.text := by
  induction ts generalizing n with
  | nil => cases h
  | cons t ts ih =>
    rcases List.mem_cons.1 h with rfl | h
    · simp
    · have hsucc : l.number - n = l.number - (n + 1) + 1 := by
        have := number_of_mem h
        omega
      rw [hsucc, List.getElem?_cons_succ, ih h]

theorem eq_of_number_eq {l' : Line} (hl : l ∈ numbered n ts) (hl' : l' ∈ numbered n ts)
    (h : l.number = l'.number) : l = l' := by
  have htext := getElem?_of_mem hl
  rw [h, getElem?_of_mem hl', Option.some.injEq] at htext
  cases l
  cases l'
  dsimp only at h htext
  rw [h, htext]

theorem sorted_numbered (n : Nat) (ts : List Text) :
    (numbered n ts).Pairwise fun a b => a.number < b.number := by
  induction ts generalizing n with
  | nil => exact .nil
  | cons t ts ih =>
    rw [numbered_cons, List.pairwise_cons]
    exact ⟨fun l hl => (number_of_mem hl).1, ih (n + 1)⟩

@[simp] theorem text_moved (k : Nat) (l : Line) : (l.moved k).text = l.text := rfl

@[simp] theorem number_moved (k : Nat) (l : Line) : (l.moved k).number = l.number + k := rfl

/-- The lines from number `n` on that are short enough to be looked at. -/
def short (limit : Int) (n : Nat) (ts : List Text) : List Line :=
  (numbered n ts).filter (fits limit)

theorem safe_eq (limit : Int) (t : Text) : safe limit t = short limit 1 t.lines := rfl

theorem short_sublist (limit : Int) (n : Nat) (ts : List Text) :
    (short limit n ts).Sublist (numbered n ts) := List.filter_sublist

theorem short_append (limit : Int) (n : Nat) (as bs : List Text) :
    short limit n (as ++ bs) = short limit n as ++ short limit (n + as.length) bs := by
  unfold short
  rw [numbered_append, List.filter_append]

theorem short_add (limit : Int) (n k : Nat) (ts : List Text) :
    short limit (n + k) ts = (short limit n ts).map (moved k) := by
  unfold short
  rw [numbered_add, List.filter_map]
  rfl

theorem number_of_mem_short (h : l ∈ short limit n ts) :
    n ≤ l.number ∧ l.number < n + ts.length :=
  number_of_mem ((short_sublist limit n ts).subset h)

theorem text_mem_of_mem_short (h : l ∈ short limit n ts) : l.text ∈ ts :=
  text_mem_of_mem ((short_sublist limit n ts).subset h)

/-- The lines up to a number are the first ones. -/
theorem filter_short_append (limit : Int) (as bs : List Text) :
    (short limit 1 (as ++ bs)).filter (·.number ≤ as.length) = short limit 1 as := by
  rw [short_append, List.filter_append, List.filter_eq_self.2, List.filter_eq_nil_iff.2,
    List.append_nil]
  · intro l hl
    have := number_of_mem_short hl
    simp only [decide_eq_true_eq]
    omega
  · intro l hl
    have := number_of_mem_short hl
    simp only [decide_eq_true_eq]
    omega

end Line

namespace Plugins

variable {ls : List Line} {l : Line} {t : Text}

/-! ### Plugin lists -/

theorem openAfter_append (inside : Bool) (as bs : List Line) :
    openAfter inside (as ++ bs) = openAfter (openAfter inside as) bs :=
  List.foldl_append

theorem read_of_opening (h : opening? t = none) : read false t = ⟨[], false⟩ := by
  unfold read
  rw [h]
  rfl

/-- Lines that open no list leave none open. -/
theorem openAfter_of_opening (h : ∀ l ∈ ls, opening? l.text = none) :
    openAfter false ls = false := by
  induction ls with
  | nil => rfl
  | cons l ls ih =>
    have hl := read_of_opening (h l List.mem_cons_self)
    have hstep : openAfter false (l :: ls) = openAfter (read false l.text).goesOn ls := rfl
    rw [hstep, hl]
    exact ih fun l' hl' => h l' (List.mem_cons_of_mem l hl')

end Plugins

namespace Entry

variable {kinds : List Kind} {inside : Bool} {as bs ls ms : List Line} {e : Entry}

/-! ### Entries of lines -/

def moved (k : Nat) (e : Entry) : Entry := { e with lineNumber := e.lineNumber + k }

theorem onLines_append (kinds : List Kind) (inside : Bool) (as bs : List Line) :
    onLines kinds inside (as ++ bs) =
      onLines kinds inside as ++ onLines kinds (Plugins.openAfter inside as) bs := by
  induction as generalizing inside with
  | nil => rfl
  | cons a as ih =>
    rw [List.cons_append, onLines, onLines, ih, List.append_assoc]
    rfl

theorem onLines_of_opening (h : ∀ l ∈ ls, Plugins.opening? l.text = none) :
    onLines kinds false ls = ls.flatMap fun l => kinds.flatMap (onLine false l) := by
  induction ls with
  | nil => rfl
  | cons l ls ih =>
    rw [onLines, Plugins.read_of_opening (h l List.mem_cons_self),
      ih fun l' hl' => h l' (List.mem_cons_of_mem l hl'), List.flatMap_cons]

/-- Lines that open no plugin list, where none is open, do not change how the lines behind them are
read. -/
theorem onLines_middle (has : Plugins.openAfter inside as = false)
    (hms : ∀ l ∈ ms, Plugins.opening? l.text = none) :
    onLines kinds inside (as ++ ms ++ bs) =
      onLines kinds inside as ++ onLines kinds false ms ++ onLines kinds false bs := by
  rw [onLines_append, onLines_append, Plugins.openAfter_append, has,
    Plugins.openAfter_of_opening hms]

theorem lineNumber_of_mem_onLine {l : Line} {k : Kind} (h : e ∈ onLine inside l k) :
    e.lineNumber = l.number := by
  obtain ⟨p, -, rfl⟩ := List.mem_map.1 h
  rfl

theorem exists_onLine_of_mem (h : e ∈ onLines kinds inside ls) :
    ∃ l ∈ ls, ∃ k ∈ kinds, ∃ inside', e ∈ onLine inside' l k := by
  induction ls generalizing inside with
  | nil => cases h
  | cons l ls ih =>
    rw [onLines, List.mem_append, List.mem_flatMap] at h
    rcases h with ⟨k, hk, h⟩ | h
    · exact ⟨l, List.mem_cons_self, k, hk, inside, h⟩
    · obtain ⟨l', hl', hread⟩ := ih h
      exact ⟨l', List.mem_cons_of_mem l hl', hread⟩

/-- Each entry stands on a line. -/
theorem exists_line_of_mem (h : e ∈ onLines kinds inside ls) :
    ∃ l ∈ ls, e.lineNumber = l.number := by
  obtain ⟨l, hl, k, -, inside', hread⟩ := exists_onLine_of_mem h
  exact ⟨l, hl, lineNumber_of_mem_onLine hread⟩

theorem lineNumber_of_mem {limit : Int} {n : Nat} {ts : List Text}
    (h : e ∈ onLines kinds inside (Line.short limit n ts)) :
    (n : Int) ≤ e.lineNumber ∧ e.lineNumber < n + ts.length := by
  obtain ⟨l, hl, hnumber⟩ := exists_line_of_mem h
  have := Line.number_of_mem_short hl
  omega

theorem exists_number_of_mem {limit : Int} {t : Text}
    (h : e ∈ onLines kinds inside (Line.safe limit t)) :
    ∃ n : Nat, e.lineNumber = n ∧ 1 ≤ n ∧ n ≤ t.lines.length := by
  obtain ⟨l, hl, hnumber⟩ := exists_line_of_mem h
  have hbounds := Line.number_of_mem_short (Line.safe_eq limit t ▸ hl)
  exact ⟨l.number, hnumber, hbounds.1, by omega⟩

theorem lineNumber_ne_of_mem {limit : Int} {as bs : List Text}
    (h : e ∈ onLines kinds false (Line.short limit 1 as) ++
      onLines kinds false (Line.short limit (1 + as.length + 1) bs)) :
    e.lineNumber ≠ ((as.length + 1 : Nat) : Int) := by
  rcases List.mem_append.1 h with h | h
  · have := lineNumber_of_mem h
    omega
  · have := lineNumber_of_mem h
    omega

/-- The entries that do not stand on a line are those of the lines before it and behind it. -/
theorem filter_onLines_ne (kinds : List Kind) (limit : Int) (as : List Text) (t : Text)
    (bs : List Text) :
    (onLines kinds false (Line.short limit 1 as) ++
        onLines kinds false (Line.short limit (1 + as.length) [t]) ++
        onLines kinds false (Line.short limit (1 + as.length + 1) bs)).filter
      (·.lineNumber ≠ ((as.length + 1 : Nat) : Int)) =
    onLines kinds false (Line.short limit 1 as) ++
      onLines kinds false (Line.short limit (1 + as.length + 1) bs) := by
  rw [List.filter_append, List.filter_append, List.filter_eq_self.2, List.filter_eq_nil_iff.2,
    List.filter_eq_self.2, List.append_nil]
  · intro e he
    exact decide_eq_true (lineNumber_ne_of_mem (List.mem_append_right _ he))
  · intro e he
    have := lineNumber_of_mem he
    rw [List.length_singleton] at this
    simp only [decide_eq_true_eq, ne_eq, not_not]
    omega
  · intro e he
    have := lineNumber_of_mem he
    exact decide_eq_true (by omega)

theorem onLine_moved (inside : Bool) (k : Nat) (l : Line) (kind : Kind) :
    onLine inside (l.moved k) kind = (onLine inside l kind).map (moved k) := by
  simp [onLine, moved, Line.moved]

/-- Entries move with their lines. -/
theorem onLines_moved (kinds : List Kind) (inside : Bool) (k : Nat) (ls : List Line) :
    onLines kinds inside (ls.map (Line.moved k)) = (onLines kinds inside ls).map (moved k) := by
  induction ls generalizing inside with
  | nil => rfl
  | cons l ls ih =>
    have hl : kinds.flatMap (onLine inside (l.moved k)) =
        (kinds.flatMap (onLine inside l)).map (moved k) := by
      rw [List.map_flatMap]
      exact congrArg (kinds.flatMap ·) (funext fun kind => onLine_moved inside k l kind)
    rw [List.map_cons, onLines, onLines, List.map_append, hl, ← ih]
    rfl

/-- **Reading part by part.** If the first of two texts leaves no plugin list open, the entries of
both with a line feed between them are those of the first and, so many lines further down, those of
the second. -/
theorem ofText_append {a : Text} {limit : Int} (hreturn : a.getLast? ≠ some '\r')
    (hopen : Plugins.openAfter false (Line.safe limit a) = false) (b : Text) :
    ofText (a ++ '\n' :: b) limit =
      ofText a limit ++ (ofText b limit).map (moved a.lines.length) := by
  have hlines : Line.safe limit (a ++ '\n' :: b) =
      Line.safe limit a ++ (Line.safe limit b).map (Line.moved a.lines.length) := by
    simp only [Line.safe_eq]
    rw [lines_append hreturn, Line.short_append, Line.short_add]
  unfold ofText
  rw [hlines, onLines_append, hopen, onLines_moved]

theorem ofText_append_plugins :
    let a := "plugins=(git\n fzf) # done".toList
    let b := "alias g=git\n\neval \"$(zoxide init zsh)\"".toList
    (a.getLast? ≠ some '\r' ∧ Plugins.openAfter false (Line.safe 20 a) = false) ∧
      ofText (a ++ '\n' :: b) 20 = ofText a 20 ++ (ofText b 20).map (moved 2) := by
  have hreturn : "plugins=(git\n fzf) # done".toList.getLast? ≠ some '\r' := by decide
  have hopen : Plugins.openAfter false (Line.safe 20 "plugins=(git\n fzf) # done".toList) = false :=
    rfl
  exact ⟨⟨hreturn, hopen⟩, ofText_append hreturn hopen _⟩

end Entry

/-! ### Comments -/

theorem Plugins.opening?_blanks_append {b : Text} (hb : allBlank b = true) (t : Text) :
    opening? (b ++ t) = opening? t := by
  unfold opening?
  rw [trimLeft_append hb]

/-- Blanks in front of a line do not change what it declares. -/
theorem Recognize.payloads_blanks_append {b : Text} (hb : allBlank b = true) (t : Text) (k : Kind) :
    payloads (b ++ t) k = payloads t k := by
  cases k <;>
    simp only [payloads, alias?, export?, function?, source?, command?, autoload, fpath, path?,
      theme?, completion?, history?, trimLeft_append hb]

theorem Plugins.opening?_of_isCommented {t : Text} (h : Edit.isCommented t = true) :
    opening? t = none := by
  obtain ⟨b, r, hb, rfl⟩ := Edit.exists_of_isCommented h
  rw [opening?_blanks_append hb]
  rfl

/-- Nothing is declared by a comment. -/
theorem Recognize.payloads_of_isCommented {t : Text} (h : Edit.isCommented t = true) (k : Kind) :
    payloads t k = [] := by
  obtain ⟨b, r, hb, rfl⟩ := Edit.exists_of_isCommented h
  rw [payloads_blanks_append hb]
  cases k <;> rfl

theorem Entry.payloadsOn_of_ne {k : Kind} (h : k ≠ .plugin) (inside : Bool) (t : Text) :
    payloadsOn inside t k = Recognize.payloads t k := by
  cases k with
  | plugin => exact absurd rfl h
  | _ => rfl

/-- No entry stands on a comment, unless it is inside a plugin list. -/
theorem Entry.onLines_of_isCommented {kinds : List Kind} {ls : List Line}
    (h : ∀ l ∈ ls, Edit.isCommented l.text = true) : onLines kinds false ls = [] := by
  rw [onLines_of_opening fun l hl => Plugins.opening?_of_isCommented (h l hl)]
  refine List.flatMap_eq_nil_iff.2 fun l hl => List.flatMap_eq_nil_iff.2 fun k _ => ?_
  have hpayloads : payloadsOn false l.text k = [] := by
    by_cases hk : k = .plugin
    · rw [hk, payloadsOn, Plugins.read_of_opening (Plugins.opening?_of_isCommented (h l hl))]
      rfl
    · rw [payloadsOn_of_ne hk, Recognize.payloads_of_isCommented (h l hl)]
  rw [onLine, hpayloads, List.map_nil]

/-- Lines behind one that opens no plugin list are read as if it were not there. -/
theorem Entry.onLines_short_cons {kinds : List Kind} {limit : Int} {l : Text}
    (h : Plugins.opening? l = none) (n : Nat) (ls : List Text) :
    onLines kinds false (Line.short limit n (l :: ls)) =
      onLines kinds false (Line.short limit n [l]) ++
        onLines kinds false (Line.short limit (n + 1) ls) := by
  have hopen : Plugins.openAfter false (Line.short limit n [l]) = false := by
    refine Plugins.openAfter_of_opening fun l' hl' => ?_
    rw [List.mem_singleton.1 (Line.text_mem_of_mem_short hl'), h]
  rw [← List.singleton_append, Line.short_append, onLines_append, hopen]
  rfl

theorem Entry.onLines_short_comment {kinds : List Kind} {limit : Int} {l : Text}
    (h : Edit.isCommented l = true) (n : Nat) (ls : List Text) :
    onLines kinds false (Line.short limit n (l :: ls)) =
      onLines kinds false (Line.short limit (n + 1) ls) := by
  rw [onLines_short_cons (Plugins.opening?_of_isCommented h), onLines_of_isCommented,
    List.nil_append]
  intro l' hl'
  rw [List.mem_singleton.1 (Line.text_mem_of_mem_short hl'), h]

theorem Entry.ofKind_of_not_mem {t : Text} {limit : Int} (hbreak : '\n' ∉ t)
    (hlength : (t.length : Int) ≤ limit) (k : Kind) :
    ofKind k t limit = onLine false ⟨1, t⟩ k := by
  have hsafe : Line.safe limit t = [⟨1, t⟩] := by
    rw [Line.safe_eq, lines_of_not_mem hbreak]
    simp [Line.short, Line.fits, hlength]
  rw [ofKind, hsafe, onLines, onLines, List.append_nil, List.flatMap_singleton]

theorem Entry.mem_onLines_of_alias? {t name command : Text} {limit : Int} {n : Nat}
    (hlength : (t.length : Int) ≤ limit) (h : Recognize.alias? t = some (name, command)) :
    { kind := .aliased, lineNumber := n, lineText := t,
      payload := { name := some name, command := some command } : Entry } ∈
        onLines Kind.all false (Line.short limit n [t]) := by
  have hshort : Line.short limit n [t] = [⟨n, t⟩] := by
    simp [Line.short, Line.fits, hlength]
  rw [hshort, onLines, List.mem_append, List.mem_flatMap]
  refine .inl ⟨.aliased, Kind.mem_all _, ?_⟩
  simp [onLine, payloadsOn, Recognize.payloads, h]

end ShellConfig
