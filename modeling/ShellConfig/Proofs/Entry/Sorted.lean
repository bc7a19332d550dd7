import ShellConfig.Proofs.Entry.Provenance
import ShellConfig.Section.Basic

/-!
# Entries sorted by their lines

The entries of a text can be read kind by kind and sorted afterwards. Main statements:
`onNumber_mergeSort`, that sorting keeps the order on each line; `onNumber_onLines`, what is read of
one line; `ofText_eq_mergeSort`, that this gives the entries of the text; and `inSections_ofKind`,
how the entries of one kind and all entries make each other.
-/

namespace ShellConfig.Entry

variable {a b e : Entry} {es es' : List Entry} {ls : List Line} {n : Int}

/-! ### Entries on one line -/

def isNotAfter (a b : Entry) : Bool := a.lineNumber ≤ b.lineNumber

theorem isNotAfter_iff : isNotAfter a b = true ↔ a.lineNumber ≤ b.lineNumber := decide_eq_true_iff

theorem isNotAfter_trans (a b c : Entry) (h : isNotAfter a b = true) (h' : isNotAfter b c = true) :
    isNotAfter a c = true :=
  isNotAfter_iff.2 (Int.le_trans (isNotAfter_iff.1 h) (isNotAfter_iff.1 h'))

theorem isNotAfter_total (a b : Entry) : (isNotAfter a b || isNotAfter b a) = true := by
  rw [Bool.or_eq_true, isNotAfter_iff, isNotAfter_iff]
  exact Int.le_total _ _

def onNumber (n : Int) (es : List Entry) : List Entry := es.filter (·.lineNumber = n)

@[simp] theorem onNumber_append (n : Int) (es es' : List Entry) :
    onNumber n (es ++ es') = onNumber n es ++ onNumber n es' := List.filter_append ..

@[simp] theorem onNumber_flatMap {α : Type} (n : Int) (xs : List α) (f : α → List Entry) :
    onNumber n (xs.flatMap f) = xs.flatMap fun x => onNumber n (f x) := List.filter_flatMap

theorem onNumber_cons_self (e : Entry) (es : List Entry) :
    onNumber e.lineNumber (e :: es) = e :: onNumber e.lineNumber es :=
  List.filter_cons_of_pos (decide_eq_true rfl)

theorem onNumber_cons_of_ne (h : e.lineNumber ≠ n) (es : List Entry) :
    onNumber n (e :: es) = onNumber n es := List.filter_cons_of_neg (by simpa using h)

theorem onNumber_eq_nil (h : ∀ e ∈ es, e.lineNumber ≠ n) : onNumber n es = [] :=
  List.filter_eq_nil_iff.2 fun e he => by simpa using h e he

/-! ### Sorting -/

/-- Sorting keeps the order of the entries on a line. -/
theorem onNumber_mergeSort (n : Int) (es : List Entry) :
    onNumber n (es.mergeSort isNotAfter) = onNumber n es := by
  induction es with
  | nil => rw [List.mergeSort_nil]
  | cons e es ih =>
    obtain ⟨before, after, hcons, htail, hbefore⟩ :=
      List.mergeSort_cons isNotAfter_trans isNotAfter_total e es
    rw [htail, onNumber_append] at ih
    rw [hcons, onNumber_append]
    by_cases hn : e.lineNumber = n
    · subst hn
      -- what is put in front of the entry is of an earlier line
      have hnil : onNumber e.lineNumber before = [] := onNumber_eq_nil fun b hb hsame => by
        have := hbefore b hb
        simp [isNotAfter, hsame] at this
      rw [hnil, List.nil_append] at ih ⊢
      rw [onNumber_cons_self, onNumber_cons_self, ih]
    · rw [onNumber_cons_of_ne hn, onNumber_cons_of_ne hn, ih]

theorem mem_of_onNumber_eq (h : ∀ n, onNumber n es = onNumber n es') (he : e ∈ es) : e ∈ es' := by
  have hmem : e ∈ onNumber e.lineNumber es := List.mem_filter.2 ⟨he, decide_eq_true rfl⟩
  rw [h] at hmem
  exact (List.mem_filter.1 hmem).1

/-- A sorted list is given by what is on each line. -/
theorem eq_of_onNumber_eq (hes : es.Pairwise (isNotAfter · ·))
    (hes' : es'.Pairwise (isNotAfter · ·)) (h : ∀ n, onNumber n es = onNumber n es') :
    es = es' := by
  induction es generalizing es' with
  | nil => exact (List.eq_nil_iff_forall_not_mem.2 fun e he =>
      List.not_mem_nil (mem_of_onNumber_eq (fun n => (h n).symm) he)).symm
  | cons e es ih =>
    cases es' with
    | nil => exact absurd (mem_of_onNumber_eq h List.mem_cons_self) List.not_mem_nil
    | cons e' es' =>
      have hle : e'.lineNumber ≤ e.lineNumber := by
        rcases List.mem_cons.1 (mem_of_onNumber_eq h List.mem_cons_self) with rfl | he
        · exact Int.le_refl _
        · exact isNotAfter_iff.1 (List.rel_of_pairwise_cons hes' he)
      have hle' : e.lineNumber ≤ e'.lineNumber := by
        rcases List.mem_cons.1 (mem_of_onNumber_eq (fun n => (h n).symm) List.mem_cons_self)
          with rfl | he
        · exact Int.le_refl _
        · exact isNotAfter_iff.1 (List.rel_of_pairwise_cons hes he)
      have hsame : e'.lineNumber = e.lineNumber := by omega
      have hhead := h e.lineNumber
      rw [onNumber_cons_self, ← hsame, onNumber_cons_self, List.cons.injEq] at hhead
      obtain ⟨rfl, htail⟩ := hhead
      refine congrArg (e :: ·) (ih hes.of_cons hes'.of_cons fun n => ?_)
      by_cases hn : e.lineNumber = n
      · exact hn ▸ htail
      · rw [← onNumber_cons_of_ne hn es, ← onNumber_cons_of_ne hn es', h]

/-! ### Reading kind by kind -/

/-- What is read of one line is read kind by kind. -/
theorem onNumber_onLines (kinds : List Kind) (inside : Bool)
    (h : ls.Pairwise fun a b => a.number < b.number) (n : Int) :
    onNumber n (onLines kinds inside ls) =
      kinds.flatMap fun k => onNumber n (onLines [k] inside ls) := by
  induction ls generalizing inside with
  | nil =>
    have hnil : ∀ ks, onLines ks inside [] = [] := fun _ => rfl
    simp [hnil, onNumber]
  | cons l ls ih =>
    rw [List.pairwise_cons] at h
    have hread : ∀ k, onLines [k] inside (l :: ls) =
        onLine inside l k ++ onLines [k] (Plugins.read inside l.text).goesOn ls := by
      intro k
      rw [onLines, List.flatMap_singleton]
    simp only [hread, onNumber_append]
    rw [onLines, onNumber_append, onNumber_flatMap, ih _ h.2]
    by_cases hn : n = l.number
    · -- the other lines come later
      have hlater : ∀ k, onNumber n (onLines [k] (Plugins.read inside l.text).goesOn ls) = [] := by
        refine fun k => onNumber_eq_nil fun e he => ?_
        obtain ⟨l', hl', hnumber⟩ := exists_line_of_mem he
        have := h.1 l' hl'
        omega
      simp [hlater]
    · have hother : ∀ k, onNumber n (onLine inside l k) = [] := by
        refine fun k => onNumber_eq_nil fun e he => ?_
        have := lineNumber_of_mem_onLine he
        omega
      simp [hother]

/-- **Reading kind by kind.** The entries of a text are those of all kinds, one kind after the
other, sorted by their lines. -/
theorem ofText_eq_mergeSort (t : Text) (limit : Int) :
    ofText t limit = (Kind.all.flatMap fun k => ofKind k t limit).mergeSort isNotAfter := by
  have hsorted := (Line.sorted_numbered 1 t.lines).sublist (Line.short_sublist limit 1 t.lines)
  refine eq_of_onNumber_eq ?_ (List.pairwise_mergeSort isNotAfter_trans isNotAfter_total _)
    fun n => ?_
  · refine (pairwise_onLines hsorted).imp fun hab => isNotAfter_iff.2 ?_
    rcases hab with h | ⟨h, -⟩ <;> omega
  · rw [onNumber_mergeSort, onNumber_flatMap]
    exact onNumber_onLines Kind.all false hsorted n

/-! ### Reading one kind -/

/-- Among the entries of some lines, those of some kinds are the ones that are read of these kinds,
since which plugin lists are open does not depend on what is asked for. -/
theorem filter_kind_onLines (p : Kind → Bool) (kinds : List Kind) (inside : Bool)
    (ls : List Line) :
    (onLines kinds inside ls).filter (fun e => p e.kind) = onLines (kinds.filter p) inside ls := by
  induction ls generalizing inside with
  | nil => rfl
  | cons l ls ih => rw [onLines, onLines, List.filter_append, filter_kind_line, ih]

theorem ofKind_eq_filter (t : Text) (k : Kind) (limit : Int) :
    ofKind k t limit = (ofText t limit).filter (·.kind = k) := by
  rw [ofText, filter_kind_onLines (· = k), Kind.filter_all]
  rfl

/-- **Reading one kind.** The entries of one kind are those of this kind among all entries, in the
same order and with the same labels; and all entries are those of the kinds, one kind after the
other, sorted by their lines. -/
theorem inSections_ofKind (t : Text) (limit : Int) :
    (∀ k, inSections t (some k) limit = (inSections t none limit).filter (·.kind = k)) ∧
      inSections t none limit =
        (Kind.all.flatMap fun k => inSections t (some k) limit).mergeSort isNotAfter := by
  refine ⟨fun k => ?_, ?_⟩
  · unfold inSections
    dsimp only
    rw [ofKind_eq_filter, List.filter_map]
    rfl
  · unfold inSections
    dsimp only
    rw [← List.map_flatMap, ofText_eq_mergeSort]
    -- a label does not change the line of an entry
    exact List.map_mergeSort fun a _ b _ => rfl

end ShellConfig.Entry
