import Mathlib
import ShellConfig.Proofs.Diff.Script

/-!
# Context in the markdown of a difference

The fenced block of a difference is put together from runs of unchanged lines: one in front of the
first change, one between each two neighbouring changes, and one behind the last. Main statements:
`showFrom_middle`, what is shown of the run between two changes; `isMarked_shown`, that a mark
stands exactly where lines are left out; and `context_shown_iff`, for which differences the block
shows all lines near a change and marks what it leaves out.
-/

namespace ShellConfig

namespace DiffLine

variable {all as bs ls rest us : List DiffLine} {c i j k p : Nat} {l m u : DiffLine}
  {last : Int} {near : Bool} {sh : List Shown}

/-! ### What a block should show -/

/-- Whether the line at an index is a change. -/
def changesAt (ls : List DiffLine) (i : Nat) : Bool := (ls[i]?).any fun l => l.change ≠ .unchanged

/-- Some line between two indices is not shown. -/
def LeavesOut (sh : List Shown) (i j : Nat) : Prop :=
  ∃ k, i < k ∧ k < j ∧ ∀ l, .line k l ∉ sh

/-- What a block should show of a difference: lines of it at their places; each unchanged line that
is at most `c` positions away from a change; and between two lines shown one after the other a mark,
if lines between them are left out, and nothing otherwise. -/
structure ShowsContext (c : Nat) (ls : List DiffLine) (sh : List Shown) : Prop where
  lines : ∀ i l, .line i l ∈ sh → ls[i]? = some l
  near : ∀ i l j, ls[i]? = some l → l.change = .unchanged → changesAt ls j = true → i ≤ j + c →
    j ≤ i + c → .line i l ∈ sh
  marked : ∀ as i l gs j m bs, sh = as ++ .line i l :: (gs ++ .line j m :: bs) →
    (∀ g ∈ gs, g = .gap) → LeavesOut sh i j ∧ gs = [.gap] ∨ ¬LeavesOut sh i j ∧ gs = []

/-- The changes of a difference are at such distances that its context comes out right: in front of
the first there is no line or there are at least `c`, and between two neighbouring ones at most `c`
or more than `2 * c`. -/
structure IsSpaced (c : Nat) (ls : List DiffLine) : Prop where
  first : ∀ q, changesAt ls q = true → (∀ k < q, changesAt ls k = false) → q = 0 ∨ c ≤ q
  next : ∀ p q, changesAt ls p = true → changesAt ls q = true → p < q →
    (∀ k, p < k → k < q → changesAt ls k = false) → q ≤ p + 1 + c ∨ p + 1 + 2 * c < q

theorem lt_of_changesAt (h : changesAt ls i = true) : i < ls.length := by
  by_contra hge
  rw [changesAt, List.getElem?_eq_none (Nat.le_of_not_lt hge)] at h
  cases h

theorem isSpaced_iff :
    IsSpaced c ls ↔
      (∀ q < ls.length, changesAt ls q = true → (∀ k < q, changesAt ls k = false) →
        q = 0 ∨ c ≤ q) ∧
      ∀ q < ls.length, ∀ p < q, (changesAt ls p = true ∧ changesAt ls q = true ∧
        ∀ k < q, p < k → changesAt ls k = false) → q ≤ p + 1 + c ∨ p + 1 + 2 * c < q := by
  constructor
  · intro h
    refine ⟨fun q _ => h.first q, ?_⟩
    rintro q - p hpq ⟨hp, hq, hnone⟩
    exact h.next p q hp hq hpq fun k hk hkq => hnone k hkq hk
  · rintro ⟨hfirst, hnext⟩
    refine ⟨fun q hq => hfirst q (lt_of_changesAt hq) hq, fun p q hp hq hpq hnone => ?_⟩
    exact hnext q (lt_of_changesAt hq) p hpq ⟨hp, hq, fun k hkq hk => hnone k hk hkq⟩

instance (c : Nat) (ls : List DiffLine) : Decidable (IsSpaced c ls) :=
  decidable_of_iff _ isSpaced_iff.symm

/-! ### Runs of unchanged lines -/

def IsPlain (us : List DiffLine) : Prop := ∀ u ∈ us, u.change = .unchanged

theorem isPlain_nil : IsPlain [] := fun _ hu => nomatch hu

theorem IsPlain.append_cons (hus : IsPlain us) (hu : u.change = .unchanged) (hbs : IsPlain bs) :
    IsPlain (us ++ u :: bs) :=
  List.forall_mem_append.2 ⟨hus, List.forall_mem_cons.2 ⟨hu, hbs⟩⟩

theorem length_append_cons (as : List DiffLine) (l : DiffLine) (us : List DiffLine) :
    (as ++ l :: us).length = as.length + 1 + us.length := by
  rw [List.length_append, List.length_cons, Nat.add_right_comm, Nat.add_assoc]

/-- The lines from an index on, all of them shown. -/
def run (i : Nat) (us : List DiffLine) : List Shown := (us.zipIdx i).map fun p => .line p.2 p.1

@[simp] theorem run_nil (i : Nat) : run i [] = [] := rfl

@[simp] theorem run_cons (i : Nat) (u : DiffLine) (us : List DiffLine) :
    run i (u :: us) = .line i u :: run (i + 1) us := rfl

theorem run_append (i : Nat) (us vs : List DiffLine) :
    run i (us ++ vs) = run i us ++ run (i + us.length) vs := by
  simp [run, List.zipIdx_append]

theorem line_mem_run_iff : .line k l ∈ run i us ↔ i ≤ k ∧ us[k - i]? = some l := by
  rw [run, List.mem_map, ← List.mk_mem_zipIdx_iff_le_and_getElem?_sub]
  constructor
  · rintro ⟨q, hq, h⟩
    cases h
    exact hq
  · intro h
    exact ⟨_, h, rfl⟩

theorem lt_of_mem_run (h : .line k l ∈ run i us) : i ≤ k ∧ k < i + us.length := by
  obtain ⟨hle, hget⟩ := line_mem_run_iff.1 h
  have hlt := (List.getElem?_eq_some_iff.1 hget).1
  omega

theorem isPlain_or_exists_first (ls : List DiffLine) :
    IsPlain ls ∨ ∃ us l rest, ls = us ++ l :: rest ∧ IsPlain us ∧ l.change ≠ .unchanged := by
  induction ls with
  | nil => exact .inl isPlain_nil
  | cons m ls ih =>
    by_cases hm : m.change = .unchanged
    · rcases ih with hplain | ⟨us, l, rest, rfl, hus, hl⟩
      · exact .inl (List.forall_mem_cons.2 ⟨hm, hplain⟩)
      · exact .inr ⟨m :: us, l, rest, rfl, List.forall_mem_cons.2 ⟨hm, hus⟩, hl⟩
    · exact .inr ⟨[], m, ls, rfl, isPlain_nil, hm⟩

theorem isPlain_or_exists_last (ls : List DiffLine) :
    IsPlain ls ∨ ∃ as l us, ls = as ++ l :: us ∧ IsPlain us ∧ l.change ≠ .unchanged := by
  rcases isPlain_or_exists_first ls.reverse with h | ⟨us, l, rest, h, hus, hl⟩
  · exact .inl fun u hu => h u (List.mem_reverse.2 hu)
  · refine .inr ⟨rest.reverse, l, us.reverse, ?_, fun u hu => hus u (List.mem_reverse.1 hu), hl⟩
    simpa using congrArg List.reverse h

/-! ### What is shown of a run -/

theorem showFrom_change (hl : l.change ≠ .unchanged) :
    showFrom c all near last i (l :: rest) =
      (if !near ∧ (c : Int) * 2 < i - last then
        (if 0 ≤ last then [.gap] else []) ++ lookBack c all i else []) ++
      .line i l :: showFrom c all true i (i + 1) rest := by
  rw [showFrom, if_pos hl]

theorem showFrom_unchanged (hu : u.change = .unchanged) :
    showFrom c all near last i (u :: rest) =
      if near ∧ i - last ≤ c then .line i u :: showFrom c all near last (i + 1) rest
      else showFrom c all false last (i + 1) rest := by
  rw [showFrom, if_neg fun h => h hu]

theorem showFrom_far (hus : IsPlain us) (last : Int) (i : Nat) (rest : List DiffLine) :
    showFrom c all false last i (us ++ rest) = showFrom c all false last (i + us.length) rest := by
  induction us generalizing i with
  | nil => rfl
  | cons u us ih =>
    obtain ⟨hu, hus⟩ := List.forall_mem_cons.1 hus
    have hfar : ¬(false = true ∧ (i : Int) - last ≤ c) := by simp
    rw [List.cons_append, showFrom_unchanged hu, if_neg hfar, ih hus, List.length_cons,
      Nat.add_right_comm, Nat.add_assoc i]

/-- Behind a change as many lines of a run are shown as are still near. -/
theorem showFrom_near (hus : IsPlain us) (hk : i + k = p + 1 + c) (rest : List DiffLine) :
    showFrom c all true p i (us ++ rest) =
      run i (us.take k) ++ showFrom c all (us.length ≤ k) p (i + us.length) rest := by
  induction us generalizing i k with
  | nil => simp
  | cons u us ih =>
    obtain ⟨hu, hrest⟩ := List.forall_mem_cons.1 hus
    cases k with
    | zero =>
      have hfar : ¬(true = true ∧ (i : Int) - (p : Nat) ≤ c) := by omega
      rw [List.cons_append, showFrom_unchanged hu, if_neg hfar, showFrom_far hrest,
        List.length_cons, Nat.add_right_comm i, Nat.add_assoc i]
      simp
    | succ k =>
      have hnear : true = true ∧ (i : Int) - (p : Nat) ≤ c := ⟨rfl, by omega⟩
      rw [List.cons_append, showFrom_unchanged hu, if_pos hnear, ih hrest (k := k) (by omega),
        List.take_succ_cons, run_cons, List.cons_append, List.length_cons, Nat.add_right_comm i 1,
        Nat.add_assoc i]
      simp only [Nat.add_le_add_iff_right]

/-- The context in front of a change is the end of the run before it, if that is long enough. -/
theorem lookBack_eq (hus : IsPlain us) (as rest : List DiffLine) :
    lookBack us.length (as ++ (us ++ rest)) (as.length + us.length) = run as.length us := by
  have hstart : (((as.length + us.length : Nat) : Int) - us.length).toNat = as.length := by omega
  have htake : ((as ++ (us ++ rest)).zipIdx).take (as.length + us.length) =
      as.zipIdx ++ us.zipIdx as.length := by
    rw [List.zipIdx_append, List.zipIdx_append, ← List.append_assoc, Nat.zero_add]
    exact List.take_left' (by rw [List.length_append, List.length_zipIdx, List.length_zipIdx])
  have hdrop : (as.zipIdx ++ us.zipIdx as.length).drop as.length = us.zipIdx as.length :=
    List.drop_left' List.length_zipIdx
  have hfilter : (us.zipIdx as.length).filter (·.1.change = .unchanged) = us.zipIdx as.length :=
    List.filter_eq_self.2 fun q hq => decide_eq_true (hus q.1 (List.fst_mem_of_mem_zipIdx hq))
  rw [lookBack, hstart, htake, hdrop, hfilter]
  rfl

/-- What is shown of a run between two changes: all of it if it is no longer than the context, and
otherwise its first lines, with its last lines behind a mark if it is twice as long. -/
def middle (c i : Nat) (us : List DiffLine) : List Shown :=
  if us.length ≤ c then run i us
  else run i (us.take c) ++
    if 2 * c ≤ us.length then .gap :: run (i + (us.length - c)) (us.drop (us.length - c)) else []

/-- What is shown of the run in front of the first change. -/
def opening (c : Nat) (us : List DiffLine) : List Shown :=
  if c ≤ us.length then run (us.length - c) (us.drop (us.length - c)) else []

theorem lookBack_run (hus : IsPlain us) (hc : c ≤ us.length) (as rest : List DiffLine) :
    lookBack c (as ++ (us ++ rest)) (as.length + us.length) =
      run (as.length + (us.length - c)) (us.drop (us.length - c)) := by
  have hplain : IsPlain (us.drop (us.length - c)) := fun u hu => hus u (List.mem_of_mem_drop hu)
  have hparts : as ++ (us ++ rest) =
      (as ++ us.take (us.length - c)) ++ (us.drop (us.length - c) ++ rest) := by
    rw [List.append_assoc, ← List.append_assoc (us.take _), List.take_append_drop]
  have hlook := lookBack_eq hplain (as ++ us.take (us.length - c)) rest
  have hdrop : (us.drop (us.length - c)).length = c := by
    rw [List.length_drop]
    omega
  have htake : (as ++ us.take (us.length - c)).length = as.length + (us.length - c) := by
    rw [List.length_append, List.length_take]
    omega
  rw [← hparts, hdrop, htake, Nat.add_assoc, Nat.sub_add_cancel hc] at hlook
  exact hlook

/-- What is shown behind a change up to the next one. -/
theorem showFrom_middle (hall : all = as ++ l :: (us ++ m :: rest)) (hus : IsPlain us)
    (hm : m.change ≠ .unchanged) :
    showFrom c all true as.length (as.length + 1) (us ++ m :: rest) =
      middle c (as.length + 1) us ++ .line (as.length + 1 + us.length) m ::
        showFrom c all true (as.length + 1 + us.length : Nat) (as.length + 1 + us.length + 1)
          rest := by
  rw [showFrom_near hus rfl, showFrom_change hm, middle, ← List.append_assoc]
  congr 1
  by_cases hshort : us.length ≤ c
  · simp [hshort, List.take_of_length_le hshort]
  · have hparts : all = (as ++ [l]) ++ (us ++ m :: rest) := by simp [hall]
    rw [if_neg hshort]
    congr 1
    by_cases hlong : 2 * c ≤ us.length
    · have hfar : (!decide (us.length ≤ c)) = true ∧
          (c : Int) * 2 < (as.length + 1 + us.length : Nat) - (as.length : Nat) :=
        ⟨by simpa using hshort, by omega⟩
      have hlook := lookBack_run hus (Nat.le_of_not_le hshort) (as ++ [l]) (m :: rest)
      rw [List.length_append, List.length_singleton] at hlook
      rw [if_pos hfar, if_pos (by omega), if_pos hlong, hparts, hlook]
      rfl
    · have hnear : ¬((!decide (us.length ≤ c)) = true ∧
          (c : Int) * 2 < (as.length + 1 + us.length : Nat) - (as.length : Nat)) := by omega
      rw [if_neg hnear, if_neg hlong]

theorem shown_opening (hus : IsPlain us) (hm : m.change ≠ .unchanged) :
    shown c (us ++ m :: rest) =
      opening c us ++ .line us.length m ::
        showFrom c (us ++ m :: rest) true us.length (us.length + 1) rest := by
  rw [shown, showFrom_far hus, showFrom_change hm, opening, Nat.zero_add]
  congr 1
  by_cases hlong : c ≤ us.length
  · have hfar : (!false) = true ∧ (c : Int) * 2 < (us.length : Nat) - (-(c : Int) - 1) :=
      ⟨rfl, by omega⟩
    have hlook := lookBack_run hus hlong [] (m :: rest)
    rw [List.length_nil, Nat.zero_add, Nat.zero_add, List.nil_append] at hlook
    rw [if_pos hfar, if_neg (by omega), if_pos hlong, hlook, List.nil_append]
  · rw [if_neg (by omega), if_neg hlong]

theorem showFrom_last (hus : IsPlain us) (p : Nat) :
    showFrom c all true p (p + 1) us = run (p + 1) (us.take c) := by
  have hnear : showFrom c all true p (p + 1) (us ++ []) = _ := showFrom_near hus rfl []
  rw [List.append_nil] at hnear
  rw [hnear, showFrom, List.append_nil]

theorem shown_of_isPlain (h : IsPlain ls) (c : Nat) : shown c ls = [] := by
  have hfar : shown c (ls ++ []) = _ := showFrom_far h (-c - 1) 0 []
  rw [List.append_nil, showFrom] at hfar
  exact hfar

/-- An induction on the changes of a difference, from the last one up: each step goes over the run
between two changes. -/
theorem induction_on_changes {P : List DiffLine → DiffLine → List DiffLine → Prop}
    (last : ∀ as l us, all = as ++ l :: us → IsPlain us → P as l us)
    (next : ∀ as l us m rest, all = as ++ l :: (us ++ m :: rest) → IsPlain us →
      l.change ≠ .unchanged → m.change ≠ .unchanged → P (as ++ l :: us) m rest →
      P as l (us ++ m :: rest))
    (hall : all = as ++ l :: rest) (hl : l.change ≠ .unchanged) : P as l rest := by
  induction hn : rest.length using Nat.strongRecOn generalizing as l rest with
  | ind n ih =>
    rcases isPlain_or_exists_first rest with hplain | ⟨us, m, rest', rfl, hus, hm⟩
    · exact last as l rest hall hplain
    · refine next as l us m rest' hall hus hl hm (ih rest'.length ?_ ?_ hm rfl)
      · simp only [List.length_append, List.length_cons] at hn
        omega
      · simp [hall]

/-! ### Places -/

theorem line_mem_lookBack {context : Int} (h : .line k l ∈ lookBack context all i) :
    k < i ∧ all[k]? = some l := by
  obtain ⟨q, hq, hline⟩ := List.mem_map.1 h
  have htake := List.mem_of_mem_drop (List.mem_filter.1 hq).1
  obtain ⟨n, hn, rfl⟩ := List.mem_take_iff_getElem.1 htake
  simp only [List.getElem_zipIdx, Shown.line.injEq] at hline
  obtain ⟨rfl, rfl⟩ := hline
  rw [List.length_zipIdx] at hn
  rw [Nat.zero_add]
  exact ⟨by omega, List.getElem?_eq_getElem (by omega)⟩

theorem exists_showFrom_change (hl : l.change ≠ .unchanged) (c : Nat) (all : List DiffLine)
    (near : Bool) (last : Int) (i : Nat) :
    ∃ out, (∀ k m, .line k m ∈ out → k < i ∧ all[k]? = some m) ∧
      ∀ rest, showFrom c all near last i (l :: rest) =
        out ++ .line i l :: showFrom c all true i (i + 1) rest := by
  refine ⟨_, ?_, fun rest => showFrom_change hl⟩
  intro k m h
  split at h
  · rcases List.mem_append.1 h with h | h
    · split at h <;> simp at h
    · exact line_mem_lookBack h
  · cases h

theorem getElem?_of_mem_showFrom (hrest : all.drop i = rest)
    (h : .line k l ∈ showFrom c all near last i rest) : all[k]? = some l := by
  induction rest generalizing near last i with
  | nil =>
    rw [showFrom] at h
    cases h
  | cons m rest ih =>
    have hm : all[i]? = some m := by
      rw [← List.head?_drop, hrest]
      rfl
    have hdrop : all.drop (i + 1) = rest := by
      rw [← List.drop_drop, hrest]
      rfl
    by_cases hchange : m.change = .unchanged
    · rw [showFrom_unchanged hchange] at h
      split at h
      · rcases List.mem_cons.1 h with h | h
        · cases h
          exact hm
        · exact ih hdrop h
      · exact ih hdrop h
    · obtain ⟨out, hout, heq⟩ := exists_showFrom_change hchange c all near last i
      rw [heq, List.mem_append, List.mem_cons] at h
      rcases h with h | h | h
      · exact (hout k l h).2
      · cases h
        exact hm
      · exact ih hdrop h

theorem exists_showFrom_append (c : Nat) (all as : List DiffLine) (near : Bool) (last : Int)
    (i : Nat) :
    ∃ out near' last', (∀ k l, .line k l ∈ out → k < i + as.length) ∧
      ∀ rest, showFrom c all near last i (as ++ rest) =
        out ++ showFrom c all near' last' (i + as.length) rest := by
  induction as generalizing near last i with
  | nil => exact ⟨[], near, last, by simp, fun rest => rfl⟩
  | cons m as ih =>
    have hlength : i + (m :: as).length = i + 1 + as.length := by
      rw [List.length_cons, Nat.add_right_comm, Nat.add_assoc i]
    by_cases hm : m.change = .unchanged
    · by_cases hnear : near ∧ i - last ≤ c
      · obtain ⟨out, near', last', hout, heq⟩ := ih near last (i + 1)
        refine ⟨.line i m :: out, near', last', ?_, fun rest => ?_⟩
        · intro k l hk
          rcases List.mem_cons.1 hk with hk | hk
          · cases hk
            simp
          · rw [hlength]
            exact hout k l hk
        · rw [List.cons_append, showFrom_unchanged hm, if_pos hnear, heq, hlength]
          rfl
      · obtain ⟨out, near', last', hout, heq⟩ := ih false last (i + 1)
        refine ⟨out, near', last', hlength ▸ hout, fun rest => ?_⟩
        rw [List.cons_append, showFrom_unchanged hm, if_neg hnear, heq, hlength]
    · obtain ⟨front, hfront, hchange⟩ := exists_showFrom_change hm c all near last i
      obtain ⟨out, near', last', hout, heq⟩ := ih true i (i + 1)
      refine ⟨front ++ .line i m :: out, near', last', ?_, fun rest => ?_⟩
      · intro k l hk
        rw [hlength]
        rw [List.mem_append, List.mem_cons] at hk
        rcases hk with hk | hk | hk
        · have hlt := (hfront k l hk).1
          omega
        · cases hk
          omega
        · exact hout k l hk
      · rw [List.cons_append, hchange, heq, hlength, List.append_assoc]
        rfl

theorem exists_shown_eq (hall : all = as ++ l :: rest) (hl : l.change ≠ .unchanged) (c : Nat) :
    ∃ out, (∀ k m, .line k m ∈ out → k < as.length) ∧
      shown c all = out ++ .line as.length l ::
        showFrom c all true as.length (as.length + 1) rest := by
  obtain ⟨out, near, last, hout, happend⟩ := exists_showFrom_append c all as false (-c - 1) 0
  obtain ⟨front, hfront, hchange⟩ := exists_showFrom_change hl c all near last as.length
  rw [Nat.zero_add] at hout happend
  refine ⟨out ++ front, ?_, ?_⟩
  · intro k m hk
    rcases List.mem_append.1 hk with hk | hk
    · exact hout k m hk
    · exact (hfront k m hk).1
  · have hshown : shown c all = showFrom c all false (-c - 1) 0 (as ++ l :: rest) := by
      rw [shown, ← hall]
    rw [hshown, happend, hchange, List.append_assoc]

theorem lt_of_mem_middle (h : .line k l ∈ middle c i us) : i ≤ k ∧ k < i + us.length := by
  unfold middle at h
  split at h
  · exact lt_of_mem_run h
  · rw [List.mem_append] at h
    rcases h with h | h
    · have hlt := lt_of_mem_run h
      rw [List.length_take] at hlt
      omega
    · split at h
      · rcases List.mem_cons.1 h with h | h
        · cases h
        · have hlt := lt_of_mem_run h
          rw [List.length_drop] at hlt
          omega
      · cases h

theorem lt_of_mem_showFrom (hall : all = as ++ l :: rest) (hl : l.change ≠ .unchanged)
    (h : .line k m ∈ showFrom c all true as.length (as.length + 1) rest) : as.length < k := by
  revert h
  refine induction_on_changes (P := fun as _ rest =>
    .line k m ∈ showFrom c all true as.length (as.length + 1) rest → as.length < k) ?_ ?_ hall hl
  · intro as l us hall hus h
    rw [showFrom_last hus] at h
    exact (lt_of_mem_run h).1
  · intro as l us m' rest hall hus hl hm ih h
    rw [showFrom_middle hall hus hm, List.mem_append, List.mem_cons] at h
    rcases h with h | h | h
    · exact (lt_of_mem_middle h).1
    · cases h
      omega
    · rw [length_append_cons] at ih
      have hlt := ih h
      omega

/-! ### Marks -/

/-- Each line follows the line `s` right before it, or it stands behind a mark and lines are left
out. `gap` says that a mark stands in front. -/
def IsMarked : Option Nat → Bool → List Shown → Prop
  | _, gap, [] => gap = false
  | s, gap, .gap :: sh => s.isSome = true ∧ gap = false ∧ IsMarked s true sh
  | s, gap, .line i _ :: sh =>
    (∀ n ∈ s, if gap then n + 1 < i else n + 1 = i) ∧ IsMarked (some i) false sh

theorem isMarked_run_append (i : Nat) (us : List DiffLine) (sh : List Shown) :
    IsMarked (some i) false (run (i + 1) us ++ sh) ↔ IsMarked (some (i + us.length)) false sh := by
  induction us generalizing i with
  | nil => rfl
  | cons u us ih =>
    rw [run_cons, List.cons_append, IsMarked, ih, List.length_cons, Nat.add_right_comm,
      Nat.add_assoc i]
    simp

theorem isMarked_run_line (s : Option Nat) (gap : Bool) (i : Nat) (us : List DiffLine)
    (m : DiffLine) (sh : List Shown) :
    IsMarked s gap (run i us ++ .line (i + us.length) m :: sh) ↔
      (∀ n ∈ s, if gap then n + 1 < i else n + 1 = i) ∧
        IsMarked (some (i + us.length)) false sh := by
  cases us with
  | nil => rfl
  | cons u us =>
    rw [run_cons, List.cons_append, IsMarked, isMarked_run_append, IsMarked, List.length_cons,
      ← Nat.add_assoc]
    simp

theorem IsMarked.lt {s : Option Nat} {gap : Bool} (h : IsMarked s gap sh)
    (hmem : .line k m ∈ sh) : ∀ n ∈ s, n < k := by
  induction sh generalizing s gap with
  | nil => cases hmem
  | cons x sh ih =>
    cases x with
    | gap =>
      rcases List.mem_cons.1 hmem with hmem | hmem
      · cases hmem
      · exact ih h.2.2 hmem
    | line i l =>
      intro n hn
      have hi := h.1 n hn
      have hni : n < i := by
        split at hi <;> omega
      rcases List.mem_cons.1 hmem with hmem | hmem
      · cases hmem
        exact hni
      · exact Nat.lt_trans hni (ih h.2 hmem i rfl)

theorem IsMarked.split {s : Option Nat} {gap : Bool} {sh' : List Shown}
    (h : IsMarked s gap (sh ++ .line i l :: sh')) :
    IsMarked (some i) false sh' ∧ ∀ k m, .line k m ∈ sh → k < i := by
  induction sh generalizing s gap with
  | nil => exact ⟨h.2, fun k m hk => nomatch hk⟩
  | cons x sh ih =>
    cases x with
    | gap =>
      obtain ⟨hrest, hlt⟩ := ih h.2.2
      refine ⟨hrest, fun k m hk => ?_⟩
      rcases List.mem_cons.1 hk with hk | hk
      · cases hk
      · exact hlt k m hk
    | line j n =>
      obtain ⟨hrest, hlt⟩ := ih h.2
      refine ⟨hrest, fun k m hk => ?_⟩
      rcases List.mem_cons.1 hk with hk | hk
      · cases hk
        exact h.2.lt (List.mem_append_right _ (List.mem_cons_self ..)) j rfl
      · exact hlt k m hk

/-- Between two lines shown one after the other there is one mark if lines are left out, and none
otherwise. -/
theorem IsMarked.marked {gs sh' sh'' : List Shown} (h : IsMarked none false sh)
    (hsh : sh = sh' ++ .line i l :: (gs ++ .line j m :: sh'')) (hgs : ∀ g ∈ gs, g = .gap) :
    LeavesOut sh i j ∧ gs = [.gap] ∨ ¬LeavesOut sh i j ∧ gs = [] := by
  obtain ⟨hrest, hbefore⟩ := (hsh ▸ h).split
  match gs, hgs with
  | [], _ =>
    have hij : i + 1 = j := hrest.1 i rfl
    refine .inr ⟨?_, rfl⟩
    rintro ⟨k, hik, hkj, -⟩
    omega
  | [g], hgs =>
    obtain rfl : g = .gap := hgs g (List.mem_cons_self ..)
    have hij : i + 1 < j := hrest.2.2.1 i rfl
    refine .inl ⟨⟨i + 1, Nat.lt_succ_self i, hij, fun m' hmem => ?_⟩, rfl⟩
    simp only [hsh, List.mem_append, List.mem_cons, Shown.line.injEq, reduceCtorEq,
      List.not_mem_nil, false_or] at hmem
    rcases hmem with hmem | ⟨heq, -⟩ | ⟨heq, -⟩ | hmem
    · have hlt := hbefore _ _ hmem
      omega
    · omega
    · omega
    · have hlt := IsMarked.lt hrest.2.2.2 hmem j rfl
      omega
  | g :: g' :: gs, hgs =>
    obtain rfl : g = .gap := hgs g (by simp)
    obtain rfl : g' = .gap := hgs g' (by simp)
    cases hrest.2.2.2.1

/-! ### Distances -/

theorem changesAt_cons (as : List DiffLine) (l : DiffLine) (rest : List DiffLine) :
    changesAt (as ++ l :: rest) as.length = decide (l.change ≠ .unchanged) := by
  simp [changesAt]

theorem changesAt_append (as rest : List DiffLine) (k : Nat) :
    changesAt (as ++ rest) (as.length + k) = changesAt rest k := by
  rw [changesAt, List.getElem?_append_right (Nat.le_add_right _ _), Nat.add_sub_cancel_left]
  rfl

theorem changesAt_behind (as : List DiffLine) (l : DiffLine) (rest : List DiffLine) (k : Nat) :
    changesAt (as ++ l :: rest) (as.length + 1 + k) = changesAt rest k := by
  have happend := changesAt_append (as ++ [l]) rest k
  simpa using happend

theorem exists_of_getElem? (h : ls[i]? = some l) :
    ∃ as rest, ls = as ++ l :: rest ∧ as.length = i := by
  obtain ⟨hi, rfl⟩ := List.getElem?_eq_some_iff.1 h
  refine ⟨ls.take i, ls.drop (i + 1), ?_, ?_⟩
  · rw [List.getElem_cons_drop, List.take_append_drop]
  · rw [List.length_take, Nat.min_eq_left (Nat.le_of_lt hi)]

theorem changesAt_of_isPlain (hus : IsPlain us) (hk : k < us.length) (rest : List DiffLine) :
    changesAt (us ++ rest) k = false := by
  rw [changesAt, List.getElem?_append_left hk, List.getElem?_eq_getElem hk]
  simpa using hus _ (List.getElem_mem hk)

theorem isPlain_of_changesAt (h : ∀ k < us.length, changesAt (us ++ rest) k = false) :
    IsPlain us := by
  intro u hu
  obtain ⟨k, hk, rfl⟩ := List.getElem_of_mem hu
  have hplain := h k hk
  rw [changesAt, List.getElem?_append_left hk, List.getElem?_eq_getElem hk] at hplain
  simpa using hplain

theorem exists_of_changesAt (h : changesAt ls i = true) :
    ∃ as l rest, ls = as ++ l :: rest ∧ as.length = i ∧ l.change ≠ .unchanged := by
  cases hget : ls[i]? with
  | none =>
    rw [changesAt, hget] at h
    cases h
  | some l =>
    obtain ⟨as, rest, rfl, hlength⟩ := exists_of_getElem? hget
    refine ⟨as, l, rest, rfl, hlength, ?_⟩
    rwa [← hlength, changesAt_cons, decide_eq_true_eq] at h

theorem IsSpaced.length_of_first (h : IsSpaced c (us ++ m :: rest)) (hus : IsPlain us)
    (hm : m.change ≠ .unchanged) : us.length = 0 ∨ c ≤ us.length := by
  refine h.first us.length ?_ fun k hk => changesAt_of_isPlain hus hk _
  rw [changesAt_cons, decide_eq_true hm]

theorem IsSpaced.length_of_next (h : IsSpaced c (as ++ l :: (us ++ m :: rest)))
    (hl : l.change ≠ .unchanged) (hus : IsPlain us) (hm : m.change ≠ .unchanged) :
    us.length ≤ c ∨ 2 * c < us.length := by
  have hnext := h.next as.length (as.length + 1 + us.length) ?_ ?_ (by omega) ?_
  · omega
  · rw [changesAt_cons, decide_eq_true hl]
  · rw [changesAt_behind, changesAt_cons, decide_eq_true hm]
  · intro k hp hq
    obtain ⟨d, rfl⟩ : ∃ d, k = as.length + 1 + d := ⟨k - (as.length + 1), by omega⟩
    rw [changesAt_behind, changesAt_of_isPlain hus (by omega)]

/-! ### Differences that are spaced -/

theorem isMarked_showFrom (hspaced : IsSpaced c all) (hall : all = as ++ l :: rest)
    (hl : l.change ≠ .unchanged) :
    IsMarked (some as.length) false (showFrom c all true as.length (as.length + 1) rest) := by
  refine induction_on_changes (P := fun as _ rest =>
    IsMarked (some as.length) false (showFrom c all true as.length (as.length + 1) rest))
    ?_ ?_ hall hl
  · intro as l us hall hus
    have hmarked := isMarked_run_append as.length (us.take c) []
    rw [List.append_nil] at hmarked
    rw [showFrom_last hus, hmarked]
    rfl
  · intro as l us m rest hall hus hl hm ih
    rw [length_append_cons] at ih
    rw [showFrom_middle hall hus hm, middle]
    rcases (hall ▸ hspaced).length_of_next hl hus hm with hshort | hlong
    · rw [if_pos hshort, isMarked_run_append, IsMarked]
      refine ⟨fun n hn => ?_, ih⟩
      cases hn
      exact Nat.add_right_comm _ _ _
    · have hplace : as.length + 1 + (us.length - c) + (us.drop (us.length - c)).length =
          as.length + 1 + us.length := by
        rw [List.length_drop]
        omega
      have hlast := isMarked_run_line (some (as.length + (us.take c).length)) true
        (as.length + 1 + (us.length - c)) (us.drop (us.length - c)) m
        (showFrom c all true (as.length + 1 + us.length : Nat) (as.length + 1 + us.length + 1) rest)
      rw [hplace] at hlast
      rw [if_neg (by omega), if_pos (by omega), List.append_assoc, isMarked_run_append,
        List.cons_append, IsMarked, hlast]
      refine ⟨rfl, rfl, fun n hn => ?_, ih⟩
      cases hn
      rw [List.length_take, if_pos rfl]
      omega

/-- The block of a difference whose changes are spaced marks what it leaves out. -/
theorem isMarked_shown (hspaced : IsSpaced c all) : IsMarked none false (shown c all) := by
  rcases isPlain_or_exists_first all with hplain | ⟨us, m, rest, rfl, hus, hm⟩
  · rw [shown_of_isPlain hplain]
    rfl
  · have hrest := isMarked_showFrom hspaced rfl hm
    rw [shown_opening hus hm, opening]
    split
    · have hplace : us.length - c + (us.drop (us.length - c)).length = us.length := by
        rw [List.length_drop]
        omega
      have hline := isMarked_run_line none false (us.length - c) (us.drop (us.length - c)) m
        (showFrom c (us ++ m :: rest) true us.length (us.length + 1) rest)
      rw [hplace] at hline
      exact hline.2 ⟨(fun _ hn => nomatch hn), hrest⟩
    · exact ⟨(fun _ hn => nomatch hn), hrest⟩

theorem line_mem_shown_behind (hall : all = as ++ l :: (us ++ u :: rest))
    (hl : l.change ≠ .unchanged) (hus : IsPlain us) (hu : u.change = .unchanged)
    (hc : us.length < c) : .line (as.length + 1 + us.length) u ∈ shown c all := by
  obtain ⟨out, -, hshown⟩ := exists_shown_eq hall hl c
  have hplain : IsPlain (us ++ [u]) := hus.append_cons hu isPlain_nil
  have hnear : showFrom c all true as.length (as.length + 1) (us ++ [u] ++ rest) = _ :=
    showFrom_near hplain rfl rest
  rw [List.append_assoc, List.singleton_append] at hnear
  have hline : .line (as.length + 1 + us.length) u ∈ run (as.length + 1) ((us ++ [u]).take c) := by
    rw [line_mem_run_iff, Nat.add_sub_cancel_left, List.getElem?_take_of_lt hc]
    exact ⟨by omega, by simp⟩
  rw [hshown, hnear]
  exact List.mem_append_right _ (List.mem_cons_of_mem _ (List.mem_append_left _ hline))

theorem line_mem_shown_between (hspaced : IsSpaced c all)
    (hall : all = as ++ l :: (us ++ u :: (bs ++ m :: rest))) (hl : l.change ≠ .unchanged)
    (hus : IsPlain (us ++ u :: bs)) (hm : m.change ≠ .unchanged) (hc : bs.length < c) :
    .line (as.length + 1 + us.length) u ∈ shown c all := by
  have hparts : us ++ u :: (bs ++ m :: rest) = (us ++ u :: bs) ++ m :: rest := by simp
  rw [hparts] at hall
  obtain ⟨out, -, hshown⟩ := exists_shown_eq hall hl c
  have hlength := length_append_cons us u bs
  have hline : .line (as.length + 1 + us.length) u ∈ middle c (as.length + 1) (us ++ u :: bs) := by
    unfold middle
    split
    · rw [line_mem_run_iff, Nat.add_sub_cancel_left]
      exact ⟨by omega, by simp⟩
    · rcases (hall ▸ hspaced).length_of_next hl hus hm with hshort | hlong
      · contradiction
      · rw [if_pos (by omega)]
        refine List.mem_append_right _ (List.mem_cons_of_mem _ (line_mem_run_iff.2 ⟨by omega, ?_⟩))
        rw [List.getElem?_drop]
        have hplace : (us ++ u :: bs).length - c + (as.length + 1 + us.length -
            (as.length + 1 + ((us ++ u :: bs).length - c))) = us.length := by omega
        rw [hplace]
        simp
  rw [hshown, showFrom_middle hall hus hm]
  exact List.mem_append_right _ (List.mem_cons_of_mem _ (List.mem_append_left _ hline))

theorem line_mem_shown_first (hspaced : IsSpaced c (us ++ u :: (bs ++ m :: rest)))
    (hus : IsPlain (us ++ u :: bs)) (hm : m.change ≠ .unchanged) (hc : bs.length < c) :
    .line us.length u ∈ shown c (us ++ u :: (bs ++ m :: rest)) := by
  have hparts : us ++ u :: (bs ++ m :: rest) = (us ++ u :: bs) ++ m :: rest := by simp
  have hlength := length_append_cons us u bs
  rw [hparts] at hspaced ⊢
  rw [shown_opening hus hm, opening, if_pos]
  · refine List.mem_append_left _ (line_mem_run_iff.2 ⟨by omega, ?_⟩)
    have hplace : (us ++ u :: bs).length - c + (us.length - ((us ++ u :: bs).length - c)) =
        us.length := by omega
    rw [List.getElem?_drop, hplace]
    simp
  · have hfirst := hspaced.length_of_first hus hm
    omega

theorem line_mem_shown (hspaced : IsSpaced c all) (hu : all[i]? = some u)
    (hchange : u.change = .unchanged) (hj : changesAt all j = true) (hij : i ≤ j + c)
    (hji : j ≤ i + c) : .line i u ∈ shown c all := by
  obtain ⟨as, bs, rfl, rfl⟩ := exists_of_getElem? hu
  rcases Nat.lt_trichotomy j as.length with hlt | rfl | hgt
  · -- the change nearest in front
    rcases isPlain_or_exists_last as with hplain | ⟨as, l, us, rfl, hus, hl⟩
    · rw [changesAt_of_isPlain hplain hlt] at hj
      cases hj
    · have hparts : as ++ l :: us ++ u :: bs = as ++ l :: (us ++ u :: bs) := by simp
      rw [length_append_cons] at hlt hij hji ⊢
      rw [hparts] at hj
      have hle : j ≤ as.length := by
        by_contra hgt
        obtain ⟨d, rfl⟩ : ∃ d, j = as.length + 1 + d := ⟨j - (as.length + 1), by omega⟩
        rw [changesAt_behind, changesAt_of_isPlain hus (by omega)] at hj
        cases hj
      exact line_mem_shown_behind hparts hl hus hchange (by omega)
  · rw [changesAt_cons, decide_eq_true_eq] at hj
    contradiction
  · -- the change nearest behind
    obtain ⟨d, rfl⟩ : ∃ d, j = as.length + 1 + d := ⟨j - (as.length + 1), by omega⟩
    have hd : changesAt bs d = true := by rwa [changesAt_behind] at hj
    rcases isPlain_or_exists_first bs with hplain | ⟨vs, m, rest, rfl, hvs, hm⟩
    · obtain ⟨xs, x, ys, rfl, -, hx⟩ := exists_of_changesAt hd
      exact absurd (hplain x (by simp)) hx
    · have hle : vs.length ≤ d := by
        by_contra hgt
        rw [changesAt_of_isPlain hvs (by omega)] at hd
        cases hd
      rcases isPlain_or_exists_last as with hplain | ⟨as, l, us, rfl, hus, hl⟩
      · exact line_mem_shown_first hspaced (hplain.append_cons hchange hvs) hm (by omega)
      · have hparts : as ++ l :: us ++ u :: (vs ++ m :: rest) =
            as ++ l :: (us ++ u :: (vs ++ m :: rest)) := by simp
        rw [length_append_cons]
        exact line_mem_shown_between hspaced hparts hl (hus.append_cons hchange hvs) hm (by omega)

/-! ### Differences that are not -/

theorem eq_zero_or_le_of_showsContext (h : ShowsContext c all (shown c all))
    (hall : all = us ++ m :: rest) (hus : IsPlain us) (hm : m.change ≠ .unchanged) :
    us.length = 0 ∨ c ≤ us.length := by
  by_contra hshort
  obtain ⟨vs, u, rfl⟩ : ∃ vs u, us = vs ++ [u] :=
    ⟨us.dropLast, us.getLast (by rintro rfl; simp at hshort), (List.dropLast_concat_getLast _).symm⟩
  have hlength : (vs ++ [u]).length = vs.length + 1 := by simp
  have hget : all[vs.length]? = some u := by simp [hall]
  have hchange : changesAt all (vs.length + 1) = true := by
    rw [hall, ← hlength, changesAt_cons, decide_eq_true hm]
  have hshown := h.near vs.length u (vs.length + 1) hget (hus u (by simp)) hchange (by omega)
    (by omega)
  have hopening : shown c (vs ++ [u] ++ m :: rest) = _ := shown_opening hus hm
  rw [← hall, opening, if_neg (by omega), List.nil_append] at hopening
  rw [hopening, List.mem_cons] at hshown
  rcases hshown with heq | hmem
  · rw [Shown.line.injEq] at heq
    omega
  · have hlt := lt_of_mem_showFrom hall hm hmem
    omega

/-- The line in front of the second of two changes is not shown if the run between them is longer
than the context, but shorter than twice the context. -/
theorem two_mul_le_of_showsContext (h : ShowsContext c all (shown c all))
    (hall : all = as ++ l :: (us ++ m :: rest)) (hl : l.change ≠ .unchanged) (hus : IsPlain us)
    (hm : m.change ≠ .unchanged) (hlong : c < us.length) : 2 * c ≤ us.length := by
  by_contra hbad
  obtain ⟨out, hout, hshown⟩ := exists_shown_eq hall hl c
  rw [showFrom_middle hall hus hm, middle, if_neg (by omega), if_neg hbad,
    List.append_nil] at hshown
  obtain ⟨vs, u, rfl⟩ : ∃ vs u, us = vs ++ [u] :=
    ⟨us.dropLast, us.getLast (by rintro rfl; simp at hlong),
      (List.dropLast_concat_getLast _).symm⟩
  have hlength : (vs ++ [u]).length = vs.length + 1 := by simp
  have hget : all[as.length + 1 + vs.length]? = some u := by
    have hparts : all = (as ++ l :: vs) ++ u :: (m :: rest) := by simp [hall]
    rw [hparts, ← length_append_cons as l]
    simp
  have hchange : changesAt all (as.length + 1 + vs.length + 1) = true := by
    rw [hall, Nat.add_assoc, changesAt_behind, ← hlength, changesAt_cons, decide_eq_true hm]
  -- the line in front of the second change, which none of the parts shows
  have hmem := h.near _ u _ hget (hus u (by simp)) hchange (by omega) (by omega)
  rw [hshown, List.mem_append, List.mem_cons, List.mem_append, List.mem_cons] at hmem
  rcases hmem with hmem | hmem | hmem | hmem | hmem
  · have hlt := hout _ _ hmem
    omega
  · rw [Shown.line.injEq] at hmem
    omega
  · have hlt := lt_of_mem_run hmem
    rw [List.length_take] at hlt
    omega
  · rw [Shown.line.injEq] at hmem
    omega
  · have hparts : all = (as ++ l :: (vs ++ [u])) ++ m :: rest := by simp [hall]
    rw [← length_append_cons as l (vs ++ [u])] at hmem
    have hlt := lt_of_mem_showFrom hparts hm hmem
    rw [length_append_cons] at hlt
    omega

/-- A run of exactly twice the context is shown in full, but with a mark in it. -/
theorem ne_two_mul_of_showsContext (h : ShowsContext c all (shown c all))
    (hall : all = as ++ l :: (us ++ m :: rest)) (hl : l.change ≠ .unchanged) (hus : IsPlain us)
    (hm : m.change ≠ .unchanged) (hlong : c < us.length) : us.length ≠ 2 * c := by
  intro htwice
  obtain ⟨out, -, hshown⟩ := exists_shown_eq hall hl c
  have hc : us.length - c = c := by omega
  obtain ⟨xs, x, hxs⟩ : ∃ xs x, us.take c = xs ++ [x] := by
    have hne : us.take c ≠ [] := by
      rw [ne_eq, ← List.length_eq_zero_iff, List.length_take]
      omega
    exact ⟨_, _, (List.dropLast_concat_getLast hne).symm⟩
  obtain ⟨y, ys, hys⟩ : ∃ y ys, us.drop c = y :: ys := by
    refine List.exists_cons_of_ne_nil ?_
    rw [ne_eq, ← List.length_eq_zero_iff, List.length_drop]
    omega
  have hlength := congrArg List.length hxs
  rw [List.length_take, List.length_append, List.length_singleton] at hlength
  rw [showFrom_middle hall hus hm, middle, if_neg (by omega), if_pos (by omega), hc, hxs, hys,
    run_append, run_cons, run_cons, run_nil] at hshown
  have hmark := h.marked (out ++ .line as.length l :: run (as.length + 1) xs)
    (as.length + 1 + xs.length) x [.gap] (as.length + 1 + c) y
    (run (as.length + 1 + c + 1) ys ++ .line (as.length + 1 + us.length) m ::
      showFrom c all true (as.length + 1 + us.length : Nat) (as.length + 1 + us.length + 1) rest)
    (by simp [hshown]) (by simp)
  rcases hmark with ⟨⟨k, hik, hkj, -⟩, -⟩ | ⟨-, hnil⟩
  · omega
  · cases hnil

theorem length_of_showsContext (h : ShowsContext c all (shown c all))
    (hall : all = as ++ l :: (us ++ m :: rest)) (hl : l.change ≠ .unchanged) (hus : IsPlain us)
    (hm : m.change ≠ .unchanged) : us.length ≤ c ∨ 2 * c < us.length := by
  by_contra hbad
  have hlong : c < us.length := by omega
  have hle := two_mul_le_of_showsContext h hall hl hus hm hlong
  have hne := ne_two_mul_of_showsContext h hall hl hus hm hlong
  omega

/-- The block of a difference shows the lines near a change, and marks what it leaves out, exactly
if the changes are spaced. -/
theorem showsContext_iff : ShowsContext c all (shown c all) ↔ IsSpaced c all := by
  constructor
  · intro h
    refine ⟨fun q hq hfirst => ?_, fun p q hp hq hpq hnext => ?_⟩
    · obtain ⟨us, m, rest, rfl, rfl, hm⟩ := exists_of_changesAt hq
      exact eq_zero_or_le_of_showsContext h rfl (isPlain_of_changesAt hfirst) hm
    · obtain ⟨as, l, bs, rfl, rfl, hl⟩ := exists_of_changesAt hp
      obtain ⟨d, rfl⟩ : ∃ d, q = as.length + 1 + d := ⟨q - (as.length + 1), by omega⟩
      rw [changesAt_behind] at hq
      obtain ⟨us, m, rest, rfl, rfl, hm⟩ := exists_of_changesAt hq
      have hus : IsPlain us := isPlain_of_changesAt fun k hk => by
        rw [← hnext (as.length + 1 + k) (by omega) (by omega), changesAt_behind]
      have hlength := length_of_showsContext h rfl hl hus hm
      omega
  · intro hspaced
    refine ⟨fun i l h => getElem?_of_mem_showFrom rfl h, fun i l j hl hchange hj hij hji =>
      line_mem_shown hspaced hl hchange hj hij hji, fun as i l gs j m bs hsh hgs => ?_⟩
    exact (isMarked_shown hspaced).marked hsh hgs

end DiffLine

namespace Diff

open DiffLine

variable {t u : Text}

/-! ### Differences of texts -/

/-- **Context.** The markdown of a difference between two texts is a summary and a fenced block. The
block shows each unchanged line that is at most `c` positions away from a change, and marks where it
leaves lines out between two that it shows and nowhere else, exactly if the changes are spaced: no
line or at least `c` lines in front of the first one, and between neighbouring ones at most `c` or
more than `2 * c`. -/
theorem context_shown_iff (c : Nat) (h : t ≠ u) :
    (between t u c).markdown = Text.join ['\n']
        (["## Changes Summary".toList, summaryLine (between t u c).additions "addition".toList,
            summaryLine (between t u c).deletions "deletion".toList, [], "## Diff".toList,
            "```diff".toList] ++
          (shown c (between t u c).lines).map Shown.text ++ ["```".toList]) ∧
      (ShowsContext c (between t u c).lines (shown c (between t u c).lines) ↔
        IsSpaced c (between t u c).lines) := by
  refine ⟨?_, showsContext_iff⟩
  have hchanges : ¬((between t u c).additions = 0 ∧ (between t u c).deletions = 0) := by
    rintro ⟨hadd, hremove⟩
    refine h ((hasChanges_between t u c).1 ?_)
    rw [hasChanges, hadd, hremove]
    rfl
  exact if_neg hchanges

/-- A text in which the second line and the last are about to change. -/
def apartBefore : Text := "a\nb\nc\nd\ne\nf\ng".toList

/-- The text with the two lines changed. -/
def apartAfter : Text := "a\nB\nc\nd\ne\nf\nG".toList

theorem lines_apart : (between apartBefore apartAfter 1).lines =
    [⟨.unchanged, ['a'], some 1⟩, ⟨.remove, ['b'], none⟩, ⟨.add, ['B'], some 2⟩,
      ⟨.unchanged, ['c'], some 3⟩, ⟨.unchanged, ['d'], some 4⟩, ⟨.unchanged, ['e'], some 5⟩,
      ⟨.unchanged, ['f'], some 6⟩, ⟨.remove, ['g'], none⟩, ⟨.add, ['G'], some 7⟩] := by
  decide +kernel

theorem context_shown_iff_apart :
    apartBefore ≠ apartAfter ∧ IsSpaced 1 (between apartBefore apartAfter 1).lines ∧
      ShowsContext 1 (between apartBefore apartAfter 1).lines
        (shown 1 (between apartBefore apartAfter 1).lines) := by
  have hne : apartBefore ≠ apartAfter := by decide
  have hspaced : IsSpaced 1 (between apartBefore apartAfter 1).lines := by
    rw [lines_apart]
    decide
  exact ⟨hne, hspaced, (context_shown_iff 1 hne).2.2 hspaced⟩

/-- The line in front of a change in the second line is not shown; of three lines between two
changes the last is left out without a mark, with two lines of context; and of two lines both are
shown with a mark between them, with one. -/
theorem context_not_shown :
    ¬ShowsContext 3 (between "a\nb".toList "a\nB".toList 3).lines
        (shown 3 (between "a\nb".toList "a\nB".toList 3).lines) ∧
      ¬ShowsContext 2 (between "a\nb\nc\nd\ne".toList "A\nb\nc\nd\nE".toList 2).lines
        (shown 2 (between "a\nb\nc\nd\ne".toList "A\nb\nc\nd\nE".toList 2).lines) ∧
      ¬ShowsContext 1 (between "a\nb\nc\nd".toList "A\nb\nc\nD".toList 1).lines
        (shown 1 (between "a\nb\nc\nd".toList "A\nb\nc\nD".toList 1).lines) := by
  refine ⟨fun h => ?_, fun h => ?_, fun h => ?_⟩
  · have htop : (between "a\nb".toList "a\nB".toList 3).lines =
        [⟨.unchanged, ['a'], some 1⟩, ⟨.remove, ['b'], none⟩, ⟨.add, ['B'], some 2⟩] := by
      decide +kernel
    exact absurd (showsContext_iff.1 h) (by rw [htop]; decide)
  · have hclose : (between "a\nb\nc\nd\ne".toList "A\nb\nc\nd\nE".toList 2).lines =
        [⟨.remove, ['a'], none⟩, ⟨.add, ['A'], some 1⟩, ⟨.unchanged, ['b'], some 2⟩,
          ⟨.unchanged, ['c'], some 3⟩, ⟨.unchanged, ['d'], some 4⟩, ⟨.remove, ['e'], none⟩,
          ⟨.add, ['E'], some 5⟩] := by decide +kernel
    exact absurd (showsContext_iff.1 h) (by rw [hclose]; decide)
  · have hfull : (between "a\nb\nc\nd".toList "A\nb\nc\nD".toList 1).lines =
        [⟨.remove, ['a'], none⟩, ⟨.add, ['A'], some 1⟩, ⟨.unchanged, ['b'], some 2⟩,
          ⟨.unchanged, ['c'], some 3⟩, ⟨.remove, ['d'], none⟩, ⟨.add, ['D'], some 4⟩] := by
      decide +kernel
    exact absurd (showsContext_iff.1 h) (by rw [hfull]; decide)

end Diff
end ShellConfig
