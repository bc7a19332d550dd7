import ShellConfig.Entry.Duplicates
import ShellConfig.Proofs.Section.Counts
import Mathlib.Data.Finset.Card

/-!
# Groups of entries with one key

What a report on duplicates says of a list of entries. Main statements: `firstSeen_eraseDups`, the
order of distinct elements; `groupsBy_concat`, what one more entry does to the groups, and
`groupsBy_eq_foldl`, that they can be collected in one pass; `ofKey_reports`, the whole report.
-/

namespace ShellConfig

section FirstSeen

/-! ### Order of first occurrence -/

variable {α : Type} [BEq α] {xs ys zs : List α}

/-- The elements of the second list stand in the order in which they are first seen in the first
list, and so each of them once. -/
def FirstSeen (xs ys : List α) : Prop := ys.Pairwise fun a b => xs.idxOf a < xs.idxOf b

theorem FirstSeen.nodup (h : FirstSeen xs ys) : ys.Nodup := by
  refine h.imp fun hlt heq => ?_
  rw [heq] at hlt
  exact Nat.lt_irrefl _ hlt

variable [LawfulBEq α]

/-- What comes behind a list does not change where its elements are first seen. -/
theorem FirstSeen.append_right (h : FirstSeen xs ys) (hys : ∀ b ∈ ys, b ∈ xs) :
    FirstSeen (xs ++ zs) ys := by
  refine List.Pairwise.imp_of_mem (fun ha hb hlt => ?_) h
  rwa [List.idxOf_append_of_mem (hys _ ha), List.idxOf_append_of_mem (hys _ hb)]

theorem eraseDups_concat (xs : List α) (a : α) :
    (xs ++ [a]).eraseDups = if a ∈ xs then xs.eraseDups else xs.eraseDups ++ [a] := by
  rw [List.eraseDups_append, List.removeAll]
  split
  · next h => simp [h]
  · next h => simp [h, List.eraseDups_cons]

theorem firstSeen_eraseDups (xs : List α) : FirstSeen xs xs.eraseDups := by
  induction xs using List.reverseRecOn with
  | nil => exact List.Pairwise.nil
  | append_singleton xs a ih =>
    have hxs : FirstSeen (xs ++ [a]) xs.eraseDups :=
      ih.append_right fun b hb => List.mem_eraseDups.1 hb
    rw [eraseDups_concat]
    split
    · exact hxs
    · next ha =>
      refine List.pairwise_append.2 ⟨hxs, List.pairwise_singleton _ a, fun b hb c hc => ?_⟩
      have hb : b ∈ xs := List.mem_eraseDups.1 hb
      rw [List.mem_singleton.1 hc, List.idxOf_append_of_mem hb, List.idxOf_append_of_notMem ha]
      exact Nat.lt_add_right _ (List.idxOf_lt_length_of_mem hb)

/-- How often each distinct element of a list stands in it adds up to its length. -/
theorem sum_count_eraseDups (xs : List α) :
    (xs.eraseDups.map fun a => xs.count a).sum = xs.length := by
  refine sum_countP _ fun b hb => ?_
  have hone : xs.eraseDups.count b = 1 :=
    List.count_eq_one_of_mem (firstSeen_eraseDups xs).nodup (List.mem_eraseDups.2 hb)
  rw [← hone, List.count]
  exact List.countP_congr fun a _ => by rw [beq_iff_eq, beq_iff_eq, eq_comm]

end FirstSeen

theorem Entry.shownLabel_eq (e : Entry) :
    e.shownLabel = (e.label.filter (· ≠ [])).getD unlabeled := by
  unfold shownLabel
  rcases e.label with _ | _ | ⟨c, t⟩ <;> rfl

namespace DuplicateReport

variable {es : List Entry} {f : Field} {g : DuplicateGroup} {gs : List DuplicateGroup} {k : Text}

/-! ### The groups -/

def keys (f : Field) (es : List Entry) : List Text := es.filterMap (·.get? f)

theorem map_key_groupsBy (f : Field) (es : List Entry) :
    (groupsBy f es).map (·.key) = (keys f es).eraseDups := by
  rw [groupsBy, List.map_map]
  exact List.map_id _

theorem any_key_groupsBy (f : Field) (es : List Entry) (k : Text) :
    (groupsBy f es).any (·.key = k) = true ↔ k ∈ keys f es := by
  rw [← List.mem_eraseDups, ← map_key_groupsBy, List.mem_map, List.any_eq_true]
  simp only [decide_eq_true_eq]

theorem occurrences_of_mem (h : g ∈ groupsBy f es) : g.occurrences = withKey f g.key es := by
  obtain ⟨k, -, rfl⟩ := List.mem_map.1 h
  rfl

theorem withKey_eq (f : Field) (k : Text) (es : List Entry) :
    withKey f k es = es.filter (·.get? f = some k) :=
  List.filter_congr fun e _ => by rw [Bool.eq_iff_iff, beq_iff_eq, decide_eq_true_eq]

theorem length_withKey (f : Field) (k : Text) (es : List Entry) :
    (withKey f k es).length = (keys f es).count k := by
  rw [withKey, ← List.countP_eq_length_filter, keys, List.count, List.countP_filterMap]
  refine List.countP_congr fun e _ => ?_
  cases e.get? f <;> simp

theorem count_pos_of_mem (h : g ∈ groupsBy f es) : 0 < g.count := by
  obtain ⟨k, hk, rfl⟩ := List.mem_map.1 h
  show 0 < (withKey f k es).length
  rw [length_withKey]
  exact List.count_pos_iff.2 (List.mem_eraseDups.1 hk)

/-! ### One entry after the other -/

/-- What one more entry does to some groups: it joins the group of its key, or it begins a group
behind the others. -/
def collect (f : Field) (gs : List DuplicateGroup) (e : Entry) : List DuplicateGroup :=
  match e.get? f with
  | none => gs
  | some k =>
    if gs.any (·.key = k) then
      gs.map fun g => if g.key = k then { g with occurrences := g.occurrences ++ [e] } else g
    else
      gs ++ [⟨k, [e]⟩]

theorem withKey_concat (f : Field) (k : Text) (es : List Entry) (e : Entry) :
    withKey f k (es ++ [e]) =
      if e.get? f = some k then withKey f k es ++ [e] else withKey f k es := by
  rw [withKey, List.filter_append]
  split
  · next h => simp [withKey, h]
  · next h => simp [withKey, h]

theorem withKey_eq_nil (h : k ∉ keys f es) : withKey f k es = [] := by
  rw [← List.length_eq_zero_iff, length_withKey]
  exact List.count_eq_zero.2 h

theorem keys_concat (f : Field) (es : List Entry) (e : Entry) :
    keys f (es ++ [e]) = keys f es ++ (e.get? f).toList := by
  rw [keys, List.filterMap_append]
  cases h : e.get? f <;> simp [keys, h]

/-- **Step.** The groups of a list with one more entry at its end. -/
theorem groupsBy_concat (f : Field) (es : List Entry) (e : Entry) :
    groupsBy f (es ++ [e]) = collect f (groupsBy f es) e := by
  have hgroups : ∀ es, groupsBy f es = (keys f es).eraseDups.map fun k => ⟨k, withKey f k es⟩ :=
    fun _ => rfl
  rw [hgroups, keys_concat]
  cases he : e.get? f with
  | none => simp [collect, he, hgroups, withKey_concat]
  | some k =>
    have hcollect : ∀ k', withKey f k' (es ++ [e]) =
        if k' = k then withKey f k' es ++ [e] else withKey f k' es := by
      intro k'
      rw [withKey_concat, he]
      exact if_congr (Option.some_inj.trans eq_comm) rfl rfl
    rw [Option.toList_some, eraseDups_concat, collect, he]
    simp only [any_key_groupsBy, hcollect]
    split
    · -- the key has a group, and the entry joins it
      rw [hgroups, List.map_map]
      refine List.map_congr_left fun k' _ => ?_
      rw [Function.comp_apply]
      split <;> rfl
    · -- the key is new, and no group of an earlier key changes
      next hk =>
      rw [List.map_append, List.map_singleton, if_pos rfl, withKey_eq_nil hk, hgroups]
      refine congrArg (· ++ [_]) (List.map_congr_left fun k' hk' => ?_)
      have hne : k' ≠ k := fun heq => hk (heq ▸ List.mem_eraseDups.1 hk')
      rw [if_neg hne]

/-- **Run.** The groups can be collected in one pass over the entries. -/
theorem groupsBy_eq_foldl (f : Field) (es : List Entry) :
    groupsBy f es = es.foldl (collect f) [] := by
  induction es using List.reverseRecOn with
  | nil => rfl
  | append_singleton es e ih => rw [groupsBy_concat, List.foldl_concat, ih]

/-! ### Entries beyond the first -/

/-- How many entries of some groups are not the first of their group. -/
def excess (gs : List DuplicateGroup) : Nat := gs.foldr (fun g n => g.count - 1 + n) 0

theorem excess_filter (gs : List DuplicateGroup) :
    excess (gs.filter fun g => 1 < g.count) = excess gs := by
  induction gs with
  | nil => rfl
  | cons g gs ih =>
    rw [List.filter_cons]
    show _ = g.count - 1 + excess gs
    split
    · show g.count - 1 + excess _ = _
      rw [ih]
    · next h =>
      rw [decide_eq_true_eq] at h
      omega

theorem excess_add_length (h : ∀ g ∈ gs, 0 < g.count) :
    excess gs + gs.length = (gs.map (·.count)).sum := by
  induction gs with
  | nil => rfl
  | cons g gs ih =>
    obtain ⟨hg, hgs⟩ := List.forall_mem_cons.1 h
    have := ih hgs
    show g.count - 1 + excess gs + (gs.length + 1) = _
    rw [List.map_cons, List.sum_cons]
    omega

/-- The groups hold each entry that has a key once. -/
theorem sum_count_groupsBy (f : Field) (es : List Entry) :
    ((groupsBy f es).map (·.count)).sum = (keys f es).length := by
  rw [← sum_count_eraseDups, groupsBy, List.map_map]
  exact congrArg List.sum (List.map_congr_left fun k _ => length_withKey f k es)

/-! ### The report -/

/-- What a report says of some entries, given the key of each of them. -/
structure Reports (key : Entry → Option Text) (es : List Entry) (r : DuplicateReport) : Prop where
  /-- The keys of the groups are those that two or more entries have. -/
  mem_keys_iff : ∀ k, k ∈ r.groups.map (·.key) ↔ 2 ≤ es.countP (key · = some k)
  firstSeen_keys : FirstSeen (es.filterMap key) (r.groups.map (·.key))
  occurrences_eq : ∀ g ∈ r.groups, g.occurrences = es.filter (key · = some g.key)
  mem_labels_iff : ∀ g ∈ r.groups, ∀ l,
    l ∈ g.labels ↔ ∃ e ∈ g.occurrences, (e.label.filter (· ≠ [])).getD unlabeled = l
  firstSeen_labels : ∀ g ∈ r.groups,
    FirstSeen (g.occurrences.map fun e => (e.label.filter (· ≠ [])).getD unlabeled) g.labels
  /-- The entries that have a key are those beyond the first of their key, and one for each key. -/
  total_add_card : r.total + (es.filterMap key).toFinset.card = es.countP fun e => (key e).isSome

theorem mem_groups_iff :
    g ∈ (ofField f es).groups ↔ g ∈ groupsBy f es ∧ 2 ≤ g.count := by
  refine List.mem_filter.trans (and_congr_right fun _ => ?_)
  rw [decide_eq_true_eq, Nat.lt_iff_add_one_le]

/-- A key is reported if two or more entries have it. -/
theorem mem_keys_iff : k ∈ (ofField f es).groups.map (·.key) ↔ 2 ≤ (withKey f k es).length := by
  rw [List.mem_map]
  constructor
  · rintro ⟨g, hg, rfl⟩
    obtain ⟨hmem, hcount⟩ := mem_groups_iff.1 hg
    rwa [← occurrences_of_mem hmem]
  · intro hk
    refine ⟨⟨k, withKey f k es⟩, mem_groups_iff.2 ⟨?_, hk⟩, rfl⟩
    have hmem : k ∈ keys f es := by
      by_contra hnot
      rw [withKey_eq_nil hnot] at hk
      cases hk
    exact List.mem_map_of_mem (List.mem_eraseDups.2 hmem)

theorem total_add (f : Field) (es : List Entry) :
    (ofField f es).total + (keys f es).eraseDups.length = (keys f es).length := by
  rw [← map_key_groupsBy, List.length_map, ← sum_count_groupsBy,
    ← excess_add_length fun g => count_pos_of_mem, ← excess_filter]
  rfl

theorem ofField_reports (f : Field) (es : List Entry) : Reports (·.get? f) es (ofField f es) := by
  constructor
  case mem_keys_iff =>
    intro k
    rw [mem_keys_iff, withKey_eq, List.countP_eq_length_filter]
  case firstSeen_keys =>
    have hseen : FirstSeen (keys f es) ((groupsBy f es).map (·.key)) := by
      rw [map_key_groupsBy]
      exact firstSeen_eraseDups _
    exact List.Pairwise.sublist (List.filter_sublist.map _) hseen
  case occurrences_eq =>
    intro g hg
    rw [occurrences_of_mem (mem_groups_iff.1 hg).1, withKey_eq]
  case mem_labels_iff =>
    intro g _ l
    rw [DuplicateGroup.labels, List.mem_eraseDups, List.mem_map]
    simp only [Entry.shownLabel_eq]
  case firstSeen_labels =>
    intro g _
    simp only [← Entry.shownLabel_eq]
    exact firstSeen_eraseDups _
  case total_add_card =>
    have hdistinct : (keys f es).toFinset = (keys f es).eraseDups.toFinset := by
      ext k
      rw [List.mem_toFinset, List.mem_toFinset, List.mem_eraseDups]
    have hcard : (keys f es).toFinset.card = (keys f es).eraseDups.length := by
      rw [hdistinct, List.toFinset_card_of_nodup (firstSeen_eraseDups _).nodup]
    rw [← List.length_filterMap_eq_countP]
    exact (congrArg _ hcard).trans (total_add f es)

/-- **Duplicates.** For every name, what is reported of some entries are the keys that two or more
of them have, in the order in which they are first seen, each with all entries that have it. -/
theorem ofKey_reports (name : Text) (es : List Entry) :
    Reports (·.key? name) es (ofKey name es) := by
  unfold Entry.key? ofKey
  cases Field.ofKey? name with
  | none =>
    -- no entry has a field that there is not
    exact ⟨fun k => by simp, .nil, nofun, nofun, nofun, by simp⟩
  | some f => exact ofField_reports f es

end DuplicateReport
end ShellConfig
