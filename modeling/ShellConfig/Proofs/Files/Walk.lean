import Mathlib.Data.List.Induction
import ShellConfig.Files.Tree

/-!
# Walks

The walks that arrive, as a relation with one rule for each kind of step. Main statements:
`walk_eq_ok_iff`, that the relation says which walks arrive and where; `Leads.frame`, that a walk
does not depend on places where there is nothing to walk through; `Leads.parent` and `Leads.child`,
that a walk to a name is one to its directory with one more step; and `walk_resolved`, that the path
to a place leads there or cannot be looked up.
-/

namespace ShellConfig.FileTree

/-- At a place there is a directory in which names may be looked up. -/
def Searchable (t : FileTree) (p : Place) : Prop :=
  ∃ m : Mode, t.node? p = some (.dir m) ∧ m.searchable = true

theorem Searchable.isDirectoryAt {t : FileTree} {p : Place} (h : t.Searchable p) :
    t.isDirectoryAt p = true := by
  obtain ⟨m, hm, -⟩ := h
  unfold FileTree.isDirectoryAt
  rw [hm]

theorem exists_dir_of_isDirectoryAt {t : FileTree} {p : Place} (h : t.isDirectoryAt p = true) :
    ∃ m, t.node? p = some (.dir m) := by
  unfold isDirectoryAt at h
  split at h
  · exact ⟨_, ‹_›⟩
  · cases h

/-- A step that looks for an entry of the directory, and not for the directory or the one above. -/
def IsStep (n : Text) : Prop := n ≠ Path.here ∧ n ≠ Path.up

/-- No walk goes on from what stands here: there is nothing or a file. -/
def IsBare : Option Node → Prop
  | none | some (.file _ _ _) => True
  | _ => False

@[simp] theorem isBare_none : IsBare none := trivial

@[simp] theorem isBare_file (b : ByteArray) (m : Mode) (s : Stamp) : IsBare (some (.file b m s)) :=
  trivial

@[simp] theorem not_isBare_dir (m : Mode) : ¬ IsBare (some (.dir m)) := id

@[simp] theorem not_isBare_link (target : Text) : ¬ IsBare (some (.link target)) := id

theorem isBare_of_ne {v : Option Node} (hdir : ∀ m, v ≠ some (.dir m))
    (hlink : ∀ target, v ≠ some (.link target)) : IsBare v := by
  rcases v with - | (- | m | target)
  · trivial
  · trivial
  · exact absurd rfl (hdir m)
  · exact absurd rfl (hlink target)

/-- The walks that arrive: from a place, along some steps, at another place. The numbers and marks
are those of `walk`. -/
inductive Leads (t : FileTree) (goal : Goal) : Nat → Bool → Place → List Text → Place → Prop
  | arrive {links slash here} (hslash : slash = true → t.isDirectoryAt here = true) :
      Leads t goal links slash here [] here
  | stay {links slash here ns q} (hdir : t.Searchable here)
      (hrest : Leads t goal links slash here ns q) :
      Leads t goal links slash here (Path.here :: ns) q
  | climb {links slash here ns q} (hdir : t.Searchable here)
      (hrest : Leads t goal links slash here.dropLast ns q) :
      Leads t goal links slash here (Path.up :: ns) q
  /-- The last step leads to nothing. -/
  | vacant {links slash here n} (hdir : t.Searchable here) (hstep : IsStep n)
      (hshort : byteCount n ≤ maxNameBytes) (hnew : slash = true → goal ≠ .newContent)
      (hnode : t.node? (here ++ [n]) = none) : Leads t goal links slash here [n] (here ++ [n])
  /-- The last step leads to a link, which is what is looked for. -/
  | halt {links slash here n target} (hdir : t.Searchable here) (hstep : IsStep n)
      (hshort : byteCount n ≤ maxNameBytes) (hgoal : goal = .entry)
      (hnode : t.node? (here ++ [n]) = some (.link target)) :
      Leads t goal links slash here [n] (here ++ [n])
  | follow {links slash here n ns target q} (hdir : t.Searchable here) (hstep : IsStep n)
      (hshort : byteCount n ≤ maxNameBytes)
      (hnew : ns = [] → slash = true → goal ≠ .newContent) (hgoal : ns = [] → goal ≠ .entry)
      (hnode : t.node? (here ++ [n]) = some (.link target))
      (hrest : Leads t goal links (slash || ns.isEmpty && Path.endsInSlash target)
        (start here (Path.anchorOf target)) (Path.stepsOf target ++ ns) q) :
      Leads t goal (links + 1) slash here (n :: ns) q
  | enter {links slash here n ns v q} (hdir : t.Searchable here) (hstep : IsStep n)
      (hshort : byteCount n ≤ maxNameBytes)
      (hnew : ns = [] → slash = true → goal ≠ .newContent)
      (hnode : t.node? (here ++ [n]) = some v) (hlink : ∀ target, v ≠ .link target)
      (hrest : Leads t goal links slash (here ++ [n]) ns q) :
      Leads t goal links slash here (n :: ns) q

variable {t u : FileTree} {goal : Goal} {links : Nat} {slash : Bool} {here q : Place}
  {n : Text} {ns : List Text}

theorem leads_of_walk (h : t.walk goal links slash here ns = .ok q) :
    Leads t goal links slash here ns q := by
  fun_induction walk t goal links slash here ns generalizing q with
  | case2 links slash here hslash =>
    injection h with h
    subst h
    exact .arrive fun hs => by simpa [hs] using hslash
  | case5 links slash here ns m hm hs ih => exact .stay ⟨m, hm, by simpa using hs⟩ (ih h)
  | case6 links slash here ns m hm hs _ ih => exact .climb ⟨m, hm, by simpa using hs⟩ (ih h)
  | case9 links slash here n ns m hm hs hn hn' hnew hshort hnode hns =>
    injection h with h
    subst h
    obtain rfl : ns = [] := by simpa using hns
    exact .vacant ⟨m, hm, by simpa using hs⟩ ⟨hn, hn'⟩ (by omega) (by simpa using hnew) hnode
  | case11 links slash here n ns m hm hs hn hn' hnew hshort target hnode hgoal =>
    injection h with h
    subst h
    obtain rfl : ns = [] := by simpa using hgoal.1
    exact .halt ⟨m, hm, by simpa using hs⟩ ⟨hn, hn'⟩ (by omega) hgoal.2 hnode
  | case13 slash here n ns m hm hs hn hn' hnew hshort target hnode hgoal links ih =>
    exact .follow ⟨m, hm, by simpa using hs⟩ ⟨hn, hn'⟩ (by omega) (by simpa using hnew)
      (by simpa using hgoal) hnode (ih h)
  | case14 links slash here n ns m hm hs hn hn' hnew hshort v hlink hnode ih =>
    exact .enter ⟨m, hm, by simpa using hs⟩ ⟨hn, hn'⟩ (by omega) (by simpa using hnew) hnode
      (fun target e => hlink target e) (ih h)
  | _ => simp at h

theorem walk_stay (h : t.Searchable here) (ns : List Text) :
    t.walk goal links slash here (Path.here :: ns) = t.walk goal links slash here ns := by
  obtain ⟨m, hm, hs⟩ := h
  rw [walk]
  simp [hm, hs]

theorem walk_climb (h : t.Searchable here) (ns : List Text) :
    t.walk goal links slash here (Path.up :: ns) = t.walk goal links slash here.dropLast ns := by
  obtain ⟨m, hm, hs⟩ := h
  rw [walk]
  simp [hm, hs, show Path.up ≠ Path.here by decide]

theorem walk_step (h : t.Searchable here) (hstep : IsStep n) (hshort : byteCount n ≤ maxNameBytes)
    (hnew : ns = [] → slash = true → goal ≠ .newContent) :
    t.walk goal links slash here (n :: ns) =
      match t.node? (here ++ [n]) with
      | none => if ns.isEmpty then .ok (here ++ [n]) else .error .noEntry
      | some (.link target) =>
        if ns.isEmpty ∧ goal = .entry then .ok (here ++ [n])
        else
          match links with
          | 0 => .error .tooManyLinks
          | links + 1 =>
            t.walk goal links (slash || ns.isEmpty && Path.endsInSlash target)
              (start here (Path.anchorOf target)) (Path.stepsOf target ++ ns)
      | some _ => t.walk goal links slash (here ++ [n]) ns := by
  obtain ⟨m, hm, hs⟩ := h
  have hnew' : ¬ (ns.isEmpty && slash && decide (goal = .newContent)) = true := by simpa using hnew
  have hwalk := walk.eq_def t goal links slash here (n :: ns)
  simp only [hm, hs, hstep.1, hstep.2, Nat.not_lt.2 hshort, hnew', if_false, Bool.not_true,
    Bool.false_eq_true] at hwalk
  exact hwalk

theorem walk_enter (h : t.Searchable here) (hstep : IsStep n) (hshort : byteCount n ≤ maxNameBytes)
    (hnew : ns = [] → slash = true → goal ≠ .newContent) {v : Node}
    (hnode : t.node? (here ++ [n]) = some v) (hlink : ∀ target, v ≠ .link target) :
    t.walk goal links slash here (n :: ns) = t.walk goal links slash (here ++ [n]) ns := by
  rw [walk_step h hstep hshort hnew, hnode]
  cases v with
  | link target => exact absurd rfl (hlink target)
  | file | dir => rfl

theorem walk_of_leads (h : Leads t goal links slash here ns q) :
    t.walk goal links slash here ns = .ok q := by
  induction h with
  | arrive hslash =>
    rw [walk]
    simp_all
  | stay hdir _ ih => rw [walk_stay hdir, ih]
  | climb hdir _ ih => rw [walk_climb hdir, ih]
  | vacant hdir hstep hshort hnew hnode =>
    rw [walk_step hdir hstep hshort fun _ => hnew, hnode]
    rfl
  | halt hdir hstep hshort hgoal hnode =>
    rw [walk_step hdir hstep hshort (by simp [hgoal]), hnode]
    exact if_pos ⟨rfl, hgoal⟩
  | follow hdir hstep hshort hnew hgoal hnode _ ih =>
    rw [walk_step hdir hstep hshort hnew, hnode]
    exact (if_neg fun h => hgoal (List.isEmpty_iff.1 h.1) h.2).trans ih
  | enter hdir hstep hshort hnew hnode hlink _ ih =>
    rw [walk_enter hdir hstep hshort hnew hnode hlink, ih]

theorem walk_eq_ok_iff :
    t.walk goal links slash here ns = .ok q ↔ Leads t goal links slash here ns q :=
  ⟨leads_of_walk, walk_of_leads⟩

theorem mark_eq (hns : ns ≠ []) (b : Bool) : (slash || ns.isEmpty && b) = slash := by
  simp [List.isEmpty_iff, hns]

theorem Leads.follow_on {target : Text} (hdir : t.Searchable here) (hstep : IsStep n)
    (hshort : byteCount n ≤ maxNameBytes) (hns : ns ≠ [])
    (hnode : t.node? (here ++ [n]) = some (.link target))
    (hrest : Leads t goal links slash (start here (Path.anchorOf target))
      (Path.stepsOf target ++ ns) q) : Leads t goal (links + 1) slash here (n :: ns) q := by
  refine .follow hdir hstep hshort (fun h => absurd h hns) (fun h => absurd h hns) hnode ?_
  rwa [mark_eq hns]

/-! ### The last step -/

theorem leads_child (hdir : t.Searchable here) (hstep : IsStep n)
    (hshort : byteCount n ≤ maxNameBytes)
    (hnode : goal = .entry ∨ ∀ target, t.node? (here ++ [n]) ≠ some (.link target)) :
    Leads t goal links false here [n] (here ++ [n]) := by
  cases hv : t.node? (here ++ [n]) with
  | none => exact .vacant hdir hstep hshort (by simp) hv
  | some v =>
    by_cases hl : ∃ target, v = .link target
    · obtain ⟨target, rfl⟩ := hl
      have hgoal : goal = .entry := hnode.resolve_right fun h => h target hv
      exact .halt hdir hstep hshort hgoal hv
    · exact .enter hdir hstep hshort (by simp) hv (fun target e => hl ⟨target, e⟩)
        (.arrive (by simp))

theorem Leads.of_bare (h : Leads t goal links slash here ns q) (hb : IsBare (t.node? here)) :
    ns = [] ∧ q = here ∧ slash = false := by
  cases h with
  | arrive hslash =>
    refine ⟨rfl, rfl, ?_⟩
    cases slash with
    | false => rfl
    | true =>
      have hdir := hslash rfl
      unfold isDirectoryAt at hdir
      split at hdir
      · simp_all
      · simp at hdir
  | stay hdir | climb hdir | vacant hdir | halt hdir | follow hdir | enter hdir =>
    obtain ⟨m, hm, -⟩ := hdir
    rw [hm] at hb
    exact absurd hb (not_isBare_dir m)

/-- A walk that arrives at a directory may as well have been held to that. -/
theorem Leads.mark (h : Leads t .content links false here ns q) (hq : t.isDirectoryAt q = true)
    (slash : Bool) : Leads t .content links slash here ns q := by
  generalize hfalse : false = mark at h
  induction h generalizing slash with
  | arrive => exact .arrive fun _ => hq
  | stay hdir _ ih => exact .stay hdir (ih hq slash hfalse)
  | climb hdir _ ih => exact .climb hdir (ih hq slash hfalse)
  | vacant _ _ _ _ hnode => simp [isDirectoryAt, hnode] at hq
  | halt _ _ _ hgoal => cases hgoal
  | @follow links mark here n ns target q hdir hstep hshort _ _ hnode hrest ih =>
    subst hfalse
    refine .follow hdir hstep hshort (by simp) (by simp) hnode ?_
    by_cases hend : (ns.isEmpty && Path.endsInSlash target) = true
    · rw [hend] at hrest ⊢
      rwa [Bool.or_true]
    · rw [Bool.eq_false_iff.2 hend] at ih ⊢
      rw [Bool.or_false]
      exact ih hq slash rfl
  | enter hdir hstep hshort _ hnode hlink _ ih =>
    exact .enter hdir hstep hshort (by simp) hnode hlink (ih hq slash hfalse)

/-- A walk to a directory goes on to each name in it. -/
theorem Leads.child (h : Leads t .content links slash here ns q) (hq : t.Searchable q)
    (hstep : IsStep n) (hshort : byteCount n ≤ maxNameBytes) :
    Leads t .entry links false here (ns ++ [n]) (q ++ [n]) := by
  induction h with
  | arrive => exact leads_child hq hstep hshort (.inl rfl)
  | stay hdir _ ih => exact .stay hdir (ih hq)
  | climb hdir _ ih => exact .climb hdir (ih hq)
  | vacant _ _ _ _ hnode =>
    obtain ⟨m, hm, -⟩ := hq
    rw [hnode] at hm
    cases hm
  | halt _ _ _ hgoal => cases hgoal
  | follow hdir hstep' hshort' _ _ hnode _ ih =>
    refine .follow_on hdir hstep' hshort' (by simp) hnode ?_
    simpa using ih hq
  | enter hdir hstep' hshort' _ hnode hlink _ ih =>
    exact .enter hdir hstep' hshort' (by simp) hnode hlink (ih hq)

/-- A walk to a name first comes to the directory that the name is looked for in. -/
theorem Leads.parent (h : Leads t .entry links false here (ns ++ [n]) q) (hstep : IsStep n) :
    ∃ d, q = d ++ [n] ∧ t.Searchable d ∧ byteCount n ≤ maxNameBytes ∧
      Leads t .content links false here ns d := by
  generalize hsteps : ns ++ [n] = steps at h
  generalize hslash : false = slash at h
  induction h generalizing ns with
  | arrive => simp at hsteps
  | stay hdir _ ih =>
    cases ns with
    | nil => exact absurd (List.cons.inj hsteps).1 hstep.1
    | cons n' ns =>
      obtain ⟨rfl, rfl⟩ := List.cons.inj hsteps
      obtain ⟨d, hq, hd, hn, hrest⟩ := ih rfl hslash
      exact ⟨d, hq, hd, hn, .stay hdir hrest⟩
  | climb hdir _ ih =>
    cases ns with
    | nil => exact absurd (List.cons.inj hsteps).1 hstep.2
    | cons n' ns =>
      obtain ⟨rfl, rfl⟩ := List.cons.inj hsteps
      obtain ⟨d, hq, hd, hn, hrest⟩ := ih rfl hslash
      exact ⟨d, hq, hd, hn, .climb hdir hrest⟩
  | vacant hdir _ hshort | halt hdir _ hshort =>
    cases ns with
    | nil =>
      obtain ⟨rfl, -⟩ := List.cons.inj hsteps
      exact ⟨_, rfl, hdir, hshort, .arrive fun _ => hdir.isDirectoryAt⟩
    | cons n' ns => simp at hsteps
  | @follow links slash here n' ns' target q hdir hstep' hshort _ hgoal hnode _ ih =>
    cases ns with
    | nil => exact absurd rfl (hgoal (List.cons.inj hsteps).2.symm)
    | cons n' ns =>
      obtain ⟨rfl, rfl⟩ := List.cons.inj hsteps
      subst hslash
      rw [mark_eq (by simp)] at ih
      obtain ⟨d, hq, hd, hn, hrest⟩ := ih (List.append_assoc _ ns [n]) rfl
      exact ⟨d, hq, hd, hn, .follow hdir hstep' hshort (by simp) (by simp) hnode
        (hrest.mark hd.isDirectoryAt _)⟩
  | enter hdir hstep' hshort _ hnode hlink hrest ih =>
    cases ns with
    | nil =>
      obtain ⟨rfl, rfl⟩ := List.cons.inj hsteps
      cases hrest
      exact ⟨_, rfl, hdir, hshort, .arrive fun _ => hdir.isDirectoryAt⟩
    | cons n' ns =>
      obtain ⟨rfl, rfl⟩ := List.cons.inj hsteps
      obtain ⟨d, hq, hd, hn, hrest⟩ := ih rfl hslash
      exact ⟨d, hq, hd, hn, .enter hdir hstep' hshort (by simp) hnode hlink hrest⟩

/-! ### Links at the end -/

/-- A walk that does not stop at a link arrives at the same place whatever is looked for. -/
theorem Leads.to_goal (h : Leads t .entry links slash here ns q) (hslash : slash = false)
    (hq : ∀ target, t.node? q ≠ some (.link target)) (goal : Goal) :
    Leads t goal links slash here ns q := by
  induction h with
  | arrive hdir => exact .arrive hdir
  | stay hdir _ ih => exact .stay hdir (ih hslash hq)
  | climb hdir _ ih => exact .climb hdir (ih hslash hq)
  | vacant hdir hstep hshort _ hnode => exact .vacant hdir hstep hshort (by simp [hslash]) hnode
  | halt _ _ _ _ hnode => exact absurd hnode (hq _)
  | @follow links slash here n ns target q hdir hstep hshort _ hgoal hnode _ ih =>
    have hns : ns ≠ [] := fun h => hgoal h rfl
    rw [mark_eq hns] at ih
    exact .follow_on hdir hstep hshort hns hnode (ih hslash hq)
  | enter hdir hstep hshort _ hnode hlink _ ih =>
    exact .enter hdir hstep hshort (by simp [hslash]) hnode hlink (ih hslash hq)

/-- A walk to what a link leads to in the end first comes to that link, unless there is none. -/
theorem Leads.to_entry (h : Leads t .content links slash here ns q) (hslash : slash = false) :
    Leads t .entry links slash here ns q ∨
      ∃ r target, Leads t .entry links slash here ns r ∧ t.node? r = some (.link target) := by
  induction h with
  | arrive hdir => exact .inl (.arrive hdir)
  | stay hdir _ ih =>
    rcases ih hslash with h | ⟨r, target, h, hr⟩
    · exact .inl (.stay hdir h)
    · exact .inr ⟨r, target, .stay hdir h, hr⟩
  | climb hdir _ ih =>
    rcases ih hslash with h | ⟨r, target, h, hr⟩
    · exact .inl (.climb hdir h)
    · exact .inr ⟨r, target, .climb hdir h, hr⟩
  | vacant hdir hstep hshort _ hnode => exact .inl (.vacant hdir hstep hshort (by simp) hnode)
  | halt _ _ _ hgoal => cases hgoal
  | @follow links slash here n ns target q hdir hstep hshort _ _ hnode _ ih =>
    by_cases hns : ns = []
    · subst hns
      exact .inr ⟨_, target, .halt hdir hstep hshort rfl hnode, hnode⟩
    · rw [mark_eq hns] at ih
      rcases ih hslash with h | ⟨r, target', h, hr⟩
      · exact .inl (.follow_on hdir hstep hshort hns hnode h)
      · exact .inr ⟨r, target', .follow_on hdir hstep hshort hns hnode h, hr⟩
  | enter hdir hstep hshort _ hnode hlink _ ih =>
    rcases ih hslash with h | ⟨r, target, h, hr⟩
    · exact .inl (.enter hdir hstep hshort (by simp) hnode hlink h)
    · exact .inr ⟨r, target, .enter hdir hstep hshort (by simp) hnode hlink h, hr⟩

/-! ### Walks in two trees -/

theorem Searchable.of_node? (h : t.Searchable here) (hu : u.node? here = t.node? here) :
    u.Searchable here := by
  obtain ⟨m, hm, hs⟩ := h
  exact ⟨m, by rw [hu, hm], hs⟩

theorem Searchable.not_isBare (h : t.Searchable here) : ¬ IsBare (t.node? here) := by
  obtain ⟨m, hm, -⟩ := h
  rw [hm]
  exact not_isBare_dir m

/-- What a walk may not notice: nodes that are the same, and places where it cannot go on in the
one tree and does not go on in the other. -/
def Unnoticed (t u : FileTree) (goal : Goal) : Prop :=
  ∀ p, u.node? p = t.node? p ∨ IsBare (t.node? p) ∧ (goal = .entry ∨ IsBare (u.node? p))

theorem Unnoticed.searchable (hk : Unnoticed t u goal) (h : t.Searchable here) :
    u.Searchable here :=
  h.of_node? ((hk here).resolve_right fun hb => h.not_isBare hb.1)

theorem Unnoticed.child (hk : Unnoticed t u goal) (hb : IsBare (t.node? q)) :
    goal = .entry ∨ ∀ target, u.node? q ≠ some (.link target) := by
  rcases hk q with h | ⟨-, h | h⟩
  · rw [← h] at hb
    exact .inr fun target e => by simp [e] at hb
  · exact .inl h
  · exact .inr fun target e => by simp [e] at h

/-- A walk that arrives somewhere does so in every tree in which it notices no difference. -/
theorem Leads.frame (h : Leads t goal links slash here ns q) (hk : Unnoticed t u goal)
    (hq : (t.node? q).isSome ∨ slash = false ∧ goal = .entry) :
    Leads u goal links slash here ns q := by
  induction h with
  | @arrive links slash here hdir =>
    refine .arrive fun hs => ?_
    have ht := hdir hs
    have hsame : u.node? here = t.node? here := by
      refine (hk here).resolve_right fun hb => ?_
      unfold isDirectoryAt at ht
      split at ht <;> simp_all
    unfold isDirectoryAt at ht ⊢
    rwa [hsame]
  | stay hdir _ ih => exact .stay (hk.searchable hdir) (ih hq)
  | climb hdir _ ih => exact .climb (hk.searchable hdir) (ih hq)
  | @vacant links slash here n hdir hstep hshort _ hnode =>
    obtain ⟨rfl, -⟩ : slash = false ∧ goal = .entry := hq.resolve_left (by simp [hnode])
    exact leads_child (hk.searchable hdir) hstep hshort (hk.child (by simp [hnode]))
  | @halt links slash here n target hdir hstep hshort hgoal hnode =>
    have hsame := (hk (here ++ [n])).resolve_right fun hb => by simp [hnode] at hb
    exact .halt (hk.searchable hdir) hstep hshort hgoal (hsame.trans hnode)
  | @follow links slash here n ns target q hdir hstep hshort hnew hgoal hnode _ ih =>
    have hsame := (hk (here ++ [n])).resolve_right fun hb => by simp [hnode] at hb
    refine .follow (hk.searchable hdir) hstep hshort hnew hgoal (hsame.trans hnode) (ih ?_)
    exact hq.imp_right fun h => ⟨(mark_eq (fun e => hgoal e h.2) _).trans h.1, h.2⟩
  | @enter links slash here n ns v q hdir hstep hshort hnew hnode hlink hrest ih =>
    rcases hk (here ++ [n]) with hsame | ⟨hb, -⟩
    · exact .enter (hk.searchable hdir) hstep hshort hnew (hsame.trans hnode) hlink (ih hq)
    · obtain ⟨rfl, rfl, rfl⟩ := hrest.of_bare hb
      exact leads_child (hk.searchable hdir) hstep hshort (hk.child hb)

/-- A walk that arrives somewhere else than at the one place where two trees differ, and which can
only end there in the tree it is made in, arrives in the other tree too. -/
theorem Leads.back {y : Place} (h : Leads u goal links slash here ns q)
    (hu : ∀ p, p ≠ y → u.node? p = t.node? p) (hy : IsBare (u.node? y)) :
    q = y ∨ Leads t goal links slash here ns q := by
  have hsame : ∀ {p}, ¬ IsBare (u.node? p) → t.node? p = u.node? p := by
    intro p hp
    refine (hu p ?_).symm
    rintro rfl
    exact hp hy
  have hdirs : ∀ {p}, u.Searchable p → t.Searchable p := fun hp => hp.of_node? (hsame hp.not_isBare)
  induction h with
  | @arrive _ _ here hslash =>
    by_cases hhere : here = y
    · exact .inl hhere
    · refine .inr (.arrive fun hs => ?_)
      have hdir := hslash hs
      unfold isDirectoryAt at hdir ⊢
      rwa [← hu here hhere]
  | stay hdir _ ih => exact ih.imp_right fun h => .stay (hdirs hdir) h
  | climb hdir _ ih => exact ih.imp_right fun h => .climb (hdirs hdir) h
  | @vacant _ _ here n hdir hstep hshort hnew hnode =>
    by_cases hplace : here ++ [n] = y
    · exact .inl hplace
    · exact .inr (.vacant (hdirs hdir) hstep hshort hnew ((hu _ hplace).symm.trans hnode))
  | halt hdir hstep hshort hgoal hnode =>
    exact .inr (.halt (hdirs hdir) hstep hshort hgoal ((hsame (by simp [hnode])).trans hnode))
  | follow hdir hstep hshort hnew hgoal hnode _ ih =>
    exact ih.imp_right fun h => .follow (hdirs hdir) hstep hshort hnew hgoal
      ((hsame (by simp [hnode])).trans hnode) h
  | @enter _ _ here n _ _ _ hdir hstep hshort hnew hnode hlink hrest ih =>
    by_cases hplace : here ++ [n] = y
    · obtain ⟨-, rfl, -⟩ := hrest.of_bare (hplace ▸ hy)
      exact .inl hplace
    · exact ih.imp_right fun h => .enter (hdirs hdir) hstep hshort hnew
        ((hu _ hplace).symm.trans hnode) hlink h

theorem Leads.made (h : Leads t .newContent links slash here ns q) (hq : t.node? q = none)
    (hu : ∀ p, p ≠ q → u.node? p = t.node? p) (hfile : IsBare (u.node? q)) :
    Leads u .content links slash here ns q := by
  have hsame : ∀ {p v}, t.node? p = some v → u.node? p = some v := by
    intro p v hp
    rw [hu p ?_, hp]
    rintro rfl
    rw [hq] at hp
    cases hp
  have hdirs : ∀ {p}, t.Searchable p → u.Searchable p := by
    rintro p ⟨m, hm, hs⟩
    exact ⟨m, hsame hm, hs⟩
  induction h with
  | arrive hslash =>
    refine .arrive fun hs => ?_
    have hdir := hslash hs
    simp [isDirectoryAt, hq] at hdir
  | stay hdir _ ih => exact .stay (hdirs hdir) (ih hq hu hfile)
  | climb hdir _ ih => exact .climb (hdirs hdir) (ih hq hu hfile)
  | @vacant _ slash _ _ hdir hstep hshort hnew =>
    obtain rfl : slash = false := by
      cases slash with
      | false => rfl
      | true => exact absurd rfl (hnew rfl)
    exact leads_child (hdirs hdir) hstep hshort (.inr fun target e => by simp [e] at hfile)
  | halt _ _ _ hgoal => cases hgoal
  | follow hdir hstep hshort _ _ hnode _ ih =>
    exact .follow (hdirs hdir) hstep hshort (by simp) (by simp) (hsame hnode) (ih hq hu hfile)
  | enter hdir hstep hshort _ hnode hlink _ ih =>
    exact .enter (hdirs hdir) hstep hshort (by simp) (hsame hnode) hlink (ih hq hu hfile)

/-! ### Paths to places -/

/-- What holds of every file system: a node stands in a directory, under a name that is no step to
the directory itself or the one above and does not hold the character that ends paths. -/
structure WellFormed (t : FileTree) : Prop where
  inDirectory : ∀ {p : Place} {n : Text} {v : Node}, t.node? (p ++ [n]) = some v →
    ∃ m, t.node? p = some (.dir m)
  isStep : ∀ {p : Place} {n : Text} {v : Node}, t.node? (p ++ [n]) = some v → IsStep n
  noNul : ∀ {p : Place} {n : Text} {v : Node}, t.node? (p ++ [n]) = some v →
    Char.ofNat 0 ∉ n

/-- A check that the nodes of a tree are those of a file system. -/
def isWellFormed (t : FileTree) : Bool :=
  t.nodes.all fun e => e.1.getLast?.all fun n =>
    t.isDirectoryAt e.1.dropLast && n != Path.here && n != Path.up && !n.contains (Char.ofNat 0)

theorem mem_nodes {p : Place} {k : Node} (h : t.node? p = some k) : (p, k) ∈ t.nodes := by
  obtain ⟨l₁, l₂, he, -⟩ := List.lookup_eq_some_iff.1 h
  rw [he]
  exact List.mem_append_right _ List.mem_cons_self

theorem wellFormed_of_check (h : t.isWellFormed = true) : t.WellFormed := by
  have hnode : ∀ {p : Place} {n : Text} {v : Node}, t.node? (p ++ [n]) = some v →
      t.isDirectoryAt p = true ∧ n ≠ Path.here ∧ n ≠ Path.up ∧ Char.ofNat 0 ∉ n := by
    intro p n v hv
    simpa [and_assoc] using List.all_eq_true.1 h _ (mem_nodes hv)
  exact ⟨fun hv => exists_dir_of_isDirectoryAt (hnode hv).1,
    fun hv => ⟨(hnode hv).2.1, (hnode hv).2.2.1⟩, fun hv => (hnode hv).2.2.2⟩

/-- The way down to a node leads through directories. -/
theorem WellFormed.above (wf : t.WellFormed) {v : Node} (hns : ns ≠ [])
    (hv : t.node? (here ++ ns) = some v) : ∃ m, t.node? here = some (.dir m) := by
  induction ns using List.reverseRecOn generalizing v with
  | nil => exact absurd rfl hns
  | append_singleton ns n ih =>
    rw [← List.append_assoc] at hv
    obtain ⟨m, hm⟩ := wf.inDirectory hv
    by_cases he : ns = []
    · subst he
      exact ⟨m, by simpa using hm⟩
    · exact ih he hm

theorem WellFormed.isDirectoryAt_dropLast (wf : t.WellFormed) (h : t.Searchable here) :
    t.isDirectoryAt here.dropLast = true := by
  rcases List.eq_nil_or_concat here with rfl | ⟨p, n, rfl⟩
  · exact h.isDirectoryAt
  · obtain ⟨m, hm, -⟩ := h
    rw [List.concat_eq_append] at hm ⊢
    obtain ⟨k, hk⟩ := wf.inDirectory hm
    simp [isDirectoryAt, hk]

theorem Leads.isStep_last (h : Leads t goal links slash here (ns ++ [n]) q) (wf : t.WellFormed)
    (hq : t.isDirectoryAt q = false) : IsStep n := by
  generalize hsteps : ns ++ [n] = steps at h
  induction h generalizing ns with
  | arrive => simp at hsteps
  | @stay links slash here ns' q hdir hrest ih =>
    cases ns with
    | nil =>
      obtain ⟨rfl, rfl⟩ := List.cons.inj hsteps
      cases hrest
      rw [hdir.isDirectoryAt] at hq
      cases hq
    | cons n' ns => exact ih hq (List.cons.inj hsteps).2
  | @climb links slash here ns' q hdir hrest ih =>
    cases ns with
    | nil =>
      obtain ⟨rfl, rfl⟩ := List.cons.inj hsteps
      cases hrest
      rw [wf.isDirectoryAt_dropLast hdir] at hq
      cases hq
    | cons n' ns => exact ih hq (List.cons.inj hsteps).2
  | vacant _ hstep | halt _ hstep =>
    cases ns with
    | nil => rwa [(List.cons.inj hsteps).1]
    | cons n' ns => simp at hsteps
  | follow _ hstep _ _ _ _ _ ih =>
    cases ns with
    | nil => rwa [(List.cons.inj hsteps).1]
    | cons n' ns =>
      obtain ⟨rfl, rfl⟩ := List.cons.inj hsteps
      exact ih hq (List.append_assoc _ ns [n])
  | enter _ hstep _ _ _ _ _ ih =>
    cases ns with
    | nil => rwa [(List.cons.inj hsteps).1]
    | cons n' ns => exact ih hq (List.cons.inj hsteps).2

theorem WellFormed.of_mem (wf : t.WellFormed) {v : Node} (hv : t.node? q = some v) (hn : n ∈ q) :
    ∃ p w, t.node? (p ++ [n]) = some w := by
  obtain ⟨p, ns, rfl⟩ := List.append_of_mem hn
  cases ns with
  | nil => exact ⟨p, v, hv⟩
  | cons n' ns =>
    have hv' : t.node? ((p ++ [n]) ++ n' :: ns) = some v := by simpa using hv
    obtain ⟨m, hm⟩ := wf.above (by simp) hv'
    exact ⟨p, _, hm⟩

/-- The walk down to a file or directory depends on the nodes on the way and on nothing else. -/
theorem Leads.frame_down (h : Leads t goal links false here ns q) (wf : t.WellFormed) {v : Node}
    (hv : t.node? (here ++ ns) = some v) (hlink : ∀ target, v ≠ .link target)
    (hu : ∀ p, p <+: here ++ ns → u.node? p = t.node? p) :
    Leads u goal links false here ns q := by
  induction ns generalizing here with
  | nil =>
    cases h
    exact .arrive (by simp)
  | cons n ns ih =>
    have hv' : t.node? ((here ++ [n]) ++ ns) = some v := by simpa using hv
    have hu' : ∀ p, p <+: (here ++ [n]) ++ ns → u.node? p = t.node? p := by simpa using hu
    obtain ⟨m, hm⟩ := wf.above (by simp) hv
    obtain ⟨c, hc, hcl⟩ : ∃ c, t.node? (here ++ [n]) = some c ∧ ∀ target, c ≠ .link target := by
      by_cases he : ns = []
      · subst he
        exact ⟨v, by simpa using hv', hlink⟩
      · obtain ⟨m', hm'⟩ := wf.above he hv'
        exact ⟨_, hm', by simp⟩
    have hstep := wf.isStep hc
    have hchild := hu' _ (List.prefix_append _ _)
    have hdir := hu here (List.prefix_append _ _)
    cases h with
    | stay => exact absurd rfl hstep.1
    | climb => exact absurd rfl hstep.2
    | vacant _ _ _ _ hnode => simp [hnode] at hc
    | halt _ _ _ _ hnode | follow _ _ _ _ _ hnode =>
      rw [hnode] at hc
      exact absurd (Option.some.inj hc).symm (hcl _)
    | enter hd _ hshort hnew hnode hl hrest =>
      exact .enter (hd.of_node? hdir) hstep hshort hnew (hchild.trans hnode) hl (ih hrest hv' hu')

/-- The path to the place of a file or directory leads there, unless it cannot be looked up. -/
theorem walk_resolved (wf : t.WellFormed) {v : Node} (hv : t.node? (here ++ ns) = some v)
    (hlink : ∀ target, v ≠ .link target) :
    t.walk goal links false here ns = .ok (here ++ ns) ∨
      t.walk goal links false here ns = .error .accessDenied ∨
      t.walk goal links false here ns = .error .nameTooLong := by
  induction ns generalizing here with
  | nil => exact .inl (by simp [walk])
  | cons n ns ih =>
    have hv' : t.node? ((here ++ [n]) ++ ns) = some v := by simpa using hv
    obtain ⟨m, hm⟩ := wf.above (by simp) hv
    have hchild : ∃ c, t.node? (here ++ [n]) = some c ∧ ∀ target, c ≠ .link target := by
      by_cases he : ns = []
      · subst he
        exact ⟨v, by simpa using hv', hlink⟩
      · obtain ⟨m', hm'⟩ := wf.above he hv'
        exact ⟨_, hm', by simp⟩
    obtain ⟨c, hc, hcl⟩ := hchild
    obtain ⟨hn, hn'⟩ : IsStep n := wf.isStep hc
    have ih' := ih hv'
    rw [List.append_assoc, List.singleton_append] at ih'
    cases hs : m.searchable with
    | false => exact .inr (.inl (by simp [walk, hm, hs]))
    | true =>
      by_cases hshort : maxNameBytes < byteCount n
      · exact .inr (.inr (by simp [walk, hm, hs, hn, hn', hshort]))
      · have henter : t.walk goal links false here (n :: ns) =
            t.walk goal links false (here ++ [n]) ns := by
          cases c with
          | link target => exact absurd rfl (hcl target)
          | _ => simp [walk, hm, hs, hn, hn', hshort, hc]
        rwa [henter]

end ShellConfig.FileTree
