import ShellConfig.Proofs.Files.Save

/-!
# Paths when a file is put in place

Where paths lead, and what they stand for when links are followed, in a tree that holds a file where
there was nothing, a file or a link. Main statements: `IsUpdate.walk`, that no walk fails for a new
reason but that a file is no directory; `IsUpdate.resolve`, that a path that could be resolved still
can; and `IsUpdate.locate_link`, that a path which ends with a link leads to the file that takes the
place of the link.
-/

namespace ShellConfig.FileTree

variable {t u : FileTree} {g P : Path} {q r y here d z : Place} {b : ByteArray} {m : Mode}
  {st : Stamp} {k : Mode} {n target : Text} {ns : List Text} {goal : Goal} {links : Nat}
  {slash : Bool} {e : Errno}

/-! ### Walks -/

theorem isDirectoryAt_eq_false (h : IsBare (t.node? r)) : t.isDirectoryAt r = false := by
  unfold isDirectoryAt
  split
  · simp_all
  · rfl

theorem IsUpdate.isDirectoryAt {v : Option Node} (hu : IsUpdate t u r v) (hr : IsBare (t.node? r))
    (hv : IsBare v) (p : Place) : u.isDirectoryAt p = t.isDirectoryAt p := by
  by_cases hp : p = r
  · rw [hp, isDirectoryAt_eq_false hr, isDirectoryAt_eq_false (hu.node?_self ▸ hv)]
  · unfold FileTree.isDirectoryAt
    rw [hu.node?_of_ne hp]

theorem IsUpdate.node?_of_not_isBare {v : Option Node} (hu : IsUpdate t u r v)
    (hr : IsBare (t.node? r)) (hq : ¬ IsBare (t.node? q)) : u.node? q = t.node? q :=
  hu.node?_of_ne fun h => hq (h ▸ hr)

theorem IsUpdate.searchable {v : Option Node} (hu : IsUpdate t u r v) (hr : IsBare (t.node? r))
    (h : t.Searchable here) : u.Searchable here :=
  h.of_node? (hu.node?_of_not_isBare hr h.not_isBare)

theorem IsUpdate.exists_node? {k k' : Node} {p : Node → Prop} (hu : IsUpdate t u r (some k'))
    (hk : t.node? q = some k) (hp : p k) (hp' : p k') : ∃ j, u.node? q = some j ∧ p j := by
  by_cases hq : q = r
  · exact ⟨k', hq ▸ hu.node?_self, hp'⟩
  · exact ⟨k, (hu.node?_of_ne hq).trans hk, hp⟩

theorem walk_of_file (h : t.node? here = some (.file b m st)) (goal : Goal) (links : Nat)
    (slash : Bool) (ns : List Text) :
    t.walk goal links slash here ns = .error .notDirectory ∨
      ns = [] ∧ t.walk goal links slash here ns = .ok here := by
  cases ns with
  | nil =>
    rw [FileTree.walk]
    split
    · exact .inl rfl
    · exact .inr ⟨rfl, rfl⟩
  | cons n ns =>
    rw [FileTree.walk, h]
    exact .inl rfl

/-- A walk comes to the same end as without the file, unless it meets the file on its way: then it
fails because a file is no directory, where there was nothing before. -/
theorem IsUpdate.walk (hu : IsUpdate t u r (some (.file b m st))) (hr : IsBare (t.node? r))
    (goal : Goal) (links : Nat) (slash : Bool) (here : Place) (ns : List Text) :
    u.walk goal links slash here ns = t.walk goal links slash here ns ∨
      u.walk goal links slash here ns = .error .notDirectory ∧
        (t.walk goal links slash here ns = .error .noEntry ∨
          t.walk goal links slash here ns = .ok r ∧ t.node? r = none) := by
  have hdir : ∀ {p k}, t.node? p = some (.dir k) → u.node? p = some (.dir k) := fun hk =>
    (hu.node?_of_not_isBare hr (hk ▸ not_isBare_dir _)).trans hk
  have hlink : ∀ {p l}, t.node? p = some (.link l) → u.node? p = some (.link l) := fun hl =>
    (hu.node?_of_not_isBare hr (hl ▸ not_isBare_link _)).trans hl
  have hsearch : ∀ {p k}, t.node? p = some (.dir k) → ¬ (!k.searchable) = true → u.Searchable p :=
    fun hk hs => hu.searchable hr ⟨_, hk, by simpa using hs⟩
  fun_induction FileTree.walk t goal links slash here ns with
  | case1 | case2 =>
    left
    rw [FileTree.walk, hu.isDirectoryAt hr (isBare_file b m st)]
    simp_all
  | case3 links slash here n ns hhere =>
    by_cases hp : here = r
    · subst hp
      exact .inr ⟨by rw [FileTree.walk, hu.node?_self], .inl rfl⟩
    · exact .inl (by rw [FileTree.walk, hu.node?_of_ne hp, hhere])
  | case4 links slash here n ns k hhere
  | case7 links slash here n ns k hhere
  | case8 links slash here n ns k hhere =>
    left
    rw [FileTree.walk, hdir hhere]
    simp_all
  | case5 links slash here ns k hhere hs ih => rwa [walk_stay (hsearch hhere hs)]
  | case6 links slash here ns k hhere hs _ ih => rwa [walk_climb (hsearch hhere hs)]
  | case9 links slash here n ns k hhere hs hn hn' hnew hshort hnode hns =>
    rw [walk_step (hsearch hhere hs) ⟨hn, hn'⟩ (by omega) (by simpa using hnew)]
    by_cases hp : here ++ [n] = r
    · subst hp
      rw [hu.node?_self]
      rcases walk_of_file hu.node?_self goal links slash ns with hno | ⟨-, hok⟩
      · exact .inr ⟨hno, .inr ⟨rfl, hnode⟩⟩
      · exact .inl hok
    · rw [hu.node?_of_ne hp, hnode]
      exact .inl (if_pos hns)
  | case10 links slash here n ns k hhere hs hn hn' hnew hshort hnode hns =>
    rw [walk_step (hsearch hhere hs) ⟨hn, hn'⟩ (by omega) (by simpa using hnew)]
    by_cases hp : here ++ [n] = r
    · subst hp
      rw [hu.node?_self]
      rcases walk_of_file hu.node?_self goal links slash ns with hno | ⟨rfl, -⟩
      · exact .inr ⟨hno, .inl rfl⟩
      · exact absurd rfl hns
    · rw [hu.node?_of_ne hp, hnode]
      exact .inl (if_neg hns)
  | case11 links slash here n ns k hhere hs hn hn' hnew hshort target hnode hgoal =>
    rw [walk_step (hsearch hhere hs) ⟨hn, hn'⟩ (by omega) (by simpa using hnew), hlink hnode]
    exact .inl (if_pos hgoal)
  | case12 slash here n ns k hhere hs hn hn' hnew hshort target hnode hgoal =>
    rw [walk_step (hsearch hhere hs) ⟨hn, hn'⟩ (by omega) (by simpa using hnew), hlink hnode]
    exact .inl (if_neg hgoal)
  | case13 slash here n ns k hhere hs hn hn' hnew hshort target hnode hgoal links ih =>
    rw [walk_step (hsearch hhere hs) ⟨hn, hn'⟩ (by omega) (by simpa using hnew), hlink hnode]
    dsimp only
    rwa [if_neg hgoal]
  | case14 links slash here n ns k hhere hs hn hn' hnew hshort v hlink' hnode ih =>
    obtain ⟨j, hj, hnot⟩ := hu.exists_node? (p := fun j => ∀ target, j ≠ .link target) hnode
      (fun target h => hlink' target h) (by simp)
    rwa [walk_enter (hsearch hhere hs) ⟨hn, hn'⟩ (by omega) (by simpa using hnew) hj hnot]
  | case15 links slash here n ns v hdir' hnode =>
    left
    obtain ⟨j, hj, hnot⟩ := hu.exists_node? (p := fun j => ∀ k, j ≠ .dir k) hnode
      (fun k h => hdir' k h) (by simp)
    rw [FileTree.walk, hj]
    cases j with
    | dir k => exact absurd rfl (hnot k)
    | file | link => rfl

/-! ### What paths lead to -/

theorem IsUpdate.locate_cases (hu : IsUpdate t u r (some (.file b m st))) (hr : IsBare (t.node? r))
    (g : Path) (goal : Goal) :
    u.locate g goal = t.locate g goal ∨ u.locate g goal = .error .notDirectory ∧
      (t.locate g goal = .error .noEntry ∨ t.locate g goal = .ok r ∧ t.node? r = none) := by
  unfold FileTree.locate
  rw [hu.workingPlace]
  split
  · exact .inl rfl
  · exact hu.walk hr goal _ _ _ _

theorem IsUpdate.find_eq_error (hu : IsUpdate t u r (some (.file b m st)))
    (hr : IsBare (t.node? r)) (h : u.find g goal = .error e) :
    t.find g goal = .error e ∨ e = .notDirectory ∧ t.find g goal = .error .noEntry := by
  rcases hu.locate_cases hr g goal with hsame | ⟨hno, hold⟩
  · unfold find at h ⊢
    rw [hsame] at h
    cases hl : t.locate g goal with
    | error e' =>
      rw [hl] at h
      exact .inl h
    | ok q =>
      rw [hl] at h
      dsimp only at h ⊢
      have hq : q ≠ r := by
        rintro rfl
        rw [hu.node?_self] at h
        cases h
      rw [hu.node?_of_ne hq] at h
      exact .inl h
  · obtain rfl : Errno.notDirectory = e := by
      unfold find at h
      rw [hno] at h
      exact Except.error.inj h
    refine .inr ⟨rfl, ?_⟩
    unfold find
    rcases hold with hold | ⟨hold, hnone⟩
    · rw [hold]
    · rw [hold]
      dsimp only
      rw [hnone]

theorem IsUpdate.find_of_find (hu : IsUpdate t u r (some (.file b m st))) (hr : IsBare (t.node? r))
    {k : Node} (h : t.find g goal = .ok (q, k)) : ∃ k', u.find g goal = .ok (q, k') := by
  obtain ⟨hl, hq⟩ := find_eq_ok_iff.1 h
  have hl' := hu.locate hr (isBare_file b m st) hl (.inl (by rw [hq]; rfl))
  by_cases hqr : q = r
  · exact ⟨_, find_eq_ok_iff.2 ⟨hl', hqr ▸ hu.node?_self⟩⟩
  · exact ⟨k, find_eq_ok_iff.2 ⟨hl', (hu.node?_of_ne hqr).trans hq⟩⟩

/-- A path leads to the same links. -/
theorem IsUpdate.find_link_iff (hu : IsUpdate t u r (some (.file b m st)))
    (hr : IsBare (t.node? r)) {target : Text} :
    u.find g .entry = .ok (q, .link target) ↔ t.find g .entry = .ok (q, .link target) := by
  constructor
  · intro h
    obtain ⟨hl, hq⟩ := find_eq_ok_iff.1 h
    have hqr : q ≠ r := by
      rintro rfl
      rw [hu.node?_self] at hq
      cases hq
    exact find_eq_ok_iff.2
      ⟨hu.locate_back (isBare_file b m st) hl, (hu.node?_of_ne hqr).symm.trans hq⟩
  · intro h
    obtain ⟨hl, hq⟩ := find_eq_ok_iff.1 h
    have hsame := hu.node?_of_not_isBare hr (hq ▸ not_isBare_link target)
    exact find_eq_ok_iff.2
      ⟨hu.locate hr (isBare_file b m st) hl (.inr rfl), hsame.trans hq⟩

theorem linkAt?_eq_some_iff {target : Text} :
    t.linkAt? g = some target ↔ ∃ q, t.find g .entry = .ok (q, .link target) := by
  unfold linkAt?
  split <;> simp_all

theorem IsUpdate.linkAt? (hu : IsUpdate t u r (some (.file b m st))) (hr : IsBare (t.node? r))
    (g : Path) : u.linkAt? g = t.linkAt? g := by
  ext target
  simp only [linkAt?_eq_some_iff, hu.find_link_iff hr]

theorem isLink?_eq_true_iff :
    t.isLink? g = .ok true ↔ ∃ q target, t.find g .entry = .ok (q, .link target) := by
  unfold isLink?
  split
  · simp_all
  · simp_all
  · split <;> simp_all

theorem isLink?_eq_ok_false_iff :
    t.isLink? g = .ok false ↔ (∀ q target, t.find g .entry ≠ .ok (q, .link target)) ∧
      ∀ e, t.find g .entry = .error e → e.meansAbsent = true := by
  unfold isLink?
  split
  · simp_all
  · simp_all
  · split <;> simp_all

theorem IsUpdate.isLink? (hu : IsUpdate t u r (some (.file b m st))) (hr : IsBare (t.node? r))
    {x : Bool} (h : t.isLink? g = .ok x) : u.isLink? g = .ok x := by
  cases x with
  | true => simpa only [isLink?_eq_true_iff, hu.find_link_iff hr] using h
  | false =>
    rw [isLink?_eq_ok_false_iff] at h ⊢
    refine ⟨fun q target hq => h.1 q target ((hu.find_link_iff hr).1 hq), fun e he => ?_⟩
    rcases hu.find_eq_error hr he with hold | ⟨rfl, -⟩
    · exact h.2 e hold
    · rfl

/-- The links of a path are followed to the same path where the same links are seen. -/
theorem follow_congr (h : ∀ g, u.linkAt? g = t.linkAt? g) (nesting : Nat) (met : Followed)
    (here : Path) (ns : List Text) :
    u.follow nesting met here ns = t.follow nesting met here ns := by
  fun_induction FileTree.follow t nesting met here ns with
  | case1 => rw [follow]
  | case2 nesting met here n ns hn ih => rw [follow, if_pos hn, ih]
  | case3 nesting met here ns hn ih => rw [follow, if_neg hn, if_pos rfl, ih]
  | case4 nesting met here n ns hn hup hlink ih =>
    rw [follow, if_neg hn, if_neg hup, h, hlink]
    exact ih
  | case5 nesting met here n ns hn hup target hlink q hmet ih =>
    rw [follow, if_neg hn, if_neg hup, h, hlink]
    simp only [hmet, ih]
  | case6 nesting met here n ns hn hup target hlink rest stuck hmet
  | case7 met here n ns hn hup target hlink rest stuck hmet =>
    rw [follow, if_neg hn, if_neg hup, h, hlink]
    simp only [hmet]
    rfl
  | case8 met here n ns hn hup target hlink rest hmet inner origin w hw ih =>
    rw [follow, if_neg hn, if_neg hup, h, hlink]
    simp only [hmet]
    rw [hw] at ih
    rw [ih]
  | case9 met here n ns hn hup target hlink hmet inner origin q met' hq ih' ih =>
    rw [follow, if_neg hn, if_neg hup, h, hlink]
    simp only [hmet]
    rw [hq] at ih'
    rw [ih']
    exact ih

theorem unlinked_congr (h : ∀ g, u.linkAt? g = t.linkAt? g)
    (hplace : u.workingPlace = t.workingPlace) (g : Path) : u.unlinked g = t.unlinked g := by
  unfold unlinked
  rw [hplace]
  simp only [follow_congr h]

/-- A path that could be resolved still can. It stands for the same path, unless it leads to what
was put in place. -/
theorem IsUpdate.resolve (hu : IsUpdate t u r (some (.file b m st))) (hr : IsBare (t.node? r))
    {T : Path} (h : t.resolve g = .ok T) :
    u.resolve g = .ok T ∨ u.resolve g = .ok (pathTo r) := by
  have hunlinked := unlinked_congr (hu.linkAt? hr) hu.workingPlace g
  unfold FileTree.resolve at h ⊢
  rw [hunlinked]
  cases hold : t.find g with
  | ok x =>
    obtain ⟨q, k⟩ := x
    obtain ⟨k', hnew⟩ := hu.find_of_find hr hold
    rw [hold] at h
    rw [hnew]
    exact .inl h
  | error e =>
    rw [hold] at h
    dsimp only at h
    cases hnew : u.find g with
    | ok x =>
      -- what leads somewhere now and did not before leads to what was put in place
      obtain ⟨q, k⟩ := x
      obtain ⟨hl, hq⟩ := find_eq_ok_iff.1 hnew
      have hqr : q = r := by
        by_contra hqr
        rcases hu.locate_cases hr g .content with hsame | ⟨hno, -⟩
        · have hfind : t.find g = .ok (q, k) :=
            find_eq_ok_iff.2 ⟨hsame ▸ hl, (hu.node?_of_ne hqr).symm.trans hq⟩
          rw [hold] at hfind
          cases hfind
        · rw [hno] at hl
          cases hl
      exact .inr (by rw [hqr])
    | error e' =>
      left
      dsimp only
      split
      · rename_i hloop
        rcases hu.find_eq_error hr hloop with hloop' | ⟨hno, -⟩
        · rw [hloop'] at h
          cases h
        · cases hno
      · split at h
        · cases h
        · exact h

/-! ### A link on the way to itself -/

theorem walk_follow (h : t.Searchable here) (hstep : IsStep n)
    (hshort : byteCount n ≤ maxNameBytes) (hnode : t.node? (here ++ [n]) = some (.link target)) :
    t.walk .content links slash here (n :: ns) =
      match links with
      | 0 => .error .tooManyLinks
      | links + 1 =>
        t.walk .content links (slash || ns.isEmpty && Path.endsInSlash target)
          (start here (Path.anchorOf target)) (Path.stepsOf target ++ ns) := by
  rw [walk_step h hstep hshort (by simp), hnode]
  exact if_neg (by simp)

/-- A walk to a directory is the first part of every walk that goes on from there. -/
theorem Leads.walk_append (h : Leads t .content links slash here ns d) (hd : t.Searchable d)
    {steps : List Text} (hsteps : steps ≠ []) :
    ∃ rest, ∀ mark, t.walk .content links mark here (ns ++ steps) =
      t.walk .content rest mark d steps := by
  induction h with
  | arrive => exact ⟨_, fun mark => rfl⟩
  | stay hdir _ ih =>
    obtain ⟨rest, hwalk⟩ := ih hd
    exact ⟨rest, fun mark => (walk_stay hdir _).trans (hwalk mark)⟩
  | climb hdir _ ih =>
    obtain ⟨rest, hwalk⟩ := ih hd
    exact ⟨rest, fun mark => (walk_climb hdir _).trans (hwalk mark)⟩
  | vacant _ _ _ _ hnode =>
    obtain ⟨k, hk, -⟩ := hd
    rw [hnode] at hk
    cases hk
  | halt _ _ _ hgoal => cases hgoal
  | @follow links slash here n ns target q hdir hstep hshort _ _ hnode _ ih =>
    obtain ⟨rest, hwalk⟩ := ih hd
    refine ⟨rest, fun mark => ?_⟩
    rw [List.cons_append, walk_follow hdir hstep hshort hnode]
    dsimp only
    rw [mark_eq (by simp [hsteps]), ← List.append_assoc, hwalk]
  | enter hdir hstep hshort _ hnode hlink _ ih =>
    obtain ⟨rest, hwalk⟩ := ih hd
    exact ⟨rest, fun mark =>
      (walk_enter hdir hstep hshort (by simp) hnode hlink).trans (hwalk mark)⟩

/-- With another number of links to follow, a walk to a directory arrives there or ends for want of
links. -/
theorem Leads.walk_links (h : Leads t .content links slash here ns d)
    (hd : t.isDirectoryAt d = true) (rest : Nat) (mark : Bool) :
    t.walk .content rest mark here ns = .ok d ∨
      t.walk .content rest mark here ns = .error .tooManyLinks := by
  induction h generalizing rest mark with
  | arrive => exact .inl (by simp [FileTree.walk, hd])
  | stay hdir _ ih =>
    rw [walk_stay hdir]
    exact ih hd rest mark
  | climb hdir _ ih =>
    rw [walk_climb hdir]
    exact ih hd rest mark
  | vacant _ _ _ _ hnode => simp [isDirectoryAt, hnode] at hd
  | halt _ _ _ hgoal => cases hgoal
  | follow hdir hstep hshort _ _ hnode _ ih =>
    rw [walk_follow hdir hstep hshort hnode]
    cases rest with
    | zero => exact .inr rfl
    | succ rest => exact ih hd rest _
  | enter hdir hstep hshort _ hnode hlink _ ih =>
    rw [walk_enter hdir hstep hshort (by simp) hnode hlink]
    exact ih hd rest mark

theorem Leads.split {more : List Text} (h : Leads t .content links slash here (ns ++ more) d)
    (hd : t.isDirectoryAt d = true) :
    ∃ z, Leads t .content links false here ns z ∧ t.isDirectoryAt z = true := by
  generalize hsteps : ns ++ more = steps at h
  have hnone : ∀ {p : Place} {links}, t.Searchable p →
      ∃ z, Leads t .content links false p [] z ∧ t.isDirectoryAt z = true :=
    fun {p _} hp => ⟨p, .arrive (by simp), hp.isDirectoryAt⟩
  induction h generalizing ns with
  | @arrive links slash here =>
    obtain ⟨rfl, rfl⟩ := List.append_eq_nil_iff.1 hsteps
    exact ⟨here, .arrive (by simp), hd⟩
  | stay hdir _ ih =>
    cases ns with
    | nil => exact hnone hdir
    | cons n ns =>
      obtain ⟨rfl, rfl⟩ := List.cons.inj hsteps
      obtain ⟨z, hz, hzd⟩ := ih hd rfl
      exact ⟨z, .stay hdir hz, hzd⟩
  | climb hdir _ ih =>
    cases ns with
    | nil => exact hnone hdir
    | cons n ns =>
      obtain ⟨rfl, rfl⟩ := List.cons.inj hsteps
      obtain ⟨z, hz, hzd⟩ := ih hd rfl
      exact ⟨z, .climb hdir hz, hzd⟩
  | vacant _ _ _ _ hnode => simp [isDirectoryAt, hnode] at hd
  | halt _ _ _ hgoal => cases hgoal
  | follow hdir hstep hshort _ _ hnode _ ih =>
    cases ns with
    | nil => exact hnone hdir
    | cons n ns =>
      obtain ⟨rfl, rfl⟩ := List.cons.inj hsteps
      obtain ⟨z, hz, hzd⟩ := ih hd (List.append_assoc _ ns more)
      exact ⟨z, .follow hdir hstep hshort (by simp) (by simp) hnode (hz.mark hzd _), hzd⟩
  | enter hdir hstep hshort _ hnode hlink _ ih =>
    cases ns with
    | nil => exact hnone hdir
    | cons n ns =>
      obtain ⟨rfl, rfl⟩ := List.cons.inj hsteps
      obtain ⟨z, hz, hzd⟩ := ih hd rfl
      exact ⟨z, .enter hdir hstep hshort (by simp) hnode hlink hz, hzd⟩

/-- A walk to a directory does not notice that a file takes the place of a link, unless it follows
that link. Then the link leads to a directory. -/
theorem Leads.past (h : Leads t .content links slash here ns d) (hd : t.Searchable d)
    (hy : t.node? y = some (.link target)) (hu : ∀ p, p ≠ y → u.node? p = t.node? p) :
    Leads u .content links slash here ns d ∨
      ∃ links' z, Leads t .content links' false (start y.dropLast (Path.anchorOf target))
        (Path.stepsOf target) z ∧ t.isDirectoryAt z = true := by
  have hdir : ∀ {p}, t.Searchable p → u.Searchable p := by
    rintro p ⟨k, hk, hs⟩
    refine ⟨k, (hu p ?_).trans hk, hs⟩
    rintro rfl
    rw [hy] at hk
    cases hk
  induction h with
  | arrive => exact .inl (.arrive fun _ => (hdir hd).isDirectoryAt)
  | stay hdir' _ ih => exact (ih hd).imp_left (.stay (hdir hdir'))
  | climb hdir' _ ih => exact (ih hd).imp_left (.climb (hdir hdir'))
  | vacant _ _ _ _ hnode =>
    obtain ⟨k, hk, -⟩ := hd
    rw [hnode] at hk
    cases hk
  | halt _ _ _ hgoal => cases hgoal
  | @follow links slash here n ns target' q hdir' hstep hshort hnew hgoal hnode hrest ih =>
    by_cases hp : here ++ [n] = y
    · subst hp
      right
      rw [hnode] at hy
      obtain rfl : target' = target := by simpa using hy
      obtain ⟨z, hz, hzd⟩ := hrest.split hd.isDirectoryAt
      rw [List.dropLast_concat]
      exact ⟨_, z, hz, hzd⟩
    · exact (ih hd).imp_left (.follow (hdir hdir') hstep hshort hnew hgoal ((hu _ hp).trans hnode))
  | @enter links slash here n ns v q hdir' hstep hshort hnew hnode hlink _ ih =>
    have hp : here ++ [n] ≠ y := by
      rintro rfl
      rw [hnode] at hy
      exact hlink target (Option.some.inj hy)
    exact (ih hd).imp_left (.enter (hdir hdir') hstep hshort hnew ((hu _ hp).trans hnode) hlink)

/-- If a file takes the place of the link that a path ends with, the path leads to the file. If it
led through the link before, the link would lead to a directory. -/
theorem IsUpdate.locate_link
    (hu : IsUpdate t u (d ++ [n]) (some (.file b m st))) (hstep : IsStep n)
    (hP : t.locate (P.child n) .entry = .ok (d ++ [n]))
    (hy : t.node? (d ++ [n]) = some (.link target))
    (hfind : (∃ q b m st, t.find (P.child n) = .ok (q, .file b m st)) ∨
      t.find (P.child n) = .error .noEntry) :
    u.locate (P.child n) .entry = .ok (d ++ [n]) := by
  obtain ⟨hlen, hshort, d', hloc, hd, hd'⟩ := (locate_child_iff hstep).1 hP
  obtain rfl : d = d' := (List.append_inj' hd' rfl).1
  have hdu : u.Searchable d := hd.of_node? (hu.node?_of_ne (by simp))
  refine (locate_child_iff hstep).2 ⟨hlen, hshort, d, ?_, hdu, rfl⟩
  obtain ⟨hlenP, hleads⟩ := locate_eq_ok_iff.1 hloc
  rcases hleads.past hd hy fun p hp => hu.node?_of_ne hp with h | ⟨links, z, hz, hzd⟩
  · exact locate_eq_ok_iff.2 ⟨hlenP, by rwa [hu.workingPlace]⟩
  · exfalso
    -- the last step follows the link again, and comes to the directory or to no end
    have hwalk : t.locate (P.child n) = .ok z ∨ t.locate (P.child n) = .error .tooManyLinks := by
      obtain ⟨rest, hrest⟩ := hleads.walk_append hd (List.cons_ne_nil n [])
      unfold FileTree.locate
      rw [if_neg (Nat.not_lt.2 hlen), Path.names_child, Path.anchor_child, hrest,
        walk_follow hd hstep hshort hy]
      cases rest with
      | zero => exact .inr rfl
      | succ rest =>
        rw [List.dropLast_concat] at hz
        simpa using hz.walk_links hzd rest _
    rcases hwalk with hwalk | hwalk
    · obtain ⟨k, hk⟩ := exists_dir_of_isDirectoryAt hzd
      have hdir : t.find (P.child n) = .ok (z, .dir k) := find_eq_ok_iff.2 ⟨hwalk, hk⟩
      rw [hdir] at hfind
      simp at hfind
    · have hloop : t.find (P.child n) = .error .tooManyLinks := by
        unfold find
        rw [hwalk]
      rw [hloop] at hfind
      simp at hfind

end ShellConfig.FileTree
