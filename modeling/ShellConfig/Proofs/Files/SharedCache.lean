import ShellConfig.Proofs.Files.Restore
import ShellConfig.Proofs.Files.EditOutcome

/-!
# A cache shared by managed files

Managed files are read, written and restored in any order, the cache is emptied, and others change
the tree in between. A text is remembered for a place and a moment of change, so what is remembered
holds as long as no moment comes twice. Main statement: `read_eq_uncached`, that reading with the
cache gives what reading without it gives, after any run; it rests on `IsSound.step`, that what is
remembered stays the text of a file that was there.
-/

namespace ShellConfig

open FileTree FileOperation Operation

variable {f : RcFile} {s : Store} {t u : FileTree} {p q : Place} {key : Path} {st : Stamp}
  {c : Text} {k : Node}

/-! ### What the cache holds -/

namespace Cache

/-- A cache holds no text for a path and a moment other than those of another cache. -/
def Within (c d : Cache) : Prop := ∀ key st t, c.get? key st = some t → d.get? key st = some t

theorem within_empty (d : Cache) : Within {} d := by
  intro key st t h
  cases h

theorem within_forget (c : Cache) (p : Path) : Within (c.forget p) c := by
  intro key st t h
  by_cases hkey : key = p
  · rw [hkey, get?_forget] at h
    cases h
  · unfold get? at h ⊢
    rwa [lookup_forget, if_neg hkey] at h

theorem get?_put_eq_some {d : Cache} {p : Path} {r : Stamp} {t : Text}
    (h : (d.put p r t).get? key st = some c) :
    d.get? key st = some c ∨ key = p ∧ st = r ∧ c = t := by
  by_cases hkey : key = p
  · subst hkey
    simp only [get?, put, List.lookup_cons_self] at h
    split at h
    · exact .inr ⟨rfl, Eq.symm ‹_›, (Option.some.inj h).symm⟩
    · cases h
  · have hb : (key == p) = false := by simp [hkey]
    simp only [get?, put, List.lookup_cons, hb, lookup_forget, if_neg hkey] at h
    exact .inl h

end Cache

theorem StoreOperation.keeps_cache_onFiles {α : Type} (x : FileOperation α) :
    Keeps Store.cache (onFiles x) := by
  refine fun s => ⟨fun a v h => ?_, fun e v h => ?_⟩
  · obtain ⟨u, -, rfl⟩ := onFiles_eq_ok.1 h
    rfl
  · obtain ⟨u, -, rfl⟩ := onFiles_eq_error.1 h
    rfl

namespace RcFile

open StoreOperation

/-! ### Writing and restoring only forget -/

theorem maintains_onFiles {α : Type} (d : Cache) (x : FileOperation α) :
    Maintains (fun s : Store => s.cache.Within d) (onFiles x) :=
  (keeps_cache_onFiles x).maintains (Cache.Within · d)

theorem maintains_forget (d : Cache) (f : RcFile) (p : Path) :
    Maintains (fun s : Store => s.cache.Within d) (f.forget p) := by
  unfold forget
  split
  · refine (maintains_onFiles d _).bind fun key => maintains_modify fun s hs => ?_
    exact fun key' st t h => hs key' st t (Cache.within_forget _ _ _ _ _ h)
  · exact maintains_pure ()

theorem within_of_writeChecked (f : RcFile) (x : Except EncodingFault Text) (s : Store) :
    ((f.writeChecked x).stateAfter s).cache.Within s.cache := by
  have h : Maintains (fun s' : Store => s'.cache.Within s.cache) (f.writeChecked x) :=
    (maintains_onFiles _ _).bind fun target =>
      ((maintains_onFiles _ _).mapFailure _).thenAlways (maintains_forget _ f target)
  exact h s fun _ _ _ => id

theorem within_of_restoreBackup (f : RcFile) (s : Store) :
    (f.restoreBackup.stateAfter s).cache.Within s.cache := by
  have h : Maintains (fun s' : Store => s'.cache.Within s.cache) f.restoreBackup := by
    refine (maintains_onFiles _ _).thenAlways ?_
    split
    · exact (maintains_onFiles _ _).bind fun p => maintains_forget _ f p
    · exact maintains_pure ()
  exact h s fun _ _ _ => id

/-! ### Reading -/

/-- The text that is remembered for a node behind a path. -/
def recalled? (f : RcFile) (q : Place) (k : Node) (s : Store) : Option Text :=
  if f.cached then (stampOf k).bind (s.cache.get? (pathTo q)) else none

theorem fetch_of_find (hfind : s.files.find f.path = .ok (q, k)) (hnul : f.path.hasNul = false) :
    f.fetch k s = (match f.recalled? q k s with
      | some c => pure c
      | none => do
        let t ← onFiles (decode f.path)
        f.remember (pathTo q) (stampOf k) t
        pure t : StoreOperation Text) s := by
  have hresolve : FileOperation.resolve f.path s.files = .ok (pathTo q) s.files :=
    resolve_eq_ok.2 ⟨hnul, resolve_of_find hfind, rfl⟩
  unfold fetch
  rw [bind_of_ok (onFiles_of_ok hresolve), bind_of_ok (remembered?_eq f _ _ _)]
  rfl

theorem fetch_of_recalled (hfind : s.files.find f.path = .ok (q, k)) (hnul : f.path.hasNul = false)
    (h : f.recalled? q k s = some c) : f.fetch k s = .ok c s := by
  rw [fetch_of_find hfind hnul, h]
  rfl

theorem fetch_of_not_recalled (hfind : s.files.find f.path = .ok (q, k))
    (hnul : f.path.hasNul = false) (h : f.recalled? q k s = none) :
    f.fetch k s = (do
      let t ← onFiles (decode f.path)
      f.remember (pathTo q) (stampOf k) t
      pure t) s := by
  rw [fetch_of_find hfind hnul, h]

theorem remember_eq_ok (f : RcFile) (key : Path) (stamp : Option Stamp) (t : Text) (s : Store) :
    ∃ s', f.remember key stamp t s = .ok () s' ∧
      (s' = s ∨ ∃ m, stamp = some m ∧ s' = { s with cache := s.cache.put key m t }) := by
  unfold remember
  cases stamp with
  | none => exact ⟨s, rfl, .inl rfl⟩
  | some m =>
    cases f.cached with
    | false => exact ⟨s, rfl, .inl rfl⟩
    | true => exact ⟨_, rfl, .inr ⟨m, rfl, rfl⟩⟩

/-- What is fetched is the text on the disk, if what is remembered is. -/
theorem outcome_fetch (hfind : s.files.find f.path = .ok (q, k)) (hnul : f.path.hasNul = false)
    (h : ∀ c, f.recalled? q k s = some c → decode f.path s.files = .ok c s.files) :
    (f.fetch k).outcome s = (decode f.path).outcome s.files := by
  cases hr : f.recalled? q k s with
  | some c =>
    rw [outcome_of_ok (fetch_of_recalled hfind hnul hr), outcome_of_ok (h c hr)]
  | none =>
    have hfetch := fetch_of_not_recalled hfind hnul hr
    cases hd : decode f.path s.files with
    | ok c v =>
      obtain ⟨s', hs', -⟩ :=
        remember_eq_ok f (pathTo q) (stampOf k) c { s with files := v }
      rw [bind_of_ok (onFiles_of_ok hd), bind_of_ok hs'] at hfetch
      rw [outcome_of_ok hfetch, outcome_of_ok hd]
    | error e v =>
      rw [bind_of_error (onFiles_eq_error.2 ⟨v, hd, rfl⟩)] at hfetch
      rw [outcome_of_error hfetch, outcome_of_error hd]

/-- The file as it is read with the cache or without it. -/
def withCache (f : RcFile) (b : Bool) : RcFile := { f with cached := b }

theorem withCache_cached (f : RcFile) : f.withCache f.cached = f := rfl

/-- Reading fails whether there is a cache or not, or comes to fetching the text of what the path
leads to. -/
theorem read_cases (f : RcFile) (s : Store) :
    (∃ e, ∀ b, (f.withCache b).read s = .error e s) ∨
      ∃ q k, s.files.find f.path = .ok (q, k) ∧ f.path.hasNul = false ∧
        ∀ b, (f.withCache b).read s =
          Operation.mapFailure (readFailure f.path) ((f.withCache b).fetch k) s := by
  have hread := fun b => read_eq (f.withCache b)
  cases hquery : query f.path (·.find f.path) s.files with
  | error e v =>
    obtain ⟨rfl, -⟩ := query_eq_error.1 hquery
    refine .inl ⟨readFailure f.path e, fun b => ?_⟩
    rw [hread]
    exact mapFailure_eq_error.2 ⟨e, rfl, bind_of_error (onFiles_eq_error.2 ⟨_, hquery, rfl⟩)⟩
  | ok r v =>
    obtain ⟨hnul, hfind, rfl⟩ := query_eq_ok.1 hquery
    by_cases hsize : f.maxSize < sizeOf r.2
    · refine .inl ⟨.tooLarge f.path (sizeOf r.2) f.maxSize, fun b => ?_⟩
      rw [hread]
      refine mapFailure_eq_error.2 ⟨.tooLarge f.path (sizeOf r.2) f.maxSize, rfl, ?_⟩
      exact (bind_of_ok (onFiles_of_ok hquery)).trans (by rw [withCache, if_pos hsize]; rfl)
    · refine .inr ⟨r.1, r.2, hfind, hnul, fun b => ?_⟩
      rw [hread]
      unfold Operation.mapFailure
      rw [withCache, bind_of_ok (onFiles_of_ok hquery), if_neg hsize]

/-- Reading gives what it does without the cache, if what is remembered is on the disk. -/
theorem outcome_read (f : RcFile) (s : Store)
    (h : ∀ q k c, f.path.hasNul = false → s.files.find f.path = .ok (q, k) →
      f.recalled? q k s = some c → decode f.path s.files = .ok c s.files) :
    f.read.outcome s = (f.withCache false).read.outcome s := by
  rcases read_cases f s with ⟨e, herror⟩ | ⟨q, k, hfind, hnul, hread⟩
  · exact (outcome_of_error (herror f.cached)).trans (outcome_of_error (herror false)).symm
  · have hcached := outcome_fetch hfind hnul (h q k · hnul hfind)
    have huncached : ((f.withCache false).fetch k).outcome s = (decode f.path).outcome s.files :=
      outcome_fetch (f := f.withCache false) hfind hnul (by simp [recalled?, withCache])
    rw [← withCache_cached f] at hcached
    rw [outcome_congr (hread false), outcome_mapFailure, huncached, ← withCache_cached f,
      outcome_congr (hread f.cached), outcome_mapFailure, hcached]
    rfl

/-- A text that is remembered after reading was so before, or it is the text that was read. -/
theorem remembered_of_read (h : (f.read.stateAfter s).cache.get? key st = some c) :
    s.cache.get? key st = some c ∨ ∃ q m, key = pathTo q ∧ f.read.outcome s = .ok c ∧
      s.files.find f.path = .ok (q, .file (Text.toBytes c) m st) := by
  rcases read_cases f s with ⟨e, herror⟩ | ⟨q, k, hfind, hnul, hread⟩
  · replace herror := herror f.cached
    rw [withCache_cached] at herror
    rw [stateAfter_of_error herror] at h
    exact .inl h
  replace hread := hread f.cached
  rw [withCache_cached] at hread
  rw [stateAfter_congr hread, stateAfter_mapFailure] at h
  cases hr : f.recalled? q k s with
  | some t =>
    rw [stateAfter_of_ok (fetch_of_recalled hfind hnul hr)] at h
    exact .inl h
  | none =>
    have hfetch := fetch_of_not_recalled hfind hnul hr
    cases hd : decode f.path s.files with
    | error e v =>
      obtain rfl : v = s.files := (keeps_decode (g := id) f.path).of_error hd
      rw [bind_of_error (onFiles_eq_error.2 ⟨_, hd, rfl⟩)] at hfetch
      rw [stateAfter_of_error hfetch] at h
      exact .inl h
    | ok t v =>
      obtain ⟨rfl, -, q', m', st', hfile, -⟩ := decode_eq_ok.1 hd
      rw [hfind] at hfile
      obtain ⟨rfl, rfl⟩ := Prod.mk.inj (Except.ok.inj hfile)
      obtain ⟨s', hs', hremember⟩ := remember_eq_ok f (pathTo q) (some st') t s
      rw [bind_of_ok (onFiles_of_ok hd)] at hfetch
      rw [stateAfter_of_ok (hfetch.trans (bind_of_ok hs'))] at h
      rcases hremember with rfl | ⟨m, hm, rfl⟩
      · exact .inl h
      · obtain rfl := Option.some.inj hm
        refine (Cache.get?_put_eq_some h).imp_right ?_
        rintro ⟨rfl, rfl, rfl⟩
        have hok : f.read.outcome s = .ok c := by
          rw [outcome_congr hread, outcome_mapFailure,
            outcome_of_ok (hfetch.trans (bind_of_ok hs'))]
          rfl
        exact ⟨q, m', rfl, hok, hfind⟩

end RcFile

/-! ### Runs -/

/-- What can happen to files and to what is remembered of them. -/
inductive Action
  | read (f : RcFile)
  | write (f : RcFile) (content : Except EncodingFault Text)
  | restore (f : RcFile)
  | clear
  /-- Others leave another tree. -/
  | outside (files : FileTree)

namespace Action

/-- The state after an action. -/
def apply : Action → Store → Store
  | read f, s => f.read.stateAfter s
  | write f c, s => (f.writeChecked c).stateAfter s
  | restore f, s => f.restoreBackup.stateAfter s
  | clear, s => { s with cache := {} }
  | outside t, s => { s with files := t }

/-- The place and the moment of change of the file that an action reads. -/
def filesRead : Action → Store → List (Place × Stamp)
  | read f, s =>
    match f.read.outcome s, s.files.find f.path with
    | .ok _, .ok (q, .file _ _ st) => [(q, st)]
    | _, _ => []
  | _, _ => []

end Action

/-- What there has been so far: the trees, the present one included, and the files that were read,
each with its place and its moment of change. -/
structure Past where
  trees : List FileTree
  filesRead : List (Place × Stamp) := []

/-- A tree may come next: a file that is not as it was has a moment of change that no file at its
place had before, and a file that was read can be read for as long as it is unchanged. -/
structure Past.Admits (h : Past) (t u : FileTree) : Prop where
  fresh : ∀ p b m st, u.node? p = some (.file b m st) →
    (∃ m', t.node? p = some (.file b m' st)) ∨
      ∀ v ∈ h.trees, ∀ b' m', v.node? p ≠ some (.file b' m' st)
  readable : ∀ e ∈ h.filesRead, ∀ b m, u.node? e.1 = some (.file b m e.2) → m.readable = true

/-- The states that actions lead to, from files of which nothing is remembered, and what there has
been on the way. -/
inductive Run : Past → Store → Prop
  | start (t : FileTree) : Run ⟨[t], []⟩ ⟨t, {}⟩
  | step {h : Past} {s : Store} (hs : Run h s) (a : Action)
      (hnext : Past.Admits ⟨h.trees, a.filesRead s ++ h.filesRead⟩ s.files (a.apply s).files) :
      Run ⟨(a.apply s).files :: h.trees, a.filesRead s ++ h.filesRead⟩ (a.apply s)

/-- What holds of every state of a run: a file that has the moment of change of one that was at its
place has its bytes, and what is remembered is the text of a file that was there and was read. -/
structure IsSound (h : Past) (s : Store) : Prop where
  present : s.files ∈ h.trees
  unchanged : ∀ t ∈ h.trees, ∀ p b m b' m' st, s.files.node? p = some (.file b m st) →
    t.node? p = some (.file b' m' st) → b' = b
  readable : ∀ e ∈ h.filesRead, ∀ b m, s.files.node? e.1 = some (.file b m e.2) →
    m.readable = true
  remembered : ∀ key st c, s.cache.get? key st = some c → ∃ q, key = pathTo q ∧
    (q, st) ∈ h.filesRead ∧ ∃ t ∈ h.trees, ∃ m, t.node? q = some (.file (Text.toBytes c) m st)

namespace IsSound

variable {h : Past} {a : Action}

theorem remembered_of_apply (hc : (a.apply s).cache.get? key st = some c) :
    s.cache.get? key st = some c ∨ ∃ q m, key = pathTo q ∧ (q, st) ∈ a.filesRead s ∧
      s.files.node? q = some (.file (Text.toBytes c) m st) := by
  cases a with
  | read f =>
    rcases RcFile.remembered_of_read hc with hc | ⟨q, m, rfl, hok, hfind⟩
    · exact .inl hc
    · refine .inr ⟨q, m, rfl, ?_, (find_eq_ok_iff.1 hfind).2⟩
      simp [Action.filesRead, hok, hfind]
  | write f x => exact .inl (RcFile.within_of_writeChecked f x s key st c hc)
  | restore f => exact .inl (RcFile.within_of_restoreBackup f s key st c hc)
  | clear => exact .inl (Cache.within_empty _ key st c hc)
  | outside t => exact .inl hc

theorem start (t : FileTree) : IsSound ⟨[t], []⟩ ⟨t, {}⟩ where
  present := List.mem_singleton_self t
  unchanged := by
    intro v hv p b m b' m' st hp hp'
    obtain rfl := List.mem_singleton.1 hv
    simp_all
  readable := by simp
  remembered key st c hc := by cases hc

/-- An action keeps what is remembered sound, if the tree after it is one that may come next. -/
theorem step (hs : IsSound h s)
    (hnext : Past.Admits ⟨h.trees, a.filesRead s ++ h.filesRead⟩ s.files (a.apply s).files) :
    IsSound ⟨(a.apply s).files :: h.trees, a.filesRead s ++ h.filesRead⟩ (a.apply s) where
  present := List.mem_cons_self
  unchanged := by
    intro v hv p b m b' m' st hp hp'
    rcases List.mem_cons.1 hv with rfl | hv
    · simp_all
    · rcases hnext.fresh p b m st hp with ⟨m₀, hp₀⟩ | hnever
      · exact hs.unchanged v hv p b m₀ b' m' st hp₀ hp'
      · exact absurd hp' (hnever v hv b' m')
  readable := hnext.readable
  remembered := by
    intro key st c hc
    rcases remembered_of_apply hc with hc | ⟨q, m, hkey, hread, hq⟩
    · obtain ⟨q, hkey, hread, t, ht, hq⟩ := hs.remembered key st c hc
      exact ⟨q, hkey, List.mem_append_right _ hread, t, List.mem_cons_of_mem _ ht, hq⟩
    · exact ⟨q, hkey, List.mem_append_left _ hread, s.files, List.mem_cons_of_mem _ hs.present,
        m, hq⟩

/-- What is remembered of a file as it stands is its text, which can be read. -/
theorem decode_of_recalled (hs : IsSound h s) (hnul : f.path.hasNul = false)
    (hfind : s.files.find f.path = .ok (q, k)) (hc : f.recalled? q k s = some c) :
    RcFile.decode f.path s.files = .ok c s.files := by
  obtain ⟨-, hq⟩ := find_eq_ok_iff.1 hfind
  have hcached : f.cached = true := by
    by_contra hcached
    simp [RcFile.recalled?, hcached] at hc
  rw [RcFile.recalled?, if_pos hcached] at hc
  obtain ⟨st, hst, hc⟩ := Option.bind_eq_some_iff.1 hc
  obtain ⟨b, m, rfl⟩ : ∃ b m, k = .file b m st := by
    cases k with
    | file b m st' => exact ⟨b, m, by rw [← Option.some.inj hst]⟩
    | dir | link => cases hst
  obtain ⟨q', hkey, hread, t, ht, m', hq'⟩ := hs.remembered _ st c hc
  obtain rfl : q = q' := (Path.mk.inj hkey).2
  obtain rfl := hs.unchanged t ht q b m _ m' st hq hq'
  exact RcFile.decode_eq_ok.2 ⟨rfl, hnul, q, m, st, hfind, hs.readable _ hread _ m hq⟩

end IsSound

theorem Run.isSound {h : Past} (hs : Run h s) : IsSound h s := by
  induction hs with
  | start t => exact .start t
  | step _ a hnext ih => exact ih.step hnext

/-- **Reading with the cache** gives what reading without it gives: after any run of reading,
writing and restoring managed files, of emptying the cache and of changes by others, if a file that
changes has a moment of change that there was not before at its place, and a file that was read can
be read for as long as it is unchanged. -/
theorem Run.read_eq_uncached {h : Past} (hs : Run h s) (f : RcFile) :
    f.read.outcome s = (f.withCache false).read.outcome s :=
  f.outcome_read s fun _ _ _ hnul hfind hc => hs.isSound.decode_of_recalled hnul hfind hc

/-- A file that was read is replaced by others, and what is read then is not what is remembered. -/
theorem Run.read_eq_uncached_changed :
    let f : RcFile := { path := .ofText "/.zshrc".toList }
    let t := (RcFile.sampleStore "old".toList).files
    let u := t.put [".zshrc".toList] (.file (Text.toBytes "new".toList) .ordinary (.set 1))
    let s := (Action.outside u).apply ((Action.read f).apply ⟨t, {}⟩)
    s.cache.get? (pathTo [".zshrc".toList]) (.set 0) = some "old".toList ∧
      f.read.outcome s = (f.withCache false).read.outcome s ∧
      f.read.outcome s = .ok "new".toList := by
  intro f t u s
  have ht : t.node? [".zshrc".toList] =
      some (.file (Text.toBytes "old".toList) .ordinary (.set 0)) := by cbv
  have hread : Action.filesRead (.read f) ⟨t, {}⟩ = [([".zshrc".toList], .set 0)] := by cbv
  have hsame : ((Action.read f).apply ⟨t, {}⟩).files = t := (RcFile.keeps_read f).stateAfter _
  have hfirst := (Run.start t).step (.read f) (by
    rw [hsame, hread]
    refine ⟨fun p b m st hp => .inl ⟨m, hp⟩, fun e he b m hq => ?_⟩
    obtain rfl := List.mem_singleton.1 he
    have hm := (Node.file.inj (Option.some.inj (ht.symm.trans hq))).2.1
    exact hm ▸ by decide)
  rw [hsame, hread] at hfirst
  have hsecond := hfirst.step (.outside u) (by
    have hu : u.node? [".zshrc".toList] =
        some (.file (Text.toBytes "new".toList) .ordinary (.set 1)) := by cbv
    rw [hsame]
    refine ⟨fun p b m st hp => ?_, fun e he b m hq => ?_⟩
    · by_cases hpath : p = [".zshrc".toList]
      · subst hpath
        obtain ⟨-, -, rfl⟩ := Node.file.inj (Option.some.inj (hu.symm.trans hp))
        refine .inr fun v hv b' m' hv' => ?_
        have hvt : v = t := by simpa using hv
        rw [hvt, ht] at hv'
        exact absurd (Node.file.inj (Option.some.inj hv')).2.2 (by decide)
      · have hp' := node?_put t [".zshrc".toList] p
          (.file (Text.toBytes "new".toList) .ordinary (.set 1))
        rw [if_neg hpath] at hp'
        exact .inl ⟨m, hp'.symm.trans hp⟩
    · have he' : e = ([".zshrc".toList], .set 0) := by simpa [Action.filesRead] using he
      subst he'
      exact absurd (Node.file.inj (Option.some.inj (hu.symm.trans hq))).2.2 (by decide))
  exact ⟨by cbv, hsecond.read_eq_uncached f, by cbv⟩

end ShellConfig
