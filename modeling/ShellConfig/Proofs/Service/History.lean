import ShellConfig.Proofs.Files.Faithful
import ShellConfig.Proofs.Service.Told

/-!
# Histories

A service answers requests, and in between others change the files. Main statements:
`recalls_respond`, that a request remembers nothing but texts of files as it found them or as it
leaves them; and `History.isTruthful`, that what is remembered after any history is the text of a
file that was there, so that it is out of date only if a moment of change comes twice.
-/

namespace ShellConfig

open Operation FileOperation FileTree

namespace FileTree

variable {t u : FileTree} {q : Place} {b : ByteArray} {m : Mode} {st : Stamp}

theorem file?_eq_some : t.file? q = some (b, m, st) ↔ t.node? q = some (.file b m st) := by
  unfold file?
  split <;> simp_all

theorem hasText_congr (h : t.file? = u.file?) : t.HasText = u.HasText := by
  funext key st c
  unfold HasText
  simp only [← file?_eq_some, h]

/-- Each file of the second tree is as in the first, but for its mode, or it has a moment of change
that no file had at its place in any of some trees. -/
def Fresh (ts : List FileTree) (t u : FileTree) : Prop :=
  ∀ q b m st, u.file? q = some (b, m, st) →
    (∃ m', t.file? q = some (b, m', st)) ∨
      ∀ w ∈ ts, ∀ b' m', w.file? q ≠ some (b', m', st)

theorem fresh_of_nodes {ts : List FileTree}
    (h : ∀ q b m st, (q, .file b m st) ∈ u.nodes →
      t.file? q = some (b, m, st) ∨ ∀ w ∈ ts, ∀ x ∈ w.nodes, RcFile.stampOf x.2 ≠ some st) :
    Fresh ts t u := by
  intro q b m st hq
  refine (h q b m st (mem_nodes (file?_eq_some.1 hq))).imp (fun hsame => ⟨m, hsame⟩) ?_
  intro hnever w hw b' m' hq'
  exact hnever w hw _ (mem_nodes (file?_eq_some.1 hq')) rfl

end FileTree

namespace Service

variable {α : Type} {env : Environment} {s : Settings} {f : RcFile} {v v' : Service}
  {ts : List FileTree}

/-! ### What requests remember -/

theorem recalls_onStore {x : StoreOperation α} (hx : Recalls id x) :
    Recalls Service.store (onStore x) :=
  hx.within fun _ _ => rfl

theorem keeps_cache_onFiles (x : FileOperation α) :
    Keeps (fun v => v.store.cache) (onFiles x) :=
  (StoreOperation.keeps_cache_onFiles x).within (fun _ => rfl) fun _ _ => rfl

/-- What requests can tell of the files and of what is remembered. -/
def seen (v : Service) : Cache × (Place → Option (ByteArray × Mode × Stamp)) :=
  (v.store.cache, v.heldFiles)

theorem recalls_of_seen {x : ServiceOperation α} (hx : Keeps seen x) : Recalls Service.store x :=
  recalls_of_keeps (hx.comp Prod.fst)

theorem keeps_texts {x : ServiceOperation α} (hx : Keeps heldFiles x) :
    Keeps (fun v => v.store.files.HasText) x :=
  fun _ => ⟨fun _ _ h => hasText_congr (hx.of_ok h), fun _ _ h => hasText_congr (hx.of_error h)⟩

theorem keeps_seen {x : ServiceOperation α} (hcache : Keeps (fun v => v.store.cache) x)
    (hfiles : Keeps heldFiles x) : Keeps seen x :=
  fun _ => ⟨fun _ _ h => Prod.ext (hcache.of_ok h) (hfiles.of_ok h),
    fun _ _ h => Prod.ext (hcache.of_error h) (hfiles.of_error h)⟩

theorem recalls_read_bind {x : StoreOperation α} {k : α → ServiceOperation Response}
    (hx : Recalls id x) (hsame : Keeps Store.files x) (hk : ∀ a, Recalls Service.store (k a)) :
    Recalls Service.store (onStore x >>= k) :=
  (recalls_onStore hx).bind hk <| .inl <|
    (hsame.comp HasText).within (fun _ => rfl) fun _ _ => rfl

theorem recalls_bind_told {x : StoreOperation α} {k : α → ServiceOperation Response}
    (hx : Recalls id x) (hk : ∀ a, Keeps seen (k a)) : Recalls Service.store (onStore x >>= k) :=
  (recalls_onStore hx).bind (fun a => recalls_of_seen (hk a)) <| .inr fun a =>
    keeps_texts ((hk a).comp Prod.snd)

theorem keeps_seen_onFiles {x : FileOperation α} (hx : Keeps FileTree.file? x) :
    Keeps seen (onFiles x) :=
  keeps_seen (keeps_cache_onFiles x) (keeps_onFiles hx)

theorem keeps_seen_textOf (w : Wording) : Keeps seen (textOf w) := keeps_ofExcept _

theorem keeps_seen_backupInfo (env : Environment) (f : RcFile) : Keeps seen (backupInfo env f) :=
  (keeps_seen_onFiles ((RcFile.keeps_slot f).bind fun slot => BackupSlot.keeps_info slot)).bind
    fun _ => keeps_pure _

theorem keeps_seen_changed (env : Environment) (s : Settings) (f : RcFile)
    (before after message : Text) (details : List (String × Json)) :
    Keeps seen (changed env s f before after message details) :=
  (keeps_seen_backupInfo env f).bind fun _ => keeps_pure _

/-! ### The file -/

theorem recalls_replaceContent (content : Wording) :
    Recalls Service.store (replaceContent env s f content) := by
  refine recalls_read_bind (RcFile.recalls_readOrEmpty f) (RcFile.keeps_readOrEmpty f) fun t => ?_
  refine recalls_bind_told (RcFile.recalls_writeChecked f _) fun _ => ?_
  exact (keeps_seen_textOf content).bind fun _ =>
    (keeps_seen_backupInfo env f).bind fun _ => keeps_pure _

theorem recalls_edited (edit : Text → Except EditError EditResult)
    (details : EditResult → List (String × Json)) :
    Recalls Service.store (edited env s f edit details) := by
  refine recalls_read_bind (RcFile.recalls_read f) (RcFile.keeps_read f) fun t => ?_
  exact recalls_bind_told (RcFile.recalls_edit f edit) fun _ => keeps_seen_changed _ _ _ _ _ _ _

theorem recalls_add (e : Text → Except EditError InsertResult) :
    Recalls Service.store (addAliases.add env s f e) := by
  refine recalls_read_bind (RcFile.recalls_readOrEmpty f) (RcFile.keeps_readOrEmpty f) fun t => ?_
  exact recalls_bind_told (RcFile.recalls_insert f e) fun _ => keeps_seen_changed _ _ _ _ _ _ _

theorem recalls_refuse (as : List AliasRequest) (fault : EncodingFault) :
    Recalls Service.store (addAliases.refuse f as fault) := by
  refine recalls_read_bind (RcFile.recalls_readOrEmpty f) (RcFile.keeps_readOrEmpty f) fun t => ?_
  cases as.find? fun a => !a.isNamed with
  | some a => exact recalls_pure _
  | none => exact recalls_bind_told (RcFile.recalls_writeChecked f _) fun _ => keeps_throw _

theorem recalls_addAliases (new : NewAliases) :
    Recalls Service.store (addAliases env s f new) := by
  obtain ⟨name?, as, attribution⟩ := new
  cases name? with
  | some name =>
    unfold addAliases
    dsimp only
    cases addAliases.insertion s ⟨some name, as, attribution⟩ name as with
    | error fault => exact recalls_refuse as fault
    | ok e => exact recalls_add e
  | none =>
    rcases as with - | ⟨a, - | ⟨b, as⟩⟩
    · exact recalls_pure _
    · unfold addAliases
      dsimp only
      cases a.definition with
      | error fault => exact recalls_refuse [a] fault
      | ok a => exact recalls_add _
    · exact recalls_pure _

theorem recalls_tell {x : StoreOperation Text} {k : Text → ServiceOperation Response}
    (hx : x = f.read ∨ x = f.readOrEmpty) (hk : ∀ t, Keeps seen (k t)) :
    Recalls Service.store (onStore x >>= k) := by
  rcases hx with rfl | rfl
  · exact recalls_bind_told (RcFile.recalls_read f) hk
  · exact recalls_bind_told (RcFile.recalls_readOrEmpty f) hk

/-! ### The backup and the settings -/

theorem recalls_backupDiff : Recalls Service.store (backupDiff env s f) := by
  have hslot : Keeps seen (onFiles f.slot) := keeps_seen_onFiles (RcFile.keeps_slot f)
  refine (recalls_of_seen hslot).bind (fun slot => ?_) (.inl (keeps_texts (hslot.comp Prod.snd)))
  have hread : Keeps seen (onFiles slot.read) := keeps_seen_onFiles (BackupSlot.keeps_read slot)
  refine (recalls_of_seen hread).bind (fun old? => ?_) (.inl (keeps_texts (hread.comp Prod.snd)))
  cases old? with
  | none => exact recalls_throw _
  | some old =>
    refine recalls_tell (.inr rfl) fun t => ?_
    exact (keeps_seen_onFiles (BackupSlot.keeps_info slot)).bind fun _ => keeps_pure _

theorem recalls_restore : Recalls Service.store (restore f) := by
  refine ((recalls_onStore (RcFile.recalls_restoreBackup f)).attempt).bind (fun r => ?_)
    (.inr fun r => ?_)
  · split
    · exact recalls_pure _
    · exact recalls_pure _
    · exact recalls_throw _
  · split
    · exact keeps_pure _
    · exact keeps_pure _
    · exact keeps_throw _

theorem keeps_cache_deleteBackup : Keeps (fun v => v.store.cache) (deleteBackup f) :=
  (keeps_cache_onFiles _).bind fun _ => (keeps_cache_onFiles _).bind fun _ => keeps_pure _

theorem keeps_cache_keep (s : SettingsStore) : Keeps (fun v => v.store.cache) (keep s) :=
  keeps_modify fun _ => rfl

theorem keeps_cache_settingsStore (env : Environment) :
    Keeps (fun v => v.store.cache) (settingsStore env) := by
  refine keeps_get.bind fun v => ?_
  split
  · exact keeps_pure _
  · exact (keeps_cache_onFiles _).bind fun s => (keeps_cache_keep s).bind fun _ => keeps_pure s

theorem keeps_cache_currentSettings (env : Environment) :
    Keeps (fun v => v.store.cache) (currentSettings env) :=
  (keeps_cache_settingsStore env).bind fun _ => (keeps_cache_onFiles _).bind fun s =>
    (keeps_cache_keep s).bind fun _ => keeps_pure _

theorem keeps_cache_save (env : Environment) (ms : List (Text × Json)) :
    Keeps (fun v => v.store.cache) (save env ms) := by
  refine (keeps_cache_settingsStore env).bind fun s => ?_
  split
  · exact keeps_throw _
  · exact (keeps_cache_keep _).bind fun _ => keeps_cache_onFiles _

theorem keeps_cache_settingsAnswer (env : Environment) :
    Keeps (fun v => v.store.cache) (settingsAnswer env) :=
  (keeps_cache_currentSettings env).bind fun s => (keeps_target env s).bind fun _ => keeps_pure _

theorem keeps_cache_updateSettings (env : Environment) (ms : List (Text × Json)) :
    Keeps (fun v => v.store.cache) (updateSettings env ms) := by
  refine (keeps_cache_currentSettings env).bind fun _ => (keeps_cache_save env ms).attempt.bind
    fun r => ?_
  split
  · exact keeps_pure _
  · exact keeps_pure _
  · exact keeps_pure _
  · exact keeps_throw _

/-! ### All requests -/

theorem recalls_accept {x : Checked α} {k : α → ServiceOperation Response}
    (hk : ∀ a, Recalls Service.store (k a)) : Recalls Service.store (accept x k) := by
  cases x with
  | ok a => exact hk a
  | bad issues => exact recalls_pure _

theorem recalls_withBody {r : Request} {k : Option Json → ServiceOperation Response}
    (hk : ∀ b, Recalls Service.store (k b)) : Recalls Service.store (withBody env r k) := by
  unfold withBody
  cases bodyValue env r with
  | ok b => exact hk b
  | error a => exact recalls_pure a

theorem keeps_seen_managed (env : Environment) : Keeps seen (managed env) :=
  keeps_seen ((keeps_cache_currentSettings env).bind fun s =>
    Keeps.bind ((keeps_target env s).bind fun _ => keeps_pure _) fun _ => keeps_pure _)
    (keeps_managed env)

theorem recalls_withFile {k : Settings → RcFile → ServiceOperation Response}
    (hk : ∀ s f, Recalls Service.store (k s f)) : Recalls Service.store (withFile env k) := by
  rw [withFile_eq]
  exact (recalls_of_seen (keeps_seen_managed env)).bind (fun x => hk x.1 x.2)
    (.inl (keeps_texts (keeps_managed env)))

/-- A request remembers nothing but texts of files as it found them or as it leaves them. -/
theorem recalls_respond (env : Environment) (r : Request) :
    Recalls Service.store (respond env r) := by
  unfold respond
  split
  · exact recalls_pure _
  · next route name _ =>
    cases route with
    | health => exact recalls_pure _
    | description => exact recalls_pure _
    | settings => exact recalls_of_keeps (keeps_cache_settingsAnswer env)
    | updateSettings =>
      exact recalls_withBody fun _ => recalls_accept fun ms =>
        recalls_of_keeps (keeps_cache_updateSettings env ms)
    | sections => exact recalls_withFile fun _ _ => recalls_tell (.inl rfl) fun _ => keeps_pure _
    | entries | duplicates | format =>
      exact recalls_withFile fun _ _ => recalls_accept fun _ =>
        recalls_tell (.inl rfl) fun _ => keeps_pure _
    | preview =>
      exact recalls_withBody fun _ => recalls_withFile fun _ _ => recalls_accept fun content =>
        recalls_tell (.inr rfl) fun _ => (keeps_seen_textOf content).bind fun _ => keeps_pure _
    | content =>
      exact recalls_withBody fun _ => recalls_withFile fun _ _ => recalls_accept fun content =>
        recalls_replaceContent content
    | aliases =>
      exact recalls_withBody fun _ => recalls_withFile fun _ _ => recalls_accept fun new =>
        recalls_addAliases new
    | toggle | remove =>
      rw [run_eq_edited r name (by simp)]
      exact recalls_withFile fun _ _ => recalls_accept fun edit => recalls_edited edit _
    | backup =>
      exact recalls_withFile fun _ f => recalls_of_seen <|
        (keeps_seen_backupInfo env f).bind fun _ => keeps_pure _
    | backupDiff => exact recalls_withFile fun _ _ => recalls_backupDiff
    | restore => exact recalls_withFile fun _ _ => recalls_restore
    | deleteBackup =>
      exact recalls_withFile fun _ _ => recalls_of_keeps keeps_cache_deleteBackup

/-! ### Histories -/

/-- The services that requests and changes by others lead to, from one that remembers nothing, with
the trees that there have been. A file that changes gets a moment of change that there never was at
its place. Others may change the files and the settings, and not what is remembered. -/
inductive History (env : Environment) : List FileTree → Service → Prop
  | start (v : Service) (hcache : v.store.cache = {}) : History env [v.store.files] v
  | request {ts : List FileTree} {v : Service} (hv : History env ts v) (r : Request)
      (hfresh : Fresh ts v.store.files (answer env r v).2.store.files) :
      History env ((answer env r v).2.store.files :: ts) (answer env r v).2
  | outside {ts : List FileTree} {v : Service} (hv : History env ts v) (v' : Service)
      (hcache : v'.store.cache = v.store.cache) (hfresh : Fresh ts v.store.files v'.store.files) :
      History env (v'.store.files :: ts) v'

/-- What holds of every service of a history: its files are those of one of the trees, a file that
has the moment of change of one that was at its place has its bytes, and what is remembered is the
text of a file that was there. -/
structure IsTruthful (ts : List FileTree) (v : Service) : Prop where
  present : ∃ t ∈ ts, t.file? = v.heldFiles
  unchanged : ∀ t ∈ ts, ∀ q b m b' m' st, v.heldFiles q = some (b, m, st) →
    t.file? q = some (b', m', st) → b' = b
  remembered : ∀ key st c, v.store.cache.get? key st = some c → ∃ t ∈ ts, t.HasText key st c

namespace IsTruthful

theorem start (hcache : v.store.cache = {}) : IsTruthful [v.store.files] v where
  present := ⟨_, List.mem_singleton_self _, rfl⟩
  unchanged := by
    intro t ht q b m b' m' st hq hq'
    obtain rfl := List.mem_singleton.1 ht
    unfold heldFiles at hq
    simp_all
  remembered := by
    intro key st c hc
    rw [hcache] at hc
    cases hc

theorem exists_hasText (hv : IsTruthful ts v) {key : Path} {st : Stamp} {c : Text}
    (hc : v.store.files.HasText key st c) : ∃ t ∈ ts, t.HasText key st c := by
  obtain ⟨t, ht, hsame⟩ := hv.present
  exact ⟨t, ht, hasText_congr hsame ▸ hc⟩

/-- What is remembered stays true when nothing is but texts of files, if each file that changes gets
a new moment of change. -/
theorem step (hv : IsTruthful ts v) (hrecalled : v.store.RecalledFrom v'.store)
    (hfresh : Fresh ts v.store.files v'.store.files) :
    IsTruthful (v'.store.files :: ts) v' where
  present := ⟨_, List.mem_cons_self, rfl⟩
  unchanged := by
    intro t ht q b m b' m' st hq hq'
    rcases List.mem_cons.1 ht with rfl | ht
    · unfold heldFiles at hq
      simp_all
    · rcases hfresh q b m st hq with ⟨m₀, hq₀⟩ | hnever
      · exact hv.unchanged t ht q b m₀ b' m' st hq₀ hq'
      · exact absurd hq' (hnever t ht b' m')
  remembered := by
    intro key st c hc
    rcases hrecalled key st c hc with hc | hc | hc
    · obtain ⟨t, ht, hc⟩ := hv.remembered key st c hc
      exact ⟨t, List.mem_cons_of_mem _ ht, hc⟩
    · obtain ⟨t, ht, hc⟩ := hv.exists_hasText hc
      exact ⟨t, List.mem_cons_of_mem _ ht, hc⟩
    · exact ⟨_, List.mem_cons_self, hc⟩

theorem of_same (hv : IsTruthful ts v) (hrecalled : v.store.RecalledFrom v'.store)
    (hfiles : v'.heldFiles = v.heldFiles) : IsTruthful ts v' where
  present := hfiles ▸ hv.present
  unchanged := hfiles ▸ hv.unchanged
  remembered := by
    intro key st c hc
    rcases hrecalled key st c hc with hc | hc | hc
    · exact hv.remembered key st c hc
    · exact hv.exists_hasText hc
    · have hsame : v'.store.files.HasText = v.store.files.HasText := hasText_congr hfiles
      exact hv.exists_hasText (hsame ▸ hc)

/-- What is remembered of a file as it stands is its text. -/
theorem isFaithful (hv : IsTruthful ts v) : v.store.IsFaithful := by
  intro q b m st c hq hc
  obtain ⟨t, ht, q', m', hkey, hq'⟩ := hv.remembered _ st c hc
  obtain rfl : q = q' := (Path.mk.inj hkey).2
  exact (hv.unchanged t ht q b m _ m' st (file?_eq_some.2 hq) (file?_eq_some.2 hq')).symm

end IsTruthful

theorem answer_store (env : Environment) (r : Request) (v : Service) :
    (answer env r v).2 = (respond env r).stateAfter v := by
  unfold answer stateAfter
  cases respond env r v <;> rfl

/-- What is remembered after a history is true. -/
theorem History.isTruthful (hv : History env ts v) : IsTruthful ts v := by
  induction hv with
  | start v hcache => exact .start hcache
  | @request ts v _ r hfresh ih =>
    refine ih.step ?_ hfresh
    rw [answer_store]
    exact recalls_respond env r v
  | outside _ v' hcache hfresh ih =>
    refine ih.step (.of_within ?_) hfresh
    rw [hcache]
    exact fun _ _ _ => id

end Service
end ShellConfig
