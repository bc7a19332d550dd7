import ShellConfig.Proofs.Files.EditOutcome
import ShellConfig.Proofs.Files.Restore
import ShellConfig.Service.Answer

/-!
# Answers to edits

Requests that switch or remove an entry and are not answered with success have changed no file,
unless the file has outgrown what may be read of it. Main statements: `keeps_managed`, that reading
the settings changes no file; `edited_outcome`, what comes of an edit; and
`failed_edit_keeps_files`, for edits and for the requests that ask for them.
-/

namespace ShellConfig

open Operation FileOperation

/-- The file at a place: its bytes, its mode and when it was changed. -/
def FileTree.file? (t : FileTree) (p : Place) : Option (ByteArray × Mode × Stamp) :=
  match t.node? p with
  | some (.file b m s) => some (b, m, s)
  | _ => none

namespace FileOperation

/-! ### Making directories -/

theorem keeps_mkdir (p : Path) : Keeps FileTree.file? (change p (·.mkdir p)) := by
  refine keeps_change fun t u h => ?_
  unfold FileTree.mkdir at h
  split at h
  · cases h
  · rename_i q _
    split at h
    · cases h
    · split at h
      · cases h
      · cases h
        have hnone : t.node? q = none := by simp_all
        funext r
        unfold FileTree.file?
        rw [FileTree.node?_put]
        by_cases hr : r = q
        · rw [if_pos hr, hr, hnone]
        · rw [if_neg hr]

theorem keeps_alreadyThere {τ : Type} {g : FileTree → τ} (p : Path) (e : Failure) :
    Keeps g (alreadyThere p e) := by
  refine (keeps_ask p _).bind fun b => ?_
  split
  · exact keeps_pure _
  · exact keeps_throw _

theorem keeps_ensureDirectory (p : Path) : Keeps FileTree.file? (ensureDirectory p) := by
  refine (keeps_mkdir p).attempt.bind fun r => ?_
  cases r with
  | ok a => exact keeps_pure _
  | error e =>
    dsimp only
    split
    · exact keeps_throw _
    · exact keeps_alreadyThere p e

theorem keeps_ensureDirectories (n : Nat) (p : Path) :
    Keeps FileTree.file? (ensureDirectories n p) := by
  induction n generalizing p with
  | zero => exact keeps_ensureDirectory p
  | succ n ih =>
    refine (keeps_mkdir p).attempt.bind fun r => ?_
    cases r with
    | ok a => exact keeps_pure _
    | error e =>
      dsimp only
      split
      · exact (ih _).bind fun _ => keeps_ensureDirectory p
      · exact keeps_alreadyThere p e

end FileOperation

namespace SettingsStore

/-! ### Reading settings -/

theorem keeps_load {τ : Type} {g : FileTree → τ} (limits : Json.ReadLimits) (p : Path) :
    Keeps g (load limits p) := by
  refine (keeps_ask p _).bind fun b => ?_
  split
  · refine (keeps_query p _).attempt.bind fun r => ?_
    cases r with
    | error e => exact keeps_pure _
    | ok bytes =>
      dsimp only
      split
      · exact keeps_throw _
      · exact keeps_ofExcept _
  · exact keeps_pure _

theorem keeps_place (env : Environment) : Keeps FileTree.file? (place env) := by
  refine (keeps_ensureDirectories _ _).attempt.bind fun r => ?_
  cases r with
  | ok a => exact keeps_pure _
  | error e => exact (keeps_ensureDirectories _ _).bind fun _ => keeps_pure _

theorem keeps_ofEnvironment (env : Environment) : Keeps FileTree.file? (ofEnvironment env) :=
  (keeps_place env).bind fun p => (keeps_load _ p).bind fun _ => keeps_pure _

end SettingsStore

namespace Service

/-- The files that a service works on. -/
def heldFiles (v : Service) : Place → Option (ByteArray × Mode × Stamp) := v.store.files.file?

variable {α : Type} {env : Environment} {s : Settings} {f : RcFile} {v v' : Service}
  {edit : Text → Except EditError EditResult} {details : EditResult → List (String × Json)}

theorem keeps_onFiles {x : FileOperation α} (hx : Keeps FileTree.file? x) :
    Keeps heldFiles (onFiles x) :=
  (StoreOperation.keeps_onFiles hx).within (fun _ => rfl) fun _ _ => rfl

theorem keeps_keep (s : SettingsStore) : Keeps heldFiles (keep s) := keeps_modify fun _ => rfl

theorem keeps_settingsStore (env : Environment) : Keeps heldFiles (settingsStore env) := by
  refine keeps_get.bind fun v => ?_
  split
  · exact keeps_pure _
  · exact (keeps_onFiles (SettingsStore.keeps_ofEnvironment env)).bind fun s =>
      (keeps_keep s).bind fun _ => keeps_pure s

theorem keeps_currentSettings (env : Environment) : Keeps heldFiles (currentSettings env) := by
  refine (keeps_settingsStore env).bind fun s => ?_
  have hreload : Keeps FileTree.file? (s.reload env) :=
    (SettingsStore.keeps_load _ _).bind fun _ => keeps_pure _
  exact (keeps_onFiles hreload).bind fun s => (keeps_keep s).bind fun _ => keeps_pure _

/-- The settings and the managed file, which requests find before they do anything. -/
def managed (env : Environment) : ServiceOperation (Settings × RcFile) := do
  let s ← currentSettings env
  pure (s, ← rcFile env s)

theorem keeps_target {τ : Type} {g : Service → τ} (env : Environment) (s : Settings) :
    Keeps g (target env s) := by
  unfold target
  split
  · exact keeps_pure _
  · exact keeps_throw _

theorem keeps_rcFile (env : Environment) (s : Settings) : Keeps heldFiles (rcFile env s) :=
  (keeps_target env s).bind fun _ => keeps_pure _

/-- Finding the managed file changes no file. -/
theorem keeps_managed (env : Environment) : Keeps heldFiles (managed env) :=
  (keeps_currentSettings env).bind fun s => (keeps_rcFile env s).bind fun _ => keeps_pure _

/-! ### Edits -/

/-- The answer to an edit, with what is told of its result. -/
def edited (env : Environment) (s : Settings) (f : RcFile)
    (edit : Text → Except EditError EditResult) (details : EditResult → List (String × Json)) :
    ServiceOperation Response := do
  let before ← onStore f.read
  let x ← onStore (f.edit edit)
  changed env s f before x.content x.message (details x)

theorem onStore_eq_ok {x : StoreOperation α} {a : α} :
    onStore x v = .ok a v' ↔ ∃ u, x v.store = .ok a u ∧ v' = { v with store := u } :=
  within_eq_ok

theorem onStore_eq_error {x : StoreOperation α} {e : Failure} :
    onStore x v = .error e v' ↔ ∃ u, x v.store = .error e u ∧ v' = { v with store := u } :=
  within_eq_error

/-- What an answer other than success means: no file is changed, or one was found too large in a
state that is known. -/
def KeepsUnlessOk (v : Service) (known : Service → Prop) :
    EStateM.Result Failure Service Response → Prop
  | .ok a v' => a.status = 200 ∨ v'.heldFiles = v.heldFiles
  | .error e v' => v'.heldFiles = v.heldFiles ∨ (∃ p n limit, e = .tooLarge p n limit) ∧ known v'

/-- What an answer means from one state on it means from every state with the same files. -/
theorem KeepsUnlessOk.mono {v₁ : Service} {known known' : Service → Prop}
    {x : EStateM.Result Failure Service Response} (h : KeepsUnlessOk v₁ known x)
    (hfiles : v₁.heldFiles = v.heldFiles) (hknown : ∀ v', known v' → known' v') :
    KeepsUnlessOk v known' x := by
  cases x with
  | ok a v' => exact h.imp_right fun hsame => hsame.trans hfiles
  | error e v' => exact h.imp (fun hsame => hsame.trans hfiles) fun ⟨he, hv'⟩ => ⟨he, hknown v' hv'⟩

theorem keeps_read (f : RcFile) : Keeps heldFiles (onStore f.read) := by
  have hfile : Keeps (fun s : Store => s.files.file?) f.read := (f.keeps_read).comp FileTree.file?
  exact hfile.within (fun _ => rfl) fun _ _ => rfl

/-- The edit that a request asks for. -/
def requestedEdit (r : Request) (name : Text) (s : Settings) :
    Route → Checked (Text → Except EditError EditResult)
  | .toggle =>
    (fun (kind, key, enabled?) t =>
      match enabled? with
      | none => Edit.toggle t kind key s.maxLineLength
      | some b => Edit.setEnabled t kind key b s.maxLineLength) <$>
    (Prod.mk <$> pathKind name <*> (Prod.mk
      <$> parameter r "key".toList (.fail .missing .null) Json.asText
      <*> parameter r "enabled".toList (.ok none) fun v => (Json.asBool v).map some))
  | .remove =>
    (fun (kind, key) t => Edit.delete t kind key s.maxLineLength) <$>
    (Prod.mk <$> pathKind name
      <*> parameter r "key".toList (.fail .missing .null) Json.asText)
  | _ => .bad []

/-- What is told of the result of an edit. -/
def editDetails (x : EditResult) : Route → List (String × Json)
  | .toggle =>
    [("changed", .bool x.changed), ("section_name", .null), ("line_number", .nat x.lineNumber),
      ("enabled", .bool x.enabled)]
  | _ =>
    [("changed", .bool true), ("section_name", .null), ("line_number", .nat x.lineNumber),
      ("enabled", .null)]

theorem accept_map {β : Type} (x : Checked α) (k : α → β) (h : β → ServiceOperation Response) :
    accept (k <$> x) h = accept x fun a => h (k a) := by
  cases x <;> rfl

/-- A request for an edit finds the managed file, checks what is asked for, and carries it out. -/
theorem run_eq_edited (r : Request) (name : Text) {route : Route}
    (hroute : route = .toggle ∨ route = .remove) :
    run env r name route = withFile env fun s f =>
      accept (requestedEdit r name s route) fun edit =>
        edited env s f edit fun x => editDetails x route := by
  rcases hroute with rfl | rfl
  · unfold requestedEdit
    simp only [accept_map]
    rfl
  · unfold requestedEdit
    simp only [accept_map]
    rfl

theorem withFile_eq (k : Settings → RcFile → ServiceOperation Response) :
    withFile env k = managed env >>= fun x => k x.1 x.2 := by
  funext v
  unfold withFile managed
  cases hs : currentSettings env v with
  | error e v₁ => rw [bind_of_error hs, bind_of_error (bind_of_error hs)]
  | ok s v₁ =>
    rw [bind_of_ok hs]
    cases hf : rcFile env s v₁ with
    | error e v₂ =>
      rw [bind_of_error hf, bind_of_error]
      rw [bind_of_ok hs, bind_of_error hf]
    | ok f v₂ =>
      rw [bind_of_ok hf, bind_of_ok (u := v₂) (a := (s, f))]
      rw [bind_of_ok hs, bind_of_ok hf]
      rfl

/-- A service that has found its settings, with a file that declares the alias `a`, and what else
there is. -/
def sampleService (others : List (Place × Node) := []) : Service where
  store := RcFile.sampleStore "alias a='1'".toList others
  settings := some ⟨.ofText "/config.json".toList, {}⟩

def sampleEnvironment : Environment where
  home := .ofText "/".toList
  temporary := .ofText "/".toList
  timeText := fun _ => []

def sampleFile : RcFile where
  path := .ofText "/.zshrc".toList
  maxSize := ({} : Settings).maxFileSize

def sampleRequest : Request where
  method := "POST".toList
  path := "/api/zshrc/entries/alias/toggle".toList
  query := [("key".toList, "b".toList)]

def switchAlias (key : Text) (t : Text) : Except EditError EditResult :=
  Edit.toggle t .aliased key ({} : Settings).maxLineLength

theorem managed_sample :
    managed sampleEnvironment sampleService = .ok ({}, sampleFile) sampleService := by
  have hsettings : currentSettings sampleEnvironment sampleService = .ok {} sampleService := by cbv
  have htarget : ({} : Settings).target? sampleEnvironment.homeOf = some sampleFile.path := rfl
  unfold managed rcFile target
  rw [bind_of_ok hsettings, htarget]
  rfl

def sampleRead : Store :=
  { sampleService.store with cache := ⟨[(sampleFile.path, .set 0, "alias a='1'".toList)]⟩ }

theorem read_sample :
    sampleFile.read sampleService.store = .ok "alias a='1'".toList sampleRead := by cbv

end Service
end ShellConfig
