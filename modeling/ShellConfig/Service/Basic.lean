import ShellConfig.Service.Request

/-!
# The service

Answers requests about the managed file, its backup and the settings. The settings are read from
their file for every request that depends on them; the managed file is the one that they select.
-/

namespace ShellConfig

/-- The state of the service: the files, what is remembered of them, the settings once they have
been asked for, and whether it has been readied for requests. -/
structure Service where
  store : Store
  settings : Option SettingsStore := none
  isReady : Bool := false

/-- An operation of the service. -/
abbrev ServiceOperation (α : Type) := Operation Service α

namespace Service

variable {α : Type}

/-- An operation on files and what is remembered of them. -/
def onStore (x : StoreOperation α) : ServiceOperation α :=
  x.within Service.store fun t s => { s with store := t }

/-- An operation on the files alone. -/
def onFiles (x : FileOperation α) : ServiceOperation α := onStore (StoreOperation.onFiles x)

/-! ### Settings -/

def keep (s : SettingsStore) : ServiceOperation Unit :=
  modify fun v => { v with settings := some s }

/-- The settings store, which is opened when it is first asked for. -/
def settingsStore (env : Environment) : ServiceOperation SettingsStore := do
  match (← get).settings with
  | some s => pure s
  | none => do
    let s ← onFiles (SettingsStore.ofEnvironment env)
    keep s
    pure s

def reset : ServiceOperation Unit := modify fun v => { v with settings := none }

/-- The settings as their file holds them now. -/
def currentSettings (env : Environment) : ServiceOperation Settings := do
  let s ← settingsStore env
  let s ← onFiles (s.reload env)
  keep s
  pure s.current

/-- Replaces some settings in memory and stores all. -/
def save (env : Environment) (ms : List (Text × Json)) : ServiceOperation Unit := do
  let s ← settingsStore env
  match s.current.update ms with
  | .bad issues => throw (.invalid issues)
  | .ok c => do
    let s := { s with current := c }
    keep s
    onFiles (s.store env)

def setting? (env : Environment) (key : Text) : ServiceOperation (Option Json) := do
  pure (Json.member? key (← settingsStore env).current.toMembers)

/-- The path of the file that settings select. -/
def target (env : Environment) (s : Settings) : ServiceOperation Path :=
  match s.target? env.homeOf with
  | some p => pure p
  | none => throw s.homeless

def rcFile (env : Environment) (s : Settings) : ServiceOperation RcFile := do
  pure { path := ← target env s, maxSize := s.maxFileSize }

/-! ### Parts of answers -/

def backupInfo (env : Environment) (f : RcFile) : ServiceOperation Json := do
  let info ← onFiles (do (← f.slot).info)
  pure (info.toJson env.timeText)

/-- The answer to a change of the file. -/
def changed (env : Environment) (s : Settings) (f : RcFile) (before after message : Text)
    (details : List (String × Json)) : ServiceOperation Response := do
  let diff := Diff.between before after s.contextLines
  let backup ← backupInfo env f
  pure (.ok (Json.record
    ([("path", .text f.path.text), ("message", .text message), ("diff", diff.toJson),
      ("backup", backup)] ++ details)))

def done (message : Text) : Response :=
  .ok (Json.record [("status", .word "success"), ("message", .text message)])

/-! ### The file -/

def entries (s : Settings) (f : RcFile) (kind? : Option Kind) : ServiceOperation Response := do
  let t ← onStore f.read
  pure (.ok (Json.list Entry.toJson (Entry.inSections t kind? s.maxLineLength)))

def sections (s : Settings) (f : RcFile) : ServiceOperation Response := do
  let t ← onStore f.read
  pure (.ok (Json.list Section.toJson (Section.ofText t s.maxLineLength)))

def duplicates (s : Settings) (f : RcFile) (kind : Kind) (key : Text) :
    ServiceOperation Response := do
  let t ← onStore f.read
  let es := Entry.inSections t (some kind) s.maxLineLength
  pure (.ok (DuplicateReport.ofKey key es).toJson)

def format (f : RcFile) (name : Text) : ServiceOperation Response := do
  let t ← onStore f.read
  let h := HeadingFormat.detect t
  pure (.ok (Json.record
    [("format", .text h.name), ("header_start", .text (h.startLine name)),
      ("header_end", .ofText? (h.endLine? name))]))

/-- The text that a string is. -/
def textOf (w : Wording) : ServiceOperation Text :=
  Operation.ofExcept (w.toText.mapError .unencodable)

/-- What would become of the file with new content. -/
def preview (s : Settings) (f : RcFile) (content : Wording) : ServiceOperation Response := do
  let t ← onStore f.readOrEmpty
  let content ← textOf content
  pure (.ok (Json.record
    [("path", .text f.path.text), ("diff", (Diff.between t content s.contextLines).toJson),
      ("preview", .text (Preview.withDiff t content s.contextLines s.previewLines))]))

def replaceContent (env : Environment) (s : Settings) (f : RcFile) (content : Wording) :
    ServiceOperation Response := do
  let t ← onStore f.readOrEmpty
  let _ ← onStore (f.writeChecked content.toText)
  let content ← textOf content
  let backup ← backupInfo env f
  pure (.ok (Json.record
    [("path", .text f.path.text), ("diff", (Diff.between t content s.contextLines).toJson),
      ("backup", backup)]))

structure AliasRequest where
  name : Wording
  command : Wording
  description : Option Wording

namespace AliasRequest

/-- Whether an alias may be written under the name. -/
def isNamed (a : AliasRequest) : Bool :=
  match a.name with
  | .text n => Shell.isAliasName n
  | .broken _ => false

def definition (a : AliasRequest) : Except EncodingFault AliasDefinition := do
  pure ⟨← a.name.toText, ← a.command.toText, ← a.description.mapM Wording.toText⟩

end AliasRequest

structure NewAliases where
  sectionName : Option Wording
  aliases : List AliasRequest
  attribution : Option Wording

/-- Adds aliases to the file: a single one to its end, or all to a section. What a single one is
attributed to is not written. -/
def addAliases (env : Environment) (s : Settings) (f : RcFile) (new : NewAliases) :
    ServiceOperation Response := do
  match new.sectionName, new.aliases with
  | none, [a] =>
    match a.definition with
    | .error fault => refuse [a] fault
    | .ok a => add fun t => Insert.one t a none s.headingFormat
  | none, _ =>
    pure (.refused 400 "section_name is required when adding several aliases".toList)
  | some name, as =>
    match insertion name as with
    | .error fault => refuse as fault
    | .ok e => add e
where
  /-- The insertion into a section. -/
  insertion (name : Wording) (as : List AliasRequest) :
      Except EncodingFault (Text → Except EditError InsertResult) := do
    let name ← name.toText
    let as ← as.mapM AliasRequest.definition
    let attribution ← new.attribution.mapM Wording.toText
    pure fun t => Insert.many t name as attribution s.headingFormat
  /-- Adds aliases in a given way. -/
  add (e : Text → Except EditError InsertResult) : ServiceOperation Response := do
    let before ← onStore f.readOrEmpty
    let r ← onStore (f.insert e)
    changed env s f before r.content r.message
      [("changed", .bool true), ("section_name", .ofText? r.sectionName), ("line_number", .null),
        ("enabled", .null)]
  /-- Refuses aliases that would make content which is no text: for the first of their names that
  is none, or else when they would be written. -/
  refuse (as : List AliasRequest) (fault : EncodingFault) : ServiceOperation Response := do
    let _ ← onStore f.readOrEmpty
    match as.find? fun a => !a.isNamed with
    | some a => pure (.refused 400 (EditError.aliasNameMessage a.name))
    | none => do
      let _ ← onStore (f.writeChecked (.error fault))
      throw (.unencodable fault)

def switchEntry (env : Environment) (s : Settings) (f : RcFile) (kind : Kind) (key : Text)
    (enabled? : Option Bool) : ServiceOperation Response := do
  let before ← onStore f.read
  let r ← onStore (f.edit fun t =>
    match enabled? with
    | none => Edit.toggle t kind key s.maxLineLength
    | some b => Edit.setEnabled t kind key b s.maxLineLength)
  changed env s f before r.content r.message
    [("changed", .bool r.changed), ("section_name", .null), ("line_number", .nat r.lineNumber),
      ("enabled", .bool r.enabled)]

def removeEntry (env : Environment) (s : Settings) (f : RcFile) (kind : Kind) (key : Text) :
    ServiceOperation Response := do
  let before ← onStore f.read
  let r ← onStore (f.edit fun t => Edit.delete t kind key s.maxLineLength)
  changed env s f before r.content r.message
    [("changed", .bool true), ("section_name", .null), ("line_number", .nat r.lineNumber),
      ("enabled", .null)]

/-! ### The backup -/

/-- What is known of the backup. -/
def backup (env : Environment) (f : RcFile) : ServiceOperation Response := do
  pure (.ok (← backupInfo env f))

/-- What has changed in the file since the backup. -/
def backupDiff (env : Environment) (s : Settings) (f : RcFile) : ServiceOperation Response := do
  let slot ← onFiles f.slot
  match ← onFiles slot.read with
  | none => throw (.noBackup slot.backup)
  | some old => do
    let t ← onStore f.readOrEmpty
    let info ← onFiles slot.info
    pure (.ok (Json.record
      [("backup", info.toJson env.timeText), ("diff", (Diff.between old t s.contextLines).toJson)]))

def restore (f : RcFile) : ServiceOperation Response := do
  match ← (onStore f.restoreBackup).attempt with
  | .ok _ => pure (done ("Restored ".toList ++ f.path.text ++ " from backup".toList))
  | .error (.system e) => pure (.refused 500 ("Restore failed: ".toList ++ e.text))
  | .error e => throw e

def deleteBackup (f : RcFile) : ServiceOperation Response := do
  let slot ← onFiles f.slot
  onFiles slot.delete
  pure (done ("Deleted ".toList ++ slot.backup.text))

/-! ### The settings -/

def settingsAnswer (env : Environment) : ServiceOperation Response := do
  let s ← currentSettings env
  let p ← target env s
  pure (.shown (.object (s.toMembers ++ [("resolved_path".toList, .text p.text)])))

/-- The settings that a client may replace, each checked if it is given. Bounds are not checked
here. -/
def checkUpdate (ms : List (Text × Json)) : Checked (List (Text × Json)) :=
  let given (key : Text) (check : Json → Checked Json) : Checked (List (Text × Json)) :=
    match Json.member? key ms with
    | none => .ok []
    | some v => ((check v).map fun w => [(key, w)]).inside (.field key)
  let orNull (check : Json → Checked Json) (v : Json) : Checked Json :=
    (Json.orNull check v).map fun w => w.getD .null
  let string := orNull fun v => (Json.asWording v).map .ofWording
  let int := orNull fun v => (Json.asInt v).map .int
  let startup := orNull fun v => (Settings.asStartupFile v).map fun f => .text f.name
  let heading := orNull fun v => (Settings.asHeadingFormat v).map fun f => .text f.name
  (Checked.all
    [given Settings.pathKey string, given Settings.startupFileKey startup,
      given Settings.maxLineLengthKey int, given Settings.maxFileSizeKey int,
      given Settings.contextLinesKey int, given Settings.previewLinesKey int,
      given Settings.headingFormatKey heading]).map List.flatten

def updateSettings (env : Environment) (ms : List (Text × Json)) : ServiceOperation Response := do
  let _ ← currentSettings env
  match ← (save env ms).attempt with
  | .ok _ => pure (done "Configuration updated".toList)
  | .error (.invalid _) => pure ⟨400, .word "Invalid configuration"⟩
  | .error (.unsaved c) => pure (.refused 500 (Failure.unsaved c).message)
  | .error e => throw e

end Service
end ShellConfig
