import ShellConfig.Json.Encoding
import ShellConfig.Service.Basic

/-!
# Answering requests

A request is checked before anything is done for it: first whether its body is JSON at all, then,
once the settings have been read, its path, its query and its body, all of whose issues are reported
together.
-/

namespace ShellConfig.Service

variable {α : Type}

/-! ### Checking requests -/

/-- The kind of entry named in a path. -/
def pathKind (name : Text) : Checked Kind :=
  (Json.asWord .enum Kind.ofName? (.text name)).inside (.field "type".toList)
    |>.inside (.field "path".toList)

/-- A parameter of the query, with what it is if it is missing. Of those of one name the last
counts. -/
def parameter (r : Request) (name : Text) (default : Checked α) (check : Json → Checked α) :
    Checked α :=
  (match r.query.reverse.lookup name with
    | some t => check (.text t)
    | none => default).inside (.field name) |>.inside (.field "query".toList)

/-- The answer to a body that is not read for a reason of its own. -/
def unreadBody : Response := .refused 400 "There was an error parsing the body".toList

/-- The answer to a body that is not JSON. -/
def badBody : Json.ReadError → Response
  | .malformed => .rejected [⟨[.field "body".toList], .jsonInvalid, true⟩]
  | _ => unreadBody

/-- The value of a body, none if the body is empty, or the answer that there is none. -/
def bodyValue (env : Environment) (r : Request) : Except Response (Option Json) :=
  if r.body.isEmpty then .ok none
  else
    match Json.decode? (Text.toBytes r.body) with
    | none => .error unreadBody
    | some t =>
      match Json.read env.bodyLimits t with
      | .ok v => .ok (some v)
      | .error e => .error (badBody e)

def bodyRecord (check : List (Text × Json) → Checked α) (v : Option Json) : Checked α :=
  (match v with
    | none => Checked.fail .missing .null
    | some v => Json.asRecord .modelAttributesType check v).inside (.field "body".toList)

def contentOf : List (Text × Json) → Checked Wording :=
  Json.required "content".toList Json.asWording

def aliasOf (ms : List (Text × Json)) : Checked AliasRequest :=
  AliasRequest.mk <$> Json.required "name".toList Json.asWording ms
    <*> Json.required "command".toList Json.asWording ms
    <*> Json.optional "description".toList none (Json.orNull Json.asWording) ms

/-- The aliases in a body, at least one. -/
def newAliasesOf (ms : List (Text × Json)) : Checked NewAliases :=
  let aliases (v : Json) :=
    (Json.asList (Json.asRecord .modelAttributesType aliasOf) v).andThen fun l =>
      if l.isEmpty then .fail .tooShort v else .ok l
  NewAliases.mk <$> Json.optional "section_name".toList none (Json.orNull Json.asWording) ms
    <*> Json.required "aliases".toList aliases ms
    <*> Json.optional "attribution".toList none (Json.orNull Json.asWording) ms

/-- Goes on with a checked value, or rejects the request. -/
def accept (x : Checked α) (f : α → ServiceOperation Response) : ServiceOperation Response :=
  match x with
  | .ok a => f a
  | .bad issues => pure (.rejected issues)

/-- Goes on with the value of the body. -/
def withBody (env : Environment) (r : Request) (f : Option Json → ServiceOperation Response) :
    ServiceOperation Response :=
  match bodyValue env r with
  | .ok v => f v
  | .error a => pure a

/-! ### Answers -/

/-- Goes on with the settings and the managed file. -/
def withFile (env : Environment) (f : Settings → RcFile → ServiceOperation Response) :
    ServiceOperation Response := do
  let s ← currentSettings env
  f s (← rcFile env s)

/-- The answer of a route, given the name in the open place of its path. -/
def run (env : Environment) (r : Request) (name : Text) : Route → ServiceOperation Response
  | .health =>
    pure (.ok (Json.record
      [("status", .word "healthy"), ("service", .word "zshrc-manager-backend")]))
  | .entries => withFile env fun s f =>
    accept (parameter r "type".toList (.ok none)
      fun v => (Json.asWord .enum Kind.ofName? v).map some) fun kind? => entries s f kind?
  | .sections => withFile env sections
  | .duplicates => withFile env fun s f =>
    accept (Prod.mk <$> parameter r "type".toList (.ok .aliased) (Json.asWord .enum Kind.ofName?)
      <*> parameter r "key".toList (.ok "name".toList) Json.asText)
      fun (kind, key) => duplicates s f kind key
  | .format => withFile env fun _ f =>
    accept (parameter r "name".toList (.ok "New Section".toList) Json.asText) (format f)
  | .preview => withBody env r fun v => withFile env fun s f =>
    accept (bodyRecord contentOf v) (preview s f)
  | .content => withBody env r fun v => withFile env fun s f =>
    accept (bodyRecord contentOf v) (replaceContent env s f)
  | .aliases => withBody env r fun v => withFile env fun s f =>
    accept (bodyRecord newAliasesOf v) (addAliases env s f)
  | .toggle => withFile env fun s f =>
    accept (Prod.mk <$> pathKind name <*> (Prod.mk
        <$> parameter r "key".toList (.fail .missing .null) Json.asText
        <*> parameter r "enabled".toList (.ok none) fun v => (Json.asBool v).map some))
      fun (kind, key, enabled?) => switchEntry env s f kind key enabled?
  | .remove => withFile env fun s f =>
    accept (Prod.mk <$> pathKind name
        <*> parameter r "key".toList (.fail .missing .null) Json.asText)
      fun (kind, key) => removeEntry env s f kind key
  | .backup => withFile env fun _ f => backup env f
  | .backupDiff => withFile env (backupDiff env)
  | .restore => withFile env fun _ f => restore f
  | .deleteBackup => withFile env fun _ f => deleteBackup f
  | .settings => settingsAnswer env
  | .description => pure ⟨200, .word ""⟩
  | .updateSettings => withBody env r fun v =>
    accept (bodyRecord checkUpdate v) (updateSettings env)

/-- Readies the service for its first request: reads the settings and finds the file that they
select. Later requests open the settings store only if they need it. -/
def ready (env : Environment) : ServiceOperation Unit := do
  if !(← get).isReady then
    let _ ← target env (← currentSettings env)
    modify fun s => { s with isReady := true }

/-- The operation that answers a request. -/
def respond (env : Environment) (r : Request) : ServiceOperation Response :=
  match Route.find r with
  | .error refusal => pure refusal
  | .ok (route, name) => run env r name route

/-- The answer to a request. Every failure has one. -/
def answer (env : Environment) (r : Request) (s : Service) : Response × Service :=
  match respond env r s with
  | .ok a s => (a, s)
  | .error e s => (.ofFailure e, s)

end ShellConfig.Service
