import ShellConfig.Service.Records

/-!
# Requests and responses

What a client asks and what it is answered, and the routes by which requests find their answers.
-/

namespace ShellConfig

structure Request where
  method : Text
  path : Text
  query : List (Text × Text) := []
  body : Text := []
  deriving DecidableEq, Repr

structure Response where
  status : Nat
  body : Json

namespace Response

/-- The answer that everything went well. -/
def ok (body : Json) : Response := ⟨200, body⟩

/-- The answer that says what is wrong. -/
def refused (status : Nat) (detail : Text) : Response :=
  ⟨status, Json.record [("detail", .text detail)]⟩

def broken : Response := ⟨500, .word "Internal Server Error"⟩

/-- The answer that everything went well, with a value that may be one that cannot be shown. -/
def shown (body : Json) : Response := if body.isShowable then ok body else broken

/-- The answer that lists what is wrong with a request, each issue with the value that is wrong. If
one of these values cannot be shown, neither can the list. -/
def rejected (issues : List Issue) : Response :=
  if issues.all (·.showable) then ⟨422, Json.list Issue.toJson issues⟩ else broken

/-- The answer that sends a client to the path without slashes at its end. -/
def elsewhere : Response := ⟨307, .word ""⟩

/-- The answer to a failure: the failures of the managed file and its backup are told, and no
others. -/
def ofFailure (f : Failure) : Response :=
  match f with
  | .noBackup _ | .edit (.notFound _ _) | .notFound _ => refused 404 f.message
  | .edit _ => refused 400 f.message
  | .permissionDenied _ => refused 403 f.message
  | .tooLarge _ _ _ => refused 413 f.message
  | .unreadable _ _ | .unwritable _ _ => refused 500 f.message
  | _ => broken

end Response

/-- What a request can ask for. -/
inductive Route
  | health
  | entries
  | sections
  | duplicates
  | format
  | preview
  | content
  | aliases
  | toggle
  | remove
  | backup
  | backupDiff
  | restore
  | deleteBackup
  | settings
  | updateSettings
  /-- The pages that describe the service. -/
  | description
  deriving DecidableEq, Repr

namespace Route

/-- All routes with their methods and paths. A path is a list of names, of which one may be open. -/
def table : List (String × List (Option String) × Route) :=
  let api (ns : List (Option String)) := some "" :: some "api" :: ns
  let file (ns : List (Option String)) := api (some "zshrc" :: ns)
  let kept (ns : List (Option String)) := api (some "backup" :: ns)
  let pages (ns : List String) : List (String × List (Option String) × Route) :=
    ["GET", "HEAD"].map fun m => (m, some "" :: ns.map some, description)
  [("GET", file [some "entries"], entries), ("GET", file [some "sections"], sections),
    ("GET", file [some "duplicates"], duplicates), ("GET", file [some "format"], format),
    ("POST", file [some "preview"], preview), ("PUT", file [some "content"], content),
    ("POST", file [some "aliases"], aliases),
    ("POST", file [some "entries", none, some "toggle"], toggle),
    ("DELETE", file [some "entries", none], remove), ("GET", kept [], backup),
    ("GET", kept [some "diff"], backupDiff), ("POST", kept [some "restore"], restore),
    ("DELETE", kept [], deleteBackup), ("GET", api [some "config"], settings),
    ("PUT", api [some "config"], updateSettings), ("GET", [some "", some "health"], health)] ++
    pages ["openapi.json"] ++ pages ["docs"] ++ pages ["docs", "oauth2-redirect"] ++ pages ["redoc"]

/-- The name that stands in the open place of a path, or the empty text if there is no open place.
An open place takes no empty name. -/
def capture : List (Option String) → List Text → Option Text
  | [], [] => some []
  | some s :: ps, n :: ns => if s.toList = n then capture ps ns else none
  | none :: ps, n :: ns => if n.isEmpty then none else (capture ps ns).map fun _ => n
  | _, _ => none

/-- The routes at a path, with their methods and the names in their open places. A line break may
stand behind the path, unless it can be taken as part of an open name. -/
def atPath (path : Text) : List (Text × Route × Text) :=
  table.filterMap fun (m, p, r) =>
    let plain := capture p (path.splitOn '/')
    let broken := (Text.before? ['\n'] path).bind fun t => capture p (t.splitOn '/')
    (plain <|> broken).map fun n => (m.toList, r, n)

/-- A path without the slashes at its end, if there are any. -/
def withoutSlashes? (path : Text) : Option Text :=
  if path.getLast? = some '/' then some (path.reverse.dropWhile (· == '/')).reverse else none

/-- The answer for a path at which there is no route. -/
def missing (path : Text) : Response :=
  if (withoutSlashes? path).any fun p => !(atPath p).isEmpty then .elsewhere
  else .refused 404 "Not Found".toList

/-- The route for a request and the name in its open place, or the answer that there is none. -/
def find (r : Request) : Except Response (Route × Text) :=
  match atPath r.path with
  | [] => .error (missing r.path)
  | hits =>
    match hits.find? fun h => h.1 == r.method with
    | some (_, route, n) => .ok (route, n)
    | none => .error (.refused 405 "Method Not Allowed".toList)

end Route
end ShellConfig
