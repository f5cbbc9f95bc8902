import AgentMultiplexer.Access.Registry

set_option autoImplicit false

/-! # The access policy

`Policy.Authorize` decides every request of the control API. The host may do everything and a
provider what its resolver callback allows; a session is held to the rule its verb is classified
under. The policy reads roles, root pointers, archived flags and repository grants from a resolver
on every call and trusts nothing the request says about them, so the resolver is arbitrary here: a
row may be anything, and every read may fail. -/

namespace AgentMultiplexer.Access

/-! ## Requests and resources -/

/-- `Route`; any text but the three known ones is `other`. -/
inductive Route
  | query
  | action
  | pane
  | other (text : String)
  deriving DecidableEq

/-- The control-API request, as far as the policy reads it. -/
structure Request where
  route : Route
  verb : String
  id : String
  fields : GoMap String String

/-- `req.Fields[key]`, the empty string when the key is absent. -/
def Request.field (req : Request) (key : String) : String := req.fields.get key ""

/-- The role of a session row; an ordinary agent has the empty role. -/
inductive Role
  | agent
  | console
  | coordinator
  | repo
  | other (text : String)
  deriving DecidableEq

/-- `Resource`: the authorization-only projection of a session. -/
structure Resource where
  id : String
  rootID : String
  role : Role
  repo : String
  archived : Bool

/-- What `Authorize` returns instead of nil: the two denials, or an error of the resolver. -/
inductive PolicyError
  | denied
  | repoNotGranted (repo workgroup : String)
  | resolver (text : String)

/-- `Resolver`: each method may fail, and a looked-up row may be missing. -/
structure Resolver where
  lookup : String → Except PolicyError (Option Resource)
  repoGranted : String → String → Except PolicyError Bool
  providerAllows : String → Request → Except PolicyError Bool

/-! ## Verbs -/

def actionStart : String := "start"
def actionSteer : String := "steer"
def actionRename : String := "rename"
def actionSetArchived : String := "set-archived"
def actionAddAgent : String := "add-agent"
def actionNewWorkgroup : String := "new-workgroup"
def querySnapshot : String := "snapshot"

def steerVerb : String := "verb"
def steerRequestID : String := "request_id"
def steerPermission : String := "permission"
def runtimeGenerationField : String := "runtime_generation"

/-! ## The rules -/

/-- `Scope`: what a restricted session principal needs for an operation. -/
inductive Scope
  | host
  | session
  | filtered
  | workgroup
  deriving DecidableEq

/-- `Rule`: the classification of one route and verb. `allow` narrows a workgroup rule once the
    target is known to be in scope; its second argument says whether the target is the caller. -/
structure Rule where
  scope : Scope
  console : Bool
  allow : Option (Request → Bool → Resource → Bool)

/-- `allowSteer`: prompts, interjections and stops in scope; a permission answer must name its
    request and its runtime generation and is never accepted for the caller's own prompt. -/
def allowSteer (req : Request) (self : Bool) (_ : Resource) : Bool :=
  if req.field steerVerb = "prompt" ∨ req.field steerVerb = "interject" ∨
      req.field steerVerb = "stop" then true
  else if req.field steerVerb = steerPermission then
    !self && GoStrings.trimSpace (req.field steerRequestID) != "" &&
      GoStrings.trimSpace (req.field runtimeGenerationField) != ""
  else false

/-- `allowArchive`: an explicit archival of a member, or of the caller's own workgroup; forcing it
    only for another session. -/
def allowArchive (req : Request) (self : Bool) (target : Resource) : Bool :=
  if req.field "archived" ≠ "true" then false
  else if req.field "force" = "true" ∧ self then false
  else target.rootID != "" || (self && target.role = .coordinator)

/-- `allowAddAgent`: a coordinator adds to its own workgroup only. -/
def allowAddAgent (_ : Request) (self : Bool) (target : Resource) : Bool :=
  self && target.role = .coordinator

/-- A host rule the console holds as a delegated grant, or not. -/
def Rule.host (console : Bool) : Rule := ⟨.host, console, none⟩

/-- The classified verbs of a route, with their rules. -/
def rules : Route → List (String × Rule)
  | .action =>
    [(actionStart, ⟨.workgroup, false, none⟩),
     (actionSteer, ⟨.workgroup, false, some allowSteer⟩),
     (actionRename, ⟨.workgroup, false, none⟩),
     (actionSetArchived, ⟨.workgroup, true, some allowArchive⟩),
     (actionAddAgent, ⟨.workgroup, true, some allowAddAgent⟩),
     ("refresh", .host true), ("move", .host true), ("delete", .host true),
     ("kill", .host true), ("add-repo", .host true), ("rm-repo", .host true),
     ("agent-set-repos", .host true), (actionNewWorkgroup, .host true),
     ("create-workspace", .host true),
     ("archive", .host false), ("restart", .host false), ("auth-reload", .host false),
     ("account-manage", .host false), ("codex-login", .host false),
     ("coordinator-set-repos", .host false), ("subscribe", .host false),
     ("query", .host false)]
  | .pane =>
    [("pane.open", .host false), ("pane.input", .host false), ("pane.resize", .host false),
     ("pane.close", .host false)]
  | .query =>
    [("version", ⟨.session, false, none⟩), ("codex-control", ⟨.session, false, none⟩),
     ("agent-sessions", ⟨.session, false, none⟩),
     ("sessions", ⟨.filtered, false, none⟩), (querySnapshot, ⟨.filtered, false, none⟩),
     ("repos", ⟨.filtered, false, none⟩),
     ("runtime-events", ⟨.workgroup, false, none⟩),
     ("runtime-path", .host false), ("runtime-record", .host false), ("accounts", .host false),
     ("account-manage", .host false), ("account-ceremony", .host false),
     ("codex-auth", .host false), ("resources", .host false)]
  | .other _ => []

/-- `RuleFor`; `none` is an unclassified operation. -/
def ruleFor (route : Route) (verb : String) : Option Rule := (rules route).lookup verb

/-! ## The decision -/

/-- `InWorkgroupScope`: the subject itself, for a coordinator also its direct members, for the
    console everything. -/
def inWorkgroupScope (subject target : Resource) : Bool :=
  match subject.role with
  | .console => true
  | .coordinator => target.id = subject.id || target.rootID = subject.id
  | .repo | .agent => target.id = subject.id
  | .other _ => false

def knownRole : Role → Bool
  | .agent | .console | .coordinator | .repo => true
  | .other _ => false

/-- `splitList`: the trimmed, non-empty items of a comma-separated list. -/
def splitList (value : String) : List String :=
  ((GoStrings.split value ',').map GoStrings.trimSpace).filter (· != "")

def repoScopedWorkgroup (subject : Resource) (req : Request) : Bool :=
  splitList (req.field "repos") = [subject.repo]

/-- The field names `authorizeAddAgent` accepts. -/
def addAgentFields : List String := ["agent", "prompt", "mode", "model", "repos"]

/-- The grant loop of `authorizeAddAgent`. -/
def checkGrants (r : Resolver) (subject : Resource) : List String → Except PolicyError Unit
  | [] => .ok ()
  | repo :: rest =>
    match r.repoGranted subject.id repo with
    | .error err => .error err
    | .ok false => .error (.repoNotGranted repo subject.id)
    | .ok true => checkGrants r subject rest

def authorizeAddAgent (r : Resolver) (subject : Resource) (req : Request) :
    Except PolicyError Unit :=
  if req.fields.keys.any (· ∉ addAgentFields) then .error .denied
  else checkGrants r subject (splitList (req.field "repos"))

/-- The target row: a request for the subject's own id reuses the subject's row. -/
def lookupTarget (r : Resolver) (subject : Resource) (req : Request) :
    Except PolicyError (Option Resource) :=
  if req.id = subject.id then .ok (some subject) else r.lookup req.id

/-- The part of `Authorize` for a workgroup rule. -/
def authorizeWorkgroup (r : Resolver) (subject : Resource) (rule : Rule) (req : Request) :
    Except PolicyError Unit :=
  if GoStrings.trimSpace req.id = "" then .error .denied
  else
    match lookupTarget r subject req with
    | .error err => .error err
    | .ok none => .error .denied
    | .ok (some target) =>
      if subject.role = .console ∧ rule.console then .ok ()
      else if !inWorkgroupScope subject target then .error .denied
      -- reads may page an archived member, effects never target one
      else if req.route = .action ∧ target.archived then .error .denied
      else if rule.allow.any fun allow => !allow req (target.id = subject.id) target then
        .error .denied
      else if req.verb = actionAddAgent ∧ subject.role ≠ .console then
        authorizeAddAgent r subject req
      else .ok ()

/-- The part of `Authorize` for a session principal. -/
def authorizeSession (r : Resolver) (subjectID : String) (req : Request) :
    Except PolicyError Unit :=
  match ruleFor req.route req.verb with
  | none => .error .denied
  | some rule =>
    match r.lookup subjectID with
    | .error err => .error err
    | .ok none => .error .denied
    | .ok (some subject) =>
      if subject.archived || !knownRole subject.role then .error .denied
      else
        match rule.scope with
        | .session | .filtered => .ok ()
        | .host =>
          if subject.role = .console ∧ rule.console then .ok ()
          else if subject.role = .repo ∧ req.verb = actionNewWorkgroup ∧ req.id = "" ∧
              repoScopedWorkgroup subject req then .ok ()
          else .error .denied
        | .workgroup => authorizeWorkgroup r subject rule req

/-- `Policy.Authorize`; the resolver may be nil. -/
def authorize (resolver : Option Resolver) (principal : Principal) (req : Request) :
    Except PolicyError Unit :=
  match principal.kind with
  | .host => .ok ()
  | .provider =>
    match resolver with
    | none => .error .denied
    | some r =>
      match r.providerAllows principal.subjectID req with
      | .error err => .error err
      | .ok true => .ok ()
      | .ok false => .error .denied
  | .session =>
    match resolver with
    | none => .error .denied
    | some r => authorizeSession r principal.subjectID req

/-! ## Snapshots -/

/-- A session row of a snapshot; `rest` holds the fields the filter copies through. -/
structure Session (ρ : Type) where
  id : String
  cwd : String
  pid : Int
  rest : ρ

/-- `core.Snapshot`; `rest` holds its other fields. -/
structure Snapshot (ρ τ : Type) where
  sessions : List (Session ρ)
  rest : τ

/-- The row without the host's working directory and process id. -/
def Session.blanked {ρ : Type} (s : Session ρ) : Session ρ := { s with cwd := "", pid := 0 }

variable {ρ τ : Type}

/-- The provider's loop of `FilterSnapshot`. -/
def filterProvider (r : Resolver) (subjectID : String) :
    List (Session ρ) → Except PolicyError (List (Session ρ))
  | [] => .ok []
  | s :: rest =>
    match r.providerAllows subjectID ⟨.query, querySnapshot, s.id, ∅⟩ with
    | .error err => .error err
    | .ok keep =>
      match filterProvider r subjectID rest with
      | .error err => .error err
      | .ok kept => .ok (if keep then s :: kept else kept)

/-- The session's loop of `FilterSnapshot`. -/
def filterSessions (r : Resolver) (subject : Resource) :
    List (Session ρ) → Except PolicyError (List (Session ρ))
  | [] => .ok []
  | s :: rest =>
    match r.lookup s.id with
    | .error err => .error err
    | .ok found =>
      match filterSessions r subject rest with
      | .error err => .error err
      | .ok kept =>
        .ok (if found.any (inWorkgroupScope subject) then s.blanked :: kept else kept)

def filterSnapshot (resolver : Option Resolver) (principal : Principal) (snap : Snapshot ρ τ) :
    Except PolicyError (Snapshot ρ τ) :=
  match principal.kind with
  | .host => .ok snap
  | .provider =>
    match resolver with
    | none => .error .denied
    | some r =>
      (filterProvider r principal.subjectID snap.sessions).map fun kept =>
        { snap with sessions := kept }
  | .session =>
    match resolver with
    | none => .error .denied
    | some r =>
      match r.lookup principal.subjectID with
      | .error err => .error err
      | .ok none => .error .denied
      | .ok (some subject) =>
        if subject.archived then .error .denied
        else
          (filterSessions r subject snap.sessions).map fun kept =>
            { snap with sessions := kept }

end AgentMultiplexer.Access
