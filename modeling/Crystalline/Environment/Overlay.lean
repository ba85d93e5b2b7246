import Crystalline.Environment.Origin
import Crystalline.Keyed.Table

/-!
# The overlay that environment variables make

`fromVarsReading` sorts the variables by their names, checks the settings, and makes
a domain of every `CRYSTALLINE_DOMAIN_<NAME>` with the origin, the review mode and the
readers that other variables attach to it.
-/

namespace Crystalline.Environment

open Text
open Keyed (collect)

/-- Name and value pairs. -/
abbrev VarPairs := List (Text × Text)

/-- A hash map by text. -/
abbrev Map (α : Type) := AList fun _ : Text => α

/-- What the overlay asks of the machine and of the rest of the program. -/
structure Machine where
  /-- The user's home directory. -/
  home : Option Text
  /-- `std::fs::read_to_string`. -/
  read : Text → Except Text Text
  /-- What a setting other than the database pair has against a value. -/
  settingProblem : (key value : Text) → Option Text
  /-- `unusable_public_url_warning`. -/
  publicUrlWarning : Text → Option Text
  /-- What `AppKey::from_pem` has against a key. -/
  keyProblem : Text → Option Text

def fileBacked : List Text :=
  ["CRYSTALLINE_AUTH_OIDC_CLIENT_SECRET".toList, "CRYSTALLINE_GITHUB_TOKEN".toList,
    "CRYSTALLINE_REMOTE_TOKEN".toList, "CRYSTALLINE_AUTOMATION_WEBHOOK_SECRET".toList,
    "CRYSTALLINE_GITHUB_APP_CLIENT_SECRET".toList,
    "CRYSTALLINE_GITHUB_APP_PRIVATE_KEY".toList,
    "CRYSTALLINE_GITHUB_APP_WEBHOOK_SECRET".toList]

def fileVar (plain : Text) : Text := plain ++ "_FILE".toList

def trimOneLineBreak (text : Text) : Text :=
  ((stripSuffix ['\r', '\n'] text).or (stripSuffix ['\n'] text)).getD text

/-- Which of a variable and its file form is set. -/
structure SecretSource where
  var : Text
  fromFile : Bool
  raw : Text

def secretSource (plain : Text) (var : Text → Option Text) :
    Except Text (Option SecretSource) :=
  let get := fun name => (var name).filter fun value => !value.isEmpty
  match get plain, get (fileVar plain) with
  | some _, some _ =>
      .error (plain ++ " and ".toList ++ fileVar plain ++ " are both set; keep one".toList)
  | some raw, none => .ok (some { var := plain, fromFile := false, raw := raw })
  | none, some raw => .ok (some { var := fileVar plain, fromFile := true, raw := raw })
  | none, none => .ok none

/-- A variable that holds a secret in either form is taken as neither. -/
def consumed (name : Text) : Bool :=
  fileBacked.any fun plain => name == plain || name == fileVar plain

section

variable (machine : Machine)

def SecretSource.resolve (source : SecretSource) : Except Text Text :=
  if source.fromFile then
    match machine.read source.raw with
    | .ok text => .ok (trimOneLineBreak text)
    | .error error =>
        .error (source.var ++ " names ".toList ++ source.raw ++
          ", which cannot be read (".toList ++ error ++ [')'])
  else .ok source.raw

/-- The loop of `resolve_file_secrets`: the secrets that are set with their values,
and those of them that came from a file with the variable that names it. -/
def resolveSecrets (var : Text → Option Text) : List Text → Except Text (VarPairs × VarPairs)
  | [] => .ok ([], [])
  | plain :: rest =>
      match secretSource plain var with
      | .error error => .error error
      | .ok none => resolveSecrets var rest
      | .ok (some source) =>
          match source.resolve machine with
          | .error error => .error error
          | .ok value =>
              if source.fromFile && value.isEmpty then
                .error (source.var ++ " names ".toList ++ source.raw ++ ", which is empty".toList)
              else
                (resolveSecrets var rest).map fun found =>
                  ((plain, value) :: found.1,
                    if source.fromFile then (plain, source.var) :: found.2 else found.2)

def resolveFileSecrets (vars : VarPairs) : Except Text (VarPairs × VarPairs) :=
  (resolveSecrets machine (fun name => (collect vars).lookup name) fileBacked).map
    fun found => (vars.filter (fun var => !consumed var.1) ++ found.1, found.2)

end

def settingKeys : List Text :=
  ["domains_root".toList, "github.enabled".toList, "github.stacks".toList,
    "github.share_identity".toList, "github.agent_identity".toList,
    "github.poll_secs".toList, "github.api_url".toList, "github.oauth_client_id".toList,
    "service.read_only".toList, "service.http".toList, "service.ui".toList,
    "service.api".toList, "service.allowed_hosts".toList, "service.public_url".toList,
    "service.response_format".toList, "skills.serve".toList, "database.backend".toList,
    "database.url".toList, "search.salience_weight".toList, "search.retired_weight".toList,
    "index.files".toList, "capture.similar".toList, "evolve.contradictions".toList,
    "recall.enabled".toList, "recall.limit".toList, "recall.min_score".toList,
    "remote.deadline_ms".toList, "identity.actor".toList, "auth.trusted_header".toList,
    "auth.anonymous".toList, "auth.mcp".toList, "auth.oauth".toList,
    "auth.max_users".toList, "auth.proxy_headers".toList, "auth.oidc.issuer".toList,
    "auth.oidc.client_id".toList, "auth.oidc.client_secret".toList,
    "auth.oidc.name".toList, "auth.oidc.scopes".toList, "auth.oidc.default_role".toList,
    "auth.oidc.redirect_uri".toList, "auth.login.free_attempts".toList,
    "auth.login.max_delay".toList, "automation.webhook.url".toList,
    "automation.webhook.secret".toList, "automation.evolve_threshold".toList]

/-- `env_var`. -/
def settingVar (key : Text) : Text :=
  "CRYSTALLINE_".toList ++ key.map fun char => if char = '.' then '_' else char.toUpper

inductive DatabaseBackend where
  | turso
  | postgres
  deriving DecidableEq

structure DatabaseConfig where
  backend : DatabaseBackend := .turso
  url : Option Text := none

def DatabaseConfig.validate (database : DatabaseConfig) : Except Text Unit :=
  match database.backend, database.url with
  | .turso, _ => .ok ()
  | .postgres, none =>
      .error "invalid database configuration: the postgres backend requires a url".toList
  | .postgres, some url =>
      if startsWith url "postgres://".toList || startsWith url "postgresql://".toList then .ok ()
      else
        .error ("invalid database configuration: the postgres backend requires a url " ++
          "beginning postgres:// or postgresql://").toList

def backendKey : Text := "database.backend".toList

def urlKey : Text := "database.url".toList

def publicUrlKey : Text := "service.public_url".toList

/-- `set_database_backend`. -/
def setDatabaseBackend (database : DatabaseConfig) (value : Text) :
    Except Text DatabaseConfig :=
  if value = "turso".toList then .ok { database with backend := .turso }
  else if value = "postgres".toList then .ok { database with backend := .postgres }
  else
    .error ("database.backend must be turso or postgres, got '".toList ++ value ++ ['\''])

/-- `set_database_url`. -/
def setDatabaseUrl (database : DatabaseConfig) (value : Text) : Except Text DatabaseConfig :=
  if (trim value).isEmpty then .error "database.url must not be empty".toList
  else .ok { database with url := some value }

/-- `settings::apply`, as far as the database block of the scratch config goes. -/
def applySetting (machine : Machine) (database : DatabaseConfig) (key value : Text) :
    Except Text DatabaseConfig :=
  if key = backendKey then setDatabaseBackend database value
  else if key = urlKey then setDatabaseUrl database value
  else
    match machine.settingProblem key value with
    | some problem => .error problem
    | none => .ok database

def domainPrefix : Text := "CRYSTALLINE_DOMAIN_".toList

def originSuffix : Text := "_ORIGIN".toList

def reviewSuffix : Text := "_REVIEW".toList

def readersSuffix : Text := "_READERS".toList

def appIdVar : Text := "CRYSTALLINE_GITHUB_APP_ID".toList

def appClientIdVar : Text := "CRYSTALLINE_GITHUB_APP_CLIENT_ID".toList

def appClientSecretVar : Text := "CRYSTALLINE_GITHUB_APP_CLIENT_SECRET".toList

def appPrivateKeyVar : Text := "CRYSTALLINE_GITHUB_APP_PRIVATE_KEY".toList

def appWebhookSecretVar : Text := "CRYSTALLINE_GITHUB_APP_WEBHOOK_SECRET".toList

/-- `GITHUB_APP_ENVS`. -/
def appVars : List (Text × Text) :=
  [(appIdVar, "id".toList), (appClientIdVar, "client_id".toList),
    (appClientSecretVar, "client_secret".toList), (appPrivateKeyVar, "private_key".toList),
    (appWebhookSecretVar, "webhook_secret".toList)]

/-- What the name of a variable says it is for. -/
inductive VarKind where
  | foreign
  | configPath
  | githubToken
  | app
  | setting (key : Text)
  | origin
  | review
  | readers
  | domain
  | other
  deriving DecidableEq

/-- What follows the domain prefix: a suffix is read before the name is. -/
def fragmentKind (fragment : Text) : VarKind :=
  if endsWith fragment originSuffix then .origin
  else if endsWith fragment reviewSuffix then .review
  else if endsWith fragment readersSuffix then .readers
  else .domain

def varKind (name : Text) : VarKind :=
  if !startsWith name "CRYSTALLINE_".toList then .foreign
  else if name = "CRYSTALLINE_CONFIG".toList then .configPath
  else if name = "CRYSTALLINE_GITHUB_TOKEN".toList then .githubToken
  else if appVars.any fun entry => entry.1 == name then .app
  else
    match settingKeys.find? fun key => settingVar key == name with
    | some key => .setting key
    | none =>
        match stripPrefix domainPrefix name with
        | some fragment => fragmentKind fragment
        | none => .other

/-- `Path::join`. -/
def joinPath (folder rest : Text) : Text :=
  if startsWith rest ['/'] then rest
  else if folder.isEmpty || endsWith folder ['/'] then folder ++ rest
  else folder ++ '/' :: rest

def expandTilde (machine : Machine) (path : Text) : Text :=
  if path = ['~'] then machine.home.getD ['~']
  else
    match stripPrefix ['~', '/'] path, machine.home with
    | some rest, some home => joinPath home rest
    | _, _ => path

/-- What the loop over the variables has collected. -/
structure Collected where
  settings : VarPairs := []
  configPath : Option Text := none
  githubToken : Option Text := none
  appVars : Map Text := ∅
  database : DatabaseConfig := {}
  domainVars : VarPairs := []
  originVars : VarPairs := []
  reviewVars : VarPairs := []
  readersVars : VarPairs := []

def invalidVariable (var : Text) (error : Text) : Text :=
  "invalid environment variable ".toList ++ var ++ ": ".toList ++ error

/-- One turn of the loop.  An empty value reads as unset, but not for a domain. -/
def Collected.take (machine : Machine) (state : Collected) (name value : Text) :
    Except Text Collected :=
  match varKind name with
  | .foreign => .ok state
  | .other => .ok state
  | .domain => .ok { state with domainVars := state.domainVars ++ [(name, value)] }
  | kind =>
      if value.isEmpty then .ok state
      else
        match kind with
        | .configPath => .ok { state with configPath := some (expandTilde machine value) }
        | .githubToken => .ok { state with githubToken := some value }
        | .app => .ok { state with appVars := state.appVars.insert name value }
        | .setting key =>
            if key = publicUrlKey && (machine.publicUrlWarning value).isSome then .ok state
            else
              match applySetting machine state.database key value with
              | .error error => .error (invalidVariable name error)
              | .ok database =>
                  .ok { state with
                    database := database, settings := state.settings ++ [(key, value)] }
        | .origin => .ok { state with originVars := state.originVars ++ [(name, value)] }
        | .review => .ok { state with reviewVars := state.reviewVars ++ [(name, value)] }
        | _ => .ok { state with readersVars := state.readersVars ++ [(name, value)] }

def Collected.takeAll (machine : Machine) : Collected → VarPairs → Except Text Collected
  | state, [] => .ok state
  | state, (name, value) :: vars =>
      match state.take machine name value with
      | .error error => .error error
      | .ok next => next.takeAll machine vars

inductive ReviewMode where
  | overlay
  deriving DecidableEq

/-- A file domain's entry. -/
structure DomainEntry where
  path : Text
  origin : Option OriginConfig
  review : Option ReviewMode
  deriving DecidableEq

/-- A domain with the variable that defined it. -/
structure EnvDomain where
  var : Text
  entry : DomainEntry
  readers : Option Readers
  deriving DecidableEq

/-- What follows the domain prefix in a name collected with it. -/
def fragmentOf (var : Text) : Text := (stripPrefix domainPrefix var).getD []

/-- The domain a fragment names. -/
def domainName (fragment : Text) : Text :=
  (asciiLower fragment).map fun char => if char = '_' then '-' else char

/-- The domains and, by fragment, their names. -/
structure Defined where
  domains : Map EnvDomain := ∅
  fragments : Map Text := ∅

/-- The first loop of `resolve_env_domains`. -/
def Defined.define (machine : Machine) : Defined → VarPairs → Except Text Defined
  | state, [] => .ok state
  | state, (var, value) :: vars =>
      let fragment := fragmentOf var
      if fragment.isEmpty || !fragment.all fun char => isAsciiAlphanumeric char || char == '_' then
        .error (invalidVariable var
          "the domain name must be non-empty and use only letters, digits and underscores".toList)
      else if (trim value).isEmpty then
        .error (invalidVariable var "the domain path must not be empty".toList)
      else
        let name := domainName fragment
        let entry := { path := expandTilde machine value, origin := none, review := none }
        define machine
          { domains := state.domains.insert name { var := var, entry := entry, readers := none }
            fragments := state.fragments.insert fragment name } vars

/-- How a kind of variable attaches to the domain its base names: the suffix, and what
a value makes of the domain. -/
structure Attachment where
  suffix : Text
  set : (var base value : Text) → EnvDomain → Except Text EnvDomain

/-- The fragment without the suffix. -/
def Attachment.base (attachment : Attachment) (var : Text) : Text :=
  (stripSuffix attachment.suffix (fragmentOf var)).getD []

def setOrigin (var _base value : Text) (domain : EnvDomain) : Except Text EnvDomain :=
  match parseEnvOrigin value with
  | .error error => .error (invalidVariable var error)
  | .ok origin => .ok { domain with entry := { domain.entry with origin := some origin } }

def setReview (var _base value : Text) (domain : EnvDomain) : Except Text EnvDomain :=
  if trim value != "overlay".toList then
    .error (invalidVariable var ("review mode is 'overlay', the mode where every write joins " ++
      "its author's own draft; unset the variable for a domain that takes changes " ++
      "directly").toList)
  else .ok { domain with entry := { domain.entry with review := some .overlay } }

def setReaders (var base value : Text) (domain : EnvDomain) : Except Text EnvDomain :=
  if domain.entry.origin.isNone then
    .error ("environment variable ".toList ++ var ++ " has no matching ".toList ++
      domainPrefix ++ base ++ originSuffix ++
      ": who may read a domain is said for a team domain only".toList)
  else
    match Readers.parse value with
    | none =>
        .error (invalidVariable var ("say shared (everyone signed in) or private (only people " ++
          "with access on GitHub)").toList)
    | some readers => .ok { domain with readers := some readers }

def originAttachment : Attachment := { suffix := originSuffix, set := setOrigin }

def reviewAttachment : Attachment := { suffix := reviewSuffix, set := setReview }

def readersAttachment : Attachment := { suffix := readersSuffix, set := setReaders }

/-- The loop of `resolve_env_domains` over the variables of one attachment. -/
def Attachment.attach (attachment : Attachment) (fragments : Map Text) :
    Map EnvDomain → VarPairs → Except Text (Map EnvDomain)
  | domains, [] => .ok domains
  | domains, (var, value) :: vars =>
      let base := attachment.base var
      match fragments.lookup base with
      | none =>
          .error ("environment variable ".toList ++ var ++ " has no matching ".toList ++
            domainPrefix ++ base)
      | some name =>
          -- a fragment's name is recorded with its domain, so the lookup finds it
          match domains.lookup name with
          | none => attachment.attach fragments domains vars
          | some domain =>
              match attachment.set var base value domain with
              | .error error => .error error
              | .ok changed => attachment.attach fragments (domains.insert name changed) vars

def resolveEnvDomains (machine : Machine)
    (domainVars originVars reviewVars readersVars : VarPairs) : Except Text (Map EnvDomain) :=
  (Defined.define machine {} domainVars).bind fun defined =>
    (originAttachment.attach defined.fragments defined.domains originVars).bind fun located =>
      (reviewAttachment.attach defined.fragments located reviewVars).bind fun reviewed =>
        readersAttachment.attach defined.fragments reviewed readersVars

structure AppCredentials where
  appId : Nat
  clientId : Text
  clientSecret : Option Text
  privateKey : Text
  webhookSecret : Option Text
  slug : Option Text
  host : Text

/-- `str::parse::<u64>`. -/
def parseU64 (text : Text) : Option Nat :=
  let digits := (stripPrefix ['+'] text).getD text
  let value := digits.foldl (fun value char => value * 10 + (char.toNat - '0'.toNat)) 0
  if digits.isEmpty || !digits.all isAsciiDigit || 18446744073709551615 < value then none
  else some value

/-- `join(" and ")`. -/
def joinAnd : List Text → Text
  | [] => []
  | [only] => only
  | first :: rest => first ++ " and ".toList ++ joinAnd rest

def githubAppFrom (machine : Machine) (vars : Map Text) :
    Except Text (Option (Except Text AppCredentials)) :=
  if vars.entries.isEmpty then .ok none
  else
    let missing := [appIdVar, appClientIdVar, appPrivateKeyVar].filter fun var =>
      (vars.lookup var).isNone
    if !missing.isEmpty then
      .error ("GitHub App environment is incomplete: set ".toList ++ joinAnd missing ++
        " too (an App needs an id, a client id and a private key together)".toList)
    else
      let held := fun var => (vars.lookup var).getD []
      match parseU64 (trim (held appIdVar)) with
      | none => .ok (some (.error (appIdVar ++ " must be the App's numeric id".toList)))
      | some appId =>
          match machine.keyProblem (held appPrivateKeyVar) with
          | some problem => .ok (some (.error (appPrivateKeyVar ++ ": ".toList ++ problem)))
          | none =>
              .ok (some (.ok
                { appId := appId, clientId := held appClientIdVar
                  clientSecret := vars.lookup appClientSecretVar
                  privateKey := held appPrivateKeyVar
                  webhookSecret := vars.lookup appWebhookSecretVar
                  slug := none, host := [] }))

structure EnvOverlay where
  settings : VarPairs
  domains : Map EnvDomain
  githubToken : Option Text
  githubApp : Option (Except Text AppCredentials)
  githubAppVars : VarPairs
  configPath : Option Text
  fileSourced : VarPairs

def fileSourcedVar (fileSourced : VarPairs) (plain : Text) : Text :=
  ((fileSourced.find? fun entry => entry.1 == plain).map Prod.snd).getD plain

/-- The overlay of the variables that are left once secrets are read. -/
def fromSeen (machine : Machine) (seen fileSourced : VarPairs) : Except Text EnvOverlay :=
  (Collected.takeAll machine {} seen).bind fun state =>
    match state.database.validate with
    | .error error =>
        .error (("invalid environment variables CRYSTALLINE_DATABASE_BACKEND and " ++
          "CRYSTALLINE_DATABASE_URL: ").toList ++ error)
    | .ok _ =>
        (resolveEnvDomains machine state.domainVars state.originVars state.reviewVars
            state.readersVars).bind fun domains =>
          (githubAppFrom machine state.appVars).map fun githubApp =>
            { settings := state.settings
              domains := domains
              githubToken := state.githubToken
              githubApp := githubApp
              githubAppVars := (appVars.filter fun entry =>
                (state.appVars.lookup entry.1).isSome).map fun entry =>
                  (entry.2, fileSourcedVar fileSourced entry.1)
              configPath := state.configPath
              fileSourced := fileSourced }

def fromVarsReading (machine : Machine) (vars : VarPairs) : Except Text EnvOverlay :=
  (resolveFileSecrets machine vars).bind fun resolved =>
    fromSeen machine resolved.1 resolved.2

end Crystalline.Environment
