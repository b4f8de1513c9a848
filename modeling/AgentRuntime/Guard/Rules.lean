import AgentRuntime.Guard.Path

/-!
# `Guard.Rules` — the default-deny list (`agent-guard/src/lib.rs`)

A location is matched on its folded components: Unicode NFKD, lower case, NFKC, what follows a colon dropped, trailing
dots and spaces trimmed. The Unicode functions are parameters. A rule is a run of folded components, at the root or
anywhere.
-/

namespace AgentRuntime.Guard

inductive DenyCategory where
  | credentials
  | keychain
  | browserProfile
  | walletStorage
  | citrateAppData
  | shellHistory
  | dotEnv
  | systemPath
  | malformed
  | unresolvable
deriving DecidableEq, Repr

structure Denied where
  category : DenyCategory
  reason : String
deriving DecidableEq, Repr

inductive Anchor where
  | root
  | anywhere

/-- One deny rule: a run of folded path components. -/
structure Rule where
  category : DenyCategory
  anchor : Anchor
  run : List String

def anywhere (category : DenyCategory) (run : List String) : Rule where
  category := category
  anchor := .anywhere
  run := run

def atRoot (run : List String) : Rule where
  category := .systemPath
  anchor := .root
  run := run

/-- The deny list, already folded. -/
def rules : List Rule :=
  [
    -- Credentials
    anywhere .credentials [".ssh"], anywhere .credentials [".gnupg"], anywhere .credentials [".aws"],
    anywhere .credentials [".azure"], anywhere .credentials [".kube"],
    anywhere .credentials [".config", "gcloud"], anywhere .credentials [".docker", "config.json"],
    anywhere .credentials [".netrc"], anywhere .credentials ["_netrc"], anywhere .credentials [".npmrc"],
    anywhere .credentials [".pypirc"], anywhere .credentials [".git-credentials"],
    anywhere .credentials [".config", "gh"], anywhere .credentials [".config", "hub"],
    anywhere .credentials [".cargo", "credentials"], anywhere .credentials [".cargo", "credentials.toml"],
    anywhere .credentials [".terraform.d", "credentials.tfrc.json"],
    anywhere .credentials [".password-store"],
    -- Keychains and secret services
    anywhere .keychain ["library", "keychains"], anywhere .keychain [".local", "share", "keyrings"],
    anywhere .keychain [".gnome2", "keyrings"], anywhere .keychain [".local", "share", "kwalletd"],
    anywhere .keychain [".kde", "share", "apps", "kwallet"],
    anywhere .keychain [".kde4", "share", "apps", "kwallet"],
    anywhere .keychain ["appdata", "roaming", "microsoft", "credentials"],
    anywhere .keychain ["appdata", "local", "microsoft", "credentials"],
    anywhere .keychain ["appdata", "roaming", "microsoft", "protect"],
    anywhere .keychain ["appdata", "roaming", "microsoft", "vault"],
    anywhere .keychain ["appdata", "local", "microsoft", "vault"],
    -- Browser profiles: macOS
    anywhere .browserProfile ["library", "application support", "google", "chrome"],
    anywhere .browserProfile ["library", "application support", "google", "chrome beta"],
    anywhere .browserProfile ["library", "application support", "google", "chrome canary"],
    anywhere .browserProfile ["library", "application support", "chromium"],
    anywhere .browserProfile ["library", "application support", "bravesoftware"],
    anywhere .browserProfile ["library", "application support", "microsoft edge"],
    anywhere .browserProfile ["library", "application support", "firefox"],
    anywhere .browserProfile ["library", "application support", "arc"],
    anywhere .browserProfile ["library", "application support", "vivaldi"],
    anywhere .browserProfile ["library", "application support", "com.operasoftware.opera"],
    anywhere .browserProfile ["library", "safari"],
    anywhere .browserProfile ["library", "containers", "com.apple.safari"],
    anywhere .browserProfile ["library", "cookies"],
    -- Browser profiles: Linux
    anywhere .browserProfile [".config", "google-chrome"],
    anywhere .browserProfile [".config", "google-chrome-beta"],
    anywhere .browserProfile [".config", "chromium"],
    anywhere .browserProfile [".config", "bravesoftware"],
    anywhere .browserProfile [".config", "microsoft-edge"],
    anywhere .browserProfile [".config", "vivaldi"], anywhere .browserProfile [".config", "opera"],
    anywhere .browserProfile [".mozilla"], anywhere .browserProfile ["snap", "chromium"],
    anywhere .browserProfile ["snap", "firefox"],
    anywhere .browserProfile [".var", "app", "org.mozilla.firefox"],
    anywhere .browserProfile [".var", "app", "com.google.chrome"],
    anywhere .browserProfile [".var", "app", "com.brave.browser"],
    -- Browser profiles: Windows
    anywhere .browserProfile ["appdata", "local", "google", "chrome"],
    anywhere .browserProfile ["appdata", "local", "chromium"],
    anywhere .browserProfile ["appdata", "local", "bravesoftware"],
    anywhere .browserProfile ["appdata", "local", "microsoft", "edge"],
    anywhere .browserProfile ["appdata", "local", "vivaldi"],
    anywhere .browserProfile ["appdata", "roaming", "opera software"],
    anywhere .browserProfile ["appdata", "roaming", "mozilla"],
    anywhere .browserProfile ["appdata", "local", "mozilla"],
    -- Wallet storage: extension storage in any Chromium-family profile
    anywhere .walletStorage ["local extension settings"],
    anywhere .walletStorage ["sync extension settings"],
    anywhere .walletStorage ["managed extension settings"],
    anywhere .walletStorage [".ethereum", "keystore"],
    anywhere .walletStorage ["library", "ethereum", "keystore"],
    anywhere .walletStorage [".foundry", "keystores"], anywhere .walletStorage [".citrate-wallet"],
    anywhere .walletStorage [".electrum"],
    anywhere .walletStorage ["library", "application support", "exodus"],
    anywhere .walletStorage [".bitcoin", "wallets"],
    anywhere .walletStorage ["library", "application support", "bitcoin", "wallets"],
    -- Citrate app data
    anywhere .citrateAppData [".citrate", "noise"], anywhere .citrateAppData [".citrate", "proposer"],
    anywhere .citrateAppData [".citrate", "keystore"], anywhere .citrateAppData [".citrate", "node"],
    -- Shell and REPL histories
    anywhere .shellHistory [".zsh_history"], anywhere .shellHistory [".bash_history"],
    anywhere .shellHistory [".sh_history"], anywhere .shellHistory [".ksh_history"],
    anywhere .shellHistory [".history"], anywhere .shellHistory ["fish_history"],
    anywhere .shellHistory [".zsh_sessions"], anywhere .shellHistory [".bash_sessions"],
    anywhere .shellHistory [".python_history"], anywhere .shellHistory [".node_repl_history"],
    anywhere .shellHistory [".psql_history"], anywhere .shellHistory [".mysql_history"],
    anywhere .shellHistory [".sqlite_history"], anywhere .shellHistory [".rediscli_history"],
    anywhere .shellHistory [".irb_history"], anywhere .shellHistory [".lesshst"],
    anywhere .shellHistory ["consolehost_history.txt"],
    -- System secrets
    atRoot ["etc", "shadow"], atRoot ["etc", "shadow-"], atRoot ["etc", "gshadow"],
    atRoot ["etc", "gshadow-"], atRoot ["etc", "master.passwd"], atRoot ["etc", "sudoers"],
    atRoot ["etc", "sudoers.d"], atRoot ["etc", "ssh"], atRoot ["etc", "ssl", "private"],
    atRoot ["etc", "krb5.keytab"], atRoot ["etc", "security", "opasswd"],
    atRoot ["private", "etc", "master.passwd"], atRoot ["private", "etc", "sudoers"],
    atRoot ["private", "etc", "sudoers.d"], atRoot ["private", "etc", "ssh"],
    atRoot ["private", "etc", "krb5.keytab"], atRoot ["private", "var", "db"], atRoot ["var", "db"],
    atRoot ["root"], atRoot ["proc"], atRoot ["dev", "mem"], atRoot ["dev", "kmem"],
    atRoot ["dev", "port"], anywhere .systemPath ["windows", "system32", "config"]]

/-- A component whose folded form starts so is denied. -/
def prefixRules : List (DenyCategory × String) :=
  [(.walletStorage, "chrome-extension_"), (.walletStorage, "moz-extension+++"), (.citrateAppData, "ai.citrate.core")]

/-- `.env` templates that hold no secrets. -/
def dotenvTemplates : List String := [".env.example", ".env.sample", ".env.template", ".env.dist", ".env.defaults"]

/-- Where macOS mounts the data volume a second time. -/
def dataVolumeAlias : List String := ["system", "volumes", "data"]

/-! ## Matching -/

/-- The Unicode functions: two normal forms and lower case. -/
structure Unicode where
  nfkd : String → String
  toLowercase : String → String
  nfkc : String → String

section

variable (u : Unicode)

/-- Fold one component for matching. -/
def fold (component : String) : String :=
  let key := (u.nfkc (u.toLowercase (u.nfkd component))).toList
  let beforeColon := key.takeWhile fun c => c ≠ ':'
  let key := if beforeColon = [] then key else beforeColon
  let trimmed := key.rdropWhile fun c => c = '.' || c = ' '
  String.ofList (if trimmed = [] then key else trimmed)

def foldedComponents (l : Location) : List String := l.names.map (fold u)

def runMatches (keys run : List String) : Bool := run.isPrefixOf keys

/-- Some tail of the components begins with the run. -/
def runMatchesAnywhere (keys run : List String) : Bool := keys.tails.dropLast.any fun tail => runMatches tail run

def Rule.hits (keys : List String) (rule : Rule) : Bool :=
  match rule.anchor with
  | .root =>
      runMatches keys rule.run ||
        (runMatches keys dataVolumeAlias && runMatches (keys.drop dataVolumeAlias.length) rule.run)
  | .anywhere => runMatchesAnywhere keys rule.run

/-- Check the rule tables against one location. -/
def matchRules (l : Location) : Except Denied Unit :=
  let keys := foldedComponents u l
  match rules.find? (Rule.hits keys) with
  | some rule =>
      .error
        { category := rule.category
          reason := l.text ++ " is inside the default-deny location `" ++ "/".intercalate rule.run ++ "`" }
  | none =>
      match prefixRules.find? fun r => keys.any fun k => r.2.toList.isPrefixOf k.toList with
      | some (category, start) =>
          .error { category, reason := l.text ++ " is inside a default-deny location (`" ++ start ++ "*`)" }
      | none => .ok ()

def isDotenv (key : String) : Bool :=
  (key == ".env" || key == ".envrc" || ".env.".toList.isPrefixOf key.toList) && !dotenvTemplates.contains key

/-- `.env` files are allowed only strictly under a granted project root. -/
def matchDotenv (l : Location) (roots : List Location) : Except Denied Unit :=
  match l.fileName with
  | none => .ok ()
  | some name =>
      if isDotenv (fold u name) = false then .ok ()
      else
        let keys := foldedComponents u l
        if roots.any fun r =>
            let rk := foldedComponents u r
            decide (rk.length < keys.length) && keys.take rk.length == rk then
          .ok ()
        else
          .error
            { category := .dotEnv
              reason := l.text ++ " is an environment file outside every granted project root" }

/-- The deny list on one location. -/
def checkLocation (roots : List Location) (l : Location) : Except Denied Unit := do
  matchRules u l
  matchDotenv u l roots

end

end AgentRuntime.Guard
