import KnowledgeKiln.Core.Url

/-!
# Git credentials of the worker (ingestion/git_credentials.py)

The credential bundle, its installation at start-up and the environment of a
`git` child process. A path is its `str`; the bytes written to disk play no
part in what follows and are left out.

* `subprocessEnv_askpass`, `subprocessEnv_token`: what a `git` child finds
  under the two variables of the askpass helper.
* `installAtStartup_askpass`: an installed bundle has a helper exactly when it
  holds a token.
-/
namespace KnowledgeKiln.L1.Git

open KnowledgeKiln.Core

/-- Mirrors `GitCredentials` (git_credentials.py:99-135). -/
structure GitCredentials where
  token : Option Str := none
  sshKeyPem : Option (List UInt8) := none
  knownHosts : Option Str := none
  strictHostKeyChecking : Bool := true
  askpassScriptPath : Option Str := none
  sshKeyPath : Option Str := none
  knownHostsPath : Option Str := none
  deriving DecidableEq

/-- git_credentials.py:137-138 -/
def GitCredentials.hasAny (creds : GitCredentials) : Bool :=
  creds.token.isSome || creds.sshKeyPem.isSome

/-- `home / name` -/
def joinPath (home name : Str) : Str :=
  if home = "/" then "/" ++ name else home ++ "/" ++ name

/-- The paths `install_at_startup` fills in (git_credentials.py:203-289). -/
def installAtStartup (creds : GitCredentials) (home : Str) : GitCredentials :=
  if creds.hasAny = false then creds
  else
    { creds with
      askpassScriptPath := creds.token.map fun _ => joinPath home ".kiln-git-askpass"
      sshKeyPath := creds.sshKeyPem.map fun _ => joinPath (joinPath home ".ssh") "id_rsa"
      knownHostsPath := creds.sshKeyPem.map fun _ => joinPath (joinPath home ".ssh") "known_hosts" }

/-! ## The environment of a child process -/

/-- A process environment. -/
abbrev Environ := Str → Option Str

/-- `env[key] = value` -/
def Environ.set (env : Environ) (key value : Str) : Environ := Function.update env key (some value)

def gitTerminalPrompt : Str := "GIT_TERMINAL_PROMPT"
def gitAskpass : Str := "GIT_ASKPASS"
def kilnGitToken : Str := "KILN_GIT_TOKEN"
def gitSshCommand : Str := "GIT_SSH_COMMAND"

/-- `" ".join(ssh_cmd_parts)` (git_credentials.py:323-338). -/
def sshCommand (creds : GitCredentials) (keyPath : Str) : Str :=
  let strict : Str := if creds.strictHostKeyChecking then "yes" else "no"
  let parts : List Str :=
    ["ssh".toList, "-o".toList, "StrictHostKeyChecking=" ++ strict, "-o".toList,
      "IdentitiesOnly=yes".toList, "-i".toList, keyPath]
  let known : List Str := match creds.knownHostsPath with
    | none => []
    | some p => ["-o".toList, "UserKnownHostsFile=" ++ p]
  join " " (parts ++ known)

/-- Mirrors `subprocess_env` (git_credentials.py:292-340). -/
def subprocessEnv (creds : Option GitCredentials) (baseEnv : Environ) : Environ :=
  let env := baseEnv.set gitTerminalPrompt "0"
  match creds with
  | none => env
  | some creds =>
    if creds.hasAny = false then env
    else
      let env := match creds.askpassScriptPath, creds.token with
        | some path, some token => (env.set gitAskpass path).set kilnGitToken token
        | _, _ => env
      match creds.sshKeyPath with
      | none => env
      | some path => env.set gitSshCommand (sshCommand creds path)

/-- The askpass helper's answer to one prompt (`_ASKPASS_SCRIPT`, git_credentials.py:190-200). -/
def askpassScript (env : Environ) (prompt : Str) : Str :=
  if startsWith prompt "Username" then "oauth2"
  else if startsWith prompt "Password" then (env kilnGitToken).getD []
  else []

/-- `git` asks the program that `GIT_ASKPASS` names; here, when it is the installed helper. -/
def answerPrompt (creds : GitCredentials) (env : Environ) (prompt : Str) : Option Str :=
  match env gitAskpass with
  | none => none
  | some path =>
    if creds.askpassScriptPath = some path then some (askpassScript env prompt) else none

def githubHosts : List Str := ["github.com".toList, "www.github.com".toList]

/-- Mirrors `should_inject_oauth_userinfo` (git_credentials.py:343-358). -/
def shouldInjectOauthUserinfo (url : Str) : Bool :=
  if !startsWith url "http://" && !startsWith url "https://" then false
  else
    let afterScheme := ((cut "://" url).map Prod.snd).getD url
    let hostAndPath := ((cut "@" afterScheme).map Prod.snd).getD afterScheme
    let host := lower (partition (partition hostAndPath '/').1 ':').1
    decide (host ∈ githubHosts)

/-! ## Lemmas -/

@[simp] theorem Environ.set_self (env : Environ) (k v : Str) : env.set k v k = some v := by
  simp [Environ.set]

theorem Environ.set_ne (env : Environ) {k k' : Str} (v : Str) (h : k' ≠ k) :
    env.set k v k' = env k' := by
  simp [Environ.set, h]

/-- What a child finds under `GIT_ASKPASS`, from a bundle that holds a token. -/
theorem subprocessEnv_askpass {creds : GitCredentials} (baseEnv : Environ)
    (ht : creds.token.isSome = true) :
    subprocessEnv (some creds) baseEnv gitAskpass =
      creds.askpassScriptPath.or (baseEnv gitAskpass) := by
  obtain ⟨token, ht⟩ := Option.isSome_iff_exists.mp ht
  have hp : gitAskpass ≠ gitTerminalPrompt := by decide
  have hk : gitAskpass ≠ kilnGitToken := by decide
  have hs : gitAskpass ≠ gitSshCommand := by decide
  simp only [subprocessEnv, GitCredentials.hasAny, ht, Option.isSome_some, Bool.true_or]
  cases creds.askpassScriptPath <;> cases creds.sshKeyPath <;>
    simp [Environ.set_ne _ _ hp, Environ.set_ne _ _ hk, Environ.set_ne _ _ hs]

/-- What a child finds under `KILN_GIT_TOKEN`, from a bundle that holds a token. -/
theorem subprocessEnv_token {creds : GitCredentials} (baseEnv : Environ)
    (ht : creds.token.isSome = true) :
    subprocessEnv (some creds) baseEnv kilnGitToken =
      (creds.askpassScriptPath.bind fun _ => creds.token).or (baseEnv kilnGitToken) := by
  obtain ⟨token, ht⟩ := Option.isSome_iff_exists.mp ht
  have hp : kilnGitToken ≠ gitTerminalPrompt := by decide
  have hs : kilnGitToken ≠ gitSshCommand := by decide
  simp only [subprocessEnv, GitCredentials.hasAny, ht, Option.isSome_some, Bool.true_or]
  cases creds.askpassScriptPath <;> cases creds.sshKeyPath <;>
    simp [Environ.set_ne _ _ hp, Environ.set_ne _ _ hs]

theorem installAtStartup_askpass {creds : GitCredentials} (home : Str)
    (hn : creds.askpassScriptPath = none) :
    (installAtStartup creds home).askpassScriptPath.isSome = creds.token.isSome := by
  unfold installAtStartup
  split
  · rename_i h
    simp only [GitCredentials.hasAny, Bool.or_eq_false_iff] at h
    simp [hn, h.1]
  · simp

end KnowledgeKiln.L1.Git
