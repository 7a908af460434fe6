import KnowledgeKiln.L1Ingest.GitCredentials

/-!
# The clone of a git source (ingestion/connectors.py)

`GitConnector._clone` makes three decisions about one string: which URL a
repository entry stands for (`resolveRepoUrl`), whether a user name is put into
it (`shouldInjectOauthUserinfo`, `injectUsername`), and which environment `git`
runs in (`subprocessEnv`). Only the second looks at the host.

* `githubHttps_resolve_shorthand`: `owner/name` always stands for a `github.com` URL.
* `githubHttps_cloneUrl`: putting a user name into a URL leaves its scheme and
  host alone.
* `token_scoped_iff`: when the askpass helper and the token reach the child
  for `github.com` URLs only.
-/
namespace KnowledgeKiln.L1.Git

open KnowledgeKiln.Core

/-- The fields of `GitSource` that `_clone` reads (sources.py). -/
structure GitSource where
  repo : Str
  branch : Str := "main"

/-- `repo` is `owner/name` and not a URL, as `_resolve_repo_url` sees it. -/
def isShorthand (repo : Str) : Bool :=
  !(contains repo "://" || startsWith repo "file:" || startsWith repo "git@")

/-- Mirrors `_resolve_repo_url` (connectors.py:307-311). -/
def resolveRepoUrl (repo : Str) : Str :=
  if isShorthand repo then "https://github.com/" ++ repo ++ ".git" else repo

/-- Mirrors `_inject_username` (connectors.py:314-328). -/
def injectUsername (url username : Str) : Str :=
  match cut "://" url with
  | none => url
  | some (scheme, rest) =>
    if rest = [] ∨ '@' ∈ (partition rest '/').1 then url
    else scheme ++ "://" ++ (username ++ '@' :: rest)

/-- The URL handed to `git clone` (connectors.py:256-267). -/
def cloneUrl (credentials : Option GitCredentials) (repo : Str) : Str :=
  let url := resolveRepoUrl repo
  match credentials with
  | none => url
  | some creds =>
    if creds.token.isSome && shouldInjectOauthUserinfo url then injectUsername url "oauth2"
    else url

/-- One run of `git clone`: its arguments and its environment. -/
structure CloneCall where
  url : Str
  branch : Str
  target : Str
  env : Environ

def CloneCall.cmd (c : CloneCall) : List Str :=
  ["git".toList, "clone".toList, "--depth=1".toList, "--branch".toList, c.branch,
    "--single-branch".toList, "--no-tags".toList, "--".toList, c.url, c.target]

/-- Mirrors `GitConnector._clone` up to `subprocess.run` (connectors.py:255-288). -/
def clone (credentials : Option GitCredentials) (environ : Environ) (source : GitSource)
    (target : Str) : CloneCall :=
  { url := cloneUrl credentials source.repo
    branch := source.branch
    target := target
    env := subprocessEnv credentials environ }

/-! ## What the token may be offered to -/

/-- The URL's scheme is `https` and its authority names `github.com` or `www.github.com`. -/
def GithubHttps (url : Str) : Prop :=
  Url.scheme url = some "https".toList ∧ ∃ h ∈ githubHosts, Url.host url = some h

instance (url : Str) : Decidable (GithubHttps url) := inferInstanceAs (Decidable (_ ∧ _))

/-- The askpass variables reach `git` for `github.com` URLs only, so that no other host's
password prompt is answered with the token. -/
structure TokenScoped (creds : GitCredentials) (c : CloneCall) : Prop where
  environment : (c.env gitAskpass).isSome = true ∨ (c.env kilnGitToken).isSome = true →
    GithubHttps c.url
  prompts : ∀ prompt, startsWith prompt "Password" = true →
    answerPrompt creds c.env prompt = creds.token → GithubHttps c.url

/-- The source entry stands for a `github.com` repository over `https`. -/
def GithubRepo (repo : Str) : Prop := isShorthand repo = true ∨ GithubHttps repo

/-! ## Scheme and host of the cloned URL -/

theorem githubHttps_resolve_shorthand {repo : Str} (h : isShorthand repo = true) :
    GithubHttps (resolveRepoUrl repo) := by
  have hc : cut "://" (resolveRepoUrl repo) =
      some ("https".toList, "github.com/".toList ++ (repo ++ ".git".toList)) := by
    rw [resolveRepoUrl, if_pos h, List.append_assoc]
    rfl
  refine ⟨?_, "github.com".toList, by decide, ?_⟩
  · rw [Url.scheme, hc]
    rfl
  · rw [Url.host, hc]
    rfl

theorem githubHttps_resolveRepoUrl (repo : Str) :
    GithubHttps (resolveRepoUrl repo) ↔ GithubRepo repo := by
  unfold GithubRepo
  by_cases h : isShorthand repo = true
  · simp [h, githubHttps_resolve_shorthand h]
  · rw [resolveRepoUrl, if_neg h]
    simp [h]

/-- A character before the first `/`, `?` or `#` stands before the first `/`. -/
theorem mem_partition_of_mem_netloc {c : Char} : ∀ {s : Str}, c ∈ (Url.splitNetloc s).1 →
    c ∈ (partition s '/').1
  | [], h => by cases h
  | d :: s, h => by
    simp only [Url.splitNetloc, partition] at h ⊢
    by_cases hd : d = '/'
    · subst hd
      simp [Url.endsAuthority] at h
    · rw [List.takeWhile_cons_of_pos (by simpa using hd)]
      by_cases he : Url.endsAuthority d = true
      · simp [he] at h
      · rw [List.takeWhile_cons_of_pos (by simpa using he)] at h
        rcases List.mem_cons.mp h with rfl | h
        · exact List.mem_cons_self
        · exact List.mem_cons_of_mem _ (mem_partition_of_mem_netloc h)

theorem githubHttps_injectUsername {username : Str}
    (hu : ∀ c ∈ username, Url.endsAuthority c = false) (url : Str) :
    GithubHttps (injectUsername url username) ↔ GithubHttps url := by
  unfold injectUsername
  split
  · rfl
  · rename_i scheme rest hc
    split
    · rfl
    · rename_i hrest
      obtain ⟨_, hat⟩ := not_or.mp hrest
      have hhost := Url.host_userinfo hc hu fun hm => hat (mem_partition_of_mem_netloc hm)
      have hscheme : Url.scheme (scheme ++ "://" ++ (username ++ '@' :: rest)) =
          Url.scheme url := by
        rw [Url.scheme, Url.scheme, cut_append (by decide) _ hc, hc]
        rfl
      unfold GithubHttps
      rw [hscheme, hhost]

theorem oauth2_in_authority : ∀ c ∈ ("oauth2" : Str), Url.endsAuthority c = false := by
  intro c hc
  have hall : ("oauth2" : Str).all (fun c => !Url.endsAuthority c) = true := by decide
  simpa using List.all_eq_true.mp hall c hc

/-- The URL that is cloned names the host the source entry stands for. -/
theorem githubHttps_cloneUrl (credentials : Option GitCredentials) (repo : Str) :
    GithubHttps (cloneUrl credentials repo) ↔ GithubRepo repo := by
  rw [← githubHttps_resolveRepoUrl repo]
  unfold cloneUrl
  cases credentials with
  | none => rfl
  | some creds =>
    dsimp only
    split
    · exact githubHttps_injectUsername oauth2_in_authority _
    · rfl

/-! ## The scope of the token -/

/-- The askpass variables of a child process do not depend on the URL. -/
theorem environment_iff {creds : GitCredentials} (environ : Environ)
    (ht : creds.token.isSome = true) :
    ((subprocessEnv (some creds) environ gitAskpass).isSome = true ∨
        (subprocessEnv (some creds) environ kilnGitToken).isSome = true) ↔
      creds.askpassScriptPath.isSome = true ∨ (environ gitAskpass).isSome = true ∨
        (environ kilnGitToken).isSome = true := by
  rw [subprocessEnv_askpass environ ht, subprocessEnv_token environ ht]
  cases creds.askpassScriptPath with
  | none => simp
  | some path => simp

/-- **Scope of the git token.** With a token in the bundle, a clone keeps the askpass variables
from hosts other than GitHub exactly when the source is a GitHub one, or when no helper is
installed and the worker's own environment has neither variable. -/
theorem token_scoped_iff (creds : GitCredentials) (environ : Environ) (source : GitSource)
    (target : Str) (ht : creds.token.isSome = true) :
    TokenScoped creds (clone (some creds) environ source target) ↔
      GithubRepo source.repo ∨ (creds.askpassScriptPath = none ∧
        environ gitAskpass = none ∧ environ kilnGitToken = none) := by
  have hurl : GithubHttps (clone (some creds) environ source target).url ↔
      GithubRepo source.repo := githubHttps_cloneUrl (some creds) source.repo
  have hvars : (((clone (some creds) environ source target).env gitAskpass).isSome = true ∨
      ((clone (some creds) environ source target).env kilnGitToken).isSome = true) ↔ _ :=
    environment_iff environ ht
  constructor
  · rintro ⟨hv, _⟩
    by_cases h : creds.askpassScriptPath.isSome = true ∨ (environ gitAskpass).isSome = true ∨
        (environ kilnGitToken).isSome = true
    · exact .inl (hurl.mp (hv (hvars.mpr h)))
    · simp only [not_or, Bool.not_eq_true, Option.isSome_eq_false_iff, Option.isNone_iff_eq_none]
        at h
      exact .inr h
  · rintro (h | ⟨h1, h2, h3⟩)
    · exact ⟨fun _ => hurl.mpr h, fun _ _ _ => hurl.mpr h⟩
    · have hno : ¬ (((clone (some creds) environ source target).env gitAskpass).isSome = true ∨
          ((clone (some creds) environ source target).env kilnGitToken).isSome = true) := by
        rw [hvars]
        simp [h1, h2, h3]
      refine ⟨fun hv => absurd hv hno, fun prompt _ ha => ?_⟩
      -- an answered prompt means that the helper is named in the environment
      have hn : (clone (some creds) environ source target).env gitAskpass = none := by
        simpa using (not_or.mp hno).1
      rw [answerPrompt, hn] at ha
      rw [← ha] at ht
      cases ht

/-- A worker with a token, as `install_at_startup` leaves it. -/
def deployed : GitCredentials := installAtStartup { token := some "ghp_token" } "/home/vcap"

/-- A source on another host. -/
def gitlabSource : GitSource := { repo := "https://gitlab.internal/team/repo.git" }

/-- The helper is named in the environment of the clone, and answers the other host's prompt. -/
theorem token_offered_to_gitlab :
    ¬ TokenScoped deployed (clone (some deployed) (fun _ => none) gitlabSource "/tmp/repo") ∧
    answerPrompt deployed (clone (some deployed) (fun _ => none) gitlabSource "/tmp/repo").env
      "Password for gitlab.internal: " = deployed.token := by
  refine ⟨fun h => ?_, by decide⟩
  have hg : GithubHttps (cloneUrl (some deployed) gitlabSource.repo) := h.environment (by decide)
  revert hg
  decide

theorem token_scoped_shorthand :
    TokenScoped deployed
      (clone (some deployed) (fun _ => none) { repo := "org/docs" } "/tmp/repo") :=
  (token_scoped_iff deployed (fun _ => none) { repo := "org/docs" } "/tmp/repo" (by decide)).mpr
    (.inl (.inl (by decide)))

end KnowledgeKiln.L1.Git
