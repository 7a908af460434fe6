import KnowledgeKiln.L1Ingest.GitCredentials

/-!
# Which URLs are GitHub's

`should_inject_oauth_userinfo` cuts at the first `@` before it cuts at the first `/`, so that the
first `@` of a path, or of user information that has several, moves the host.

* `hostAt_iff`: what the function accepts behind that `@`.
* `hostAt_append`: the same in front of an authority's end.
* `inject_agrees_iff`: the URLs on which the function agrees with the URL grammar.
* `path_host_accepted`: a host of one's choice with `@github.com` in the path.
-/
namespace KnowledgeKiln.L1.Git

open KnowledgeKiln.Core

/-- The schemes the function accepts. -/
def httpSchemes : List Str := ["http".toList, "https".toList]

/-- The scheme is `http` or `https`, and the authority names GitHub. -/
def GithubHttp (url : Str) : Prop :=
  (∃ s ∈ httpSchemes, Url.scheme url = some s) ∧ ∃ h ∈ githubHosts, Url.host url = some h

/-- The text begins with a GitHub host, behind which it ends or goes on with a slash or a colon. -/
def HostAt (v : Str) : Prop :=
  ∃ g x, v = g ++ x ∧ lower g ∈ githubHosts ∧
    (x = [] ∨ x.head? = some '/' ∨ x.head? = some ':')

/-- The first `@` of what follows the scheme ends the user information, or there is none. -/
def FirstAtEndsUserinfo (rest : Str) : Prop :=
  '@' ∉ rest ∨ (Url.splitNetloc rest).1.count '@' = 1

/-- How what follows the scheme has to be written. -/
def ReadsHost (rest : Str) : Prop :=
  let (netloc, tail) := Url.splitNetloc rest
  (FirstAtEndsUserinfo rest →
    ¬(lower (Url.hostinfo netloc) ∈ githubHosts ∧
      (tail.head? = some '?' ∨ tail.head? = some '#'))) ∧
  (¬FirstAtEndsUserinfo rest →
    (Url.hostname netloc ∈ githubHosts ↔ HostAt (partition rest '@').2))

/-! ## Characters of a host -/

section
variable {c : Char} {g v w tail rest url : Str}

/-- Delimiters have no case. -/
theorem mem_lower_of_mem (hc : lowerChar c = [c]) (h : c ∈ g) : c ∈ lower g :=
  List.mem_flatMap.mpr ⟨c, h, by rw [hc]; exact List.mem_cons_self⟩

theorem not_mem_of_github (hc : lowerChar c = [c]) (hall : ∀ h ∈ githubHosts, c ∉ h)
    (hg : lower g ∈ githubHosts) : c ∉ g :=
  fun h => hall _ hg (mem_lower_of_mem hc h)

/-- A GitHub host has none of the characters that end a host. -/
theorem github_chars (hg : lower g ∈ githubHosts) : ∀ c ∈ g, c ≠ '/' ∧ c ≠ '?' ∧ c ≠ '#' ∧ c ≠ ':' ∧
    c ≠ '@' := by
  intro c hc
  refine ⟨?_, ?_, ?_, ?_, ?_⟩
  all_goals
    rintro rfl
    exact not_mem_of_github (by decide) (by decide) hg hc

theorem cut_singleton : ∀ {s : Str}, cut [c] s = if c ∈ s then some (partition s c) else none
  | [] => rfl
  | d :: s => by
    unfold cut
    by_cases hd : d = c
    · subst hd
      simp [partition, List.isPrefixOf]
    · have hp : ([c] : Str).isPrefixOf (d :: s) = false := by
        simp [List.isPrefixOf, Ne.symm hd]
      rw [hp, if_neg Bool.false_ne_true, cut_singleton]
      by_cases hc : c ∈ s
      · simp [hc, partition, hd]
      · simp [hc, Ne.symm hd]

/-- Up to the first slash or colon. -/
def hostEnd (c : Char) : Bool := c == '/' || c == ':'

theorem partition_partition :
    (partition (partition v '/').1 ':').1 = v.takeWhile (!hostEnd ·) := by
  simp only [partition, List.takeWhile_takeWhile]
  congr 1
  funext c
  by_cases h1 : c = '/' <;> by_cases h2 : c = ':' <;> simp [hostEnd, h1, h2]

/-- What the function accepts behind the `@` it cuts at. -/
theorem hostAt_iff : HostAt v ↔ lower (partition (partition v '/').1 ':').1 ∈ githubHosts := by
  rw [partition_partition]
  constructor
  · rintro ⟨g, x, rfl, hg, hx⟩
    have hfree : ∀ c ∈ g, (!hostEnd c) = true := fun c hc => by
      obtain ⟨hslash, -, -, hcolon, -⟩ := github_chars hg c hc
      simp [hostEnd, hslash, hcolon]
    have hnone : x.takeWhile (!hostEnd ·) = [] := by
      cases x with
      | nil => rfl
      | cons c x =>
        refine List.takeWhile_cons_of_neg ?_
        rcases hx with hx | hx | hx
        · cases hx
        · cases hx
          decide
        · cases hx
          decide
    rwa [List.takeWhile_append_of_pos hfree, hnone, List.append_nil]
  · intro h
    refine ⟨_, v.dropWhile (!hostEnd ·), (List.takeWhile_append_dropWhile ..).symm, h, ?_⟩
    cases hx : v.dropWhile (!hostEnd ·) with
    | nil => exact .inl rfl
    | cons c x =>
      have hstop := List.head?_dropWhile_not (!hostEnd ·) v
      rw [hx] at hstop
      simp only [List.head?_cons, Bool.not_eq_false', hostEnd, Bool.or_eq_true, beq_iff_eq] at hstop
      exact .inr (hstop.imp (congrArg some) (congrArg some))

/-- A GitHub host in front of the end of an authority without user information. -/
theorem hostAt_append (hw : ∀ c ∈ w, Url.endsAuthority c = false)
    (htail : ∀ c ∈ tail.head?, Url.endsAuthority c = true) :
    HostAt (w ++ tail) ↔ lower (partition w ':').1 ∈ githubHosts ∧
      ¬(lower w ∈ githubHosts ∧ (tail.head? = some '?' ∨ tail.head? = some '#')) := by
  rw [hostAt_iff, partition_partition]
  have hslash : ∀ c ∈ w, c ≠ '/' := fun c hc he => by
    have := hw c hc
    rw [he] at this
    cases this
  by_cases hcolon : ':' ∈ w
  · have hlong : lower w ∉ githubHosts := fun h => (github_chars h ':' hcolon).2.2.2.1 rfl
    obtain ⟨u, x, rfl, hu⟩ := List.eq_append_cons_of_mem hcolon
    have hfree : ∀ c ∈ u, (!hostEnd c) = true := fun c hc => by
      have hne : c ≠ ':' := ne_of_mem_of_not_mem hc hu
      simp [hostEnd, hslash c (List.mem_append_left _ hc), hne]
    have hstop : ((u ++ ':' :: x) ++ tail).takeWhile (!hostEnd ·) = u := by
      rw [List.append_assoc, List.takeWhile_append_of_pos hfree, List.cons_append,
        List.takeWhile_cons_of_neg (by decide), List.append_nil]
    rw [hstop, Url.partition_of_not_mem hu]
    simp [hlong]
  · have hfree : ∀ c ∈ w, (!hostEnd c) = true := fun c hc => by
      have hne : c ≠ ':' := ne_of_mem_of_not_mem hc hcolon
      simp [hostEnd, hslash c hc, hne]
    have hhost : (partition w ':').1 = w :=
      List.takeWhile_eq_self_iff.mpr fun c hc => by
        simpa using ne_of_mem_of_not_mem hc hcolon
    rw [List.takeWhile_append_of_pos hfree, hhost]
    cases tail with
    | nil => simp
    | cons d tail =>
      have hd : Url.endsAuthority d = true := htail d rfl
      simp only [Url.endsAuthority, Bool.or_eq_true, beq_iff_eq] at hd
      rcases hd with (rfl | rfl) | rfl
      · rw [List.takeWhile_cons_of_neg (by decide), List.append_nil]
        simp
      · rw [List.takeWhile_cons_of_pos (by decide)]
        have hno : ∀ t, lower (w ++ '?' :: t) ∉ githubHosts := fun t h =>
          (github_chars h '?' (by simp)).2.1 rfl
        simp [hno]
      · rw [List.takeWhile_cons_of_pos (by decide)]
        have hno : ∀ t, lower (w ++ '#' :: t) ∉ githubHosts := fun t h =>
          (github_chars h '#' (by simp)).2.2.1 rfl
        simp [hno]

/-! ## Behind the scheme -/

/-- The host part of the function. -/
def acceptsHost (rest : Str) : Bool :=
  let hostAndPath := ((cut "@" rest).map Prod.snd).getD rest
  decide (lower (partition (partition hostAndPath '/').1 ':').1 ∈ githubHosts)

theorem acceptsHost_of_at (h : '@' ∈ rest) :
    acceptsHost rest = true ↔ HostAt (partition rest '@').2 := by
  have hcut : cut "@".toList rest = some (partition rest '@') := cut_singleton.trans (if_pos h)
  rw [acceptsHost, hcut, hostAt_iff]
  simp

theorem acceptsHost_of_no_at (h : '@' ∉ rest) : acceptsHost rest = true ↔ HostAt rest := by
  have hcut : cut "@".toList rest = none := cut_singleton.trans (if_neg h)
  rw [acceptsHost, hcut, hostAt_iff]
  simp

theorem netloc_append (rest : Str) :
    (Url.splitNetloc rest).1 ++ (Url.splitNetloc rest).2 = rest :=
  List.takeWhile_append_dropWhile ..

theorem netloc_chars (rest : Str) : ∀ c ∈ (Url.splitNetloc rest).1, Url.endsAuthority c = false :=
  fun c hc => by simpa using List.mem_takeWhile_imp hc

theorem tail_head (rest : Str) :
    ∀ c ∈ (Url.splitNetloc rest).2.head?, Url.endsAuthority c = true := by
  intro c hc
  have hstop := List.head?_dropWhile_not (!Url.endsAuthority ·) rest
  have hc : (rest.dropWhile (!Url.endsAuthority ·)).head? = some c := hc
  rw [hc] at hstop
  simpa using hstop

/-- With the `@` in its place, the host is missed where `?` or `#` follows it directly. -/
theorem accepts_iff_missed (hw : ∀ c ∈ w, Url.endsAuthority c = false)
    (htail : ∀ c ∈ tail.head?, Url.endsAuthority c = true) :
    (HostAt (w ++ tail) ↔ lower (partition w ':').1 ∈ githubHosts) ↔
      ¬(lower w ∈ githubHosts ∧ (tail.head? = some '?' ∨ tail.head? = some '#')) := by
  rw [hostAt_append hw htail]
  constructor
  · intro h hmissed
    have hfree : ∀ c ∈ w, (c != ':') = true := fun c hc => by
      simpa using (github_chars hmissed.1 c hc).2.2.2.1
    have hhost : (partition w ':').1 = w := List.takeWhile_eq_self_iff.mpr hfree
    rw [hhost] at h
    exact (h.mpr hmissed.1).2 hmissed
  · exact fun h => ⟨And.left, fun hhost => ⟨hhost, h⟩⟩

/-- **Behind the scheme.** -/
theorem acceptsHost_agrees_iff (rest : Str) :
    (acceptsHost rest = true ↔ Url.hostname (Url.splitNetloc rest).1 ∈ githubHosts) ↔
      ReadsHost rest := by
  unfold ReadsHost
  have happ := netloc_append rest
  have hchars := netloc_chars rest
  have hhead := tail_head rest
  by_cases hfirst : FirstAtEndsUserinfo rest
  · simp only [hfirst, true_imp_iff, not_true_eq_false, false_imp_iff, and_true]
    rcases hfirst with hno | hone
    · have hno' : '@' ∉ (Url.splitNetloc rest).1 := fun h => hno (by
        rw [← happ]
        exact List.mem_append_left _ h)
      rw [acceptsHost_of_no_at hno, Url.hostname, Url.hostinfo_of_not_mem hno',
        ← accepts_iff_missed hchars hhead, happ]
    · obtain ⟨u, w, hnet, hu⟩ := List.eq_append_cons_of_mem
        (List.count_pos_iff.mp (by rw [hone]; decide))
      have hw : '@' ∉ w := fun h => by
        have hpos := List.count_pos_iff.mpr h
        rw [hnet, List.count_append, List.count_cons_self] at hone
        omega
      have hrest : rest = u ++ '@' :: (w ++ (Url.splitNetloc rest).2) := by
        conv_lhs => rw [← happ, hnet]
        simp
      have hat : '@' ∈ rest := by
        rw [hrest]
        simp
      have hbehind : (partition rest '@').2 = w ++ (Url.splitNetloc rest).2 := by
        conv_lhs => rw [hrest]
        rw [Url.partition_of_not_mem hu]
      rw [acceptsHost_of_at hat, hbehind, hnet, Url.hostname, Url.hostinfo_userinfo u hw,
        ← accepts_iff_missed (fun c hc => hchars c (by simp [hnet, hc])) hhead]
  · have hat : '@' ∈ rest := by
      by_contra hno
      exact hfirst (.inl hno)
    simp only [hfirst, false_imp_iff, not_false_eq_true, true_imp_iff, true_and]
    rw [acceptsHost_of_at hat]
    exact Iff.comm

/-! ## The whole URL -/

/-- The two prefixes the function looks for are the schemes it accepts. -/
theorem startsWith_iff {scheme : Str} (hs : scheme ∈ httpSchemes) :
    startsWith url (scheme ++ "://") = true ↔ ∃ rest, cut "://" url = some (scheme, rest) := by
  constructor
  · intro h
    obtain ⟨rest, hrest⟩ := List.isPrefixOf_iff_prefix.mp h
    have hbare : ∀ s ∈ httpSchemes, cut "://" (s ++ "://") = some (s, []) := by decide
    refine ⟨rest, ?_⟩
    rw [← hrest]
    exact cut_append (by decide) rest (hbare scheme hs)
  · rintro ⟨rest, h⟩
    rw [cut_eq h]
    exact List.isPrefixOf_iff_prefix.mpr (List.prefix_append _ _)

theorem shouldInject_iff : shouldInjectOauthUserinfo url = true ↔
    ∃ scheme rest, cut "://" url = some (scheme, rest) ∧ scheme ∈ httpSchemes ∧
      acceptsHost rest = true := by
  have hstart : (startsWith url "http://" = true ∨ startsWith url "https://" = true) ↔
      ∃ scheme rest, cut "://" url = some (scheme, rest) ∧ scheme ∈ httpSchemes := by
    have hhttp := @startsWith_iff url "http" (by decide)
    have hhttps := @startsWith_iff url "https" (by decide)
    constructor
    · rintro (h | h)
      · obtain ⟨rest, hrest⟩ := hhttp.mp h
        exact ⟨_, rest, hrest, by decide⟩
      · obtain ⟨rest, hrest⟩ := hhttps.mp h
        exact ⟨_, rest, hrest, by decide⟩
    · rintro ⟨scheme, rest, hcut, hs⟩
      rcases List.mem_pair.mp hs with rfl | rfl
      · exact .inl (hhttp.mpr ⟨rest, hcut⟩)
      · exact .inr (hhttps.mpr ⟨rest, hcut⟩)
  unfold shouldInjectOauthUserinfo
  by_cases h : startsWith url "http://" = true ∨ startsWith url "https://" = true
  · obtain ⟨scheme, rest, hcut, hs⟩ := hstart.mp h
    have hpass : (!startsWith url "http://" && !startsWith url "https://") = false := by
      rcases h with h | h
      · rw [h]
        rfl
      · rw [h, Bool.not_true, Bool.and_false]
    simp only [hpass, Bool.false_eq_true, if_false, hcut, Option.map_some, Option.getD_some]
    constructor
    · exact fun hacc => ⟨scheme, rest, rfl, hs, hacc⟩
    · rintro ⟨_, _, he, -, hacc⟩
      cases he
      exact hacc
  · have hstop : (!startsWith url "http://" && !startsWith url "https://") = true := by
      simpa [not_or] using h
    rw [if_pos hstop]
    constructor
    · nofun
    · rintro ⟨scheme, rest, hcut, hs, -⟩
      exact absurd (hstart.mpr ⟨scheme, rest, hcut, hs⟩) h

theorem githubHttp_iff : GithubHttp url ↔
    ∃ scheme rest, cut "://" url = some (scheme, rest) ∧ lower scheme ∈ httpSchemes ∧
      Url.hostname (Url.splitNetloc rest).1 ∈ githubHosts := by
  unfold GithubHttp Url.scheme Url.host
  cases cut "://" url with
  | none => simp
  | some p =>
    obtain ⟨scheme, rest⟩ := p
    constructor
    · rintro ⟨⟨s, hs, he⟩, h, hh, he'⟩
      cases he
      cases he'
      exact ⟨scheme, rest, rfl, hs, hh⟩
    · rintro ⟨_, _, he, hs, hh⟩
      cases he
      exact ⟨⟨_, hs, rfl⟩, _, hh, rfl⟩

end

/-- **GitHub's URLs.** The function agrees with the URL grammar on every URL whose scheme is not
HTTP; on one whose scheme is, in capitals, if it is not GitHub's; on one with `http` or `https`, if
its host is written so that it is read. -/
theorem inject_agrees_iff (url : Str) :
    (shouldInjectOauthUserinfo url = true ↔ GithubHttp url) ↔
      ∀ scheme rest, cut "://" url = some (scheme, rest) → lower scheme ∈ httpSchemes →
        if scheme ∈ httpSchemes then ReadsHost rest
        else Url.hostname (Url.splitNetloc rest).1 ∉ githubHosts := by
  rw [shouldInject_iff, githubHttp_iff]
  cases hcut : cut "://" url with
  | none => simp
  | some p =>
    obtain ⟨scheme, rest⟩ := p
    have hexists : ∀ {P : Str → Str → Prop},
        (∃ s r, some (scheme, rest) = some (s, r) ∧ P s r) ↔ P scheme rest := by
      intro P
      constructor
      · rintro ⟨_, _, he, h⟩
        cases he
        exact h
      · exact fun h => ⟨_, _, rfl, h⟩
    have hforall : ∀ {P : Str → Str → Prop},
        (∀ s r, some (scheme, rest) = some (s, r) → P s r) ↔ P scheme rest := by
      intro P
      constructor
      · exact fun h => h _ _ rfl
      · rintro h _ _ he
        cases he
        exact h
    rw [hexists, hexists, hforall]
    by_cases hs : scheme ∈ httpSchemes
    · have hlower : ∀ s ∈ httpSchemes, lower s ∈ httpSchemes := by decide
      rw [if_pos hs, ← acceptsHost_agrees_iff]
      simp [hs, hlower scheme hs]
    · rw [if_neg hs]
      simp only [hs, false_and, false_iff, not_and]

/-- `oauth2` in front of the host, with a port and a path. -/
example : shouldInjectOauthUserinfo "https://oauth2@www.GitHub.com:443/org/repo.git" = true := by
  decide

/-- A host of one's choice, with GitHub's in the path, gets the token. -/
theorem path_host_accepted :
    shouldInjectOauthUserinfo "https://evil.example/@github.com" = true ∧
      ¬GithubHttp "https://evil.example/@github.com" ∧
      ¬(shouldInjectOauthUserinfo "https://evil.example/@github.com" = true ↔
        GithubHttp "https://evil.example/@github.com") := by
  have hyes : shouldInjectOauthUserinfo "https://evil.example/@github.com" = true := by decide
  have hno : ¬GithubHttp "https://evil.example/@github.com" := by
    unfold GithubHttp
    decide
  exact ⟨hyes, hno, fun h => hno (h.mp hyes)⟩

end KnowledgeKiln.L1.Git
