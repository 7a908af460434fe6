import KnowledgeKiln.Core.Substitution
import KnowledgeKiln.L1Ingest.GithubHost

/-!
# Credentials in error messages

`redact_credentials` replaces the user information of URLs by a pattern, and then every copy of
the token. The pattern asks for a user name, and ends at the first `@`; user information may have
none, and ends at the last one. A password is followed through both passes by marks on its
characters.

* `userinfoAt_iff`: the texts that the pattern matches.
* `leaves_password`: what the pattern leaves of a password.
* `hidden_iff`: and the token pass behind it.
* `redact_credentials_iff`: the texts whose passwords do not survive.
* `user_missing_survives`: a password without a user name.
-/
namespace KnowledgeKiln.L1.Git

open KnowledgeKiln.Core Subst

/-! ## The code -/

/-- `[^:/@\s]` -/
def isUserChar (c : Char) : Bool := c != ':' && c != '/' && c != '@' && !isSpace c

/-- `[^@\s]` -/
def isPassChar (c : Char) : Bool := c != '@' && !isSpace c

/-- What `https?://` matches. -/
def literals : List Str := ["https://".toList, "http://".toList]

/-- `(https?://)`: how long it is. -/
def schemeAt (s : Str) : Option Nat := (literals.find? (startsWith s)).map List.length

/-- `_URL_USERINFO_RE`: how far a match at the beginning reaches. Each class excludes the
delimiter behind it, so there is one way to match. -/
def userinfoAt (s : Str) : Option Nat := do
  let g ← schemeAt s
  let (user, rest) ← field isUserChar ':' (s.drop g)
  let (pass, _) ← field isPassChar '@' rest
  if user = [] ∨ pass = [] then none else some (g + user.length + 1 + pass.length + 1)

section
variable {α : Type} [Glyph α]

/-- `\1REDACTED@` -/
def redacted (m : List α) : List α := m.take ((schemeAt (chars m)).getD 0) ++ fresh "REDACTED@"

/-- `if token: out = out.replace(token, "***")` -/
def redactToken (token : Option Str) (out : List α) : List α :=
  match token with
  | some (c :: token) => replace (c :: token) "***" out
  | _ => out

/-- `redact_credentials` -/
def redactCredentials (text : List α) (token : Option Str) : List α :=
  redactToken token (subst userinfoAt redacted 0 text)

end

example : redactCredentials "clone https://me:pw@github.com/x with tok failed".toList
    (some "tok") = "clone https://REDACTED@github.com/x with *** failed".toList := by
  decide +kernel

/-! ## The pattern -/

/-- What a match has in front of its `@`. -/
structure Userinfo (literal user pass : Str) : Prop where
  literal : literal ∈ literals
  user_ne : user ≠ []
  user_chars : ∀ c ∈ user, isUserChar c = true
  pass_ne : pass ≠ []
  pass_chars : ∀ c ∈ pass, isPassChar c = true

section
variable {literal user pass s : Str} {n : Nat}

theorem schemeAt_literal (h : literal ∈ literals) (rest : Str) :
    schemeAt (literal ++ rest) = some literal.length := by
  rcases List.mem_pair.mp h with rfl | rfl
  · rfl
  · rfl

theorem schemeAt_some (h : schemeAt s = some n) :
    ∃ literal ∈ literals, ∃ rest, s = literal ++ rest ∧ n = literal.length := by
  obtain ⟨literal, hfind, rfl⟩ := Option.map_eq_some_iff.mp h
  have hstart : startsWith s literal = true := List.find?_some hfind
  obtain ⟨rest, hrest⟩ := List.isPrefixOf_iff_prefix.mp hstart
  exact ⟨literal, List.mem_of_find?_eq_some hfind, rest, hrest.symm, rfl⟩

theorem userinfoAt_of (h : Userinfo literal user pass) (rest : Str) :
    userinfoAt (literal ++ user ++ ':' :: pass ++ '@' :: rest) =
      some ((literal ++ user ++ ':' :: pass).length + 1) := by
  have hs : literal ++ user ++ ':' :: pass ++ '@' :: rest =
      literal ++ (user ++ ':' :: (pass ++ '@' :: rest)) := by simp
  have huser := field_append (d := ':') h.user_chars rfl (pass ++ '@' :: rest)
  have hpass := field_append (d := '@') h.pass_chars rfl rest
  have hne : ¬(user = [] ∨ pass = []) := not_or.mpr ⟨h.user_ne, h.pass_ne⟩
  unfold userinfoAt
  rw [hs, schemeAt_literal h.literal]
  simp only [Option.bind_eq_bind, Option.bind_some, List.drop_left, huser, hpass, hne, if_false]
  simp
  omega

theorem userinfoAt_some (h : userinfoAt s = some n) :
    ∃ literal user pass rest, s = literal ++ user ++ ':' :: pass ++ '@' :: rest ∧
      Userinfo literal user pass ∧ n = (literal ++ user ++ ':' :: pass).length + 1 := by
  unfold userinfoAt at h
  simp only [Option.bind_eq_bind, Option.bind_eq_some_iff, Prod.exists] at h
  obtain ⟨g, hg, user, s', hfirst, pass, rest, hsecond, h⟩ := h
  obtain ⟨literal, hlit, s'', rfl, rfl⟩ := schemeAt_some hg
  rw [List.drop_left] at hfirst
  obtain ⟨rfl, huser⟩ := field_eq hfirst
  obtain ⟨rfl, hpass⟩ := field_eq hsecond
  split at h
  · cases h
  · rename_i hne
    obtain ⟨hune, hpne⟩ := not_or.mp hne
    refine ⟨literal, user, pass, rest, by simp, ⟨hlit, hune, huser, hpne, hpass⟩, ?_⟩
    rw [← Option.some.inj h]
    simp
    omega

theorem not_mem_userinfo (h : Userinfo literal user pass) :
    '@' ∉ literal ++ user ++ ':' :: pass := by
  have hlit : '@' ∉ literal := by
    rcases List.mem_pair.mp h.literal with rfl | rfl
    · decide
    · decide
  have huser : '@' ∉ user := fun hc => nomatch h.user_chars _ hc
  have hpass : '@' ∉ pass := fun hc => nomatch h.pass_chars _ hc
  simp [hlit, huser, hpass]

theorem userinfoAt_ends : EndsAtFirst '@' userinfoAt := by
  intro s n h
  obtain ⟨literal, user, pass, rest, rfl, hinfo, rfl⟩ := userinfoAt_some h
  have hall : ∀ c ∈ literal ++ user ++ ':' :: pass, (c != '@') = true := by
    intro c hc
    simpa using ne_of_mem_of_not_mem hc (not_mem_userinfo hinfo)
  rw [List.takeWhile_append_of_pos hall, List.takeWhile_cons_of_neg (by decide), List.append_nil]

end

/-! ## A password in a text -/

/-- The characters of an authority that stands in a text. -/
def inAuthority (c : Char) : Bool := !Url.endsAuthority c && !isSpace c

/-- A URL with a password, where it stands in a text: its user information ends at the last `@` of
its authority. -/
structure UrlIn (text : Str) where
  before : Str
  scheme : Str
  user : Str
  password : Str
  after : Str
  isHttp : lower scheme ∈ httpSchemes
  user_chars : ∀ c ∈ user, inAuthority c = true ∧ c ≠ ':'
  password_chars : ∀ c ∈ password, inAuthority c = true
  last : '@' ∉ after.takeWhile inAuthority
  stands : before ++ (scheme ++ "://" ++ user ++ ':' :: password ++ '@' :: after) = text

namespace UrlIn

variable {text : Str} (u : UrlIn text)

/-- From its scheme on. -/
def own : Str := u.scheme ++ "://" ++ u.user ++ ':' :: u.password ++ '@' :: u.after

/-- The text, with the password followed. -/
def marked : List Marked :=
  mark false (u.before ++ (u.scheme ++ "://" ++ u.user ++ [':'])) ++
    (mark true u.password ++ mark false ('@' :: u.after))

/-- A character of the password is left in the output. -/
def Survives (token : Option Str) : Prop := ∃ m ∈ redactCredentials u.marked token, m.2 = true

/-- A match that begins before the URL reaches over it. -/
def Covered : Prop :=
  ∃ front back n, u.before = front ++ back ∧ back ≠ [] ∧ userinfoAt (back ++ u.own) = some n ∧
    back.length < n

/-- The user information is written so that the pattern matches at the URL. -/
def Plain : Prop := u.scheme ∈ httpSchemes ∧ u.user ≠ [] ∧ (partition u.password '@').1 ≠ []

end UrlIn

/-- Copies of the token, and nothing else. -/
def Copies (token : Option Str) (s : Str) : Prop :=
  ∃ k, s = (List.replicate k (token.getD [])).flatten

namespace UrlIn

variable {text : Str} (u : UrlIn text)

/-- The password is the token; or the pattern begins at the URL or before it, no `@` stands in
the user, and what stands in the password behind an `@` is the token. -/
def Cleared (token : Option Str) : Prop :=
  Copies token u.password ∨
    '@' ∉ u.user ∧ (u.Covered ∨ u.Plain) ∧ Copies token (partition u.password '@').2

end UrlIn

/-! ## What the pattern leaves -/

section
variable {literal user pass : Str}

/-- A literal ends with a slash, and begins with an `h`. -/
theorem literal_ends (h : literal ∈ literals) :
    (∃ x, literal = x ++ ['/']) ∧ literal.head? = some 'h' := by
  rcases List.mem_pair.mp h with rfl | rfl
  · exact ⟨⟨"https:/".toList, by decide⟩, by decide⟩
  · exact ⟨⟨"http:/".toList, by decide⟩, by decide⟩

theorem slash_mem_userinfo (h : Userinfo literal user pass) :
    '/' ∈ literal ++ user ++ ':' :: pass := by
  obtain ⟨⟨x, rfl⟩, -⟩ := literal_ends h.literal
  simp

theorem first_unique {d : Char} {a a' s s' : Str} (ha : d ∉ a) (ha' : d ∉ a')
    (h : a ++ d :: s = a' ++ d :: s') : a = a' ∧ s = s' := by
  have hcut := congrArg (fun t => partition t d) h
  simpa [Url.partition_of_not_mem ha, Url.partition_of_not_mem ha'] using hcut

/-- A stretch without a slash is kept: a match has one before its `@`. -/
theorem subst_no_slash {d : Marked} (hd : d.1 = '@') (y : List Marked) : ∀ {z : List Marked},
    '/' ∉ chars z → subst userinfoAt redacted 0 (z ++ d :: y) =
      z ++ d :: subst userinfoAt redacted 0 y := by
  have hnone : ∀ {z : List Marked}, '/' ∉ chars z → userinfoAt (chars (z ++ d :: y)) = none := by
    intro z hz
    cases h : userinfoAt (chars (z ++ d :: y)) with
    | none => rfl
    | some n =>
      obtain ⟨literal, user, pass, rest, hs, hinfo, -⟩ := userinfoAt_some h
      have hprefix : literal ++ user ++ ':' :: pass <+: chars z ++ '@' :: chars y := by
        refine ⟨'@' :: rest, ?_⟩
        rw [← hs, chars_append, chars_cons]
        exact congrArg (fun c => chars z ++ c :: chars y) hd
      have hin := prefix_of_not_mem (not_mem_userinfo hinfo) hprefix
      exact absurd (hin.subset (slash_mem_userinfo hinfo)) hz
  intro z
  induction z with
  | nil =>
    intro hz
    exact subst_none (hnone hz)
  | cons c z ih =>
    intro hz
    have hz' : '/' ∉ chars z := fun h => hz (List.mem_cons_of_mem _ h)
    have hstep : subst userinfoAt redacted 0 (c :: (z ++ d :: y)) =
        c :: subst userinfoAt redacted 0 (z ++ d :: y) := subst_none (hnone hz)
    rw [List.cons_append, hstep, ih hz', List.cons_append]

end

/-- The text behind the pass, and what it has of the password: nothing, or a stretch between two
separators. -/
def Leaves (out : List Marked) (l : Str) : Prop :=
  l = [] ∧ Unmarked out ∨
    ∃ front d d' back, Unmarked front ∧ Unmarked back ∧ d ∈ [':', '@'] ∧ d' ∈ [':', '@'] ∧
      out = front ++ (d, false) :: (mark true l ++ (d', false) :: back)

theorem redacted_unmarked : ∀ m : List Marked, Unmarked m → Unmarked (redacted m) := by
  intro m hm
  rw [redacted, unmarked_append, fresh_marked]
  exact ⟨fun c hc => hm c (List.mem_of_mem_take hc), unmarked_mark _⟩

theorem subst_unmarked {s : List Marked} (h : Unmarked s) :
    Unmarked (subst userinfoAt redacted 0 s) := subst_forall redacted_unmarked 0 h

/-- A text behind its last `@`. -/
theorem exists_last (s : Str) :
    ∃ x c, s = x ++ c ∧ '@' ∉ c ∧ (x = [] ∨ ∃ x', x = x' ++ ['@']) := by
  induction s with
  | nil => exact ⟨[], [], rfl, List.not_mem_nil, .inl rfl⟩
  | cons a s ih =>
    obtain ⟨x, c, rfl, hc, hx⟩ := ih
    rcases hx with rfl | ⟨x', rfl⟩
    · by_cases ha : a = '@'
      · exact ⟨['@'], c, by rw [ha]; rfl, hc, .inr ⟨[], rfl⟩⟩
      · exact ⟨[], a :: c, rfl, by simp [Ne.symm ha, hc], .inl rfl⟩
    · exact ⟨a :: (x' ++ ['@']), c, rfl, hc, .inr ⟨a :: x', rfl⟩⟩

namespace UrlIn

variable {text : Str} (u : UrlIn text)

/-- What the password has in front of its first `@`, and behind it. -/
abbrev first : Str := (partition u.password '@').1
abbrev second : Str := (partition u.password '@').2

/-- A URL up to the first `@` of its password. -/
def head : Str := u.scheme ++ "://" ++ u.user ++ ':' :: u.first

theorem slash_user : '/' ∉ u.user := by
  intro h
  cases (u.user_chars '/' h).1

theorem slash_password : '/' ∉ u.password := by
  intro h
  cases u.password_chars '/' h

theorem first_at : '@' ∉ u.first := by
  intro h
  simpa using List.mem_takeWhile_imp h

theorem slash_first : '/' ∉ u.first := fun h => u.slash_password ((List.takeWhile_subset _) h)

theorem lowerChar_ne_nil (c : Char) : lowerChar c ≠ [] := by
  unfold lowerChar
  split_ifs <;> exact List.cons_ne_nil _ _

/-- Behind its first letter, a scheme has no `h`. -/
theorem scheme_tail : ∃ a s, u.scheme = a :: s ∧ 'h' ∉ s := by
  have hhttp := u.isHttp
  cases hs : u.scheme with
  | nil =>
    rw [hs] at hhttp
    exact absurd hhttp (by decide)
  | cons a s =>
    refine ⟨a, s, rfl, ?_⟩
    intro hmem
    have hlower : 'h' ∈ lower s := mem_lower_of_mem (by decide) hmem
    obtain ⟨b, r, hb⟩ := List.exists_cons_of_ne_nil (lowerChar_ne_nil a)
    have hcons : lower u.scheme = b :: (r ++ lower s) := by
      rw [hs, lower, List.flatMap_cons, hb]
      rfl
    have hrest : 'h' ∈ r ++ lower s := List.mem_append_right r hlower
    rw [hcons] at hhttp
    rcases List.mem_pair.mp hhttp with h | h
    · rw [(List.cons.inj h).2] at hrest
      exact absurd hrest (by decide)
    · rw [(List.cons.inj h).2] at hrest
      exact absurd hrest (by decide)

theorem slash_body : '/' ∉ u.user ++ ':' :: u.first := by
  simp [u.slash_user, u.slash_first]

/-- A suffix of two texts begins in the second, or has it all. -/
theorem suffix_append_cases {t a b : Str} (h : t <:+ a ++ b) :
    t <:+ b ∨ ∃ c, c <:+ a ∧ t = c ++ b := by
  rcases List.suffix_or_suffix_of_suffix h (List.suffix_append a b) with ht | ⟨c, rfl⟩
  · exact .inl ht
  · obtain ⟨e, he⟩ := h
    rw [← List.append_assoc] at he
    exact .inr ⟨c, ⟨e, List.append_cancel_right he⟩, rfl⟩

/-- The literal of a match ends before the user, which has no slash. -/
theorem literal_length {literal user pass c : Str} (h : Userinfo literal user pass)
    (he : literal ++ user ++ ':' :: pass = c ++ u.head) :
    literal.length ≤ (c ++ (u.scheme ++ "://")).length := by
  by_contra hlen
  have hfront : c ++ (u.scheme ++ "://".toList) <+: literal := by
    have hleft : c ++ (u.scheme ++ "://".toList) <+: c ++ u.head :=
      ⟨u.user ++ ':' :: u.first, by simp [head]⟩
    have hright : literal <+: c ++ u.head := ⟨user ++ ':' :: pass, by rw [← he]; simp⟩
    exact List.prefix_of_prefix_length_le hleft hright (Nat.le_of_not_le hlen)
  obtain ⟨e, he'⟩ := hfront
  have hbody : e ++ (user ++ ':' :: pass) = u.user ++ ':' :: u.first := by
    rw [← he'] at he
    simpa [head] using he
  rcases List.eq_nil_or_concat e with rfl | ⟨e', z, rfl⟩
  · rw [List.append_nil] at he'
    rw [he'] at hlen
    exact hlen (Nat.le_refl _)
  · obtain ⟨⟨x, hx⟩, -⟩ := literal_ends h.literal
    rw [hx, List.concat_eq_append, ← List.append_assoc] at he'
    have hz : z = '/' := (List.cons.inj (List.append_inj' he' rfl).2).1
    have hmem : '/' ∈ u.user ++ ':' :: u.first := by
      rw [← hbody, hz]
      simp
    exact u.slash_body hmem

/-- A match that ends at the first `@` of the password begins at the scheme, or before it. -/
theorem match_of_suffix {literal user pass c : Str} (h : Userinfo literal user pass)
    (hsuffix : literal ++ user ++ ':' :: pass <:+ c ++ u.head) :
    ∃ c', c' <:+ c ∧ literal ++ user ++ ':' :: pass = c' ++ u.head := by
  rcases suffix_append_cases hsuffix with hsuffix | hfound
  · obtain ⟨a, s, hscheme, hs⟩ := u.scheme_tail
    have hhead : u.head = a :: ((s ++ "://") ++ (u.user ++ ':' :: u.first)) := by
      rw [head, hscheme]
      simp
    have hslash := slash_mem_userinfo h
    have hbegin : (literal ++ user ++ ':' :: pass).head? = some 'h' := by
      have hlit := (literal_ends h.literal).2
      cases literal with
      | nil => cases hlit
      | cons b literal => exact hlit
    rw [hhead] at hsuffix
    rcases List.suffix_cons_iff.mp hsuffix with he | hsuffix
    · exact ⟨[], List.nil_suffix, by rw [he, ← hhead]; rfl⟩
    · rcases suffix_append_cases hsuffix with hsuffix | ⟨q, hq, he⟩
      · exact absurd (hsuffix.subset hslash) u.slash_body
      · cases q with
        | nil =>
          rw [he] at hslash
          exact absurd hslash u.slash_body
        | cons b q =>
          rw [he] at hbegin
          cases hbegin
          rcases List.mem_append.mp (hq.subset List.mem_cons_self) with hh | hh
          · exact absurd hh hs
          · exact absurd hh (by decide)
  · exact hfound

theorem user_isUserChar (h : '@' ∉ u.user) : ∀ c ∈ u.user, isUserChar c = true := by
  intro c hc
  obtain ⟨hauth, hcolon⟩ := u.user_chars c hc
  have hat : c ≠ '@' := ne_of_mem_of_not_mem hc h
  have hslash : c ≠ '/' := ne_of_mem_of_not_mem hc u.slash_user
  simp only [inAuthority, Bool.and_eq_true, Bool.not_eq_true'] at hauth
  simp [isUserChar, hcolon, hat, hslash, hauth.2]

theorem first_isPassChar : ∀ c ∈ u.first, isPassChar c = true := by
  intro c hc
  have hauth := u.password_chars c ((List.takeWhile_subset _) hc)
  have hat : c ≠ '@' := ne_of_mem_of_not_mem hc u.first_at
  simp only [inAuthority, Bool.and_eq_true, Bool.not_eq_true'] at hauth
  simp [isPassChar, hat, hauth.2]

theorem colon_scheme : ':' ∉ u.scheme := by
  intro h
  have hlower : ':' ∈ lower u.scheme := mem_lower_of_mem (by decide) h
  exact absurd hlower ((by decide : ∀ s ∈ httpSchemes, ':' ∉ s) _ u.isHttp)

theorem at_head (h : '@' ∉ u.user) : '@' ∉ u.head := by
  have hscheme : '@' ∉ u.scheme := by
    intro h
    have hlower : '@' ∈ lower u.scheme := mem_lower_of_mem (by decide) h
    exact absurd hlower ((by decide : ∀ s ∈ httpSchemes, '@' ∉ s) _ u.isHttp)
  simp [head, hscheme, h, u.first_at]

/-- The first `@` of the password, or the one behind it. -/
theorem password_cases :
    (u.password = u.first ∧ u.second = []) ∨ u.password = u.first ++ '@' :: u.second := by
  by_cases h : '@' ∈ u.password
  · obtain ⟨a, b, hab, ha⟩ := List.eq_append_cons_of_mem h
    refine .inr ?_
    rw [first, second, hab, Url.partition_of_not_mem ha]
  · refine .inl ?_
    have hall : ∀ c ∈ u.password, (c != '@') = true := by
      intro c hc
      simpa using ne_of_mem_of_not_mem hc h
    have hfirst : u.first = u.password := List.takeWhile_eq_self_iff.mpr hall
    have hsecond : u.second = [] := by
      rw [second, partition, List.dropWhile_eq_nil_iff.mpr hall]
      rfl
    exact ⟨hfirst.symm, hsecond⟩

theorem own_eq : ∃ rest, u.own = u.head ++ '@' :: rest := by
  rcases u.password_cases with ⟨h, -⟩ | h
  · exact ⟨u.after, by rw [own, head, ← h]⟩
  · exact ⟨u.second ++ '@' :: u.after, by rw [own, head, h]; simp⟩

/-- A match in the piece that the first `@` of the password ends. -/
def MatchedIn (z : Str) : Prop :=
  ∃ literal user pass, Userinfo literal user pass ∧ literal ++ user ++ ':' :: pass <:+ z

/-- Whether the pattern matches at the URL, or before it and over it, is seen from the piece. -/
theorem hit_iff {x c : Str} (hat : '@' ∉ u.user) (hbefore : u.before = x ++ c)
    (hx : x = [] ∨ ∃ x', x = x' ++ ['@']) :
    u.Covered ∨ u.Plain ↔ MatchedIn (c ++ u.head) := by
  obtain ⟨rest, hown⟩ := u.own_eq
  have hhead := u.at_head hat
  constructor
  · rintro (⟨front, back, n, hfront, hne, hfind, hlen⟩ | ⟨hscheme, huser, hfirst⟩)
    · obtain ⟨literal, user, pass, rest', hs, hinfo, rfl⟩ := userinfoAt_some hfind
      have hnot := not_mem_userinfo hinfo
      have hback : back <+: literal ++ user ++ ':' :: pass :=
        List.prefix_of_prefix_length_le (List.prefix_append back u.own)
          ⟨'@' :: rest', hs.symm⟩ (Nat.le_of_lt_succ hlen)
      have hatback : '@' ∉ back := fun h => hnot (hback.subset h)
      have heq : back ++ u.head = literal ++ user ++ ':' :: pass := by
        refine (@first_unique '@' _ _ rest rest' ?_ hnot ?_).1
        · simp [hatback, hhead]
        · rw [← hs, hown, List.append_assoc]
      refine ⟨literal, user, pass, hinfo, ?_⟩
      rw [← heq]
      have hsuffix : back <:+ x ++ c := ⟨front, by rw [← hfront, hbefore]⟩
      rcases suffix_append_cases hsuffix with ⟨q, rfl⟩ | ⟨q, hq, rfl⟩
      · exact ⟨q, by simp⟩
      · rcases hx with rfl | ⟨x', rfl⟩
        · rw [List.suffix_nil.mp hq]
          exact List.suffix_rfl
        · rcases List.suffix_concat_iff.mp hq with rfl | ⟨q', rfl, -⟩
          · exact List.suffix_rfl
          · simp at hatback
    · refine ⟨u.scheme ++ "://", u.user, u.first, ?_, ?_⟩
      · exact ⟨(by decide : ∀ s ∈ httpSchemes, s ++ "://" ∈ literals) _ hscheme, huser,
          u.user_isUserChar hat, hfirst, u.first_isPassChar⟩
      · exact List.suffix_append c u.head
  · rintro ⟨literal, user, pass, hinfo, hsuffix⟩
    obtain ⟨c', ⟨q, rfl⟩, heq⟩ := u.match_of_suffix hinfo hsuffix
    cases c' with
    | nil =>
      obtain ⟨name, hname, rfl⟩ :=
        (by decide : ∀ l ∈ literals, ∃ s ∈ httpSchemes, l = s ++ "://") _ hinfo.literal
      have hcolon : ':' ∉ name := (by decide : ∀ s ∈ httpSchemes, ':' ∉ s) _ hname
      have hcolon' : ':' ∉ user := fun h => nomatch hinfo.user_chars _ h
      have hsplit : name ++ ':' :: ('/' :: '/' :: (user ++ ':' :: pass)) =
          u.scheme ++ ':' :: ('/' :: '/' :: (u.user ++ ':' :: u.first)) := by
        simpa [head] using heq
      obtain ⟨rfl, hrest⟩ := first_unique hcolon u.colon_scheme hsplit
      have huser : ':' ∉ u.user := fun h => (u.user_chars _ h).2 rfl
      obtain ⟨rfl, hpass⟩ := first_unique hcolon' huser (List.cons.inj (List.cons.inj hrest).2).2
      refine .inr ⟨hname, hinfo.user_ne, ?_⟩
      show u.first ≠ []
      rw [← hpass]
      exact hinfo.pass_ne
    | cons b c' =>
      refine .inl ⟨x ++ q, b :: c', (literal ++ user ++ ':' :: pass).length + 1, ?_,
        List.cons_ne_nil b c', ?_, ?_⟩
      · rw [hbefore, List.append_assoc]
      · rw [hown, ← List.append_assoc, ← heq]
        exact userinfoAt_of hinfo rest
      · rw [heq, List.length_append]
        omega

/-- The pattern matches at the URL, or before it and over it, and no `@` stands in the user. -/
def Hit : Prop := '@' ∉ u.user ∧ (u.Covered ∨ u.Plain)

/-- The first `@`, marked or not, and what follows: the password has no `@`, or this is its own. -/
def Behind (b : Bool) (y : List Marked) : Prop :=
  (u.password = u.first ∧ u.second = [] ∧ b = false ∧ Unmarked y) ∨
    (u.password = u.first ++ '@' :: u.second ∧ b = true ∧
      y = mark true u.second ++ ('@', false) :: mark false u.after)

theorem marks_cases : ∃ b y, u.Behind b y ∧
    mark true u.password ++ mark false ('@' :: u.after) = mark true u.first ++ ('@', b) :: y := by
  rcases u.password_cases with ⟨h, hnil⟩ | h
  · refine ⟨false, mark false u.after, .inl ⟨h, hnil, rfl, unmarked_mark _⟩, ?_⟩
    rw [← h, mark_cons]
  · refine ⟨true, _, .inr ⟨h, rfl, rfl⟩, ?_⟩
    conv_lhs => rw [h]
    rw [mark_append, mark_cons, mark_cons, List.append_assoc, List.cons_append]

theorem slash_second : '/' ∉ u.second := by
  intro h
  exact u.slash_password ((List.dropWhile_subset _) (List.mem_of_mem_drop h))

/-- What the pass leaves behind the first `@`. -/
theorem subst_second : subst userinfoAt redacted 0
    (mark true u.second ++ ('@', false) :: mark false u.after) =
      mark true u.second ++ ('@', false) :: subst userinfoAt redacted 0 (mark false u.after) := by
  refine subst_no_slash rfl _ ?_
  rw [chars_mark]
  exact u.slash_second

/-- The piece that the first `@` of the password ends. -/
def piece (c : Str) : List Marked :=
  mark false (c ++ (u.scheme ++ "://" ++ u.user ++ [':'])) ++ mark true u.first

theorem chars_piece (c : Str) : chars (u.piece c) = c ++ u.head := by
  simp [piece, head]

section
variable {c : Str} {b : Bool} {y out : List Marked}

/-- What is left without a match in the piece: the password. -/
theorem leaves_of_none (hout : Unmarked out) (hy : u.Behind b y) :
    Leaves (out ++ (u.piece c ++ ('@', b) :: subst userinfoAt redacted 0 y)) u.password := by
  have hfront : Unmarked (out ++ mark false (c ++ (u.scheme ++ "://" ++ u.user))) :=
    unmarked_append.mpr ⟨hout, unmarked_mark _⟩
  rcases hy with ⟨hpass, -, rfl, hy⟩ | ⟨hpass, rfl, rfl⟩
  · refine .inr ⟨_, ':', '@', subst userinfoAt redacted 0 y, hfront, subst_unmarked hy, by decide,
      by decide, ?_⟩
    conv_rhs => rw [hpass]
    simp [piece]
  · refine .inr ⟨_, ':', '@', _, hfront, subst_unmarked (unmarked_mark u.after), by decide,
      by decide, ?_⟩
    rw [u.subst_second]
    conv_rhs => rw [hpass]
    simp [piece]

/-- What is left with one: the password behind its first `@`. -/
theorem leaves_of_match {z t : List Marked} (hout : Unmarked out) (hy : u.Behind b y)
    (hpiece : u.piece c = z ++ t) {literal user pass : Str} (hinfo : Userinfo literal user pass)
    (ht : chars t = literal ++ user ++ ':' :: pass) :
    Leaves (out ++ (z ++ redacted (t ++ [('@', b)]) ++ subst userinfoAt redacted 0 y)) u.second := by
  have hchars : chars z ++ chars t = c ++ u.head := by
    rw [← u.chars_piece c, hpiece, chars_append]
  have hsuffix : literal ++ user ++ ':' :: pass <:+ c ++ u.head := ⟨chars z, by rw [← ht, hchars]⟩
  obtain ⟨c', -, heq⟩ := u.match_of_suffix hinfo hsuffix
  have hlit := u.literal_length hinfo heq
  -- the literal ends in front of the user
  have htake : (t ++ [('@', b)]).take literal.length = t.take literal.length := by
    refine List.take_append_of_le_length ?_
    rw [← chars_length t, ht]
    simp
  have hwritten : redacted (t ++ [('@', b)]) = t.take literal.length ++ mark false "REDACTED@" := by
    have hat : schemeAt (chars (t ++ [('@', b)])) = some literal.length := by
      rw [chars_append, ht, List.append_assoc, List.append_assoc]
      exact schemeAt_literal hinfo.literal _
    rw [redacted, hat, Option.getD_some, htake, fresh_marked]
  have hclean : Unmarked (z ++ t.take literal.length) := by
    refine @unmarked_of_begins _ (c ++ (u.scheme ++ "://" ++ u.user ++ [':'])) (mark true u.first)
      ⟨t.drop literal.length, ?_⟩ ?_
    · rw [List.append_assoc, List.take_append_drop, ← hpiece, piece]
    · have hlen := congrArg List.length hchars
      rw [ht, heq] at hlen
      simp only [List.length_append, chars_length, List.length_take, List.length_cons,
        List.length_nil] at hlen hlit ⊢
      omega
  have hfront : Unmarked (out ++ (z ++ t.take literal.length) ++ mark false "REDACTED") :=
    unmarked_append.mpr ⟨unmarked_append.mpr ⟨hout, hclean⟩, unmarked_mark _⟩
  rw [hwritten]
  rcases hy with ⟨-, hnil, rfl, hy⟩ | ⟨-, rfl, rfl⟩
  · refine .inl ⟨hnil, ?_⟩
    have hwritten : Unmarked (t.take literal.length ++ mark false "REDACTED@") :=
      unmarked_append.mpr ⟨(unmarked_append.mp hclean).2, unmarked_mark _⟩
    exact unmarked_append.mpr ⟨hout, unmarked_append.mpr
      ⟨unmarked_append.mpr ⟨(unmarked_append.mp hclean).1, hwritten⟩, subst_unmarked hy⟩⟩
  · refine .inr ⟨_, '@', '@', _, hfront, subst_unmarked (unmarked_mark u.after), by decide,
      by decide, ?_⟩
    rw [u.subst_second]
    simp

end

theorem match_of_isSome {t y : List Marked} {b : Bool} (ht : '@' ∉ chars t)
    (h : (userinfoAt (chars (t ++ ('@', b) :: y))).isSome) :
    ∃ literal user pass, Userinfo literal user pass ∧
      chars t = literal ++ user ++ ':' :: pass := by
  obtain ⟨n, hn⟩ := Option.isSome_iff_exists.mp h
  obtain ⟨literal, user, pass, rest, hs, hinfo, -⟩ := userinfoAt_some hn
  rw [chars_append, chars_cons, char_marked] at hs
  exact ⟨literal, user, pass, hinfo, (first_unique ht (not_mem_userinfo hinfo) hs).1⟩

/-- A match in the piece, and one in the text as it is marked. -/
theorem matchedIn_iff {c : Str} (hat : '@' ∉ c ++ u.head) (b : Bool) (y : List Marked) :
    MatchedIn (c ++ u.head) ↔
      ∃ t, t <:+ u.piece c ∧ (userinfoAt (chars (t ++ ('@', b) :: y))).isSome := by
  rw [← u.chars_piece c] at hat ⊢
  constructor
  · rintro ⟨literal, user, pass, hinfo, q, hq⟩
    refine ⟨(u.piece c).drop q.length, List.drop_suffix _ _, ?_⟩
    have ht : chars ((u.piece c).drop q.length) = literal ++ user ++ ':' :: pass := by
      rw [chars, List.map_drop]
      show (chars (u.piece c)).drop q.length = _
      rw [← hq, List.drop_left]
    rw [chars_append, ht, chars_cons, char_marked, userinfoAt_of hinfo]
    rfl
  · rintro ⟨t, ht, hsome⟩
    have hsub : chars t <:+ chars (u.piece c) := ht.map _
    obtain ⟨literal, user, pass, hinfo, heq⟩ :=
      match_of_isSome (fun h => hat (hsub.subset h)) hsome
    exact ⟨literal, user, pass, hinfo, heq ▸ hsub⟩

/-- **The pass over a URL.** What it leaves of the password. -/
theorem leaves_password : (u.Hit ∧ Leaves (subst userinfoAt redacted 0 u.marked) u.second) ∨
    (¬u.Hit ∧ Leaves (subst userinfoAt redacted 0 u.marked) u.password) := by
  have hbehind : ∀ (x : Str) (y : List Marked), ∃ out, Unmarked out ∧
      subst userinfoAt redacted 0 (mark false x ++ ('@', false) :: y) =
        out ++ subst userinfoAt redacted 0 y := by
    intro x y
    obtain ⟨out, hout, hclean⟩ := @subst_behind Marked _ userinfoAt redacted '@' userinfoAt_ends
      (fun m => m.2 = false) redacted_unmarked ('@', false) rfl rfl y (mark false x)
      (unmarked_mark x)
    exact ⟨out, hclean, hout⟩
  by_cases hat : '@' ∈ u.user
  · -- behind an at sign of the user nothing begins a match
    obtain ⟨a, e, he⟩ := List.append_of_mem hat
    have hmarked : u.marked = mark false (u.before ++ (u.scheme ++ "://" ++ a)) ++ ('@', false) ::
        ((mark false (e ++ [':']) ++ mark true u.password) ++ ('@', false) ::
          mark false u.after) := by
      simp [marked, he]
    have hslash : '/' ∉ chars (mark false (e ++ [':']) ++ mark true u.password) := by
      have he' : '/' ∉ e := fun h => u.slash_user (by rw [he]; simp [h])
      simp [he', u.slash_password]
    obtain ⟨out, hout, hsubst⟩ := hbehind (u.before ++ (u.scheme ++ "://" ++ a))
      ((mark false (e ++ [':']) ++ mark true u.password) ++ ('@', false) :: mark false u.after)
    refine .inr ⟨fun h => h.1 hat, .inr ⟨out ++ mark false e, ':', '@', _,
      unmarked_append.mpr ⟨hout, unmarked_mark e⟩, subst_unmarked (unmarked_mark u.after),
      by decide, by decide, ?_⟩⟩
    rw [hmarked, hsubst, subst_no_slash rfl _ hslash]
    simp
  · obtain ⟨x, c, hbefore, hc, hx⟩ := exists_last u.before
    obtain ⟨b, y, hy, hmarks⟩ := u.marks_cases
    have hmarked : u.marked = mark false x ++ (u.piece c ++ ('@', b) :: y) := by
      rw [marked, hbefore, hmarks]
      simp [piece]
    have hout : ∃ out, Unmarked out ∧ subst userinfoAt redacted 0 u.marked =
        out ++ subst userinfoAt redacted 0 (u.piece c ++ ('@', b) :: y) := by
      rw [hmarked]
      rcases hx with rfl | ⟨x', rfl⟩
      · exact ⟨[], nofun, rfl⟩
      · obtain ⟨out, hout, hsubst⟩ := hbehind x' (u.piece c ++ ('@', b) :: y)
        refine ⟨out, hout, ?_⟩
        rw [← hsubst]
        simp
    obtain ⟨out, hout, hsubst⟩ := hout
    have hpiece : '@' ∉ c ++ u.head := by
      simp [hc, u.at_head hat]
    have hhit : u.Hit ↔ MatchedIn (c ++ u.head) :=
      (and_iff_right hat).trans (u.hit_iff hat hbefore hx)
    rw [hsubst, hhit, u.matchedIn_iff hpiece b y]
    rcases @subst_chunk _ _ userinfoAt redacted '@' userinfoAt_ends ('@', b) rfl y (u.piece c)
      (by rwa [u.chars_piece]) with ⟨hnone, hkept⟩ | ⟨z, t, hzt, hsome, hkept⟩
    · refine .inr ⟨?_, ?_⟩
      · rintro ⟨t, ht, hsome⟩
        rw [hnone t ht] at hsome
        cases hsome
      · rw [hkept]
        exact u.leaves_of_none hout hy
    · refine .inl ⟨⟨t, ⟨z, hzt.symm⟩, hsome⟩, ?_⟩
      rw [hkept]
      have ht : '@' ∉ chars t := by
        intro h
        rw [← u.chars_piece c, hzt, chars_append] at hpiece
        exact hpiece (List.mem_append_right _ h)
      obtain ⟨literal, user, pass, hinfo, heq⟩ := match_of_isSome ht hsome
      exact u.leaves_of_match hout hy hzt hinfo heq

end UrlIn

/-! ## The token -/

/-- A token of GitHub's. -/
def IsToken (t : Str) : Prop := t ≠ [] ∧ ∀ c ∈ t, c.isAlphanum = true ∨ c = '_'

section
variable {token : Option Str}

/-- The marks follow the output. -/
theorem chars_redactCredentials (text : List Marked) (token : Option Str) :
    chars (redactCredentials text token) = redactCredentials (chars text) token := by
  have hwrite : ∀ m : List Marked, chars (redacted m) = redacted (chars m) := by
    intro m
    have htake : ∀ n, chars (m.take n) = (chars m).take n := fun n => List.map_take
    rw [redacted, redacted, chars_append, htake, fresh_marked, chars_mark, chars_str, fresh_str]
  have hurls : chars (subst userinfoAt redacted 0 text) =
      subst userinfoAt redacted 0 (chars text) := chars_subst hwrite 0 text
  unfold redactCredentials redactToken
  split
  · rw [← hurls]
    refine chars_subst (fun m => ?_) 0 _
    rw [fresh_marked, chars_mark, fresh_str]
  · exact hurls

theorem not_mem_token {t : Str} (ht : IsToken t) {d : Char} (hd : d ∈ [':', '@']) : d ∉ t := by
  intro hmem
  rcases List.mem_pair.mp hd with rfl | rfl
  · rcases ht.2 _ hmem with h | h
    · exact absurd h (by decide)
    · exact absurd h (by decide)
  · rcases ht.2 _ hmem with h | h
    · exact absurd h (by decide)
    · exact absurd h (by decide)

theorem copies_nil (token : Option Str) : Copies token [] := ⟨0, rfl⟩

theorem unmarked_redactToken {out : List Marked} (h : Unmarked out) :
    Unmarked (redactToken token out) := by
  unfold redactToken
  split
  · refine subst_forall (fun m _ => ?_) 0 h
    rw [fresh_marked]
    exact unmarked_mark _
  · exact h

/-- The token pass behind what the pattern left. -/
theorem hidden_iff (htoken : ∀ t ∈ token, IsToken t) {out : List Marked} {l : Str}
    (h : Leaves out l) : Unmarked (redactToken token out) ↔ Copies token l := by
  rcases h with ⟨rfl, hout⟩ | ⟨front, d, d', back, hfront, hback, hd, hd', rfl⟩
  · exact iff_of_true (unmarked_redactToken hout) (copies_nil token)
  · cases token with
    | none =>
      have hcopies : Copies none l ↔ l = [] := by
        unfold Copies
        simp
      rw [hcopies]
      simp [redactToken, unmarked_append, unmarked_cons, unmarked_mark_true, hfront, hback]
    | some t =>
      have ht := htoken t rfl
      cases t with
      | nil => exact absurd rfl ht.1
      | cons c t =>
        have hfront' := @unmarked_redactToken (some (c :: t)) _ hfront
        have hback' := @unmarked_redactToken (some (c :: t)) _ hback
        simp only [redactToken] at hfront' hback' ⊢
        rw [replace_append ht.1 (not_mem_token ht hd), replace_append ht.1 (not_mem_token ht hd'),
          unmarked_append, unmarked_cons, unmarked_append, unmarked_cons, replaced_iff ht.1]
        simp only [hfront', hback', true_and, and_true]
        rfl

/-- A password that consists of tokens has no `@`. -/
theorem second_of_copies (htoken : ∀ t ∈ token, IsToken t) {s : Str} (h : Copies token s) :
    (partition s '@').2 = [] := by
  obtain ⟨k, rfl⟩ := h
  have hall : ∀ c ∈ (List.replicate k (token.getD [])).flatten, (c != '@') = true := by
    intro c hc
    obtain ⟨t, ht, hct⟩ := List.mem_flatten.mp hc
    obtain rfl := List.eq_of_mem_replicate ht
    cases token with
    | none => cases hct
    | some t =>
      have hat := not_mem_token (htoken t rfl) (d := '@') (by decide)
      simpa using ne_of_mem_of_not_mem hct hat
  rw [partition, List.dropWhile_eq_nil_iff.mpr hall]
  rfl

end

/-- The output has none of the password's characters exactly if the two passes find it. -/
theorem survives_iff {text : Str} (u : UrlIn text) {token : Option Str}
    (htoken : ∀ t ∈ token, IsToken t) : ¬u.Survives token ↔ u.Cleared token := by
  have hgone : ¬u.Survives token ↔ Unmarked (redactCredentials u.marked token) := by
    simp [UrlIn.Survives, Unmarked]
  rw [hgone]
  unfold redactCredentials UrlIn.Cleared
  rcases u.leaves_password with ⟨hhit, hleaves⟩ | ⟨hhit, hleaves⟩
  · rw [hidden_iff htoken hleaves]
    constructor
    · exact fun h => .inr ⟨hhit.1, hhit.2, h⟩
    · rintro (h | ⟨-, -, h⟩)
      · have hnil : u.second = [] := second_of_copies htoken h
        rw [hnil]
        exact copies_nil token
      · exact h
  · rw [hidden_iff htoken hleaves]
    constructor
    · exact .inl
    · rintro (h | ⟨hat, hmatch, -⟩)
      · exact h
      · exact absurd ⟨hat, hmatch⟩ hhit

/-- **What `redact_credentials` hides.** The token is never in its output. The passwords of all URLs
in the text are gone exactly if each is written so that the two passes find it. -/
theorem redact_credentials_iff (text : Str) {token : Option Str}
    (htoken : ∀ t ∈ token, IsToken t) :
    ((∀ t ∈ token, ¬t <:+: redactCredentials text token) ∧ ∀ u : UrlIn text, ¬u.Survives token) ↔
      ∀ u : UrlIn text, u.Cleared token := by
  have habsent : ∀ t ∈ token, ¬t <:+: redactCredentials text token := by
    intro t ht
    have hword := htoken t ht
    obtain rfl := ht
    cases t with
    | nil => exact absurd rfl hword.1
    | cons c t =>
      refine not_infix_replace hword.1 (by decide) ?_ _
      intro d hd hstar
      have hd' : d = '*' := by simpa using hstar
      rcases hword.2 d hd with h | h
      · rw [hd'] at h
        exact absurd h (by decide)
      · rw [hd'] at h
        exact absurd h (by decide)
  rw [and_iff_right habsent]
  exact forall_congr' fun u => survives_iff u htoken

/-- `redact_credentials_iff` for a line of git's and a token of GitHub's. -/
theorem redact_credentials_clone :
    ((∀ t ∈ some "ghp_abc".toList,
        ¬t <:+: redactCredentials "clone https://me:p@ss@github.com/x failed".toList
          (some "ghp_abc".toList)) ∧
      ∀ u : UrlIn "clone https://me:p@ss@github.com/x failed".toList,
        ¬u.Survives (some "ghp_abc".toList)) ↔
      ∀ u : UrlIn "clone https://me:p@ss@github.com/x failed".toList,
        u.Cleared (some "ghp_abc".toList) := by
  refine redact_credentials_iff _ ?_
  rintro _ ⟨⟩
  exact ⟨by decide, List.forall_mem_iff_getElem.mpr (by decide +kernel)⟩

/-- A password without a user name is left as it is. -/
theorem user_missing_survives :
    redactCredentials "https://:secret@github.com/x".toList (some "ghp_abc".toList) =
        "https://:secret@github.com/x".toList ∧
      ¬((∀ t ∈ some "ghp_abc".toList,
          ¬t <:+: redactCredentials "https://:secret@github.com/x".toList
            (some "ghp_abc".toList)) ∧
        ∀ u : UrlIn "https://:secret@github.com/x".toList,
          ¬u.Survives (some "ghp_abc".toList)) := by
  refine ⟨by decide +kernel, ?_⟩
  rintro ⟨-, hgone⟩
  refine hgone ⟨[], "https", [], "secret", "github.com/x", by decide, nofun,
    List.all_eq_true.mp (by decide), by decide, by decide⟩ ⟨('s', true), ?_, rfl⟩
  decide +kernel

end KnowledgeKiln.L1.Git
