import KnowledgeKiln.Core.Py

/-!
# URLs

`cut sep s` is `s.split(sep, 1)` with the case "no separator" kept apart;
`Url.scheme` and `Url.host` read a URL the way RFC 3986 does (scheme, then the
authority up to the first `/`, `?` or `#`, of which user information and port
are dropped). `Url.urlsplit` is the standard library's, which first removes
leading control characters and every tab and line break.

* `cut_append`: where a string is cut depends on what stands before the cut.
* `field_append`, `field_eq`: a field of some characters, in front of its delimiter.
* `Url.host_userinfo`: user information does not change the host.
* `Url.split_query`: a query changes neither authority nor path of `urlsplit`.
* `Url.split_authority`: how `urlsplit` reads what follows `scheme://`.
-/
namespace KnowledgeKiln.Core

/-- The text before and after the first `sep`. -/
def cut (sep : Str) : Str → Option (Str × Str)
  | [] => none
  | c :: cs =>
    if sep.isPrefixOf (c :: cs) then some ([], (c :: cs).drop sep.length)
    else (cut sep cs).map fun p => (c :: p.1, p.2)

theorem cut_eq {sep : Str} : ∀ {s a b : Str}, cut sep s = some (a, b) → s = a ++ sep ++ b
  | [], a, b, h => by cases h
  | c :: cs, a, b, h => by
    unfold cut at h
    split at h
    · rename_i hp
      obtain ⟨t, ht⟩ := List.isPrefixOf_iff_prefix.mp hp
      cases h
      simp [← ht]
    · obtain ⟨p, hp, he⟩ := Option.map_eq_some_iff.mp h
      cases he
      rw [cut_eq (a := p.1) (b := p.2) hp]
      simp

/-- Where the first `sep` stands is decided by the text up to its end. -/
theorem cut_append {sep : Str} (hs : sep ≠ []) (b' : Str) :
    ∀ {s a b : Str}, cut sep s = some (a, b) → cut sep (a ++ sep ++ b') = some (a, b')
  | [], a, b, h => by cases h
  | c :: cs, a, b, h => by
    unfold cut at h
    split at h
    · rename_i hp
      cases h
      obtain ⟨d, ds, rfl⟩ := List.exists_cons_of_ne_nil hs
      simp [cut, List.isPrefixOf_iff_prefix]
    · rename_i hp
      obtain ⟨⟨a', b''⟩, hc, he⟩ := Option.map_eq_some_iff.mp h
      cases he
      have ih := cut_append hs b' hc
      -- the window tested at `c` ends before the part that differs
      have hn : ¬ sep.isPrefixOf (c :: a' ++ sep ++ b') = true := by
        rw [List.isPrefixOf_iff_prefix] at hp ⊢
        rw [cut_eq hc, ← List.cons_append, ← List.cons_append] at hp
        have hl : sep.length ≤ (c :: a' ++ sep).length := by simp; omega
        rw [List.isPrefix_append_of_length hl] at hp ⊢
        exact hp
      simp only [List.cons_append] at hn ⊢
      rw [cut, if_neg hn, ih]
      rfl

/-- The longest text of `p`, in front of a `d`. -/
def field (p : Char → Bool) (d : Char) (s : Str) : Option (Str × Str) :=
  match s.dropWhile p with
  | c :: rest => if c = d then some (s.takeWhile p, rest) else none
  | [] => none

theorem field_append {p : Char → Bool} {d : Char} {a : Str} (ha : ∀ c ∈ a, p c = true)
    (hd : p d = false) (rest : Str) : field p d (a ++ d :: rest) = some (a, rest) := by
  have hdrop : (a ++ d :: rest).dropWhile p = d :: rest := by
    rw [List.dropWhile_append_of_pos ha, List.dropWhile_cons_of_neg (by simp [hd])]
  have htake : (a ++ d :: rest).takeWhile p = a := by
    rw [List.takeWhile_append_of_pos ha, List.takeWhile_cons_of_neg (by simp [hd]),
      List.append_nil]
  simp [field, hdrop, htake]

theorem field_eq {p : Char → Bool} {d : Char} {s a rest : Str}
    (h : field p d s = some (a, rest)) : s = a ++ d :: rest ∧ ∀ c ∈ a, p c = true := by
  unfold field at h
  split at h
  · rename_i c rest' hdrop
    split at h
    · rename_i hc
      cases h
      refine ⟨?_, fun c hc => List.mem_takeWhile_imp hc⟩
      rw [← hc, ← hdrop, List.takeWhile_append_dropWhile]
    · cases h
  · cases h

namespace Url

/-- The characters that end an authority. -/
def endsAuthority (c : Char) : Bool := c == '/' || c == '?' || c == '#'

/-- The authority, and what follows it. -/
def splitNetloc (s : Str) : Str × Str :=
  (s.takeWhile (!endsAuthority ·), s.dropWhile (!endsAuthority ·))

/-- `netloc.rpartition("@")[2]` -/
def hostinfo (netloc : Str) : Str := netloc.rtakeWhile (· != '@')

/-- The host named by an authority, lower-cased. -/
def hostname (netloc : Str) : Str := lower (partition (hostinfo netloc) ':').1

/-- The scheme of `scheme://authority…`, lower-cased. -/
def scheme (url : Str) : Option Str := (cut "://" url).map fun p => lower p.1

/-- The authority's host in `scheme://authority…`. -/
def host (url : Str) : Option Str := (cut "://" url).map fun p => hostname (splitNetloc p.2).1

theorem hostinfo_of_not_mem {netloc : Str} (h : '@' ∉ netloc) : hostinfo netloc = netloc := by
  refine List.rtakeWhile_eq_self_iff.mpr fun c hc => ?_
  simp only [bne_iff_ne, ne_eq]
  rintro rfl
  exact h hc

theorem hostinfo_userinfo (user : Str) {netloc : Str} (h : '@' ∉ netloc) :
    hostinfo (user ++ '@' :: netloc) = netloc := by
  have hr : ∀ c ∈ netloc.reverse, (c != '@') = true := by
    intro c hc
    simp only [bne_iff_ne, ne_eq]
    rintro rfl
    exact h (List.mem_reverse.mp hc)
  unfold hostinfo List.rtakeWhile
  rw [List.reverse_append, List.reverse_cons, List.append_assoc,
    List.takeWhile_append_of_pos hr]
  simp

/-- User information in front of an authority that has none leaves its host alone. -/
theorem host_userinfo {url a b user : Str} (hc : cut "://" url = some (a, b))
    (hu : ∀ c ∈ user, endsAuthority c = false) (hb : '@' ∉ (splitNetloc b).1) :
    host (a ++ "://" ++ (user ++ '@' :: b)) = host url := by
  have hs : (splitNetloc (user ++ '@' :: b)).1 = user ++ '@' :: (splitNetloc b).1 := by
    unfold splitNetloc
    rw [List.takeWhile_append_of_pos (by simpa using hu)]
    simp [endsAuthority]
  unfold host
  rw [cut_append (by decide) _ hc, hc]
  simp only [Option.map_some, Option.some.injEq]
  unfold hostname
  rw [hs, hostinfo_userinfo user hb, hostinfo_of_not_mem hb]

/-! ## `urllib.parse.urlsplit` -/

structure SplitResult where
  scheme : Str
  netloc : Str
  path : Str
  query : Str
  fragment : Str
  deriving DecidableEq

/-- What `urlsplit` splits: the URL without leading C0 controls and blanks, tabs and breaks. -/
def clean (url : Str) : Str :=
  (url.dropWhile fun c => c.toNat ≤ 0x20).filter fun c => c != '\t' && c != '\r' && c != '\n'

def isSchemeChar (c : Char) : Bool :=
  c.isAlpha || c.isDigit || c == '+' || c == '-' || c == '.'

def isScheme (s : Str) : Bool := s.head?.any Char.isAlpha && s.all isSchemeChar

/-- The scheme, lower-cased, and what follows its colon. -/
def splitScheme (url : Str) : Str × Str :=
  if ':' ∈ url ∧ isScheme (partition url ':').1 = true then
    (lower (partition url ':').1, (partition url ':').2)
  else ([], url)

/-- The authority of a URL without its scheme, and what follows. -/
def splitAuthority (url : Str) : Str × Str :=
  if url.take 2 = "//" then splitNetloc (url.drop 2) else ([], url)

/-- The authority of a URL, and what follows it up to the URL's end. -/
def split (url : Str) : Str × Str := splitAuthority (splitScheme (clean url)).2

/-- The text up to the first `#`, and of that the text up to the first `?`. -/
def cutPath (s : Str) : Str := (partition (partition s '#').1 '?').1

/-- `urlsplit(url)`; `refused` are the authorities it raises on (unbalanced brackets, a bad
address in brackets, delimiters that appear under NFKC normalisation). -/
def urlsplit (refused : Str → Bool) (url : Str) : Py SplitResult :=
  let scheme := (splitScheme (clean url)).1
  let (netloc, url) := split url
  if refused netloc then throw (.valueError "netloc contains invalid characters")
  else
    let (url, fragment) := partition url '#'
    let (path, query) := partition url '?'
    .ok { scheme, netloc, path, query, fragment }

theorem urlsplit_ok {refused : Str → Bool} {url : Str} :
    (∃ parts, urlsplit refused url = .ok parts) ↔ refused (split url).1 = false := by
  unfold urlsplit
  cases h : refused (split url).1 <;> simp [h]

theorem urlsplit_path {refused : Str → Bool} {url : Str} {parts : SplitResult}
    (h : urlsplit refused url = .ok parts) : parts.path = cutPath (split url).2 := by
  have hr := urlsplit_ok.mp ⟨parts, h⟩
  unfold urlsplit at h
  simp only [hr, Bool.false_eq_true, if_false, Except.ok.injEq] at h
  rw [← h]
  rfl

/-! A text that a character outside `p` follows is scanned to its own end at most. -/

theorem takeWhile_stop {p : Char → Bool} {d : Char} (hd : p d = false) (t : Str) :
    ∀ s : Str, (s ++ d :: t).takeWhile p = s.takeWhile p
  | [] => by simp [hd]
  | c :: s => by
    rw [List.cons_append, List.takeWhile_cons, List.takeWhile_cons, takeWhile_stop hd t s]

theorem dropWhile_stop {p : Char → Bool} {d : Char} (hd : p d = false) (t : Str) :
    ∀ s : Str, (s ++ d :: t).dropWhile p = s.dropWhile p ++ d :: t
  | [] => by simp [hd]
  | c :: s => by
    rw [List.cons_append, List.dropWhile_cons, List.dropWhile_cons, dropWhile_stop hd t s]
    split <;> rfl

theorem cutPath_eq (s : Str) : cutPath s = s.takeWhile fun c => c != '?' && c != '#' := by
  simp only [cutPath, partition, List.takeWhile_takeWhile]
  congr 1
  funext c
  by_cases h1 : c = '?' <;> by_cases h2 : c = '#' <;> simp [h1, h2]

theorem cutPath_query (s q : Str) : cutPath (s ++ '?' :: q) = cutPath s := by
  rw [cutPath_eq, cutPath_eq]
  exact takeWhile_stop (by decide) q s

theorem clean_query (s q : Str) : ∃ q', clean (s ++ '?' :: q) = clean s ++ '?' :: q' := by
  unfold clean
  rw [dropWhile_stop (by decide) q s, List.filter_append]
  exact ⟨_, by rw [List.filter_cons_of_pos (by decide)]⟩

theorem partition_of_not_mem {a : Str} {d : Char} (ha : d ∉ a) (t : Str) :
    partition (a ++ d :: t) d = (a, t) := by
  have hp : ∀ c ∈ a, (c != d) = true := by
    intro c hc
    simp only [bne_iff_ne, ne_eq]
    rintro rfl
    exact ha hc
  unfold partition
  rw [List.takeWhile_append_of_pos hp, List.dropWhile_append_of_pos hp]
  simp

theorem splitScheme_colon {a : Str} (ha : ':' ∉ a) (t : Str) :
    (splitScheme (a ++ ':' :: t)).2 = if isScheme a then t else a ++ ':' :: t := by
  unfold splitScheme
  rw [partition_of_not_mem ha]
  by_cases h : isScheme a = true <;> simp [h]

theorem splitScheme_of_not_mem {s : Str} (h : ':' ∉ s) : (splitScheme s).2 = s := by
  simp [splitScheme, h]

theorem splitScheme_query (s q : Str) :
    (splitScheme (s ++ '?' :: q)).2 = (splitScheme s).2 ++ '?' :: q := by
  by_cases hc : ':' ∈ s
  · obtain ⟨a, b, rfl, ha⟩ := List.eq_append_cons_of_mem hc
    rw [List.append_assoc, List.cons_append, splitScheme_colon ha, splitScheme_colon ha]
    split <;> simp
  rw [splitScheme_of_not_mem hc]
  by_cases hq : ':' ∈ q
  · obtain ⟨a, b, rfl, ha⟩ := List.eq_append_cons_of_mem hq
    -- a colon in the query has a `?` before it, so that no scheme ends there
    have hs : isScheme (s ++ '?' :: a) = false := by
      simp [isScheme, isSchemeChar]
    have hm : ':' ∉ s ++ '?' :: a := by simp [hc, ha]
    have he : s ++ '?' :: (a ++ ':' :: b) = (s ++ '?' :: a) ++ ':' :: b := by simp
    rw [he, splitScheme_colon hm, hs]
    rfl
  · exact splitScheme_of_not_mem (by simp [hc, hq])

theorem splitAuthority_query (s q : Str) : splitAuthority (s ++ '?' :: q) =
    ((splitAuthority s).1, (splitAuthority s).2 ++ '?' :: q) := by
  match s with
  | [] => simp [splitAuthority]
  | [c] => simp [splitAuthority]
  | c :: d :: s =>
    unfold splitAuthority
    simp only [List.cons_append, List.take_succ_cons, List.take_zero, List.drop_succ_cons,
      List.drop_zero]
    split
    · exact Prod.ext (takeWhile_stop (by decide) q s) (dropWhile_stop (by decide) q s)
    · rfl

/-- A query changes neither authority nor path. -/
theorem split_query (url q : Str) :
    ∃ q', split (url ++ '?' :: q) = ((split url).1, (split url).2 ++ '?' :: q') := by
  obtain ⟨q', h⟩ := clean_query url q
  refine ⟨q', ?_⟩
  unfold split
  rw [h, splitScheme_query, splitAuthority_query]

/-- What is removed from a text that has no leading blank. -/
def squeeze (s : Str) : Str := s.filter fun c => c != '\t' && c != '\r' && c != '\n'

theorem isSchemeChar_not_blank {c : Char} (h : isSchemeChar c = true) :
    0x20 < c.toNat := by
  simp only [isSchemeChar, Bool.or_eq_true, beq_iff_eq, Char.isAlpha, Char.isUpper, Char.isLower,
    Char.isDigit, Bool.and_eq_true, decide_eq_true_eq, UInt32.le_iff_toNat_le] at h
  rcases h with (((((h | h) | h) | rfl) | rfl) | rfl)
  · exact lt_of_lt_of_le (by decide : 0x20 < 65) h.1
  · exact lt_of_lt_of_le (by decide : 0x20 < 97) h.1
  · exact lt_of_lt_of_le (by decide : 0x20 < 48) h.1
  all_goals decide

theorem clean_scheme {scheme : Str} (hs : isScheme scheme = true) (rest : Str) :
    clean (scheme ++ "://" ++ rest) = scheme ++ ':' :: '/' :: '/' :: squeeze rest := by
  obtain ⟨hhead, hall⟩ := Bool.and_eq_true_iff.mp hs
  have hsc : ∀ c ∈ scheme, 0x20 < c.toNat := fun c hc =>
    isSchemeChar_not_blank (List.all_eq_true.mp hall c hc)
  have hkeep : scheme.filter (fun c => c != '\t' && c != '\r' && c != '\n') = scheme := by
    refine List.filter_eq_self.mpr fun c hc => ?_
    have := hsc c hc
    simp only [Bool.and_eq_true, bne_iff_ne, ne_eq]
    refine ⟨⟨?_, ?_⟩, ?_⟩ <;> rintro rfl <;> revert this <;> decide
  obtain ⟨c, cs, rfl⟩ : ∃ c cs, scheme = c :: cs := by
    cases scheme with
    | nil => cases hhead
    | cons c cs => exact ⟨c, cs, rfl⟩
  have hdrop : (c :: (cs ++ ("://" ++ rest))).dropWhile (fun c => decide (c.toNat ≤ 0x20)) =
      c :: (cs ++ ("://" ++ rest)) :=
    List.dropWhile_cons_of_neg (by simpa using hsc c List.mem_cons_self)
  unfold clean squeeze
  rw [List.append_assoc, List.cons_append, hdrop, ← List.cons_append, List.filter_append, hkeep]
  rfl

theorem squeeze_append (s t : Str) : squeeze (s ++ t) = squeeze s ++ squeeze t :=
  List.filter_append s t

/-- After a scheme and `//`, the authority ends at the first `/`, `?` or `#`. -/
theorem split_authority {scheme : Str} (hs : isScheme scheme = true) (rest : Str) :
    split (scheme ++ "://" ++ rest) = splitNetloc (squeeze rest) := by
  have hcolon : ':' ∉ scheme := fun h => by
    simpa [isSchemeChar] using List.all_eq_true.mp (Bool.and_eq_true_iff.mp hs).2 _ h
  unfold split
  rw [clean_scheme hs, splitScheme_colon hcolon, if_pos hs]
  simp [splitAuthority]

end Url

end KnowledgeKiln.Core
