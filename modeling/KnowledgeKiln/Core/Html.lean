import KnowledgeKiln.Core.Str

/-!
# HTML text, tags and character references

A reader in the manner of the HTML standard, one character at a time as the text has them: tags,
text, and character references in text. An end tag closes the innermost open element if it has its
name, and what is open at the end is closed there. Comments, a `>` in an attribute, elements without
end tags or with raw text, and references by other names than those of markup are left out, and so
is what the standard does with a carriage return or a NUL before it reads the characters.

* `Reader.read_append`: reading goes on where it stopped.
* `Reader.finish_data`: the nodes of a text whose elements are all closed.
-/
namespace KnowledgeKiln.Core.Html

inductive Node
  | text (c : Char)
  /-- The text of the start tag, and the children. -/
  | element (tag : Str) (children : List Node)

inductive State
  | data
  /-- Behind an `&`. -/
  | reference (read : Str)
  /-- Behind a `<`. -/
  | tagOpen
  | tag (read : Str)

structure Reader where
  state : State
  /-- The children of the innermost open element, the last one first. -/
  siblings : List Node
  /-- The open elements, the innermost first, each with what stands before it. -/
  opened : List (Str × List Node)

/-- The name of a tag, without its attributes. -/
def tagName (tag : Str) : Str := tag.takeWhile fun c => !isSpace c

/-- The references by name; with and without a semicolon, as the standard has them. -/
def named : List (Str × Char) :=
  [("amp;".toList, '&'), ("lt;".toList, '<'), ("gt;".toList, '>'), ("quot;".toList, '"'),
    ("apos;".toList, '\''), ("amp".toList, '&'), ("lt".toList, '<'), ("gt".toList, '>'),
    ("quot".toList, '"')]

/-- The character of a numeric reference. -/
def codePoint (n : Nat) : Char :=
  if n = 0 ∨ ¬n.isValidChar then Char.ofNat 0xFFFD else Char.ofNat n

/-- The text that `&body` is read as. -/
def resolve (body : Str) : Str :=
  match body with
  | '#' :: s =>
    let digits := s.takeWhile Char.isDigit
    if digits = [] then '&' :: body
    else
      let rest := s.dropWhile Char.isDigit
      codePoint (Nat.ofDigitChars 10 digits 0) :: if rest.head? = some ';' then rest.drop 1 else rest
  | _ =>
    match named.find? fun p => startsWith body p.1 with
    | some (name, c) => c :: body.drop name.length
    | none => '&' :: body

namespace Reader

def start : Reader := ⟨.data, [], []⟩

/-- Characters of text. -/
def texts (r : Reader) (s : Str) : Reader :=
  ⟨.data, (s.map Node.text).reverse ++ r.siblings, r.opened⟩

/-- A tag, without its brackets. -/
def tagged (r : Reader) : Str → Reader
  | '/' :: name =>
    match r.opened with
    | (tag, before) :: opened =>
      if tagName tag = name then ⟨.data, .element tag r.siblings.reverse :: before, opened⟩
      else ⟨.data, r.siblings, r.opened⟩
    | [] => ⟨.data, r.siblings, []⟩
  | tag => ⟨.data, [], (tag, r.siblings) :: r.opened⟩

def data (r : Reader) (c : Char) : Reader :=
  if c = '<' then ⟨.tagOpen, r.siblings, r.opened⟩
  else if c = '&' then ⟨.reference [], r.siblings, r.opened⟩
  else r.texts [c]

def step (r : Reader) (c : Char) : Reader :=
  match r.state with
  | .data => r.data c
  | .reference read =>
    if c = ';' then r.texts (resolve (read ++ [c]))
    else if c.isAlphanum ∨ c = '#' ∧ read = [] then ⟨.reference (read ++ [c]), r.siblings, r.opened⟩
    else (r.texts (resolve read)).data c
  | .tagOpen =>
    if c.isAlpha ∨ c = '/' then ⟨.tag [c], r.siblings, r.opened⟩ else (r.texts ['<']).data c
  | .tag read => if c = '>' then r.tagged read else ⟨.tag (read ++ [c]), r.siblings, r.opened⟩

def read (r : Reader) (s : Str) : Reader := s.foldl step r

/-- The nodes at the end of the text. -/
def finish (r : Reader) : List Node :=
  let r := match r.state with
    | .reference read => r.texts (resolve read)
    | .tagOpen => r.texts ['<']
    | _ => r
  (r.opened.foldl (fun inner p => .element p.1 inner.reverse :: p.2) r.siblings).reverse

theorem read_append (r : Reader) (s t : Str) : r.read (s ++ t) = (r.read s).read t :=
  List.foldl_append

theorem finish_data (nodes : List Node) : (⟨.data, nodes.reverse, []⟩ : Reader).finish = nodes :=
  List.reverse_reverse nodes

end Reader

/-- The nodes of a fragment. -/
def parse (s : Str) : List Node := (Reader.start.read s).finish

/-! ## Elements -/

mutual

/-- The start tags of the elements. -/
def Node.tags : Node → List Str
  | .text _ => []
  | .element tag children => tag :: tagsAll children

def tagsAll : List Node → List Str
  | [] => []
  | n :: ns => n.tags ++ tagsAll ns

end

theorem tagsAll_append : ∀ (ns ns' : List Node), tagsAll (ns ++ ns') = tagsAll ns ++ tagsAll ns'
  | [], _ => rfl
  | n :: ns, ns' => by
    rw [List.cons_append, tagsAll, tagsAll, tagsAll_append ns ns', List.append_assoc]

theorem tagsAll_text (s : Str) : tagsAll (s.map Node.text) = [] := by
  induction s with
  | nil => rfl
  | cons c s ih => exact ih

end KnowledgeKiln.Core.Html
