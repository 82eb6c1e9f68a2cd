import ModuleGraph.Syntax.Lexeme
import ModuleGraph.Syntax.Tree
/-!
# Parsing expressions

A grammar is data: a parsing expression for each of its rules, built from lexemes by sequence,
ordered choice, repetition and lookahead. One interpreter reads a script by a grammar and builds
its syntax tree.

Comments and white space may stand before every lexeme, unless the lexeme is a piece of a text.
A comment becomes a node beside the lexeme that it stands before; before the first lexeme of a
node it becomes a node beside that node.
-/

namespace ModuleGraph.Syntax

/-- A place in a script: what follows it, and how many bytes stand before it. -/
structure Cursor where
  rest : List Char
  pos : Nat
  deriving DecidableEq, Repr, Inhabited

namespace Cursor

/-- The place `n` characters on in `rest`, which begins at byte `pos`. -/
def advanceFrom : (n : Nat) → (rest : List Char) → (pos : Nat) → Cursor
  | 0, rest, pos => ⟨rest, pos⟩
  | _ + 1, [], pos => ⟨[], pos⟩
  | n + 1, c :: r, pos => advanceFrom n r (pos + c.utf8Size)

/-- The place `n` characters on. -/
def advance (n : Nat) (c : Cursor) : Cursor := advanceFrom n c.rest c.pos

theorem length_advanceFrom (n : Nat) (rest : List Char) (pos : Nat) :
    (advanceFrom n rest pos).rest.length ≤ rest.length := by
  fun_induction advanceFrom n rest pos with
  | case1 => simp
  | case2 => simp
  | case3 n c r pos ih => simp; omega

/-- The comments that stand before the next lexeme, and the place where it begins. -/
def skipFrom (rest : List Char) (pos : Nat) : List Tree × Cursor :=
  match rest with
  | [] => ([], ⟨[], pos⟩)
  | x :: r =>
    if isSpace x then skipFrom r (pos + x.utf8Size)
    else match commentTail? x r with
      | none => ([], ⟨x :: r, pos⟩)
      | some n =>
        let after := advanceFrom n r (pos + x.utf8Size)
        let (comments, next) := skipFrom after.rest after.pos
        (.node "comment" pos after.pos none true [] :: comments, next)
termination_by rest.length
decreasing_by
  · simp
  · have := length_advanceFrom n r (pos + x.utf8Size)
    simp; omega

/-- The comments before the next lexeme, and the place where it begins. -/
def skip (c : Cursor) : List Tree × Cursor := skipFrom c.rest c.pos

/-- A line ends between two places, the second of which is not before the first. -/
def newlineBefore (c next : Cursor) : Bool :=
  (c.rest.take (c.rest.length - next.rest.length)).any isLineFeed

end Cursor

/-- The two languages: the second has tags in expressions, the first has casts in angle
brackets. -/
inductive Dialect where
  | plain
  | tags
  deriving DecidableEq, Repr, Inhabited

/-- What a statement that may end without a semicolon ends with. -/
inductive Ending where
  /-- An expression: an opening bracket would continue it. -/
  | expression
  /-- A type, a word or a string: an opening bracket continues nothing. -/
  | other
  /-- The head of a function: an opening brace would be its body. -/
  | signature
  deriving DecidableEq, Repr, Inhabited

/-- Kinds of lexemes. -/
inductive Lexeme where
  /-- A word that is none of these. -/
  | name (except : List String)
  | privateName
  | number
  | string
  | templateText
  | regex
  | tagText
  | tagName
  | attributeString
  | hashbang
  deriving DecidableEq, Repr, Inhabited

namespace Lexeme

/-- White space and comments belong to the lexeme. -/
def isImmediate : Lexeme → Bool
  | templateText | tagText | hashbang => true
  | _ => false

/-- The kind of the node that stands for the lexeme. -/
def kind : Lexeme → String
  | name _ => "identifier"
  | privateName => "private_property_identifier"
  | number => "number"
  | string => "string"
  | templateText => "string_fragment"
  | regex => "regex"
  | tagText => "jsx_text"
  | tagName => "property_identifier"
  | attributeString => "attribute_value"
  | hashbang => "hash_bang_line"

/-- The length of the lexeme at the head of the list. -/
def length? : Lexeme → List Char → Option Nat
  | name except, cs =>
    (word? cs).filter fun n => !except.contains (String.ofList (cs.take n))
  | privateName, cs => privateName? cs
  | number, cs => number? cs
  | string, cs => string? cs
  | templateText, cs => templateText? cs
  | regex, cs => regex? cs
  | tagText, cs => tagText? cs
  | tagName, cs => tagName? cs
  | attributeString, cs => attributeString? cs
  | hashbang, cs => hashbang? cs

end Lexeme

/-- A parsing expression over the rules of type `ρ`. -/
inductive Peg (ρ : Type) where
  /-- Expressions one after the other. -/
  | seq (ps : List (Peg ρ))
  /-- The first of the expressions that fits. -/
  | alt (ps : List (Peg ρ))
  /-- An expression as often as it fits. -/
  | many (p : Peg ρ)
  /-- An expression or nothing. -/
  | opt (p : Peg ρ)
  /-- Nothing, where the expression fits. -/
  | ahead (p : Peg ρ)
  /-- Nothing, where the expression does not fit. -/
  | absent (p : Peg ρ)
  /-- A sign, unless one of these characters follows it. -/
  | sign (text : String) (barred : String)
  /-- A word of the language. -/
  | word (text : String)
  /-- A lexeme of a kind. -/
  | lexeme (l : Lexeme)
  /-- A node over what the expression reads. -/
  | node (kind : String) (p : Peg ρ)
  /-- The last node that the expression reads fills a field. -/
  | field (name : String) (p : Peg ρ)
  /-- A rule of the grammar. -/
  | rule (r : ρ)
  /-- Nothing, in one dialect only. -/
  | only (d : Dialect)
  /-- Nothing, if the script is read forgivingly. -/
  | forgiving
  /-- Nothing, where no line ends before the next lexeme. -/
  | sameLine
  /-- Nothing, at the end of the script. -/
  | finish
  /-- Nothing, where a statement may end without a semicolon. -/
  | ending (e : Ending)
  /-- A malformed stretch, if the script is read forgivingly. The expression reads what it can of
  the stretch. -/
  | stretch (inBlock : Bool) (p : Peg ρ)
  /-- Any character. -/
  | character
  deriving Inhabited

/-- How a script is read: its dialect, and whether malformed stretches are passed over. -/
structure Reading where
  dialect : Dialect
  forgiving : Bool
  deriving DecidableEq, Repr

namespace Peg

variable {ρ : Type}

/-- The text stands at the head of the list: what follows it. -/
def afterText? : List Char → List Char → Option (List Char)
  | [], cs => some cs
  | _, [] => none
  | t :: ts, c :: cs => if t = c then afterText? ts cs else none

/-- A sign at the head of the list. -/
def signFits (text barred : String) (cs : List Char) : Bool :=
  match afterText? text.toList cs with
  | some (c :: _) => !barred.toList.contains c
  | some [] => true
  | none => false

/-- A word at the head of the list: it ends where the list goes on with no part of a word. -/
def wordFits (text : String) (cs : List Char) : Bool :=
  match afterText? text.toList cs with
  | some r => wordTail r = 0
  | none => false

/-- A statement may end before what follows, on a line of its own. -/
def mayBegin (e : Ending) (cs : List Char) : Bool :=
  match cs with
  | [] => true
  | '+' :: r => r.head? = some '+'
  | '-' :: r => r.head? = some '-'
  | '!' :: r => r.head? ≠ some '='
  | c :: _ =>
    if (e = .expression && (c = '(' || c = '[')) || (e = .signature && c = '\x7b') then false
    else !"`,.;*%><=?^|&/:".toList.contains c && !wordFits "in" cs && !wordFits "instanceof" cs

/-- A statement may end here without a semicolon: at the end of the script, before a closing
brace, and at the end of a line that what follows does not continue. -/
def endsHere (e : Ending) (c : Cursor) : Bool :=
  let next := c.skip.2
  match next.rest with
  | [] => true
  | '\x7d' :: _ => true
  | cs => c.newlineBefore next && mayBegin e cs

/-- A leaf over the next `n` characters, with the comments before it. -/
def leaf (comments : List Tree) (c : Cursor) (n : Nat) (kind : String) (named : Bool) :
    List Tree × Cursor :=
  let after := c.advance n
  (comments ++ [.node kind c.pos after.pos none named []], after)

/-- The last of the nodes fills the field. -/
def setField (name : String) : List Tree → List Tree
  | [] => []
  | [.node k s e _ n cs] => [.node k s e (some name) n cs]
  | t :: r => t :: setField name r

/-- Reads a script from a place on by an expression. Every level of nesting and every repetition
uses one unit of `fuel`. -/
def run (grammar : ρ → Peg ρ) (how : Reading) :
    (fuel : Nat) → Peg ρ → Cursor → Option (List Tree × Cursor)
  | 0, _, _ => none
  | fuel + 1, p, c =>
    match p with
    | .seq [] => some ([], c)
    | .seq (p :: ps) =>
      match run grammar how fuel p c with
      | none => none
      | some (ts, c) =>
        match run grammar how fuel (.seq ps) c with
        | none => none
        | some (us, c) => some (ts ++ us, c)
    | .alt [] => none
    | .alt (p :: ps) =>
      match run grammar how fuel p c with
      | some r => some r
      | none => run grammar how fuel (.alt ps) c
    | .many p =>
      match run grammar how fuel p c with
      | none => some ([], c)
      | some (ts, next) =>
        if next.rest.length < c.rest.length then
          match run grammar how fuel (.many p) next with
          | none => none
          | some (us, last) => some (ts ++ us, last)
        else some (ts, next)
    | .opt p =>
      match run grammar how fuel p c with
      | some r => some r
      | none => some ([], c)
    | .ahead p =>
      match run grammar how fuel p c with
      | some _ => some ([], c)
      | none => none
    | .absent p =>
      match run grammar how fuel p c with
      | some _ => none
      | none => some ([], c)
    | .sign text barred =>
      let (comments, next) := c.skip
      if signFits text barred next.rest then some (leaf comments next text.length text false)
      else none
    | .word text =>
      let (comments, next) := c.skip
      if wordFits text next.rest then some (leaf comments next text.length text false) else none
    | .lexeme l =>
      let (comments, next) := if l.isImmediate then ([], c) else c.skip
      match l.length? next.rest with
      | some n => some (leaf comments next n l.kind true)
      | none => none
    | .node kind p =>
      let (comments, start) := c.skip
      match run grammar how fuel p start with
      | none => none
      | some (ts, next) => some (comments ++ [.node kind start.pos next.pos none true ts], next)
    | .field name p =>
      match run grammar how fuel p c with
      | none => none
      | some (ts, next) => some (setField name ts, next)
    | .rule r => run grammar how fuel (grammar r) c
    | .only d => if how.dialect = d then some ([], c) else none
    | .forgiving => if how.forgiving then some ([], c) else none
    | .sameLine => if c.newlineBefore c.skip.2 then none else some ([], c)
    | .finish =>
      let (comments, next) := c.skip
      if next.rest.isEmpty then some (comments, next) else none
    | .ending e => if endsHere e c then some ([], c) else none
    | .stretch inBlock p =>
      if how.forgiving then
        let (comments, start) := c.skip
        match stretchLength inBlock start.rest with
        | 0 => none
        | n =>
          let next := start.advance n
          let parts := match run grammar how fuel p ⟨start.rest.take n, start.pos⟩ with
            | some (ts, _) => ts
            | none => []
          some (comments ++ [.node "ERROR" start.pos next.pos none true parts], next)
      else none
    | .character =>
      let (comments, next) := c.skip
      if next.rest.isEmpty then none else some (comments, next.advance 1)

end Peg

end ModuleGraph.Syntax
