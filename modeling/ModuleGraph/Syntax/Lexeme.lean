import ModuleGraph.Text.Hex
/-!
# Lexemes

The smallest parts of a script: words, numbers, strings, pieces of templates, regular
expressions, texts between tags, comments. A reader of a lexeme looks at the rest of a script and
answers how many characters the lexeme has, if it stands there.
-/

namespace ModuleGraph.Syntax

/-- White space between lexemes. -/
def isSpace (c : Char) : Bool :=
  let n := c.toNat
  (9 ≤ n && n ≤ 13) || n = 0x20 || n = 0x85 || n = 0xA0 || n = 0x1680 ||
    (0x2000 ≤ n && n ≤ 0x200B) || n = 0x2028 || n = 0x2029 || n = 0x202F || n = 0x205F ||
    n = 0x2060 || n = 0x3000 || n = 0xFEFF

/-- Characters that end the line that a statement may end with. -/
def isLineFeed (c : Char) : Bool := c = '\n' || c.toNat = 0x2028 || c.toNat = 0x2029

/-- Characters that end a comment of one line. -/
def isLineEnd (c : Char) : Bool := c = '\r' || isLineFeed c

/-- Signs of the language, none of which is part of a word. -/
def signs : List Char := ":;`\"'@#.,|^&<=>+-*/\\%?!~()[]\x7b\x7d".toList

/-- Characters that a word may hold. -/
def isWordPart (c : Char) : Bool := 0x20 < c.toNat && !isSpace c && !signs.contains c

/-- The length of the word at the head of the list, from a place inside a word. A backslash
belongs to a word where it begins an escape. -/
def wordTail : List Char → Nat
  | [] => 0
  | c :: r => if isWordPart c || (c = '\\' && r.head? = some 'u') then wordTail r + 1 else 0

/-- A word: its first character is no digit. -/
def word? (cs : List Char) : Option Nat :=
  match cs with
  | c :: _ => if c.isDigit || wordTail cs = 0 then none else some (wordTail cs)
  | [] => none

/-- A private name. -/
def privateName? : List Char → Option Nat
  | '#' :: r => (word? r).map (· + 1)
  | _ => none

/-- The number of digits at the head of the list, underscores among them. -/
def digitRun (isDigit : Char → Bool) (cs : List Char) : Nat :=
  (cs.takeWhile fun c => isDigit c || c = '_').length

/-- Digits of a number with a base of its own. -/
def basedDigit (base c : Char) : Bool :=
  if base = 'x' || base = 'X' then (Hex.digitValue? c).isSome
  else if base = 'o' || base = 'O' then '0' ≤ c && c ≤ '7'
  else c = '0' || c = '1'

/-- The length of an exponent. -/
def exponentLength (cs : List Char) : Nat :=
  match cs with
  | e :: r =>
    if e = 'e' || e = 'E' then
      let (signLength, r) := match r with
        | '+' :: t => (1, t)
        | '-' :: t => (1, t)
        | t => (0, t)
      match digitRun Char.isDigit r with
      | 0 => 0
      | n => 1 + signLength + n
    else 0
  | [] => 0

/-- The length of a mark for a large whole number. -/
def bigMark (cs : List Char) : Nat := if cs.head? = some 'n' then 1 else 0

/-- A number. -/
def number? (cs : List Char) : Option Nat :=
  match cs with
  | '0' :: b :: r =>
    if ['x', 'X', 'o', 'O', 'b', 'B'].contains b && digitRun (basedDigit b) r ≠ 0 then
      let n := digitRun (basedDigit b) r
      some (2 + n + bigMark (r.drop n))
    else decimal cs
  | _ => decimal cs
where
  /-- A number in base ten. -/
  decimal (cs : List Char) : Option Nat :=
    let whole := if (cs.head?.map Char.isDigit).getD false then digitRun Char.isDigit cs else 0
    let rest := cs.drop whole
    let fraction := match rest with
      | '.' :: r => match digitRun Char.isDigit r with
        | 0 => if whole = 0 then 0 else 1
        | n => n + 1
      | _ => 0
    if whole = 0 && fraction = 0 then none
    else
      let e := exponentLength (rest.drop fraction)
      some (whole + fraction + e + bigMark (rest.drop (fraction + e)))

/-- The characters after a backslash are an escape. -/
def isEscape : List Char → Bool
  | [] => false
  | 'x' :: r => (r.take 2).length = 2 && (r.take 2).all fun c => (Hex.digitValue? c).isSome
  | 'u' :: '\x7b' :: r =>
    let ds := r.takeWhile fun c => (Hex.digitValue? c).isSome
    !ds.isEmpty && (r.drop ds.length).head? = some '\x7d'
  | 'u' :: r => (r.take 4).length = 4 && (r.take 4).all fun c => (Hex.digitValue? c).isSome
  | _ :: _ => true

/-- What is left of a string with closing quote `q`, the quote included. -/
def stringTail (q : Char) : List Char → Option Nat
  | [] => none
  | '\\' :: '\r' :: '\n' :: r => (stringTail q r).map (· + 3)
  | '\\' :: c :: r => if isEscape (c :: r) then (stringTail q r).map (· + 2) else none
  | c :: r =>
    if c = q then some 1
    else if c = '\\' || c = '\n' || c = '\r' then none
    else (stringTail q r).map (· + 1)

/-- A string between quotes. -/
def string? : List Char → Option Nat
  | '"' :: r => (stringTail '"' r).map (· + 1)
  | '\'' :: r => (stringTail '\'' r).map (· + 1)
  | _ => none

/-- The value of an attribute between quotes, in which lines may end. -/
def attributeString? : List Char → Option Nat
  | q :: r =>
    if q = '"' || q = '\'' then
      let inside := (r.takeWhile (· ≠ q)).length
      if inside < r.length then some (inside + 2) else none
    else none
  | [] => none

/-- The text of a template up to its end or to the next substitution. -/
def templateText? : List Char → Option Nat
  | [] => none
  | '\\' :: _ :: r => (templateText? r).map (· + 2)
  | '`' :: _ => some 0
  | '$' :: '\x7b' :: _ => some 0
  | _ :: r => (templateText? r).map (· + 1)

/-- What is left of a regular expression, its closing slash included. -/
def regexTail (inClass : Bool) : List Char → Option Nat
  | [] => none
  | '\\' :: c :: r => if isLineFeed c then none else (regexTail inClass r).map (· + 2)
  | c :: r =>
    if isLineFeed c then none
    else if c = '/' && !inClass then some 1
    else (regexTail ((inClass || c = '[') && c ≠ ']') r).map (· + 1)

/-- A regular expression with its flags. -/
def regex? : List Char → Option Nat
  | '/' :: r =>
    (regexTail false r).map fun n => 1 + n + ((r.drop n).takeWhile Char.isLower).length
  | _ => none

/-- A character reference in a text between tags. -/
def reference? : List Char → Option Nat
  | '&' :: '#' :: x :: r =>
    if x = 'x' || x = 'X' then closed 3 6 (fun c => (Hex.digitValue? c).isSome) r
    else closed 2 5 Char.isDigit (x :: r)
  | '&' :: r => closed 1 30 Char.isAlpha r
  | _ => none
where
  /-- Between one and `most` characters of a kind and a semicolon, `before` of them passed. -/
  closed (before most : Nat) (kind : Char → Bool) (cs : List Char) : Option Nat :=
    let n := (cs.takeWhile kind).length
    if n ≠ 0 && n ≤ most && (cs.drop n).head? = some ';' then some (before + n + 1) else none

/-- A piece of the text between tags. -/
def tagText? (cs : List Char) : Option Nat :=
  match (cs.takeWhile fun c => !(['\x7b', '\x7d', '<', '>', '&'].contains c)).length with
  | 0 => reference? cs
  | n => some n

/-- The name of a tag or attribute, in which hyphens may stand. -/
def tagName? (cs : List Char) : Option Nat :=
  (word? cs).map fun _ => (cs.takeWhile fun c => isWordPart c || c = '-').length

/-- The first line of a script for a shell. -/
def hashbang? : List Char → Option Nat
  | '#' :: '!' :: r => some (2 + (r.takeWhile fun c => c ≠ '\n').length)
  | _ => none

/-- What is left of a comment that an asterisk and a slash end. -/
def blockCommentTail : List Char → Option Nat
  | [] => none
  | '*' :: '/' :: _ => some 2
  | _ :: r => (blockCommentTail r).map (· + 1)

/-- What is left of a comment after its first character. -/
def commentTail? (first : Char) (r : List Char) : Option Nat :=
  if first = '/' then
    match r with
    | '/' :: t => some (1 + (t.takeWhile fun c => !isLineEnd c).length)
    | '*' :: t => (blockCommentTail t).map (· + 1)
    | _ => none
  else none

/-- Where a malformed stretch of a script is being passed over. -/
inductive Passing where
  | code
  | text (quote : Char)
  | line
  | block
  deriving DecidableEq, Repr

/-- The length of a malformed stretch: up to the end of a statement or of a line, outside of
brackets if `counted`, of strings and of comments. Inside a block the brace that closes the block
ends it. None if the script ends inside brackets. -/
def stretchFrom (counted inBlock : Bool) : (depth : Nat) → Passing → List Char → Option Nat
  | depth, _, [] => if depth = 0 then some 0 else none
  | depth, .text q, '\\' :: _ :: r => (stretchFrom counted inBlock depth (.text q) r).map (2 + ·)
  | depth, .block, '*' :: '/' :: r => (stretchFrom counted inBlock depth .code r).map (2 + ·)
  | depth, .code, '/' :: '/' :: r => (stretchFrom counted inBlock depth .line r).map (2 + ·)
  | depth, .code, '/' :: '*' :: r => (stretchFrom counted inBlock depth .block r).map (2 + ·)
  | depth, mode, c :: r =>
    let goOn := fun (depth : Nat) (mode : Passing) =>
      (stretchFrom counted inBlock depth mode r).map (1 + ·)
    match mode with
    | .text q => goOn depth (if c = q || (c = '\n' && q ≠ '`') then .code else mode)
    | .line =>
      if !isLineEnd c then goOn depth mode
      else if depth = 0 then some 1
      else goOn depth .code
    | .block => goOn depth mode
    | .code =>
      if c = '"' || c = '\'' || c = '`' then goOn depth (.text c)
      else if c = '(' || c = '[' || c = '\x7b' then goOn (if counted then depth + 1 else depth) .code
      else if c = ')' || c = ']' then goOn (depth - 1) .code
      else if c = '\x7d' then
        if depth = 0 then (if inBlock then some 0 else some 1) else goOn (depth - 1) .code
      else if depth = 0 && (c = ';' || isLineEnd c) then some 1
      else goOn depth .code

/-- The length of a malformed stretch. Brackets that are never closed do not count. -/
def stretchLength (inBlock : Bool) (cs : List Char) : Nat :=
  ((stretchFrom true inBlock 0 .code cs).or (stretchFrom false inBlock 0 .code cs)).getD cs.length

end ModuleGraph.Syntax
