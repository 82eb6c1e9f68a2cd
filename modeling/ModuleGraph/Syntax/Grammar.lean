import ModuleGraph.Syntax.Peg
/-!
# The grammar of scripts

Parsing expressions for typed scripts in both dialects, with and without tags in expressions.
Only the nodes that matter to a search for module specifiers are built: import and export
statements, calls of `import` with their arguments, strings, comments, and malformed stretches.
Precedence of operators does not matter to such a search, so a chain of operators is flat.
-/

namespace ModuleGraph.Syntax

/-- The rules of the grammar. -/
inductive Rule where
  | program | statement | block | declaration | exportStatement | importStatement | importAlias
  | functionDeclaration | classDeclaration | classTail | classMember | enumDeclaration
  | variableDeclaration | moduleDeclaration | typeAlias | interfaceDeclaration | semicolon
  | forStatement | switchStatement | tryStatement
  | expressions | expression | arrow | binary | operand | unary | leftHand | suffix | newExpression
  | importCall | arguments | argument | primary | parenthesized | template | array | object
  | property | functionExpression | tag | tagChildren | tagValue | decorator
  | propertyName | pattern | target | initializer | parameters | callSignature
  | typeParameters | typeArguments | typeClause | returnType | type | functionType | union
  | typeOperand | typePrimary | importType | objectType | typeMember | indexSignature | tupleMember
  deriving DecidableEq, Repr, Inhabited

namespace Grammar

open Peg

/-- A sign that may be followed by anything. -/
def s (text : String) : Peg Rule := .sign text ""

/-- The sign of an assignment. -/
def equals : Peg Rule := .sign "=" "=>"

/-- Any word. -/
def anyWord : Peg Rule := .lexeme (.name [])

/-- One of several words of the language. -/
def oneWord (ws : List String) : Peg Rule := .alt (ws.map .word)

/-- A list with commas between its items and perhaps one at its end. -/
def listed (p : Peg Rule) : Peg Rule :=
  .opt (.seq [p, .many (.seq [s ",", p]), .opt (s ",")])

/-- A list with at least one item. -/
def listed1 (p : Peg Rule) : Peg Rule := .seq [p, .many (.seq [s ",", p])]

/-- A list in which items may be missing between commas. -/
def sparse (p : Peg Rule) : Peg Rule := .seq [.opt p, .many (.seq [s ",", .opt p])]

/-- The place of a semicolon that is missing before a statement with a word of its own. -/
def missingEnd : Peg Rule :=
  .node "ERROR" (.seq [.forgiving, .ahead (oneWord ["import", "export", "const", "var", "function",
    "class", "enum", "interface", "if", "for", "while", "return", "throw", "try", "switch"])])

/-- The end of a statement after something of a kind. -/
def endOf (e : Ending) : Peg Rule := .alt [s ";", .ending e, missingEnd]

/-- The closing sign of a list. In a forgiving reading it may be missing before a semicolon. -/
def closing (text : String) : Peg Rule :=
  .alt [s text, .node "ERROR" (.seq [.forgiving, .ahead (s ";")])]

/-- The brace that closes a block. In a forgiving reading it may be missing at the end of the
script. -/
def closingBrace : Peg Rule := .alt [s "\x7d", .node "ERROR" (.seq [.forgiving, .finish])]

/-- Words that begin an expression other than a name. -/
def operatorWords : List String :=
  ["function", "class", "new", "await", "yield", "typeof", "void", "delete", "import"]

/-- A name as an expression. -/
def name : Peg Rule := .lexeme (.name operatorWords)

/-- Words with which no expression statement begins. -/
def statementWords : List String :=
  ["if", "for", "while", "do", "switch", "try", "with", "break", "continue", "return", "throw",
   "debugger", "var", "const", "export", "else", "case", "default", "enum", "interface"]

/-- Names with points between them. -/
def entity : Peg Rule := .seq [anyWord, .many (.seq [.sign "." ".", anyWord])]

/-- Words before a member of a class or of an object type. -/
def memberModifiers : Peg Rule :=
  .many (.seq [oneWord ["public", "private", "protected", "static", "override", "readonly",
    "abstract", "declare", "async", "accessor"],
    .ahead (.alt [.rule .propertyName, s "*"])])

/-- The kind of a method. -/
def methodKind : Peg Rule :=
  .opt (.alt [s "*", .seq [oneWord ["get", "set"], .ahead (.rule .propertyName)]])

/-- A module name with quotes, as the source of a statement. -/
def source : Peg Rule := .field "source" (.lexeme .string)

/-- The source of an import or export clause. -/
def fromClause : Peg Rule := .seq [.word "from", source]

/-- A name of a module's interface. -/
def exportName : Peg Rule := .alt [.lexeme .string, anyWord]

/-- The place after a name in braces. -/
def afterSpecifier : Peg Rule := .ahead (.alt [s ",", s "\x7d"])

/-- A name in braces, perhaps renamed and perhaps of a type. -/
def specifier : Peg Rule :=
  .alt [
    .seq [exportName, afterSpecifier],
    .seq [exportName, .word "as", exportName, afterSpecifier],
    .seq [oneWord ["type", "typeof"], exportName, afterSpecifier],
    .seq [oneWord ["type", "typeof"], exportName, .word "as", exportName, afterSpecifier]]

/-- Names in braces. -/
def specifiers : Peg Rule := .seq [s "\x7b", listed specifier, s "\x7d"]

/-- All of a module under one name. -/
def namespaceImport : Peg Rule := .seq [s "*", .word "as", anyWord]

/-- What an import statement imports. -/
def importClause : Peg Rule :=
  .alt [namespaceImport, specifiers,
    .seq [anyWord, .opt (.seq [s ",", .alt [namespaceImport, specifiers]])]]

/-- Attributes of an import. -/
def importAttributes : Peg Rule := .seq [oneWord ["with", "assert"], .rule .object]

/-- A malformed clause and a source, in a forgiving reading. -/
def malformedClause : Peg Rule :=
  let part := .alt [anyWord, s "\x7b", s "\x7d", s ",", s "*"]
  .seq [.forgiving, .node "ERROR" (.seq [part, .many part]), source]

/-- The part of an import statement between the word and the attributes. -/
def importBody : Peg Rule :=
  .alt [
    .seq [importClause, fromClause],
    .node "import_require_clause"
      (.seq [anyWord, equals, .word "require", s "(", source, s ")"]),
    source, malformedClause]

/-- The words after `export` in an export of names. -/
def exportBody : Peg Rule :=
  .alt [
    .seq [s "*", .opt (.seq [.word "as", exportName]), fromClause],
    .seq [.node "ERROR" (.word "type"), s "*", .opt (.seq [.word "as", exportName]), fromClause],
    .seq [.opt (.word "type"), specifiers, fromClause],
    .seq [.opt (.word "type"), specifiers, .absent (.alt [.word "from", .lexeme .string])],
    .seq [.ahead (.alt [s "*", s "\x7b"]), malformedClause]]

/-- A parameter of a function. -/
def parameter : Peg Rule :=
  .seq [.many (.rule .decorator),
    .many (.seq [oneWord ["public", "private", "protected", "override", "readonly"],
      .ahead (.alt [anyWord, s "\x7b", s "["])]),
    .alt [.seq [s "...", .alt [.rule .pattern, anyWord]], .rule .pattern, anyWord],
    .opt (s "?"), .opt (.rule .typeClause), .opt (.rule .initializer)]

/-- A variable with its type and first value. -/
def declarator : Peg Rule :=
  .seq [.alt [.rule .pattern, anyWord], .opt (.sign "!" "="), .opt (.rule .typeClause),
    .opt (.rule .initializer)]

/-- Words that declare variables. -/
def variableWords : Peg Rule := oneWord ["let", "const", "var"]

/-- Operators between two operands. -/
def operators : Peg Rule :=
  .alt [
    .sign "**" "=", .sign "*" "*=", .sign "/" "=", .sign "%" "=", .sign "+" "+=", .sign "-" "-=",
    .sign ">>>" "=", .sign ">>" ">=", .sign ">=" "", .sign ">" ">=",
    .sign "<<" "=", .sign "<=" "", .sign "<" "<=",
    .sign "===" "", .sign "==" "=", .sign "!==" "", .sign "!=" "=",
    .sign "&&" "=", .sign "||" "=", .sign "??" "=", .sign "&" "&=", .sign "|" "|=",
    .sign "^" "=", .word "instanceof", .word "in"]

/-- Operators that assign. -/
def assignments : Peg Rule :=
  .alt ([equals] ++ (["+=", "-=", "*=", "/=", "%=", "**=", "<<=", ">>=", ">>>=", "&=", "|=", "^=",
    "&&=", "||=", "??="].map s))

/-- The sign of a choice between two expressions. -/
def questionMark : Peg Rule :=
  .alt [.sign "?" ".?", .seq [s "?", .ahead (.seq [s ".", .lexeme .number])]]

/-- What may follow a name with type arguments that is not called. -/
def afterInstantiation : Peg Rule :=
  .alt ([.finish, .absent .sameLine] ++
    ([")", "]", "\x7d", ":", ";", ",", ".", "?", "=", "!=", "&", "|", "^", "*", "/", "%"].map s))

/-- An index in brackets. -/
def index : Peg Rule := .seq [s "[", .rule .expressions, s "]"]

/-- A point and a name. -/
def member : Peg Rule := .seq [.sign "." ".", .alt [anyWord, .lexeme .privateName]]

/-- A value in a tag, in braces. -/
def braced : Peg Rule :=
  .seq [s "\x7b", .opt (.alt [.seq [s "...", .rule .expression], .rule .expressions]), s "\x7d"]

/-- The name of a tag. -/
def fullTagName : Peg Rule :=
  .seq [.lexeme .tagName,
    .alt [.seq [s ":", .lexeme .tagName], .many (.seq [.sign "." ".", anyWord])]]

/-- An attribute of a tag. -/
def tagAttribute : Peg Rule :=
  .alt [braced,
    .seq [.lexeme .tagName, .opt (.seq [s ":", .lexeme .tagName]),
      .opt (.seq [s "=", .rule .tagValue])]]

/-- The first half of a tag. -/
def openTag : Peg Rule :=
  .seq [s "<", fullTagName, .opt (.rule .typeArguments), .many tagAttribute, s ">"]

/-- One lexeme of a malformed stretch, or a part of it that can be read as a whole. A word behind a
point or an opening brace is the name of a property. -/
def fragment : Peg Rule :=
  .alt [
    .seq [.alt [s ".", s "\x7b"], anyWord], .rule .importCall, anyWord, .lexeme .string,
    .rule .template, .lexeme .number, .seq [.only .tags, .rule .tag], .character]

/-- A malformed stretch. A tag in it that is never closed makes text of all that follows, up to the
end of the script. -/
def stretch (inBlock : Bool) : Peg Rule :=
  .alt [
    .node "ERROR" (.seq [.forgiving, .only .tags,
      .many (.seq [.sameLine, .absent (s ";"), .absent (.seq [.absent (.rule .tag), openTag]),
        fragment]),
      openTag,
      .many (.alt [.lexeme .tagText, .rule .tag, braced, openTag, .character])]),
    .stretch inBlock (.many fragment)]

/-- A condition on a value, which a function returns. -/
def predicate : Peg Rule :=
  .alt [
    .seq [.word "asserts", .lexeme (.name ["is"]), .opt (.seq [.word "is", .rule .type])],
    .seq [anyWord, .word "is", .rule .type]]

/-- The end of a statement with a source. In a forgiving reading more words may stand before it, and
what is left of malformed attributes. -/
def endOfClause : Peg Rule :=
  .alt [endOf .other,
    .node "ERROR" (.seq [.forgiving, .sameLine, anyWord,
      .many (.seq [.sameLine, .absent (s ";"), fragment]), .opt (s ";")])]

/-- The expression of each rule. -/
def rules : Rule → Peg Rule
  | .program =>
    .seq [.opt (.lexeme .hashbang), .many (.alt [.rule .statement, stretch false]), .finish]
  | .block =>
    .seq [s "\x7b", .many (.alt [.rule .statement, stretch true]), closingBrace]
  | .semicolon => endOf .expression
  | .statement =>
    .alt [
      .rule .exportStatement, .rule .importStatement, .rule .declaration, .rule .block,
      s ";",
      .seq [.word "if", .rule .parenthesized, .rule .statement,
        .opt (.seq [.word "else", .rule .statement])],
      .rule .forStatement,
      .seq [.word "while", .rule .parenthesized, .rule .statement],
      .seq [.word "do", .rule .statement, .word "while", .rule .parenthesized,
        .opt (s ";")],
      .rule .switchStatement, .rule .tryStatement,
      .seq [.word "with", .rule .parenthesized, .rule .statement],
      .seq [.word "return",
        .alt [endOf .other, .seq [.rule .expressions, .rule .semicolon]]],
      .seq [.word "throw", .rule .expressions, .rule .semicolon],
      .seq [oneWord ["break", "continue"], .opt (.seq [.sameLine, anyWord]), endOf .other],
      .seq [.word "debugger", endOf .other],
      .seq [.lexeme (.name ["case", "default"]), s ":", .rule .statement],
      .seq [.absent (oneWord statementWords), .rule .expressions, .rule .semicolon]]
  | .declaration =>
    .alt [
      .rule .functionDeclaration, .rule .classDeclaration, .rule .enumDeclaration,
      .rule .variableDeclaration, .rule .moduleDeclaration, .rule .typeAlias,
      .rule .interfaceDeclaration, .rule .importAlias,
      .seq [.word "declare", .sameLine,
        .alt [.rule .declaration, .seq [.word "global", .rule .block],
          .seq [.word "module", s ".", anyWord, s ":", .rule .type, endOf .other]]]]
  | .exportStatement =>
    .node "export_statement"
      (.seq [.many (.rule .decorator), .word "export",
        .alt [
          .seq [exportBody, .opt (.node "ERROR" importAttributes), endOfClause],
          .seq [.word "default",
            .alt [.rule .declaration, .seq [.rule .expression, .rule .semicolon]]],
          .seq [.word "as", .word "namespace", anyWord, endOf .other],
          .seq [equals, .rule .expression, .rule .semicolon],
          .rule .declaration]])
  | .importStatement =>
    .node "import_statement"
      (.seq [.word "import",
        .alt [.seq [oneWord ["type", "typeof"], importBody], importBody],
        .opt importAttributes, endOfClause])
  | .importAlias =>
    .seq [.word "import", .opt (.seq [.word "type", .ahead anyWord]), anyWord, equals, entity,
      .absent (s "("), endOf .other]
  | .functionDeclaration =>
    .seq [.opt (.word "async"), .word "function", .opt (s "*"), anyWord, .rule .callSignature,
      .alt [.rule .block, s ";", .ending .signature]]
  | .classDeclaration =>
    .seq [.many (.rule .decorator), .opt (.word "abstract"), .word "class",
      .lexeme (.name ["extends", "implements"]), .rule .classTail]
  | .classTail =>
    .seq [.opt (.rule .typeParameters),
      .opt (.seq [.word "extends",
        listed1 (.seq [.rule .leftHand, .opt (.rule .typeArguments)])]),
      .opt (.seq [.word "implements", listed1 (.rule .type)]),
      s "\x7b", .many (.alt [.rule .classMember, stretch true]), closingBrace]
  | .classMember =>
    .alt [
      s ";",
      .seq [.word "static", .rule .block],
      .seq [.many (.rule .decorator), memberModifiers,
        .alt [
          .seq [.rule .indexSignature, .alt [s ",", endOf .other]],
          .seq [methodKind, .rule .propertyName, .opt (.alt [s "?", s "!"]), .rule .callSignature,
            .alt [.rule .block, s ";", s ",", .ending .signature]],
          .seq [.rule .propertyName, .opt (.alt [s "?", s "!"]), .opt (.rule .typeClause),
            .opt (.rule .initializer), .alt [s ",", .rule .semicolon]]]]]
  | .enumDeclaration =>
    .seq [.opt (.word "const"), .word "enum", anyWord, s "\x7b",
      listed (.seq [.rule .propertyName, .opt (.rule .initializer)]), s "\x7d"]
  | .variableDeclaration =>
    .seq [variableWords, listed1 declarator, .rule .semicolon]
  | .moduleDeclaration =>
    .seq [oneWord ["module", "namespace"], .sameLine, .alt [.lexeme .string, entity],
      .alt [.rule .block, .ahead (endOf .other)]]
  | .typeAlias =>
    .seq [.word "type", anyWord, .opt (.rule .typeParameters), equals, .rule .type,
      endOf .other]
  | .interfaceDeclaration =>
    .seq [.word "interface", anyWord, .opt (.rule .typeParameters),
      .opt (.seq [.word "extends",
        listed1 (.seq [entity, .opt (.rule .typeArguments)])]),
      .rule .objectType]
  | .forStatement =>
    .seq [.word "for", .opt (.word "await"), s "(",
      .alt [
        .seq [
          .alt [
            .seq [variableWords, .alt [.rule .pattern, anyWord], .opt (.rule .typeClause),
              .opt (.rule .initializer)],
            .rule .pattern, .rule .leftHand],
          oneWord ["of", "in"], .rule .expressions],
        .seq [
          .alt [.seq [variableWords, listed1 declarator, s ";"],
            .seq [.rule .expressions, s ";"], s ";"],
          .alt [.seq [.rule .expressions, s ";"], s ";"],
          .opt (.rule .expressions)]],
      s ")", .rule .statement]
  | .switchStatement =>
    .seq [.word "switch", .rule .parenthesized, s "\x7b",
      .many (.seq [
        .alt [.seq [.word "case", .rule .expressions, s ":"], .seq [.word "default", s ":"]],
        .many (.rule .statement)]),
      s "\x7d"]
  | .tryStatement =>
    .seq [.word "try", .rule .block,
      .opt (.seq [.word "catch",
        .opt (.seq [s "(", .alt [.rule .pattern, anyWord], .opt (.rule .typeClause), s ")"]),
        .rule .block]),
      .opt (.seq [.word "finally", .rule .block])]
  | .expressions => listed1 (.rule .expression)
  | .expression =>
    .alt [
      .rule .arrow,
      .seq [.word "yield",
        .alt [.seq [s "*", .rule .expression], .opt (.seq [.sameLine, .rule .expression])]],
      .seq [.rule .pattern, equals, .rule .expression],
      .seq [.rule .binary,
        .alt [
          .seq [assignments, .rule .expression],
          .seq [questionMark, .rule .expression, s ":", .rule .expression],
          .seq [questionMark, .rule .binary, s ":", .rule .expression],
          .seq []]]]
  | .arrow =>
    .alt [
      .seq [.word "async", .sameLine, .alt [name, .rule .callSignature], s "=>",
        .alt [.rule .block, .rule .expression]],
      .seq [.alt [name, .rule .callSignature], s "=>",
        .alt [.rule .block, .rule .expression]]]
  | .binary =>
    .seq [.rule .unary,
      .many (.alt [
        .seq [.sameLine, oneWord ["as", "satisfies"], .rule .type],
        .seq [operators, .rule .operand]])]
  | .operand => .alt [.rule .arrow, .rule .unary]
  | .unary =>
    .alt [
      .seq [.alt [s "!", s "~", s "++", s "--", .sign "+" "+", .sign "-" "-",
          oneWord ["typeof", "void", "delete", "await"]],
        .rule .unary],
      .seq [.only .plain, .rule .typeArguments, .rule .unary],
      .seq [.rule .leftHand, .opt (.seq [.sameLine, .alt [s "++", s "--"]])]]
  | .leftHand =>
    .seq [.alt [.rule .newExpression, .rule .importCall, .rule .primary], .many (.rule .suffix)]
  | .suffix =>
    .alt [
      .seq [.sign "?." "0123456789",
        .alt [index, .seq [.opt (.rule .typeArguments), .rule .arguments], anyWord,
          .lexeme .privateName, .rule .template]],
      member, index, .rule .arguments, .rule .template,
      .seq [.sameLine, .sign "!" "="],
      .seq [.rule .typeArguments,
        .alt [.rule .arguments, .rule .template, .ahead afterInstantiation]]]
  | .newExpression =>
    .seq [.word "new",
      .alt [
        .seq [s ".", anyWord],
        .seq [.alt [.rule .newExpression, .rule .importCall, .rule .primary],
          .many (.alt [member, index, .rule .template, .seq [.sameLine, .sign "!" "="]]),
          .opt (.rule .typeArguments), .opt (.rule .arguments)]]]
  | .importCall =>
    .alt [
      .node "call_expression"
        (.seq [.field "function" (.node "import" (.word "import")), .opt (.rule .typeArguments),
          .field "arguments" (.rule .arguments)]),
      .seq [.word "import", s ".", anyWord]]
  | .arguments => .node "arguments" (.seq [s "(", sparse (.rule .argument), closing ")"])
  | .argument =>
    .alt [
      .seq [.lexeme .string, .ahead (.alt [s ",", closing ")"])],
      .node "expression" (.seq [.opt (s "..."), .rule .expression])]
  | .primary =>
    .alt [
      .lexeme .string, .lexeme .number, .rule .template, .rule .parenthesized, .rule .array,
      .rule .object, .lexeme .regex, .seq [.only .tags, .rule .tag], .rule .functionExpression,
      .seq [.many (.rule .decorator), .word "class",
        .opt (.lexeme (.name ["extends", "implements"])), .rule .classTail],
      name, .lexeme .privateName]
  | .parenthesized =>
    .seq [s "(", .rule .expressions, .opt (.rule .typeClause), s ")"]
  | .template =>
    .seq [s "`", .lexeme .templateText,
      .many (.seq [s "$\x7b", .rule .expressions, s "\x7d", .lexeme .templateText]), s "`"]
  | .array =>
    .seq [s "[", sparse (.seq [.opt (s "..."), .rule .expression]), s "]"]
  | .object => .seq [s "\x7b", sparse (.rule .property), s "\x7d"]
  | .property =>
    .alt [
      .seq [s "...", .rule .expression],
      .seq [.rule .propertyName, s ":", .rule .expression],
      .seq [memberModifiers, methodKind, .rule .propertyName, .opt (s "?"), .rule .callSignature,
        .rule .block],
      .seq [anyWord, .ahead (.alt [s ",", s "\x7d"])]]
  | .functionExpression =>
    .seq [.opt (.word "async"), .word "function", .opt (s "*"), .opt anyWord,
      .rule .callSignature, .rule .block]
  | .tag =>
    .alt [
      .seq [s "<", s ">", .rule .tagChildren, s "<", s "/", s ">"],
      .seq [s "<", fullTagName, .opt (.rule .typeArguments), .many tagAttribute,
        .alt [
          .seq [s "/", s ">"],
          .seq [s ">", .rule .tagChildren, s "<", s "/", fullTagName, s ">"]]]]
  | .tagChildren => .many (.alt [.lexeme .tagText, .rule .tag, braced])
  | .tagValue => .alt [.lexeme .attributeString, braced, .rule .tag]
  | .decorator =>
    .seq [s "@",
      .alt [.rule .parenthesized,
        .seq [anyWord, .many member, .opt (.rule .typeArguments), .opt (.rule .arguments)]]]
  | .propertyName =>
    .alt [anyWord, .lexeme .privateName, .lexeme .string, .lexeme .number,
      .seq [s "[", .rule .expression, s "]"]]
  | .pattern =>
    .alt [
      .seq [s "\x7b",
        sparse (.alt [
          .seq [s "...", .rule .target],
          .seq [.rule .propertyName, s ":", .rule .target, .opt (.rule .initializer)],
          .seq [anyWord, .opt (.rule .initializer)]]),
        s "\x7d"],
      .seq [s "[",
        sparse (.alt [
          .seq [s "...", .rule .target],
          .seq [.rule .target, .opt (.rule .initializer)]]),
        s "]"]]
  | .target => .alt [.rule .pattern, .seq [name, .many (.alt [member, index])]]
  | .initializer => .seq [equals, .rule .expression]
  | .parameters => .seq [s "(", listed parameter, s ")"]
  | .callSignature =>
    .seq [.opt (.rule .typeParameters), .rule .parameters, .opt (.rule .returnType)]
  | .typeParameters =>
    .seq [s "<",
      listed1 (.seq [.opt (.seq [.word "const", .ahead anyWord]), anyWord,
        .opt (.seq [.alt [.word "extends", s ":"], .rule .type]),
        .opt (.seq [equals, .rule .type])]),
      .opt (s ","), s ">"]
  | .typeArguments => .seq [.sign "<" "<=", listed1 (.rule .type), .opt (s ","), s ">"]
  | .typeClause => .seq [s ":", .rule .type]
  | .returnType => .seq [s ":", .alt [predicate, .rule .type]]
  | .type =>
    .seq [.rule .union,
      .opt (.seq [.word "extends", .rule .union, s "?", .rule .type, s ":", .rule .type])]
  | .functionType =>
    .seq [.opt (.rule .typeParameters), .rule .parameters, s "=>",
      .alt [predicate, .rule .type]]
  | .union =>
    .seq [.opt (.alt [.sign "|" "|", .sign "&" "&"]), .rule .typeOperand,
      .many (.seq [.alt [.sign "|" "|", .sign "&" "&"], .rule .typeOperand])]
  | .typeOperand =>
    .alt [
      .rule .functionType,
      .seq [.opt (.word "abstract"), .word "new", .opt (.rule .typeParameters),
        .rule .parameters, s "=>", .rule .type],
      .seq [oneWord ["readonly", "keyof"], .rule .typeOperand],
      .seq [.word "unique", .word "symbol"],
      .seq [.word "infer", anyWord,
        .opt (.seq [.word "extends", .rule .type])],
      .seq [.rule .importType,
        .many (.node "ERROR" (.alt [.rule .typeArguments,
          .seq [.sameLine, s "[", .opt (.rule .type), s "]"]]))],
      .seq [.rule .typePrimary, .many (.seq [.sameLine, s "[", .opt (.rule .type), s "]"])]]
  | .importType =>
    .seq [
      .node "call_expression"
        (.seq [.field "function" (.node "import" (.word "import")),
          .field "arguments" (.rule .arguments)]),
      .many member]
  | .typePrimary =>
    .alt [
      .seq [s "(", .rule .type, s ")"],
      .rule .objectType,
      .seq [s "[", listed (.rule .tupleMember), s "]"],
      .seq [s "`", .lexeme .templateText,
        .many (.seq [s "$\x7b", .rule .type, s "\x7d", .lexeme .templateText]), s "`"],
      .lexeme .string, .seq [.opt (.alt [s "-", s "+"]), .lexeme .number], s "*",
      .seq [s "?", .rule .typePrimary],
      .seq [.word "typeof",
        .alt [.rule .importType,
          .seq [anyWord, .many (.alt [member, .seq [.sameLine, s "[",
            .alt [.lexeme .string, .lexeme .number, anyWord], s "]"]])]],
        .opt (.seq [.sameLine, .alt [.rule .typeArguments, .rule .arguments]])],
      .seq [anyWord, .many (.seq [.sign "." ".", anyWord]),
        .opt (.seq [.sameLine, .rule .typeArguments])]]
  | .objectType =>
    .seq [s "\x7b", .opt (.alt [s ",", s ";"]),
      .many (.seq [.rule .typeMember, .alt [s ",", endOf .other]]), s "\x7d"]
  | .typeMember =>
    .seq [memberModifiers,
      .alt [
        .rule .indexSignature,
        .seq [.opt (.word "abstract"), .word "new", .opt (.rule .typeParameters),
          .rule .parameters, .opt (.rule .typeClause)],
        .rule .callSignature,
        .seq [methodKind, .rule .propertyName, .opt (s "?"), .rule .callSignature],
        .seq [.rule .propertyName, .opt (s "?"), .opt (.rule .typeClause)]]]
  | .indexSignature =>
    .seq [.opt (.seq [.opt (.alt [s "-", s "+"]), .word "readonly"]), s "[", anyWord,
      .alt [
        .seq [s ":", .rule .type],
        .seq [.word "in", .rule .type, .opt (.seq [.word "as", .rule .type])]],
      s "]", .opt (.alt [s "-", s "+"]), .opt (s "?"), .rule .typeClause]
  | .tupleMember =>
    .alt [
      .seq [s "...", .opt (.seq [anyWord, s ":"]), .rule .type],
      .seq [anyWord, .opt (s "?"), s ":", .rule .type],
      .seq [.rule .type, .opt (s "?")]]

end Grammar

end ModuleGraph.Syntax
