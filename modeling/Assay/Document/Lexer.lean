import Assay.Document.Token

/-!
Splitting a text into tokens. Text without quotes ends at a comment, at a colon that is followed by a
blank, and inside brackets at what closes or separates their entries; it goes on over a line break if
the next line is indented more than the key or dash before it.
-/

namespace Assay.Document

def splitLines : List Char → List Char → List (List Char)
  | line, [] => [line.reverse]
  | line, '\r' :: '\n' :: rest => line.reverse :: splitLines [] rest
  | line, c :: rest =>
    if c = '\n' || c = '\r' then line.reverse :: splitLines [] rest
    else splitLines (c :: line) rest

structure Cursor where
  rest : List Char
  place : Place
  below : List (List Char)
deriving Repr, Inhabited

namespace Cursor

def skip (cursor : Cursor) (count : Nat) : Cursor :=
  { cursor with
    rest := cursor.rest.drop count
    place := { cursor.place with column := cursor.place.column + count } }

def isBlank (c : Char) : Bool := c = ' ' || c = '\t'

def skipBlanks (cursor : Cursor) : Cursor :=
  cursor.skip (cursor.rest.takeWhile isBlank).length

def nextLine? (cursor : Cursor) : Option Cursor :=
  match cursor.below with
  | [] => none
  | line :: below =>
    some { rest := line, place := { line := cursor.place.line + 1, column := 1 }, below }

end Cursor

/-- What the meaning of a character depends on: the brackets that are open, and the column that a line
must exceed to go on with the text of the line before. -/
structure Context where
  braces : Nat
  brackets : Nat
  indentColumn : Nat
deriving Repr, Inhabited

def Context.inBrackets (context : Context) : Bool := 0 < context.braces || 0 < context.brackets

/-- Whether a colon with this text behind it separates a key from a value. Inside braces it always
does. -/
def Context.separates (context : Context) (after : List Char) : Bool :=
  0 < context.braces ||
    match after with
    | [] => true
    | c :: _ => c = ' '

/-- Text without quotes up to the end of the line; `previous` is the character before. The flag says
whether the text ended before the line did. -/
def plainPart (context : Context) : Char → List Char → List Char → List Char × List Char × Bool
  | _, taken, [] => (taken.reverse, [], false)
  | previous, taken, c :: rest =>
    let ends :=
      (c = ':' && context.separates rest) ||
      (c = ',' && context.inBrackets) ||
      (c = '\x7d' && 0 < context.braces) ||
      (c = ']' && 0 < context.brackets) ||
      (c = '#' && Cursor.isBlank previous)
    if ends then (taken.reverse, c :: rest, true) else plainPart context c (c :: taken) rest

def trimBlanks (chars : List Char) : List Char :=
  (chars.reverse.dropWhile Cursor.isBlank).reverse

def indentOf (line : List Char) : Option (Nat × Char) :=
  match line.dropWhile (· = ' ') with
  | [] => none
  | c :: _ => some ((line.takeWhile (· = ' ')).length + 1, c)

structure PlainText where
  parts : List (List Char)
  cursor : Cursor

def plainLines (context : Context) (limit : Nat) : List (List Char) → Cursor → PlainText
  | below, cursor =>
    let (taken, rest, ended) := plainPart context ' ' [] cursor.rest
    let here := { cursor.skip taken.length with rest }
    if ended then { parts := [trimBlanks taken], cursor := here }
    else
      match below with
      | [] => { parts := [trimBlanks taken], cursor := here }
      | line :: others =>
        match indentOf line with
        | none => { parts := [trimBlanks taken], cursor := here }
        | some (column, first) =>
          if limit < column && first ≠ '#' then
            let next : Cursor :=
              { rest := line.drop (column - 1)
                place := { line := cursor.place.line + 1, column }
                below := others }
            let more := plainLines context limit others next
            { more with parts := trimBlanks taken :: more.parts }
          else { parts := [trimBlanks taken], cursor := here }

structure QuotedPart where
  taken : List Char
  read : Nat
  rest : Option (List Char)

def singleQuotedPart : List Char → Nat → List Char → QuotedPart
  | taken, read, [] => { taken, read, rest := none }
  | taken, read, '\x27' :: '\x27' :: rest => singleQuotedPart ('\x27' :: taken) (read + 2) rest
  | taken, read, c :: rest =>
    if c = '\x27' then { taken, read := read + 1, rest := some rest }
    else singleQuotedPart (c :: taken) (read + 1) rest

def hexValue (c : Char) : Option Nat :=
  if c.isDigit then some (c.toNat - '0'.toNat)
  else if 'a' ≤ c && c ≤ 'f' then some (c.toNat - 'a'.toNat + 10)
  else if 'A' ≤ c && c ≤ 'F' then some (c.toNat - 'A'.toNat + 10)
  else none

def hexNumber (digits : List Char) : Nat :=
  digits.foldl (fun number digit => number * 16 + (hexValue digit).getD 0) 0

def charOf (number : Nat) : Char :=
  if number.isValidChar then Char.ofNat number else Char.ofNat 0xFFFD

def simpleEscape? (c : Char) : Option Nat :=
  match c with
  | '0' => some 0
  | 'a' => some 7
  | 'b' => some 8
  | 't' => some 9
  | 'n' => some 10
  | 'v' => some 11
  | 'f' => some 12
  | 'r' => some 13
  | 'e' => some 27
  | '"' => some 34
  | '/' => some 47
  | '\\' => some 92
  | 'N' => some 0x85
  | '_' => some 0xA0
  | 'L' => some 0x2028
  | 'P' => some 0x2029
  | _ => none

def escapeWidth? (c : Char) : Option Nat :=
  if c = 'x' then some 2 else if c = 'u' then some 4 else if c = 'U' then some 8 else none

/-- The text between double quotes on one line; `skipped` characters belong to an escape that has been
understood. -/
def doubleQuotedPart : Nat → List Char → Nat → List Char → QuotedPart
  | _, taken, read, [] => { taken, read, rest := none }
  | skipped + 1, taken, read, _ :: rest => doubleQuotedPart skipped taken (read + 1) rest
  | 0, taken, read, c :: rest =>
    if c = '"' then { taken, read := read + 1, rest := some rest }
    else if c = '\\' then
      match rest with
      | [] => { taken, read := read + 1, rest := none }
      | mark :: after =>
        match simpleEscape? mark, escapeWidth? mark with
        | some number, _ => doubleQuotedPart 1 (charOf number :: taken) (read + 1) rest
        | none, some width =>
          let digits := after.take width
          if digits.length = width then
            doubleQuotedPart (width + 1) (charOf (hexNumber digits) :: taken) (read + 1) rest
          else doubleQuotedPart 0 (c :: taken) (read + 1) rest
        | none, none => doubleQuotedPart 0 (c :: taken) (read + 1) rest
    else doubleQuotedPart 0 (c :: taken) (read + 1) rest

/-- Quoted text over as many lines as it has. A line break counts as a blank and the blanks at the start
of a line are left out. The text is in reverse. -/
def quotedLines (part : List Char → Nat → List Char → QuotedPart) :
    List (List Char) → List Char → Cursor → Option (List Char × Cursor)
  | below, taken, cursor =>
    match part taken 0 cursor.rest with
    | { taken, read, rest := some rest } => some (taken, { cursor.skip read with rest })
    | { taken, rest := none, .. } =>
      match below with
      | [] => none
      | line :: others =>
        let blanks := (line.takeWhile Cursor.isBlank).length
        let next : Cursor :=
          { rest := line.drop blanks
            place := { line := cursor.place.line + 1, column := blanks + 1 }
            below := others }
        quotedLines part others (' ' :: taken) next

def skipBlock (limit : Nat) : List (List Char) → Nat → List (List Char) × Nat
  | [], skipped => ([], skipped)
  | line :: below, skipped =>
    match indentOf line with
    | none => skipBlock limit below (skipped + 1)
    | some (column, _) =>
      if limit < column then skipBlock limit below (skipped + 1) else (line :: below, skipped)

structure Lexing where
  cursor : Cursor
  context : Context
  tokens : List Token
deriving Inhabited

namespace Lexing

def emit (state : Lexing) (lexeme : Lexeme) (width : Nat) : Lexing :=
  { state with
    cursor := state.cursor.skip width
    tokens := { lexeme, place := state.cursor.place } :: state.tokens }

/-- The column that continuation lines must exceed: that of the last key or dash, or else that of the
first token of the line. -/
def continuationLimit (state : Lexing) : Nat :=
  if state.context.indentColumn = 0 then
    let line := state.cursor.place.line
    let columns := (state.tokens.filter fun token => token.place.line = line).map
      fun token => token.place.column
    columns.foldl min state.cursor.place.column
  else state.context.indentColumn

def plain (state : Lexing) : Lexing :=
  let text := plainLines state.context state.continuationLimit state.cursor.below state.cursor
  let joined := (" ".intercalate (text.parts.map String.ofList))
  { state with
    cursor := text.cursor
    tokens := { lexeme := .plain joined (1 < text.parts.length)
                place := state.cursor.place } :: state.tokens }

def quoted (state : Lexing) (part : List Char → Nat → List Char → QuotedPart) :
    Except SyntaxError Lexing :=
  let place := state.cursor.place
  let inner := state.cursor.skip 1
  match quotedLines part inner.below [] inner with
  | none => .error (.unclosedQuote place)
  | some (text, cursor) =>
    .ok { state with
          cursor
          tokens := { lexeme := .quoted (String.ofList text.reverse), place } :: state.tokens }

def colon (state : Lexing) : Lexing :=
  let column := match state.tokens with
    | { lexeme := .plain _ _, place } :: _ => place.column
    | { lexeme := .quoted _, place } :: _ => place.column
    | _ => state.context.indentColumn
  let marked := state.emit .colon 1
  { marked with context := { marked.context with indentColumn := column } }

def dash (state : Lexing) : Lexing :=
  let column := state.cursor.place.column
  let marked := state.emit .dash 1
  { marked with context := { marked.context with indentColumn := column } }

def block (state : Lexing) : Lexing :=
  let marked := state.emit .special 1
  let (below, skipped) := skipBlock state.context.indentColumn marked.cursor.below 0
  { marked with
    cursor :=
      { rest := []
        place := { marked.cursor.place with line := marked.cursor.place.line + skipped }
        below } }

def nameWidth (state : Lexing) : Nat :=
  1 + ((state.cursor.rest.drop 1).takeWhile fun c =>
    !Cursor.isBlank c && !(state.context.inBrackets && (c = ',' || c = '\x7d' || c = ']'))).length

def documentStart (state : Lexing) : Lexing :=
  let marked := state.emit .documentStart 3
  { marked with context := { braces := 0, brackets := 0, indentColumn := 0 } }

def openBrace (state : Lexing) : Lexing :=
  let marked := state.emit .openBrace 1
  { marked with context := { marked.context with braces := marked.context.braces + 1 } }

def closeBrace (state : Lexing) : Lexing :=
  let marked := state.emit .closeBrace 1
  { marked with context := { marked.context with braces := marked.context.braces - 1 } }

def openBracket (state : Lexing) : Lexing :=
  let marked := state.emit .openBracket 1
  { marked with context := { marked.context with brackets := marked.context.brackets + 1 } }

def closeBracket (state : Lexing) : Lexing :=
  let marked := state.emit .closeBracket 1
  { marked with context := { marked.context with brackets := marked.context.brackets - 1 } }

def startsBlank (chars : List Char) : Bool :=
  match chars with
  | [] => true
  | c :: _ => c = ' '

def isEntry (state : Lexing) (after : List Char) : Bool :=
  match after with
  | [] => !state.cursor.below.isEmpty
  | c :: _ => c = ' '

def token (state : Lexing) (c : Char) (after : List Char) : Except SyntaxError Lexing :=
  let atLineStart := state.cursor.place.column = 1
  if atLineStart && ['-', '-', '-'].isPrefixOf (c :: after) && startsBlank (after.drop 2) then
    .ok state.documentStart
  else if atLineStart && ['.', '.', '.'].isPrefixOf (c :: after) && startsBlank (after.drop 2) then
    .ok (state.emit .documentEnd 3)
  else if c = '-' && state.isEntry after then .ok state.dash
  else if c = ':' && state.context.separates after then .ok state.colon
  else if c = ',' && state.context.inBrackets then .ok (state.emit .comma 1)
  else if c = '\x7b' then .ok state.openBrace
  else if c = '\x7d' then .ok state.closeBrace
  else if c = '[' then .ok state.openBracket
  else if c = ']' then .ok state.closeBracket
  else if c = '\x27' then state.quoted singleQuotedPart
  else if c = '"' then state.quoted (doubleQuotedPart 0)
  else if c = '|' || c = '>' then .ok state.block
  else if c = '&' || c = '!' then .ok (state.emit .decoration state.nameWidth)
  else if c = '*' then .ok (state.emit .special state.nameWidth)
  else if c = '<' && after.head? = some '<' then .ok (state.emit .special 2)
  else .ok state.plain

/-- All tokens. Every round moves the cursor forward, so the length of the text with its line breaks is
enough fuel. -/
def run : Nat → Lexing → Except SyntaxError (List Token)
  | 0, state => .ok state.tokens.reverse
  | fuel + 1, state =>
    let skipped := { state with cursor := state.cursor.skipBlanks }
    match skipped.cursor.rest with
    | [] =>
      match skipped.cursor.nextLine? with
      | none => .ok skipped.tokens.reverse
      | some cursor => run fuel { skipped with cursor }
    | c :: after =>
      if c = '#' then
        run fuel { skipped with cursor := skipped.cursor.skip (after.length + 1) }
      else
        match skipped.token c after with
        | .error problem => .error problem
        | .ok next => run fuel next

end Lexing

def tokens (text : String) : Except SyntaxError (List Token) :=
  let chars := text.toList
  let cursor : Cursor :=
    match splitLines [] chars with
    | [] => { rest := [], place := ⟨1, 1⟩, below := [] }
    | line :: below => { rest := line, place := ⟨1, 1⟩, below }
  Lexing.run (2 * chars.length + 2)
    { cursor, context := { braces := 0, brackets := 0, indentColumn := 0 }, tokens := [] }

end Assay.Document
