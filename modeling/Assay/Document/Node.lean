import Assay.Document.Lexer
import Assay.Document.Scalar

/-!
Documents as trees of nodes that know their place, and how they are built from tokens.
-/

namespace Assay.Document

/-- An indented mapping stands at the colon of its first entry, an indented sequence at its first dash,
a collection in brackets at its opening bracket. -/
inductive Node
  | scalar (place : Place) (value : Scalar)
  | mapping (place : Place) (entries : List (Node × Node))
  | sequence (place : Place) (items : List Node)
  | special (place : Place)
deriving Repr, Inhabited

def Node.place : Node → Place
  | scalar place _ => place
  | mapping place _ => place
  | sequence place _ => place
  | special place => place

def leaf? (token : Token) : Option Node :=
  match token.lexeme with
  | .plain text _ => some (.scalar token.place (Scalar.ofPlain text))
  | .quoted text => some (.scalar token.place (.text text))
  | .special => some (.special token.place)
  | _ => none

def isColon (tokens : List Token) : Bool :=
  match tokens with
  | { lexeme := .colon, .. } :: _ => true
  | _ => false

/-- The token is text that can only be the next key of a mapping whose key stands in that column. -/
def isNextKey (column : Nat) (token : Token) : Bool :=
  token.place.column = column &&
    match token.lexeme with
    | .plain text _ =>
      match Scalar.ofPlain text with
      | .text _ => true
      | _ => false
    | _ => false

def missingPlace (colon : Place) : Place := { colon with column := colon.column + 1 }

def key (token : Token) : Except SyntaxError Node :=
  match token.lexeme with
  | .plain _ true => .error (.keySpansLines token.place)
  | _ =>
    match leaf? token with
    | some node => .ok node
    | none => .error (.keyExpected token.place)

abbrev Parsed (α : Type) := Except SyntaxError (α × List Token)

mutual

/-- The node that starts with the first token; none if no node can start there, in which case the token
is dropped. -/
def parseNode : Nat → List Token → Parsed (Option Node)
  | 0, tokens => .ok (none, tokens)
  | _, [] => .ok (none, [])
  | fuel + 1, token :: rest =>
    if isColon rest then
      match parseEntries fuel (token :: rest) with
      | .ok ((place, entries), rest) => .ok (some (.mapping place entries), rest)
      | .error problem => .error problem
    else
      match leaf? token with
      | some node => .ok (some node, rest)
      | none =>
        match token.lexeme with
        | .openBrace =>
          match parseBraces fuel token.place rest with
          | .ok (entries, rest) => .ok (some (.mapping token.place entries), rest)
          | .error problem => .error problem
        | .openBracket =>
          match parseBrackets fuel rest with
          | .ok (items, rest) => .ok (some (.sequence token.place items), rest)
          | .error problem => .error problem
        | .dash =>
          match parseDashes fuel token.place rest with
          | .ok (items, rest) => .ok (some (.sequence token.place items), rest)
          | .error problem => .error problem
        | .decoration =>
          match parseNode fuel rest with
          | .ok (some _, rest) => .ok (some (.special token.place), rest)
          | .ok (none, _) => .error (.valueExpected token.place)
          | .error problem => .error problem
        | _ => .ok (none, rest)

def parseValue : Nat → Place → Place → List Token → Parsed Node
  | 0, _, colon, tokens => .ok (.scalar (missingPlace colon) .null, tokens)
  | _, _, colon, [] => .ok (.scalar (missingPlace colon) .null, [])
  | fuel + 1, key, colon, token :: rest =>
    if isNextKey key.column token || token.place.column < key.column then
      .ok (.scalar (missingPlace colon) .null, token :: rest)
    else
      match parseNode fuel (token :: rest) with
      | .ok (some node, rest) => .ok (node, rest)
      | .ok (none, _) => .error (.valueExpected colon)
      | .error problem => .error problem

def parseEntry : Nat → List Token → Parsed (Place × Node × Node)
  | 0, _ => .error (.keyExpected ⟨0, 0⟩)
  | _, [] => .error (.keyExpected ⟨0, 0⟩)
  | fuel + 1, token :: rest =>
    match key token with
    | .error problem => .error problem
    | .ok name =>
      match rest with
      | { lexeme := .colon, place } :: rest =>
        match parseValue fuel token.place place rest with
        | .ok (value, rest) => .ok ((place, name, value), rest)
        | .error problem => .error problem
      | _ => .error (.keyExpected token.place)

def parseEntries : Nat → List Token → Parsed (Place × List (Node × Node))
  | 0, _ => .error (.keyExpected ⟨0, 0⟩)
  | fuel + 1, tokens =>
    match parseEntry fuel tokens with
    | .error problem => .error problem
    | .ok ((place, name, value), rest) =>
      match rest with
      | next :: after =>
        if isColon after && next.place.column = name.place.column then
          match parseEntries fuel (next :: after) with
          | .ok ((_, entries), rest) => .ok ((place, (name, value) :: entries), rest)
          | .error problem => .error problem
        else .ok ((place, [(name, value)]), rest)
      | [] => .ok ((place, [(name, value)]), rest)

def parseBraces : Nat → Place → List Token → Parsed (List (Node × Node))
  | 0, place, _ => .error (.unclosedBrace place)
  | _, place, [] => .error (.unclosedBrace place)
  | fuel + 1, place, token :: rest =>
    match token.lexeme with
    | .closeBrace => .ok ([], rest)
    | .comma => parseBraces fuel place rest
    | _ =>
      match parseEntry fuel (token :: rest) with
      | .error problem => .error problem
      | .ok ((_, name, value), rest) =>
        match parseBraces fuel place rest with
        | .ok (entries, rest) => .ok ((name, value) :: entries, rest)
        | .error problem => .error problem

/-- The items up to a closing bracket, which may be missing at the end of the text. -/
def parseBrackets : Nat → List Token → Parsed (List Node)
  | 0, tokens => .ok ([], tokens)
  | _, [] => .ok ([], [])
  | fuel + 1, token :: rest =>
    match token.lexeme with
    | .closeBracket => .ok ([], rest)
    | .comma => parseBrackets fuel rest
    | _ =>
      match parseNode fuel (token :: rest) with
      | .error problem => .error problem
      | .ok (item, rest) =>
        match parseBrackets fuel rest with
        | .ok (items, rest) => .ok (item.toList ++ items, rest)
        | .error problem => .error problem

def parseDashes : Nat → Place → List Token → Parsed (List Node)
  | 0, place, _ => .error (.entryExpected place)
  | fuel + 1, place, tokens =>
    match parseNode fuel tokens with
    | .error problem => .error problem
    | .ok (none, _) => .error (.entryExpected place)
    | .ok (some item, rest) =>
      match rest with
      | { lexeme := .dash, place := next } :: after =>
        if next.column = place.column then
          match parseDashes fuel place after with
          | .ok (items, rest) => .ok (item :: items, rest)
          | .error problem => .error problem
        else .ok ([item], rest)
      | _ => .ok ([item], rest)

end

/-- The bodies of the documents of a text. Each round consumes a token. -/
def parseDocuments : Nat → List Token → Except SyntaxError (List (Option Node))
  | 0, _ => .ok []
  | _, [] => .ok []
  | fuel + 1, token :: rest =>
    match token.lexeme with
    | .documentStart =>
      match parseNode fuel rest with
      | .error problem => .error problem
      | .ok (body, rest) =>
        match parseDocuments fuel rest with
        | .ok others => .ok (body :: others)
        | .error problem => .error problem
    | _ =>
      match parseNode fuel (token :: rest) with
      | .error problem => .error problem
      | .ok (body, rest) =>
        match parseDocuments fuel rest with
        | .ok others => .ok (body.toList.map some ++ others)
        | .error problem => .error problem

def read (text : String) : Except SyntaxError (List (Option Node)) :=
  match tokens text with
  | .error problem => .error problem
  | .ok tokens => parseDocuments (3 * tokens.length + 3) tokens

/-- What gives the documents of a text, or says why it has none. -/
abbrev Reader := String → Except String (List (Option Node))

def reader : Reader := fun text => (read text).mapError fun _ => "not a document"

end Assay.Document
