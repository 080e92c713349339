/-!
Tokens of structured documents, which are written with indentation or with brackets.
-/

namespace Assay.Document

/-- A line and a column, both counted from one. Columns count characters. -/
structure Place where
  line : Nat
  column : Nat
deriving DecidableEq, Repr, Inhabited

inductive Lexeme
  | plain (text : String) (spansLines : Bool)
  | quoted (text : String)
  | dash
  | colon
  | comma
  | openBrace
  | closeBrace
  | openBracket
  | closeBracket
  | documentStart
  | documentEnd
  | decoration
  | special
deriving DecidableEq, Repr, Inhabited

structure Token where
  lexeme : Lexeme
  place : Place
deriving DecidableEq, Repr, Inhabited

inductive SyntaxError
  | unclosedQuote (place : Place)
  | unclosedBrace (place : Place)
  | keySpansLines (place : Place)
  | keyExpected (place : Place)
  | entryExpected (place : Place)
  | valueExpected (place : Place)
deriving DecidableEq, Repr

end Assay.Document
