import Assay.Text.Reading
import Assay.Text.Quoted

/-!
The line in which a test run states the numbers of passed and failed tests, found again in its output.
-/

namespace Assay.Report

structure Summary where
  passed : Int
  failed : Int
deriving DecidableEq, Repr

inductive SummaryError
  | missing
  | outOfRange (digits : String)
deriving DecidableEq, Repr

def SummaryError.message : SummaryError → String
  | missing => "the test harness did not print a summary"
  | outOfRange digits =>
    "strconv.Atoi: parsing " ++ Text.quote digits ++ ": value out of range"

structure SummaryDigits where
  passed : List Char
  failed : List Char
deriving DecidableEq, Repr

def dropPhrase? (phrase : String) (chars : List Char) : Option (List Char) :=
  if phrase.toList.isPrefixOf chars then some (chars.drop phrase.length) else none

def summaryAt? (chars : List Char) : Option (SummaryDigits × List Char) := do
  let passed := chars.takeWhile Char.isDigit
  guard !passed.isEmpty
  let rest ← dropPhrase? " passed, " (chars.dropWhile Char.isDigit)
  let failed := rest.takeWhile Char.isDigit
  guard !failed.isEmpty
  let rest ← dropPhrase? " failed" (rest.dropWhile Char.isDigit)
  pure ({ passed, failed }, rest)

/-- The last of the summaries in a text that do not overlap. Every step moves forward, so the length of
the text is enough fuel. -/
def lastSummary? : Nat → Option SummaryDigits → List Char → Option SummaryDigits
  | 0, last, _ => last
  | _, last, [] => last
  | fuel + 1, last, c :: rest =>
    match summaryAt? (c :: rest) with
    | some (digits, after) => lastSummary? fuel (some digits) after
    | none => lastSummary? fuel last rest

def summaryNumber (digits : List Char) : Except SummaryError Int :=
  let text := String.ofList digits
  match Text.readInt64? text with
  | some number => .ok number
  | none => .error (.outOfRange text)

def readSummary (output : String) : Except SummaryError Summary :=
  let chars := output.toList
  match lastSummary? chars.length none chars with
  | none => .error .missing
  | some digits => do
    let passed ← summaryNumber digits.passed
    let failed ← summaryNumber digits.failed
    pure { passed, failed }

end Assay.Report
