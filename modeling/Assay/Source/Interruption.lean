import Assay.Text.Quoted

/-!
What work is broken off with, and how that is told to whoever asked for the work.
-/

namespace Assay

inductive Interruption
  | error (message : String)
  | text (value : String)
  | number (value : Int)
  | nothing
deriving DecidableEq, Repr

/-- Errors speak for themselves; other values are shown as they are written in a program. -/
def Interruption.message : Interruption → String
  | error message => message
  | text value => Text.quote value
  | number value => toString value
  | nothing => "<nil>"

/-- The error that a traversal was broken off with, behind the trace of the calls in which it arose. -/
structure WalkError where
  trace : String
  cause : String
deriving DecidableEq, Repr

def WalkError.text (error : WalkError) : String := error.trace ++ ":" ++ error.cause

end Assay
