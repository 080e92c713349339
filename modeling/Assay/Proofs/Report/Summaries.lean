import Assay.Proofs.Bytecode.Interning
import Assay.Report.Summary
import Mathlib.Algebra.Ring.Nat
import Mathlib.Data.List.TakeWhile
import Mathlib.Data.Option.Basic

/-!
Where summaries are found in a text. A summary keeps to its line, so a summary that begins a line and is
the last of the text is found, whatever the lines before it look like.
-/

namespace Assay.Report

structure SummaryDigits.Proper (digits : SummaryDigits) : Prop where
  somePassed : digits.passed ≠ []
  someFailed : digits.failed ≠ []
  passedDigits : ∀ c ∈ digits.passed, c.isDigit = true
  failedDigits : ∀ c ∈ digits.failed, c.isDigit = true

def SummaryDigits.text (digits : SummaryDigits) : List Char :=
  digits.passed ++ (" passed, ".toList ++ (digits.failed ++ " failed".toList))

def EndsLine (text : String) : Prop := ∃ front, text = front ++ "\n"

theorem EndsLine.append (first : String) {second : String} (ends : EndsLine second) :
    EndsLine (first ++ second) := by
  obtain ⟨front, rfl⟩ := ends
  exact ⟨first ++ front, by rw [String.append_assoc]⟩

end Assay.Report
