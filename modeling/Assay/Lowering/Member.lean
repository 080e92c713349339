import Assay.Graph.Run
import Assay.Lowering.Command

/-!
Lowering of a member within a run: its body is lowered once, the root of its code is recorded, and the
blocks that belong to it are handed over.
-/

namespace Assay.Lowering

open Assay.Graph Syntax Typing

inductive MemberError
  | notRegistered (role : Role)
  | lowering (cause : LoweringError)
  | run (cause : RunError)
deriving DecidableEq, Repr

def MemberError.message : MemberError → String
  | notRegistered role => role.text ++ " translated before being added to a class"
  | lowering cause => cause.message
  | run cause => cause.message

/-- Lowers a member. The result is the root of its code, or none if the run has dealt with the member
before. A member is marked as started before its body is lowered. -/
def lowerMember (member : Member) (run : Run) : Run × Except MemberError (Option BlockIndex) :=
  match member.signature with
  | none => (run, .error (.notRegistered member.role))
  | some signature =>
    match run.markStarted signature.unit with
    | (_, false) => (run, .ok none)
    | (marked, true) =>
      match (lowerBody member.role member.resolution member.declaration.body).run marked.arena with
      | (.error cause, arena) => ({ marked with arena }, .error (.lowering cause))
      | (.ok root, arena) =>
        let lowered := { marked with arena }
        match lowered.setCode signature.unit root with
        | .error cause => (lowered, .error (.run cause))
        | .ok recorded => (recorded, .ok (some root))

/-- Lowers a member and hands over its blocks, successors first. -/
def handOverMember (member : Member) (run : Run) : Run × Except MemberError (List BlockIndex) :=
  match lowerMember member run with
  | (run, .error cause) => (run, .error cause)
  | (run, .ok none) => (run, .ok [])
  | (run, .ok (some root)) =>
    let (run, handed) := run.handOver root
    (run, .ok handed)

end Assay.Lowering
