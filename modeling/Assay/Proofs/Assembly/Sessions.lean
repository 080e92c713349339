import Assay.Lowering.Session
import Assay.Proofs.Assembly.Requests

/-!
The run of a session. Members are lowered between other work on the declaration, and the run is the one
that comes from requesting just these members in their order.
-/

namespace Assay.Lowering.Session

open Assay.Graph Syntax Typing Assembly

/-- One step of a session that keeps to its run, the members that are lowered in it and the blocks that
are handed over. -/
inductive Step : Session → List Member → List BlockIndex → Session → Prop
  | check (session : Session) : Step session [] [] session.check
  | newClass (session : Session) (name : String) : Step session [] [] (session.newClass name)
  | changeClass (session : Session) (type : ClassType) (problems : List Diagnostic) :
      Step session [] [] (session.changeClass type problems)
  | addMember {session later : Session} {role : Role} {index : Nat} {member : Member} :
      session.addMember? role index = some (later, member) → Step session [] [] later
  | checkMember {session later : Session} {role : Role} {index : Nat} :
      session.checkMember? role index = some later → Step session [] [] later
  | lower {session later : Session} {member : Member} {handed : List BlockIndex} :
      session.lower member = (later, .ok handed) → Step session [member] handed later
  | refuse {session later : Session} {member : Member} {problem : MemberError} :
      session.lower member = (later, .error problem) → Step session [member] [] later

/-- A session after some steps since its run was begun. -/
inductive Since (tag : Nat) : List Member → List BlockIndex → Session → Prop
  | begun {session : Session} : session.run = Run.new tag → Since tag [] [] session
  | step {session later : Session} {members lowered : List Member} {handed blocks : List BlockIndex} :
      Since tag members handed session → Step session lowered blocks later →
      Since tag (members ++ lowered) (handed ++ blocks) later

variable {session later : Session} {role : Role} {index : Nat} {member : Member}
  {members lowered : List Member} {handed blocks : List BlockIndex} {tag : Nat}

theorem changeClass_run (session : Session) (type : ClassType) (problems : List Diagnostic) :
    (session.changeClass type problems).run = session.run := by
  unfold changeClass
  split
  · rfl
  · rfl

theorem setMember_run (session : Session) (role : Role) (index : Nat) (member : Member) :
    (session.setMember role index member).run = session.run := by
  cases role with
  | fixture => rfl
  | test => rfl

theorem check_run (session : Session) : session.check.run = session.run := by
  unfold check
  split
  · rfl
  · rfl

theorem addMember?_run (added : session.addMember? role index = some (later, member)) :
    later.run = session.run := by
  simp only [addMember?, Option.bind_eq_bind, Option.bind_eq_some_iff] at added
  obtain ⟨record, -, found, -, same⟩ := added
  simp only [Option.pure_def, Option.some.injEq, Prod.mk.injEq] at same
  rw [← same.1, setMember_run, changeClass_run]

theorem checkMember?_run (checked : session.checkMember? role index = some later) :
    later.run = session.run := by
  simp only [checkMember?, Option.bind_eq_bind, Option.bind_eq_some_iff] at checked
  obtain ⟨record, -, found, -, same⟩ := checked
  simp only [Option.pure_def, Option.some.injEq] at same
  rw [← same, setMember_run, changeClass_run]

theorem request_lower (session : Session) (member : Member) (handed : List BlockIndex) :
    request (session.run, handed) member =
      ((session.lower member).1.run,
        match (session.lower member).2 with
        | .ok more => handed ++ more
        | .error _ => handed) := by
  unfold request lower
  rcases handOverMember member session.run with ⟨run, problem | more⟩
  · rfl
  · rfl

theorem Step.requests (step : Step session lowered blocks later) (handed : List BlockIndex) :
    lowered.foldl request (session.run, handed) = (later.run, handed ++ blocks) := by
  have silent (other : Session) (same : other.run = session.run) :
      [].foldl request (session.run, handed) = (other.run, handed ++ []) := by
    rw [List.foldl_nil, same, List.append_nil]
  cases step with
  | check => exact silent _ (check_run session)
  | newClass name => exact silent _ rfl
  | changeClass type problems => exact silent _ (changeClass_run session type problems)
  | addMember added => exact silent _ (addMember?_run added)
  | checkMember checked => exact silent _ (checkMember?_run checked)
  | lower done => rw [List.foldl_cons, List.foldl_nil, request_lower, done]
  | refuse done => rw [List.foldl_cons, List.foldl_nil, request_lower, done, List.append_nil]

theorem since_new (declaration : ClassDeclaration) : Since 0 [] [] (Session.new declaration) :=
  .begun rfl

theorem since_newRun (session : Session) : Since session.runs [] [] session.newRun := .begun rfl

theorem Since.requested (since : Since tag members handed session) :
    requested tag members = (session.run, handed) := by
  induction since with
  | begun isNew => rw [Lowering.requested, List.foldl_nil, isNew]
  | step _ step ih =>
      rw [Lowering.requested, List.foldl_append]
      rw [Lowering.requested] at ih
      rw [ih, step.requests]

/-- Whatever else is done in a session, its run has handed over each block of the lowered members once. -/
theorem Since.exactlyOnce (since : Since tag members handed session) :
    ExactlyOnce members session.run handed := by
  have tracked := tracked_requested tag members
  rw [since.requested] at tracked
  exact exactlyOnce_of_tracked tracked

end Assay.Lowering.Session
