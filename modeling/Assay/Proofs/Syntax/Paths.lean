import Assay.Syntax.Command

/-!
Paths through a command when its conditions may go either way: a loop runs any number of times, and
an assert passes or ends the test. A command always returns if no path comes to its end.
-/

namespace Assay.Syntax

inductive PathEnd
  | through
  | out
deriving DecidableEq, Repr

/-- Some path through the command ends so. -/
inductive HasPath : Command → PathEnd → Prop
  | skip {position : Position} : HasPath (.skip position) .through
  | seqThrough {position : Position} {first second : Command} {ending : PathEnd} :
      HasPath first .through → HasPath second ending →
      HasPath (.seq position first second) ending
  | seqOut {position : Position} {first second : Command} :
      HasPath first .out → HasPath (.seq position first second) .out
  | ifThenTrue {position : Position} {condition : Expression} {yes : Command} {ending : PathEnd} :
      HasPath yes ending → HasPath (.ifThen position condition yes) ending
  | ifThenFalse {position : Position} {condition : Expression} {yes : Command} :
      HasPath (.ifThen position condition yes) .through
  | ifElseTrue {position : Position} {condition : Expression} {yes no : Command}
      {ending : PathEnd} : HasPath yes ending → HasPath (.ifElse position condition yes no) ending
  | ifElseFalse {position : Position} {condition : Expression} {yes no : Command}
      {ending : PathEnd} : HasPath no ending → HasPath (.ifElse position condition yes no) ending
  | loopDone {position : Position} {condition : Expression} {body : Command} :
      HasPath (.loop position condition body) .through
  | loopAgain {position : Position} {condition : Expression} {body : Command} {ending : PathEnd} :
      HasPath body .through → HasPath (.loop position condition body) ending →
      HasPath (.loop position condition body) ending
  | loopOut {position : Position} {condition : Expression} {body : Command} :
      HasPath body .out → HasPath (.loop position condition body) .out
  | ret {position : Position} : HasPath (.ret position) .out
  | assign {position : Position} {field : String} {value : Expression} :
      HasPath (.assign position field value) .through
  | assertPassed {position : Position} {condition : Expression} :
      HasPath (.assert position condition) .through
  | assertFailed {position : Position} {condition : Expression} :
      HasPath (.assert position condition) .out

def AlwaysReturns (command : Command) : Prop :=
  ∀ ending, HasPath command ending → ending = .out

theorem hasPath_through_of_not_terminates {command : Command}
    (goesOn : command.terminates = false) : HasPath command .through := by
  induction command with
  | skip position => exact .skip
  | seq position first second firstIh secondIh =>
      simp only [Command.terminates, Bool.or_eq_false_iff] at goesOn
      exact .seqThrough (firstIh goesOn.1) (secondIh goesOn.2)
  | ifThen position condition yes ih => exact .ifThenFalse
  | ifElse position condition yes no yesIh noIh =>
      rcases Bool.and_eq_false_iff.mp goesOn with yesGoesOn | noGoesOn
      · exact .ifElseTrue (yesIh yesGoesOn)
      · exact .ifElseFalse (noIh noGoesOn)
  | loop position condition body ih => exact .loopDone
  | ret position => simp [Command.terminates] at goesOn
  | assign position field value => exact .assign
  | assert position condition => exact .assertPassed

theorem alwaysReturns_of_terminates {command : Command} (returns : command.terminates = true) :
    AlwaysReturns command := by
  intro ending path
  induction path with
  | seqThrough _ _ firstIh secondIh =>
      rcases Bool.or_eq_true_iff.mp returns with firstReturns | secondReturns
      · exact absurd (firstIh firstReturns) (by simp)
      · exact secondIh secondReturns
  | ifElseTrue _ ih => exact ih (Bool.and_eq_true_iff.mp returns).1
  | ifElseFalse _ ih => exact ih (Bool.and_eq_true_iff.mp returns).2
  | seqOut _ _ => rfl
  | ret => rfl
  | _ => simp [Command.terminates] at returns

/-- The analysis of returns is exact for paths. -/
theorem terminates_iff (command : Command) :
    command.terminates = true ↔ AlwaysReturns command := by
  refine ⟨alwaysReturns_of_terminates, fun returns => ?_⟩
  cases found : command.terminates with
  | true => rfl
  | false => exact absurd (returns _ (hasPath_through_of_not_terminates found)) (by simp)

inductive PartOf : Command → Command → Prop
  | self (command : Command) : PartOf command command
  | seqFirst {part first second : Command} {position : Position} :
      PartOf part first → PartOf part (.seq position first second)
  | seqSecond {part first second : Command} {position : Position} :
      PartOf part second → PartOf part (.seq position first second)
  | ifThen {part yes : Command} {position : Position} {condition : Expression} :
      PartOf part yes → PartOf part (.ifThen position condition yes)
  | ifElseTrue {part yes no : Command} {position : Position} {condition : Expression} :
      PartOf part yes → PartOf part (.ifElse position condition yes no)
  | ifElseFalse {part yes no : Command} {position : Position} {condition : Expression} :
      PartOf part no → PartOf part (.ifElse position condition yes no)
  | loop {part body : Command} {position : Position} {condition : Expression} :
      PartOf part body → PartOf part (.loop position condition body)

def NothingAfterReturn (body : Command) : Prop :=
  ∀ position first second, PartOf (.seq position first second) body → ¬AlwaysReturns first

theorem NothingAfterReturn.part {inner body : Command} (nothing : NothingAfterReturn body)
    (inside : ∀ {part}, PartOf part inner → PartOf part body) : NothingAfterReturn inner :=
  fun position first second isPart => nothing position first second (inside isPart)

theorem isDeadCodeFree_of_part {part body : Command} (isPart : PartOf part body)
    (free : body.isDeadCodeFree = true) : part.isDeadCodeFree = true := by
  induction isPart with
  | self => exact free
  | seqFirst _ ih =>
      simp only [Command.isDeadCodeFree, Bool.and_eq_true] at free
      exact ih free.1.2
  | seqSecond _ ih =>
      simp only [Command.isDeadCodeFree, Bool.and_eq_true] at free
      exact ih free.2
  | ifThen _ ih => exact ih free
  | ifElseTrue _ ih => exact ih (Bool.and_eq_true_iff.mp free).1
  | ifElseFalse _ ih => exact ih (Bool.and_eq_true_iff.mp free).2
  | loop _ ih => exact ih free

theorem isDeadCodeFree_iff (body : Command) :
    body.isDeadCodeFree = true ↔ NothingAfterReturn body := by
  constructor
  · intro free position first second isPart returns
    have partFree := isDeadCodeFree_of_part isPart free
    simp only [Command.isDeadCodeFree, Bool.and_eq_true, Bool.not_eq_true'] at partFree
    exact absurd ((terminates_iff first).mpr returns) (by simp [partFree.1.1])
  · intro nothing
    induction body with
    | seq position first second firstIh secondIh =>
        simp only [Command.isDeadCodeFree, Bool.and_eq_true, Bool.not_eq_true']
        refine ⟨⟨?_, firstIh (nothing.part .seqFirst)⟩, secondIh (nothing.part .seqSecond)⟩
        exact Bool.eq_false_iff.mpr
          (mt (terminates_iff first).mp (nothing position first second (.self _)))
    | ifThen position condition yes ih => exact ih (nothing.part .ifThen)
    | ifElse position condition yes no yesIh noIh =>
        simp only [Command.isDeadCodeFree, Bool.and_eq_true]
        exact ⟨yesIh (nothing.part .ifElseTrue), noIh (nothing.part .ifElseFalse)⟩
    | loop position condition body ih => exact ih (nothing.part .loop)
    | _ => rfl

end Assay.Syntax
