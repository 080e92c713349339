import Assay.Proofs.Syntax.Meaning
import Assay.Proofs.Syntax.Reachability

/-!
The complaint about dead code points at the first command, in source order, that no path comes to. No
run comes to it either, since every run follows a path.
-/

namespace Assay.Syntax

def Ending.pathEnd : Ending → PathEnd
  | done => .through
  | returned => .out
  | failed _ => .out

theorem Ending.pathEnd_of_ne_done {ending : Ending} (stops : ending ≠ .done) :
    ending.pathEnd = .out := by
  cases ending with
  | done => exact absurd rfl stops
  | returned => rfl
  | failed position => rfl

/-- The run of a command from a store, whether or not it ends, comes to the part at the site. -/
inductive Executes : Command → Store → Site → Prop
  | start {command : Command} {store : Store} : Executes command store []
  | seqFirst {position : Position} {first second : Command} {store : Store} {site : Site} :
      Executes first store site → Executes (.seq position first second) store (0 :: site)
  | seqSecond {position : Position} {first second : Command} {store middle : Store} {site : Site} :
      Runs first store .done middle → Executes second middle site →
      Executes (.seq position first second) store (1 :: site)
  | ifThen {position : Position} {condition : Expression} {yes : Command} {store : Store}
      {site : Site} : condition.value? store = some (.boolean true) → Executes yes store site →
      Executes (.ifThen position condition yes) store (0 :: site)
  | ifElseTrue {position : Position} {condition : Expression} {yes no : Command} {store : Store}
      {site : Site} : condition.value? store = some (.boolean true) → Executes yes store site →
      Executes (.ifElse position condition yes no) store (0 :: site)
  | ifElseFalse {position : Position} {condition : Expression} {yes no : Command} {store : Store}
      {site : Site} : condition.value? store = some (.boolean false) → Executes no store site →
      Executes (.ifElse position condition yes no) store (1 :: site)
  | loop {position : Position} {condition : Expression} {body : Command} {store : Store}
      {site : Site} : condition.value? store = some (.boolean true) → Executes body store site →
      Executes (.loop position condition body) store (0 :: site)
  | loopAgain {position : Position} {condition : Expression} {body : Command}
      {store middle : Store} {site : Site} : condition.value? store = some (.boolean true) →
      Runs body store .done middle → Executes (.loop position condition body) middle site →
      Executes (.loop position condition body) store site

variable {command part found first second : Command} {site : Site} {store final : Store}
  {ending : Ending}

theorem Runs.hasPath (runs : Runs command store ending final) : HasPath command ending.pathEnd := by
  induction runs with
  | skip => exact .skip
  | seqDone _ _ firstIh secondIh => exact .seqThrough firstIh secondIh
  | seqStop _ stops ih =>
      rw [Ending.pathEnd_of_ne_done stops] at ih ⊢
      exact .seqOut ih
  | ifThenTrue _ _ ih => exact .ifThenTrue ih
  | ifThenFalse _ => exact .ifThenFalse
  | ifElseTrue _ _ ih => exact .ifElseTrue ih
  | ifElseFalse _ _ ih => exact .ifElseFalse ih
  | loopDone _ => exact .loopDone
  | loopAgain _ _ _ bodyIh loopIh => exact .loopAgain bodyIh loopIh
  | loopStop _ _ stops ih =>
      rw [Ending.pathEnd_of_ne_done stops] at ih ⊢
      exact .loopOut ih
  | ret => exact .ret
  | assign _ => exact .assign
  | assertTrue _ => exact .assertPassed
  | assertFalse _ => exact .assertFailed

theorem Executes.visits (executes : Executes command store site) : Visits command site := by
  induction executes with
  | start => exact visits_start _
  | seqFirst _ ih => exact visits_seq_first.mpr ih
  | seqSecond earlier _ ih => exact visits_seq_second.mpr ⟨earlier.hasPath, ih⟩
  | ifThen _ _ ih => exact visits_ifThen.mpr ih
  | ifElseTrue _ _ ih => exact visits_ifElse_true.mpr ih
  | ifElseFalse _ _ ih => exact visits_ifElse_false.mpr ih
  | loop _ _ ih => exact visits_loop.mpr ih
  | loopAgain _ _ _ ih => exact ih

def Command.isSeq : Command → Bool
  | seq _ _ _ => true
  | _ => false

/-- The part at the site is on no path, and it is the first such part in source order. Sequences do not
count: they have no text of their own. -/
structure FirstUnvisited (command : Command) (site : Site) (found : Command) : Prop where
  isPart : command.at? site = some found
  single : found.isSeq = false
  unvisited : ¬Visits command site
  earlier : ∀ before part, before < site → command.at? before = some part → part.isSeq = false →
    Visits command before

theorem firstCommand_leads (command : Command) :
    ∃ site, command.at? site = some command.firstCommand ∧ command.firstCommand.isSeq = false ∧
      ∀ before part, before < site → command.at? before = some part → part.isSeq = true := by
  induction command with
  | seq position first second firstIh secondIh =>
      obtain ⟨site, isFirst, single, before⟩ := firstIh
      refine ⟨0 :: site, isFirst, single, ?_⟩
      intro earlier part lower isPart
      cases earlier with
      | nil =>
          obtain rfl := Option.some.inj isPart
          rfl
      | cons index earlier =>
          rcases List.cons_lt_cons_iff.mp lower with less | ⟨rfl, less⟩
          · exact absurd less (Nat.not_lt_zero index)
          · exact before earlier part less isPart
  | _ => exact ⟨[], rfl, rfl, fun before part lower => absurd lower (List.not_lt_nil before)⟩

theorem FirstUnvisited.inPart {index : Nat} (inner : FirstUnvisited part site found)
    (isPart : command.parts[index]? = some part)
    (same : ∀ site, Visits command (index :: site) ↔ Visits part site)
    (before : ∀ earlier other, earlier < index → command.parts[earlier]? = some other →
      ∀ site inside, other.at? site = some inside → Visits command (earlier :: site)) :
    FirstUnvisited command (index :: site) found where
  isPart := by simp only [Command.at?, isPart, inner.isPart]
  single := inner.single
  unvisited := fun visits => inner.unvisited ((same site).mp visits)
  earlier := by
    intro earlier other lower isOther single
    cases earlier with
    | nil => exact visits_start command
    | cons number rest =>
        simp only [Command.at?] at isOther
        split at isOther
        · rename_i holder isHolder
          rcases List.cons_lt_cons_iff.mp lower with less | ⟨rfl, less⟩
          · exact before number holder less isHolder rest other isOther
          · obtain rfl := Option.some.inj (isHolder.symm.trans isPart)
            exact (same rest).mpr (inner.earlier rest other less isOther single)
        · cases isOther

theorem firstUnvisited_behind {position : Position} (returns : first.terminates = true)
    (firstAll : AllVisited first) :
    ∃ site, FirstUnvisited (.seq position first second) site second.firstCommand := by
  obtain ⟨site, isFirst, single, before⟩ := firstCommand_leads second
  refine ⟨1 :: site, isFirst, single, ?_, ?_⟩
  · intro visits
    have goesOn := terminates_eq_false_iff.mpr (visits_seq_second.mp visits).1
    rw [goesOn] at returns
    cases returns
  · intro earlier part lower isPart isSingle
    match earlier with
    | [] => exact visits_start _
    | 0 :: rest => exact visits_seq_first.mpr (firstAll rest part isPart)
    | 1 :: rest =>
        have less : rest < site := by simpa using lower
        rw [before rest part less isPart] at isSingle
        cases isSingle
    | (index + 2) :: rest => simp [Command.at?, Command.parts] at isPart

theorem firstUnreachable?_isSome (command : Command) :
    command.firstUnreachable?.isSome = !command.isDeadCodeFree := by
  induction command with
  | seq position first second firstIh secondIh =>
      rw [Command.firstUnreachable?, Command.isDeadCodeFree]
      cases inFirst : first.firstUnreachable? with
      | some found =>
          have notFree : first.isDeadCodeFree = false := by simpa [inFirst] using firstIh
          simp [notFree]
      | none =>
          have free : first.isDeadCodeFree = true := by simpa [inFirst] using firstIh
          cases returns : first.terminates with
          | true => simp
          | false => simp [free, secondIh]
  | ifThen position condition yes ih => exact ih
  | ifElse position condition yes no yesIh noIh =>
      rw [Command.firstUnreachable?, Command.isDeadCodeFree]
      cases inYes : yes.firstUnreachable? with
      | some found =>
          have notFree : yes.isDeadCodeFree = false := by simpa [inYes] using yesIh
          simp [notFree]
      | none =>
          have free : yes.isDeadCodeFree = true := by simpa [inYes] using yesIh
          simp [free, noIh]
  | loop position condition body ih => exact ih
  | _ => rfl

theorem allVisited_of_none (none : command.firstUnreachable? = none) : AllVisited command := by
  rw [← isDeadCodeFree_iff_allVisited]
  simpa [none] using firstUnreachable?_isSome command

theorem firstUnreachable?_firstUnvisited (isFound : command.firstUnreachable? = some found) :
    ∃ site, FirstUnvisited command site found := by
  induction command with
  | seq position first second firstIh secondIh =>
      rw [Command.firstUnreachable?] at isFound
      split at isFound
      · rename_i inner inFirst
        obtain ⟨site, isFirst⟩ := firstIh (inFirst.trans isFound)
        exact ⟨_, isFirst.inPart rfl (fun _ => visits_seq_first) (by simp)⟩
      · rename_i inFirst
        have firstAll := allVisited_of_none inFirst
        split at isFound
        · rename_i returns
          obtain rfl := Option.some.inj isFound
          exact firstUnvisited_behind returns firstAll
        · rename_i goesOn
          have through : HasPath first .through := by
            rw [← terminates_eq_false_iff]
            exact Bool.eq_false_iff.mpr goesOn
          obtain ⟨site, isFirst⟩ := secondIh isFound
          refine ⟨_, isFirst.inPart rfl (fun _ => visits_seq_second.trans (and_iff_right through)) ?_⟩
          intro earlier other less isOther site inside isInside
          obtain rfl : earlier = 0 := by omega
          obtain rfl := Option.some.inj isOther
          exact visits_seq_first.mpr (firstAll site inside isInside)
  | ifThen position condition yes ih =>
      obtain ⟨site, isFirst⟩ := ih isFound
      exact ⟨_, isFirst.inPart rfl (fun _ => visits_ifThen) (by simp)⟩
  | ifElse position condition yes no yesIh noIh =>
      rw [Command.firstUnreachable?] at isFound
      split at isFound
      · rename_i inner inYes
        obtain ⟨site, isFirst⟩ := yesIh (inYes.trans isFound)
        exact ⟨_, isFirst.inPart rfl (fun _ => visits_ifElse_true) (by simp)⟩
      · rename_i inYes
        obtain ⟨site, isFirst⟩ := noIh isFound
        refine ⟨_, isFirst.inPart rfl (fun _ => visits_ifElse_false) ?_⟩
        intro earlier other less isOther site inside isInside
        obtain rfl : earlier = 0 := by omega
        obtain rfl := Option.some.inj isOther
        exact visits_ifElse_true.mpr (allVisited_of_none inYes site inside isInside)
  | loop position condition body ih =>
      obtain ⟨site, isFirst⟩ := ih isFound
      exact ⟨_, isFirst.inPart rfl (fun _ => visits_loop) (by simp)⟩
  | _ => cases isFound

end Assay.Syntax

namespace Assay.Typing

open Syntax

theorem deadCodeProblems_eq (position : Position) (body : Command) :
    deadCodeProblems position body = body.firstUnreachable?.toList.map fun found =>
      { position := found.position, message := "unreachable code" } := by
  have agrees := firstUnreachable?_isSome body
  rw [deadCodeProblems]
  cases isFound : body.firstUnreachable? with
  | none =>
      have free : body.isDeadCodeFree = true := by simpa [isFound] using agrees
      simp [free]
  | some found =>
      have notFree : body.isDeadCodeFree = false := by simpa [isFound] using agrees
      simp [notFree]

/-- There is a first unreachable command exactly if there is dead code, and the complaint is at its
position. It is a command of its own that no path and so no run comes to, and there is a path to every
command before it in the source. -/
theorem unreachable_command_found (body : Command) :
    (body.firstUnreachable?.isSome = true ↔ body.isDeadCodeFree = false) ∧
      (∀ position, deadCodeProblems position body = body.firstUnreachable?.toList.map fun found =>
        { position := found.position, message := "unreachable code" }) ∧
      ∀ found, body.firstUnreachable? = some found → ∃ site, FirstUnvisited body site found ∧
        ∀ store, ¬Executes body store site := by
  refine ⟨?_, fun position => deadCodeProblems_eq position body, fun found isFound => ?_⟩
  · rw [firstUnreachable?_isSome, Bool.not_eq_true']
  · obtain ⟨site, isFirst⟩ := firstUnreachable?_firstUnvisited isFound
    exact ⟨site, isFirst, fun store executes => isFirst.unvisited executes.visits⟩

def restless : Command :=
  .seq .unknown (.seq .unknown (.ret (.make "" 1 1)) (.ret (.make "" 2 1))) (.skip (.make "" 3 1))

theorem unreachable_command_found_restless :
    let second : Command := .ret (.make "" 2 1)
    restless.firstUnreachable? = some second ∧ ∃ site, FirstUnvisited restless site second ∧
      ∀ store, ¬Executes restless store site :=
  ⟨rfl, (unreachable_command_found restless).2.2 _ rfl⟩

end Assay.Typing
