import Assay.Proofs.Syntax.Paths

/-!
Which parts of a command lie on its paths. Parts are told apart by where they stand, so that two equal
commands at different sites are two parts. The analysis of dead code is exact: it finds nothing exactly
if there is a path to every part.
-/

namespace Assay.Syntax

/-- Where a part of a command stands: the number of the part to take, from the outside in. Sites are
ordered like the source text, a command before its parts and an earlier part before a later one. -/
abbrev Site := List Nat

def Command.parts : Command → List Command
  | seq _ first second => [first, second]
  | ifThen _ _ yes => [yes]
  | ifElse _ _ yes no => [yes, no]
  | loop _ _ body => [body]
  | _ => []

def Command.at? : Command → Site → Option Command
  | command, [] => some command
  | command, index :: site =>
    match command.parts[index]? with
    | some part => part.at? site
    | none => none

def inPart (index : Nat) (sites : List Site) : List Site := sites.map (index :: ·)

@[simp] theorem cons_mem_inPart {index other : Nat} {site : Site} {sites : List Site} :
    index :: site ∈ inPart other sites ↔ index = other ∧ site ∈ sites := by
  simp only [inPart, List.mem_map, List.cons.injEq]
  constructor
  · rintro ⟨found, isFound, rfl, rfl⟩
    exact ⟨rfl, isFound⟩
  · rintro ⟨rfl, isSite⟩
    exact ⟨site, isSite, rfl, rfl⟩

/-- A path through a command by way of these sites, when every condition may go either way. A loop is
come to again before each of its rounds, and once more at its end. -/
inductive PathVia : Command → List Site → PathEnd → Prop
  | skip {position : Position} : PathVia (.skip position) [[]] .through
  | seqThrough {position : Position} {first second : Command} {sites later : List Site}
      {ending : PathEnd} : PathVia first sites .through → PathVia second later ending →
      PathVia (.seq position first second) ([] :: (inPart 0 sites ++ inPart 1 later)) ending
  | seqOut {position : Position} {first second : Command} {sites : List Site} :
      PathVia first sites .out → PathVia (.seq position first second) ([] :: inPart 0 sites) .out
  | ifThenTrue {position : Position} {condition : Expression} {yes : Command} {sites : List Site}
      {ending : PathEnd} : PathVia yes sites ending →
      PathVia (.ifThen position condition yes) ([] :: inPart 0 sites) ending
  | ifThenFalse {position : Position} {condition : Expression} {yes : Command} :
      PathVia (.ifThen position condition yes) [[]] .through
  | ifElseTrue {position : Position} {condition : Expression} {yes no : Command}
      {sites : List Site} {ending : PathEnd} : PathVia yes sites ending →
      PathVia (.ifElse position condition yes no) ([] :: inPart 0 sites) ending
  | ifElseFalse {position : Position} {condition : Expression} {yes no : Command}
      {sites : List Site} {ending : PathEnd} : PathVia no sites ending →
      PathVia (.ifElse position condition yes no) ([] :: inPart 1 sites) ending
  | loopDone {position : Position} {condition : Expression} {body : Command} :
      PathVia (.loop position condition body) [[]] .through
  | loopAgain {position : Position} {condition : Expression} {body : Command}
      {sites later : List Site} {ending : PathEnd} : PathVia body sites .through →
      PathVia (.loop position condition body) later ending →
      PathVia (.loop position condition body) ([] :: (inPart 0 sites ++ later)) ending
  | loopOut {position : Position} {condition : Expression} {body : Command} {sites : List Site} :
      PathVia body sites .out →
      PathVia (.loop position condition body) ([] :: inPart 0 sites) .out
  | ret {position : Position} : PathVia (.ret position) [[]] .out
  | assign {position : Position} {field : String} {value : Expression} :
      PathVia (.assign position field value) [[]] .through
  | assertPassed {position : Position} {condition : Expression} :
      PathVia (.assert position condition) [[]] .through
  | assertFailed {position : Position} {condition : Expression} :
      PathVia (.assert position condition) [[]] .out

variable {command first second yes no body : Command} {position : Position} {condition : Expression}
  {sites : List Site} {site : Site} {ending : PathEnd}

theorem PathVia.hasPath (path : PathVia command sites ending) : HasPath command ending := by
  induction path with
  | skip => exact .skip
  | seqThrough _ _ firstIh secondIh => exact .seqThrough firstIh secondIh
  | seqOut _ ih => exact .seqOut ih
  | ifThenTrue _ ih => exact .ifThenTrue ih
  | ifThenFalse => exact .ifThenFalse
  | ifElseTrue _ ih => exact .ifElseTrue ih
  | ifElseFalse _ ih => exact .ifElseFalse ih
  | loopDone => exact .loopDone
  | loopAgain _ _ bodyIh loopIh => exact .loopAgain bodyIh loopIh
  | loopOut _ ih => exact .loopOut ih
  | ret => exact .ret
  | assign => exact .assign
  | assertPassed => exact .assertPassed
  | assertFailed => exact .assertFailed

theorem HasPath.exists_via (path : HasPath command ending) :
    ∃ sites, PathVia command sites ending := by
  induction path with
  | skip => exact ⟨_, .skip⟩
  | seqThrough _ _ firstIh secondIh =>
      obtain ⟨sites, earlier⟩ := firstIh
      obtain ⟨more, later⟩ := secondIh
      exact ⟨_, .seqThrough earlier later⟩
  | seqOut _ ih => exact ih.imp' _ fun _ path => .seqOut path
  | ifThenTrue _ ih => exact ih.imp' _ fun _ path => .ifThenTrue path
  | ifThenFalse => exact ⟨_, .ifThenFalse⟩
  | ifElseTrue _ ih => exact ih.imp' _ fun _ path => .ifElseTrue path
  | ifElseFalse _ ih => exact ih.imp' _ fun _ path => .ifElseFalse path
  | loopDone => exact ⟨_, .loopDone⟩
  | loopAgain _ _ bodyIh loopIh =>
      obtain ⟨sites, round⟩ := bodyIh
      obtain ⟨more, later⟩ := loopIh
      exact ⟨_, .loopAgain round later⟩
  | loopOut _ ih => exact ih.imp' _ fun _ path => .loopOut path
  | ret => exact ⟨_, .ret⟩
  | assign => exact ⟨_, .assign⟩
  | assertPassed => exact ⟨_, .assertPassed⟩
  | assertFailed => exact ⟨_, .assertFailed⟩

theorem terminates_eq_false_iff : command.terminates = false ↔ HasPath command .through := by
  refine ⟨hasPath_through_of_not_terminates, fun path => ?_⟩
  cases returns : command.terminates with
  | false => rfl
  | true => exact absurd (alwaysReturns_of_terminates returns _ path) (by simp)

theorem terminates_iff_no_path :
    command.terminates = true ↔ ∀ sites, ¬PathVia command sites .through := by
  rw [← Bool.not_eq_false, terminates_eq_false_iff]
  constructor
  · exact fun none sites path => none path.hasPath
  · intro none path
    obtain ⟨sites, via⟩ := path.exists_via
    exact none sites via

def Visits (command : Command) (site : Site) : Prop :=
  ∃ sites ending, PathVia command sites ending ∧ site ∈ sites

theorem PathVia.visits (path : PathVia command sites ending) (isSite : site ∈ sites) :
    Visits command site :=
  ⟨sites, ending, path, isSite⟩

theorem exists_path (command : Command) : ∃ sites ending, PathVia command sites ending := by
  induction command with
  | skip position => exact ⟨_, _, .skip⟩
  | seq position first second firstIh secondIh =>
      obtain ⟨sites, ending, path⟩ := firstIh
      obtain ⟨more, last, later⟩ := secondIh
      cases ending with
      | through => exact ⟨_, _, .seqThrough path later⟩
      | out => exact ⟨_, _, .seqOut path⟩
  | ifThen position condition yes ih => exact ⟨_, _, .ifThenFalse⟩
  | ifElse position condition yes no yesIh noIh =>
      obtain ⟨sites, ending, path⟩ := yesIh
      exact ⟨_, _, .ifElseTrue path⟩
  | loop position condition body ih => exact ⟨_, _, .loopDone⟩
  | ret position => exact ⟨_, _, .ret⟩
  | assign position field value => exact ⟨_, _, .assign⟩
  | assert position condition => exact ⟨_, _, .assertPassed⟩

theorem visits_start (command : Command) : Visits command [] := by
  obtain ⟨sites, ending, path⟩ := exists_path command
  refine path.visits ?_
  cases path <;> exact List.mem_cons_self

theorem visits_seq_first : Visits (.seq position first second) (0 :: site) ↔ Visits first site := by
  constructor
  · rintro ⟨sites, ending, path, isSite⟩
    cases path with
    | seqThrough earlier later => exact earlier.visits (by simpa using isSite)
    | seqOut earlier => exact earlier.visits (by simpa using isSite)
  · rintro ⟨sites, ending, path, isSite⟩
    cases ending with
    | through =>
        obtain ⟨more, last, later⟩ := exists_path second
        exact (PathVia.seqThrough path later).visits (by simp [isSite])
    | out => exact (PathVia.seqOut path).visits (by simp [isSite])

theorem visits_seq_second :
    Visits (.seq position first second) (1 :: site) ↔
      HasPath first .through ∧ Visits second site := by
  constructor
  · rintro ⟨sites, ending, path, isSite⟩
    cases path with
    | seqThrough earlier later => exact ⟨earlier.hasPath, later.visits (by simpa using isSite)⟩
    | seqOut earlier => simp at isSite
  · rintro ⟨through, sites, ending, path, isSite⟩
    obtain ⟨before, earlier⟩ := through.exists_via
    exact (PathVia.seqThrough earlier path).visits (by simp [isSite])

theorem visits_ifThen : Visits (.ifThen position condition yes) (0 :: site) ↔ Visits yes site := by
  constructor
  · rintro ⟨sites, ending, path, isSite⟩
    cases path with
    | ifThenTrue inner => exact inner.visits (by simpa using isSite)
    | ifThenFalse => simp at isSite
  · rintro ⟨sites, ending, path, isSite⟩
    exact (PathVia.ifThenTrue path).visits (by simp [isSite])

theorem visits_ifElse_true :
    Visits (.ifElse position condition yes no) (0 :: site) ↔ Visits yes site := by
  constructor
  · rintro ⟨sites, ending, path, isSite⟩
    cases path with
    | ifElseTrue inner => exact inner.visits (by simpa using isSite)
    | ifElseFalse inner => simp at isSite
  · rintro ⟨sites, ending, path, isSite⟩
    exact (PathVia.ifElseTrue path).visits (by simp [isSite])

theorem visits_ifElse_false :
    Visits (.ifElse position condition yes no) (1 :: site) ↔ Visits no site := by
  constructor
  · rintro ⟨sites, ending, path, isSite⟩
    cases path with
    | ifElseTrue inner => simp at isSite
    | ifElseFalse inner => exact inner.visits (by simpa using isSite)
  · rintro ⟨sites, ending, path, isSite⟩
    exact (PathVia.ifElseFalse path).visits (by simp [isSite])

theorem PathVia.visits_body (path : PathVia command sites ending)
    (isLoop : command = .loop position condition body) (isSite : 0 :: site ∈ sites) :
    Visits body site := by
  induction path with
  | loopDone => simp at isSite
  | loopAgain round later _ ih =>
      obtain ⟨rfl, rfl, rfl⟩ := Command.loop.inj isLoop
      simp only [List.mem_cons, reduceCtorEq, List.mem_append, cons_mem_inPart, true_and,
        false_or] at isSite
      rcases isSite with here | afterwards
      · exact round.visits here
      · exact ih rfl afterwards
  | loopOut round _ =>
      obtain ⟨rfl, rfl, rfl⟩ := Command.loop.inj isLoop
      exact round.visits (by simpa using isSite)
  | _ => cases isLoop

theorem visits_loop : Visits (.loop position condition body) (0 :: site) ↔ Visits body site := by
  constructor
  · rintro ⟨sites, ending, path, isSite⟩
    exact path.visits_body rfl isSite
  · rintro ⟨sites, ending, path, isSite⟩
    cases ending with
    | through => exact (PathVia.loopAgain path .loopDone).visits (by simp [isSite])
    | out => exact (PathVia.loopOut path).visits (by simp [isSite])

def AllVisited (command : Command) : Prop :=
  ∀ site part, command.at? site = some part → Visits command site

theorem allVisited_of_no_parts (none : command.parts = []) : AllVisited command := by
  intro site part found
  cases site with
  | nil => exact visits_start command
  | cons index site => simp [Command.at?, none] at found

theorem allVisited_seq :
    AllVisited (.seq position first second) ↔
      HasPath first .through ∧ AllVisited first ∧ AllVisited second := by
  constructor
  · intro all
    have behind := visits_seq_second.mp (all [1] second rfl)
    refine ⟨behind.1, fun site part found => ?_, fun site part found => ?_⟩
    · exact visits_seq_first.mp (all (0 :: site) part found)
    · exact (visits_seq_second.mp (all (1 :: site) part found)).2
  · rintro ⟨through, firstAll, secondAll⟩ site part found
    match site with
    | [] => exact visits_start _
    | 0 :: site => exact visits_seq_first.mpr (firstAll site part found)
    | 1 :: site => exact visits_seq_second.mpr ⟨through, secondAll site part found⟩
    | (index + 2) :: site => simp [Command.at?, Command.parts] at found

theorem allVisited_ifThen : AllVisited (.ifThen position condition yes) ↔ AllVisited yes := by
  constructor
  · exact fun all site part found => visits_ifThen.mp (all (0 :: site) part found)
  · intro all site part found
    match site with
    | [] => exact visits_start _
    | 0 :: site => exact visits_ifThen.mpr (all site part found)
    | (index + 1) :: site => simp [Command.at?, Command.parts] at found

theorem allVisited_ifElse :
    AllVisited (.ifElse position condition yes no) ↔ AllVisited yes ∧ AllVisited no := by
  constructor
  · intro all
    refine ⟨fun site part found => ?_, fun site part found => ?_⟩
    · exact visits_ifElse_true.mp (all (0 :: site) part found)
    · exact visits_ifElse_false.mp (all (1 :: site) part found)
  · rintro ⟨yesAll, noAll⟩ site part found
    match site with
    | [] => exact visits_start _
    | 0 :: site => exact visits_ifElse_true.mpr (yesAll site part found)
    | 1 :: site => exact visits_ifElse_false.mpr (noAll site part found)
    | (index + 2) :: site => simp [Command.at?, Command.parts] at found

theorem allVisited_loop : AllVisited (.loop position condition body) ↔ AllVisited body := by
  constructor
  · exact fun all site part found => visits_loop.mp (all (0 :: site) part found)
  · intro all site part found
    match site with
    | [] => exact visits_start _
    | 0 :: site => exact visits_loop.mpr (all site part found)
    | (index + 1) :: site => simp [Command.at?, Command.parts] at found

theorem isDeadCodeFree_iff_allVisited (command : Command) :
    command.isDeadCodeFree = true ↔ AllVisited command := by
  induction command with
  | seq position first second firstIh secondIh =>
      rw [Command.isDeadCodeFree, Bool.and_eq_true, Bool.and_eq_true, Bool.not_eq_true',
        terminates_eq_false_iff, firstIh, secondIh, and_assoc, allVisited_seq]
  | ifThen position condition yes ih => rw [Command.isDeadCodeFree, ih, allVisited_ifThen]
  | ifElse position condition yes no yesIh noIh =>
      rw [Command.isDeadCodeFree, Bool.and_eq_true, yesIh, noIh, allVisited_ifElse]
  | loop position condition body ih => rw [Command.isDeadCodeFree, ih, allVisited_loop]
  | skip position => exact iff_of_true rfl (allVisited_of_no_parts rfl)
  | ret position => exact iff_of_true rfl (allVisited_of_no_parts rfl)
  | assign position field value => exact iff_of_true rfl (allVisited_of_no_parts rfl)
  | assert position condition => exact iff_of_true rfl (allVisited_of_no_parts rfl)

/-- Both analyses are exact for paths whose conditions may go either way. A command always returns
exactly if no path falls through, and it is free of dead code exactly if every part of it is on a path. -/
theorem dead_code_analysis_exact (command : Command) :
    (command.terminates = true ↔ ∀ sites, ¬PathVia command sites .through) ∧
      (command.isDeadCodeFree = true ↔
        ∀ site part, command.at? site = some part →
          ∃ sites ending, PathVia command sites ending ∧ site ∈ sites) :=
  ⟨terminates_iff_no_path, isDeadCodeFree_iff_allVisited command⟩

end Assay.Syntax
