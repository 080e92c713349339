import Assay.Lowering.Command
import Assay.Proofs.Graph.Growth
import Assay.Proofs.Graph.Traversal
import Assay.Proofs.Lowering.Totality
import Assay.Proofs.Success

/-!
Lowering only adds blocks, also when it fails: what was in the arena keeps its code and its
successors, and no edge leads out of the arena.
-/

namespace Assay.Graph.Arena

theorem closed_iff {arena : Arena} :
    arena.Closed ↔ ∀ id code transfer, arena.Holds id code transfer →
      ∀ next ∈ transfer.successors, next < arena.size := by
  constructor
  · rintro closed id code transfer ⟨block, found, rfl, rfl⟩ next isNext
    refine closed id next ?_
    rw [successors_of_get found]
    exact isNext
  · intro inside id next isNext
    cases found : arena.get? id with
    | none => simp [successors_of_none found] at isNext
    | some block =>
        rw [successors_of_get found] at isNext
        exact inside id _ _ ⟨block, found, rfl, rfl⟩ next isNext

theorem closed_empty (tag : Nat) : (empty tag).Closed := by
  rw [closed_iff]
  rintro id code transfer ⟨block, found, -⟩
  simp [empty, get?] at found

structure Enlarges (before after : Arena) : Prop where
  keeps : before.Keeps after
  closed : before.Closed → after.Closed

theorem Enlarges.refl (arena : Arena) : arena.Enlarges arena :=
  ⟨Keeps.refl arena, fun closed => closed⟩

theorem Enlarges.trans {first second third : Arena} (earlier : first.Enlarges second)
    (later : second.Enlarges third) : first.Enlarges third :=
  ⟨earlier.keeps.trans later.keeps, fun closed => later.closed (earlier.closed closed)⟩

theorem enlarges_allocate {arena : Arena} {transfer : Transfer} (code : List Instruction)
    (inside : ∀ next ∈ transfer.successors, next < arena.size) :
    arena.Enlarges (arena.allocate code transfer).1 := by
  constructor
  · intro id other otherTransfer holds
    rw [holds_allocate_iff, if_neg (Nat.ne_of_lt holds.lt_size)]
    exact holds
  · simp only [closed_iff, holds_allocate_iff, size_allocate]
    intro closed id other otherTransfer holds next isNext
    split at holds
    · obtain ⟨rfl, rfl⟩ := holds
      exact Nat.lt_succ_of_lt (inside next isNext)
    · exact Nat.lt_succ_of_lt (closed id other otherTransfer holds next isNext)

theorem enlarges_countEdge (arena : Arena) (target : BlockIndex) :
    arena.Enlarges (arena.countEdge target) := by
  constructor
  · exact fun id code transfer holds => holds.countEdge target
  · simp only [closed_iff, holds_countEdge_iff, size_countEdge]
    exact fun closed => closed

theorem enlarges_branch {arena : Arena} (cond : Cond) {yes no : BlockIndex}
    (yesInside : yes < arena.size) (noInside : no < arena.size) :
    arena.Enlarges (arena.branch cond yes no).1 := by
  have inside : ∀ next ∈ (Transfer.branch cond yes no).successors, next < arena.size := by
    simp [Transfer.successors, yesInside, noInside]
  exact ((enlarges_allocate [] inside).trans (enlarges_countEdge _ yes)).trans
    (enlarges_countEdge _ no)

theorem enlarges_prepend {arena : Arena} (code : List Instruction) {next : BlockIndex}
    (inside : next < arena.size) : arena.Enlarges (arena.prepend code next).1 := by
  unfold prepend
  split
  · exact Enlarges.refl arena
  · have isInside : ∀ target ∈ (Transfer.jump next).successors, target < arena.size := by
      simp [Transfer.successors, inside]
    exact (enlarges_allocate code isInside).trans (enlarges_countEdge _ next)

theorem enlarges_loop {start last : Arena} {next : BlockIndex}
    (grown : (start.newBlock []).1.Enlarges last) (inside : next < last.size) :
    ∃ linked, last.link start.size next = .ok linked ∧ start.Enlarges linked ∧
      start.size < linked.size := by
  have opened : start.Enlarges (start.newBlock []).1 :=
    enlarges_allocate [] (by simp [Transfer.successors])
  obtain ⟨linked, done, keeps, larger, sameSize, holds_iff⟩ := keeps_loop grown.keeps next
  refine ⟨linked, done, ⟨keeps, fun closed => ?_⟩, larger⟩
  have lastClosed := closed_iff.mp (grown.closed (opened.closed closed))
  rw [closed_iff, sameSize]
  intro id code transfer holds target isTarget
  rw [holds_iff] at holds
  split at holds
  · obtain ⟨rfl, rfl⟩ := holds
    obtain rfl := List.mem_singleton.mp isTarget
    exact inside
  · exact lastClosed id code transfer holds target isTarget

end Assay.Graph.Arena

namespace Assay.Lowering

open Assay.Graph Syntax Typing

/-- A lowering that enlarges an arena. If it succeeds, the result has the property `within` in the
arena of the new size. -/
structure Grows {α : Type} (within : Nat → α → Prop) (start : Arena) (lowering : Lower α) :
    Prop where
  enlarges : start.Enlarges (lowering.run start).2
  result : ∀ value, (lowering.run start).1 = .ok value → within (lowering.run start).2.size value

variable {start : Arena}

theorem Inside.enlarged {finish : Arena} {id : BlockIndex} (inside : Inside start.size id)
    (enlarges : start.Enlarges finish) : Inside finish.size id :=
  Nat.lt_of_lt_of_le inside enlarges.keeps.size_le

theorem Grows.of_run {α : Type} {within : Nat → α → Prop} {lowering : Lower α}
    {result : Except LoweringError α} {finish : Arena} (ran : lowering.run start = (result, finish))
    (enlarges : start.Enlarges finish)
    (inside : ∀ value, result = .ok value → within finish.size value) :
    Grows within start lowering := by
  constructor
  · rw [ran]
    exact enlarges
  · rw [ran]
    exact inside

theorem Grows.run {α : Type} {within : Nat → α → Prop} {lowering : Lower α}
    {result : Except LoweringError α} {finish : Arena} (grows : Grows within start lowering)
    (ran : lowering.run start = (result, finish)) :
    start.Enlarges finish ∧ ∀ value, result = .ok value → within finish.size value := by
  obtain ⟨enlarges, inside⟩ := grows
  rw [ran] at enlarges inside
  exact ⟨enlarges, inside⟩

theorem grows_pure {α : Type} {within : Nat → α → Prop} {value : α}
    (inside : within start.size value) : Grows within start (pure value) :=
  ⟨Arena.Enlarges.refl start, fun result done => by cases done; exact inside⟩

theorem grows_throw {α : Type} {within : Nat → α → Prop} (problem : LoweringError) :
    Grows within start (throw problem) :=
  ⟨Arena.Enlarges.refl start, fun result done => by cases done⟩

theorem grows_allocate {within : Nat → BlockIndex → Prop} {operation : Arena → Arena × BlockIndex}
    (enlarges : start.Enlarges (operation start).1)
    (inside : within (operation start).1.size (operation start).2) :
    Grows within start (allocate operation) :=
  ⟨enlarges, fun result done => by cases done; exact inside⟩

theorem Grows.bind {α β : Type} {within : Nat → α → Prop} {result : Nat → β → Prop}
    {first : Lower α} {second : α → Lower β} (grows : Grows within start first)
    (rest : ∀ value middle, start.Enlarges middle → within middle.size value →
      Grows result middle (second value)) :
    Grows result start (first >>= second) := by
  rcases ran : first.run start with ⟨problem | value, middle⟩
  · exact .of_run (bind_of_error ran) (grows.run ran).1 fun value done => nomatch done
  · obtain ⟨enlarges, inside⟩ := grows.run ran
    have later := rest value middle enlarges (inside value rfl)
    exact .of_run (bind_of_ok ran) (enlarges.trans later.enlarges) later.result

theorem grows_prepend (code : List Instruction) {next : BlockIndex} (inside : Inside start.size next) :
    Grows Inside start (prepend code next) :=
  grows_allocate (Arena.enlarges_prepend code inside) (Arena.prepend_lt_size code inside)

theorem grows_branch (cond : Cond) {yes no : BlockIndex} (yesInside : Inside start.size yes)
    (noInside : Inside start.size no) : Grows Inside start (branch cond yes no) :=
  grows_allocate (Arena.enlarges_branch cond yesInside noInside)
    (Arena.branch_lt_size start cond yes no)

theorem grows_newBlock (code : List Instruction) : Grows Inside start (newBlock code) :=
  grows_allocate (Arena.enlarges_allocate code (by simp [Transfer.successors]))
    (Arena.holds_newBlock start code).lt_size

theorem grows_consumer {destination : Destination} (within : destination.Within start.size) :
    Grows Inside start destination.consumer := by
  cases destination with
  | value next => exact grows_pure within
  | test yes no => exact grows_branch .ifTrue within.1 within.2

theorem grows_branches {destination : Destination} (within : destination.Within start.size) :
    Grows BothInside start destination.branches := by
  cases destination with
  | value next =>
      refine (grows_prepend [.const 1] within).bind fun yes middle enlarges yesInside => ?_
      refine (grows_prepend [.const 0] (Inside.enlarged within enlarges)).bind
        fun no last later noInside => ?_
      exact grows_pure ⟨yesInside.enlarged later, noInside⟩
  | test yes no => exact grows_pure within

theorem grows_lowerExpression (resolution : Resolution) (expression : Expression)
    {destination : Destination} (within : destination.Within start.size) :
    Grows Inside start (lowerExpression resolution expression destination) := by
  induction expression generalizing destination start with
  | int position value =>
      rw [lowerExpression]
      exact (grows_consumer within).bind fun next middle _ inside => grows_prepend _ inside
  | boolean position value =>
      cases destination with
      | value next =>
          rw [lowerExpression]
          exact grows_prepend _ within
      | test yes no =>
          rw [lowerExpression]
          refine grows_pure ?_
          cases value with
          | true => exact within.1
          | false => exact within.2
  | field position name =>
      rw [lowerExpression]
      refine (grows_consumer within).bind fun next middle _ inside => ?_
      split
      · exact grows_prepend _ inside
      · exact grows_throw _
  | binary position operator left right leftIh rightIh =>
      rw [lowerExpression]
      refine (grows_consumer within).bind fun next first _ inside => ?_
      refine (grows_prepend _ inside).bind fun operation second _ inside => ?_
      exact Grows.bind (rightIh inside) fun rest third _ inside => leftIh inside
  | comparison position operator left right leftIh rightIh =>
      rw [lowerExpression]
      refine (grows_branches within).bind fun targets first _ inside => ?_
      refine (grows_branch operator.cond inside.1 inside.2).bind fun decision second _ inside => ?_
      exact Grows.bind (rightIh inside) fun rest third _ inside => leftIh inside
  | not position operand ih =>
      rw [lowerExpression]
      exact (grows_branches within).bind fun targets first _ inside => ih inside.symm
  | and position left right leftIh rightIh =>
      rw [lowerExpression]
      refine (grows_branches within).bind fun targets first _ inside => ?_
      exact Grows.bind (rightIh inside) fun rest second enlarges restInside =>
        leftIh ⟨restInside, inside.2.enlarged enlarges⟩
  | or position left right leftIh rightIh =>
      rw [lowerExpression]
      refine (grows_branches within).bind fun targets first _ inside => ?_
      exact Grows.bind (rightIh inside) fun rest second enlarges restInside =>
        leftIh ⟨inside.1.enlarged enlarges, restInside⟩

theorem grows_loop {next : BlockIndex} {body : BlockIndex → Lower BlockIndex}
    {condition : BlockIndex → Lower BlockIndex} (inside : Inside start.size next)
    (bodyGrows : ∀ arena pivot, Inside arena.size pivot → start.Enlarges arena →
      Grows Inside arena (body pivot))
    (conditionGrows : ∀ arena round, Inside arena.size round → Inside arena.size next →
      Grows Inside arena (condition round)) :
    Grows Inside start (do
      let pivot ← newBlock []
      let round ← body pivot
      let test ← condition round
      link pivot test
      pure pivot) := by
  have created : (newBlock []).run start = (.ok start.size, (start.newBlock []).1) := rfl
  have opened : start.Enlarges (start.newBlock []).1 := (grows_newBlock []).enlarges
  have pivotInside : Inside (start.newBlock []).1.size start.size :=
    (Arena.holds_newBlock start []).lt_size
  have bodyGrown := bodyGrows _ start.size pivotInside opened
  rcases bodyRan : (body start.size).run (start.newBlock []).1 with ⟨problem | round, middle⟩
  · exact .of_run ((bind_of_ok created).trans (bind_of_error bodyRan))
      (opened.trans (bodyGrown.run bodyRan).1) fun value done => nomatch done
  obtain ⟨bodyEnlarges, roundInside⟩ := bodyGrown.run bodyRan
  have conditionGrown := conditionGrows middle round (roundInside round rfl)
    ((inside.enlarged opened).enlarged bodyEnlarges)
  rcases conditionRan : (condition round).run middle with ⟨problem | test, last⟩
  · exact .of_run (((bind_of_ok created).trans (bind_of_ok bodyRan)).trans (bind_of_error conditionRan))
      (opened.trans (bodyEnlarges.trans (conditionGrown.run conditionRan).1))
      fun value done => nomatch done
  obtain ⟨conditionEnlarges, testInside⟩ := conditionGrown.run conditionRan
  obtain ⟨linked, linkDone, enlarges, pivotLinked⟩ :=
    Arena.enlarges_loop (bodyEnlarges.trans conditionEnlarges) (testInside test rfl)
  have closed : (link start.size test).run last = (.ok (), linked) := by rw [link_run, linkDone]
  exact .of_run (((bind_of_ok created).trans (bind_of_ok bodyRan)).trans
    ((bind_of_ok conditionRan).trans (bind_of_ok closed))) enlarges
    fun value done => by cases done; exact pivotLinked

theorem grows_lowerCommand (resolution : Resolution) (command : Command) {exit next : BlockIndex}
    (exitInside : Inside start.size exit) (nextInside : Inside start.size next) :
    Grows Inside start (lowerCommand resolution exit command next) := by
  induction command generalizing next start with
  | skip position =>
      rw [lowerCommand]
      exact grows_pure nextInside
  | seq position first second firstIh secondIh =>
      rw [lowerCommand]
      exact (secondIh exitInside nextInside).bind fun rest middle enlarges inside =>
        firstIh (exitInside.enlarged enlarges) inside
  | ifThen position condition yes ih =>
      rw [lowerCommand]
      exact (ih exitInside nextInside).bind fun whenTrue middle enlarges inside =>
        grows_lowerExpression resolution condition ⟨inside, nextInside.enlarged enlarges⟩
  | ifElse position condition yes no yesIh noIh =>
      rw [lowerCommand]
      refine (yesIh exitInside nextInside).bind fun whenTrue first firstEnlarges yesInside => ?_
      refine (noIh (exitInside.enlarged firstEnlarges) (nextInside.enlarged firstEnlarges)).bind
        fun whenFalse second secondEnlarges noInside => ?_
      exact grows_lowerExpression resolution condition
        ⟨yesInside.enlarged secondEnlarges, noInside⟩
  | loop position condition body ih =>
      rw [lowerCommand]
      refine grows_loop nextInside ?_ ?_
      · intro arena pivot pivotInside enlarges
        exact ih (exitInside.enlarged enlarges) pivotInside
      · intro arena round roundInside nextInside
        exact grows_lowerExpression resolution condition ⟨roundInside, nextInside⟩
  | ret position =>
      rw [lowerCommand]
      exact grows_pure exitInside
  | assign position field value =>
      rw [lowerCommand]
      split
      · exact grows_throw _
      · refine (grows_prepend _ nextInside).bind fun store first _ inside => ?_
        have within : (Destination.value store).Within first.size := inside
        refine (grows_lowerExpression resolution value within).bind fun compute second _ inside => ?_
        exact grows_prepend _ inside
  | assert position condition =>
      rw [lowerCommand]
      split
      · exact (grows_newBlock _).bind fun failed middle enlarges failedInside =>
          grows_lowerExpression resolution condition ⟨nextInside.enlarged enlarges, failedInside⟩
      · exact grows_throw _

/-- Lowering a body enlarges the arena, whatever the body is and whether or not it was checked. -/
theorem grows_lowerBody (role : Role) (resolution : Resolution) (body : Command) :
    Grows Inside start (lowerBody role resolution body) :=
  (grows_newBlock (exitCode role)).bind fun _ _ _ inside =>
    grows_lowerCommand resolution body inside inside

end Assay.Lowering
