import Assay.Proofs.Assembly.Requests

/-!
Which members of a run have code. A run marks a member before it lowers the body, so the first request
decides: code is recorded if everything in the body was checked by then, and never if not, also when the
member is requested again once its body has been checked.
-/

namespace Assay.Typing

open Assay.Graph Syntax

/-- A check has found the owner of every field that the expression reads. -/
def Resolution.covers (resolution : Resolution) : Expression → Bool
  | .int _ _ => true
  | .boolean _ _ => true
  | .field _ name => (resolution.owner? name).isSome
  | .binary _ _ left right => resolution.covers left && resolution.covers right
  | .comparison _ _ left right => resolution.covers left && resolution.covers right
  | .not _ operand => resolution.covers operand
  | .and _ left right => resolution.covers left && resolution.covers right
  | .or _ left right => resolution.covers left && resolution.covers right

def Resolution.coversCommand (resolution : Resolution) : Command → Bool
  | .skip _ => true
  | .seq _ first second => resolution.coversCommand first && resolution.coversCommand second
  | .ifThen _ condition yes => resolution.covers condition && resolution.coversCommand yes
  | .ifElse _ condition yes no =>
    resolution.covers condition && resolution.coversCommand yes && resolution.coversCommand no
  | .loop _ condition body => resolution.covers condition && resolution.coversCommand body
  | .ret _ => true
  | .assign _ field value => (resolution.owner? field).isSome && resolution.covers value
  | .assert _ condition => resolution.checked && resolution.covers condition

def Member.isCovered (member : Member) : Bool :=
  member.resolution.coversCommand member.declaration.body

end Assay.Typing

namespace Assay.Lowering

open Assay.Graph Syntax Typing

def Succeeds {α : Type} (lowering : Lower α) (start : Arena) : Prop :=
  ∃ value finish, lowering.run start = (.ok value, finish)

variable {start : Arena} {α β : Type}

theorem succeeds_pure (value : α) : Succeeds (pure value) start := ⟨value, start, rfl⟩

theorem succeeds_allocate (operation : Arena → Arena × BlockIndex) :
    Succeeds (allocate operation) start := ⟨_, _, rfl⟩

theorem not_succeeds_throw (problem : LoweringError) : ¬Succeeds (throw problem : Lower α) start :=
  fun ⟨_, _, done⟩ => throw_ok done

theorem Succeeds.ok {lowering : Lower α} {problem : LoweringError} {finish : Arena}
    (succeeds : Succeeds lowering start) (failed : lowering.run start = (.error problem, finish)) :
    False := by
  obtain ⟨value, last, done⟩ := succeeds
  rw [failed] at done
  cases done

theorem succeeds_bind {within : Nat → α → Prop} {needs : Prop} {first : Lower α}
    {second : α → Lower β} (grows : Grows within start first)
    (rest : ∀ value middle, start.Enlarges middle → within middle.size value →
      (Succeeds (second value) middle ↔ needs)) :
    Succeeds (first >>= second) start ↔ Succeeds first start ∧ needs := by
  rcases ran : first.run start with ⟨problem | value, middle⟩
  · constructor
    · intro succeeds
      exact (succeeds.ok (bind_of_error ran)).elim
    · rintro ⟨succeeds, -⟩
      exact (succeeds.ok ran).elim
  · obtain ⟨enlarges, inside⟩ := grows.run ran
    have first : Succeeds first start := ⟨value, middle, ran⟩
    rw [← rest value middle enlarges (inside value rfl)]
    constructor
    · rintro ⟨result, finish, done⟩
      exact ⟨first, result, finish, (bind_of_ok ran).symm.trans done⟩
    · rintro ⟨-, result, finish, done⟩
      exact ⟨result, finish, (bind_of_ok ran).trans done⟩

theorem succeeds_prepend (code : List Instruction) (next : BlockIndex) :
    Succeeds (prepend code next) start := succeeds_allocate _

theorem succeeds_branch (cond : Cond) (yes no : BlockIndex) : Succeeds (branch cond yes no) start :=
  succeeds_allocate _

theorem succeeds_consumer (destination : Destination) : Succeeds destination.consumer start := by
  cases destination with
  | value next => exact succeeds_pure next
  | test yes no => exact succeeds_branch _ _ _

theorem succeeds_branches (destination : Destination) : Succeeds destination.branches start := by
  cases destination with
  | value next => exact ⟨_, _, rfl⟩
  | test yes no => exact succeeds_pure (yes, no)

theorem succeeds_behind {within : Nat → α → Prop} {needs : Prop} {first : Lower α}
    {second : α → Lower β} (grows : Grows within start first) (always : Succeeds first start)
    (rest : ∀ value middle, start.Enlarges middle → within middle.size value →
      (Succeeds (second value) middle ↔ needs)) : Succeeds (first >>= second) start ↔ needs :=
  (succeeds_bind grows rest).trans (and_iff_right always)

theorem succeeds_before {within : Nat → α → Prop} {first : Lower α} {second : α → Lower β}
    (grows : Grows within start first)
    (always : ∀ value middle, start.Enlarges middle → within middle.size value →
      Succeeds (second value) middle) : Succeeds (first >>= second) start ↔ Succeeds first start :=
  (succeeds_bind grows fun value middle enlarges inside =>
    iff_true_intro (always value middle enlarges inside)).trans (and_iff_left trivial)

theorem succeeds_lowerExpression (resolution : Resolution) (expression : Expression)
    {destination : Destination} (within : destination.Within start.size) :
    Succeeds (lowerExpression resolution expression destination) start ↔
      resolution.covers expression = true := by
  induction expression generalizing destination start with
  | int position value =>
      rw [lowerExpression]
      exact succeeds_behind (grows_consumer within) (succeeds_consumer destination)
        fun next middle _ _ => iff_of_true (succeeds_prepend _ _) rfl
  | boolean position value =>
      cases destination with
      | value next => exact iff_of_true (succeeds_prepend _ _) rfl
      | test yes no => exact iff_of_true (succeeds_pure _) rfl
  | field position name =>
      rw [lowerExpression]
      refine succeeds_behind (grows_consumer within) (succeeds_consumer destination)
        fun next middle _ _ => ?_
      rw [Resolution.covers]
      cases resolution.owner? name with
      | none => exact iff_of_false (not_succeeds_throw _) (by simp)
      | some owner => exact iff_of_true (succeeds_prepend _ _) rfl
  | binary position operator left right leftIh rightIh =>
      rw [lowerExpression, Resolution.covers, Bool.and_eq_true, and_comm]
      refine succeeds_behind (grows_consumer within) (succeeds_consumer destination)
        fun next first _ inside => ?_
      refine succeeds_behind (grows_prepend _ inside) (succeeds_prepend _ _)
        fun operation second _ inside => ?_
      have rightWithin : (Destination.value operation).Within second.size := inside
      rw [← rightIh rightWithin]
      exact succeeds_bind (grows_lowerExpression resolution right rightWithin)
        fun rest third _ inside => leftIh inside
  | comparison position operator left right leftIh rightIh =>
      rw [lowerExpression, Resolution.covers, Bool.and_eq_true, and_comm]
      refine succeeds_behind (grows_branches within) (succeeds_branches destination)
        fun targets first _ inside => ?_
      refine succeeds_behind (grows_branch operator.cond inside.1 inside.2) (succeeds_branch _ _ _)
        fun decision second _ inside => ?_
      have rightWithin : (Destination.value decision).Within second.size := inside
      rw [← rightIh rightWithin]
      exact succeeds_bind (grows_lowerExpression resolution right rightWithin)
        fun rest third _ inside => leftIh inside
  | not position operand ih =>
      rw [lowerExpression, Resolution.covers]
      exact succeeds_behind (grows_branches within) (succeeds_branches destination)
        fun targets first _ inside => ih inside.symm
  | and position left right leftIh rightIh =>
      rw [lowerExpression, Resolution.covers, Bool.and_eq_true, and_comm]
      refine succeeds_behind (grows_branches within) (succeeds_branches destination)
        fun targets first _ inside => ?_
      have rightWithin : (Destination.test targets.1 targets.2).Within first.size := inside
      rw [← rightIh rightWithin]
      exact succeeds_bind (grows_lowerExpression resolution right rightWithin)
        fun rest second enlarges restInside => leftIh ⟨restInside, inside.2.enlarged enlarges⟩
  | or position left right leftIh rightIh =>
      rw [lowerExpression, Resolution.covers, Bool.and_eq_true, and_comm]
      refine succeeds_behind (grows_branches within) (succeeds_branches destination)
        fun targets first _ inside => ?_
      have rightWithin : (Destination.test targets.1 targets.2).Within first.size := inside
      rw [← rightIh rightWithin]
      exact succeeds_bind (grows_lowerExpression resolution right rightWithin)
        fun rest second enlarges restInside => leftIh ⟨inside.1.enlarged enlarges, restInside⟩

theorem succeeds_loop {needsBody needsCondition : Prop} {body : BlockIndex → Lower BlockIndex}
    {condition : BlockIndex → Lower BlockIndex}
    (bodyGrows : ∀ arena pivot, Inside arena.size pivot → start.Enlarges arena →
      Grows Inside arena (body pivot) ∧ (Succeeds (body pivot) arena ↔ needsBody))
    (conditionGrows : ∀ arena round, Inside arena.size round → start.Enlarges arena →
      Grows Inside arena (condition round) ∧ (Succeeds (condition round) arena ↔ needsCondition)) :
    Succeeds (do
      let pivot ← newBlock []
      let round ← body pivot
      let test ← condition round
      link pivot test
      pure pivot) start ↔ needsCondition ∧ needsBody := by
  have created : (newBlock []).run start = (.ok start.size, (start.newBlock []).1) := rfl
  have opened : start.Enlarges (start.newBlock []).1 := (grows_newBlock []).enlarges
  have pivotInside : Inside (start.newBlock []).1.size start.size :=
    (Arena.holds_newBlock start []).lt_size
  obtain ⟨bodyGrown, bodyIff⟩ := bodyGrows _ start.size pivotInside opened
  simp only [Succeeds, bind_of_ok created]
  rw [and_comm, ← bodyIff]
  refine succeeds_bind bodyGrown fun round middle enlarges roundInside => ?_
  obtain ⟨conditionGrown, conditionIff⟩ :=
    conditionGrows middle round roundInside (opened.trans enlarges)
  rw [← conditionIff]
  refine succeeds_before conditionGrown fun test last later testInside => ?_
  obtain ⟨linked, linkDone, -⟩ := Arena.enlarges_loop (enlarges.trans later) testInside
  have closed : (link start.size test).run last = (.ok (), linked) := by rw [link_run, linkDone]
  exact ⟨start.size, linked, bind_of_ok closed⟩

/-- A command is lowered exactly if a check has found out what it needs. -/
theorem succeeds_lowerCommand (resolution : Resolution) (command : Command) {exit next : BlockIndex}
    (exitInside : Inside start.size exit) (nextInside : Inside start.size next) :
    Succeeds (lowerCommand resolution exit command next) start ↔
      resolution.coversCommand command = true := by
  induction command generalizing next start with
  | skip position => exact iff_of_true (succeeds_pure _) rfl
  | ret position => exact iff_of_true (succeeds_pure _) rfl
  | seq position first second firstIh secondIh =>
      rw [lowerCommand, Resolution.coversCommand, Bool.and_eq_true, and_comm,
        ← secondIh exitInside nextInside]
      exact succeeds_bind (grows_lowerCommand resolution second exitInside nextInside)
        fun rest middle enlarges inside => firstIh (exitInside.enlarged enlarges) inside
  | ifThen position condition yes ih =>
      rw [lowerCommand, Resolution.coversCommand, Bool.and_eq_true, and_comm,
        ← ih exitInside nextInside]
      exact succeeds_bind (grows_lowerCommand resolution yes exitInside nextInside)
        fun whenTrue middle enlarges inside =>
          succeeds_lowerExpression resolution condition ⟨inside, nextInside.enlarged enlarges⟩
  | ifElse position condition yes no yesIh noIh =>
      have parts : resolution.coversCommand (.ifElse position condition yes no) = true ↔
          resolution.coversCommand yes = true ∧ resolution.coversCommand no = true ∧
            resolution.covers condition = true := by
        simp only [Resolution.coversCommand, Bool.and_eq_true]
        constructor
        · rintro ⟨⟨test, first⟩, second⟩
          exact ⟨first, second, test⟩
        · rintro ⟨first, second, test⟩
          exact ⟨⟨test, first⟩, second⟩
      rw [lowerCommand, parts, ← yesIh exitInside nextInside]
      refine succeeds_bind (grows_lowerCommand resolution yes exitInside nextInside)
        fun whenTrue first firstEnlarges yesInside => ?_
      have exitFirst := exitInside.enlarged firstEnlarges
      have nextFirst := nextInside.enlarged firstEnlarges
      rw [← noIh exitFirst nextFirst]
      exact succeeds_bind (grows_lowerCommand resolution no exitFirst nextFirst)
        fun whenFalse second secondEnlarges noInside =>
          succeeds_lowerExpression resolution condition
            ⟨yesInside.enlarged secondEnlarges, noInside⟩
  | loop position condition body ih =>
      rw [lowerCommand, Resolution.coversCommand, Bool.and_eq_true]
      refine succeeds_loop (fun arena pivot pivotInside enlarges => ?_)
        fun arena round roundInside enlarges => ?_
      · have exitLater := exitInside.enlarged enlarges
        exact ⟨grows_lowerCommand resolution body exitLater pivotInside, ih exitLater pivotInside⟩
      · have within : (Destination.test round next).Within arena.size :=
          ⟨roundInside, nextInside.enlarged enlarges⟩
        exact ⟨grows_lowerExpression resolution condition within,
          succeeds_lowerExpression resolution condition within⟩
  | assign position field value =>
      rw [lowerCommand, Resolution.coversCommand]
      cases resolution.owner? field with
      | none => exact iff_of_false (not_succeeds_throw _) (by simp)
      | some owner =>
          simp only [Option.isSome_some, Bool.true_and]
          refine succeeds_behind (grows_prepend _ nextInside) (succeeds_prepend _ _)
            fun store first _ inside => ?_
          have within : (Destination.value store).Within first.size := inside
          rw [← succeeds_lowerExpression resolution value within]
          exact succeeds_before (grows_lowerExpression resolution value within)
            fun compute second _ _ => succeeds_prepend _ _
  | assert position condition =>
      rw [lowerCommand, Resolution.coversCommand]
      cases resolution.checked with
      | false => exact iff_of_false (not_succeeds_throw _) (by simp)
      | true =>
          simp only [if_true, Bool.true_and]
          exact succeeds_behind (grows_newBlock _) ⟨_, _, rfl⟩ fun failed middle enlarges inside =>
            succeeds_lowerExpression resolution condition ⟨nextInside.enlarged enlarges, inside⟩

theorem succeeds_lowerBody (role : Role) (resolution : Resolution) (body : Command) :
    Succeeds (lowerBody role resolution body) start ↔ resolution.coversCommand body = true :=
  succeeds_behind (grows_newBlock _) ⟨_, _, rfl⟩ fun _ _ _ inside =>
    succeeds_lowerCommand resolution body inside inside

/-! Requests of members that may not have been checked yet. -/

def firstRequest (members : List Member) (unit : UnitName) : Option Member :=
  members.find? fun member => member.unit? = some unit

theorem firstRequest_append (members : List Member) (member : Member) (unit : UnitName) :
    firstRequest (members ++ [member]) unit =
      (firstRequest members unit).or (if member.unit? = some unit then some member else none) := by
  rw [firstRequest, List.find?_append, ← firstRequest]
  congr 1
  by_cases isUnit : member.unit? = some unit
  · simp [isUnit]
  · simp [isUnit]

variable {members : List Member} {member : Member} {run : Run} {handed : List BlockIndex}

theorem firstRequest_isSome (members : List Member) (unit : UnitName) :
    (firstRequest members unit).isSome = true ↔
      ∃ member ∈ members, member.unit? = some unit := by
  simp [firstRequest]

theorem Tracked.firstRequest_isSome (tracked : Tracked members run handed) (unit : UnitName) :
    (firstRequest members unit).isSome = true ↔ unit ∈ run.started := by
  rw [Lowering.firstRequest_isSome, tracked.started]

theorem firstRequest_same {unit : UnitName}
    (known : member.unit? = some unit → (firstRequest members unit).isSome = true) :
    firstRequest (members ++ [member]) unit = firstRequest members unit := by
  rw [firstRequest_append]
  by_cases isUnit : member.unit? = some unit
  · obtain ⟨first, isFirst⟩ := Option.isSome_iff_exists.mp (known isUnit)
    rw [isFirst, Option.some_or]
  · rw [if_neg isUnit, Option.or_none]

theorem firstRequest_new {unit : UnitName} (isUnit : member.unit? = some unit)
    (unknown : ¬(firstRequest members unit).isSome = true) :
    firstRequest (members ++ [member]) unit = some member := by
  rw [firstRequest_append, if_pos isUnit, Option.not_isSome_iff_eq_none.mp unknown, Option.none_or]

/-- The code of a unit is recorded exactly if the body was covered at its first request. -/
def Recorded (members : List Member) (run : Run) : Prop :=
  ∀ unit, (run.codeOf? unit).isSome = (firstRequest members unit).any Member.isCovered

theorem Recorded.request (recorded : Recorded members run) (tracked : Tracked members run handed)
    (member : Member) : Recorded (members ++ [member]) (Lowering.request (run, handed) member).1 := by
  intro unit
  have others : ∀ other, member.unit? = some other → unit ≠ other →
      firstRequest (members ++ [member]) unit = firstRequest members unit := by
    intro other isOther different
    refine firstRequest_same fun isUnit => absurd ?_ different
    exact Option.some.inj (isUnit.symm.trans isOther)
  rcases request_cases member handed tracked.recorded with
    ⟨known, same⟩ | ⟨fresh, cause, grown, isUnit, notStarted, ran, same⟩ |
      ⟨fresh, root, lowered, isUnit, notStarted, done, -, codes, same⟩
  · rw [same, firstRequest_same fun isUnit => (tracked.firstRequest_isSome unit).mpr (known unit isUnit)]
    exact recorded unit
  · rw [same]
    by_cases isFresh : unit = fresh
    · subst isFresh
      have unknown : ¬(firstRequest members unit).isSome = true := fun isSome =>
        notStarted ((tracked.firstRequest_isSome unit).mp isSome)
      have uncovered : member.isCovered = false := by
        rw [← Bool.not_eq_true, Member.isCovered, ← succeeds_lowerBody member.role]
        exact fun succeeds => succeeds.ok ran
      rw [firstRequest_new isUnit unknown, Option.any_some, uncovered]
      exact Bool.eq_false_iff.mpr fun isSome => notStarted (tracked.recorded unit isSome)
    · rw [others fresh isUnit isFresh]
      exact recorded unit
  · have codeOf : (lowered.handOver root).1.codeOf? unit =
        if unit = fresh then some root else run.codeOf? unit := by
      rw [(tracked.lowered done).1.unchanged, ← codeOf?_cons, Run.codeOf?, Run.codeOf?, codes]
    rw [same, codeOf]
    by_cases isFresh : unit = fresh
    · subst isFresh
      have unknown : ¬(firstRequest members unit).isSome = true := fun isSome =>
        notStarted ((tracked.firstRequest_isSome unit).mp isSome)
      have covered : member.isCovered = true := by
        have outcome := lowerMember_outcome member tracked.recorded
        rw [done] at outcome
        cases outcome with
        | fresh _ _ _ ran => exact (succeeds_lowerBody _ _ _).mp ⟨root, _, ran⟩
      rw [firstRequest_new isUnit unknown, Option.any_some, covered, if_pos rfl, Option.isSome_some]
    · rw [others fresh isUnit isFresh, if_neg isFresh]
      exact recorded unit

/-- The first request of a unit decides. After any requests, the marked units are those that were
requested, and those with code are the ones whose body was covered when they were first requested. So marks
and code agree exactly if no first request came too early. -/
theorem first_request_decides (tag : Nat) (members : List Member) :
    let run := (requested tag members).1
    (∀ unit, run.isStarted unit = (firstRequest members unit).isSome) ∧
      Recorded members run ∧
      ((∀ unit, run.isStarted unit = true ↔ (run.codeOf? unit).isSome = true) ↔
        ∀ unit member, firstRequest members unit = some member → member.isCovered = true) := by
  intro run
  have tracked : Tracked members run (requested tag members).2 := tracked_requested tag members
  have started : ∀ unit, run.isStarted unit = (firstRequest members unit).isSome := by
    intro unit
    rw [Bool.eq_iff_iff, tracked.firstRequest_isSome, Run.isStarted, List.contains_iff_mem]
  have recorded : Recorded members run := by
    refine (requested_induction (motive := fun members run handed =>
      Tracked members run handed ∧ Recorded members run) ⟨tracked_new tag, fun unit => rfl⟩
      (fun members member run handed state => ?_) members).2
    exact ⟨tracked_request state.1 member, state.2.request state.1 member⟩
  refine ⟨started, recorded, ?_⟩
  constructor
  · intro agree unit member isFirst
    have coded := (agree unit).mp (by rw [started, isFirst, Option.isSome_some])
    rw [recorded, isFirst, Option.any_some] at coded
    exact coded
  · intro covered unit
    rw [started, recorded]
    cases isFirst : firstRequest members unit with
    | none => exact Iff.rfl
    | some member => simp [covered unit member isFirst]

def hastyTest : Member :=
  { Member.declared .test
      { position := .unknown, name := "lit"
        body := .assert .unknown (.boolean .unknown true) } with
    signature := some { owner := { name := "Lamp", serial := 0 }, role := .test, name := "lit" } }

def lateTest : Member := (Member.check hastyTest (ClassType.new { name := "Lamp", serial := 0 })).1

/-- The request that fails leaves the mark of the test behind, and the test never gets its code. -/
theorem early_request_leaves_mark :
    lateTest.Ready ∧ ∃ unit, hastyTest.unit? = some unit ∧ lateTest.unit? = some unit ∧
      (requested 0 [hastyTest, lateTest]).1.isStarted unit = true ∧
      (requested 0 [hastyTest, lateTest]).1.codeOf? unit = none :=
  ⟨⟨rfl, hastyTest, _, rfl⟩, _, rfl, rfl, by decide, by decide⟩

end Assay.Lowering
