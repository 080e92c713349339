import Assay.Assembly.Generator
import Assay.Proofs.Graph.HandOver
import Assay.Proofs.Lowering.Growth

/-!
Members are requested from one run in any order and any number of times. Every block of their code is
handed over exactly once, and between requests the visited blocks are those that were handed over.
-/

namespace Assay.Typing

open Assay.Graph

def Member.unit? (member : Member) : Option UnitName :=
  member.signature.map Signature.unit

/-- Registered, and found without problems by its latest check. -/
structure Member.Ready (member : Member) : Prop where
  registered : member.signature.isSome = true
  checked : ∃ earlier owner, Member.check earlier owner = (member, [])

end Assay.Typing

namespace Assay.Lowering

open Assay.Graph Syntax Typing

inductive MemberOutcome (member : Member) (run : Run) :
    Run × Except MemberError (Option BlockIndex) → Prop
  | unregistered : member.unit? = none →
      MemberOutcome member run (run, .error (.notRegistered member.role))
  | repeated {unit : UnitName} : member.unit? = some unit → unit ∈ run.started →
      MemberOutcome member run (run, .ok none)
  | failed {unit : UnitName} {cause : LoweringError} {grown : Arena} :
      member.unit? = some unit → unit ∉ run.started →
      (lowerBody member.role member.resolution member.declaration.body).run run.arena =
        (.error cause, grown) →
      MemberOutcome member run
        ({ run with arena := grown, started := unit :: run.started }, .error (.lowering cause))
  | fresh {unit : UnitName} {root : BlockIndex} {grown : Arena} :
      member.unit? = some unit → unit ∉ run.started → run.codeOf? unit = none →
      (lowerBody member.role member.resolution member.declaration.body).run run.arena =
        (.ok root, grown) →
      MemberOutcome member run
        ({ run with
            arena := grown, started := unit :: run.started, code := (unit, root) :: run.code },
          .ok (some root))

variable {members : List Member} {member : Member} {run : Run} {handed : List BlockIndex}

theorem lowerMember_outcome (member : Member)
    (recorded : ∀ unit, (run.codeOf? unit).isSome = true → unit ∈ run.started) :
    MemberOutcome member run (lowerMember member run) := by
  cases known : member.signature with
  | none =>
      simp only [lowerMember, known]
      exact .unregistered (by simp [Member.unit?, known])
  | some signature =>
      have isUnit : member.unit? = some signature.unit := by simp [Member.unit?, known]
      by_cases started : signature.unit ∈ run.started
      · have isStarted : run.isStarted signature.unit = true := by simpa [Run.isStarted] using started
        simp only [lowerMember, known, Run.markStarted, isStarted, if_true]
        exact .repeated isUnit started
      · have notStarted : run.isStarted signature.unit = false := by
          simpa [Run.isStarted] using started
        have unrecorded : run.codeOf? signature.unit = none := by
          rw [← Option.not_isSome_iff_eq_none]
          exact fun isSome => started (recorded _ isSome)
        simp only [lowerMember, known, Run.markStarted, notStarted, Bool.false_eq_true, if_false]
        rcases ran : (lowerBody member.role member.resolution member.declaration.body).run run.arena
          with ⟨cause | root, grown⟩
        · exact .failed isUnit started ran
        · have noCode : ∀ arena units, Run.codeOf?
              { arena, started := units, code := run.code, visited := run.visited }
              signature.unit = none := fun _ _ => unrecorded
          simp only [Run.setCode, noCode, Option.isSome_none, Bool.false_eq_true, if_false]
          exact .fresh isUnit started unrecorded ran

def request (state : Run × List BlockIndex) (member : Member) : Run × List BlockIndex :=
  match handOverMember member state.1 with
  | (run, .ok handed) => (run, state.2 ++ handed)
  | (run, .error _) => (run, state.2)

/-- A new run after some requests, and the blocks that it handed over, in order. -/
def requested (tag : Nat) (members : List Member) : Run × List BlockIndex :=
  members.foldl request (Run.new tag, [])

/-- The state of a run between requests. -/
structure Tracked (members : List Member) (run : Run) (handed : List BlockIndex) : Prop where
  closed : run.arena.Closed
  inside : ∀ unit root, run.codeOf? unit = some root → root < run.arena.size
  recorded : ∀ unit, (run.codeOf? unit).isSome = true → unit ∈ run.started
  started : ∀ unit, unit ∈ run.started ↔ ∃ member ∈ members, member.unit? = some unit
  distinct : handed.Nodup
  visited : ∀ id, run.isVisited id = true ↔ id ∈ handed
  counted : run.visitedCount = handed.length
  reachable : ∀ id, id ∈ handed ↔
    ∃ unit root, run.codeOf? unit = some root ∧ Reachable run.arena root id

theorem tracked_new (tag : Nat) : Tracked [] (Run.new tag) [] where
  closed := Arena.closed_empty tag
  inside := by simp [Run.new, Run.codeOf?]
  recorded := by simp [Run.new, Run.codeOf?]
  started := by simp [Run.new]
  distinct := List.nodup_nil
  visited := by simp [Run.new, Run.isVisited]
  counted := by simp [Run.new, Run.visitedCount]
  reachable := by simp [Run.new, Run.codeOf?]

theorem Tracked.visited_closed (tracked : Tracked members run handed) {id next : BlockIndex}
    (isVisited : run.isVisited id = true) (isNext : next ∈ run.arena.successors id) :
    run.isVisited next = true := by
  rw [tracked.visited, tracked.reachable] at isVisited ⊢
  obtain ⟨unit, root, isCode, reachable⟩ := isVisited
  exact ⟨unit, root, isCode, .edge reachable isNext⟩

theorem Tracked.unchanged (tracked : Tracked members run handed)
    (known : ∀ unit, member.unit? = some unit → unit ∈ run.started) :
    Tracked (members ++ [member]) run handed := by
  refine { tracked with started := fun unit => ?_ }
  simp only [List.mem_append, List.mem_singleton, or_and_right, exists_or, exists_eq_left]
  rw [tracked.started]
  constructor
  · exact .inl
  · rintro (isOld | isNew)
    · exact isOld
    · exact (tracked.started unit).mp (known unit isNew)

theorem Tracked.enlarged (tracked : Tracked members run handed) {unit : UnitName} {grown : Arena}
    (isUnit : member.unit? = some unit) (enlarges : run.arena.Enlarges grown) :
    Tracked (members ++ [member]) { run with arena := grown, started := unit :: run.started }
      handed where
  closed := enlarges.closed tracked.closed
  inside := fun other root isCode =>
    Nat.lt_of_lt_of_le (tracked.inside other root isCode) enlarges.keeps.size_le
  recorded := fun other isSome => List.mem_cons_of_mem _ (tracked.recorded other isSome)
  started := by
    intro other
    simp only [List.mem_append, List.mem_singleton, or_and_right, exists_or, exists_eq_left]
    rw [List.mem_cons, tracked.started, isUnit, Option.some.injEq, eq_comm, or_comm]
  distinct := tracked.distinct
  visited := tracked.visited
  counted := tracked.counted
  reachable := by
    intro id
    rw [tracked.reachable]
    constructor
    · rintro ⟨other, root, isCode, reachable⟩
      exact ⟨other, root, isCode,
        (enlarges.keeps.reachable_iff tracked.closed (tracked.inside other root isCode) id).mpr
          reachable⟩
    · rintro ⟨other, root, isCode, reachable⟩
      exact ⟨other, root, isCode,
        (enlarges.keeps.reachable_iff tracked.closed (tracked.inside other root isCode) id).mp
          reachable⟩

theorem codeOf?_cons (run : Run) (unit other : UnitName) (root : BlockIndex) :
    Run.codeOf? { run with code := (unit, root) :: run.code } other =
      if other = unit then some root else run.codeOf? other := by
  by_cases same : other = unit
  · simp [Run.codeOf?, same]
  · have different : (other == unit) = false := by simpa using same
    simp [Run.codeOf?, List.lookup_cons, different, same]

theorem Tracked.handsOver (tracked : Tracked members run handed) {unit : UnitName} {root : BlockIndex}
    {after : Run} {more : List BlockIndex} (isStarted : unit ∈ run.started)
    (inside : root < run.arena.size) (unrecorded : run.codeOf? unit = none)
    (handsOver : Run.HandsOver { run with code := (unit, root) :: run.code } root after more) :
    Tracked members after (handed ++ more) := by
  have sameArena : after.arena = run.arena := by rw [handsOver.unchanged]
  have sameStarted : after.started = run.started := by rw [handsOver.unchanged]
  have codeOf : ∀ other, after.codeOf? other =
      if other = unit then some root else run.codeOf? other := by
    intro other
    rw [handsOver.unchanged]
    exact codeOf?_cons run unit other root
  have visited : ∀ id, after.isVisited id = true ↔ id ∈ handed ++ more := by
    intro id
    rw [handsOver.visited, List.mem_append, ← tracked.visited]
    rfl
  refine
    { closed := by rw [sameArena]; exact tracked.closed
      inside := ?_
      recorded := ?_
      started := by rw [sameStarted]; exact tracked.started
      distinct := ?_
      visited
      counted := by rw [handsOver.counted, List.length_append, ← tracked.counted]; rfl
      reachable := ?_ }
  · intro other start isCode
    rw [codeOf] at isCode
    rw [sameArena]
    split at isCode
    · exact Option.some.inj isCode ▸ inside
    · exact tracked.inside other start isCode
  · intro other isSome
    rw [codeOf] at isSome
    rw [sameStarted]
    split at isSome
    · rename_i same
      exact same ▸ isStarted
    · exact tracked.recorded other isSome
  · refine List.nodup_append.mpr ⟨tracked.distinct, handsOver.distinct, ?_⟩
    rintro id isOld _ isNew rfl
    have isVisited : run.isVisited id = true := (tracked.visited id).mpr isOld
    have notVisited : run.isVisited id = false := handsOver.fresh id isNew
    exact absurd (isVisited.symm.trans notVisited) (by decide)
  · intro id
    have before : run.isVisited id = true ↔
        ∃ other start, run.codeOf? other = some start ∧ Reachable run.arena start id :=
      (tracked.visited id).trans (tracked.reachable id)
    have now : after.isVisited id = true ↔ run.isVisited id = true ∨ Reachable run.arena root id :=
      handsOver.reached id
    rw [← visited, now, before, sameArena]
    simp only [codeOf]
    constructor
    · rintro (⟨other, start, isCode, reachable⟩ | reachable)
      · have different : other ≠ unit := by
          rintro rfl
          rw [unrecorded] at isCode
          cases isCode
        exact ⟨other, start, by rw [if_neg different, isCode], reachable⟩
      · exact ⟨unit, root, if_pos rfl, reachable⟩
    · rintro ⟨other, start, isCode, reachable⟩
      split at isCode
      · exact .inr (Option.some.inj isCode ▸ reachable)
      · exact .inl ⟨other, start, isCode, reachable⟩

/-- The hand-over after a lowering, and the state that it leaves behind. -/
theorem Tracked.lowered (tracked : Tracked members run handed) {lowered : Run} {root : BlockIndex}
    (done : lowerMember member run = (lowered, .ok (some root))) :
    lowered.HandsOver root (lowered.handOver root).1 (lowered.handOver root).2 ∧
      Tracked (members ++ [member]) (lowered.handOver root).1
        (handed ++ (lowered.handOver root).2) := by
  have outcome := lowerMember_outcome member tracked.recorded
  rw [done] at outcome
  cases outcome with
  | @fresh unit _ grown isUnit _ unrecorded ran =>
      obtain ⟨enlarges, inside⟩ := (grows_lowerBody _ _ _).run ran
      have grownTracked := tracked.enlarged isUnit enlarges
      have handsOver : Run.HandsOver
          { arena := grown, started := unit :: run.started, code := (unit, root) :: run.code
            visited := run.visited } root _ _ :=
        Run.handOver_handsOver grownTracked.closed (inside root rfl)
          fun id next => grownTracked.visited_closed
      exact ⟨handsOver,
        grownTracked.handsOver List.mem_cons_self (inside root rfl) unrecorded handsOver⟩

theorem request_cases (member : Member) (handed : List BlockIndex)
    (recorded : ∀ unit, (run.codeOf? unit).isSome = true → unit ∈ run.started) :
    ((∀ unit, member.unit? = some unit → unit ∈ run.started) ∧
      request (run, handed) member = (run, handed)) ∨
    (∃ unit cause grown, member.unit? = some unit ∧ unit ∉ run.started ∧
      (lowerBody member.role member.resolution member.declaration.body).run run.arena =
        (.error cause, grown) ∧
      request (run, handed) member =
        ({ run with arena := grown, started := unit :: run.started }, handed)) ∨
    ∃ unit root lowered, member.unit? = some unit ∧ unit ∉ run.started ∧
      lowerMember member run = (lowered, .ok (some root)) ∧
      lowered.started = unit :: run.started ∧ lowered.code = (unit, root) :: run.code ∧
      request (run, handed) member =
        ((lowered.handOver root).1, handed ++ (lowered.handOver root).2) := by
  have outcome := lowerMember_outcome member recorded
  simp only [request, handOverMember]
  generalize lowerMember member run = result at outcome ⊢
  cases outcome with
  | unregistered isUnit => exact .inl ⟨fun unit isSome => by simp [isUnit] at isSome, rfl⟩
  | repeated isUnit isStarted =>
      refine .inl ⟨fun unit isSome => Option.some.inj (isUnit.symm.trans isSome) ▸ isStarted, ?_⟩
      simp only [List.append_nil]
  | failed isUnit fresh ran => exact .inr (.inl ⟨_, _, _, isUnit, fresh, ran, rfl⟩)
  | fresh isUnit fresh _ _ => exact .inr (.inr ⟨_, _, _, isUnit, fresh, rfl, rfl, rfl, rfl⟩)

theorem tracked_request (tracked : Tracked members run handed) (member : Member) :
    Tracked (members ++ [member]) (request (run, handed) member).1
      (request (run, handed) member).2 := by
  rcases request_cases member handed tracked.recorded with
    ⟨known, same⟩ | ⟨unit, cause, grown, isUnit, -, ran, same⟩ |
      ⟨unit, root, lowered, -, -, done, -, -, same⟩
  · rw [same]
    exact tracked.unchanged known
  · rw [same]
    exact tracked.enlarged isUnit ((grows_lowerBody _ _ _).run ran).1
  · rw [same]
    exact (tracked.lowered done).2

/-- What holds of a new run and is kept by every request holds after any requests. -/
theorem requested_induction {motive : List Member → Run → List BlockIndex → Prop} {tag : Nat}
    (start : motive [] (Run.new tag) [])
    (step : ∀ members member run handed, motive members run handed →
      motive (members ++ [member]) (request (run, handed) member).1
        (request (run, handed) member).2)
    (members : List Member) : motive members (requested tag members).1 (requested tag members).2 := by
  have later : ∀ (rest earlier : List Member) (state : Run × List BlockIndex),
      motive earlier state.1 state.2 →
      motive (earlier ++ rest) (rest.foldl request state).1 (rest.foldl request state).2 := by
    intro rest
    induction rest with
    | nil =>
        intro earlier state holds
        rw [List.append_nil]
        exact holds
    | cons member rest ih =>
        intro earlier state holds
        have next := ih (earlier ++ [member]) (request state member)
          (step earlier member state.1 state.2 holds)
        rw [List.append_assoc] at next
        exact next
  exact later members [] (Run.new tag, []) start

theorem tracked_requested (tag : Nat) (members : List Member) :
    Tracked members (requested tag members).1 (requested tag members).2 :=
  requested_induction (tracked_new tag)
    (fun _ member _ _ tracked => tracked_request tracked member) members

theorem Tracked.request_again (tracked : Tracked members run handed) {earlier : Member}
    (isMember : earlier ∈ members) (same : member.unit? = earlier.unit?) :
    request (run, handed) member = (run, handed) := by
  have isStarted : ∀ unit, member.unit? = some unit → unit ∈ run.started := fun unit isUnit =>
    (tracked.started unit).mpr ⟨earlier, isMember, same.symm.trans isUnit⟩
  rcases request_cases member handed tracked.recorded with
    ⟨-, unchanged⟩ | ⟨unit, _, _, isUnit, fresh, -⟩ | ⟨unit, _, _, isUnit, fresh, -⟩
  · exact unchanged
  · exact absurd (isStarted unit isUnit) fresh
  · exact absurd (isStarted unit isUnit) fresh

theorem ready_lowers (ready : member.Ready) (arena : Arena) :
    ∃ root grown, (lowerBody member.role member.resolution member.declaration.body).run arena =
      (.ok root, grown) := by
  obtain ⟨earlier, owner, isChecked⟩ := ready.checked
  simp only [Member.check, Prod.mk.injEq, Member.bodyProblems, List.append_eq_nil_iff] at isChecked
  obtain ⟨rfl, fine, -⟩ := isChecked
  have resolves := resolves_after earlier.resolution (Member.checkerFor earlier.role owner)
  obtain ⟨root, grown, done, -⟩ : Builds _ _ arena _ := builds_lowerBody earlier.role resolves fine
  exact ⟨root, grown, done⟩

theorem recorded_request (tracked : Tracked members run handed) (ready : member.Ready)
    (recorded : ∀ unit ∈ run.started, (run.codeOf? unit).isSome = true) :
    ∀ unit ∈ (request (run, handed) member).1.started,
      ((request (run, handed) member).1.codeOf? unit).isSome = true := by
  rcases request_cases member handed tracked.recorded with
    ⟨-, same⟩ | ⟨_, _, _, -, -, ran, -⟩ | ⟨fresh, root, lowered, -, -, done, starts, codes, same⟩
  · rw [same]
    exact recorded
  · obtain ⟨root, grown, succeeds⟩ := ready_lowers ready run.arena
    rw [succeeds] at ran
    cases ran
  · rw [same, (tracked.lowered done).1.unchanged]
    intro unit isStarted
    have codeOf : lowered.codeOf? unit = if unit = fresh then some root else run.codeOf? unit := by
      rw [← codeOf?_cons, Run.codeOf?, codes]
      rfl
    have isSome : (lowered.codeOf? unit).isSome = true := by
      rw [codeOf]
      split
      · rfl
      · rename_i different
        have started : unit ∈ fresh :: run.started := starts ▸ isStarted
        exact recorded unit ((List.mem_cons.mp started).resolve_left different)
    exact isSome

theorem requested_recorded (tag : Nat) (ready : ∀ member ∈ members, member.Ready)
    (isMember : member ∈ members) :
    ∃ unit root, member.unit? = some unit ∧ (requested tag members).1.codeOf? unit = some root := by
  have state : Tracked members (requested tag members).1 (requested tag members).2 ∧
      ((∀ member ∈ members, member.Ready) → ∀ unit ∈ (requested tag members).1.started,
        ((requested tag members).1.codeOf? unit).isSome = true) := by
    refine requested_induction (motive := fun members run handed => Tracked members run handed ∧
      ((∀ member ∈ members, member.Ready) → ∀ unit ∈ run.started,
        (run.codeOf? unit).isSome = true)) ⟨tracked_new tag, by simp [Run.new]⟩ ?_ members
    rintro members member run handed ⟨tracked, recorded⟩
    refine ⟨tracked_request tracked member, fun ready => ?_⟩
    exact recorded_request tracked (ready member (by simp))
      (recorded fun other isOther => ready other (List.mem_append_left _ isOther))
  obtain ⟨signature, known⟩ := Option.isSome_iff_exists.mp (ready member isMember).registered
  have isUnit : member.unit? = some signature.unit := by simp [Member.unit?, known]
  have isStarted := (state.1.started signature.unit).mpr ⟨member, isMember, isUnit⟩
  obtain ⟨root, isCode⟩ := Option.isSome_iff_exists.mp (state.2 ready _ isStarted)
  exact ⟨signature.unit, root, isUnit, isCode⟩

end Assay.Lowering

namespace Assay.Assembly

open Assay.Graph Lowering Syntax Typing

theorem followTrace_run {trace : List Visit} {emission finish : Emission}
    (done : followTrace trace emission = (finish, .ok ())) :
    finish.run = trace.foldl Run.follow emission.run ∧
      finish.handed = (leaveOrder trace).reverse ++ emission.handed := by
  induction trace generalizing emission with
  | nil =>
      simp only [followTrace, Prod.mk.injEq, and_true] at done
      subst done
      simp [leaveOrder]
  | cons visit rest ih =>
      cases visit with
      | enter id =>
          simp only [followTrace] at done
          exact ih done
      | leave id =>
          simp only [followTrace] at done
          split at done
          · cases done
          · obtain ⟨sameRun, sameHanded⟩ := ih done
            refine ⟨sameRun, ?_⟩
            rw [sameHanded]
            simp [leaveOrder]

theorem emitReachable_handOver {run : Run} {generator : Generator} {root : BlockIndex}
    {emission : Emission} (done : emitReachable run generator root = (emission, .ok ())) :
    run.handOver root = (emission.run, emission.handed.reverse) := by
  obtain ⟨sameRun, sameHanded⟩ := followTrace_run done
  rw [Run.handOver_eq_follow, sameRun, sameHanded]
  simp

/-- The blocks handed over for some members: each block of their code, once. -/
structure ExactlyOnce (members : List Member) (run : Run) (handed : List BlockIndex) : Prop where
  distinct : handed.Nodup
  exact : ∀ id, id ∈ handed ↔ ∃ member ∈ members, ∃ unit root, member.unit? = some unit ∧
    run.codeOf? unit = some root ∧ Reachable run.arena root id
  inside : ∀ id ∈ handed, id < run.arena.size
  visited : ∀ id, run.isVisited id = true ↔ id ∈ handed
  counted : run.visitedCount = handed.length
  closed : ∀ id next, run.isVisited id = true → next ∈ run.arena.successors id →
    run.isVisited next = true

theorem exactlyOnce_of_tracked {members : List Member} {run : Run} {handed : List BlockIndex}
    (tracked : Tracked members run handed) : ExactlyOnce members run handed where
  distinct := tracked.distinct
  exact := by
    intro id
    rw [tracked.reachable]
    constructor
    · rintro ⟨unit, root, isCode, reachable⟩
      have isStarted := tracked.recorded unit (by rw [isCode]; rfl)
      obtain ⟨member, isMember, isUnit⟩ := (tracked.started unit).mp isStarted
      exact ⟨member, isMember, unit, root, isUnit, isCode, reachable⟩
    · rintro ⟨_, _, unit, root, _, isCode, reachable⟩
      exact ⟨unit, root, isCode, reachable⟩
  inside := by
    intro id isHanded
    obtain ⟨unit, root, isCode, reachable⟩ := (tracked.reachable id).mp isHanded
    exact tracked.closed.reachable_lt (tracked.inside unit root isCode) reachable
  visited := tracked.visited
  counted := tracked.counted
  closed := fun _ _ => tracked.visited_closed

/-- Whatever members were requested from a run, in any order and with repetitions, each block of their
code was handed over exactly once. A member that was requested before changes nothing, and the blocks
of a new one are counted and come successors first, apart from loops. -/
theorem materialization_exactly_once {tag : Nat} {members : List Member} {run : Run}
    {handed : List BlockIndex} (state : requested tag members = (run, handed)) :
    ExactlyOnce members run handed ∧
      ((∀ member ∈ members, member.Ready) → ∀ member ∈ members, ∃ unit root,
        member.unit? = some unit ∧ run.codeOf? unit = some root) ∧
      (∀ earlier ∈ members, ∀ member, member.unit? = earlier.unit? →
        request (run, handed) member = (run, handed)) ∧
      ∀ member lowered root, Lowering.lowerMember member run = (lowered, .ok (some root)) →
        ∃ after more, request (run, handed) member = (after, handed ++ more) ∧
          lowered.HandsOver root after more ∧
          (∀ id, lowered.isVisited id = true ↔ id ∈ handed) ∧
          ∀ generator emission, emitReachable lowered generator root = (emission, .ok ()) →
            emission.run = after ∧ emission.handed.reverse = more := by
  have tracked : Tracked members run handed := by
    have general := tracked_requested tag members
    rw [state] at general
    exact general
  refine ⟨exactlyOnce_of_tracked tracked, fun ready member isMember => ?_,
    fun earlier isMember member same => tracked.request_again isMember same,
    fun member lowered root done => ?_⟩
  · have recorded := requested_recorded tag ready isMember
    rw [state] at recorded
    exact recorded
  · obtain ⟨handsOver, -⟩ := tracked.lowered done
    have visited : lowered.visited = run.visited := by
      have outcome := lowerMember_outcome member tracked.recorded
      rw [done] at outcome
      cases outcome with
      | fresh _ _ _ _ => rfl
    refine ⟨_, _, ?_, handsOver, fun id => ?_, fun generator emission emitted => ?_⟩
    · simp only [request, handOverMember, done]
    · rw [Run.isVisited, visited]
      exact tracked.visited id
    · rw [emitReachable_handOver emitted]
      exact ⟨rfl, rfl⟩

/-- A fixture that waits forever: the block at the head of its loop leads back to itself. -/
def waitMember : MemberDeclaration :=
  { position := .unknown, name := "wait"
    body := .loop .unknown (.boolean .unknown true) (.skip .unknown) }

def waitingMember : Member :=
  (Member.check
    { Member.declared .fixture waitMember with
      signature := some { owner := { name := "Lamp", serial := 0 }, role := .fixture, name := "wait" } }
    (ClassType.new { name := "Lamp", serial := 0 })).1

theorem waitingMember_ready : waitingMember.Ready :=
  ⟨rfl, { Member.declared .fixture waitMember with signature := waitingMember.signature }, _, rfl⟩

theorem materialization_exactly_once_waiting : ∃ lowered after more,
    Lowering.lowerMember waitingMember (Run.new 0) = (lowered, .ok (some 1)) ∧
      requested 0 [waitingMember, waitingMember] = (after, more) ∧ waitingMember.Ready ∧
      lowered.HandsOver 1 after more ∧ ExactlyOnce [waitingMember] after more := by
  obtain ⟨lowered, done⟩ : ∃ lowered,
      Lowering.lowerMember waitingMember (Run.new 0) = (lowered, .ok (some 1)) := ⟨_, rfl⟩
  have start : requested 0 [] = (Run.new 0, []) := rfl
  obtain ⟨-, -, -, fresh⟩ := materialization_exactly_once start
  obtain ⟨after, more, first, handsOver, -, -⟩ := fresh waitingMember lowered 1 done
  have once : requested 0 [waitingMember] = (after, more) := first
  obtain ⟨materialized, -, again, -⟩ := materialization_exactly_once once
  have second := again waitingMember List.mem_cons_self waitingMember rfl
  have twice : requested 0 [waitingMember, waitingMember] =
      request (request (Run.new 0, []) waitingMember) waitingMember := rfl
  refine ⟨lowered, after, more, done, ?_, waitingMember_ready, handsOver, materialized⟩
  rw [twice, first]
  exact second

end Assay.Assembly
