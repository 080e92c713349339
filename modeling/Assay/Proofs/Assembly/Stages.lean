import Assay.Proofs.Assembly.Compilation
import Assay.Proofs.Assembly.Jumps

/-!
The stages of a compilation. Between members the generator has lowered exactly the blocks that can be
reached from the members so far, and its pool holds exactly their constants. So each stage succeeds
unless the limits of two-byte operands are passed.
-/

namespace Assay.Assembly

open Bytecode Assay.Graph Lowering Syntax Typing

structure BodyGraph where
  arena : Arena
  root : BlockIndex

def BodyGraph.keys (graph : BodyGraph) : List ConstantKey :=
  (graph.arena.layout graph.root).flatMap (blockKeys graph.arena)

def BodyGraph.allKeys (graph : BodyGraph) : List ConstantKey :=
  graph.arena.blocks.toList.flatMap fun block => codeKeys block.code

theorem BodyGraph.keys_subset (graph : BodyGraph) : graph.keys ⊆ graph.allKeys := by
  intro key isKey
  obtain ⟨id, -, isBlockKey⟩ := List.mem_flatMap.mp isKey
  unfold blockKeys at isBlockKey
  split at isBlockKey
  · rename_i block found
    exact List.mem_flatMap.mpr ⟨block, Array.mem_toList_iff.mpr (Array.mem_of_getElem? found),
      isBlockKey⟩
  · cases isBlockKey

def memberGraphs (checked : CheckedClass) : List Signature → Arena → List BodyGraph
  | [], _ => []
  | signature :: rest, arena =>
    match checked.member? signature with
    | none => memberGraphs checked rest arena
    | some member =>
      match (lowerBody member.role member.resolution member.declaration.body).run arena with
      | (.ok root, grown) => { arena := grown, root } :: memberGraphs checked rest grown
      | (.error _, grown) => memberGraphs checked rest grown

def Overflowing (graphs : List BodyGraph) : Prop :=
  (Exceeds 65536 fun key => ∃ graph ∈ graphs, key ∈ graph.keys) ∨
    ∃ graph ∈ graphs, FarJump graph.arena graph.root

theorem Overflowing.append {graphs : List BodyGraph} (overflowing : Overflowing graphs)
    (more : List BodyGraph) : Overflowing (graphs ++ more) := by
  rcases overflowing with exceeds | ⟨graph, isGraph, far⟩
  · refine .inl (exceeds.mono ?_)
    rintro key ⟨graph, isGraph, isKey⟩
    exact ⟨graph, List.mem_append_left _ isGraph, isKey⟩
  · exact .inr ⟨graph, List.mem_append_left _ isGraph, far⟩

theorem BodyGraph.mem_keys (graph : BodyGraph) (key : ConstantKey) :
    key ∈ graph.keys ↔
      ∃ id, Reachable graph.arena graph.root id ∧ key ∈ blockKeys graph.arena id := by
  rw [keys, List.mem_flatMap]
  constructor
  · rintro ⟨id, isPlaced, isKey⟩
    exact ⟨id, (graph.arena.layout_laidOut graph.root).reached id isPlaced, isKey⟩
  · rintro ⟨id, reachable, isKey⟩
    exact ⟨id, graph.arena.mem_layout_of_reachable reachable, isKey⟩

structure Part where
  signature : Signature
  graph : BodyGraph
  routine : Routine

structure Part.Linked (isField : String → Prop) (constants : Array Constant) (part : Part) :
    Prop where
  name : part.routine.name = part.signature.name
  static : part.routine.isStatic = true
  params : part.routine.params = 1
  locals : part.routine.locals = 1
  returns : kindOf part.signature.role.resultKind = .ok part.routine.returns
  complete : Complete isField part.graph.arena
  inside : part.graph.root < part.graph.arena.size
  near : ¬FarJump part.graph.arena part.graph.root
  code : ∃ generator : Generator, generator.Sound part.graph.arena ∧
    Retains generator.image.constants constants ∧
    linearize generator part.graph.arena part.graph.root = .ok part.routine.code

theorem Part.Linked.retained {isField : String → Prop} {before after : Array Constant} {part : Part}
    (linked : part.Linked isField before) (retains : Retains before after) :
    part.Linked isField after := by
  obtain ⟨generator, sound, kept, linearized⟩ := linked.code
  exact { linked with code := ⟨generator, sound, kept.trans retains, linearized⟩ }

structure Standing (isField : String → Prop) (testClass : String) (ref : ClassRef)
    (parts : List Part) (run : Run) (generator : Generator) : Prop where
  consistent : Consistent run generator
  complete : Complete isField run.arena
  lowered : ∀ id, generator.lowered.contains id = true ↔ run.visited.contains id = true
  visited : ∀ id, run.visited.contains id = true ↔
    ∃ part ∈ parts, Reachable part.graph.arena part.graph.root id
  kept : ∀ part ∈ parts, part.graph.arena.Keeps run.arena
  fits : Fits testClass generator.image fun key =>
    ∃ id, run.visited.contains id = true ∧ key ∈ blockKeys run.arena id
  owned : ∀ part ∈ parts, part.signature.owner = ref
  started : ∀ unit ∈ run.started, ∃ part ∈ parts, unit = part.signature.unit
  recorded : ∀ unit, (run.codeOf? unit).isSome = true → unit ∈ run.started
  linked : ∀ part ∈ parts, part.Linked isField generator.image.constants
  routines : generator.image.routines.toList = parts.map Part.routine
  name : generator.image.name = testClass

theorem standing_new (isField : String → Prop) (testClass : String) (ref : ClassRef) (tag : Nat) :
    Standing isField testClass ref [] (Run.new tag) (Generator.new testClass) where
  consistent := by
    refine ⟨.start _ _, Arena.argumentless_empty tag, fun method member => ?_⟩
    exact absurd member (Array.not_mem_empty _)
  complete := by
    rintro id code transfer ⟨block, found, -⟩
    simp [Run.new, Arena.empty, Arena.get?] at found
  lowered := fun id => by simp [Generator.new, Run.new]
  visited := fun id => by simp [Run.new]
  kept := by simp
  fits := (fits_new testClass testClass).congr fun key => by simp [Run.new]
  owned := by simp
  started := by simp [Run.new]
  recorded := fun unit => by simp [Run.new, Run.codeOf?]
  linked := by simp
  routines := rfl
  name := rfl

theorem blockKeys_of_keeps {before after : Arena} {id : BlockIndex} (keeps : before.Keeps after)
    (inside : id < before.size) : blockKeys after id = blockKeys before id := by
  obtain ⟨old, new, found, newFound, sameCode, -⟩ := keeps.get? inside
  simp only [blockKeys, found, newFound, sameCode]

variable {isField : String → Prop} {testClass : String} {ref : ClassRef} {parts : List Part}
  {run : Run} {generator : Generator}

theorem Standing.visited_lt (standing : Standing isField testClass ref parts run generator)
    {id : BlockIndex} (isVisited : run.visited.contains id = true) : id < run.arena.size := by
  obtain ⟨part, isPart, reachable⟩ := (standing.visited id).mp isVisited
  have linked := standing.linked part isPart
  exact Nat.lt_of_lt_of_le (linked.complete.closed.reachable_lt linked.inside reachable)
    (standing.kept part isPart).size_le

theorem Standing.visited_closed (standing : Standing isField testClass ref parts run generator)
    {id next : BlockIndex} (isVisited : run.visited.contains id = true)
    (isNext : next ∈ run.arena.successors id) : run.visited.contains next = true := by
  obtain ⟨part, isPart, reachable⟩ := (standing.visited id).mp isVisited
  have linked := standing.linked part isPart
  have inside := linked.complete.closed.reachable_lt linked.inside reachable
  rw [(standing.kept part isPart).successors inside] at isNext
  exact (standing.visited next).mpr ⟨part, isPart, .edge reachable isNext⟩

theorem Standing.needed_iff (standing : Standing isField testClass ref parts run generator)
    (key : ConstantKey) :
    (∃ id, run.visited.contains id = true ∧ key ∈ blockKeys run.arena id) ↔
      ∃ graph ∈ parts.map Part.graph, key ∈ graph.keys := by
  have same : ∀ part ∈ parts, ∀ id, Reachable part.graph.arena part.graph.root id →
      blockKeys run.arena id = blockKeys part.graph.arena id := by
    intro part isPart id reachable
    have linked := standing.linked part isPart
    exact blockKeys_of_keeps (standing.kept part isPart)
      (linked.complete.closed.reachable_lt linked.inside reachable)
  constructor
  · rintro ⟨id, isVisited, isKey⟩
    obtain ⟨part, isPart, reachable⟩ := (standing.visited id).mp isVisited
    rw [same part isPart id reachable] at isKey
    exact ⟨part.graph, List.mem_map_of_mem isPart, (part.graph.mem_keys key).mpr ⟨id, reachable, isKey⟩⟩
  · rintro ⟨graph, isGraph, isKey⟩
    obtain ⟨part, isPart, rfl⟩ := List.mem_map.mp isGraph
    obtain ⟨id, reachable, isKey⟩ := (part.graph.mem_keys key).mp isKey
    refine ⟨id, (standing.visited id).mpr ⟨part, isPart, reachable⟩, ?_⟩
    rw [same part isPart id reachable]
    exact isKey

theorem Standing.not_overflowing (standing : Standing isField testClass ref parts run generator) :
    ¬Overflowing (parts.map Part.graph) := by
  rintro (exceeds | ⟨graph, isGraph, far⟩)
  · exact standing.fits.not_exceeds (exceeds.mono fun key => (standing.needed_iff key).mpr)
  · obtain ⟨part, isPart, rfl⟩ := List.mem_map.mp isGraph
    exact (standing.linked part isPart).near far

section Emission

variable {grown : Arena} {root : BlockIndex} {trace : List Visit} {after : Std.HashSet BlockIndex}

theorem Standing.visited_after (standing : Standing isField testClass ref parts run generator)
    (keeps : run.arena.Keeps grown) (forest : Forest grown [root] run.visited trace after)
    (id : BlockIndex) :
    after.contains id = true ↔ run.visited.contains id = true ∨ Reachable grown root id := by
  refine forest.seen_iff_reachable (fun source next before isNext => ?_) id
  rw [keeps.successors (standing.visited_lt before)] at isNext
  exact standing.visited_closed before isNext

theorem Standing.needed_after (standing : Standing isField testClass ref parts run generator)
    (keeps : run.arena.Keeps grown) (forest : Forest grown [root] run.visited trace after)
    (key : ConstantKey) :
    ((∃ id, run.visited.contains id = true ∧ key ∈ blockKeys run.arena id) ∨
        key ∈ traceKeys grown trace) ↔
      ∃ id, after.contains id = true ∧ key ∈ blockKeys grown id := by
  simp only [traceKeys, List.mem_flatMap]
  constructor
  · rintro (⟨id, before, isKey⟩ | ⟨id, isLeft, isKey⟩)
    · rw [← blockKeys_of_keeps keeps (standing.visited_lt before)] at isKey
      exact ⟨id, forest.seen_le before, isKey⟩
    · exact ⟨id, (forest.seen_iff id).mpr (.inr isLeft), isKey⟩
  · rintro ⟨id, isSeen, isKey⟩
    rcases (forest.seen_iff id).mp isSeen with before | isLeft
    · rw [blockKeys_of_keeps keeps (standing.visited_lt before)] at isKey
      exact .inl ⟨id, before, isKey⟩
    · exact .inr ⟨id, isLeft, isKey⟩

structure Expanded (testClass : String) (start : Run) (root : BlockIndex) (emission : Emission) :
    Prop where
  run : emission.run = { start with visited := emission.run.visited }
  visited : ∀ id, emission.run.visited.contains id = true ↔
    start.visited.contains id = true ∨ Reachable start.arena root id
  lowered : ∀ id, emission.generator.lowered.contains id = true ↔
    emission.run.visited.contains id = true
  fits : Fits testClass emission.generator.image fun key =>
    ∃ id, emission.run.visited.contains id = true ∧ key ∈ blockKeys start.arena id

theorem Standing.emits (standing : Standing isField testClass ref parts run generator)
    {lowered : Run} (visited : lowered.visited = run.visited)
    (adds : run.arena.Adds (Plain isField) lowered.arena) (inside : root < lowered.arena.size) :
    (∃ emission, emitReachable lowered generator root = (emission, .ok ()) ∧
        Expanded testClass lowered root emission) ∨
      ∃ emission problem, emitReachable lowered generator root = (emission, .error problem) ∧
        TooWide problem ∧
        Overflowing (parts.map Part.graph ++ [{ arena := lowered.arena, root }]) := by
  have complete := standing.complete.grown adds
  obtain ⟨after, forest⟩ := Arena.traversal_forest complete.closed inside run.visited
  have below : ∀ id, generator.lowered.contains id = true → run.visited.contains id = true :=
    fun id => (standing.lowered id).mp
  have emits : Emits testClass
      (fun key => ∃ id, run.visited.contains id = true ∧ key ∈ blockKeys run.arena id)
      (lowered.arena.traversal run.visited root) after { run := lowered, generator, handed := [] } :=
    followTrace_emits complete forest (by simpa using inside) rfl visited below standing.fits
  simp only [emitReachable, Run.pending, visited]
  rcases emits with ⟨emission, done, emitted⟩ | ⟨emission, problem, failed, wide, exceeds⟩
  · have isAfter : emission.run.visited = after := by rw [emitted.run]
    refine .inl ⟨emission, done, ?_, ?_, ?_, ?_⟩
    · rw [isAfter]
      exact emitted.run
    · rw [isAfter, visited]
      exact standing.visited_after adds.keeps forest
    · intro id
      rw [isAfter, emitted.lowered, forest.seen_iff, standing.lowered]
    · rw [isAfter]
      exact emitted.fits.congr (standing.needed_after adds.keeps forest)
  · refine .inr ⟨emission, problem, failed, wide, .inl (exceeds.mono fun key isNeeded => ?_)⟩
    rcases isNeeded with before | isNew
    · obtain ⟨graph, isGraph, isKey⟩ := (standing.needed_iff key).mp before
      exact ⟨graph, List.mem_append_left _ isGraph, isKey⟩
    · obtain ⟨id, isLeft, isKey⟩ := List.mem_flatMap.mp isNew
      obtain ⟨start, isStart, reachable⟩ := forest.reached isLeft
      obtain rfl := List.mem_singleton.mp isStart
      exact ⟨_, List.mem_append_right _ List.mem_cons_self,
        (BodyGraph.mem_keys _ key).mpr ⟨id, reachable, isKey⟩⟩

end Emission

theorem lowerMember_fresh {member : Member} {signature : Signature} {root : BlockIndex} {grown : Arena}
    (known : member.signature = some signature) (fresh : signature.unit ∉ run.started)
    (unrecorded : run.codeOf? signature.unit = none)
    (body : (lowerBody member.role member.resolution member.declaration.body).run run.arena =
      (.ok root, grown)) :
    Lowering.lowerMember member run =
      ({ arena := grown, started := signature.unit :: run.started
         code := (signature.unit, root) :: run.code, visited := run.visited }, .ok (some root)) := by
  have notStarted : run.isStarted signature.unit = false := by simpa [Run.isStarted] using fresh
  have noCode : ∀ arena started, Run.codeOf?
      { arena, started, code := run.code, visited := run.visited } signature.unit = none :=
    fun _ _ => unrecorded
  simp only [Lowering.lowerMember, known, Run.markStarted, notStarted, Bool.false_eq_true, if_false,
    body, Run.setCode, noCode, Option.isSome_none]

def Generator.withRoutine (generator : Generator) (routine : Routine) : Generator :=
  { generator with
    image := { generator.image with routines := generator.image.routines.push routine } }

theorem addRoutine_of_ok {arena : Arena} {name : String} (returns : Kind) {root : BlockIndex}
    {code : Array UInt8} (linearized : linearize generator arena root = .ok code)
    (free : generator.image.routine? name = none) :
    generator.addRoutine arena name 1 returns root =
      let routine : Routine := { name, isStatic := true, params := 1, locals := 1, returns, code }
      .ok (generator.withRoutine routine, routine) := by
  simp only [Generator.addRoutine, linearized, bind, Except.bind, ClassImage.addRoutine?, free,
    Option.isSome_none, Bool.false_eq_true, if_false]
  rfl

theorem Standing.routine_free (standing : Standing isField testClass ref parts run generator)
    {name : String} (fresh : ∀ part ∈ parts, part.signature.name ≠ name) {image : ClassImage}
    (same : image.routines = generator.image.routines) : image.routine? name = none := by
  rw [ClassImage.routine?, same, Array.find?_eq_none]
  intro routine isRoutine
  rw [← Array.mem_toList_iff, standing.routines] at isRoutine
  obtain ⟨part, isPart, rfl⟩ := List.mem_map.mp isRoutine
  simpa [(standing.linked part isPart).name] using fresh part isPart

theorem Standing.not_started (standing : Standing isField testClass ref parts run generator)
    {signature : Signature} (owned : signature.owner = ref)
    (fresh : ∀ part ∈ parts, part.signature.name ≠ signature.name) :
    signature.unit ∉ run.started ∧ run.codeOf? signature.unit = none := by
  have notStarted : signature.unit ∉ run.started := by
    intro isStarted
    obtain ⟨part, isPart, same⟩ := standing.started _ isStarted
    have sameOwner : signature.owner = part.signature.owner := by
      rw [owned, standing.owned part isPart]
    exact fresh part isPart (Signature.eq_of_unit sameOwner same).symm
  refine ⟨notStarted, ?_⟩
  cases recorded : run.codeOf? signature.unit with
  | none => rfl
  | some root =>
      have isStarted := standing.recorded signature.unit (by rw [recorded]; rfl)
      exact absurd isStarted notStarted

theorem Standing.next (standing : Standing isField testClass ref parts run generator)
    {part : Part} {emission : Emission} (adds : run.arena.Adds (Plain isField) part.graph.arena)
    (expanded : Expanded testClass
      { arena := part.graph.arena, started := part.signature.unit :: run.started
        code := (part.signature.unit, part.graph.root) :: run.code, visited := run.visited }
      part.graph.root emission)
    (consistent : Consistent emission.run (emission.generator.withRoutine part.routine))
    (grows : Grows generator.image emission.generator.image) (owned : part.signature.owner = ref)
    (linked : part.Linked isField emission.generator.image.constants) :
    Standing isField testClass ref (parts ++ [part]) emission.run
      (emission.generator.withRoutine part.routine) := by
  have arena : emission.run.arena = part.graph.arena := by rw [expanded.run]
  have code : emission.run.code = (part.signature.unit, part.graph.root) :: run.code := by
    rw [expanded.run]
  have started : emission.run.started = part.signature.unit :: run.started := by
    rw [expanded.run]
  refine
    { consistent
      complete := by rw [arena]; exact linked.complete
      lowered := expanded.lowered
      visited := ?_
      kept := ?_
      fits := ⟨by rw [arena]; exact expanded.fits.keys, expanded.fits.usual⟩
      owned := ?_
      started := ?_
      recorded := ?_
      linked := ?_
      routines := by simp [Generator.withRoutine, grows.routines, standing.routines]
      name := grows.name.trans standing.name }
  · intro id
    rw [expanded.visited, standing.visited]
    simp only [List.mem_append, List.mem_singleton, or_and_right, exists_or, exists_eq_left]
  · intro other isPart
    rw [arena]
    rcases List.mem_append.mp isPart with old | new
    · exact (standing.kept other old).trans adds.keeps
    · rw [List.mem_singleton.mp new]
      exact Arena.Keeps.refl _
  · intro other isPart
    rcases List.mem_append.mp isPart with old | new
    · exact standing.owned other old
    · rw [List.mem_singleton.mp new]
      exact owned
  · intro unit isStarted
    rw [started] at isStarted
    rcases List.mem_cons.mp isStarted with rfl | old
    · exact ⟨part, by simp, rfl⟩
    · obtain ⟨other, isPart, same⟩ := standing.started unit old
      exact ⟨other, List.mem_append_left _ isPart, same⟩
  · intro unit isRecorded
    rw [started]
    by_cases here : unit = part.signature.unit
    · exact here ▸ List.mem_cons_self
    · refine List.mem_cons_of_mem _ (standing.recorded unit ?_)
      have different : (unit == part.signature.unit) = false := by simpa using here
      simpa [Run.codeOf?, code, List.lookup_cons, different] using isRecorded
  · intro other isPart
    rcases List.mem_append.mp isPart with old | new
    · exact (standing.linked other old).retained grows.retains
    · rw [List.mem_singleton.mp new]
      exact linked

theorem kindOf_resultKind (role : Role) : ∃ kind, kindOf role.resultKind = .ok kind := by
  cases role with
  | fixture => exact ⟨_, rfl⟩
  | test => exact ⟨_, rfl⟩

section Failures

variable {checked : CheckedClass} {signature : Signature} {member : Member} {lowered : Run}
  {emission : Emission} {root : BlockIndex} {problem : AssemblyError}

theorem compileMember_of_failed_emission (log : List Logging.Event)
    (found : checked.member? signature = some member)
    (lowering : Lowering.lowerMember member run = (lowered, .ok (some root)))
    (failed : emitReachable lowered generator root = (emission, .error problem)) :
    ∃ after, (compileMember checked signature).run ⟨run, generator, log⟩ = (.error problem, after) := by
  have first : (lowerMember member).run ⟨run, generator, log⟩ =
      (.ok (some root), ⟨lowered, generator, log⟩) := by
    rw [lowerMember_run, lowering]
  have second : ∃ after, (emitMember signature root).run ⟨lowered, generator, log⟩ =
      (.error problem, after) := by
    rw [emitMember_run, failed]
    exact ⟨_, rfl⟩
  obtain ⟨after, second⟩ := second
  refine ⟨after, ?_⟩
  simp only [compileMember, found]
  rw [bind_of_ok first, bind_of_error second]

theorem compileMember_of_failed_routine {returns : Kind} (log : List Logging.Event)
    (found : checked.member? signature = some member)
    (lowering : Lowering.lowerMember member run = (lowered, .ok (some root)))
    (emitted : emitReachable lowered generator root = (emission, .ok ()))
    (kind : kindOf signature.role.resultKind = .ok returns)
    (recorded : emission.run.codeOf? signature.unit = some root)
    (failed : linearize emission.generator emission.run.arena root = .error problem) :
    ∃ after, (compileMember checked signature).run ⟨run, generator, log⟩ = (.error problem, after) := by
  obtain ⟨middle, before⟩ := compileMember_of_emitted log found lowering emitted
  rw [before, addMemberRoutine_run]
  simp only [kind, recorded, Generator.addRoutine, failed, bind, Except.bind]
  exact ⟨_, rfl⟩

end Failures

theorem compileMember_outcome {checked : CheckedClass} {signature : Signature} {member : Member}
    {before : Compilation} {root : BlockIndex} {grown : Arena}
    (standing : Standing isField testClass ref parts before.run before.generator)
    (found : checked.member? signature = some member) (owned : signature.owner = ref)
    (fresh : ∀ part ∈ parts, part.signature.name ≠ signature.name)
    (body : (lowerBody member.role member.resolution member.declaration.body).run before.run.arena =
      (.ok root, grown))
    (adds : before.run.arena.Adds (Plain isField) grown) (inside : root < grown.size) :
    (∃ after part, (compileMember checked signature).run before = (.ok (), after) ∧
        part.signature = signature ∧ part.graph = { arena := grown, root } ∧
        after.run.arena = grown ∧
        Standing isField testClass ref (parts ++ [part]) after.run after.generator) ∨
      ∃ after problem, (compileMember checked signature).run before = (.error problem, after) ∧
        TooWide problem ∧ Overflowing (parts.map Part.graph ++ [{ arena := grown, root }]) := by
  obtain ⟨run, generator, log⟩ := before
  have known : member.signature = some signature := by simpa using List.find?_some found
  obtain ⟨notStarted, unrecorded⟩ := standing.not_started owned fresh
  have lowering := lowerMember_fresh known notStarted unrecorded body
  obtain ⟨returns, kind⟩ := kindOf_resultKind signature.role
  let lowered : Run :=
    { arena := grown, started := signature.unit :: run.started
      code := (signature.unit, root) :: run.code, visited := run.visited }
  have emits := Standing.emits standing (show lowered.visited = run.visited from rfl) adds inside
  rcases emits with ⟨emission, emitted, expanded⟩ | ⟨emission, problem, failed, wide, overflowing⟩
  · have consistent : Consistent lowered generator :=
      ⟨standing.consistent.generated.extend adds.keeps.extends,
        (extending_lowerBody _ _ _).argumentless body standing.consistent.calls,
        standing.consistent.methods⟩
    obtain ⟨emittedConsistent, sameArena, sameCode, -, grows⟩ :=
      @followTrace_ok _ { run := lowered, generator, handed := [] } emission consistent emitted
    have arena : emission.run.arena = grown := sameArena
    have recorded : emission.run.codeOf? signature.unit = some root := by
      have code : emission.run.code = (signature.unit, root) :: run.code := sameCode
      simp [Run.codeOf?, code]
    have complete := standing.complete.grown adds
    have sound : emission.generator.Sound grown := arena ▸ emittedConsistent.generated.sound
    rcases linearize_outcome complete sound inside fun id reachable =>
        (expanded.lowered id).mpr ((expanded.visited id).mpr (.inr reachable)) with
      ⟨code, linearized, near⟩ | ⟨problem, failed, wide, far⟩
    · have free := standing.routine_free fresh grows.routines
      have added := addRoutine_of_ok returns (arena ▸ linearized) free
      obtain ⟨later, done⟩ := compileMember_of_ok log found lowering emitted kind recorded added
      let routine : Routine :=
        { name := signature.name, isStatic := true, params := 1, locals := 1, returns, code }
      let part : Part := { signature, graph := { arena := grown, root }, routine }
      have linked : part.Linked isField emission.generator.image.constants :=
        { name := rfl, static := rfl, params := rfl, locals := rfl, returns := kind, complete, inside
          near, code := ⟨emission.generator, sound, Retains.refl _, linearized⟩ }
      exact .inl ⟨_, part, done, rfl, rfl, arena, Standing.next standing adds expanded
        ⟨emittedConsistent.generated.addRoutine added, emittedConsistent.calls,
          emittedConsistent.methods⟩ grows owned linked⟩
    · rw [← arena] at failed
      obtain ⟨after, isFailed⟩ :=
        compileMember_of_failed_routine log found lowering emitted kind recorded failed
      exact .inr ⟨after, problem, isFailed, wide, .inr ⟨_, List.mem_append_right _ List.mem_cons_self, far⟩⟩
  · obtain ⟨after, isFailed⟩ := compileMember_of_failed_emission log found lowering failed
    exact .inr ⟨after, problem, isFailed, wide, overflowing⟩

structure Compilable (isField : String → Prop) (ref : ClassRef) (checked : CheckedClass)
    (signature : Signature) : Prop where
  owned : signature.owner = ref
  body : ∃ member, checked.member? signature = some member ∧ ∀ arena,
    Builds (Plain isField) Inside arena
      (lowerBody member.role member.resolution member.declaration.body)

/-- Members of different names are compiled one after the other, unless the limits are passed. -/
theorem compileMembers_outcome {checked : CheckedClass} {signatures : List Signature}
    {before : Compilation}
    (standing : Standing isField testClass ref parts before.run before.generator)
    (compilable : ∀ signature ∈ signatures, Compilable isField ref checked signature)
    (distinct : (signatures.map Signature.name).Nodup)
    (fresh : ∀ part ∈ parts, ∀ signature ∈ signatures, part.signature.name ≠ signature.name) :
    (∃ after added, (compileMembers checked signatures).run before = (.ok (), after) ∧
        added.map Part.signature = signatures ∧
        added.map Part.graph = memberGraphs checked signatures before.run.arena ∧
        Standing isField testClass ref (parts ++ added) after.run after.generator) ∨
      ∃ after problem, (compileMembers checked signatures).run before = (.error problem, after) ∧
        TooWide problem ∧
        Overflowing (parts.map Part.graph ++ memberGraphs checked signatures before.run.arena) := by
  induction signatures generalizing parts before with
  | nil => exact .inl ⟨before, [], rfl, rfl, rfl, by simpa using standing⟩
  | cons signature rest ih =>
      obtain ⟨owned, member, found, builds⟩ := compilable signature List.mem_cons_self
      obtain ⟨root, grown, body, adds, inside⟩ := builds before.run.arena
      have graphs : memberGraphs checked (signature :: rest) before.run.arena =
          { arena := grown, root } :: memberGraphs checked rest grown := by
        simp only [memberGraphs, found, body]
      rw [List.map_cons, List.nodup_cons] at distinct
      simp only [compileMembers, graphs]
      rcases compileMember_outcome standing found owned
          (fun part isPart => fresh part isPart signature List.mem_cons_self) body adds inside with
        ⟨middle, part, done, isSignature, isGraph, sameArena, middleStanding⟩ |
        ⟨after, problem, failed, wide, overflowing⟩
      · have laterFresh : ∀ other ∈ parts ++ [part], ∀ later ∈ rest,
            other.signature.name ≠ later.name := by
          intro other isOther later isLater
          rcases List.mem_append.mp isOther with old | new
          · exact fresh other old later (List.mem_cons_of_mem _ isLater)
          · rw [List.mem_singleton.mp new, isSignature]
            intro same
            exact distinct.1 (same ▸ List.mem_map_of_mem isLater)
        rw [bind_of_ok done]
        rcases ih middleStanding (fun other later => compilable other (List.mem_cons_of_mem _ later))
            distinct.2 laterFresh with
          ⟨after, added, laterDone, signatures, laterGraphs, standing⟩ |
          ⟨after, problem, failed, wide, overflowing⟩
        · refine .inl ⟨after, part :: added, laterDone, ?_, ?_, ?_⟩
          · rw [List.map_cons, isSignature, signatures]
          · rw [List.map_cons, isGraph, laterGraphs, sameArena]
          · simpa using standing
        · refine .inr ⟨after, problem, failed, wide, ?_⟩
          simpa [isGraph, sameArena] using overflowing
      · rw [bind_of_error failed]
        refine .inr ⟨after, problem, rfl, wide, ?_⟩
        simpa using overflowing.append (memberGraphs checked rest grown)

end Assay.Assembly
