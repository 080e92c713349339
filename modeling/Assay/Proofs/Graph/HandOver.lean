import Assay.Graph.Run
import Assay.Proofs.Graph.Growth
import Assay.Proofs.Graph.Traversal

/-!
What a run hands over from a root: every block that can be reached and was not visited, once. A block
is handed over when everything behind it was, apart from the blocks on the path that led to it.
-/

namespace Assay.Graph

def openBlocks : List Visit → List BlockIndex → List BlockIndex
  | [], path => path
  | .enter id :: rest, path => openBlocks rest (id :: path)
  | .leave _ :: rest, path => openBlocks rest path.tail

theorem openBlocks_append (first second : List Visit) (path : List BlockIndex) :
    openBlocks (first ++ second) path = openBlocks second (openBlocks first path) := by
  induction first generalizing path with
  | nil => rfl
  | cons visit rest ih =>
      cases visit with
      | enter id => exact ih (id :: path)
      | leave id => exact ih path.tail

theorem split_cases {α : Type} {inner outer before rest : List α} {here there : α}
    (same : inner ++ here :: outer = before ++ there :: rest) :
    (∃ more, inner = before ++ there :: more) ∨ (before = inner ∧ there = here) ∨
      ∃ between, before = inner ++ here :: between ∧ outer = between ++ there :: rest := by
  rcases List.append_eq_append_iff.mp same with
    ⟨between, isBefore, tail⟩ | ⟨between, isInner, tail⟩
  · cases between with
    | nil =>
        simp only [List.nil_append, List.cons.injEq] at tail
        exact .inr (.inl ⟨by simpa using isBefore, tail.1.symm⟩)
    | cons first between =>
        simp only [List.cons_append, List.cons.injEq] at tail
        exact .inr (.inr ⟨between, by rw [isBefore, tail.1], tail.2⟩)
  · cases between with
    | nil =>
        simp only [List.nil_append, List.cons.injEq] at tail
        exact .inr (.inl ⟨by simpa using isInner.symm, tail.1⟩)
    | cons first between =>
        simp only [List.cons_append, List.cons.injEq] at tail
        exact .inl ⟨between, by rw [isInner, tail.1]⟩

inductive Path (arena : Arena) (root : BlockIndex) : BlockIndex → List BlockIndex → Prop
  | root : Path arena root root []
  | edge {id next : BlockIndex} {ancestors : List BlockIndex} : Path arena root id ancestors →
      next ∈ arena.successors id → Path arena root next (id :: ancestors)

structure Leaves (arena : Arena) (root : BlockIndex) (seen : BlockIndex → Prop) (path : List BlockIndex)
    (before : List Visit) (id : BlockIndex) (ancestors : List BlockIndex) : Prop where
  current : openBlocks before path = id :: ancestors
  descends : Path arena root id ancestors
  below : ∀ block ∈ path, block ∈ ancestors
  successors : ∀ next ∈ arena.successors id,
    seen next ∨ next ∈ leaveOrder before ∨ next ∈ id :: ancestors

namespace Forest

variable {arena : Arena} {ids : List BlockIndex} {seen after : Std.HashSet BlockIndex} {trace : List Visit}

theorem balanced (forest : Forest arena ids seen trace after) (path : List BlockIndex) :
    openBlocks trace path = path := by
  induction forest generalizing path with
  | nil seen => rfl
  | skip _ _ ih => exact ih path
  | visit _ _ _ innerIh outerIh =>
      rw [openBlocks, openBlocks_append, innerIh, openBlocks]
      exact outerIh path

theorem leaves {root : BlockIndex} (forest : Forest arena ids seen trace after) {path : List BlockIndex}
    (starts : ∀ id ∈ ids, Path arena root id path) {before rest : List Visit} {id : BlockIndex}
    (split : trace = before ++ .leave id :: rest) :
    ∃ ancestors, Leaves arena root (seen.contains · = true) path before id ancestors := by
  induction forest generalizing path before rest with
  | nil seen => simp at split
  | skip _ _ ih => exact ih (fun id later => starts id (List.mem_cons_of_mem _ later)) split
  | @visit start others seen middle after inner outer fresh innerForest outerForest innerIh outerIh =>
      have here : Path arena root start path := starts start List.mem_cons_self
      have inMiddle : ∀ next, middle.contains next = true →
          seen.contains next = true ∨ next ∈ leaveOrder inner ∨ next = start := by
        intro next isSeen
        rcases (innerForest.seen_iff next).mp isSeen with isOld | isLeft
        · simp only [Std.HashSet.contains_insert, Bool.or_eq_true, beq_iff_eq] at isOld
          rcases isOld with rfl | isOld
          · exact .inr (.inr rfl)
          · exact .inl isOld
        · exact .inr (.inl isLeft)
      obtain _ | ⟨first, before⟩ := before
      · simp at split
      simp only [List.cons_append, List.cons.injEq] at split
      obtain ⟨rfl, split⟩ := split
      rcases split_cases split with ⟨more, isInner⟩ | ⟨rfl, same⟩ | ⟨between, rfl, isOuter⟩
      · obtain ⟨ancestors, leaves⟩ := innerIh (fun next isNext => here.edge isNext) isInner
        refine ⟨ancestors, leaves.current, leaves.descends,
          fun block isBlock => leaves.below block (List.mem_cons_of_mem _ isBlock),
          fun next isNext => ?_⟩
        have leftHere : leaveOrder (.enter start :: before) = leaveOrder before := by simp [leaveOrder]
        rw [leftHere]
        rcases leaves.successors next isNext with isOld | isLeft | isOpen
        · simp only [Std.HashSet.contains_insert, Bool.or_eq_true, beq_iff_eq] at isOld
          rcases isOld with rfl | isOld
          · exact .inr (.inr (List.mem_cons_of_mem _ (leaves.below _ List.mem_cons_self)))
          · exact .inl isOld
        · exact .inr (.inl isLeft)
        · exact .inr (.inr isOpen)
      · obtain rfl := Visit.leave.inj same
        refine ⟨path, ?_, here, fun block isBlock => isBlock, fun next isNext => ?_⟩
        · rw [openBlocks, innerForest.balanced]
        · rcases inMiddle next (innerForest.covers isNext) with isOld | isLeft | rfl
          · exact .inl isOld
          · exact .inr (.inl (by simpa [leaveOrder] using isLeft))
          · exact .inr (.inr List.mem_cons_self)
      · obtain ⟨ancestors, leaves⟩ :=
          outerIh (fun id later => starts id (List.mem_cons_of_mem _ later)) isOuter
        refine ⟨ancestors, ?_, leaves.descends, leaves.below, fun next isNext => ?_⟩
        · rw [openBlocks, openBlocks_append, innerForest.balanced, openBlocks]
          exact leaves.current
        · rw [leaveOrder_visit]
          rcases leaves.successors next isNext with isMiddle | isLeft | isOpen
          · rcases inMiddle next isMiddle with isOld | isLeft | rfl
            · exact .inl isOld
            · exact .inr (.inl (List.mem_append_left _ isLeft))
            · exact .inr (.inl (List.mem_append_right _ List.mem_cons_self))
          · exact .inr (.inl (List.mem_append_right _ (List.mem_cons_of_mem _ isLeft)))
          · exact .inr (.inr isOpen)

theorem size_eq (forest : Forest arena ids seen trace after) :
    after.size = seen.size + (leaveOrder trace).length := by
  induction forest with
  | nil seen => simp [leaveOrder]
  | skip _ _ ih => exact ih
  | visit fresh _ _ innerIh outerIh =>
      have added := innerIh
      rw [Std.HashSet.size_insert, if_neg (by simpa using fresh)] at added
      rw [leaveOrder_visit, outerIh, added, List.length_append, List.length_cons]
      omega

theorem enterCount_eq (forest : Forest arena ids seen trace after) :
    enterCount trace = (leaveOrder trace).length := by
  induction forest with
  | nil seen => rfl
  | skip _ _ ih => exact ih
  | visit _ _ _ innerIh outerIh =>
      rw [leaveOrder_visit, List.length_append, List.length_cons, ← innerIh, ← outerIh]
      simp only [enterCount, List.filter_cons, List.filter_append, if_true, Bool.false_eq_true,
        if_false, List.length_cons, List.length_append]
      omega

end Forest

def Run.follow (run : Run) : Visit → Run
  | .enter id => run.enter id
  | .leave _ => run

theorem Forest.follow {ids : List BlockIndex} {seen after : Std.HashSet BlockIndex} {trace : List Visit}
    {arena : Arena} (forest : Forest arena ids seen trace after) (run : Run)
    (visited : run.visited = seen) : trace.foldl Run.follow run = { run with visited := after } := by
  induction forest generalizing run with
  | nil seen => rw [List.foldl_nil, ← visited]
  | skip _ _ ih => exact ih run visited
  | @visit id _ seen middle _ inner outer _ _ _ innerIh outerIh =>
      have entered : (run.enter id).visited = seen.insert id := by rw [Run.enter, visited]
      rw [List.foldl_cons, List.foldl_append, List.foldl_cons, Run.follow, innerIh _ entered,
        Run.follow]
      exact outerIh _ rfl

theorem Run.handOver_eq_follow (run : Run) (root : BlockIndex) :
    run.handOver root = ((run.pending root).foldl Run.follow run, leaveOrder (run.pending root)) :=
  rfl

theorem Run.visited_follow (trace : List Visit) (run : Run) (id : BlockIndex) :
    (trace.foldl Run.follow run).isVisited id = true ↔
      run.isVisited id = true ∨ .enter id ∈ trace := by
  induction trace generalizing run with
  | nil => simp
  | cons visit rest ih =>
      rw [List.foldl_cons, ih]
      cases visit with
      | enter other =>
          simp only [Run.follow, Run.enter, Run.isVisited, Std.HashSet.contains_insert,
            Bool.or_eq_true, beq_iff_eq, List.mem_cons, Visit.enter.injEq]
          constructor
          · rintro ((rfl | before) | later)
            · exact .inr (.inl rfl)
            · exact .inl before
            · exact .inr (.inr later)
          · rintro (before | rfl | later)
            · exact .inl (.inr before)
            · exact .inl (.inl rfl)
            · exact .inr later
      | leave other => simp [Run.follow]

theorem entered_of_open {trace : List Visit} {path : List BlockIndex} {id : BlockIndex}
    (isOpen : id ∈ openBlocks trace path) : id ∈ path ∨ .enter id ∈ trace := by
  induction trace generalizing path with
  | nil => exact .inl isOpen
  | cons visit rest ih =>
      cases visit with
      | enter other =>
          rcases ih isOpen with isOld | later
          · rcases List.mem_cons.mp isOld with rfl | isOld
            · exact .inr List.mem_cons_self
            · exact .inl isOld
          · exact .inr (List.mem_cons_of_mem _ later)
      | leave other =>
          rcases ih isOpen with isOld | later
          · exact .inl (List.mem_of_mem_tail isOld)
          · exact .inr (List.mem_cons_of_mem _ later)

theorem mem_leaveOrder {trace : List Visit} {id : BlockIndex} :
    id ∈ leaveOrder trace ↔ .leave id ∈ trace := by
  rw [leaveOrder, List.mem_filterMap]
  constructor
  · rintro ⟨visit, isVisit, isLeft⟩
    cases visit with
    | enter other => cases isLeft
    | leave other => cases isLeft; exact isVisit
  · exact fun isLeft => ⟨_, isLeft, rfl⟩

/-- What holds when a run hands over a block: the open blocks are a path from the root to the block,
and every successor of the block is visited. It was visited before this root, was handed over by now or
is on the path. -/
structure Run.Leaves (run : Run) (root : BlockIndex) (before : List Visit) (id : BlockIndex)
    (ancestors : List BlockIndex) : Prop where
  current : openBlocks before [] = id :: ancestors
  path : Path run.arena root id ancestors
  visited : ∀ next ∈ run.arena.successors id, (before.foldl Run.follow run).isVisited next = true
  settled : ∀ next ∈ run.arena.successors id,
    run.isVisited next = true ∨ next ∈ leaveOrder before ∨ next ∈ id :: ancestors

theorem Run.leaves_of_pending {run : Run} {root id : BlockIndex} {before rest : List Visit}
    (closed : run.arena.Closed) (inside : root < run.arena.size)
    (split : run.pending root = before ++ .leave id :: rest) :
    ∃ ancestors, run.Leaves root before id ancestors := by
  obtain ⟨after, forest⟩ := Arena.traversal_forest closed inside run.visited
  have starts : ∀ start ∈ [root], Path run.arena root start [] := by
    intro start isStart
    obtain rfl := List.mem_singleton.mp isStart
    exact .root
  obtain ⟨ancestors, leaves⟩ := forest.leaves starts split
  have entered : ∀ {first second other}, run.pending root = first ++ .leave other :: second →
      .enter other ∈ first := by
    intro first second other isSplit
    obtain ⟨path, leaves⟩ := forest.leaves starts isSplit
    exact (entered_of_open (leaves.current ▸ List.mem_cons_self)).resolve_left List.not_mem_nil
  refine ⟨ancestors, leaves.current, leaves.descends, fun next isNext => ?_, leaves.successors⟩
  rw [Run.visited_follow]
  rcases leaves.successors next isNext with isOld | isLeft | isOpen
  · exact .inl isOld
  · obtain ⟨first, second, rfl⟩ := List.append_of_mem (mem_leaveOrder.mp isLeft)
    rw [List.append_assoc, List.cons_append] at split
    exact .inr (List.mem_append_left _ (entered split))
  · rw [← leaves.current] at isOpen
    exact .inr ((entered_of_open isOpen).resolve_left List.not_mem_nil)

/-- The blocks that a run hands over from a root, and the run after it. -/
structure Run.HandsOver (run : Run) (root : BlockIndex) (after : Run) (handed : List BlockIndex) : Prop where
  unchanged : after = { run with visited := after.visited }
  distinct : handed.Nodup
  fresh : ∀ id ∈ handed, run.isVisited id = false
  visited : ∀ id, after.isVisited id = true ↔ run.isVisited id = true ∨ id ∈ handed
  reached : ∀ id, after.isVisited id = true ↔ run.isVisited id = true ∨ Reachable run.arena root id
  counted : after.visitedCount = run.visitedCount + handed.length
  entered : enterCount (run.pending root) = handed.length
  order : ∀ before id rest, run.pending root = before ++ .leave id :: rest →
    ∃ ancestors, run.Leaves root before id ancestors

theorem Run.handOver_handsOver {run : Run} {root : BlockIndex} (closed : run.arena.Closed)
    (inside : root < run.arena.size)
    (settled : ∀ id next, run.isVisited id = true → next ∈ run.arena.successors id →
      run.isVisited next = true) :
    run.HandsOver root (run.handOver root).1 (run.handOver root).2 := by
  obtain ⟨after, forest⟩ := Arena.traversal_forest closed inside run.visited
  have done : run.handOver root = ({ run with visited := after }, leaveOrder (run.pending root)) := by
    rw [handOver_eq_follow]
    exact congrArg (·, _) (forest.follow run rfl)
  rw [done]
  exact
    { unchanged := rfl
      distinct := forest.distinct.1
      fresh := forest.distinct.2
      visited := forest.seen_iff
      reached := forest.seen_iff_reachable settled
      counted := forest.size_eq
      entered := forest.enterCount_eq
      order := fun before id rest split => leaves_of_pending closed inside split }

theorem Arena.Keeps.reachable_iff {before after : Arena} (keeps : before.Keeps after)
    (closed : before.Closed) {root : BlockIndex} (inside : root < before.size) (id : BlockIndex) :
    Reachable after root id ↔ Reachable before root id := by
  constructor
  · intro reachable
    induction reachable with
    | root => exact .root
    | edge _ isNext ih =>
        rw [keeps.successors (closed.reachable_lt inside ih)] at isNext
        exact .edge ih isNext
  · intro reachable
    induction reachable with
    | root => exact .root
    | edge source isNext ih =>
        rw [← keeps.successors (closed.reachable_lt inside source)] at isNext
        exact .edge ih isNext

end Assay.Graph
