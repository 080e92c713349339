import Assay.Graph.Traversal
import Assay.Proofs.Graph.Layout

/-!
The trace of a traversal is well nested: between entering and leaving a block come the visits of the
successors that were not seen before. It leaves exactly the blocks that it adds to the seen ones.
-/

namespace Assay.Graph

/-- The trace of visiting some blocks one after the other, with the seen blocks before and after. -/
inductive Forest (arena : Arena) :
    List BlockIndex → Std.HashSet BlockIndex → List Visit → Std.HashSet BlockIndex → Prop
  | nil (seen : Std.HashSet BlockIndex) : Forest arena [] seen [] seen
  | skip {id : BlockIndex} {rest : List BlockIndex} {seen after : Std.HashSet BlockIndex}
      {trace : List Visit} : seen.contains id = true → Forest arena rest seen trace after →
      Forest arena (id :: rest) seen trace after
  | visit {id : BlockIndex} {rest : List BlockIndex} {seen middle after : Std.HashSet BlockIndex}
      {inner outer : List Visit} : seen.contains id = false →
      Forest arena (arena.successors id) (seen.insert id) inner middle →
      Forest arena rest middle outer after →
      Forest arena (id :: rest) seen (.enter id :: (inner ++ .leave id :: outer)) after

theorem leaveOrder_visit (id : BlockIndex) (inner outer : List Visit) :
    leaveOrder (.enter id :: (inner ++ .leave id :: outer)) =
      leaveOrder inner ++ id :: leaveOrder outer := by
  simp [leaveOrder]

theorem Reachable.from_successor {arena : Arena} {start next id : BlockIndex}
    (isNext : next ∈ arena.successors start) (reachable : Reachable arena next id) :
    Reachable arena start id := by
  induction reachable with
  | root => exact .edge .root isNext
  | edge _ isTarget ih => exact .edge ih isTarget

namespace Forest

variable {arena : Arena} {ids : List BlockIndex} {seen after : Std.HashSet BlockIndex} {trace : List Visit}

theorem seen_iff (forest : Forest arena ids seen trace after) (id : BlockIndex) :
    after.contains id = true ↔ seen.contains id = true ∨ id ∈ leaveOrder trace := by
  induction forest with
  | nil seen => simp [leaveOrder]
  | skip _ _ ih => exact ih
  | @visit root _ _ _ _ _ _ _ _ _ innerIh outerIh =>
      rw [leaveOrder_visit, outerIh, innerIh, Std.HashSet.contains_insert]
      simp only [Bool.or_eq_true, beq_iff_eq, List.mem_append, List.mem_cons]
      constructor
      · rintro (((rfl | before) | inner) | outer)
        · exact .inr (.inr (.inl rfl))
        · exact .inl before
        · exact .inr (.inl inner)
        · exact .inr (.inr (.inr outer))
      · rintro (before | inner | rfl | outer)
        · exact .inl (.inl (.inr before))
        · exact .inl (.inr inner)
        · exact .inl (.inl (.inl rfl))
        · exact .inr outer

theorem seen_le (forest : Forest arena ids seen trace after) {id : BlockIndex}
    (before : seen.contains id = true) : after.contains id = true :=
  (forest.seen_iff id).mpr (.inl before)

theorem covers (forest : Forest arena ids seen trace after) {id : BlockIndex} (isRoot : id ∈ ids) :
    after.contains id = true := by
  induction forest with
  | nil seen => simp at isRoot
  | skip before outer ih =>
      rcases List.mem_cons.mp isRoot with rfl | later
      · exact outer.seen_le before
      · exact ih later
  | visit _ inner outer _ ih =>
      rcases List.mem_cons.mp isRoot with rfl | later
      · exact outer.seen_le (inner.seen_le (by simp))
      · exact ih later

theorem distinct (forest : Forest arena ids seen trace after) :
    (leaveOrder trace).Nodup ∧ ∀ id ∈ leaveOrder trace, seen.contains id = false := by
  induction forest with
  | nil seen => simp [leaveOrder]
  | skip _ _ ih => exact ih
  | @visit root _ seen middle _ inner outer fresh innerForest _ innerIh outerIh =>
      rw [leaveOrder_visit]
      obtain ⟨innerDistinct, innerFresh⟩ := innerIh
      obtain ⟨outerDistinct, outerFresh⟩ := outerIh
      have unseen : ∀ id, middle.contains id = false →
          id ∉ leaveOrder inner ∧ id ≠ root ∧ seen.contains id = false := by
        intro id notMiddle
        have neither := mt (innerForest.seen_iff id).mpr (by simp [notMiddle])
        rw [Std.HashSet.contains_insert] at neither
        simp only [Bool.or_eq_true, beq_iff_eq, not_or, Bool.not_eq_true] at neither
        exact ⟨neither.2, Ne.symm neither.1.1, neither.1.2⟩
      have innerNew : ∀ id ∈ leaveOrder inner, id ≠ root ∧ seen.contains id = false := by
        intro id isInner
        have new := innerFresh id isInner
        rw [Std.HashSet.contains_insert] at new
        simp only [Bool.or_eq_false_iff, beq_eq_false_iff_ne] at new
        exact ⟨Ne.symm new.1, new.2⟩
      constructor
      · refine List.nodup_append.mpr ⟨innerDistinct, List.nodup_cons.mpr ⟨?_, outerDistinct⟩, ?_⟩
        · intro isOuter
          exact (unseen root (outerFresh root isOuter)).2.1 rfl
        · intro id isInner other isOther same
          subst same
          rcases List.mem_cons.mp isOther with rfl | isOuter
          · exact (innerNew _ isInner).1 rfl
          · exact (unseen _ (outerFresh _ isOuter)).1 isInner
      · intro id isLeft
        rcases List.mem_append.mp isLeft with isInner | isRest
        · exact (innerNew id isInner).2
        · rcases List.mem_cons.mp isRest with rfl | isOuter
          · exact fresh
          · exact (unseen id (outerFresh id isOuter)).2.2

theorem closed (forest : Forest arena ids seen trace after) {id next : BlockIndex}
    (isLeft : id ∈ leaveOrder trace) (isNext : next ∈ arena.successors id) :
    after.contains next = true := by
  induction forest with
  | nil seen => simp [leaveOrder] at isLeft
  | skip _ _ ih => exact ih isLeft
  | visit _ inner outer innerIh outerIh =>
      rw [leaveOrder_visit] at isLeft
      rcases List.mem_append.mp isLeft with isInner | isRest
      · exact outer.seen_le (innerIh isInner)
      · rcases List.mem_cons.mp isRest with rfl | isOuter
        · exact outer.seen_le (inner.covers isNext)
        · exact outerIh isOuter

theorem reached (forest : Forest arena ids seen trace after) {id : BlockIndex}
    (isLeft : id ∈ leaveOrder trace) : ∃ root ∈ ids, Reachable arena root id := by
  induction forest with
  | nil seen => simp [leaveOrder] at isLeft
  | skip _ _ ih =>
      obtain ⟨root, isRoot, reachable⟩ := ih isLeft
      exact ⟨root, List.mem_cons_of_mem _ isRoot, reachable⟩
  | @visit start _ _ _ _ _ _ _ _ _ innerIh outerIh =>
      rw [leaveOrder_visit] at isLeft
      rcases List.mem_append.mp isLeft with isInner | isRest
      · obtain ⟨next, isNext, reachable⟩ := innerIh isInner
        exact ⟨start, List.mem_cons_self, reachable.from_successor isNext⟩
      · rcases List.mem_cons.mp isRest with rfl | isOuter
        · exact ⟨_, List.mem_cons_self, .root⟩
        · obtain ⟨root, isRoot, reachable⟩ := outerIh isOuter
          exact ⟨root, List.mem_cons_of_mem _ isRoot, reachable⟩

/-- With blocks already seen that lead to seen ones only, the forest sees what can be reached. -/
theorem seen_iff_reachable {root : BlockIndex} (forest : Forest arena [root] seen trace after)
    (closed : ∀ id next, seen.contains id = true → next ∈ arena.successors id →
      seen.contains next = true) (id : BlockIndex) :
    after.contains id = true ↔ seen.contains id = true ∨ Reachable arena root id := by
  constructor
  · intro isSeen
    rcases (forest.seen_iff id).mp isSeen with before | isLeft
    · exact .inl before
    · obtain ⟨start, isStart, reachable⟩ := forest.reached isLeft
      obtain rfl := List.mem_singleton.mp isStart
      exact .inr reachable
  · rintro (before | reachable)
    · exact forest.seen_le before
    · induction reachable with
      | root => exact forest.covers List.mem_cons_self
      | @edge source target _ isNext ih =>
          rcases (forest.seen_iff source).mp ih with before | isLeft
          · exact forest.seen_le (closed source target before isNext)
          · exact forest.closed isLeft isNext

end Forest

def Arena.unseen (arena : Arena) (seen : Std.HashSet BlockIndex) : Nat :=
  ((List.range arena.size).filter fun id => !seen.contains id).length

theorem Arena.unseen_insert_lt {arena : Arena} {seen : Std.HashSet BlockIndex} {id : BlockIndex}
    (fresh : seen.contains id = false) (inside : id < arena.size) :
    arena.unseen (seen.insert id) < arena.unseen seen := by
  have fewer : ((List.range arena.size).filter fun other => !(seen.insert id).contains other) =
      ((List.range arena.size).filter fun other => !seen.contains other).filter
        fun other => !(id == other) := by
    rw [List.filter_filter]
    refine List.filter_congr fun other _ => ?_
    rw [Std.HashSet.contains_insert, Bool.not_or]
  simp only [unseen, fewer]
  exact List.length_filter_lt_length_iff_exists.mpr ⟨id, by simp [fresh, inside], by simp⟩

theorem Forest.unseen_le {arena : Arena} {ids : List BlockIndex} {seen after : Std.HashSet BlockIndex}
    {trace : List Visit} (forest : Forest arena ids seen trace after) :
    arena.unseen after ≤ arena.unseen seen := by
  simp only [Arena.unseen, ← List.countP_eq_length_filter]
  refine List.countP_mono_left fun id _ missing => ?_
  by_cases before : seen.contains id = true
  · simp [forest.seen_le before] at missing
  · simpa using before

def Arena.Closed (arena : Arena) : Prop :=
  ∀ id next, next ∈ arena.successors id → next < arena.size

theorem Arena.Closed.reachable_lt {arena : Arena} (closed : arena.Closed) {root id : BlockIndex}
    (inside : root < arena.size) (reachable : Reachable arena root id) : id < arena.size := by
  cases reachable with
  | root => exact inside
  | edge _ isNext => exact closed _ _ isNext

theorem Arena.visit_forest {arena : Arena} (closed : arena.Closed) (fuel : Nat)
    (ids : List BlockIndex) (inside : ∀ id ∈ ids, id < arena.size) (trail : Trail)
    (enough : arena.unseen trail.seen ≤ fuel) :
    ∃ trace after, Forest arena ids trail.seen trace after ∧
      ids.foldl (arena.visit fuel) trail = { seen := after, trace := trace.reverse ++ trail.trace } := by
  induction fuel generalizing ids trail with
  | zero =>
      have allSeen : ∀ id, id < arena.size → trail.seen.contains id = true := by
        intro id bound
        have none := List.filter_eq_nil_iff.mp (List.length_eq_zero_iff.mp (Nat.le_zero.mp enough))
        simpa using none id (List.mem_range.mpr bound)
      refine ⟨[], trail.seen, ?_, ?_⟩
      · clear enough
        induction ids with
        | nil => exact .nil _
        | cons id rest ih =>
            exact .skip (allSeen id (inside id List.mem_cons_self))
              (ih fun other later => inside other (List.mem_cons_of_mem _ later))
      · clear enough
        induction ids with
        | nil => rfl
        | cons id rest ih => exact ih fun other later => inside other (List.mem_cons_of_mem _ later)
  | succ fuel deeper =>
      induction ids generalizing trail with
      | nil => exact ⟨[], trail.seen, .nil _, rfl⟩
      | cons id rest ih =>
          have restInside : ∀ other ∈ rest, other < arena.size :=
            fun other later => inside other (List.mem_cons_of_mem _ later)
          rw [List.foldl_cons]
          by_cases before : trail.seen.contains id = true
          · obtain ⟨trace, after, forest, done⟩ := ih restInside trail enough
            refine ⟨trace, after, .skip before forest, ?_⟩
            rw [visit, if_pos before, done]
          · have fresh : trail.seen.contains id = false := by simpa using before
            have fewer := unseen_insert_lt fresh (inside id List.mem_cons_self)
            obtain ⟨inner, middle, innerForest, innerDone⟩ := deeper (arena.successors id)
              (fun next isNext => closed id next isNext)
              { seen := trail.seen.insert id, trace := .enter id :: trail.trace } (by simp only; omega)
            have visited : arena.visit (fuel + 1) trail id =
                { seen := middle, trace := .leave id :: (inner.reverse ++ .enter id :: trail.trace) } := by
              rw [visit, if_neg before]
              simp only [innerDone]
            have narrower : arena.unseen middle ≤ arena.unseen (trail.seen.insert id) :=
              innerForest.unseen_le
            obtain ⟨outer, after, outerForest, outerDone⟩ := ih restInside
              { seen := middle, trace := .leave id :: (inner.reverse ++ .enter id :: trail.trace) }
              (by simp only; omega)
            refine ⟨_, after, .visit fresh innerForest outerForest, ?_⟩
            rw [visited, outerDone]
            simp

theorem Arena.traversal_forest {arena : Arena} (closed : arena.Closed) {root : BlockIndex}
    (inside : root < arena.size) (seen : Std.HashSet BlockIndex) :
    ∃ after, Forest arena [root] seen (arena.traversal seen root) after := by
  have enough : arena.unseen seen ≤ arena.size + 1 := by
    have bound := List.length_filter_le (fun id => !seen.contains id) (List.range arena.size)
    rw [List.length_range] at bound
    exact Nat.le_succ_of_le bound
  obtain ⟨trace, after, forest, done⟩ := visit_forest closed (arena.size + 1) [root]
    (by simpa using inside) { seen, trace := [] } enough
  refine ⟨after, ?_⟩
  rw [List.foldl_cons, List.foldl_nil] at done
  rw [traversal, done]
  simpa using forest

end Assay.Graph
