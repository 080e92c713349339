import Assay.Graph.Layout

/-!
The layout of a routine starts with its root and holds every block that can be reached from the root
once.
-/

namespace Assay.Graph

inductive Reachable (arena : Arena) (root : BlockIndex) : BlockIndex → Prop
  | root : Reachable arena root root
  | edge {source target : BlockIndex} : Reachable arena root source →
      target ∈ arena.successors source → Reachable arena root target

theorem Arena.successors_of_get {arena : Arena} {id : BlockIndex} {block : Block}
    (found : arena.get? id = some block) : arena.successors id = block.transfer.successors := by
  simp only [successors, found, Block.successors]

theorem Arena.successors_of_none {arena : Arena} {id : BlockIndex}
    (missing : arena.get? id = none) : arena.successors id = [] := by
  simp only [successors, missing]

/-- What holds while blocks are placed: nothing is placed twice, everything met can be reached, and a
successor of a placed block is placed or still to come. -/
structure Placement.Valid (arena : Arena) (root : BlockIndex) (placement : Placement)
    (candidate : Option BlockIndex) : Prop where
  agrees : ∀ id, placement.placed.contains id = true ↔ id ∈ placement.order
  distinct : placement.order.Nodup
  reached : ∀ id, id ∈ placement.order ∨ id ∈ placement.waiting ∨ candidate = some id →
    Reachable arena root id
  closed : ∀ id ∈ placement.order, ∀ next ∈ arena.successors id,
    next ∈ placement.order ∨ next ∈ placement.waiting ∨ candidate = some next

def Placement.missing (arena : Arena) (placement : Placement) : Nat :=
  ((List.range arena.size).filter fun id => id ∉ placement.order).length

/-- Every step of the layout lowers this number. -/
def Placement.effort (arena : Arena) (placement : Placement) (candidate : Option BlockIndex) : Nat :=
  3 * placement.missing arena + 2 * placement.waiting.length + candidate.toList.length

theorem Placement.missing_place_eq (arena : Arena) (placement : Placement) (id : BlockIndex) :
    (placement.place id).missing arena =
      (((List.range arena.size).filter fun other => other ∉ placement.order).filter
        fun other => other ≠ id).length := by
  simp only [missing, place, List.filter_filter, List.mem_cons, not_or, Bool.decide_and]

theorem Placement.missing_place_le (arena : Arena) (placement : Placement) (id : BlockIndex) :
    (placement.place id).missing arena ≤ placement.missing arena := by
  rw [missing_place_eq]
  exact List.length_filter_le _ _

theorem Placement.missing_place_lt {arena : Arena} {placement : Placement} {id : BlockIndex}
    (fresh : id ∉ placement.order) (bound : id < arena.size) :
    (placement.place id).missing arena < placement.missing arena := by
  rw [missing_place_eq]
  exact List.length_filter_lt_length_iff_exists.mpr ⟨id, by simp [fresh, bound], by simp⟩

theorem Arena.lt_size_of_get {arena : Arena} {id : BlockIndex} {block : Block}
    (found : arena.get? id = some block) : id < arena.size :=
  (Array.getElem?_eq_some_iff.mp found).1

def Arena.preferred? (arena : Arena) (id : BlockIndex) : Option BlockIndex :=
  match (arena.get? id).map Block.transfer with
  | some (.jump next) => some next
  | some (.branch _ _ no) => some no
  | _ => none

def Arena.deferred (arena : Arena) (id : BlockIndex) : List BlockIndex :=
  match (arena.get? id).map Block.transfer with
  | some (.branch _ yes _) => [yes]
  | _ => []

theorem Arena.mem_successors_iff (arena : Arena) (id next : BlockIndex) :
    next ∈ arena.successors id ↔ next ∈ arena.deferred id ∨ arena.preferred? id = some next := by
  unfold deferred preferred?
  cases found : arena.get? id with
  | none => simp [successors_of_none found]
  | some block =>
      rw [successors_of_get found, Option.map_some]
      cases block.transfer <;> simp [Transfer.successors, eq_comm]

theorem Arena.deferred_few (arena : Arena) (id : BlockIndex) : (arena.deferred id).length ≤ 1 := by
  unfold deferred
  split <;> simp

theorem Arena.onward_known (arena : Arena) (id : BlockIndex) :
    id < arena.size ∨ arena.deferred id = [] ∧ arena.preferred? id = none := by
  cases found : arena.get? id with
  | none => exact Or.inr (by simp [deferred, preferred?, found])
  | some block => exact Or.inl (lt_size_of_get found)

theorem Placement.Valid.start (arena : Arena) (root : BlockIndex) :
    Placement.start.Valid arena root (some root) where
  agrees := by simp [Placement.start]
  distinct := List.nodup_nil
  reached := by
    intro id met
    simp only [Placement.start, List.not_mem_nil, Option.some.injEq, false_or] at met
    rw [← met]
    exact Reachable.root
  closed := by simp [Placement.start]

theorem Placement.Valid.resume {arena : Arena} {root next : BlockIndex} {placement : Placement}
    {waiting : List BlockIndex} (valid : placement.Valid arena root none)
    (waits : placement.waiting = next :: waiting) :
    Placement.Valid arena root { placement with waiting } (some next) where
  agrees := valid.agrees
  distinct := valid.distinct
  reached := by
    intro id met
    apply valid.reached id
    simp only [waits, List.mem_cons]
    rcases met with placed | later | here
    · exact Or.inl placed
    · exact Or.inr (Or.inl (Or.inr later))
    · exact Or.inr (Or.inl (Or.inl (Option.some.inj here).symm))
  closed := by
    intro id member successor edge
    rcases valid.closed id member successor edge with placed | later | here
    · exact Or.inl placed
    · rw [waits] at later
      rcases List.mem_cons.mp later with same | later
      · exact Or.inr (Or.inr (by rw [same]))
      · exact Or.inr (Or.inl later)
    · exact absurd here (by simp)

theorem Placement.Valid.skip {arena : Arena} {root id : BlockIndex} {placement : Placement}
    (valid : placement.Valid arena root (some id)) (placed : id ∈ placement.order) :
    placement.Valid arena root none where
  agrees := valid.agrees
  distinct := valid.distinct
  reached := by
    intro other met
    apply valid.reached other
    rcases met with earlier | later | here
    · exact Or.inl earlier
    · exact Or.inr (Or.inl later)
    · exact absurd here (by simp)
  closed := by
    intro other member successor edge
    rcases valid.closed other member successor edge with earlier | later | here
    · exact Or.inl earlier
    · exact Or.inr (Or.inl later)
    · rw [← Option.some.inj here]
      exact Or.inl placed

def Placement.placeAnd (placement : Placement) (id : BlockIndex) (added : List BlockIndex) : Placement :=
  { placement.place id with waiting := added ++ placement.waiting }

theorem Placement.Valid.place {arena : Arena} {root id : BlockIndex} {placement : Placement}
    {added : List BlockIndex} {candidate : Option BlockIndex}
    (valid : placement.Valid arena root (some id)) (fresh : id ∉ placement.order)
    (successors : ∀ next, next ∈ arena.successors id ↔ next ∈ added ∨ candidate = some next) :
    (placement.placeAnd id added).Valid arena root candidate where
  agrees := by
    intro other
    simp only [Placement.placeAnd, Placement.place, Std.HashSet.contains_insert, Bool.or_eq_true,
      beq_iff_eq, valid.agrees other, List.mem_cons]
    exact or_congr_left eq_comm
  distinct := List.nodup_cons.mpr ⟨fresh, valid.distinct⟩
  reached := by
    have here : Reachable arena root id := valid.reached id (Or.inr (Or.inr rfl))
    intro other met
    simp only [Placement.placeAnd, Placement.place, List.mem_cons, List.mem_append] at met
    rcases met with (same | placed) | (new | later) | next
    · rw [same]
      exact here
    · exact valid.reached other (Or.inl placed)
    · exact Reachable.edge here ((successors other).mpr (Or.inl new))
    · exact valid.reached other (Or.inr (Or.inl later))
    · exact Reachable.edge here ((successors other).mpr (Or.inr next))
  closed := by
    intro other member next edge
    simp only [Placement.placeAnd, Placement.place, List.mem_cons, List.mem_append] at member ⊢
    rcases member with same | placed
    · rw [same] at edge
      rcases (successors next).mp edge with new | here
      · exact Or.inr (Or.inl (Or.inl new))
      · exact Or.inr (Or.inr here)
    · rcases valid.closed other placed next edge with placed | later | here
      · exact Or.inl (Or.inr placed)
      · exact Or.inr (Or.inl (Or.inr later))
      · exact Or.inl (Or.inl (Option.some.inj here).symm)

theorem Placement.Valid.fresh {arena : Arena} {root id : BlockIndex} {placement : Placement}
    {candidate : Option BlockIndex} (valid : placement.Valid arena root candidate)
    (free : placement.placed.contains id = false) : id ∉ placement.order := by
  intro member
  simp [(valid.agrees id).mpr member] at free

theorem Placement.Valid.place_free {arena : Arena} {root id : BlockIndex} {placement : Placement}
    (valid : placement.Valid arena root (some id)) (free : placement.placed.contains id = false) :
    (placement.placeAnd id (arena.deferred id)).Valid arena root (arena.preferred? id) :=
  valid.place (valid.fresh free) (arena.mem_successors_iff id)

/-- What a finished layout is like. -/
structure LaidOut (arena : Arena) (root : BlockIndex) (order : List BlockIndex) : Prop where
  distinct : order.Nodup
  reached : ∀ id ∈ order, Reachable arena root id
  closed : ∀ id ∈ order, ∀ next ∈ arena.successors id, next ∈ order

theorem Placement.Valid.laidOut {arena : Arena} {root : BlockIndex} {placement : Placement}
    (valid : placement.Valid arena root none) (done : placement.waiting = []) :
    LaidOut arena root placement.order.reverse where
  distinct := List.pairwise_reverse.mpr (valid.distinct.imp Ne.symm)
  reached := fun id member => valid.reached id (Or.inl (List.mem_reverse.mp member))
  closed := by
    intro id member next edge
    rcases valid.closed id (List.mem_reverse.mp member) next edge with placed | later | here
    · exact List.mem_reverse.mpr placed
    · simp [done] at later
    · exact absurd here (by simp)

theorem Placement.effort_placeAnd {arena : Arena} {placement : Placement} {id : BlockIndex}
    {added : List BlockIndex} {candidate : Option BlockIndex} {fuel : Nat}
    (fresh : id ∉ placement.order) (few : added.length ≤ 1)
    (known : id < arena.size ∨ added = [] ∧ candidate = none)
    (enough : placement.effort arena (some id) ≤ fuel + 1) :
    (placement.placeAnd id added).effort arena candidate ≤ fuel := by
  have same : (placement.placeAnd id added).missing arena = (placement.place id).missing arena := rfl
  have waits : (placement.placeAnd id added).waiting.length =
      added.length + placement.waiting.length := List.length_append
  simp only [effort, same, waits, Option.toList_some, List.length_cons, List.length_nil] at enough ⊢
  rcases known with bound | ⟨rfl, rfl⟩
  · have fewer := missing_place_lt fresh bound
    have single : candidate.toList.length ≤ 1 := by cases candidate <;> simp
    omega
  · have atMost := placement.missing_place_le arena id
    simp only [List.length_nil, Option.toList_none]
    omega

/-- The layout without a bound on its rounds: blocks are placed from a candidate on until none is left. -/
inductive Lays (arena : Arena) : Placement → Option BlockIndex → List BlockIndex → Prop
  | finish {placement : Placement} : placement.waiting = [] →
      Lays arena placement none placement.order.reverse
  | resume {placement : Placement} {next : BlockIndex} {waiting order : List BlockIndex} :
      placement.waiting = next :: waiting →
      Lays arena { placement with waiting } (some next) order → Lays arena placement none order
  | skip {placement : Placement} {id : BlockIndex} {order : List BlockIndex} :
      placement.placed.contains id = true → Lays arena placement none order →
      Lays arena placement (some id) order
  | place {placement : Placement} {id : BlockIndex} {order : List BlockIndex} :
      placement.placed.contains id = false →
      Lays arena (placement.placeAnd id (arena.deferred id)) (arena.preferred? id) order →
      Lays arena placement (some id) order

theorem Arena.layoutFrom_place {arena : Arena} {placement : Placement} {id : BlockIndex}
    (free : placement.placed.contains id = false) (fuel : Nat) :
    arena.layoutFrom (fuel + 1) placement (some id) =
      arena.layoutFrom fuel (placement.placeAnd id (arena.deferred id)) (arena.preferred? id) := by
  simp only [layoutFrom, free, Bool.false_eq_true, if_false, deferred, preferred?]
  cases (arena.get? id).map Block.transfer with
  | none => rfl
  | some transfer => cases transfer <;> rfl

/-- The effort is enough fuel for the layout to come to its end. -/
theorem Arena.lays_layoutFrom {arena : Arena} {root : BlockIndex} {fuel : Nat}
    {placement : Placement} {candidate : Option BlockIndex}
    (valid : placement.Valid arena root candidate)
    (enough : placement.effort arena candidate ≤ fuel) :
    Lays arena placement candidate (arena.layoutFrom fuel placement candidate) := by
  induction fuel generalizing placement candidate with
  | zero =>
      simp only [Placement.effort, Nat.le_zero, Nat.add_eq_zero_iff, Nat.mul_eq_zero] at enough
      obtain rfl : candidate = none := by
        cases candidate with
        | none => rfl
        | some id => simp at enough
      exact .finish (List.length_eq_zero_iff.mp (by omega))
  | succ fuel ih =>
      cases candidate with
      | none =>
          simp only [layoutFrom]
          split
          · rename_i done
            exact .finish done
          · rename_i next waiting waits
            refine .resume waits (ih (valid.resume waits) ?_)
            have same : Placement.missing arena { placement with waiting } =
                placement.missing arena := rfl
            simp only [Placement.effort, waits, List.length_cons, Option.toList_none,
              List.length_nil, Option.toList_some] at enough ⊢
            omega
      | some id =>
          cases placed : placement.placed.contains id with
          | true =>
              simp only [layoutFrom, placed, if_true]
              refine .skip placed (ih (valid.skip ((valid.agrees id).mp placed)) ?_)
              simp only [Placement.effort, Option.toList_none, Option.toList_some,
                List.length_cons, List.length_nil] at enough ⊢
              omega
          | false =>
              rw [layoutFrom_place placed]
              exact .place placed (ih (valid.place_free placed)
                (Placement.effort_placeAnd (valid.fresh placed) (arena.deferred_few id)
                  (arena.onward_known id) enough))

theorem Lays.laidOut {arena : Arena} {root : BlockIndex} {placement : Placement}
    {candidate : Option BlockIndex} {order : List BlockIndex}
    (lays : Lays arena placement candidate order)
    (valid : placement.Valid arena root candidate) : LaidOut arena root order := by
  induction lays with
  | finish done => exact valid.laidOut done
  | resume waits _ ih => exact ih (valid.resume waits)
  | skip placed _ ih => exact ih (valid.skip ((valid.agrees _).mp placed))
  | place free _ ih => exact ih (valid.place_free free)

theorem Arena.effort_start (arena : Arena) (root : BlockIndex) :
    Placement.start.effort arena (some root) ≤ 4 * arena.size + 4 := by
  have missing : Placement.start.missing arena ≤ arena.size := by
    have shorter := List.length_filter_le (fun id => decide (id ∉ Placement.start.order))
      (List.range arena.size)
    simpa [Placement.missing] using shorter
  simp only [Placement.effort, Option.toList_some, List.length_cons, List.length_nil]
  have idle : Placement.start.waiting.length = 0 := rfl
  omega

theorem Arena.lays_layout (arena : Arena) (root : BlockIndex) :
    Lays arena .start (some root) (arena.layout root) :=
  lays_layoutFrom (Placement.Valid.start arena root) (arena.effort_start root)

theorem Arena.layout_laidOut (arena : Arena) (root : BlockIndex) :
    LaidOut arena root (arena.layout root) :=
  (arena.lays_layout root).laidOut (Placement.Valid.start arena root)

theorem Lays.placed_prefix {arena : Arena} {placement : Placement} {candidate : Option BlockIndex}
    {order : List BlockIndex} (lays : Lays arena placement candidate order) :
    placement.order.reverse <+: order := by
  induction lays with
  | finish _ => exact List.prefix_rfl
  | resume _ _ ih => exact ih
  | skip _ _ ih => exact ih
  | place _ _ ih =>
      refine List.IsPrefix.trans ?_ ih
      simp [Placement.placeAnd, Placement.place]

theorem Arena.layout_head (arena : Arena) (root : BlockIndex) :
    ∃ rest, arena.layout root = root :: rest := by
  cases arena.lays_layout root with
  | skip placed _ => simp [Placement.start] at placed
  | place _ lays =>
      obtain ⟨rest, found⟩ := lays.placed_prefix
      exact ⟨rest, found.symm⟩

theorem Arena.mem_layout_of_reachable (arena : Arena) {root id : BlockIndex}
    (reachable : Reachable arena root id) : id ∈ arena.layout root := by
  induction reachable with
  | root =>
      obtain ⟨rest, head⟩ := arena.layout_head root
      rw [head]
      exact List.mem_cons_self
  | edge _ successor ih => exact (arena.layout_laidOut root).closed _ ih _ successor

end Assay.Graph
