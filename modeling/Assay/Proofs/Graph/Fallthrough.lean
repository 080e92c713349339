import Assay.Proofs.Graph.Layout

/-!
What the order of blocks in the code of a routine is like: the layout comes to an end, places every block
that can be reached from the root once, the root first, and lets a block be followed by its preferred
successor whenever that is not placed yet.
-/

namespace Assay.Graph

/-- The preferred successor of a block is placed right behind it, or stands before it already. -/
def FallsThrough (arena : Arena) (order : List BlockIndex) : Prop :=
  ∀ before id after next, order = before ++ id :: after → arena.preferred? id = some next →
    next ∉ before ++ [id] → after.head? = some next

def Placement.Falling (arena : Arena) (placement : Placement) (candidate : Option BlockIndex) : Prop :=
  ∀ before id after next, placement.order.reverse = before ++ id :: after →
    arena.preferred? id = some next → next ∉ before ++ [id] →
    (after ++ candidate.toList).head? = some next

namespace Placement.Falling

variable {arena : Arena} {placement : Placement} {id : BlockIndex}

theorem start (arena : Arena) (root : BlockIndex) : Placement.start.Falling arena (some root) := by
  intro before id after next split
  simp [Placement.start] at split

theorem resume {next : BlockIndex} {waiting : List BlockIndex} (falling : placement.Falling arena none) :
    Placement.Falling arena { placement with waiting } (some next) := by
  intro before id after wanted split prefers unplaced
  have follows := falling before id after wanted split prefers unplaced
  rw [Option.toList_none, List.append_nil] at follows
  rw [List.head?_append, follows, Option.some_or]

theorem skip (falling : placement.Falling arena (some id)) (placed : id ∈ placement.order) :
    placement.Falling arena none := by
  intro before last after wanted split prefers unplaced
  have follows := falling before last after wanted split prefers unplaced
  cases after with
  | nil =>
      obtain rfl : id = wanted := by simpa using follows
      rw [← List.mem_reverse, split] at placed
      exact absurd placed unplaced
  | cons head tail => exact follows

theorem place (falling : placement.Falling arena (some id)) (added : List BlockIndex) :
    (placement.placeAnd id added).Falling arena (arena.preferred? id) := by
  intro before other after wanted split prefers unplaced
  have order : (placement.placeAnd id added).order.reverse = placement.order.reverse ++ [id] :=
    List.reverse_cons
  rw [order] at split
  rcases List.eq_nil_or_concat after with rfl | ⟨between, last, rfl⟩
  · obtain ⟨-, same⟩ := List.append_inj' split rfl
    obtain rfl : id = other := by simpa using same
    rw [List.nil_append, prefers, Option.toList_some, List.head?_cons]
  · have shifted : placement.order.reverse ++ [id] = (before ++ other :: between) ++ [last] := by
      simpa using split
    obtain ⟨earlier, same⟩ := List.append_inj' shifted rfl
    obtain rfl : id = last := by simpa using same
    have follows := falling before other between wanted earlier prefers unplaced
    rw [Option.toList_some] at follows
    rw [List.concat_eq_append, List.head?_append, follows, Option.some_or]

end Placement.Falling

theorem Lays.fallsThrough {arena : Arena} {root : BlockIndex} {placement : Placement}
    {candidate : Option BlockIndex} {order : List BlockIndex}
    (lays : Lays arena placement candidate order) (valid : placement.Valid arena root candidate)
    (falling : placement.Falling arena candidate) : FallsThrough arena order := by
  induction lays with
  | finish done =>
      intro before id after next split prefers unplaced
      simpa using falling before id after next split prefers unplaced
  | resume waits _ ih => exact ih (valid.resume waits) falling.resume
  | skip placed _ ih =>
      have member := (valid.agrees _).mp placed
      exact ih (valid.skip member) (falling.skip member)
  | place free _ ih => exact ih (valid.place_free free) (falling.place _)

theorem Lays.unique {arena : Arena} {placement : Placement} {candidate : Option BlockIndex}
    {order other : List BlockIndex} (first : Lays arena placement candidate order)
    (second : Lays arena placement candidate other) : order = other := by
  induction first with
  | finish done =>
      cases second with
      | finish _ => rfl
      | resume waits _ => simp [done] at waits
  | resume waits _ ih =>
      cases second with
      | finish done => simp [done] at waits
      | resume again lays =>
          obtain ⟨rfl, rfl⟩ := List.cons.inj (waits.symm.trans again)
          exact ih lays
  | skip placed _ ih =>
      cases second with
      | skip _ lays => exact ih lays
      | place free _ => simp [placed] at free
  | place free _ ih =>
      cases second with
      | skip placed _ => simp [free] at placed
      | place _ lays => exact ih lays

/-- The layout is what placing block after block comes to, with no bound on the rounds. It starts with the
root, places every block that can be reached from the root once and no other block, and lets a block be
followed by its preferred successor unless that is placed already. -/
theorem layout_arranges_reachable (arena : Arena) (root : BlockIndex) :
    (∀ order, Lays arena .start (some root) order ↔ order = arena.layout root) ∧
    (arena.layout root).head? = some root ∧
    (arena.layout root).Nodup ∧
    (∀ id, id ∈ arena.layout root ↔ Reachable arena root id) ∧
    FallsThrough arena (arena.layout root) := by
  have lays := arena.lays_layout root
  have laidOut := arena.layout_laidOut root
  obtain ⟨rest, head⟩ := arena.layout_head root
  refine ⟨fun order => ⟨fun other => other.unique lays, fun same => same ▸ lays⟩, ?_,
    laidOut.distinct, fun id => ⟨laidOut.reached id, arena.mem_layout_of_reachable⟩, ?_⟩
  · rw [head, List.head?_cons]
  · exact lays.fallsThrough (Placement.Valid.start arena root) (Placement.Falling.start arena root)

end Assay.Graph
