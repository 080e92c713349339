import Assay.Proofs.Graph.Extension

/-!
Arenas that grow by finished blocks: what was there keeps its code and its transfer, and what is new
returns at its end or goes on to blocks of the arena.
-/

namespace Assay.Graph

def Cond.isKnown : Cond → Bool
  | none => false
  | unknown _ => false
  | _ => true

/-- The code and the transfer of a block of an arena of some size that needs no further work. `plain`
tells which instructions may stand before the transfer or the return. -/
inductive Finished (plain : Instruction → Prop) (size : Nat) : List Instruction → Transfer → Prop
  | exit {body : List Instruction} (kind : ValueKind) : (∀ instruction ∈ body, plain instruction) →
      Finished plain size (body ++ [.ret kind]) .exit
  | jump {code : List Instruction} {next : BlockIndex} : (∀ instruction ∈ code, plain instruction) →
      next < size → Finished plain size code (.jump next)
  | branch {code : List Instruction} {cond : Cond} {yes no : BlockIndex} :
      (∀ instruction ∈ code, plain instruction) → cond.isKnown = true → yes < size → no < size →
      Finished plain size code (.branch cond yes no)

variable {plain : Instruction → Prop}

theorem Finished.mono {size larger : Nat} {code : List Instruction} {transfer : Transfer}
    (finished : Finished plain size code transfer) (grown : size ≤ larger) :
    Finished plain larger code transfer := by
  cases finished with
  | exit kind body => exact .exit kind body
  | jump code bound => exact .jump code (Nat.lt_of_lt_of_le bound grown)
  | branch code known yesBound noBound =>
      exact .branch code known (Nat.lt_of_lt_of_le yesBound grown) (Nat.lt_of_lt_of_le noBound grown)

theorem Finished.successor_lt {size : Nat} {code : List Instruction} {transfer : Transfer}
    (finished : Finished plain size code transfer) {next : BlockIndex}
    (isNext : next ∈ transfer.successors) : next < size := by
  cases finished with
  | exit kind body => simp [Transfer.successors] at isNext
  | jump code bound =>
      simp only [Transfer.successors, List.mem_singleton] at isNext
      exact isNext ▸ bound
  | branch code known yesBound noBound =>
      simp only [Transfer.successors, List.mem_cons, List.not_mem_nil, or_false] at isNext
      rcases isNext with rfl | rfl
      · exact yesBound
      · exact noBound

namespace Arena

theorem Holds.lt_size {arena : Arena} {id : BlockIndex} {code : List Instruction} {transfer : Transfer}
    (holds : arena.Holds id code transfer) : id < arena.size := by
  obtain ⟨block, found, -⟩ := holds
  exact (Array.getElem?_eq_some_iff.mp found).1

theorem Holds.unique {arena : Arena} {id : BlockIndex} {code other : List Instruction}
    {transfer otherTransfer : Transfer} (first : arena.Holds id code transfer)
    (second : arena.Holds id other otherTransfer) : code = other ∧ transfer = otherTransfer := by
  obtain ⟨block, found, rfl, rfl⟩ := first
  obtain ⟨later, laterFound, rfl, rfl⟩ := second
  obtain rfl : block = later := Option.some.inj (found.symm.trans laterFound)
  exact ⟨rfl, rfl⟩

theorem exists_holds {arena : Arena} {id : BlockIndex} (inside : id < arena.size) :
    ∃ code transfer, arena.Holds id code transfer :=
  ⟨_, _, arena.blocks[id], Array.getElem?_eq_getElem inside, rfl, rfl⟩

def Keeps (before after : Arena) : Prop :=
  ∀ id code transfer, before.Holds id code transfer → after.Holds id code transfer

theorem Keeps.refl (arena : Arena) : arena.Keeps arena :=
  fun _ _ _ holds => holds

theorem Keeps.trans {first second third : Arena} (earlier : first.Keeps second)
    (later : second.Keeps third) : first.Keeps third :=
  fun id code transfer holds => later id code transfer (earlier id code transfer holds)

theorem Keeps.extends {before after : Arena} (keeps : before.Keeps after) :
    before.Extends after := by
  intro id block found
  obtain ⟨later, laterFound, sameCode, sameTransfer⟩ := keeps id _ _ ⟨block, found, rfl, rfl⟩
  exact ⟨later, laterFound, sameCode, fun _ => sameTransfer⟩

theorem Keeps.size_le {before after : Arena} (keeps : before.Keeps after) :
    before.size ≤ after.size :=
  keeps.extends.size_le

theorem Keeps.get? {before after : Arena} {id : BlockIndex} (keeps : before.Keeps after)
    (inside : id < before.size) :
    ∃ old new, before.get? id = some old ∧ after.get? id = some new ∧ new.code = old.code ∧
      new.transfer = old.transfer := by
  obtain ⟨code, transfer, old, found, rfl, rfl⟩ := exists_holds inside
  obtain ⟨new, newFound, sameCode, sameTransfer⟩ := keeps id _ _ ⟨old, found, rfl, rfl⟩
  exact ⟨old, new, found, newFound, sameCode, sameTransfer⟩

theorem Keeps.successors {before after : Arena} {id : BlockIndex} (keeps : before.Keeps after)
    (inside : id < before.size) : after.successors id = before.successors id := by
  obtain ⟨old, new, found, newFound, -, sameTransfer⟩ := keeps.get? inside
  simp only [Arena.successors, found, newFound, Block.successors, sameTransfer]

theorem size_allocate (arena : Arena) (code : List Instruction) (transfer : Transfer) :
    (arena.allocate code transfer).1.size = arena.size + 1 := by
  simp [allocate, size]

theorem size_countEdge (arena : Arena) (target : BlockIndex) :
    (arena.countEdge target).size = arena.size := by
  simp [countEdge, size]

theorem holds_allocate_iff (arena : Arena) (code : List Instruction) (transfer : Transfer)
    (id : BlockIndex) (other : List Instruction) (otherTransfer : Transfer) :
    (arena.allocate code transfer).1.Holds id other otherTransfer ↔
      if id = arena.size then other = code ∧ otherTransfer = transfer
      else arena.Holds id other otherTransfer := by
  simp only [Holds, get?_allocate]
  split
  · constructor
    · rintro ⟨block, found, rfl, rfl⟩
      obtain rfl := Option.some.inj found
      exact ⟨rfl, rfl⟩
    · rintro ⟨rfl, rfl⟩
      exact ⟨_, rfl, rfl, rfl⟩
  · rfl

theorem holds_countEdge_iff (arena : Arena) (target id : BlockIndex) (code : List Instruction)
    (transfer : Transfer) :
    (arena.countEdge target).Holds id code transfer ↔ arena.Holds id code transfer := by
  constructor
  · rintro ⟨block, found, rfl, rfl⟩
    rw [get?_countEdge, Option.map_eq_some_iff] at found
    obtain ⟨old, oldFound, rfl⟩ := found
    refine ⟨old, oldFound, ?_⟩
    split
    · exact ⟨rfl, rfl⟩
    · exact ⟨rfl, rfl⟩
  · exact fun holds => holds.countEdge target

structure Adds (plain : Instruction → Prop) (before after : Arena) : Prop where
  keeps : before.Keeps after
  finished : ∀ id code transfer, before.size ≤ id → after.Holds id code transfer →
    Finished plain after.size code transfer

theorem Adds.refl (arena : Arena) : Adds plain arena arena := by
  refine ⟨Keeps.refl arena, fun id code transfer added holds => ?_⟩
  exact absurd holds.lt_size (Nat.not_lt.mpr added)

theorem Adds.size_le {before after : Arena} (adds : Adds plain before after) :
    before.size ≤ after.size :=
  adds.keeps.size_le

theorem Adds.trans {first second third : Arena} (earlier : Adds plain first second)
    (later : Adds plain second third) : Adds plain first third := by
  refine ⟨earlier.keeps.trans later.keeps, fun id code transfer added holds => ?_⟩
  by_cases inside : id < second.size
  · obtain ⟨old, oldTransfer, oldHolds⟩ := exists_holds inside
    obtain ⟨rfl, rfl⟩ := holds.unique (later.keeps _ _ _ oldHolds)
    exact (earlier.finished id _ _ added oldHolds).mono later.size_le
  · exact later.finished id code transfer (Nat.not_lt.mp inside) holds

theorem Adds.countEdge {before after : Arena} (adds : Adds plain before after) (target : BlockIndex) :
    Adds plain before (after.countEdge target) := by
  constructor
  · intro id code transfer holds
    exact (adds.keeps id code transfer holds).countEdge target
  · intro id code transfer added holds
    rw [holds_countEdge_iff] at holds
    rw [size_countEdge]
    exact adds.finished id code transfer added holds

theorem adds_allocate {arena : Arena} {code : List Instruction} {transfer : Transfer}
    (finished : Finished plain (arena.size + 1) code transfer) :
    Adds plain arena (arena.allocate code transfer).1 := by
  constructor
  · intro id other otherTransfer holds
    rw [holds_allocate_iff, if_neg (Nat.ne_of_lt holds.lt_size)]
    exact holds
  · intro id other otherTransfer added holds
    have inside := holds.lt_size
    rw [size_allocate] at inside ⊢
    rw [holds_allocate_iff, if_pos (Nat.le_antisymm (Nat.le_of_lt_succ inside) added)] at holds
    obtain ⟨rfl, rfl⟩ := holds
    exact finished

theorem adds_newBlock (arena : Arena) {body : List Instruction} (kind : ValueKind)
    (isPlain : ∀ instruction ∈ body, plain instruction) :
    Adds plain arena (arena.newBlock (body ++ [.ret kind])).1 :=
  adds_allocate (.exit kind isPlain)

theorem adds_branch {arena : Arena} {cond : Cond} {yes no : BlockIndex} (known : cond.isKnown = true)
    (yesInside : yes < arena.size) (noInside : no < arena.size) :
    Adds plain arena (arena.branch cond yes no).1 := by
  have finished : Finished plain (arena.size + 1) [] (.branch cond yes no) :=
    .branch (by simp) known (Nat.lt_succ_of_lt yesInside) (Nat.lt_succ_of_lt noInside)
  exact ((adds_allocate finished).countEdge yes).countEdge no

theorem adds_prepend {arena : Arena} {code : List Instruction} {next : BlockIndex}
    (isPlain : ∀ instruction ∈ code, plain instruction) (inside : next < arena.size) :
    Adds plain arena (arena.prepend code next).1 := by
  unfold prepend
  split
  · exact Adds.refl arena
  · exact (adds_allocate (.jump isPlain (Nat.lt_succ_of_lt inside))).countEdge next

theorem branch_lt_size (arena : Arena) (cond : Cond) (yes no : BlockIndex) :
    (arena.branch cond yes no).2 < (arena.branch cond yes no).1.size :=
  (holds_branch arena cond yes no).lt_size

theorem prepend_lt_size {arena : Arena} (code : List Instruction) {next : BlockIndex}
    (inside : next < arena.size) :
    (arena.prepend code next).2 < (arena.prepend code next).1.size := by
  by_cases empty : code = []
  · subst empty
    exact inside
  · exact (holds_prepend arena empty next).lt_size

theorem link_of_exit {arena : Arena} {id : BlockIndex} {code : List Instruction}
    (unlinked : arena.Holds id code .exit) (next : BlockIndex) :
    ∃ linked, arena.link id next = .ok linked ∧ linked.size = arena.size ∧
      ∀ other otherCode transfer, linked.Holds other otherCode transfer ↔
        if other = id then otherCode = code ∧ transfer = .jump next
        else arena.Holds other otherCode transfer := by
  obtain ⟨block, found, rfl, exits⟩ := unlinked
  have isExit : block.isExit = true := by simp [Block.isExit, Transfer.isExit, exits]
  refine ⟨_, by rw [link, found]; simp only [isExit, if_true]; rfl, ?_, ?_⟩
  · simp [countEdge, size]
  · intro other otherCode transfer
    rw [holds_countEdge_iff]
    simp only [Holds, get?, Array.getElem?_modify]
    simp only [get?] at found
    by_cases same : other = id
    · subst same
      simp only [if_true, found, Option.map_some, Option.some.injEq, exists_eq_left']
      constructor
      · rintro ⟨sameCode, sameTransfer⟩
        exact ⟨sameCode.symm, sameTransfer.symm⟩
      · rintro ⟨sameCode, sameTransfer⟩
        exact ⟨sameCode.symm, sameTransfer.symm⟩
    · rw [if_neg (Ne.symm same), if_neg same]

/-- A loop is closed by linking the block that was allocated first, after everything else was added. -/
theorem keeps_loop {start last : Arena} (kept : (start.newBlock []).1.Keeps last) (next : BlockIndex) :
    ∃ linked, last.link start.size next = .ok linked ∧ start.Keeps linked ∧
      start.size < linked.size ∧ linked.size = last.size ∧
      ∀ id code transfer, linked.Holds id code transfer ↔
        if id = start.size then code = [] ∧ transfer = .jump next
        else last.Holds id code transfer := by
  have pivot : last.Holds start.size [] .exit := kept _ _ _ (holds_newBlock start [])
  obtain ⟨linked, done, sameSize, holds_iff⟩ := link_of_exit pivot next
  have pivotInside : start.size < last.size := pivot.lt_size
  refine ⟨linked, done, ?_, by omega, sameSize, holds_iff⟩
  intro id code transfer holds
  have different : id ≠ start.size := Nat.ne_of_lt holds.lt_size
  rw [holds_iff, if_neg different]
  refine kept id code transfer ?_
  rw [newBlock, holds_allocate_iff, if_neg different]
  exact holds

theorem adds_loop {start last : Arena} {next : BlockIndex}
    (added : Adds plain (start.newBlock []).1 last) (inside : next < last.size) :
    ∃ linked, last.link start.size next = .ok linked ∧ Adds plain start linked ∧
      start.size < linked.size := by
  obtain ⟨linked, done, keeps, larger, sameSize, holds_iff⟩ := keeps_loop added.keeps next
  refine ⟨linked, done, ⟨keeps, ?_⟩, larger⟩
  intro id code transfer isNew holds
  rw [holds_iff] at holds
  rw [sameSize]
  split at holds
  · obtain ⟨rfl, rfl⟩ := holds
    exact .jump (by simp) inside
  · rename_i different
    refine added.finished id code transfer ?_ holds
    rw [newBlock, size_allocate]
    exact Nat.lt_of_le_of_ne isNew (Ne.symm different)

end Arena

end Assay.Graph
