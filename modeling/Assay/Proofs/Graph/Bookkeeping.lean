import Assay.Proofs.Graph.Growth
import Mathlib.Data.List.Count

/-!
What an arena knows about its blocks, whatever calls it has answered or rejected. The edges that lead to a
block are counted one by one as they are made, so between the parts of a call some of them are owed.
-/

namespace Assay.Graph

namespace Arena

def edges (arena : Arena) : List BlockIndex := arena.blocks.toList.flatMap Block.successors

/-- All edges stay inside, only branches have conditions, and every block knows how many edges lead to it,
but for those that are owed. -/
structure Kept (arena : Arena) (owed : List BlockIndex) : Prop where
  inside : ∀ next ∈ arena.edges, next < arena.size
  conditional : ∀ id block, arena.get? id = some block →
    (block.cond ≠ .none ↔ block.successors.length = 2)
  counted : ∀ id block, arena.get? id = some block →
    block.incoming + owed.count id = arena.edges.count id

theorem kept_empty (tag : Nat) : (Arena.empty tag).Kept [] where
  inside := by simp [edges, empty]
  conditional := by simp [empty, get?]
  counted := by simp [empty, get?]

theorem edges_allocate (arena : Arena) (code : List Instruction) (transfer : Transfer) :
    (arena.allocate code transfer).1.edges = arena.edges ++ transfer.successors := by
  simp [edges, allocate, Block.successors]

theorem edges_modify {arena : Arena} {id : BlockIndex} {block : Block} (change : Block → Block)
    (found : arena.get? id = some block) : ∃ before after,
      arena.edges = before ++ block.successors ++ after ∧
      edges { arena with blocks := arena.blocks.modify id change } =
        before ++ (change block).successors ++ after := by
  obtain ⟨inside, isBlock⟩ := Array.getElem?_eq_some_iff.mp found
  obtain ⟨before, here, after, isList, rfl, isChanged⟩ :=
    List.exists_of_modify change (l := arena.blocks.toList) inside
  have isHere : here = block := by
    have listed : arena.blocks.toList[before.length]? = some block := by
      rw [Array.getElem?_toList]
      exact found
    rw [isList, List.getElem?_append_right (Nat.le_refl _)] at listed
    simpa using listed
  subst isHere
  refine ⟨before.flatMap Block.successors, after.flatMap Block.successors, ?_, ?_⟩
  · simp [edges, isList]
  · simp [edges, isChanged]

theorem edges_countEdge (arena : Arena) (target : BlockIndex) :
    (arena.countEdge target).edges = arena.edges := by
  cases found : arena.get? target with
  | some block =>
      obtain ⟨before, after, isBefore, isAfter⟩ :=
        edges_modify (fun block => { block with incoming := block.incoming + 1 }) found
      exact isAfter.trans isBefore.symm
  | none =>
      have outside : arena.blocks.toList.length ≤ target := Array.getElem?_eq_none_iff.mp found
      rw [edges, countEdge, Array.toList_modify, List.modify_eq_self outside]
      rfl

def redirect (arena : Arena) (id next : BlockIndex) : Arena :=
  { arena with blocks := arena.blocks.modify id fun block => { block with transfer := .jump next } }

theorem link_eq {arena : Arena} {id : BlockIndex} {block : Block} (found : arena.get? id = some block)
    (exits : block.isExit = true) (next : BlockIndex) :
    arena.link id next = .ok ((arena.redirect id next).countEdge next) := by
  rw [link, found]
  simp only [exits, if_true]
  rfl

theorem successors_of_exit {block : Block} (exits : block.isExit = true) : block.successors = [] := by
  cases isTransfer : block.transfer with
  | exit => rw [Block.successors, isTransfer]; rfl
  | jump next => simp [Block.isExit, isTransfer, Transfer.isExit] at exits
  | branch cond yes no => simp [Block.isExit, isTransfer, Transfer.isExit] at exits

theorem edges_redirect {arena : Arena} {id : BlockIndex} {block : Block}
    (found : arena.get? id = some block) (exits : block.isExit = true) (next : BlockIndex) :
    (arena.redirect id next).edges.Perm (next :: arena.edges) := by
  obtain ⟨before, after, isBefore, isAfter⟩ :=
    edges_modify (fun block => { block with transfer := .jump next }) found
  rw [successors_of_exit exits, List.append_nil] at isBefore
  rw [redirect, isAfter, isBefore, List.append_assoc]
  exact List.perm_middle

theorem get?_redirect (arena : Arena) (id next other : BlockIndex) :
    (arena.redirect id next).get? other = (arena.get? other).map fun block =>
      if id = other then { block with transfer := .jump next } else block := by
  simp only [redirect, get?, Array.getElem?_modify]
  split
  · rfl
  · simp

namespace Kept

variable {arena : Arena} {owed : List BlockIndex}

theorem allocate (kept : arena.Kept []) (code : List Instruction) (transfer : Transfer)
    (inside : ∀ next ∈ transfer.successors, next ≤ arena.size)
    (conditional : transfer.cond ≠ .none ↔ transfer.successors.length = 2) :
    (arena.allocate code transfer).1.Kept transfer.successors where
  inside := by
    intro next isNext
    rw [edges_allocate, List.mem_append] at isNext
    rw [size_allocate]
    rcases isNext with isOld | isNew
    · exact Nat.lt_succ_of_lt (kept.inside next isOld)
    · exact Nat.lt_succ_of_le (inside next isNew)
  conditional := by
    intro id block found
    rw [get?_allocate] at found
    split at found
    · cases found
      exact conditional
    · exact kept.conditional id block found
  counted := by
    intro id block found
    rw [get?_allocate] at found
    rw [edges_allocate, List.count_append]
    split at found
    · rename_i isNew
      cases found
      have unknown : arena.edges.count id = 0 :=
        List.count_eq_zero.mpr fun isOld => Nat.lt_irrefl arena.size (isNew ▸ kept.inside id isOld)
      rw [unknown]
    · have counted := kept.counted id block found
      simpa using counted

theorem countEdge {target : BlockIndex} (kept : arena.Kept (target :: owed)) :
    (arena.countEdge target).Kept owed where
  inside := by
    rw [edges_countEdge, size_countEdge]
    exact kept.inside
  conditional := by
    intro id block found
    rw [get?_countEdge, Option.map_eq_some_iff] at found
    obtain ⟨old, oldFound, rfl⟩ := found
    have conditional := kept.conditional id old oldFound
    split
    · exact conditional
    · exact conditional
  counted := by
    intro id block found
    rw [get?_countEdge, Option.map_eq_some_iff] at found
    obtain ⟨old, oldFound, rfl⟩ := found
    have counted := kept.counted id old oldFound
    rw [edges_countEdge, ← counted, List.count_cons]
    split
    · rename_i isTarget
      simp only [isTarget, beq_self_eq_true, if_true]
      omega
    · rename_i other
      simp [other]

theorem redirect {id next : BlockIndex} {block : Block} (kept : arena.Kept [])
    (found : arena.get? id = some block) (exits : block.isExit = true) (inside : next < arena.size) :
    (arena.redirect id next).Kept [next] where
  inside := by
    intro successor isSuccessor
    have sameSize : (arena.redirect id next).size = arena.size := by simp [Arena.redirect, size]
    rw [sameSize]
    rcases List.mem_cons.mp ((edges_redirect found exits next).mem_iff.mp isSuccessor) with rfl | isOld
    · exact inside
    · exact kept.inside successor isOld
  conditional := by
    intro other later laterFound
    rw [get?_redirect, Option.map_eq_some_iff] at laterFound
    obtain ⟨old, oldFound, rfl⟩ := laterFound
    split
    · simp [Block.cond, Block.successors, Transfer.cond, Transfer.successors]
    · exact kept.conditional other old oldFound
  counted := by
    intro other later laterFound
    rw [get?_redirect, Option.map_eq_some_iff] at laterFound
    obtain ⟨old, oldFound, rfl⟩ := laterFound
    have counted := kept.counted other old oldFound
    have more := (edges_redirect found exits next).count_eq other
    rw [List.count_cons] at more
    rw [more, List.count_singleton, ← counted]
    split
    · rfl
    · rfl

theorem newBlock (kept : arena.Kept []) (code : List Instruction) : (arena.newBlock code).1.Kept [] :=
  kept.allocate code .exit (by simp [Transfer.successors]) (by simp [Transfer.cond, Transfer.successors])

theorem jump {next : BlockIndex} (kept : arena.Kept []) (code : List Instruction)
    (inside : next < arena.size) : (arena.jump next code).1.Kept [] := by
  refine Kept.countEdge (kept.allocate code (.jump next) ?_ ?_)
  · simp only [Transfer.successors, List.mem_singleton, forall_eq]
    exact Nat.le_of_lt inside
  · simp [Transfer.cond, Transfer.successors]

theorem branch {cond : Cond} {yes no : BlockIndex} (kept : arena.Kept []) (isGiven : cond ≠ .none)
    (yesInside : yes < arena.size) (noInside : no < arena.size) :
    (arena.branch cond yes no).1.Kept [] := by
  refine Kept.countEdge (Kept.countEdge (kept.allocate [] (.branch cond yes no) ?_ ?_))
  · simp only [Transfer.successors, List.mem_cons, List.not_mem_nil, or_false, forall_eq_or_imp, forall_eq]
    exact ⟨Nat.le_of_lt yesInside, Nat.le_of_lt noInside⟩
  · simp [Transfer.cond, Transfer.successors, isGiven]

theorem prepend {next : BlockIndex} (kept : arena.Kept []) (code : List Instruction)
    (inside : next < arena.size) : (arena.prepend code next).1.Kept [] := by
  unfold Arena.prepend
  split
  · exact kept
  · exact kept.jump code inside

theorem link {id next : BlockIndex} {linked : Arena} (kept : arena.Kept []) (inside : next < arena.size)
    (done : arena.link id next = .ok linked) : linked.Kept [] := by
  cases found : arena.get? id with
  | none => simp [Arena.link, found] at done
  | some block =>
      by_cases exits : block.isExit = true
      · rw [link_eq found exits] at done
        cases done
        exact (kept.redirect found exits inside).countEdge
      · simp [Arena.link, found, exits] at done

end Kept

def Knows (arena : Arena) (block : BlockRef) : Prop := arena.owns block = true → block.index < arena.size

end Arena

/-- The call names only blocks that there are. Blocks are handed out by their arenas, so no other call can
be made. -/
def ArenaCall.Meets (arena : Arena) : ArenaCall → Prop
  | newBlock _ => True
  | jump next _ => arena.Knows next
  | branch _ yes no => arena.Knows yes ∧ arena.Knows no
  | prepend _ next => next < arena.size
  | link id next => id < arena.size ∧ arena.Knows next

instance (arena : Arena) (block : BlockRef) : Decidable (arena.Knows block) :=
  inferInstanceAs (Decidable (_ → _))

instance (arena : Arena) : (call : ArenaCall) → Decidable (call.Meets arena)
  | .newBlock _ => .isTrue trivial
  | .jump next _ => inferInstanceAs (Decidable (arena.Knows next))
  | .branch _ yes no => inferInstanceAs (Decidable (arena.Knows yes ∧ arena.Knows no))
  | .prepend _ next => inferInstanceAs (Decidable (next < arena.size))
  | .link id next => inferInstanceAs (Decidable (id < arena.size ∧ arena.Knows next))

/-- The code of the block that a call allocates, whether or not it is rejected afterwards. -/
def ArenaCall.allocated : ArenaCall → List (List Instruction)
  | newBlock code => [code]
  | jump _ code => [code]
  | branch cond _ _ => if cond = .none then [] else [[]]
  | prepend code _ => if code.isEmpty then [] else [code]
  | link _ _ => []

namespace Arena

def after (arena : Arena) (call : ArenaCall) : Arena := (arena.perform call).1

def afterAll (arena : Arena) (calls : List ArenaCall) : Arena := calls.foldl after arena

def Admits : Arena → List ArenaCall → Prop
  | _, [] => True
  | arena, call :: rest => call.Meets arena ∧ (arena.after call).Admits rest

instance admitsDecidable : (arena : Arena) → (calls : List ArenaCall) → Decidable (arena.Admits calls)
  | _, [] => .isTrue trivial
  | arena, call :: rest =>
    have := admitsDecidable (arena.after call) rest
    inferInstanceAs (Decidable (call.Meets arena ∧ (arena.after call).Admits rest))

theorem linkTo_cases (arena : Arena) (id : BlockIndex) (next : BlockRef) :
    (∃ linked, arena.owns next = true ∧ arena.link id next.index = .ok linked ∧
      arena.perform (.link id next) = (linked, .ok id)) ∨
    ∃ cause, arena.perform (.link id next) = (arena, .error cause) := by
  simp only [perform, linkTo]
  cases found : arena.get? id with
  | none => exact .inr ⟨_, rfl⟩
  | some block =>
      by_cases exits : block.isExit = true
      · by_cases owned : arena.owns next = true
        · refine .inl ⟨_, owned, link_eq found exits next.index, ?_⟩
          simp [exits, owned, link_eq found exits next.index]
        · exact .inr ⟨.foreignBlock next.id, by simp [exits, owned]⟩
      · exact .inr ⟨.alreadyLinked block.id, by simp [exits]⟩

/-- A call keeps the books, also when it is rejected half-way. -/
theorem Kept.after {arena : Arena} (kept : arena.Kept []) {call : ArenaCall} (meets : call.Meets arena) :
    (arena.after call).Kept [] := by
  cases call with
  | newBlock code => exact kept.newBlock code
  | jump next code =>
      simp only [Arena.after, perform, jumpTo]
      split
      · exact kept.jump code (meets ‹_›)
      · exact kept.newBlock code
  | branch cond yes no =>
      simp only [Arena.after, perform, branchTo]
      split
      · exact kept
      split
      · exact kept.newBlock []
      split
      · exact kept.newBlock []
      · exact kept.branch ‹_› (meets.1 (by simpa using ‹¬(!arena.owns yes) = true›))
          (meets.2 (by simpa using ‹¬(!arena.owns no) = true›))
  | prepend code next => exact kept.prepend code meets
  | link id next =>
      rw [Arena.after]
      rcases arena.linkTo_cases id next with ⟨linked, owned, done, answered⟩ | ⟨cause, rejected⟩
      · rw [answered]
        exact kept.link (meets.2 owned) done
      · rw [rejected]
        exact kept

theorem Kept.afterAll {arena : Arena} (kept : arena.Kept []) {calls : List ArenaCall}
    (admits : arena.Admits calls) : (arena.afterAll calls).Kept [] := by
  induction calls generalizing arena with
  | nil => exact kept
  | cons call rest ih => exact ih (kept.after admits.1) admits.2

theorem extends_afterAll (arena : Arena) (calls : List ArenaCall) : arena.Extends (arena.afterAll calls) := by
  induction calls generalizing arena with
  | nil => exact Extends.refl arena
  | cons call rest ih => exact (extends_perform arena call).trans (ih _)

def codes (arena : Arena) : List (List Instruction) := arena.blocks.toList.map Block.code

theorem codes_allocate (arena : Arena) (code : List Instruction) (transfer : Transfer) :
    (arena.allocate code transfer).1.codes = arena.codes ++ [code] := by
  simp [codes, allocate]

theorem codes_modify (arena : Arena) (id : BlockIndex) (change : Block → Block)
    (sameCode : ∀ block, (change block).code = block.code) :
    codes { arena with blocks := arena.blocks.modify id change } = arena.codes := by
  refine List.ext_getElem? fun index => ?_
  simp only [codes, List.getElem?_map, Array.getElem?_toList, Array.getElem?_modify]
  split
  · rw [Option.map_map]
    exact congrFun (congrArg Option.map (funext sameCode)) _
  · rfl

theorem codes_countEdge (arena : Arena) (target : BlockIndex) : (arena.countEdge target).codes = arena.codes :=
  codes_modify arena target _ fun _ => rfl

theorem codes_redirect (arena : Arena) (id next : BlockIndex) : (arena.redirect id next).codes = arena.codes :=
  codes_modify arena id _ fun _ => rfl

theorem codes_jump (arena : Arena) (next : BlockIndex) (code : List Instruction) :
    (arena.jump next code).1.codes = arena.codes ++ [code] :=
  (codes_countEdge _ _).trans (codes_allocate arena code _)

theorem codes_link {arena linked : Arena} {id next : BlockIndex} (done : arena.link id next = .ok linked) :
    linked.codes = arena.codes := by
  cases found : arena.get? id with
  | none => simp [link, found] at done
  | some block =>
      by_cases exits : block.isExit = true
      · rw [link_eq found exits] at done
        cases done
        rw [codes_countEdge, codes_redirect]
      · simp [link, found, exits] at done

theorem codes_after (arena : Arena) (call : ArenaCall) :
    (arena.after call).codes = arena.codes ++ call.allocated := by
  cases call with
  | newBlock code => exact codes_allocate arena code .exit
  | jump next code =>
      simp only [after, perform, jumpTo]
      split
      · exact codes_jump arena next.index code
      · exact codes_allocate arena code .exit
  | branch cond yes no =>
      simp only [after, perform, branchTo, ArenaCall.allocated]
      split
      · exact (List.append_nil _).symm
      split
      · exact codes_allocate arena [] .exit
      split
      · exact codes_allocate arena [] .exit
      · exact ((codes_countEdge _ _).trans (codes_countEdge _ _)).trans (codes_allocate arena [] _)
  | prepend code next =>
      simp only [after, perform, prepend, ArenaCall.allocated]
      split
      · exact (List.append_nil _).symm
      · exact codes_jump arena next code
  | link id next =>
      rw [after, ArenaCall.allocated, List.append_nil]
      rcases arena.linkTo_cases id next with ⟨linked, owned, done, answered⟩ | ⟨cause, rejected⟩
      · rw [answered]
        exact codes_link done
      · rw [rejected]

theorem codes_afterAll (arena : Arena) (calls : List ArenaCall) :
    (arena.afterAll calls).codes = arena.codes ++ calls.flatMap ArenaCall.allocated := by
  induction calls generalizing arena with
  | nil => exact (List.append_nil _).symm
  | cons call rest ih =>
      change ((arena.after call).afterAll rest).codes = _
      rw [ih, codes_after, List.flatMap_cons, List.append_assoc]

/-- Every block carries the number of its position. -/
def Numbered (arena : Arena) : Prop :=
  ∀ index block, arena.get? index = some block → block.id = .ofIndex index

theorem Numbered.allocate {arena : Arena} (numbered : arena.Numbered) (code : List Instruction)
    (transfer : Transfer) : (arena.allocate code transfer).1.Numbered := by
  intro index block found
  rw [get?_allocate] at found
  split at found
  · rename_i isNew
    cases found
    rw [isNew]
  · exact numbered index block found

theorem Numbered.countEdge {arena : Arena} (numbered : arena.Numbered) (target : BlockIndex) :
    (arena.countEdge target).Numbered := by
  intro index block found
  rw [get?_countEdge, Option.map_eq_some_iff] at found
  obtain ⟨old, oldFound, rfl⟩ := found
  have isNumber := numbered index old oldFound
  split
  · exact isNumber
  · exact isNumber

theorem Numbered.link {arena linked : Arena} {source next : BlockIndex} (numbered : arena.Numbered)
    (done : arena.link source next = .ok linked) : linked.Numbered := by
  cases found : arena.get? source with
  | none => simp [Arena.link, found] at done
  | some block =>
      by_cases exits : block.isExit = true
      · rw [link_eq found exits] at done
        cases done
        refine Numbered.countEdge ?_ next
        intro index later laterFound
        rw [get?_redirect, Option.map_eq_some_iff] at laterFound
        obtain ⟨old, oldFound, rfl⟩ := laterFound
        have isNumber := numbered index old oldFound
        split
        · exact isNumber
        · exact isNumber
      · simp [Arena.link, found, exits] at done

theorem Numbered.after {arena : Arena} (numbered : arena.Numbered) (call : ArenaCall) :
    (arena.after call).Numbered := by
  cases call with
  | newBlock code => exact numbered.allocate code .exit
  | jump next code =>
      simp only [Arena.after, perform, jumpTo]
      split
      · exact (numbered.allocate code _).countEdge _
      · exact numbered.allocate code .exit
  | branch cond yes no =>
      simp only [Arena.after, perform, branchTo]
      split
      · exact numbered
      split
      · exact numbered.allocate [] .exit
      split
      · exact numbered.allocate [] .exit
      · exact ((numbered.allocate [] _).countEdge _).countEdge _
  | prepend code next =>
      simp only [Arena.after, perform, prepend]
      split
      · exact numbered
      · exact (numbered.allocate code _).countEdge _
  | link source next =>
      rw [Arena.after]
      rcases arena.linkTo_cases source next with ⟨linked, -, done, answered⟩ | ⟨cause, rejected⟩
      · rw [answered]
        exact numbered.link done
      · rw [rejected]
        exact numbered

theorem numbered_afterAll (tag : Nat) (calls : List ArenaCall) :
    ((Arena.empty tag).afterAll calls).Numbered := by
  have kept : ∀ arena : Arena, arena.Numbered → (arena.afterAll calls).Numbered := by
    induction calls with
    | nil => exact fun _ numbered => numbered
    | cons call rest ih => exact fun _ numbered => ih _ (numbered.after call)
  exact kept _ (by simp [Numbered, empty, get?])

theorem afterAll_append (arena : Arena) (calls later : List ArenaCall) :
    arena.afterAll (calls ++ later) = (arena.afterAll calls).afterAll later :=
  List.foldl_append

theorem index_ofIndex {index : BlockIndex} (small : index < UInt32.size) : (BlockId.ofIndex index).index = index :=
  UInt32.toNat_ofNat_of_lt' small

/-- The numbers of the first 2 ^ 32 blocks tell them apart. -/
theorem Numbered.find? {arena : Arena} (numbered : arena.Numbered) {index : BlockIndex} {block : Block}
    (found : arena.get? index = some block) (small : index < UInt32.size) :
    block.id.index = index ∧ arena.find? block.id = some block := by
  have same : block.id.index = index := by rw [numbered index block found, index_ofIndex small]
  exact ⟨same, by rw [Arena.find?, same, found]⟩

theorem length_codes (arena : Arena) : arena.codes.length = arena.size := by
  simp [codes, size]

theorem length_allocated_le (calls : List ArenaCall) :
    (calls.flatMap ArenaCall.allocated).length ≤ calls.length := by
  induction calls with
  | nil => exact Nat.le_refl 0
  | cons call rest ih =>
      have here : call.allocated.length ≤ 1 := by
        cases call with
        | branch cond yes no =>
            rw [ArenaCall.allocated]
            split <;> simp
        | prepend code next =>
            rw [ArenaCall.allocated]
            split <;> simp
        | _ => simp [ArenaCall.allocated]
      rw [List.flatMap_cons, List.length_append, List.length_cons]
      omega

theorem answer_of_allocated {arena : Arena} {call : ArenaCall} {id : BlockIndex}
    (answered : (arena.perform call).2 = .ok id) (allocates : call.allocated ≠ []) : id = arena.size := by
  cases call with
  | newBlock code =>
      cases answered
      rfl
  | jump next code =>
      simp only [perform, jumpTo] at answered
      split at answered
      · cases answered
        rfl
      · cases answered
  | branch cond yes no =>
      simp only [perform, branchTo] at answered
      repeat' split at answered
      · cases answered
      · cases answered
      · cases answered
      · cases answered
        rfl
  | prepend code next =>
      simp only [ArenaCall.allocated] at allocates
      simp only [perform, prepend] at answered
      split at allocates
      · contradiction
      · rename_i filled
        rw [if_neg filled] at answered
        cases answered
        rfl
  | link id next => exact absurd rfl allocates

theorem get?_newBlock {arena : Arena} {id : BlockIndex} (code : List Instruction) (old : id < arena.size) :
    (arena.newBlock code).1.get? id = arena.get? id := by
  rw [newBlock, get?_allocate, if_neg (Nat.ne_of_lt old)]

theorem get?_of_rejected {arena : Arena} {call : ArenaCall} {cause : ArenaError} {id : BlockIndex}
    (rejected : (arena.perform call).2 = .error cause) (old : id < arena.size) :
    (arena.after call).get? id = arena.get? id := by
  cases call with
  | newBlock code => cases rejected
  | jump next code =>
      simp only [after, perform, jumpTo] at rejected ⊢
      split
      · rw [if_pos ‹_›] at rejected
        cases rejected
      · exact get?_newBlock code old
  | branch cond yes no =>
      simp only [after, perform, branchTo] at rejected ⊢
      split
      · rfl
      rw [if_neg ‹_›] at rejected
      split
      · exact get?_newBlock [] old
      rw [if_neg ‹_›] at rejected
      split
      · exact get?_newBlock [] old
      · rw [if_neg ‹_›] at rejected
        cases rejected
  | prepend code next => cases rejected
  | link here next =>
      rw [after]
      rcases arena.linkTo_cases here next with ⟨linked, -, -, answered⟩ | ⟨cause, isRejected⟩
      · rw [answered] at rejected
        cases rejected
      · rw [isRejected]

theorem Kept.isShared_iff {arena : Arena} (kept : arena.Kept []) {id : BlockIndex} {block : Block}
    (found : arena.get? id = some block) : block.isShared = true ↔ 2 ≤ arena.edges.count id := by
  have counted := kept.counted id block found
  rw [List.count_nil, Nat.add_zero] at counted
  rw [← counted, Block.isShared, decide_eq_true_eq]
  exact Iff.rfl

theorem successors_inside {arena : Arena} (kept : arena.Kept []) {id next : BlockIndex} {block : Block}
    (found : arena.get? id = some block) (isNext : next ∈ block.successors) : next < arena.size := by
  refine kept.inside next (List.mem_flatMap.mpr ⟨block, ?_, isNext⟩)
  exact Array.mem_toList_iff.mpr (Array.mem_of_getElem? found)

theorem Extends.successors {before after : Arena} (extended : before.Extends after) {id : BlockIndex}
    {block : Block} (found : before.get? id = some block) :
    ∃ later, after.get? id = some later ∧ later.code = block.code ∧
      (block.successors ≠ [] → later.successors = block.successors ∧ later.cond = block.cond) := by
  obtain ⟨later, laterFound, sameCode, sameTransfer⟩ := extended id block found
  refine ⟨later, laterFound, sameCode, fun linked => ?_⟩
  have kept := sameTransfer fun exits => linked (by rw [Block.successors, exits]; rfl)
  rw [Block.successors, Block.cond, kept]
  exact ⟨rfl, rfl⟩

/-- The books of an arena are exact after any calls, rejected ones included. Blocks carry the numbers of their
positions in the order of their allocation, and a call hands out the block that it has allocated. Successors
are blocks of the arena and stay once they are set, only branches have conditions, and a block is shared
exactly if two edges or more lead to it. A rejected call leaves all earlier blocks as they are. -/
theorem bookkeeping_exact (tag : Nat) (calls later : List ArenaCall)
    (admitted : (Arena.empty tag).Admits calls) :
    let arena := (Arena.empty tag).afterAll calls
    arena.codes = calls.flatMap ArenaCall.allocated ∧ arena.size ≤ calls.length ∧
      (∀ call index, (arena.perform call).2 = .ok index → call.allocated ≠ [] → index = arena.size) ∧
      (∀ index block, arena.get? index = some block →
        block.id = .ofIndex index ∧
        (index < UInt32.size → block.id.index = index ∧ arena.find? block.id = some block) ∧
        (∀ next ∈ block.successors, next < arena.size) ∧
        (block.cond ≠ .none ↔ block.successors.length = 2) ∧
        (block.isShared = true ↔ 2 ≤ arena.edges.count index) ∧
        ∃ last, (arena.afterAll later).get? index = some last ∧ last.id = block.id ∧ last.code = block.code ∧
          (block.successors ≠ [] → last.successors = block.successors ∧ last.cond = block.cond)) ∧
      ∀ call cause, (arena.perform call).2 = .error cause →
        ∀ index < arena.size, (arena.after call).get? index = arena.get? index := by
  intro arena
  have kept : arena.Kept [] := (kept_empty tag).afterAll admitted
  have numbered : arena.Numbered := numbered_afterAll tag calls
  have stillNumbered : (arena.afterAll later).Numbered := by
    rw [← afterAll_append]
    exact numbered_afterAll tag (calls ++ later)
  have allocations : arena.codes = calls.flatMap ArenaCall.allocated := codes_afterAll (Arena.empty tag) calls
  have few : arena.size ≤ calls.length := by
    rw [← length_codes, allocations]
    exact length_allocated_le calls
  refine ⟨allocations, few, fun call index => answer_of_allocated, ?_,
    fun call cause rejected index => get?_of_rejected rejected⟩
  intro index block found
  obtain ⟨last, lastFound, same⟩ := (extends_afterAll arena later).successors found
  have sameId : last.id = block.id := by
    rw [stillNumbered index last lastFound, numbered index block found]
  exact ⟨numbered index block found, numbered.find? found, fun next => successors_inside kept found,
    kept.conditional index block found, kept.isShared_iff found, last, lastFound, sameId, same⟩

def loopCalls : List ArenaCall :=
  [.newBlock [], .jump { arena := 8, index := 5 } [], .branch .none { arena := 7, index := 0 } { arena := 7, index := 0 },
    .branch .ifTrue { arena := 7, index := 0 } { arena := 7, index := 0 },
    .branch .ifTrue { arena := 7, index := 0 } { arena := 8, index := 5 }, .link 0 { arena := 7, index := 2 },
    .link 0 { arena := 7, index := 1 }, .prepend [.const 1] 0, .prepend [] 4]

theorem bookkeeping_exact_loop :
    (Arena.empty 7).Admits loopCalls ∧
      ((Arena.empty 7).afterAll loopCalls).codes = [[], [], [], [], [.const 1]] ∧
      ∃ block, ((Arena.empty 7).afterAll loopCalls).find? ⟨0⟩ = some block ∧ block.id.index = 0 ∧
        block.successors = [2] ∧ block.incoming = 3 ∧ block.isShared = true := by
  have admitted : (Arena.empty 7).Admits loopCalls := by decide
  obtain ⟨codes, -, -, blocks, -⟩ := bookkeeping_exact 7 loopCalls [] admitted
  obtain ⟨-, named, -, -, shared, -⟩ := blocks 0 _ rfl
  obtain ⟨isFirst, found⟩ := named (by decide)
  exact ⟨admitted, codes, _, found, isFirst, rfl, rfl, shared.mpr (by decide)⟩

end Arena

end Assay.Graph
