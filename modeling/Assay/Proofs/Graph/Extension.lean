import Assay.Graph.Arena

/-!
Operations of an arena only extend its graph: blocks keep their code, and a block that has successors
keeps them.
-/

namespace Assay.Graph

namespace Arena

/-- Every block of `before` is in `after` with its code, and with its transfer unless it was an exit. -/
def Extends (before after : Arena) : Prop :=
  ∀ id block, before.get? id = some block → ∃ later, after.get? id = some later ∧
    later.code = block.code ∧ (block.transfer ≠ .exit → later.transfer = block.transfer)

theorem Extends.refl (arena : Arena) : Extends arena arena :=
  fun _ block found => ⟨block, found, rfl, fun _ => rfl⟩

theorem Extends.trans {first second third : Arena} (earlier : Extends first second)
    (later : Extends second third) : Extends first third := by
  intro id block found
  obtain ⟨middle, middleFound, middleCode, middleTransfer⟩ := earlier id block found
  obtain ⟨last, lastFound, lastCode, lastTransfer⟩ := later id middle middleFound
  refine ⟨last, lastFound, lastCode.trans middleCode, fun linked => ?_⟩
  have kept := middleTransfer linked
  rw [lastTransfer (by rw [kept]; exact linked), kept]

theorem Extends.size_le {before after : Arena} (extended : before.Extends after) :
    before.size ≤ after.size := by
  rcases Nat.eq_zero_or_pos before.size with empty | filled
  · omega
  · have last : before.size - 1 < before.size := by omega
    have found : before.get? (before.size - 1) = some before.blocks[before.size - 1] :=
      Array.getElem?_eq_getElem last
    obtain ⟨later, laterFound, -⟩ := extended _ _ found
    have inside : before.size - 1 < after.size := (Array.getElem?_eq_some_iff.mp laterFound).1
    omega

theorem Extends.still {before after : Arena} {bound : Nat} (extended : before.Extends after)
    (within : bound ≤ before.size) : bound ≤ after.size :=
  Nat.le_trans within extended.size_le

def Holds (arena : Arena) (id : BlockIndex) (code : List Instruction) (transfer : Transfer) : Prop :=
  ∃ block, arena.get? id = some block ∧ block.code = code ∧ block.transfer = transfer

theorem Holds.extends {before after : Arena} {id : BlockIndex} {code : List Instruction}
    {transfer : Transfer} (holds : before.Holds id code transfer) (linked : transfer ≠ .exit)
    (extended : before.Extends after) : after.Holds id code transfer := by
  obtain ⟨block, found, rfl, rfl⟩ := holds
  obtain ⟨later, laterFound, sameCode, sameTransfer⟩ := extended id block found
  exact ⟨later, laterFound, sameCode, sameTransfer linked⟩

theorem get?_allocate (arena : Arena) (code : List Instruction) (transfer : Transfer)
    (index : BlockIndex) :
    (arena.allocate code transfer).1.get? index =
      if index = arena.size then some { id := arena.size, code, transfer, incoming := 0 }
      else arena.get? index := by
  simp only [allocate, get?, size, Array.getElem?_push]
  rfl

theorem get?_countEdge (arena : Arena) (target id : BlockIndex) :
    (arena.countEdge target).get? id = (arena.get? id).map fun block =>
      if target = id then { block with incoming := block.incoming + 1 } else block := by
  simp only [countEdge, get?, Array.getElem?_modify]
  split
  · rfl
  · simp

theorem extends_allocate (arena : Arena) (code : List Instruction) (transfer : Transfer) :
    arena.Extends (arena.allocate code transfer).1 := by
  intro id block found
  have old : id ≠ arena.size := Nat.ne_of_lt (Array.getElem?_eq_some_iff.mp found).1
  exact ⟨block, by rw [get?_allocate, if_neg old, found], rfl, fun _ => rfl⟩

theorem Holds.countEdge {arena : Arena} {id : BlockIndex} {code : List Instruction}
    {transfer : Transfer} (holds : arena.Holds id code transfer) (target : BlockIndex) :
    (arena.countEdge target).Holds id code transfer := by
  obtain ⟨block, found, sameCode, sameTransfer⟩ := holds
  refine ⟨_, by rw [get?_countEdge, found]; rfl, ?_, ?_⟩
  · split
    · exact sameCode
    · exact sameCode
  · split
    · exact sameTransfer
    · exact sameTransfer

theorem extends_countEdge (arena : Arena) (target : BlockIndex) :
    arena.Extends (arena.countEdge target) := by
  intro id block found
  obtain ⟨later, laterFound, sameCode, sameTransfer⟩ :=
    Holds.countEdge ⟨block, found, rfl, rfl⟩ target
  exact ⟨later, laterFound, sameCode, fun _ => sameTransfer⟩

theorem holds_allocate (arena : Arena) (code : List Instruction) (transfer : Transfer) :
    (arena.allocate code transfer).1.Holds (arena.allocate code transfer).2 code transfer :=
  ⟨_, (get?_allocate arena code transfer arena.size).trans (if_pos rfl), rfl, rfl⟩

theorem extends_newBlock (arena : Arena) (code : List Instruction) :
    arena.Extends (arena.newBlock code).1 :=
  extends_allocate _ _ _

theorem holds_newBlock (arena : Arena) (code : List Instruction) :
    (arena.newBlock code).1.Holds (arena.newBlock code).2 code .exit :=
  holds_allocate _ _ _

theorem extends_jump (arena : Arena) (next : BlockIndex) (code : List Instruction) :
    arena.Extends (arena.jump next code).1 :=
  (extends_allocate _ _ _).trans (extends_countEdge _ _)

theorem holds_jump (arena : Arena) (next : BlockIndex) (code : List Instruction) :
    (arena.jump next code).1.Holds (arena.jump next code).2 code (.jump next) :=
  (holds_allocate _ _ _).countEdge _

theorem extends_branch (arena : Arena) (cond : Cond) (yes no : BlockIndex) :
    arena.Extends (arena.branch cond yes no).1 :=
  ((extends_allocate _ _ _).trans (extends_countEdge _ _)).trans (extends_countEdge _ _)

theorem holds_branch (arena : Arena) (cond : Cond) (yes no : BlockIndex) :
    (arena.branch cond yes no).1.Holds (arena.branch cond yes no).2 [] (.branch cond yes no) :=
  ((holds_allocate _ _ _).countEdge _).countEdge _

theorem extends_prepend (arena : Arena) (code : List Instruction) (next : BlockIndex) :
    arena.Extends (arena.prepend code next).1 := by
  unfold prepend
  split
  · exact Extends.refl _
  · exact extends_jump _ _ _

theorem holds_prepend (arena : Arena) {code : List Instruction} (some : code ≠ []) (next : BlockIndex) :
    (arena.prepend code next).1.Holds (arena.prepend code next).2 code (.jump next) := by
  have present : code.isEmpty = false := by simpa using some
  simp only [prepend, present, Bool.false_eq_true, if_false]
  exact holds_jump _ _ _

theorem link_ok {arena linked : Arena} {id next : BlockIndex} (done : arena.link id next = .ok linked) :
    arena.Extends linked ∧ ∃ block, arena.get? id = some block ∧
      linked.Holds id block.code (.jump next) := by
  simp only [link] at done
  split at done
  · rename_i block found
    split at done
    · rename_i unlinked
      simp only [Except.ok.injEq] at done
      subst done
      have isExit : block.transfer = .exit := by
        simp only [Block.isExit, Transfer.isExit] at unlinked
        split at unlinked
        · assumption
        · simp at unlinked
      have changed : ∀ other old, arena.get? other = some old →
          ∃ new, ({ arena with
              blocks := arena.blocks.modify id fun block =>
                { block with transfer := .jump next } } : Arena).get? other = some new ∧
            new.code = old.code ∧
            new.transfer = if id = other then .jump next else old.transfer := by
        intro other old oldFound
        simp only [get?] at oldFound
        simp only [get?, Array.getElem?_modify, oldFound]
        split
        · exact ⟨_, rfl, rfl, rfl⟩
        · exact ⟨_, rfl, rfl, rfl⟩
      constructor
      · refine Extends.trans ?_ (extends_countEdge _ _)
        intro other old oldFound
        obtain ⟨new, newFound, sameCode, newTransfer⟩ := changed other old oldFound
        refine ⟨new, newFound, sameCode, fun hasNext => ?_⟩
        rw [newTransfer, if_neg]
        intro same
        subst same
        rw [found] at oldFound
        exact hasNext (by rw [← Option.some.inj oldFound]; exact isExit)
      · obtain ⟨new, newFound, sameCode, newTransfer⟩ := changed id block found
        rw [if_pos rfl] at newTransfer
        exact ⟨block, found, Holds.countEdge ⟨new, newFound, sameCode, newTransfer⟩ _⟩
    · simp at done
  · simp at done

theorem extends_perform (arena : Arena) (call : ArenaCall) :
    arena.Extends (arena.perform call).1 := by
  cases call with
  | newBlock code => exact extends_newBlock _ _
  | jump next code =>
      simp only [perform, jumpTo]
      split
      · exact extends_jump _ _ _
      · exact extends_newBlock _ _
  | branch cond yes no =>
      simp only [perform, branchTo]
      split
      · exact Extends.refl _
      · split
        · exact extends_newBlock _ _
        · split
          · exact extends_newBlock _ _
          · exact extends_branch _ _ _ _
  | prepend code next => exact extends_prepend _ _ _
  | link id next =>
      simp only [perform]
      split
      · rename_i linked done
        simp only [linkTo] at done
        split at done
        · split at done
          · simp at done
          · split at done
            · exact (link_ok done).1
            · simp at done
        · simp at done
      · exact Extends.refl _

end Arena

def Instruction.isArgumentless : Instruction → Bool
  | virtualCall _ _ args _ => args = 0
  | _ => true

def NoArguments (code : List Instruction) : Prop := code.all Instruction.isArgumentless = true

namespace Arena

def Argumentless (arena : Arena) : Prop :=
  ∀ id block, arena.get? id = some block → NoArguments block.code

theorem argumentless_empty (tag : Nat) : (Arena.empty tag).Argumentless := by
  intro id block found
  simp [Arena.empty, get?] at found

theorem Argumentless.allocate {arena : Arena} (argumentless : arena.Argumentless)
    {code : List Instruction} (noArguments : NoArguments code) (transfer : Transfer) :
    (arena.allocate code transfer).1.Argumentless := by
  intro id block found
  rw [get?_allocate] at found
  split at found
  · obtain rfl := Option.some.inj found
    exact noArguments
  · exact argumentless id block found

theorem Argumentless.countEdge {arena : Arena} (argumentless : arena.Argumentless)
    (target : BlockIndex) : (arena.countEdge target).Argumentless := by
  intro id block found
  rw [get?_countEdge, Option.map_eq_some_iff] at found
  obtain ⟨old, oldFound, rfl⟩ := found
  have kept := argumentless id old oldFound
  split
  · exact kept
  · exact kept

theorem Argumentless.branch {arena : Arena} (argumentless : arena.Argumentless) (cond : Cond)
    (yes no : BlockIndex) : (arena.branch cond yes no).1.Argumentless := by
  have noArguments : NoArguments [] := rfl
  exact ((argumentless.allocate noArguments _).countEdge _).countEdge _

theorem Argumentless.prepend {arena : Arena} (argumentless : arena.Argumentless)
    {code : List Instruction} (noArguments : NoArguments code) (next : BlockIndex) :
    (arena.prepend code next).1.Argumentless := by
  unfold Arena.prepend
  split
  · exact argumentless
  · exact (argumentless.allocate noArguments _).countEdge _

theorem Argumentless.link {arena linked : Arena} (argumentless : arena.Argumentless)
    {id next : BlockIndex} (done : arena.link id next = .ok linked) : linked.Argumentless := by
  simp only [Arena.link] at done
  split at done
  · split at done
    · simp only [Except.ok.injEq] at done
      subst done
      apply Argumentless.countEdge
      intro other block found
      simp only [get?, Array.getElem?_modify] at found
      split at found
      · rw [Option.map_eq_some_iff] at found
        obtain ⟨old, oldFound, rfl⟩ := found
        exact argumentless other old oldFound
      · exact argumentless other block found
    · simp at done
  · simp at done

end Arena

end Assay.Graph
