import Assay.Lowering.Command
import Assay.Proofs.Lowering.Expressions

/-!
The graph of a command does what the command does: where the command ends, the walk through its graph
comes to the block for that ending, and if the command does not end, neither does the walk.
-/

namespace Assay.Lowering

open Assay.Graph Machine Syntax Typing

theorem extending_lowerCommand (resolution : Resolution) (exit : BlockIndex) (command : Command)
    (next : BlockIndex) : Extending (lowerCommand resolution exit command next) := by
  induction command generalizing next with
  | skip position => rw [lowerCommand]; exact extending_pure _
  | seq position first second firstIh secondIh =>
      rw [lowerCommand]
      exact extending_bind (secondIh _) fun rest => firstIh _
  | ifThen position condition yes ih =>
      rw [lowerCommand]
      exact extending_bind (ih _) fun whenTrue => extending_lowerExpression _ _ _
  | ifElse position condition yes no yesIh noIh =>
      rw [lowerCommand]
      exact extending_bind (yesIh _) fun whenTrue =>
        extending_bind (noIh _) fun whenFalse => extending_lowerExpression _ _ _
  | loop position condition body ih =>
      rw [lowerCommand]
      exact extending_bind (extending_newBlock rfl) fun pivot =>
        extending_bind (ih _) fun round =>
        extending_bind (extending_lowerExpression _ _ _) fun test =>
        extending_bind (extending_link _ _) fun _ => extending_pure _
  | ret position => rw [lowerCommand]; exact extending_pure _
  | assign position field value =>
      rw [lowerCommand]
      split
      · exact extending_throw _
      · exact extending_bind (extending_prepend _ rfl) fun store =>
          extending_bind (extending_lowerExpression _ _ _) fun compute => extending_prepend _ rfl
  | assert position condition =>
      rw [lowerCommand]
      split
      · exact extending_bind (extending_newBlock rfl) fun failed => extending_lowerExpression _ _ _
      · exact extending_throw _

theorem newBlock_ok {code : List Instruction} {id : BlockIndex} {start finish : Arena}
    (done : (newBlock code).run start = (.ok id, finish)) : finish.Holds id code .exit := by
  have same : (Except.ok (start.newBlock code).2, (start.newBlock code).1) =
      (Except.ok id, finish) := done
  simp only [Prod.mk.injEq, Except.ok.injEq] at same
  rw [← same.1, ← same.2]
  exact Arena.holds_newBlock start code

theorem link_run_ok {id next : BlockIndex} {start finish : Arena}
    (done : (link id next).run start = (.ok (), finish)) : start.link id next = .ok finish := by
  rw [link_run] at done
  cases linkedBy : start.link id next with
  | ok linked =>
      rw [linkedBy] at done
      have same : ((Except.ok () : Except LoweringError Unit), linked) = (.ok (), finish) := done
      rw [(Prod.mk.inj same).2]
  | error cause =>
      rw [linkedBy] at done
      have failed : ((Except.error (.arena cause) : Except LoweringError Unit), start) =
          (.ok (), finish) := done
      simp at failed

theorem lowerLoop_ok {resolution : Resolution} {exit next root : BlockIndex} {position : Position}
    {condition : Expression} {body : Command} {start finish : Arena}
    (lowered : (lowerCommand resolution exit (.loop position condition body) next).run start =
      (.ok root, finish)) :
    ∃ first middle last round test,
      (lowerCommand resolution exit body root).run first = (.ok round, middle) ∧
      (lowerExpression resolution condition (.test round next)).run middle = (.ok test, last) ∧
      last.Extends finish ∧ finish.Holds root [] (.jump test) := by
  rw [lowerCommand] at lowered
  obtain ⟨pivot, first, created, lowered⟩ := bind_ok lowered
  obtain ⟨round, middle, bodyLowered, lowered⟩ := bind_ok lowered
  obtain ⟨test, last, tested, lowered⟩ := bind_ok lowered
  obtain ⟨done, linked, linkDone, lowered⟩ := bind_ok lowered
  obtain ⟨rfl, rfl⟩ := pure_ok lowered
  obtain ⟨extended, block, found, holds⟩ := Arena.link_ok (link_run_ok linkDone)
  have before := ((extending_lowerCommand _ _ _ _).ok bodyLowered).trans
    ((extending_lowerExpression _ _ _).ok tested)
  obtain ⟨old, oldFound, oldCode, -⟩ := newBlock_ok created
  obtain ⟨later, laterFound, sameCode, -⟩ := before _ old oldFound
  obtain rfl : later = block := by simpa [found, eq_comm] using laterFound
  rw [sameCode, oldCode] at holds
  exact ⟨first, middle, last, round, test, bodyLowered, tested, extended, holds⟩

def Arrives (arena : Arena) (exit next : BlockIndex) : Ending → BlockIndex → Prop
  | .done, id => id = next
  | .returned, id => id = exit
  | .failed position, id => HasCode arena id (verdict (failureMessage position) 1)

theorem Arrives.elsewhere {arena : Arena} {exit next other id : BlockIndex} {ending : Ending}
    (arrives : Arrives arena exit next ending id) (stops : ending ≠ .done) :
    Arrives arena exit other ending id := by
  cases ending with
  | done => exact absurd rfl stops
  | returned => exact arrives
  | failed position => exact arrives

variable {scene : Scene} {property : State → Prop}

theorem Scene.jump_leads (calm : scene.Calm property) {store : Store}
    (typed : Typed scene.types store) {id next : BlockIndex}
    (holds : scene.arena.Holds id [] (.jump next)) :
    scene.Leads property (scene.enter id store []) (scene.enter next store []) := by
  unfold Scene.enter Scene.Leads
  rw [Walk.enter_holds holds]
  exact Leads.jump rfl next (calm _ _ typed)

theorem Scene.assign_leads (ready : scene.Ready) (calm : scene.Calm property) {store : Store}
    (typed : Typed scene.types store) {root compute put next : BlockIndex} {owner field : String}
    {datum : Datum} (declared : (scene.types field).isSome)
    (loads : scene.arena.Holds root [loadReceiver] (.jump compute))
    (computes : scene.Leads property (scene.enter compute store [.object scene.address])
      (scene.enter put store [datum.toValue, .object scene.address]))
    (puts : scene.arena.Holds put [.putField owner field] (.jump next))
    (typedAfter : Typed scene.types (store.set field datum)) :
    scene.Leads property (scene.enter root store [])
      (scene.enter next (store.set field datum) []) := by
  obtain ⟨object, old, present, -, has⟩ := ready.field? typed declared
  have loaded : perform scene.machine.program { scene.frame with stack := [] }
      (scene.base.showing scene.address store) loadReceiver =
      .ok (scene.base.showing scene.address store,
        .proceed { scene.frame with stack := [.object scene.address] }) := by
    simp [perform, loadReceiver, local?, ready.receiver, Frame.push]
  have written : perform scene.machine.program
      { scene.frame with stack := [datum.toValue, .object scene.address] }
      (scene.base.showing scene.address store) (.putField owner field) =
      .ok (scene.base.showing scene.address (store.set field datum),
        .proceed { scene.frame with stack := [] }) := by
    simp only [perform, writeField, Frame.popObject, Frame.pop, bind, Except.bind, present,
      Option.getD_some, has, World.setField_showing]
    rfl
  have before : scene.Leads property (scene.enter root store [])
      (scene.enter compute store [.object scene.address]) := by
    unfold Scene.enter Scene.Leads
    rw [Walk.enter_holds loads]
    exact (Leads.instruction rfl loaded (calm _ _ typed)).trans
      (Leads.jump rfl compute (calm _ _ typed))
  have after : scene.Leads property
      (scene.enter put store [datum.toValue, .object scene.address])
      (scene.enter next (store.set field datum) []) := by
    unfold Scene.enter Scene.Leads
    rw [Walk.enter_holds puts]
    exact (Leads.instruction rfl written (calm _ _ typed)).trans
      (Leads.jump rfl next (calm _ _ typedAfter))
  exact (before.trans computes).trans after

theorem lowerAssign_ok {resolution : Resolution} {exit next root : BlockIndex} {position : Position}
    {field : String} {value : Expression} {start finish : Arena}
    (lowered : (lowerCommand resolution exit (.assign position field value) next).run start =
      (.ok root, finish)) :
    ∃ owner put first compute middle,
      (lowerExpression resolution value (.value put)).run first = (.ok compute, middle) ∧
      middle.Extends finish ∧ finish.Holds put [.putField owner field] (.jump next) ∧
      finish.Holds root [loadReceiver] (.jump compute) := by
  rw [lowerCommand] at lowered
  split at lowered
  · exact (throw_ok lowered).elim
  · rename_i owner known
    obtain ⟨put, first, putDone, lowered⟩ := bind_ok lowered
    obtain ⟨compute, middle, computed, loaded⟩ := bind_ok lowered
    have extended := prepend_extends loaded
    have before := ((extending_lowerExpression _ _ _).ok computed).trans extended
    exact ⟨owner, put, first, compute, middle, computed, extended,
      (prepend_ok putDone (by simp)).extends (by simp) before, prepend_ok loaded (by simp)⟩

theorem lowerAssert_ok {resolution : Resolution} {exit next root : BlockIndex} {position : Position}
    {condition : Expression} {start finish : Arena}
    (lowered : (lowerCommand resolution exit (.assert position condition) next).run start =
      (.ok root, finish)) :
    ∃ failed first, (lowerExpression resolution condition (.test next failed)).run first =
        (.ok root, finish) ∧
      HasCode finish failed (verdict (failureMessage position) 1) := by
  rw [lowerCommand] at lowered
  split at lowered
  · obtain ⟨failed, first, created, tested⟩ := bind_ok lowered
    have has : HasCode first failed (verdict (failureMessage position) 1) :=
      ⟨.exit, newBlock_ok created⟩
    exact ⟨failed, first, tested, has.extends ((extending_lowerExpression _ _ _).ok tested)⟩
  · exact (throw_ok lowered).elim

theorem assign_declared {checker : Checker} {position : Position} {field : String}
    {value : Expression} (fine : (checkCommand checker (.assign position field value)).2 = []) :
    (checker.fieldType? field).isSome := by
  simp only [checkCommand, List.append_eq_nil_iff] at fine
  obtain ⟨declared, found⟩ := fieldProblems_nil fine.1.2
  simp [Checker.fieldType?, found]

/-- If a command ends, the walk through its graph comes to the block for the ending. -/
theorem lowerCommand_leads (ready : scene.Ready) (calm : scene.Calm property) {checker : Checker}
    (types : scene.types = checker.fieldType?) {resolution : Resolution} {exit next root : BlockIndex}
    {command : Command} {start finish : Arena} {store final : Store} {ending : Ending}
    (runs : Runs command store ending final) (fine : (checkCommand checker command).2 = [])
    (typed : Typed scene.types store)
    (lowered : (lowerCommand resolution exit command next).run start = (.ok root, finish))
    (extended : finish.Extends scene.arena) :
    ∃ id, Arrives scene.arena exit next ending id ∧
      scene.Leads property (scene.enter root store []) (scene.enter id final []) := by
  have kept : ∀ {command : Command} {store final : Store} {ending : Ending},
      Runs command store ending final → (checkCommand checker command).2 = [] →
      Typed scene.types store → Typed scene.types final := by
    intro command store final ending runs fine typed
    rw [types] at typed ⊢
    exact runs_typed runs fine typed
  induction runs generalizing next root start finish with
  | skip =>
      rw [lowerCommand] at lowered
      obtain ⟨rfl, -⟩ := pure_ok lowered
      exact ⟨_, rfl, Leads.refl _⟩
  | seqDone firstRuns secondRuns firstIh secondIh =>
      obtain ⟨firstFine, secondFine⟩ := checkCommand_seq fine
      rw [lowerCommand] at lowered
      obtain ⟨rest, middle, secondLowered, firstLowered⟩ := bind_ok lowered
      have before := ((extending_lowerCommand _ _ _ _).ok firstLowered).trans extended
      obtain ⟨id, rfl, firstLeads⟩ := firstIh firstFine typed firstLowered extended
      obtain ⟨last, arrives, secondLeads⟩ :=
        secondIh secondFine (kept firstRuns firstFine typed) secondLowered before
      exact ⟨last, arrives, firstLeads.trans secondLeads⟩
  | seqStop firstRuns stops ih =>
      obtain ⟨firstFine, -⟩ := checkCommand_seq fine
      rw [lowerCommand] at lowered
      obtain ⟨rest, middle, secondLowered, firstLowered⟩ := bind_ok lowered
      obtain ⟨id, arrives, leads⟩ := ih firstFine typed firstLowered extended
      exact ⟨id, arrives.elsewhere stops, leads⟩
  | ifThenTrue holds _ ih =>
      simp only [checkCommand, List.append_eq_nil_iff] at fine
      rw [lowerCommand] at lowered
      obtain ⟨whenTrue, middle, yesLowered, tested⟩ := bind_ok lowered
      have before := ((extending_lowerExpression _ _ _).ok tested).trans extended
      have test := lowerExpression_settles ready calm typed tested extended holds [] true rfl
      obtain ⟨id, arrives, leads⟩ := ih fine.2 typed yesLowered before
      exact ⟨id, arrives, test.trans leads⟩
  | ifThenFalse holds =>
      rw [lowerCommand] at lowered
      obtain ⟨whenTrue, middle, yesLowered, tested⟩ := bind_ok lowered
      exact ⟨next, rfl, lowerExpression_settles ready calm typed tested extended holds [] false rfl⟩
  | ifElseTrue holds _ ih =>
      simp only [checkCommand, List.append_eq_nil_iff] at fine
      rw [lowerCommand] at lowered
      obtain ⟨whenTrue, first, yesLowered, lowered⟩ := bind_ok lowered
      obtain ⟨whenFalse, middle, noLowered, tested⟩ := bind_ok lowered
      have before := (((extending_lowerCommand _ _ _ _).ok noLowered).trans
        ((extending_lowerExpression _ _ _).ok tested)).trans extended
      have test := lowerExpression_settles ready calm typed tested extended holds [] true rfl
      obtain ⟨id, arrives, leads⟩ := ih fine.1.2 typed yesLowered before
      exact ⟨id, arrives, test.trans leads⟩
  | ifElseFalse holds _ ih =>
      simp only [checkCommand, List.append_eq_nil_iff] at fine
      rw [lowerCommand] at lowered
      obtain ⟨whenTrue, first, yesLowered, lowered⟩ := bind_ok lowered
      obtain ⟨whenFalse, middle, noLowered, tested⟩ := bind_ok lowered
      have before := ((extending_lowerExpression _ _ _).ok tested).trans extended
      have test := lowerExpression_settles ready calm typed tested extended holds [] false rfl
      obtain ⟨id, arrives, leads⟩ := ih fine.2 typed noLowered before
      exact ⟨id, arrives, test.trans leads⟩
  | loopDone holds =>
      obtain ⟨first, middle, last, round, test, bodyLowered, tested, later, pivot⟩ :=
        lowerLoop_ok lowered
      have head := Scene.jump_leads calm typed (pivot.extends (by simp) extended)
      exact ⟨next, rfl, head.trans (lowerExpression_settles ready calm typed tested
        (later.trans extended) holds [] false rfl)⟩
  | loopAgain holds bodyRuns _ bodyIh againIh =>
      obtain ⟨first, middle, last, round, test, bodyLowered, tested, later, pivot⟩ :=
        lowerLoop_ok lowered
      have bodyFine := fine
      simp only [checkCommand, List.append_eq_nil_iff] at bodyFine
      have tests := later.trans extended
      have before := ((extending_lowerExpression _ _ _).ok tested).trans tests
      have head := Scene.jump_leads calm typed (pivot.extends (by simp) extended)
      have test := lowerExpression_settles ready calm typed tested tests holds [] true rfl
      obtain ⟨id, rfl, bodyLeads⟩ := bodyIh bodyFine.2 typed bodyLowered before
      obtain ⟨final, arrives, againLeads⟩ :=
        againIh fine (kept bodyRuns bodyFine.2 typed) lowered extended
      exact ⟨final, arrives, ((head.trans test).trans bodyLeads).trans againLeads⟩
  | loopStop holds _ stops ih =>
      obtain ⟨first, middle, last, round, test, bodyLowered, tested, later, pivot⟩ :=
        lowerLoop_ok lowered
      simp only [checkCommand, List.append_eq_nil_iff] at fine
      have tests := later.trans extended
      have before := ((extending_lowerExpression _ _ _).ok tested).trans tests
      have head := Scene.jump_leads calm typed (pivot.extends (by simp) extended)
      have test := lowerExpression_settles ready calm typed tested tests holds [] true rfl
      obtain ⟨id, arrives, leads⟩ := ih fine.2 typed bodyLowered before
      exact ⟨id, arrives.elsewhere stops, (head.trans test).trans leads⟩
  | ret =>
      rw [lowerCommand] at lowered
      obtain ⟨rfl, -⟩ := pure_ok lowered
      exact ⟨_, rfl, Leads.refl _⟩
  | assign assigned =>
      obtain ⟨owner, put, first, compute, middle, computed, later, puts, loads⟩ :=
        lowerAssign_ok lowered
      have declared := assign_declared fine
      rw [← types] at declared
      have after := kept (.assign assigned) fine typed
      have computes := lowerExpression_settles ready calm typed computed (later.trans extended)
        assigned [.object scene.address]
      exact ⟨next, rfl, Scene.assign_leads ready calm typed declared
        (loads.extends (by simp) extended) computes (puts.extends (by simp) extended) after⟩
  | assertTrue holds =>
      obtain ⟨failed, first, tested, -⟩ := lowerAssert_ok lowered
      exact ⟨next, rfl, lowerExpression_settles ready calm typed tested extended holds [] true rfl⟩
  | assertFalse holds =>
      obtain ⟨failed, first, tested, has⟩ := lowerAssert_ok lowered
      exact ⟨failed, has.extends extended,
        lowerExpression_settles ready calm typed tested extended holds [] false rfl⟩

theorem Scene.head_lasts (calm : scene.Calm property) {store : Store}
    (typed : Typed scene.types store) {id next : BlockIndex} {fuel : Nat}
    (holds : scene.arena.Holds id [] (.jump next))
    (lasts : scene.Lasts property fuel (scene.enter next store [])) :
    scene.Lasts property (fuel + 1) (scene.enter id store []) := by
  refine Lasts.succ ?_ ?_
  · unfold Scene.enter
    rw [Walk.enter_state]
    exact calm store [] typed
  · have stepped : (scene.enter id store []).step scene.machine scene.arena scene.callers.length =
        scene.enter next store [] := by
      unfold Scene.enter
      rw [Walk.enter_holds holds]
      simp only [Walk.step, Scene.state, if_true, Walk.advance]
    rw [stepped]
    exact lasts

/-- What lasts behind every ending of a command lasts from the start of its graph on. If the command
does not end, there is nothing behind. -/
theorem lowerCommand_lasts (ready : scene.Ready) (calm : scene.Calm property) {checker : Checker}
    (types : scene.types = checker.fieldType?) {resolution : Resolution} {exit next root : BlockIndex}
    {command : Command} {start finish : Arena} {store : Store} {fuel : Nat}
    (fine : (checkCommand checker command).2 = []) (typed : Typed scene.types store)
    (lowered : (lowerCommand resolution exit command next).run start = (.ok root, finish))
    (extended : finish.Extends scene.arena)
    (behind : ∀ ending final id, Runs command store ending final →
      Arrives scene.arena exit next ending id →
      scene.Lasts property fuel (scene.enter id final [])) :
    scene.Lasts property fuel (scene.enter root store []) := by
  have decided : ∀ {store : Store} {condition : Expression}, Typed scene.types store →
      conditionProblems checker condition = [] →
      ∃ holds, condition.value? store = some (.boolean holds) := by
    intro store condition typed fine
    rw [types] at typed
    exact condition_decided typed fine
  induction command generalizing next root start finish store fuel with
  | skip position =>
      rw [lowerCommand] at lowered
      obtain ⟨rfl, -⟩ := pure_ok lowered
      exact behind _ _ _ .skip rfl
  | seq position first second firstIh secondIh =>
      obtain ⟨firstFine, secondFine⟩ := checkCommand_seq fine
      rw [lowerCommand] at lowered
      obtain ⟨rest, middle, secondLowered, firstLowered⟩ := bind_ok lowered
      have before := ((extending_lowerCommand _ _ _ _).ok firstLowered).trans extended
      refine firstIh firstFine typed firstLowered extended fun ending final id firstRuns arrives => ?_
      by_cases stops : ending = .done
      · subst stops
        obtain rfl : id = rest := arrives
        have typedThen : Typed scene.types final := by
          rw [types] at typed ⊢
          exact runs_typed firstRuns firstFine typed
        exact secondIh secondFine typedThen secondLowered before
          fun ending last id secondRuns arrives => behind _ _ _ (.seqDone firstRuns secondRuns) arrives
      · exact behind _ _ _ (.seqStop firstRuns stops) (arrives.elsewhere stops)
  | ifThen position condition yes ih =>
      simp only [checkCommand, List.append_eq_nil_iff] at fine
      rw [lowerCommand] at lowered
      obtain ⟨whenTrue, middle, yesLowered, tested⟩ := bind_ok lowered
      have before := ((extending_lowerExpression _ _ _).ok tested).trans extended
      obtain ⟨holds, value⟩ := decided typed fine.1
      refine Leads.lasts (lowerExpression_settles ready calm typed tested extended value [] holds rfl) ?_
      cases holds with
      | true =>
          exact ih fine.2 typed yesLowered before
            fun ending final id runs arrives => behind _ _ _ (.ifThenTrue value runs) arrives
      | false => exact behind _ _ _ (.ifThenFalse value) rfl
  | ifElse position condition yes no yesIh noIh =>
      simp only [checkCommand, List.append_eq_nil_iff] at fine
      rw [lowerCommand] at lowered
      obtain ⟨whenTrue, first, yesLowered, lowered⟩ := bind_ok lowered
      obtain ⟨whenFalse, middle, noLowered, tested⟩ := bind_ok lowered
      have noExtends := ((extending_lowerExpression _ _ _).ok tested).trans extended
      have yesExtends := ((extending_lowerCommand _ _ _ _).ok noLowered).trans noExtends
      obtain ⟨holds, value⟩ := decided typed fine.1.1
      refine Leads.lasts (lowerExpression_settles ready calm typed tested extended value [] holds rfl) ?_
      cases holds with
      | true =>
          exact yesIh fine.1.2 typed yesLowered yesExtends
            fun ending final id runs arrives => behind _ _ _ (.ifElseTrue value runs) arrives
      | false =>
          exact noIh fine.2 typed noLowered noExtends
            fun ending final id runs arrives => behind _ _ _ (.ifElseFalse value runs) arrives
  | loop position condition body ih =>
      obtain ⟨first, middle, last, round, test, bodyLowered, tested, later, pivot⟩ :=
        lowerLoop_ok lowered
      simp only [checkCommand, List.append_eq_nil_iff] at fine
      have tests := later.trans extended
      have before := ((extending_lowerExpression _ _ _).ok tested).trans tests
      have head := pivot.extends (by simp) extended
      -- Every round takes a step for the head of the loop.
      induction fuel generalizing store with
      | zero =>
          refine Lasts.zero ?_
          unfold Scene.enter
          rw [Walk.enter_state]
          exact calm store [] typed
      | succ fuel again =>
          obtain ⟨holds, value⟩ := decided typed fine.1
          have settles := lowerExpression_settles ready calm typed tested tests value [] holds rfl
          refine Scene.head_lasts calm typed head (Leads.lasts settles ?_)
          cases holds with
          | false => exact (behind _ _ _ (.loopDone value) rfl).le (by omega)
          | true =>
              refine ih fine.2 typed bodyLowered before fun ending final id runs arrives => ?_
              by_cases stops : ending = .done
              · subst stops
                obtain rfl : id = root := arrives
                have typedThen : Typed scene.types final := by
                  rw [types] at typed ⊢
                  exact runs_typed runs fine.2 typed
                exact again typedThen fun ending last id loopRuns arrives =>
                  (behind _ _ _ (.loopAgain value runs loopRuns) arrives).le (by omega)
              · exact (behind _ _ _ (.loopStop value runs stops) (arrives.elsewhere stops)).le (by omega)
  | ret position =>
      rw [lowerCommand] at lowered
      obtain ⟨rfl, -⟩ := pure_ok lowered
      exact behind _ _ _ .ret rfl
  | assign position field value =>
      obtain ⟨owner, put, first, compute, middle, computed, later, puts, loads⟩ :=
        lowerAssign_ok lowered
      have declared := assign_declared fine
      rw [← types] at declared
      obtain ⟨datum, assigned⟩ : ∃ datum, value.value? store = some datum := by
        simp only [checkCommand, List.append_eq_nil_iff] at fine
        rw [types] at typed
        obtain ⟨datum, assigned, -⟩ := value?_typed typed fine.1.1
        exact ⟨datum, assigned⟩
      have after : Typed scene.types (store.set field datum) := by
        rw [types] at typed ⊢
        exact assign_typed typed fine assigned
      have computes := lowerExpression_settles ready calm typed computed (later.trans extended)
        assigned [.object scene.address]
      exact Leads.lasts (Scene.assign_leads ready calm typed declared
        (loads.extends (by simp) extended) computes (puts.extends (by simp) extended) after)
        (behind _ _ _ (.assign assigned) rfl)
  | assert position condition =>
      obtain ⟨failed, first, tested, has⟩ := lowerAssert_ok lowered
      simp only [checkCommand, List.append_eq_nil_iff] at fine
      obtain ⟨holds, value⟩ := decided typed fine.2
      refine Leads.lasts (lowerExpression_settles ready calm typed tested extended value [] holds rfl) ?_
      cases holds with
      | true => exact behind _ _ _ (.assertTrue value) rfl
      | false => exact behind _ _ _ (.assertFalse value) (has.extends extended)

end Assay.Lowering
