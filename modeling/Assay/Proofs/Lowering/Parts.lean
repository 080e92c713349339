import Assay.Proofs.Lowering.Commands

/-!
Which parts of a body leave their values on the stack, and where the code of each of them is in the graph
of the body.
-/

namespace Assay

namespace Syntax

def Expression.ifKept (expression : Expression) (kept : Bool) : List Expression :=
  if kept then [expression] else []

/-- The parts of an expression that leave their values on the stack. A condition that is made of
comparisons and connectives leaves none: it decides between two branches. -/
def Expression.stacked (kept : Bool) : Expression → List Expression
  | int position value => [int position value]
  | boolean position value => (boolean position value).ifKept kept
  | field position name => [field position name]
  | binary position operator left right =>
    binary position operator left right :: (left.stacked true ++ right.stacked true)
  | comparison position operator left right =>
    (comparison position operator left right).ifKept kept ++
      (left.stacked true ++ right.stacked true)
  | not position operand => (not position operand).ifKept kept ++ operand.stacked false
  | and position left right =>
    (and position left right).ifKept kept ++ (left.stacked false ++ right.stacked false)
  | or position left right =>
    (or position left right).ifKept kept ++ (left.stacked false ++ right.stacked false)

def Command.stacked : Command → List Expression
  | skip _ => []
  | seq _ first second => first.stacked ++ second.stacked
  | ifThen _ condition yes => condition.stacked false ++ yes.stacked
  | ifElse _ condition yes no => condition.stacked false ++ (yes.stacked ++ no.stacked)
  | loop _ condition body => condition.stacked false ++ body.stacked
  | ret _ => []
  | assign _ _ value => value.stacked true
  | assert _ condition => condition.stacked false

end Syntax

namespace Typing

open Syntax

theorem mem_ifKept {expression part : Expression} {kept : Bool}
    (member : part ∈ expression.ifKept kept) : part = expression ∧ kept = true := by
  cases kept with
  | true => exact ⟨List.mem_singleton.mp member, rfl⟩
  | false => simp [Expression.ifKept] at member

theorem stacked_fine {checker : Checker} {expression part : Expression} {kept : Bool}
    (fine : expressionProblems checker expression = []) (member : part ∈ expression.stacked kept) :
    expressionProblems checker part = [] := by
  induction expression generalizing kept with
  | int position value => rwa [List.mem_singleton.mp member]
  | boolean position value => rwa [(mem_ifKept member).1]
  | field position name => rwa [List.mem_singleton.mp member]
  | binary position operator left right leftIh rightIh =>
      have parts := fine
      simp only [expressionProblems, List.append_eq_nil_iff] at parts
      rcases List.mem_cons.mp member with rfl | inside
      · exact fine
      · rcases List.mem_append.mp inside with isLeft | isRight
        · exact leftIh parts.1.1.1 isLeft
        · exact rightIh parts.1.2 isRight
  | comparison position operator left right leftIh rightIh =>
      have parts := fine
      simp only [expressionProblems, List.append_eq_nil_iff] at parts
      rcases List.mem_append.mp member with own | inside
      · rwa [(mem_ifKept own).1]
      · rcases List.mem_append.mp inside with isLeft | isRight
        · exact leftIh parts.1.1 isLeft
        · exact rightIh parts.1.2 isRight
  | not position operand ih =>
      have parts := fine
      simp only [expressionProblems, List.append_eq_nil_iff] at parts
      rcases List.mem_append.mp member with own | inside
      · rwa [(mem_ifKept own).1]
      · exact ih parts.1 inside
  | and position left right leftIh rightIh =>
      have parts := fine
      simp only [expressionProblems, List.append_eq_nil_iff] at parts
      rcases List.mem_append.mp member with own | inside
      · rwa [(mem_ifKept own).1]
      · rcases List.mem_append.mp inside with isLeft | isRight
        · exact leftIh parts.1.1.1 isLeft
        · exact rightIh parts.1.2 isRight
  | or position left right leftIh rightIh =>
      have parts := fine
      simp only [expressionProblems, List.append_eq_nil_iff] at parts
      rcases List.mem_append.mp member with own | inside
      · rwa [(mem_ifKept own).1]
      · rcases List.mem_append.mp inside with isLeft | isRight
        · exact leftIh parts.1.1.1 isLeft
        · exact rightIh parts.1.2 isRight

theorem condition_stacked_fine {checker : Checker} {condition part : Expression}
    (fine : conditionProblems checker condition = []) (member : part ∈ condition.stacked false) :
    expressionProblems checker part = [] := by
  simp only [conditionProblems, List.append_eq_nil_iff] at fine
  exact stacked_fine fine.1 member

theorem command_stacked_fine {checker : Checker} {command : Command} {part : Expression}
    (fine : (checkCommand checker command).2 = []) (member : part ∈ command.stacked) :
    expressionProblems checker part = [] := by
  induction command with
  | skip position => simp [Command.stacked] at member
  | seq position first second firstIh secondIh =>
      obtain ⟨firstFine, secondFine⟩ := checkCommand_seq fine
      rcases List.mem_append.mp member with isFirst | isSecond
      · exact firstIh firstFine isFirst
      · exact secondIh secondFine isSecond
  | ifThen position condition yes ih =>
      simp only [checkCommand, List.append_eq_nil_iff] at fine
      rcases List.mem_append.mp member with isCondition | isYes
      · exact condition_stacked_fine fine.1 isCondition
      · exact ih fine.2 isYes
  | ifElse position condition yes no yesIh noIh =>
      simp only [checkCommand, List.append_eq_nil_iff] at fine
      rcases List.mem_append.mp member with isCondition | isBranch
      · exact condition_stacked_fine fine.1.1 isCondition
      · rcases List.mem_append.mp isBranch with isYes | isNo
        · exact yesIh fine.1.2 isYes
        · exact noIh fine.2 isNo
  | loop position condition body ih =>
      simp only [checkCommand, List.append_eq_nil_iff] at fine
      rcases List.mem_append.mp member with isCondition | isBody
      · exact condition_stacked_fine fine.1 isCondition
      · exact ih fine.2 isBody
  | ret position => simp [Command.stacked] at member
  | assign position field value =>
      simp only [checkCommand, List.append_eq_nil_iff] at fine
      exact stacked_fine fine.1.1 member
  | assert position condition =>
      simp only [checkCommand, List.append_eq_nil_iff] at fine
      exact condition_stacked_fine fine.2 member

end Typing

namespace Lowering

open Assay.Graph Syntax Typing

def Lowered (arena : Arena) (resolution : Resolution) (expression : Expression)
    (entry next : BlockIndex) : Prop :=
  ∃ before after,
    (lowerExpression resolution expression (.value next)).run before = (.ok entry, after) ∧
      after.Extends arena

def Destination.keeps : Destination → Bool
  | value _ => true
  | test _ _ => false

variable {arena start finish : Arena} {resolution : Resolution}

theorem kept_lowered {expression part : Expression} {destination : Destination} {root : BlockIndex}
    (lowered : (lowerExpression resolution expression destination).run start = (.ok root, finish))
    (extended : finish.Extends arena) (member : part ∈ expression.ifKept destination.keeps) :
    ∃ entry next, Lowered arena resolution part entry next := by
  obtain ⟨rfl, kept⟩ := mem_ifKept member
  cases destination with
  | value next => exact ⟨root, next, start, finish, lowered, extended⟩
  | test yes no => simp [Destination.keeps] at kept

/-- The code of every part that leaves its value on the stack is in the graph of the expression. -/
theorem lowerExpression_parts {expression part : Expression} {destination : Destination}
    {root : BlockIndex}
    (lowered : (lowerExpression resolution expression destination).run start = (.ok root, finish))
    (extended : finish.Extends arena) (member : part ∈ expression.stacked destination.keeps) :
    ∃ entry next, Lowered arena resolution part entry next := by
  induction expression generalizing destination start finish root with
  | int position value =>
      obtain rfl := List.mem_singleton.mp member
      rw [lowerExpression] at lowered
      obtain ⟨next, middle, -, pushed⟩ := bind_ok lowered
      exact ⟨root, next, middle, finish, pushed, extended⟩
  | boolean position value => exact kept_lowered lowered extended member
  | field position name =>
      obtain rfl := List.mem_singleton.mp member
      rw [lowerExpression] at lowered
      obtain ⟨next, middle, -, pushed⟩ := bind_ok lowered
      exact ⟨root, next, middle, finish, pushed, extended⟩
  | binary position operator left right leftIh rightIh =>
      rw [lowerExpression] at lowered
      obtain ⟨next, first, -, computed⟩ := bind_ok lowered
      obtain ⟨operation, second, -, operands⟩ := bind_ok computed
      obtain ⟨rightRoot, third, rightLowered, leftLowered⟩ := bind_ok operands
      have leftExtends := ((extending_lowerExpression _ _ _).ok leftLowered).trans extended
      rcases List.mem_cons.mp member with rfl | inside
      · exact ⟨root, next, first, finish, computed, extended⟩
      · rcases List.mem_append.mp inside with isLeft | isRight
        · exact leftIh leftLowered extended isLeft
        · exact rightIh rightLowered leftExtends isRight
  | comparison position operator left right leftIh rightIh =>
      rcases List.mem_append.mp member with own | inside
      · exact kept_lowered lowered extended own
      · rw [lowerExpression] at lowered
        obtain ⟨⟨yes, no⟩, first, -, decided⟩ := bind_ok lowered
        obtain ⟨decision, second, -, operands⟩ := bind_ok decided
        obtain ⟨rightRoot, third, rightLowered, leftLowered⟩ := bind_ok operands
        have leftExtends := ((extending_lowerExpression _ _ _).ok leftLowered).trans extended
        rcases List.mem_append.mp inside with isLeft | isRight
        · exact leftIh leftLowered extended isLeft
        · exact rightIh rightLowered leftExtends isRight
  | not position operand ih =>
      rcases List.mem_append.mp member with own | inside
      · exact kept_lowered lowered extended own
      · rw [lowerExpression] at lowered
        obtain ⟨⟨yes, no⟩, first, -, operandLowered⟩ := bind_ok lowered
        exact ih operandLowered extended inside
  | and position left right leftIh rightIh =>
      rcases List.mem_append.mp member with own | inside
      · exact kept_lowered lowered extended own
      · rw [lowerExpression] at lowered
        obtain ⟨⟨yes, no⟩, first, -, operands⟩ := bind_ok lowered
        obtain ⟨rightRoot, second, rightLowered, leftLowered⟩ := bind_ok operands
        have leftExtends := ((extending_lowerExpression _ _ _).ok leftLowered).trans extended
        rcases List.mem_append.mp inside with isLeft | isRight
        · exact leftIh leftLowered extended isLeft
        · exact rightIh rightLowered leftExtends isRight
  | or position left right leftIh rightIh =>
      rcases List.mem_append.mp member with own | inside
      · exact kept_lowered lowered extended own
      · rw [lowerExpression] at lowered
        obtain ⟨⟨yes, no⟩, first, -, operands⟩ := bind_ok lowered
        obtain ⟨rightRoot, second, rightLowered, leftLowered⟩ := bind_ok operands
        have leftExtends := ((extending_lowerExpression _ _ _).ok leftLowered).trans extended
        rcases List.mem_append.mp inside with isLeft | isRight
        · exact leftIh leftLowered extended isLeft
        · exact rightIh rightLowered leftExtends isRight

theorem lowerCommand_parts {exit next root : BlockIndex} {command : Command} {part : Expression}
    (lowered : (lowerCommand resolution exit command next).run start = (.ok root, finish))
    (extended : finish.Extends arena) (member : part ∈ command.stacked) :
    ∃ entry next, Lowered arena resolution part entry next := by
  induction command generalizing next start finish root with
  | skip position => simp [Command.stacked] at member
  | seq position first second firstIh secondIh =>
      rw [lowerCommand] at lowered
      obtain ⟨rest, middle, secondLowered, firstLowered⟩ := bind_ok lowered
      have firstExtends := ((extending_lowerCommand _ _ _ _).ok firstLowered).trans extended
      rcases List.mem_append.mp member with isFirst | isSecond
      · exact firstIh firstLowered extended isFirst
      · exact secondIh secondLowered firstExtends isSecond
  | ifThen position condition yes ih =>
      rw [lowerCommand] at lowered
      obtain ⟨whenTrue, middle, yesLowered, tested⟩ := bind_ok lowered
      have testExtends := ((extending_lowerExpression _ _ _).ok tested).trans extended
      rcases List.mem_append.mp member with isCondition | isYes
      · exact lowerExpression_parts tested extended isCondition
      · exact ih yesLowered testExtends isYes
  | ifElse position condition yes no yesIh noIh =>
      rw [lowerCommand] at lowered
      obtain ⟨whenTrue, first, yesLowered, others⟩ := bind_ok lowered
      obtain ⟨whenFalse, second, noLowered, tested⟩ := bind_ok others
      have testExtends := ((extending_lowerExpression _ _ _).ok tested).trans extended
      have noExtends := ((extending_lowerCommand _ _ _ _).ok noLowered).trans testExtends
      rcases List.mem_append.mp member with isCondition | isBranch
      · exact lowerExpression_parts tested extended isCondition
      · rcases List.mem_append.mp isBranch with isYes | isNo
        · exact yesIh yesLowered noExtends isYes
        · exact noIh noLowered testExtends isNo
  | loop position condition body ih =>
      obtain ⟨first, middle, last, round, test, bodyLowered, tested, linked, -⟩ :=
        lowerLoop_ok lowered
      have testExtends := ((extending_lowerExpression _ _ _).ok tested).trans (linked.trans extended)
      rcases List.mem_append.mp member with isCondition | isBody
      · exact lowerExpression_parts tested (linked.trans extended) isCondition
      · exact ih bodyLowered testExtends isBody
  | ret position => simp [Command.stacked] at member
  | assign position field value =>
      obtain ⟨owner, put, first, compute, middle, computed, later, -, -⟩ := lowerAssign_ok lowered
      exact lowerExpression_parts computed (later.trans extended) member
  | assert position condition =>
      obtain ⟨failed, first, tested, -⟩ := lowerAssert_ok lowered
      exact lowerExpression_parts tested extended member

theorem lowerBody_parts {role : Role} {body : Command} {root : BlockIndex} {part : Expression}
    (lowered : (lowerBody role resolution body).run start = (.ok root, finish))
    (extended : finish.Extends arena) (member : part ∈ body.stacked) :
    ∃ entry next, Lowered arena resolution part entry next := by
  rw [lowerBody] at lowered
  obtain ⟨exit, middle, -, commandLowered⟩ := bind_ok lowered
  exact lowerCommand_parts commandLowered extended member

end Lowering

end Assay
