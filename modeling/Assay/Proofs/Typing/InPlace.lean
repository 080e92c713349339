import Assay.Proofs.Syntax.Tours
import Assay.Proofs.Typing.Declarations
import Assay.Proofs.Typing.Soundness

/-!
Checking in place. All bodies report to one list of errors, and what is found out about a node is written at
the node. This comes to the same errors, types and members as collecting them part by part.
-/

namespace Assay.Typing

open Syntax

/-- What is written at a node: the type of an expression, the text of an assert that fails, and the field
that is read or assigned with the class that declares it. -/
structure Note where
  type? : Option Ty
  failure : String
  field? : Option (ClassRef × Field)
deriving DecidableEq, Repr

def Note.blank : Note := { type? := none, failure := "", field? := none }

/-- The errors so far, and the notes at the nodes of the declaration. -/
structure Ledger where
  problems : List Diagnostic
  notes : Site → Note

abbrev Checking := StateM Ledger

def reportAll (problems : List Diagnostic) : Checking Unit :=
  modify fun ledger => { ledger with problems := ledger.problems ++ problems }

def annotate (site : Site) (change : Note → Note) : Checking Unit :=
  modify fun ledger =>
    { ledger with notes := Function.update ledger.notes site (change (ledger.notes site)) }

def settle (site : Site) (type : Ty) : Checking Ty := do
  annotate site fun note => { note with type? := some type }
  pure type

def resolveField (checker : Checker) (site : Site) (position : Position) (name : String) :
    Checking (Option Field) :=
  match checker.receiver? with
  | none => do
    reportAll [{ position, message := "'this' is not in scope" }]
    pure none
  | some owner =>
    match owner.field? name with
    | none => do
      reportAll [{ position, message := "unknown field " ++ owner.name ++ "." ++ name }]
      pure none
    | some field => do
      annotate site fun note => { note with field? := some (owner.ref, field) }
      pure (some field)

def checkExpressionInPlace (checker : Checker) (site : Site) : Expression → Checking Ty
  | .int _ _ => settle site .int
  | .boolean _ _ => settle site .boolean
  | .field position name => do
    let field? ← resolveField checker site position name
    settle site ((field?.map Field.type).getD .int)
  | .binary _ _ left right => do
    let leftType ← checkExpressionInPlace checker (site ++ [0]) left
    reportAll (Checker.requireAssignable left.position leftType .int)
    let rightType ← checkExpressionInPlace checker (site ++ [1]) right
    reportAll (Checker.requireAssignable right.position rightType .int)
    settle site .int
  | .comparison _ operator left right => do
    let leftType ← checkExpressionInPlace checker (site ++ [0]) left
    let rightType ← checkExpressionInPlace checker (site ++ [1]) right
    let own ← settle site .boolean
    if leftType = .boolean && operator.isEquality then
      reportAll (Checker.requireBoolean right.position rightType)
      pure own
    else if leftType ≠ .int then
      reportAll
        [{ position := left.position
           message := "operator " ++ operator.text ++ " cannot compare values of type " ++
             leftType.text }]
      pure own
    else
      reportAll (Checker.requireAssignable right.position rightType .int)
      pure own
  | .not _ operand => do
    let type ← checkExpressionInPlace checker (site ++ [0]) operand
    reportAll (Checker.requireBoolean operand.position type)
    settle site .boolean
  | .and _ left right => do
    let leftType ← checkExpressionInPlace checker (site ++ [0]) left
    reportAll (Checker.requireBoolean left.position leftType)
    let rightType ← checkExpressionInPlace checker (site ++ [1]) right
    reportAll (Checker.requireBoolean right.position rightType)
    settle site .boolean
  | .or _ left right => do
    let leftType ← checkExpressionInPlace checker (site ++ [0]) left
    reportAll (Checker.requireBoolean left.position leftType)
    let rightType ← checkExpressionInPlace checker (site ++ [1]) right
    reportAll (Checker.requireBoolean right.position rightType)
    settle site .boolean

def checkConditionInPlace (checker : Checker) (site : Site) (condition : Expression) : Checking Unit := do
  let type ← checkExpressionInPlace checker site condition
  reportAll (Checker.requireBoolean condition.position type)

def checkCommandInPlace (checker : Checker) (site : Site) : Command → Checking Checker
  | .skip _ => pure checker
  | .seq _ first second => do
    let next ← checkCommandInPlace checker (site ++ [0]) first
    checkCommandInPlace next (site ++ [1]) second
  | .ifThen _ condition yes => do
    checkConditionInPlace checker (site ++ [0]) condition
    let _ ← checkCommandInPlace checker (site ++ [1]) yes
    pure checker
  | .ifElse _ condition yes no => do
    checkConditionInPlace checker (site ++ [0]) condition
    let _ ← checkCommandInPlace checker (site ++ [1]) yes
    let _ ← checkCommandInPlace checker (site ++ [2]) no
    pure checker
  | .loop _ condition body => do
    checkConditionInPlace checker (site ++ [0]) condition
    let _ ← checkCommandInPlace checker (site ++ [1]) body
    pure checker
  | .ret position => do
    if checker.returnType ≠ .void then
      reportAll [{ position, message := "return is only permitted in routines returning void" }]
    pure checker
  | .assign position name value => do
    let type ← checkExpressionInPlace checker (site ++ [0]) value
    match ← resolveField checker site position name with
    | none => pure checker
    | some field =>
      reportAll (Checker.requireAssignable value.position type field.type)
      pure checker
  | .assert position condition => do
    if !checker.assertPermitted then
      reportAll [{ position, message := "assert only permitted inside a test" }]
    checkConditionInPlace checker (site ++ [0]) condition
    annotate site fun note => { note with failure := failureMessage position }
    pure checker

def checkBodyInPlace (checker : Checker) (site : Site) (declaration : MemberDeclaration) : Checking Unit := do
  let _ ← checkCommandInPlace checker (site ++ [0]) declaration.body
  reportAll (deadCodeProblems declaration.position declaration.body)

def addFieldsInPlace : ClassType → List FieldDeclaration → Checking ClassType
  | owner, [] => pure owner
  | owner, declaration :: rest => do
    reportAll (addField owner declaration).2
    addFieldsInPlace (addField owner declaration).1 rest

def addMembersInPlace : ClassType → List Member → Checking (ClassType × List Member)
  | owner, [] => pure (owner, [])
  | owner, member :: rest => do
    let (grown, added, problems) := member.addTo owner
    reportAll problems
    let (last, members) ← addMembersInPlace grown rest
    pure (last, added :: members)

def checkMembersInPlace (owner : ClassType) : Nat → List Member → Checking Unit
  | _, [] => pure ()
  | index, member :: rest => do
    if member.signature.isSome then
      checkBodyInPlace (Member.checkerFor member.role owner) [index] member.declaration
    checkMembersInPlace owner (index + 1) rest

def checkInPlace (declaration : ClassDeclaration) : Checking (ClassType × List (Option Signature)) := do
  let owner ← addFieldsInPlace (ClassType.new { name := declaration.name, serial := 0 }) declaration.fields
  let (owner, fixtures) ←
    addMembersInPlace owner (declaration.fixtures.map (Member.declared .fixture))
  let (owner, tests) ← addMembersInPlace owner (declaration.tests.map (Member.declared .test))
  let first := declaration.fields.length
  checkMembersInPlace owner first fixtures
  checkMembersInPlace owner (first + fixtures.length) tests
  pure (owner, (fixtures ++ tests).map Member.signature)

section Notes

def Checker.declared? (checker : Checker) (name : String) : Option (ClassRef × Field) :=
  checker.receiver?.bind fun owner => (owner.field? name).map fun field => (owner.ref, field)

/-- The note at a node after a check, given the note before. A field that is not known leaves what an
earlier check found. -/
def noted (checker : Checker) : Node → Note → Note
  | .expression (.field position name), note =>
    { note with type? := some (typeOf checker (.field position name))
                field? := (checker.declared? name).or note.field? }
  | .expression expression, note => { note with type? := some (typeOf checker expression) }
  | .command (.assign _ name _), note =>
    { note with field? := (checker.declared? name).or note.field? }
  | .command (.assert position _), note => { note with failure := failureMessage position }
  | _, note => note

structure Noted (checker : Checker) (root : Node) (site : Site) (old new : Site → Note) : Prop where
  inside : ∀ rest node, root.at? rest = some node →
    new (site ++ rest) = noted checker node (old (site ++ rest))
  outside : ∀ other, ¬site <+: other → new other = old other

structure PartsNoted (checker : Checker) (root : Node) (site : Site) (count : Nat) (change : Note → Note)
    (old new : Site → Note) : Prop where
  own : new site = change (old site)
  inside : ∀ index rest node, index < count → root.at? (index :: rest) = some node →
    new (site ++ index :: rest) = noted checker node (old (site ++ index :: rest))
  outside : ∀ other, other ≠ site → (∀ index < count, ¬site ++ [index] <+: other) → new other = old other

variable {checker : Checker} {root part : Node} {site : Site} {count : Nat} {change : Note → Note}
  {old middle new : Site → Note}

theorem PartsNoted.none : PartsNoted checker root site 0 id old old :=
  ⟨rfl, fun _ _ _ small => absurd small (Nat.not_lt_zero _), fun _ _ _ => rfl⟩

theorem PartsNoted.next (parts : PartsNoted checker root site count change old middle)
    (isPart : root.parts[count]? = some part) (later : Noted checker part (site ++ [count]) middle new) :
    PartsNoted checker root site (count + 1) change old new := by
  have split : ∀ (index : Nat) (rest : Site), site ++ index :: rest = site ++ [index] ++ rest := by simp
  have apart : ∀ {index number : Nat} {rest : Site}, site ++ [index] <+: site ++ number :: rest →
      index = number := fun starts =>
    (List.cons_prefix_cons.mp ((List.prefix_append_right_inj site).mp starts)).1
  refine ⟨?_, ?_, ?_⟩
  · have above : ¬site ++ [count] <+: site := fun starts => by
      have longer := starts.length_le
      rw [List.length_append, List.length_singleton] at longer
      omega
    rw [later.outside site above, parts.own]
  · intro index rest node small isNode
    by_cases isLast : index = count
    · subst isLast
      rw [Node.at?_cons isPart] at isNode
      rw [split, later.inside rest node isNode, ← split]
      congr 1
      refine parts.outside _ (by simp) fun number less starts => ?_
      have same := apart starts
      omega
    · rw [← parts.inside index rest node (by omega) isNode]
      exact later.outside _ fun starts => isLast (apart starts).symm
  · intro other below away
    rw [later.outside other (away count (by omega))]
    exact parts.outside other below fun index less => away index (by omega)

theorem PartsNoted.annotated (parts : PartsNoted checker root site count change old new)
    (more : Note → Note) :
    PartsNoted checker root site count (more ∘ change) old
      (Function.update new site (more (new site))) where
  own := by rw [Function.update_self, parts.own, Function.comp_apply]
  inside := by
    intro index rest node small isNode
    rw [Function.update_of_ne (by simp), parts.inside index rest node small isNode]
  outside := by
    intro other below away
    rw [Function.update_of_ne below, parts.outside other below away]

theorem PartsNoted.whole (parts : PartsNoted checker root site count change old new)
    (all : root.parts.length ≤ count) (own : ∀ note, change note = noted checker root note) :
    Noted checker root site old new := by
  constructor
  · intro rest node isNode
    cases rest with
    | nil =>
        obtain rfl : root = node := Option.some.inj isNode
        rw [List.append_nil, parts.own, own]
    | cons index rest =>
        refine parts.inside index rest node ?_ isNode
        by_contra absent
        rw [Node.at?, List.getElem?_eq_none (by omega)] at isNode
        cases isNode
  · intro other away
    refine parts.outside other (by rintro rfl; exact away List.prefix_rfl) ?_
    exact fun index _ starts => away ((List.prefix_append site [index]).trans starts)

end Notes

section Runs

variable {α β : Type}

/-- From any ledger with such notes the computation comes to this value, adds these problems at the end of
the list, and leaves such notes. -/
def Checks (before : (Site → Note) → Prop) (computation : Checking α) (value : α)
    (problems : List Diagnostic) (after : (Site → Note) → Prop) : Prop :=
  ∀ ledger : Ledger, before ledger.notes → ∃ notes, after notes ∧
    computation.run ledger = (value, { problems := ledger.problems ++ problems, notes })

variable {first : Checking α} {second : α → Checking β} {value : α} {result : β}
  {problems more : List Diagnostic} {before middle after : (Site → Note) → Prop}

theorem Checks.done (value : α) : Checks before (pure value) value [] before :=
  fun ledger holds => ⟨ledger.notes, holds, by rw [List.append_nil]; rfl⟩

theorem Checks.reports (problems : List Diagnostic) : Checks before (reportAll problems) () problems before :=
  fun ledger holds => ⟨ledger.notes, holds, rfl⟩

theorem Checks.bind (start : Checks before first value problems middle)
    (next : Checks middle (second value) result more after) :
    Checks before (first >>= second) result (problems ++ more) after := by
  intro ledger holds
  obtain ⟨notes, between, ran⟩ := start ledger holds
  obtain ⟨final, ends, finished⟩ :=
    next { problems := ledger.problems ++ problems, notes } between
  refine ⟨final, ends, ?_⟩
  rw [StateT.run_bind, ran]
  exact finished.trans (by rw [List.append_assoc])

theorem Checks.bind_silent (start : Checks before first value problems middle)
    (next : Checks middle (second value) result [] after) :
    Checks before (first >>= second) result problems after :=
  List.append_nil problems ▸ start.bind next

theorem Checks.weaken (checks : Checks before first value problems middle)
    (implied : ∀ notes, middle notes → after notes) : Checks before first value problems after := by
  intro ledger holds
  obtain ⟨notes, ends, ran⟩ := checks ledger holds
  exact ⟨notes, implied notes ends, ran⟩

end Runs

section Bodies

variable {α : Type} {computation : Checking α} {value : α} {problems : List Diagnostic} {checker : Checker}
  {root : Node} {site : Site} {count : Nat} {change : Note → Note} {old : Site → Note}

theorem Checks.node (all : root.parts.length ≤ count)
    (own : ∀ note, change note = noted checker root note)
    (checks : Checks (PartsNoted checker root site 0 id old) computation value problems
      (PartsNoted checker root site count change old)) :
    Checks (· = old) computation value problems (Noted checker root site old) := by
  rintro ledger rfl
  obtain ⟨notes, parts, ran⟩ := checks ledger .none
  exact ⟨notes, parts.whole all own, ran⟩

theorem Checks.part {part : Node} (isPart : root.parts[count]? = some part)
    (checks : ∀ middle, Checks (· = middle) computation value problems
      (Noted checker part (site ++ [count]) middle)) :
    Checks (PartsNoted checker root site count change old) computation value problems
      (PartsNoted checker root site (count + 1) change old) := by
  intro ledger parts
  obtain ⟨notes, later, ran⟩ := checks ledger.notes ledger rfl
  exact ⟨notes, parts.next isPart later, ran⟩

theorem Checks.annotates (more : Note → Note) :
    Checks (PartsNoted checker root site count change old) (annotate site more) () []
      (PartsNoted checker root site count (more ∘ change) old) :=
  fun _ parts => ⟨_, parts.annotated more, by rw [List.append_nil]; rfl⟩

theorem Checks.settles (type : Ty) :
    Checks (PartsNoted checker root site count change old) (settle site type) type []
      (PartsNoted checker root site count ((fun note => { note with type? := some type }) ∘ change) old) :=
  (Checks.annotates _).bind_silent (.done type)

theorem Checks.resolves (position : Position) (name : String) :
    Checks (PartsNoted checker root site count change old) (resolveField checker site position name)
      (checker.field? name) (checker.fieldProblems position name)
      (PartsNoted checker root site count
        ((fun note => { note with field? := (checker.declared? name).or note.field? }) ∘ change) old) := by
  rw [resolveField, Checker.field?, Checker.declared?, Checker.fieldProblems]
  cases checker.receiver? with
  | none => exact Checks.bind_silent (.reports _) (.done none)
  | some owner =>
      simp only [Option.bind_some]
      cases owner.field? name with
      | none => exact Checks.bind_silent (.reports _) (.done none)
      | some field => exact Checks.bind_silent (.annotates _) (.done (some field))

theorem checkExpressionInPlace_checks (expression : Expression) : ∀ (site : Site) (old : Site → Note),
    Checks (· = old) (checkExpressionInPlace checker site expression) (typeOf checker expression)
      (expressionProblems checker expression) (Noted checker (.expression expression) site old) := by
  induction expression with
  | int | boolean =>
      intro site old
      exact .node (Nat.zero_le 0) (fun _ => rfl) (.settles _)
  | field position name =>
      intro site old
      exact .node (Nat.zero_le 0) (fun _ => rfl) <| (Checks.resolves position name).bind_silent (.settles _)
  | binary position operator left right leftIh rightIh =>
      intro site old
      simp only [expressionProblems, List.append_assoc]
      exact .node (Nat.le_refl 2) (fun _ => rfl) <| (Checks.part rfl (leftIh _)).bind <|
        (Checks.reports _).bind <| (Checks.part rfl (rightIh _)).bind <|
        (Checks.reports _).bind_silent (.settles _)
  | comparison position operator left right leftIh rightIh =>
      intro site old
      rw [expressionProblems, List.append_assoc,
        ← List.nil_append (comparisonProblems checker operator left right)]
      refine .node (Nat.le_refl 2) (fun _ => rfl) <| (Checks.part rfl (leftIh _)).bind <|
        (Checks.part rfl (rightIh _)).bind <| (Checks.settles .boolean).bind ?_
      simp only [comparisonProblems]
      split
      · exact (Checks.reports _).bind_silent (.done _)
      · split
        · exact (Checks.reports _).bind_silent (.done _)
        · exact (Checks.reports _).bind_silent (.done _)
  | not position operand ih =>
      intro site old
      rw [expressionProblems]
      exact .node (Nat.le_refl 1) (fun _ => rfl) <| (Checks.part rfl (ih _)).bind <|
        (Checks.reports _).bind_silent (.settles _)
  | and position left right leftIh rightIh | or position left right leftIh rightIh =>
      intro site old
      simp only [expressionProblems, List.append_assoc]
      exact .node (Nat.le_refl 2) (fun _ => rfl) <| (Checks.part rfl (leftIh _)).bind <|
        (Checks.reports _).bind <| (Checks.part rfl (rightIh _)).bind <|
        (Checks.reports _).bind_silent (.settles _)

theorem checkConditionInPlace_checks (condition : Expression)
    (isPart : root.parts[count]? = some (.expression condition)) :
    Checks (PartsNoted checker root site count change old)
      (checkConditionInPlace checker (site ++ [count]) condition) () (conditionProblems checker condition)
      (PartsNoted checker root site (count + 1) change old) :=
  (Checks.part isPart (checkExpressionInPlace_checks condition _)).bind (.reports _)

theorem checkCommandInPlace_checks (command : Command) : ∀ (site : Site) (old : Site → Note),
    Checks (· = old) (checkCommandInPlace checker site command) checker (checkCommand checker command).2
      (Noted checker (.command command) site old) := by
  induction command with
  | skip position =>
      intro site old
      exact .node (Nat.zero_le 0) (fun _ => rfl) (.done checker)
  | seq position first second firstIh secondIh =>
      intro site old
      simp only [checkCommand]
      rw [checkCommand_checker]
      exact .node (Nat.le_refl 2) (fun _ => rfl) <| (Checks.part rfl (firstIh _)).bind <|
        Checks.part rfl (secondIh _)
  | ifThen position condition yes ih | loop position condition yes ih =>
      intro site old
      exact .node (Nat.le_refl 2) (fun _ => rfl) <| (checkConditionInPlace_checks condition rfl).bind <|
        (Checks.part rfl (ih _)).bind_silent (.done checker)
  | ifElse position condition yes no yesIh noIh =>
      intro site old
      rw [checkCommand, List.append_assoc]
      exact .node (Nat.le_refl 3) (fun _ => rfl) <| (checkConditionInPlace_checks condition rfl).bind <|
        (Checks.part rfl (yesIh _)).bind <| (Checks.part rfl (noIh _)).bind_silent (.done checker)
  | ret position =>
      intro site old
      refine .node (Nat.zero_le 0) (fun _ => rfl) ?_
      rw [checkCommandInPlace, checkCommand]
      by_cases isVoid : checker.returnType = .void
      · rw [if_neg (not_not.mpr isVoid), if_pos isVoid]
        exact .done checker
      · rw [if_pos isVoid, if_neg isVoid]
        exact (Checks.reports _).bind_silent (.done checker)
  | assign position name value =>
      intro site old
      rw [checkCommand, List.append_assoc]
      refine .node (Nat.le_refl 1) (fun _ => rfl) <|
        (Checks.part rfl (checkExpressionInPlace_checks value _)).bind <|
        (Checks.resolves position name).bind ?_
      cases checker.field? name with
      | none => exact .done checker
      | some field => exact (Checks.reports _).bind_silent (.done checker)
  | assert position condition =>
      intro site old
      refine .node (Nat.le_refl 1) (fun _ => rfl) ?_
      rw [checkCommand, checkCommandInPlace]
      cases checker.assertPermitted with
      | true =>
          exact (checkConditionInPlace_checks condition rfl).bind_silent <|
            (Checks.annotates _).bind_silent (.done checker)
      | false =>
          exact (Checks.reports _).bind <| (checkConditionInPlace_checks condition rfl).bind_silent <|
            (Checks.annotates _).bind_silent (.done checker)

end Bodies

section Classes

structure MembersNoted (owner : ClassType) (index : Nat) (members : List Member) (old new : Site → Note) :
    Prop where
  inside : ∀ number member rest node, members[number]? = some member → member.signature.isSome = true →
    (Node.command member.declaration.body).at? rest = some node →
    new ((index + number) :: 0 :: rest) =
      noted (Member.checkerFor member.role owner) node (old ((index + number) :: 0 :: rest))
  outside : ∀ site, (∀ number member, members[number]? = some member → member.signature.isSome = true →
    ¬[index + number, 0] <+: site) → new site = old site

variable {owner : ClassType} {index : Nat} {first second members : List Member}
  {old middle new : Site → Note}

theorem MembersNoted.nil : MembersNoted owner index [] old old :=
  ⟨fun _ _ _ _ isMember => by simp at isMember, fun _ _ => rfl⟩

theorem MembersNoted.append (written : MembersNoted owner index first old middle)
    (later : MembersNoted owner (index + first.length) second middle new) :
    MembersNoted owner index (first ++ second) old new := by
  constructor
  · intro number member rest node isMember hasSignature isNode
    by_cases isFirst : number < first.length
    · rw [List.getElem?_append_left isFirst] at isMember
      rw [← written.inside number member rest node isMember hasSignature isNode]
      refine later.outside _ fun other _ _ _ starts => ?_
      have same := (List.cons_prefix_cons.mp starts).1
      omega
    · rw [List.getElem?_append_right (by omega)] at isMember
      have place : index + number = index + first.length + (number - first.length) := by omega
      rw [place, later.inside _ member rest node isMember hasSignature isNode]
      congr 1
      refine written.outside _ fun other _ isOther _ starts => ?_
      have same := (List.cons_prefix_cons.mp starts).1
      have inFirst := (List.getElem?_eq_some_iff.mp isOther).1
      omega
  · intro site away
    rw [later.outside site ?_, written.outside site ?_]
    · intro number member isMember
      refine away number member ?_
      rw [List.getElem?_append_left (List.getElem?_eq_some_iff.mp isMember).1, isMember]
    · intro number member isMember
      rw [Nat.add_assoc]
      refine away (first.length + number) member ?_
      rw [List.getElem?_append_right (by omega), Nat.add_sub_cancel_left, isMember]

theorem MembersNoted.single {member : Member} (hasSignature : member.signature.isSome = true)
    (body : Noted (Member.checkerFor member.role owner) (.command member.declaration.body) [index, 0]
      old new) : MembersNoted owner index [member] old new := by
  constructor
  · intro number other rest node isMember _ isNode
    obtain ⟨rfl, rfl⟩ : number = 0 ∧ member = other := by
      simpa [List.getElem?_singleton] using isMember
    exact body.inside rest node isNode
  · intro site away
    exact body.outside site (away 0 member rfl hasSignature)

theorem MembersNoted.unsigned {member : Member} (noSignature : member.signature.isSome = false) :
    MembersNoted owner index [member] old old := by
  refine ⟨fun number other rest node isMember hasSignature => ?_, fun _ _ => rfl⟩
  obtain ⟨-, rfl⟩ : number = 0 ∧ member = other := by simpa [List.getElem?_singleton] using isMember
  simp [noSignature] at hasSignature

theorem checkBodyInPlace_checks (checker : Checker) (site : Site) (declaration : MemberDeclaration)
    (old : Site → Note) :
    Checks (· = old) (checkBodyInPlace checker site declaration) ()
      ((checkCommand checker declaration.body).2 ++ deadCodeProblems declaration.position declaration.body)
      (Noted checker (.command declaration.body) (site ++ [0]) old) :=
  (checkCommandInPlace_checks declaration.body _ _).bind (.reports _)

theorem checkMembersInPlace_after {problems : List Diagnostic} (first second : List Member) (index : Nat)
    (old : Site → Note)
    (checks : ∀ index old, Checks (· = old) (checkMembersInPlace owner index second) () problems
      (MembersNoted owner index second old)) :
    Checks (MembersNoted owner index first old) (checkMembersInPlace owner (index + first.length) second) ()
      problems (MembersNoted owner index (first ++ second) old) := by
  intro ledger earlier
  obtain ⟨notes, others, ran⟩ := checks (index + first.length) ledger.notes ledger rfl
  exact ⟨notes, earlier.append others, ran⟩

theorem checkMembersInPlace_checks (owner : ClassType) (members : List Member) : ∀ index old,
    Checks (· = old) (checkMembersInPlace owner index members) () (checkMembers owner members).2
      (MembersNoted owner index members old) := by
  induction members with
  | nil =>
      rintro index old ledger rfl
      exact Checks.done () ledger .nil
  | cons member rest ih =>
      intro index old
      have later := checkMembersInPlace_after [member] rest index old ih
      rw [checkMembersInPlace, checkMembers]
      cases hasSignature : member.signature.isSome with
      | true =>
          exact ((checkBodyInPlace_checks _ [index] member.declaration old).weaken fun _ =>
            .single hasSignature).bind later
      | false =>
          rintro ledger rfl
          exact later ledger (.unsigned hasSignature)

theorem addFieldsInPlace_checks {before : (Site → Note) → Prop} (declarations : List FieldDeclaration) :
    ∀ owner, Checks before (addFieldsInPlace owner declarations) (addFields owner declarations).1
      (addFields owner declarations).2 before := by
  induction declarations with
  | nil => exact fun owner => .done owner
  | cons declaration rest ih => exact fun owner => (Checks.reports _).bind (ih _)

theorem addMembersInPlace_checks {before : (Site → Note) → Prop} (members : List Member) :
    ∀ owner, Checks before (addMembersInPlace owner members)
      ((addMembers owner members).1, (addMembers owner members).2.1) (addMembers owner members).2.2
      before := by
  induction members with
  | nil => exact fun owner => .done (owner, [])
  | cons member rest ih =>
      exact fun owner => (Checks.reports _).bind ((ih _).bind_silent (.done _))

theorem signatures_settled (owner : ClassType) (members : List Member) :
    (members.map (Member.settled owner)).map Member.signature = members.map Member.signature := by
  rw [List.map_map]
  exact List.map_congr_left fun member _ => (member.settled_same owner).2.2

theorem MembersNoted.settled (written : MembersNoted owner index members old new) :
    MembersNoted owner index (members.map (Member.settled owner)) old new := by
  have original : ∀ (number : Nat) (member : Member),
      (members.map (Member.settled owner))[number]? = some member →
      ∃ found : Member, members[number]? = some found ∧ member.role = found.role ∧
        member.declaration = found.declaration ∧ member.signature = found.signature := by
    intro number member isMember
    rw [List.getElem?_map, Option.map_eq_some_iff] at isMember
    obtain ⟨found, isFound, rfl⟩ := isMember
    exact ⟨found, isFound, found.settled_same owner⟩
  constructor
  · intro number member rest node isMember hasSignature isNode
    obtain ⟨found, isFound, sameRole, sameDeclaration, sameSignature⟩ := original number member isMember
    rw [sameDeclaration] at isNode
    rw [sameSignature] at hasSignature
    rw [sameRole]
    exact written.inside number found rest node isFound hasSignature isNode
  · intro site away
    refine written.outside site fun number member isMember hasSignature => ?_
    have same := member.settled_same owner
    refine away number (member.settled owner) ?_ (same.2.2 ▸ hasSignature)
    rw [List.getElem?_map, isMember, Option.map_some]

theorem checkMembers_fst (owner : ClassType) (members : List Member) :
    (checkMembers owner members).1 = members.map (Member.settled owner) := by
  rw [checkMembers_eq]

/-- What is found out in place is what is found out part by part. -/
theorem checkInPlace_checks (declaration : ClassDeclaration) (old : Site → Note) :
    Checks (· = old) (checkInPlace declaration)
      ((check declaration).type, (check declaration).members.map Member.signature)
      (check declaration).diagnostics
      (MembersNoted (check declaration).type declaration.fields.length (check declaration).members old) := by
  simp only [check, checkClass, CheckedClass.members, checkMembers_fst, ← List.map_append,
    signatures_settled, List.append_assoc]
  exact (addFieldsInPlace_checks _ _).bind <| (addMembersInPlace_checks _ _).bind <|
    (addMembersInPlace_checks _ _).bind <| (checkMembersInPlace_checks _ _ _ _).bind <|
    ((checkMembersInPlace_after _ _ _ _ (checkMembersInPlace_checks _ _)).weaken fun _ =>
      .settled).bind_silent (.done _)

end Classes

end Assay.Typing
