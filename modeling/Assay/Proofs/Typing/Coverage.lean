import Assay.Proofs.Syntax.Entries
import Assay.Proofs.Typing.Composition

/-!
A check comes to all nodes that a walk comes to: whatever errors there are, each expression in a registered
member gets its type and each assert its text. Without errors each use of a field gets the declared field.
-/

namespace Assay.Typing

open Syntax

section Types

variable {checker : Checker}

def nodeType? (checker : Checker) : Node → Option Ty
  | .expression expression => some (typeOf checker expression)
  | _ => none

def nodeFailure? : Node → Option String
  | .command (.assert position _) => some (failureMessage position)
  | _ => none

theorem nodeType?_expression (expression : Expression) :
    nodeType? checker (.expression expression) = some (typeOf checker expression) := rfl

theorem nodeFailure?_assert (position : Position) (condition : Expression) :
    nodeFailure? (.command (.assert position condition)) = some (failureMessage position) := rfl

theorem expression_types (expression : Expression) :
    expression.tree.nodes.filterMap (nodeType? checker) = expressionTypes checker expression := by
  induction expression with
  | int | boolean | field => rfl
  | binary _ _ _ _ leftIh rightIh | comparison _ _ _ _ leftIh rightIh | and _ _ _ leftIh rightIh
  | or _ _ _ leftIh rightIh =>
      simp only [Expression.tree, Tree.nodes, nodesOf, List.append_nil]
      rw [List.filterMap_cons_some (nodeType?_expression _), List.filterMap_append, leftIh, rightIh,
        expressionTypes]
  | not _ _ ih =>
      simp only [Expression.tree, Tree.nodes, nodesOf, List.append_nil]
      rw [List.filterMap_cons_some (nodeType?_expression _), ih, expressionTypes]

theorem command_types (command : Command) :
    command.tree.nodes.filterMap (nodeType? checker) = commandTypes checker command := by
  induction command with
  | skip | ret => rfl
  | seq _ _ _ firstIh secondIh =>
      simp only [Command.tree, Tree.nodes, nodesOf, List.append_nil]
      rw [List.filterMap_cons_none rfl, List.filterMap_append, firstIh, secondIh, commandTypes]
  | ifThen _ condition _ ih | loop _ condition _ ih =>
      simp only [Command.tree, Tree.nodes, nodesOf, List.append_nil]
      rw [List.filterMap_cons_none rfl, List.filterMap_append, expression_types, ih, commandTypes]
  | ifElse _ condition _ _ yesIh noIh =>
      simp only [Command.tree, Tree.nodes, nodesOf, List.append_nil]
      rw [List.filterMap_cons_none rfl, List.filterMap_append, List.filterMap_append, expression_types, yesIh,
        noIh, commandTypes, List.append_assoc]
  | assign _ _ value | assert _ value =>
      simp only [Command.tree, Tree.nodes, nodesOf, List.append_nil]
      rw [List.filterMap_cons_none rfl, expression_types, commandTypes]

theorem expression_failures (expression : Expression) :
    expression.tree.nodes.filterMap nodeFailure? = [] := by
  induction expression with
  | int | boolean | field => rfl
  | binary _ _ _ _ leftIh rightIh | comparison _ _ _ _ leftIh rightIh | and _ _ _ leftIh rightIh
  | or _ _ _ leftIh rightIh =>
      simp only [Expression.tree, Tree.nodes, nodesOf, List.append_nil]
      rw [List.filterMap_cons_none rfl, List.filterMap_append, leftIh, rightIh, List.append_nil]
  | not _ _ ih =>
      simp only [Expression.tree, Tree.nodes, nodesOf, List.append_nil]
      rw [List.filterMap_cons_none rfl, ih]

theorem command_failures (command : Command) :
    command.tree.nodes.filterMap nodeFailure? = failureMessages command := by
  induction command with
  | skip | ret => rfl
  | seq _ _ _ firstIh secondIh =>
      simp only [Command.tree, Tree.nodes, nodesOf, List.append_nil]
      rw [List.filterMap_cons_none rfl, List.filterMap_append, firstIh, secondIh, failureMessages]
  | ifThen _ condition _ ih | loop _ condition _ ih =>
      simp only [Command.tree, Tree.nodes, nodesOf, List.append_nil]
      rw [List.filterMap_cons_none rfl, List.filterMap_append, expression_failures, List.nil_append, ih,
        failureMessages]
  | ifElse _ condition _ _ yesIh noIh =>
      simp only [Command.tree, Tree.nodes, nodesOf, List.append_nil]
      rw [List.filterMap_cons_none rfl, List.filterMap_append, List.filterMap_append, expression_failures,
        List.nil_append, yesIh, noIh, failureMessages]
  | assign _ _ value =>
      simp only [Command.tree, Tree.nodes, nodesOf, List.append_nil]
      rw [List.filterMap_cons_none rfl, expression_failures]
      rfl
  | assert position value =>
      simp only [Command.tree, Tree.nodes, nodesOf, List.append_nil]
      rw [List.filterMap_cons_some (nodeFailure?_assert _ _), expression_failures, failureMessages]

end Types

section Members

variable {declaration : ClassDeclaration} {number : Nat} {member : Member} {notes : Site → Note}

def Member.node (member : Member) : Node :=
  match member.role with
  | .fixture => .fixtureDeclaration member.declaration
  | .test => .testDeclaration member.declaration

def Member.tree (member : Member) : Tree := .node member.node [member.declaration.body.tree]

theorem member_parts (member : Member) : member.node.parts = [.command member.declaration.body] := by
  unfold Member.node
  cases member.role <;> rfl

theorem member_tree_faithful (member : Member) : member.tree.Faithful := by
  refine .node ?_ ?_
  · rw [member_parts, List.map_singleton, (Command.tree_faithful _).2]
  · intro child isChild
    rw [List.mem_singleton.mp isChild]
    exact (Command.tree_faithful _).1

def visitsOf (declaration : ClassDeclaration) (number : Nat) : List NodeVisit :=
  inside [declaration.fields.length + number] (entries (declaration.tree.tour none []))

theorem child_of_member (isMember : (check declaration).members[number]? = some member) :
    declaration.tree.children[declaration.fields.length + number]? = some member.tree := by
  have children : declaration.tree.children =
      declaration.fields.map FieldDeclaration.tree ++ (declaredMembers declaration).map Member.tree := by
    simp only [ClassDeclaration.tree, Tree.children, declaredMembers, List.map_append, List.map_map,
      List.append_assoc]
    rfl
  rw [getElem?_check_members, Option.map_eq_some_iff] at isMember
  obtain ⟨found, isFound, rfl⟩ := isMember
  rw [children, List.getElem?_append_right (by simp), List.length_map, Nat.add_sub_cancel_left,
    List.getElem?_map, isFound, Option.map_some]
  obtain ⟨sameRole, sameDeclaration, -⟩ :=
    (found.signed (classRef declaration) ((declaredMembers declaration).take number)).settled_same
      (check declaration).type
  rw [Member.tree, Member.tree, Member.node, Member.node, sameRole, sameDeclaration]
  rfl

theorem visitsOf_eq (isMember : (check declaration).members[number]? = some member) :
    visitsOf declaration number =
      (entries (member.tree.tour (some (.classDeclaration declaration)) [none])).map
        (NodeVisit.inPart (declaration.fields.length + number)) := by
  have whole : declaration.tree = .node (.classDeclaration declaration) declaration.tree.children := rfl
  have below : inside [declaration.fields.length + number]
      (entries (tourAll (.classDeclaration declaration) [none] 0 declaration.tree.children)) =
        (entries (member.tree.tour (some (.classDeclaration declaration)) [none])).map
          (NodeVisit.inPart (declaration.fields.length + number)) := by
    rw [← Nat.zero_add (declaration.fields.length + number)]
    exact inside_tourAll 0 (child_of_member isMember)
  rw [visitsOf, whole, entries_tour, inside, List.filter_cons_of_neg (by simp)]
  exact below

theorem nodes_visitsOf (isMember : (check declaration).members[number]? = some member) :
    (visitsOf declaration number).map (·.call.node) = member.node :: member.declaration.body.tree.nodes := by
  rw [visitsOf_eq isMember, nodes_inPart, Tree.nodes_entries, Member.tree, Tree.nodes, nodesOf, nodesOf,
    List.append_nil]

theorem mem_visitsOf (isMember : (check declaration).members[number]? = some member) {visit : NodeVisit}
    (isVisit : visit ∈ visitsOf declaration number) :
    (visit.site = [declaration.fields.length + number] ∧ visit.call.node = member.node) ∨
      ∃ rest, visit.site = (declaration.fields.length + number) :: 0 :: rest ∧
        (Node.command member.declaration.body).at? rest = some visit.call.node := by
  rw [visitsOf_eq isMember] at isVisit
  obtain ⟨inner, isEntry, rfl⟩ := List.mem_map.mp isVisit
  obtain ⟨node, isNode, told⟩ :=
    ((member_tree_faithful member).mem_tour inner).mp (List.mem_of_mem_filter isEntry)
  have sameNode : (NodeVisit.inPart (declaration.fields.length + number) inner).call.node = node :=
    congrArg Call.node told
  rw [sameNode]
  cases atSite : inner.site with
  | nil =>
      rw [atSite] at isNode
      exact .inl ⟨by rw [NodeVisit.inPart, atSite], (Option.some.inj isNode).symm⟩
  | cons index rest =>
      rw [atSite] at isNode
      have parts : member.tree.label.parts = [.command member.declaration.body] := member_parts member
      cases index with
      | zero =>
          refine .inr ⟨rest, by rw [NodeVisit.inPart, atSite], ?_⟩
          rwa [Node.at?_cons (by rw [parts]; rfl)] at isNode
      | succ index =>
          rw [Node.at?, parts] at isNode
          cases isNode

theorem note_of_visit
    (written : MembersNoted (check declaration).type declaration.fields.length (check declaration).members
      (fun _ => .blank) notes)
    (isMember : (check declaration).members[number]? = some member) {visit : NodeVisit}
    (isVisit : visit ∈ visitsOf declaration number) :
    notes visit.site =
      if member.signature.isSome then
        noted (Member.checkerFor member.role (check declaration).type) visit.call.node .blank
      else .blank := by
  rcases mem_visitsOf isMember isVisit with ⟨atSite, isOwn⟩ | ⟨rest, atSite, isNode⟩
  · have blank : notes visit.site = .blank := by
      rw [atSite]
      refine written.outside _ fun other _ _ _ starts => ?_
      have short := starts.length_le
      simp at short
    have same : ∀ checker, noted checker visit.call.node .blank = .blank := by
      intro checker
      rw [isOwn, Member.node]
      cases member.role <;> rfl
    rw [blank, same, ite_self]
  · rw [atSite]
    cases hasSignature : member.signature.isSome with
    | true => exact written.inside number member rest _ isMember hasSignature isNode
    | false =>
        refine written.outside _ fun other found isFound foundSigned starts => ?_
        have sameNumber : declaration.fields.length + other = declaration.fields.length + number :=
          (List.cons_prefix_cons.mp starts).1
        obtain rfl : other = number := by omega
        rw [isMember] at isFound
        cases isFound
        rw [hasSignature] at foundSigned
        cases foundSigned

theorem member_state (isMember : (check declaration).members[number]? = some member) :
    if member.signature.isSome then
      member.scope = some (Member.checkerFor member.role (check declaration).type) ∧
        member.resolution =
          Resolution.none.after (Member.checkerFor member.role (check declaration).type)
    else member.scope = none ∧ member.resolution = .none := by
  rw [getElem?_check_members, Option.map_eq_some_iff] at isMember
  obtain ⟨found, isFound, rfl⟩ := isMember
  rw [eq_declared (List.mem_of_getElem? isFound), Member.settled, Member.signed, Member.newSignature?]
  by_cases refused : (Member.declared found.role found.declaration).Refused
      ((declaredMembers declaration).take number)
  · rw [if_pos refused]
    exact ⟨rfl, rfl⟩
  · rw [if_neg refused]
    exact ⟨rfl, rfl⟩

theorem exists_member {visit : NodeVisit} (isEntry : visit ∈ entries (declaration.tree.tour none []))
    (inBody : InBody visit.call.node) :
    ∃ number member, (check declaration).members[number]? = some member ∧
      visit ∈ visitsOf declaration number := by
  have faithful := declaration.tree_faithful
  obtain ⟨node, isNode, told⟩ := (faithful.1.mem_tour visit).mp (List.mem_of_mem_filter isEntry)
  have sameNode : visit.call.node = node := congrArg Call.node told
  rw [sameNode] at inBody
  rw [faithful.2] at isNode
  cases atSite : visit.site with
  | nil =>
      rw [atSite] at isNode
      obtain rfl := Option.some.inj isNode
      exact inBody.elim
  | cons index rest =>
      rw [atSite, Node.at?] at isNode
      split at isNode
      · rename_i part isPart
        rw [Node.parts, List.append_assoc] at isPart
        by_cases isField : index < declaration.fields.length
        · rw [List.getElem?_append_left (by simpa using isField), List.getElem?_map,
            Option.map_eq_some_iff] at isPart
          obtain ⟨field, -, rfl⟩ := isPart
          cases rest with
          | nil =>
              obtain rfl := Option.some.inj isNode
              exact inBody.elim
          | cons => cases isNode
        · have members : declaration.fixtures.map Node.fixtureDeclaration ++
              declaration.tests.map Node.testDeclaration =
                (declaredMembers declaration).map Member.node := by
            simp only [declaredMembers, List.map_append, List.map_map]
            rfl
          rw [List.getElem?_append_right (by simpa using isField), List.length_map, members,
            List.getElem?_map, Option.map_eq_some_iff] at isPart
          obtain ⟨found, isFound, -⟩ := isPart
          have isMember := getElem?_check_members declaration (index - declaration.fields.length)
          rw [isFound, Option.map_some] at isMember
          refine ⟨_, _, isMember, List.mem_filter.mpr ⟨isEntry, ?_⟩⟩
          have place : declaration.fields.length + (index - declaration.fields.length) = index := by omega
          simp [atSite, place]
      · cases isNode

theorem failureMessage_ne (position : Position) : failureMessage position ≠ "" := by
  intro empty
  have length := congrArg String.length empty
  simp [failureMessage] at length

def usedField? : Node → Option String
  | .expression (.field _ name) => some name
  | .command (.assign _ name _) => some name
  | _ => none

theorem noted_type {checker : Checker} (expression : Expression) (note : Note) :
    (noted checker (.expression expression) note).type? = some (typeOf checker expression) := by
  cases expression <;> rfl

theorem noted_field {checker : Checker} {node : Node} {name : String} (uses : usedField? node = some name) :
    (noted checker node .blank).field? = checker.declared? name := by
  cases node with
  | expression expression =>
      cases expression <;> cases uses
      exact Option.or_none
  | command command =>
      cases command <;> cases uses
      exact Option.or_none
  | _ => cases uses

theorem declared?_checkerFor (role : Role) (owner : ClassType) (name : String) :
    (Member.checkerFor role owner).declared? name = (owner.field? name).map fun field => (owner.ref, field) := by
  rw [Checker.declared?, checkerFor_receiver?, Option.bind_some]

theorem lookup_fields (fields : List Field) (owner name : String) :
    (fields.map fun field => (field.name, owner)).lookup name =
      (fields.find? fun field => field.name = name).map fun _ => owner := by
  induction fields with
  | nil => rfl
  | cons field rest ih =>
      by_cases here : field.name = name
      · simp [here]
      · have differs : (name == field.name) = false := by simpa using Ne.symm here
        simp [here, differs, List.lookup_cons, ih]

theorem owner?_after (role : Role) (owner : ClassType) (name : String) :
    (Resolution.none.after (Member.checkerFor role owner)).owner? name =
      (owner.field? name).map fun _ => owner.name := by
  rw [Resolution.owner?, Resolution.after, checkerFor_receiver?, ClassType.field?, ← lookup_fields]
  exact congrArg (List.lookup name) (List.append_nil _)

def typeAt? (notes : Site → Note) (visit : NodeVisit) : Option (Option Ty) :=
  match visit.call.node with
  | .expression _ => some (notes visit.site).type?
  | _ => none

def failureAt? (notes : Site → Note) (visit : NodeVisit) : Option String :=
  match visit.call.node with
  | .command (.assert _ _) => some (notes visit.site).failure
  | _ => none

theorem filterMap_visitsOf {α β : Type} {read : NodeVisit → Option β} {kind : Node → Option α}
    {change : α → β} (isMember : (check declaration).members[number]? = some member) (own : kind member.node = none)
    (same : ∀ visit ∈ visitsOf declaration number, read visit = (kind visit.call.node).map change) :
    (visitsOf declaration number).filterMap read =
      (member.declaration.body.tree.nodes.filterMap kind).map change := by
  have kinds := congrArg (List.filterMap kind) (nodes_visitsOf isMember)
  rw [List.filterMap_map, List.filterMap_cons_none own] at kinds
  rw [List.filterMap_congr same, ← kinds, List.map_filterMap]
  rfl

/-- What is written at the nodes of a member, and that it is what the checked class knows of them. -/
structure Covers (declaration : ClassDeclaration) (number : Nat) (member : Member) (notes : Site → Note) :
    Prop where
  nodes : (visitsOf declaration number).map (·.call.node) = member.node :: member.declaration.body.tree.nodes
  typed : member.signature.isSome = true → ∀ visit ∈ visitsOf declaration number, ∀ expression,
    visit.call.node = .expression expression → (notes visit.site).type? =
      some (typeOf (Member.checkerFor member.role (check declaration).type) expression)
  explained : member.signature.isSome = true → ∀ visit ∈ visitsOf declaration number,
    ∀ position condition, visit.call.node = .command (.assert position condition) →
      (notes visit.site).failure = failureMessage position ∧ (notes visit.site).failure ≠ ""
  blank : member.signature = none → ∀ visit ∈ visitsOf declaration number, notes visit.site = .blank
  types : member.types = (visitsOf declaration number).filterMap (typeAt? notes)
  failures : member.failures = (visitsOf declaration number).filterMap (failureAt? notes)
  owners : ∀ visit ∈ visitsOf declaration number, ∀ name, usedField? visit.call.node = some name →
    member.resolution.owner? name = (notes visit.site).field?.map fun (owner, _) => owner.name

theorem covers_member
    (written : MembersNoted (check declaration).type declaration.fields.length (check declaration).members
      (fun _ => .blank) notes)
    (isMember : (check declaration).members[number]? = some member) :
    Covers declaration number member notes where
  nodes := nodes_visitsOf isMember
  typed := by
    intro hasSignature visit isVisit expression isExpression
    rw [note_of_visit written isMember isVisit, if_pos hasSignature, isExpression, noted_type]
  explained := by
    intro hasSignature visit isVisit position condition isAssert
    rw [note_of_visit written isMember isVisit, if_pos hasSignature, isAssert]
    exact ⟨rfl, failureMessage_ne position⟩
  blank := by
    intro noSignature visit isVisit
    rw [note_of_visit written isMember isVisit, noSignature]
    rfl
  types := by
    have own : ∀ checker, nodeType? checker member.node = none := by
      intro checker
      rw [Member.node]
      cases member.role <;> rfl
    have state := member_state isMember
    rw [Member.types]
    split at state
    · rename_i hasSignature
      rw [state.1, filterMap_visitsOf isMember (own (Member.checkerFor member.role (check declaration).type)),
        command_types]
      intro visit isVisit
      rw [typeAt?, note_of_visit written isMember isVisit, if_pos hasSignature]
      cases visit.call.node with
      | expression expression => exact congrArg some (noted_type expression _)
      | _ => rfl
    · rename_i noSignature
      rw [state.1, filterMap_visitsOf isMember (own (Checker.new .void true [])), command_types]
      intro visit isVisit
      rw [typeAt?, note_of_visit written isMember isVisit, if_neg noSignature]
      cases visit.call.node <;> rfl
  failures := by
    have own : nodeFailure? member.node = none := by
      rw [Member.node]
      cases member.role <;> rfl
    have state := member_state isMember
    have written : ∀ visit ∈ visitsOf declaration number, failureAt? notes visit =
        (nodeFailure? visit.call.node).map fun text => if member.resolution.checked then text else "" := by
      intro visit isVisit
      rw [failureAt?, note_of_visit written isMember isVisit]
      split at state
      · rename_i hasSignature
        rw [if_pos hasSignature, state.2]
        cases visit.call.node with
        | command command => cases command <;> rfl
        | _ => rfl
      · rename_i noSignature
        rw [if_neg noSignature, state.2]
        cases visit.call.node with
        | command command => cases command <;> rfl
        | _ => rfl
    rw [filterMap_visitsOf isMember own written, command_failures, Member.failures]
    cases member.resolution.checked with
    | true => exact (List.map_id' _).symm
    | false => rfl
  owners := by
    intro visit isVisit name uses
    rw [note_of_visit written isMember isVisit]
    have state := member_state isMember
    split at state
    · rename_i hasSignature
      rw [if_pos hasSignature, noted_field uses, declared?_checkerFor, state.2, owner?_after, Option.map_map]
      rfl
    · rename_i noSignature
      rw [if_neg noSignature, state.2]
      rfl

theorem member_fine (accepted : Accepted declaration) (isMember : member ∈ (check declaration).members) :
    member.signature.isSome = true ∧
      (checkCommand (Member.checkerFor member.role (check declaration).type) member.declaration.body).2 = [] := by
  rw [accepted.members, List.mem_append, List.mem_map, List.mem_map] at isMember
  rcases isMember with ⟨other, isFixture, rfl⟩ | ⟨other, isTest, rfl⟩
  · have isDeclared : other ∈ declared declaration .fixture := isFixture
    exact ⟨rfl, accepted.body_fine isDeclared⟩
  · have isDeclared : other ∈ declared declaration .test := isTest
    exact ⟨rfl, accepted.body_fine isDeclared⟩

theorem used_field_known {checker : Checker} {node : Node} {name : String} (uses : usedField? node = some name)
    (fine : nodeProblems checker node = []) : ∃ field, checker.field? name = some field := by
  cases node with
  | expression expression =>
      cases expression <;> cases uses
      exact fieldProblems_nil fine
  | command command =>
      cases command <;> cases uses
      simp only [nodeProblems, checkCommand, List.append_eq_nil_iff] at fine
      exact fieldProblems_nil fine.1.2
  | _ => cases uses

theorem field_resolved
    (written : MembersNoted (check declaration).type declaration.fields.length (check declaration).members
      (fun _ => .blank) notes)
    (fine : (check declaration).diagnostics = []) (isMember : (check declaration).members[number]? = some member)
    {visit : NodeVisit} (isVisit : visit ∈ visitsOf declaration number) {name : String}
    (uses : usedField? visit.call.node = some name) :
    ∃ type, fieldType? declaration name = some type ∧
      (notes visit.site).field? = some (classRef declaration, { name, type }) := by
  have accepted := accepted_of_no_errors fine
  obtain ⟨hasSignature, bodyFine⟩ := member_fine accepted (List.mem_of_getElem? isMember)
  have nodeFine : nodeProblems (Member.checkerFor member.role (check declaration).type) visit.call.node = [] := by
    rcases mem_visitsOf isMember isVisit with ⟨-, isOwn⟩ | ⟨rest, -, isNode⟩
    · rw [isOwn, Member.node]
      cases member.role <;> rfl
    · have inBody : InBody (.command member.declaration.body) := trivial
      have part : nodeProblems (Member.checkerFor member.role (check declaration).type) visit.call.node <:+:
          (checkCommand (Member.checkerFor member.role (check declaration).type)
            member.declaration.body).2 := errors_at inBody isNode
      rw [bodyFine] at part
      exact List.infix_nil.mp part
  obtain ⟨field, found⟩ := used_field_known uses nodeFine
  have types := congrFun (accepted.fieldType? member.role) name
  rw [Checker.fieldType?, found, Option.map_some] at types
  rw [checkerFor_field?] at found
  have named : field.name = name := by simpa using List.find?_some found
  refine ⟨field.type, types.symm, ?_⟩
  rw [note_of_visit written isMember isVisit, if_pos hasSignature, noted_field uses, declared?_checkerFor, found,
    Option.map_some, check_ref, ← named]

end Members

/-- In a class that has not been checked before, a check writes the type of each expression and the text of
each assert that a walk comes to in a registered member, whatever errors there are, and nothing in the other
members. If there are no errors, it writes the declared field at each node that uses one. All this is what
the checked class knows about its members. -/
theorem check_covers_walk (declaration : ClassDeclaration) :
    let checked := check declaration
    let visits := entries (declaration.tree.tour none [])
    let (result, ledger) := (checkInPlace declaration).run { problems := [], notes := fun _ => .blank }
    result = (checked.type, checked.members.map Member.signature) ∧ ledger.problems = checked.diagnostics ∧
      declaration.tree.traverse (some recordNode) none [] = (visits.map (·.call.node), .ok ()) ∧
      (∀ visit ∈ visits, InBody visit.call.node → ∃ (number : Nat) (member : Member),
        checked.members[number]? = some member ∧ visit ∈ visitsOf declaration number) ∧
      ∀ (number : Nat) (member : Member), checked.members[number]? = some member →
        Covers declaration number member ledger.notes ∧
          (checked.diagnostics = [] → ∀ visit ∈ visitsOf declaration number, ∀ name,
            usedField? visit.call.node = some name → ∃ type, fieldType? declaration name = some type ∧
              (ledger.notes visit.site).field? = some (classRef declaration, { name, type })) := by
  obtain ⟨notes, written, ran⟩ := checkInPlace_checks declaration (fun _ => .blank)
    { problems := [], notes := fun _ => .blank } rfl
  simp only [ran]
  refine ⟨trivial, rfl, traverse_recordNode declaration.tree, fun _ => exists_member, ?_⟩
  intro number member isMember
  refine ⟨covers_member written isMember, ?_⟩
  intro fine visit isVisit name uses
  exact field_resolved written fine isMember isVisit uses

end Assay.Typing
