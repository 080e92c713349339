import Assay.Proofs.Typing.DeadCode
import Assay.Proofs.Typing.Declarations
import Assay.Proofs.Typing.InPlace

/-!
What the list of errors of a class is made of. Each body adds its own errors and no others, so that one body
can be replaced without any effect on the errors of the others.
-/

namespace Assay.Typing

open Syntax

section Knowledge

/-- Two errors about classes of these names. They are equal, or both are about an unknown field and name the
one and the other class. -/
def SameButName (name other : String) (first second : Diagnostic) : Prop :=
  first = second ∨ ∃ position field,
    first = { position, message := "unknown field " ++ name ++ "." ++ field } ∧
      second = { position, message := "unknown field " ++ other ++ "." ++ field }

def SameErrors (name other : String) (problems more : List Diagnostic) : Prop :=
  List.Forall₂ (SameButName name other) problems more

structure KnowsSame (owner other : ClassType) (first second : Checker) : Prop where
  receiver : first.receiver? = some owner
  otherReceiver : second.receiver? = some other
  fields : owner.fields = other.fields
  returnType : first.returnType = second.returnType
  assertPermitted : first.assertPermitted = second.assertPermitted

variable {owner other : ClassType} {first second : Checker} {name otherName : String}
  {problems more later others : List Diagnostic}

theorem SameErrors.refl (problems : List Diagnostic) : SameErrors name otherName problems problems :=
  List.forall₂_same.mpr fun _ _ => .inl rfl

theorem SameErrors.append (same : SameErrors name otherName problems more)
    (sameLater : SameErrors name otherName later others) :
    SameErrors name otherName (problems ++ later) (more ++ others) :=
  List.rel_append same sameLater

theorem SameErrors.eq (same : SameErrors name name problems more) : problems = more := by
  induction same with
  | nil => rfl
  | cons related _ ih =>
      rcases related with rfl | ⟨position, field, rfl, rfl⟩
      · rw [ih]
      · rw [ih]

theorem knowsSame_checkerFor (role : Role) (fields : owner.fields = other.fields) :
    KnowsSame owner other (Member.checkerFor role owner) (Member.checkerFor role other) :=
  ⟨checkerFor_receiver? role owner, checkerFor_receiver? role other, fields, rfl, rfl⟩

theorem KnowsSame.field? (same : KnowsSame owner other first second) (name : String) :
    first.field? name = second.field? name := by
  rw [Checker.field?, Checker.field?, same.receiver, same.otherReceiver, Option.bind_some,
    Option.bind_some, ClassType.field?, ClassType.field?, same.fields]

theorem KnowsSame.typeOf (same : KnowsSame owner other first second) (expression : Expression) :
    typeOf first expression = typeOf second expression := by
  cases expression with
  | field position name => rw [Typing.typeOf, Typing.typeOf, same.field?]
  | _ => rfl

theorem KnowsSame.fieldProblems (same : KnowsSame owner other first second) (position : Position)
    (name : String) :
    SameErrors owner.name other.name (first.fieldProblems position name)
      (second.fieldProblems position name) := by
  have sameField : owner.field? name = other.field? name := by
    rw [ClassType.field?, ClassType.field?, same.fields]
  rw [Checker.fieldProblems, Checker.fieldProblems, same.receiver, same.otherReceiver]
  simp only [sameField]
  cases other.field? name with
  | none => exact .cons (.inr ⟨position, name, rfl, rfl⟩) .nil
  | some field => exact .nil

theorem KnowsSame.expressionProblems (same : KnowsSame owner other first second) (expression : Expression) :
    SameErrors owner.name other.name (expressionProblems first expression)
      (expressionProblems second expression) := by
  induction expression with
  | int | boolean => exact .nil
  | field position name => exact same.fieldProblems position name
  | binary _ _ _ _ leftIh rightIh | and _ _ _ leftIh rightIh | or _ _ _ leftIh rightIh =>
      simp only [Typing.expressionProblems, same.typeOf]
      exact ((leftIh.append (.refl _)).append rightIh).append (.refl _)
  | comparison _ _ _ _ leftIh rightIh =>
      simp only [Typing.expressionProblems, comparisonProblems, same.typeOf]
      exact (leftIh.append rightIh).append (.refl _)
  | not _ _ ih =>
      simp only [Typing.expressionProblems, same.typeOf]
      exact ih.append (.refl _)

theorem KnowsSame.conditionProblems (same : KnowsSame owner other first second) (condition : Expression) :
    SameErrors owner.name other.name (conditionProblems first condition)
      (conditionProblems second condition) := by
  rw [Typing.conditionProblems, Typing.conditionProblems, same.typeOf]
  exact (same.expressionProblems condition).append (.refl _)

theorem KnowsSame.checkCommand (same : KnowsSame owner other first second) (command : Command) :
    SameErrors owner.name other.name (checkCommand first command).2 (checkCommand second command).2 := by
  induction command with
  | skip => exact .nil
  | seq _ _ _ firstIh secondIh =>
      simp only [Typing.checkCommand, checkCommand_checker]
      exact firstIh.append secondIh
  | ifThen _ condition _ ih | loop _ condition _ ih => exact (same.conditionProblems condition).append ih
  | ifElse _ condition _ _ yesIh noIh => exact ((same.conditionProblems condition).append yesIh).append noIh
  | ret position =>
      simp only [Typing.checkCommand, same.returnType]
      exact .refl _
  | assign position name value =>
      simp only [Typing.checkCommand, same.field?, same.typeOf]
      exact ((same.expressionProblems value).append (same.fieldProblems position name)).append (.refl _)
  | assert position condition =>
      simp only [Typing.checkCommand, same.assertPermitted]
      exact (SameErrors.refl _).append (same.conditionProblems condition)

theorem bodyProblems_same (role : Role) (declaration : MemberDeclaration)
    (fields : owner.fields = other.fields) :
    SameErrors owner.name other.name (Member.bodyProblems role declaration owner)
      (Member.bodyProblems role declaration other) :=
  ((knowsSame_checkerFor role fields).checkCommand declaration.body).append (.refl _)

end Knowledge

section Parts

def nodeProblems (checker : Checker) : Node → List Diagnostic
  | .expression expression => expressionProblems checker expression
  | .command command => (checkCommand checker command).2
  | _ => []

def InBody : Node → Prop
  | .expression _ => True
  | .command _ => True
  | _ => False

variable {checker : Checker}

theorem expression_part_errors {expression : Expression} {part : Node}
    (isPart : part ∈ (Node.expression expression).parts) :
    InBody part ∧ nodeProblems checker part <:+: expressionProblems checker expression := by
  cases expression with
  | int | boolean | field => cases isPart
  | binary _ _ left right | and _ left right | or _ left right =>
      rcases List.mem_pair.mp isPart with rfl | rfl
      · refine ⟨trivial, List.IsPrefix.isInfix ?_⟩
        simp only [expressionProblems, nodeProblems, List.append_assoc, List.prefix_append]
      · exact ⟨trivial, List.infix_append _ _ _⟩
  | comparison _ _ left right =>
      rcases List.mem_pair.mp isPart with rfl | rfl
      · refine ⟨trivial, List.IsPrefix.isInfix ?_⟩
        simp only [expressionProblems, nodeProblems, List.append_assoc, List.prefix_append]
      · exact ⟨trivial, List.infix_append _ _ _⟩
  | not _ operand =>
      rw [List.mem_singleton.mp isPart]
      exact ⟨trivial, (List.prefix_append _ _).isInfix⟩

theorem condition_errors (condition : Expression) :
    expressionProblems checker condition <+: conditionProblems checker condition :=
  List.prefix_append _ _

theorem command_part_errors {command : Command} {part : Node}
    (isPart : part ∈ (Node.command command).parts) :
    InBody part ∧ nodeProblems checker part <:+: (checkCommand checker command).2 := by
  cases command with
  | skip | ret => cases isPart
  | seq _ first second =>
      simp only [checkCommand, checkCommand_checker]
      rcases List.mem_pair.mp isPart with rfl | rfl
      · exact ⟨trivial, (List.prefix_append _ _).isInfix⟩
      · exact ⟨trivial, (List.suffix_append _ _).isInfix⟩
  | ifThen _ condition yes | loop _ condition yes =>
      rcases List.mem_pair.mp isPart with rfl | rfl
      · exact ⟨trivial, ((condition_errors condition).trans (List.prefix_append _ _)).isInfix⟩
      · exact ⟨trivial, (List.suffix_append _ _).isInfix⟩
  | ifElse _ condition yes no =>
      simp only [Node.parts, List.mem_cons, List.not_mem_nil, or_false] at isPart
      rcases isPart with rfl | rfl | rfl
      · refine ⟨trivial, List.IsPrefix.isInfix ((condition_errors condition).trans ?_)⟩
        simp only [checkCommand, List.append_assoc, List.prefix_append]
      · exact ⟨trivial, List.infix_append _ _ _⟩
      · exact ⟨trivial, (List.suffix_append _ _).isInfix⟩
  | assign _ _ value =>
      rw [List.mem_singleton.mp isPart]
      refine ⟨trivial, List.IsPrefix.isInfix ?_⟩
      simp only [checkCommand, nodeProblems, List.append_assoc, List.prefix_append]
  | assert _ condition =>
      rw [List.mem_singleton.mp isPart]
      exact ⟨trivial, (condition_errors condition).isInfix.trans (List.suffix_append _ _).isInfix⟩

/-- The errors of a node stand together among those of any node above it. -/
theorem errors_at {root node : Node} {site : Site} (inBody : InBody root)
    (isNode : root.at? site = some node) :
    nodeProblems checker node <:+: nodeProblems checker root := by
  induction site generalizing root with
  | nil =>
      obtain rfl : root = node := Option.some.inj isNode
      exact List.infix_rfl
  | cons index rest ih =>
      rw [Node.at?] at isNode
      split at isNode
      · rename_i part isPart
        have present := List.mem_of_getElem? isPart
        have inside : InBody part ∧ nodeProblems checker part <:+: nodeProblems checker root := by
          cases root with
          | expression => exact expression_part_errors present
          | command => exact command_part_errors present
          | _ => exact inBody.elim
        exact (ih inside.1 isNode).trans inside.2
      · cases isNode

end Parts

section Sections

def classRef (declaration : ClassDeclaration) : ClassRef := { name := declaration.name, serial := 0 }

def registeredFields (declaration : ClassDeclaration) : List Field :=
  (withEarlier declaration.fields).filterMap fun (earlier, field) =>
    newField? (classRef declaration) earlier field

def refusals (ref : ClassRef) (before members : List Member) : List Diagnostic :=
  (withEarlier members).filterMap fun (earlier, member) => member.problem? ref (before ++ earlier)

def bodySections (ref : ClassRef) (fields : List Field) (before members : List Member) :
    List (List Diagnostic) :=
  (withEarlier members).map fun (earlier, member) =>
    if member.Refused (before ++ earlier) then []
    else Member.bodyProblems member.role member.declaration { ClassType.new ref with fields }

/-- The errors of a class, taken apart by what they are about. -/
structure ErrorParts where
  fields : List Diagnostic
  fixtures : List Diagnostic
  tests : List Diagnostic
  fixtureBodies : List (List Diagnostic)
  testBodies : List (List Diagnostic)
deriving DecidableEq, Repr

def ErrorParts.all (parts : ErrorParts) : List Diagnostic :=
  parts.fields ++ parts.fixtures ++ parts.tests ++ parts.fixtureBodies.flatten ++ parts.testBodies.flatten

def ErrorParts.setBody (parts : ErrorParts) (number : Nat) (errors : List Diagnostic) : Role → ErrorParts
  | .fixture => { parts with fixtureBodies := parts.fixtureBodies.set number errors }
  | .test => { parts with testBodies := parts.testBodies.set number errors }

def errorParts (declaration : ClassDeclaration) : ErrorParts :=
  let ref := classRef declaration
  let fixtures := declaration.fixtures.map (Member.declared .fixture)
  let tests := declaration.tests.map (Member.declared .test)
  { fields := (withEarlier declaration.fields).filterMap fun (earlier, field) =>
      fieldProblem? ref earlier field
    fixtures := refusals ref [] fixtures
    tests := refusals ref fixtures tests
    fixtureBodies := bodySections ref (registeredFields declaration) [] fixtures
    testBodies := bodySections ref (registeredFields declaration) fixtures tests }

theorem withEarlier_append {α : Type} (first second : List α) :
    withEarlier (first ++ second) =
      withEarlier first ++ (withEarlier second).map fun (earlier, item) => (first ++ earlier, item) := by
  induction first with
  | nil => simp [withEarlier]
  | cons item rest ih => simp [withEarlier_cons, ih]

theorem withEarlier_map {α β : Type} (change : α → β) (items : List α) :
    withEarlier (items.map change) =
      (withEarlier items).map fun (earlier, item) => (earlier.map change, change item) := by
  induction items with
  | nil => simp [withEarlier]
  | cons item rest ih => simp [withEarlier_cons, ih]

theorem getElem?_withEarlier {α : Type} (items : List α) (index : Nat) :
    (withEarlier items)[index]? = items[index]?.map fun item => (items.take index, item) := by
  induction items generalizing index with
  | nil => simp [withEarlier]
  | cons item rest ih =>
      rw [withEarlier_cons]
      cases index with
      | zero => rfl
      | succ index => simp [ih, Function.comp_def]

theorem check_ref (declaration : ClassDeclaration) : (check declaration).type.ref = classRef declaration := by
  rw [check, (checkClass_registers _ _ _ _).sequence]
  exact addAll_ref _ _

theorem check_fields (declaration : ClassDeclaration) :
    (check declaration).type.fields = registeredFields declaration :=
  (checkClass_registers _ _ _ _).typeFields

theorem mem_of_mem_withEarlier {α : Type} {items earlier : List α} {item : α}
    (isPair : (earlier, item) ∈ withEarlier items) : item ∈ items :=
  (List.of_mem_zip isPair).2

theorem refusals_append (ref : ClassRef) (first second : List Member) :
    ((withEarlier (first ++ second)).filterMap fun (earlier, member) => member.problem? ref earlier) =
      refusals ref [] first ++ refusals ref first second := by
  rw [withEarlier_append, List.filterMap_append, List.filterMap_map]
  rfl

theorem bodySections_append (ref : ClassRef) (fields : List Field) (first second : List Member) :
    bodySections ref fields [] (first ++ second) =
      bodySections ref fields [] first ++ bodySections ref fields first second := by
  rw [bodySections, withEarlier_append, List.map_append, List.map_map]
  rfl

theorem flatMap_filter_map {α β γ : Type} (items : List α) (change : α → β) (keep : β → Bool)
    (results : β → List γ) :
    ((items.map change).filter keep).flatMap results =
      (items.map fun item => if keep (change item) then results (change item) else []).flatten := by
  induction items with
  | nil => rfl
  | cons item rest ih =>
      cases kept : keep (change item) with
      | true => simp [kept, ih]
      | false => simp [kept, ih]

theorem flatten_bodySections {ref : ClassRef} {owner : ClassType} {members : List Member}
    (own : owner.ref = ref) (unsigned : ∀ member ∈ members, member.signature = none) :
    ((((withEarlier members).map fun (earlier, member) => (member.signed ref earlier).settled owner).filter
        (·.signature.isSome)).flatMap fun member =>
      Member.bodyProblems member.role member.declaration owner) =
      (bodySections ref owner.fields [] members).flatten := by
  rw [flatMap_filter_map, bodySections]
  refine congrArg List.flatten (List.map_congr_left ?_)
  rintro ⟨earlier, member⟩ isPair
  have noSignature := unsigned member (mem_of_mem_withEarlier isPair)
  have sameFields : owner.fields = ({ ClassType.new ref with fields := owner.fields } : ClassType).fields := rfl
  have sameErrors := bodyProblems_same member.role member.declaration sameFields
  rw [show owner.name = ref.name from congrArg ClassRef.name own] at sameErrors
  simp only [Member.settled_same, Member.signed, Member.newSignature?, noSignature, List.nil_append]
  by_cases refused : member.Refused earlier
  · simp [refused]
  · simpa [refused] using sameErrors.eq

def declaredMembers (declaration : ClassDeclaration) : List Member :=
  declaration.fixtures.map (Member.declared .fixture) ++ declaration.tests.map (Member.declared .test)

theorem eq_declared {declaration : ClassDeclaration} {member : Member}
    (isMember : member ∈ declaredMembers declaration) :
    member = Member.declared member.role member.declaration := by
  rcases List.mem_append.mp isMember with isFixture | isTest
  · obtain ⟨_, -, rfl⟩ := List.mem_map.mp isFixture
    rfl
  · obtain ⟨_, -, rfl⟩ := List.mem_map.mp isTest
    rfl

theorem declaredMembers_unsigned {declaration : ClassDeclaration} {member : Member}
    (isMember : member ∈ declaredMembers declaration) : member.signature = none := by
  rw [eq_declared isMember]
  rfl

theorem getElem?_check_members (declaration : ClassDeclaration) (number : Nat) :
    (check declaration).members[number]? = (declaredMembers declaration)[number]?.map fun member =>
      (member.signed (classRef declaration) ((declaredMembers declaration).take number)).settled
        (check declaration).type := by
  have members := (checkClass_registers (classRef declaration) declaration.fields
    (declaration.fixtures.map (Member.declared .fixture))
    (declaration.tests.map (Member.declared .test))).members
  change (check declaration).members = _ at members
  rw [members, List.getElem?_map, ← declaredMembers, getElem?_withEarlier, Option.map_map]
  rfl

def memberNames (members : List Member) : List String := members.map fun member => member.declaration.name

theorem memberNames_append (first second : List Member) :
    memberNames (first ++ second) = memberNames first ++ memberNames second :=
  List.map_append

theorem memberNames_take (number : Nat) (members : List Member) :
    memberNames (members.take number) = (memberNames members).take number :=
  List.map_take

theorem refused_iff {earlier others : List Member} {member other : Member}
    (names : memberNames earlier = memberNames others)
    (name : member.declaration.name = other.declaration.name) :
    member.Refused earlier ↔ other.Refused others := by
  rw [memberNames, memberNames] at names
  rw [Member.Refused, Member.Refused, names, name]

theorem memberNames_check (declaration : ClassDeclaration) :
    memberNames (check declaration).members = memberNames (declaredMembers declaration) := by
  apply List.ext_getElem?
  intro number
  rw [memberNames, memberNames, List.getElem?_map, getElem?_check_members, Option.map_map, List.getElem?_map]
  refine congrArg (Option.map · _) (funext fun member => ?_)
  exact congrArg MemberDeclaration.name ((member.signed _ _).settled_same _).2.1

theorem check_members_registered {declaration : ClassDeclaration} {number : Nat} {member : Member}
    (isMember : (check declaration).members[number]? = some member) :
    member.signature.isSome = true ↔ ¬member.Refused ((check declaration).members.take number) := by
  rw [getElem?_check_members, Option.map_eq_some_iff] at isMember
  obtain ⟨found, isFound, rfl⟩ := isMember
  have unsigned := declaredMembers_unsigned (List.mem_of_getElem? isFound)
  obtain ⟨-, sameDeclaration, sameSignature⟩ :=
    (found.signed (classRef declaration) ((declaredMembers declaration).take number)).settled_same
      (check declaration).type
  have names : memberNames ((check declaration).members.take number) =
      memberNames ((declaredMembers declaration).take number) := by
    rw [memberNames_take, memberNames_check, memberNames_take]
  have name : ((found.signed (classRef declaration) ((declaredMembers declaration).take number)).settled
      (check declaration).type).declaration.name = found.declaration.name :=
    congrArg MemberDeclaration.name sameDeclaration
  rw [sameSignature, refused_iff names name, Member.signed, Member.newSignature?, unsigned]
  by_cases refused : found.Refused ((declaredMembers declaration).take number)
  · simp [refused]
  · simp [refused]

theorem check_diagnostics (declaration : ClassDeclaration) :
    (check declaration).diagnostics = (errorParts declaration).all := by
  have registers := checkClass_registers (classRef declaration) declaration.fields
    (declaration.fixtures.map (Member.declared .fixture)) (declaration.tests.map (Member.declared .test))
  have unsigned : ∀ member ∈ declaredMembers declaration, member.signature = none :=
    fun _ => declaredMembers_unsigned
  have bodies := flatten_bodySections (check_ref declaration) unsigned
  rw [check_fields, declaredMembers, bodySections_append, List.flatten_append] at bodies
  have diagnostics := registers.diagnostics
  rw [registers.members, refusals_append] at diagnostics
  rw [errorParts, ErrorParts.all, List.append_assoc _ (List.flatten _), List.append_assoc _ _ (refusals _ _ _)]
  exact diagnostics.trans (congrArg _ bodies)

def withBody (body : Command) (member : MemberDeclaration) : MemberDeclaration := { member with body }

/-- The declaration with another body for one of its fixtures or tests. -/
def replaceBody (declaration : ClassDeclaration) (number : Nat) (body : Command) : Role → ClassDeclaration
  | .fixture => { declaration with fixtures := declaration.fixtures.modify number (withBody body) }
  | .test => { declaration with tests := declaration.tests.modify number (withBody body) }

def membersBefore (declaration : ClassDeclaration) (number : Nat) : Role → List Member
  | .fixture => (declaration.fixtures.take number).map (Member.declared .fixture)
  | .test => declaration.fixtures.map (Member.declared .fixture) ++
      (declaration.tests.take number).map (Member.declared .test)

def errorsOfBody (declaration : ClassDeclaration) (number : Nat) (body : Command) (role : Role) :
    List Diagnostic :=
  match (declared declaration role)[number]? with
  | none => []
  | some member =>
    if (Member.declared role member).Refused (membersBefore declaration number role) then []
    else Member.bodyProblems role (withBody body member)
      { ClassType.new (classRef declaration) with fields := registeredFields declaration }

def withoutBody (member : Member) : Member :=
  { member with declaration := withBody (.skip .unknown) member.declaration }

theorem refused_withoutBody (earlier : List Member) (member : Member) :
    (withoutBody member).Refused (earlier.map withoutBody) ↔ member.Refused earlier := by
  simp [Member.Refused, withoutBody, withBody, Function.comp_def]

theorem refusals_withoutBody (ref : ClassRef) (before members : List Member) :
    refusals ref (before.map withoutBody) (members.map withoutBody) = refusals ref before members := by
  rw [refusals, withEarlier_map, List.filterMap_map]
  refine List.filterMap_congr fun ⟨earlier, member⟩ _ => ?_
  simp only [Function.comp_apply, ← List.map_append, Member.problem?, refused_withoutBody]
  rfl

theorem modify_withoutBody (role : Role) (members : List MemberDeclaration) (number : Nat) (body : Command) :
    ((members.modify number (withBody body)).map (Member.declared role)).map withoutBody =
      (members.map (Member.declared role)).map withoutBody := by
  apply List.ext_getElem?
  intro index
  simp only [List.getElem?_map, List.getElem?_modify]
  split
  · cases members[index]? with
    | none => rfl
    | some member => rfl
  · simp

theorem getElem?_bodySections (ref : ClassRef) (fields : List Field) (before members : List Member)
    (index : Nat) :
    (bodySections ref fields before members)[index]? = members[index]?.map fun member =>
      if member.Refused (before ++ members.take index) then []
      else Member.bodyProblems member.role member.declaration { ClassType.new ref with fields } := by
  rw [bodySections, List.getElem?_map, getElem?_withEarlier, Option.map_map]
  rfl

theorem memberNames_modify (role : Role) (members : List MemberDeclaration) (number : Nat) (body : Command) :
    memberNames ((members.modify number (withBody body)).map (Member.declared role)) =
      memberNames (members.map (Member.declared role)) := by
  have same := congrArg memberNames (modify_withoutBody role members number body)
  simpa only [memberNames, List.map_map, Function.comp_def, withoutBody, withBody] using same

theorem bodySections_before (ref : ClassRef) (fields : List Field) {before others : List Member}
    (names : memberNames before = memberNames others) (members : List Member) :
    bodySections ref fields before members = bodySections ref fields others members := by
  refine List.map_congr_left fun ⟨earlier, member⟩ _ => ?_
  have sameNames : memberNames (before ++ earlier) = memberNames (others ++ earlier) := by
    rw [memberNames_append, names, memberNames_append]
  simp only [refused_iff sameNames rfl]

theorem bodySections_modify (ref : ClassRef) (fields : List Field) (before : List Member) (role : Role)
    (members : List MemberDeclaration) (number : Nat) (body : Command) :
    bodySections ref fields before ((members.modify number (withBody body)).map (Member.declared role)) =
      (bodySections ref fields before (members.map (Member.declared role))).set number
        (match members[number]? with
        | none => []
        | some member =>
          if (Member.declared role member).Refused
            (before ++ (members.take number).map (Member.declared role)) then []
          else Member.bodyProblems role (withBody body member) { ClassType.new ref with fields }) := by
  apply List.ext_getElem?
  intro index
  have names : memberNames (before ++
      ((members.modify number (withBody body)).map (Member.declared role)).take index) =
        memberNames (before ++ (members.map (Member.declared role)).take index) := by
    rw [memberNames_append, memberNames_append, memberNames_take, memberNames_modify, memberNames_take]
  rw [getElem?_bodySections, List.getElem?_map]
  by_cases here : number = index
  · subst here
    rw [List.getElem?_modify_eq]
    cases isMember : members[number]? with
    | none =>
        have short : members.length ≤ number := List.getElem?_eq_none_iff.mp isMember
        rw [List.getElem?_eq_none (by simpa [bodySections, withEarlier] using short)]
        rfl
    | some member =>
        have long := (List.getElem?_eq_some_iff.mp isMember).1
        have sameName : (Member.declared role (withBody body member)).declaration.name =
            (Member.declared role member).declaration.name := rfl
        rw [List.getElem?_set_self (by simpa [bodySections, withEarlier] using long)]
        simp only [Option.map_eq_map, Option.map_some, refused_iff names sameName, List.map_take]
        rfl
  · rw [List.getElem?_set_ne here, getElem?_bodySections, List.getElem?_map, List.getElem?_modify_ne _ _ here]
    simp only [refused_iff names rfl]

theorem refusals_eq (ref : ClassRef) {before others members more : List Member}
    (sameBefore : before.map withoutBody = others.map withoutBody)
    (sameMembers : members.map withoutBody = more.map withoutBody) :
    refusals ref before members = refusals ref others more := by
  rw [← refusals_withoutBody, sameBefore, sameMembers, refusals_withoutBody]

theorem errorParts_replaceBody (declaration : ClassDeclaration) (number : Nat) (body : Command) (role : Role) :
    errorParts (replaceBody declaration number body role) =
      (errorParts declaration).setBody number (errorsOfBody declaration number body role) role := by
  cases role with
  | fixture =>
      have same := modify_withoutBody .fixture declaration.fixtures number body
      simp only [errorParts, replaceBody, ErrorParts.setBody, bodySections_modify, refusals_eq _ rfl same,
        refusals_eq _ same rfl, bodySections_before _ _ (memberNames_modify _ _ _ _)]
      rfl
  | test =>
      have same := modify_withoutBody .test declaration.tests number body
      simp only [errorParts, replaceBody, ErrorParts.setBody, bodySections_modify, refusals_eq _ rfl same]
      rfl

end Sections

structure CommandErrors (checker : Checker) : Prop where
  unchanged : ∀ command, (checkCommand checker command).1 = checker
  sequence : ∀ position first second, (checkCommand checker (.seq position first second)).2 =
    (checkCommand checker first).2 ++ (checkCommand checker second).2
  complete : ∀ body site node, (Node.command body).at? site = some node →
    nodeProblems checker node <:+: (checkCommand checker body).2
  shared : ∀ site command ledger, ∃ notes, (checkCommandInPlace checker site command).run ledger =
    (checker, { problems := ledger.problems ++ (checkCommand checker command).2, notes })

theorem commandErrors (checker : Checker) : CommandErrors checker where
  unchanged := checkCommand_checker checker
  sequence := by
    intro position first second
    simp only [checkCommand, checkCommand_checker]
  complete := by
    intro body site node isNode
    have inBody : InBody (.command body) := trivial
    exact errors_at inBody isNode
  shared := by
    intro site command ledger
    obtain ⟨notes, -, ran⟩ := checkCommandInPlace_checks command site ledger.notes ledger rfl
    exact ⟨notes, ran⟩

structure BodyErrors (role : Role) (member : MemberDeclaration) : Prop where
  unreachable : ∀ owner, Member.bodyProblems role member owner =
    (checkCommand (Member.checkerFor role owner) member.body).2 ++
      member.body.firstUnreachable?.toList.map fun found =>
        { position := found.position, message := "unreachable code" }
  fields : ∀ owner other : ClassType, owner.fields = other.fields →
    SameErrors owner.name other.name (Member.bodyProblems role member owner)
      (Member.bodyProblems role member other)
  same : ∀ owner other : ClassType, owner.fields = other.fields → owner.name = other.name →
    Member.bodyProblems role member owner = Member.bodyProblems role member other

theorem bodyErrors (role : Role) (member : MemberDeclaration) : BodyErrors role member where
  unreachable := by
    intro owner
    rw [Member.bodyProblems, deadCodeProblems_eq]
  fields := fun owner other => bodyProblems_same role member
  same := by
    intro owner other fields names
    have related := bodyProblems_same role member fields
    rw [names] at related
    exact related.eq

/-- The errors of a class are those of its fields, of its fixtures and of its tests when they are registered,
and then of the bodies of those that are. In a class with another body for one member, the errors of that
body are others, and nothing else changes. In the one list that all members share they come in this order
behind what is there. -/
theorem diagnostics_compositional (declaration : ClassDeclaration) :
    (check declaration).diagnostics = (errorParts declaration).all ∧
      (∀ (number : Nat) (member : Member), (check declaration).members[number]? = some member →
        (member.signature.isSome = true ↔ ¬member.Refused ((check declaration).members.take number))) ∧
      (∀ number body role, errorParts (replaceBody declaration number body role) =
        (errorParts declaration).setBody number (errorsOfBody declaration number body role) role) ∧
      (∀ role member, BodyErrors role member) ∧
      (∀ checker, CommandErrors checker) ∧
      ∀ ledger, ((checkInPlace declaration).run ledger).2.problems =
        ledger.problems ++ (check declaration).diagnostics := by
  refine ⟨check_diagnostics declaration, fun _ _ => check_members_registered,
    errorParts_replaceBody declaration, bodyErrors, commandErrors, ?_⟩
  intro ledger
  obtain ⟨notes, -, ran⟩ := checkInPlace_checks declaration ledger.notes ledger rfl
  rw [ran]

example :
    let place := fun line : Int => Position.make "foo" line 5
    let checked := check
      { position := .unknown, name := "Foo"
        fields := [{ position := .unknown, name := "count", typeName := "int" }]
        fixtures :=
          [{ position := place 2, name := "init"
             body := .seq (place 3) (.assert (place 3) (.boolean (place 3) true))
               (.assign (place 4) "count" (.boolean (place 4) true)) }]
        tests := [{ position := place 6, name := "t", body := .assert (place 7) (.int (place 7) 3) }] }
    checked.diagnostics.map (fun problem => (problem.position.line, problem.message)) =
      [(3, "assert only permitted inside a test"), (4, "int expected, found boolean"),
        (7, "boolean expected, found int")] := by decide

end Assay.Typing
