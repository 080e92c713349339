import Assay.Proofs.Description.Independence

/-!
The order of keys does not matter in the description of a class, except among its fields. The mappings may be
reordered anywhere and at any depth, so each decoder is shown to read a reordered tree alike, from the leaves
up.
-/

namespace Assay.Description

open Document (Node Place Scalar)
open Syntax (Command ClassDeclaration Expression)

/-- The same tree but for the order of entries. Every node keeps its place. -/
inductive Reordered : Node → Node → Prop
  | scalar (place : Place) (value : Scalar) : Reordered (.scalar place value) (.scalar place value)
  | special (place : Place) : Reordered (.special place) (.special place)
  | sequence (place : Place) {items others : List Node} : List.Forall₂ Reordered items others →
      Reordered (.sequence place items) (.sequence place others)
  | mapping (place : Place) {entries same others : List (Node × Node)} :
      List.Forall₂ (Prod.RProd Reordered Reordered) entries same → same.Perm others →
      Reordered (.mapping place entries) (.mapping place others)

/-- Reordered, but the entries of the node itself, if it is a mapping, stay in their order. -/
inductive ReorderedInside : Node → Node → Prop
  | mapping (place : Place) {entries others : List (Node × Node)} :
      List.Forall₂ (Prod.RProd Reordered Reordered) entries others →
      ReorderedInside (.mapping place entries) (.mapping place others)
  | other {node other : Node} : (∀ place entries, node ≠ .mapping place entries) →
      Reordered node other → ReorderedInside node other

/-- An entry of a class. The fields keep their order. -/
inductive ReorderedEntry : Node × Node → Node × Node → Prop
  | fields (place : Place) {value other : Node} : ReorderedInside value other →
      ReorderedEntry (.scalar place (.text "fields"), value) (.scalar place (.text "fields"), other)
  | other {name otherName value other : Node} : (∀ place, name ≠ .scalar place (.text "fields")) →
      Reordered name otherName → Reordered value other →
      ReorderedEntry (name, value) (otherName, other)

/-- The same description of a class but for the order of entries other than those of its fields. -/
inductive ReorderedClass : Node → Node → Prop
  | mapping (place : Place) {entries same others : List (Node × Node)} :
      List.Forall₂ ReorderedEntry entries same → same.Perm others →
      ReorderedClass (.mapping place entries) (.mapping place others)

theorem Reordered.refl (node : Node) : Reordered node node := by
  induction node using node_induction with
  | step node ih =>
      cases node with
      | scalar place value => exact .scalar place value
      | special place => exact .special place
      | sequence place items =>
          exact .sequence place (List.forall₂_same.mpr fun item isItem =>
            ih item (sizeOf_lt_sequence place isItem))
      | mapping place entries =>
          refine .mapping place (List.forall₂_same.mpr fun pair isPair => ?_) (.refl entries)
          have inside := List.sizeOf_lt_of_mem isPair
          obtain ⟨name, value⟩ := pair
          rw [Prod.mk.sizeOf_spec] at inside
          refine ⟨ih name ?_, ih value ?_⟩
          all_goals
            rw [Node.mapping.sizeOf_spec]
            omega

theorem Reordered.place {node other : Node} (reordered : Reordered node other) :
    other.place = node.place := by
  cases reordered <;> rfl

theorem Reordered.of_scalar {place : Place} {value : Scalar} {other : Node}
    (reordered : Reordered (.scalar place value) other) : other = .scalar place value := by
  cases reordered
  rfl

theorem Reordered.single {place keyPlace : Place} {key : String} {value other : Node}
    (reordered : Reordered (single place keyPlace key value) other) :
    ∃ moved, other = Description.single place keyPlace key moved ∧ Reordered value moved := by
  cases reordered with
  | mapping _ each perm =>
      cases each with
      | cons here later =>
          cases later
          cases here with
          | intro name moved =>
              obtain rfl := name.of_scalar
              obtain rfl := List.singleton_perm.mp perm
              exact ⟨_, rfl, moved⟩

theorem Reordered.pair {place : Place} {left right other : Node}
    (reordered : Reordered (.sequence place [left, right]) other) :
    ∃ otherLeft otherRight, other = .sequence place [otherLeft, otherRight] ∧
      Reordered left otherLeft ∧ Reordered right otherRight := by
  cases reordered with
  | sequence _ each =>
      cases each with
      | cons leftReordered later =>
          cases later with
          | cons rightReordered last =>
              cases last
              exact ⟨_, _, rfl, leftReordered, rightReordered⟩

section Entries

theorem entries_related {alike : Node × Node → Node × Node → Prop} {related : Entry → Entry → Prop}
    {entries : List Entry} {pairs : List (Node × Node)}
    (found : ∀ entry pair, alike entry.pair pair →
      ∃ other, pair = Entry.pair other ∧ related entry other)
    (each : List.Forall₂ alike (entries.map Entry.pair) pairs) :
    ∃ moved, pairs = moved.map Entry.pair ∧ List.Forall₂ related entries moved := by
  induction entries generalizing pairs with
  | nil =>
      cases each
      exact ⟨[], rfl, .nil⟩
  | cons entry rest ih =>
      cases each with
      | cons here later =>
          obtain ⟨other, rfl, isRelated⟩ := found entry _ here
          obtain ⟨moved, rfl, areRelated⟩ := ih later
          exact ⟨other :: moved, rfl, .cons isRelated areRelated⟩

theorem entries_moved {entries : List Entry} {pairs : List (Node × Node)}
    (perm : (entries.map Entry.pair).Perm pairs) :
    ∃ moved, pairs = moved.map Entry.pair ∧ entries.Perm moved := by
  have paired : List.Forall₂ (fun pair entry => pair = Entry.pair entry) (entries.map Entry.pair) entries :=
    List.forall₂_map_left_iff.mpr (List.forall₂_same.mpr fun _ _ => rfl)
  -- The pairs are permuted first and turned back to entries then, or the other way round.
  obtain ⟨moved, arePairs, isPerm⟩ := List.perm_comp_forall₂ perm.symm paired
  exact ⟨moved, List.forall₂_eq_eq_eq ▸ List.forall₂_map_right_iff.mpr arePairs, isPerm.symm⟩

structure Entry.Beside (entry other : Entry) : Prop where
  key : other.key = entry.key
  keyPlace : other.keyPlace = entry.keyPlace

structure Entry.Alike (entry other : Entry) : Prop extends entry.Beside other where
  value : Reordered entry.value other.value

theorem alike_of_pair {entry : Entry} {pair : Node × Node}
    (reordered : Prod.RProd Reordered Reordered entry.pair pair) :
    ∃ other, pair = Entry.pair other ∧ entry.Alike other := by
  cases reordered with
  | @intro _ _ _ moved name value =>
      obtain rfl := name.of_scalar
      exact ⟨{ entry with value := moved }, rfl, ⟨rfl, rfl⟩, value⟩

theorem distinct_of_moved {related : Entry → Entry → Prop} {entries middle last : List Entry}
    (beside : ∀ entry other, related entry other → entry.Beside other)
    (each : List.Forall₂ related entries middle) (perm : middle.Perm last)
    (distinct : (entries.map Entry.key).Nodup) : (last.map Entry.key).Nodup := by
  have sameKeys : middle.map Entry.key = entries.map Entry.key := by
    clear perm distinct
    induction each with
    | nil => rfl
    | cons here _ ih => rw [List.map_cons, List.map_cons, (beside _ _ here).key, ih]
  exact (perm.map Entry.key).nodup_iff.mp (sameKeys ▸ distinct)

theorem Keyed.reordered {node other : Node} {entries : List Entry} (keyed : Keyed node entries)
    (reordered : Reordered node other) :
    ∃ middle last, Keyed other last ∧ List.Forall₂ Entry.Alike entries middle ∧ middle.Perm last := by
  obtain ⟨distinct, place, rfl⟩ := keyed
  cases reordered with
  | mapping _ each perm =>
      obtain ⟨middle, rfl, alike⟩ := entries_related (fun _ _ => alike_of_pair) each
      obtain ⟨last, rfl, isPerm⟩ := entries_moved perm
      have stillDistinct := distinct_of_moved (fun _ _ alike => alike.toBeside) alike isPerm distinct
      exact ⟨middle, last, ⟨stillDistinct, place, rfl⟩, alike, isPerm⟩

theorem entries_follow {σ α : Type} {loop : σ → List Entry → Decode σ} {node other : Node}
    (independent : Independent loop)
    (one : ∀ parts entry moved, entry.Alike moved → Follows (loop parts [entry]) (loop parts [moved]))
    (what : String) (start : σ) (finish : σ → Decode α) (reordered : Reordered node other) :
    Follows (decodeEntries what node >>= fun entries => loop start entries >>= finish)
      (decodeEntries what other >>= fun entries => loop start entries >>= finish) := by
  intro result done
  obtain ⟨entries, read, done⟩ := bind_eq_ok.mp done
  obtain ⟨middle, last, keyed, alike, perm⟩ := (decodeEntries_eq_ok.mp read).reordered reordered
  have follows := independent.follows (fun entry _ moved alike parts => one parts entry moved alike)
    alike perm keyed.distinct start
  exact bind_eq_ok.mpr ⟨last, decodeEntries_eq_ok.mpr keyed,
    (follows.bind fun parts => .refl (finish parts)) result done⟩

end Entries

section Bodies

variable {node other : Node}

theorem decodeString_follows (what : String) (reordered : Reordered node other) :
    Follows (decodeString what node) (decodeString what other) := by
  intro value done
  obtain ⟨place, rfl⟩ := decodeString_eq_ok.mp done
  rw [reordered.of_scalar]
  exact done

theorem decodeInteger_follows (reordered : Reordered node other) :
    Follows (decodeInteger node) (decodeInteger other) := by
  intro number done
  obtain ⟨place, value, rfl, -⟩ := decodeInteger_eq_ok done
  rw [reordered.of_scalar]
  exact done

theorem decodeBoolean_follows (reordered : Reordered node other) :
    Follows (decodeBoolean node) (decodeBoolean other) := by
  intro truth done
  obtain ⟨place, rfl⟩ := decodeBoolean_eq_ok done
  rw [reordered.of_scalar]
  exact done

theorem decodeExpression_follows (source : String) (reordered : Reordered node other) :
    Follows (decodeExpression source node) (decodeExpression source other) := by
  induction node using node_induction generalizing other with
  | step node ih =>
      intro expression done
      obtain ⟨place, keyPlace, key, value, rfl⟩ := single_of_decodeExpression done
      obtain ⟨moved, rfl, valueReordered⟩ := reordered.single
      have smaller := sizeOf_lt_single place keyPlace key value
      rw [decodeExpression_single] at done ⊢
      revert expression
      change Follows _ _
      split
      · exact (decodeInteger_follows valueReordered).bind fun _ => .refl _
      split
      · exact (decodeBoolean_follows valueReordered).bind fun _ => .refl _
      split
      · exact (decodeString_follows _ valueReordered).bind fun _ => .refl _
      split
      · exact (ih value smaller valueReordered).bind fun _ => .refl _
      split
      · exact follows_complain _ _ _
      · split
        · rename_i listPlace left right
          obtain ⟨otherLeft, otherRight, rfl, leftReordered, rightReordered⟩ := valueReordered.pair
          have isItem : left ∈ [left, right] ∧ right ∈ [left, right] := by simp
          have leftSmaller := Nat.lt_trans (sizeOf_lt_sequence listPlace isItem.1) smaller
          have rightSmaller := Nat.lt_trans (sizeOf_lt_sequence listPlace isItem.2) smaller
          exact (ih left leftSmaller leftReordered).bind fun _ =>
            (ih right rightSmaller rightReordered).bind fun _ => .refl _
        · exact fun _ done => absurd done notTwoOperands_ne_ok

end Bodies

section Commands

variable (source : String) {node other : Node}

theorem assignment_one_follows (parts : Assignment) {entry moved : Entry} (alike : entry.Alike moved) :
    Follows (decodeAssignmentParts source parts [entry]) (decodeAssignmentParts source parts [moved]) := by
  have texts := decodeString_follows "field name" alike.value
  have values := decodeExpression_follows source alike.value
  intro next done
  rw [decodeAssignmentParts_one] at done ⊢
  rw [alike.key]
  exact done.imp (exists_part_follows fun _ => texts) (exists_part_follows fun _ => values)

theorem decodeAssignment_follows (keyPlace : Place) (reordered : Reordered node other) :
    Follows (decodeAssignment source keyPlace node) (decodeAssignment source keyPlace other) :=
  entries_follow (decodeAssignmentParts_independent source)
    (fun parts _ _ => assignment_one_follows source parts) "assign" _ _ reordered

theorem control_one_follows {control : Control} (parts : ControlParts) {entry moved : Entry}
    (bodies : Follows (decodeBlock source entry.value) (decodeBlock source moved.value))
    (alike : entry.Alike moved) :
    Follows (decodeControlParts source control parts [entry.pair])
      (decodeControlParts source control parts [moved.pair]) := by
  have conditions := decodeExpression_follows source alike.value
  intro next done
  rw [decodeControlParts_one] at done ⊢
  rw [alike.key]
  refine done.imp (exists_part_follows fun _ => conditions) (Or.imp ?body ?otherwise)
  case body => exact exists_part_follows fun _ => bodies
  case otherwise => exact And.imp_right (exists_part_follows fun _ => bodies)

theorem decodeControl_follows {control : Control} (keyPlace : Place)
    (bodies : ∀ child, sizeOf child < sizeOf node → ∀ {moved}, Reordered child moved →
      Follows (decodeBlock source child) (decodeBlock source moved))
    (reordered : Reordered node other) :
    Follows (decodeControl source control keyPlace node) (decodeControl source control keyPlace other) := by
  intro command done
  obtain ⟨entries, keyed, parts, partsRead, done⟩ := decodeControl_eq_ok.mp done
  obtain ⟨middle, last, stillKeyed, alike, perm⟩ := keyed.reordered reordered
  have follows := (decodeControlParts_independent source control).follows
    (fun entry isEntry moved alike parts => control_one_follows source parts
      (bodies _ (keyed.sizeOf_lt isEntry) alike.value) alike) alike perm stillKeyed.distinct
  exact decodeControl_eq_ok.mpr ⟨last, stillKeyed, parts, follows _ parts partsRead, done⟩

theorem decodeCommands_follows {items others : List Node}
    (each : List.Forall₂ (fun item other => Follows (decodeCommand source item)
      (decodeCommand source other)) items others) :
    Follows (decodeCommands source items) (decodeCommands source others) := by
  exact each_follows (fun item rest => by rw [decodeCommands])
    (each.imp fun item other follows => ⟨follows, rfl⟩)

theorem decodeCommand_follows_of_blocks
    (bodies : ∀ child, sizeOf child < sizeOf node → ∀ {moved}, Reordered child moved →
      Follows (decodeBlock source child) (decodeBlock source moved))
    (reordered : Reordered node other) :
    Follows (decodeCommand source node) (decodeCommand source other) := by
  intro command done
  rcases shape_of_decodeCommand done with ⟨place, word, -, rfl⟩ | ⟨place, keyPlace, key, value, rfl⟩
  · rw [reordered.of_scalar]
    exact done
  obtain ⟨moved, rfl, valueReordered⟩ := reordered.single
  have control : ∀ control, Follows (decodeControl source control keyPlace value)
      (decodeControl source control keyPlace moved) := fun control =>
    decodeControl_follows source keyPlace (fun child smaller =>
      bodies child (Nat.lt_trans smaller (sizeOf_lt_single place keyPlace key value))) valueReordered
  rw [decodeCommand_single] at done ⊢
  revert command
  change Follows _ _
  split
  · exact .refl _
  split
  · exact .refl _
  split
  · exact (decodeExpression_follows source valueReordered).bind fun _ => .refl _
  split
  · exact decodeAssignment_follows source keyPlace valueReordered
  split
  · exact control .choice
  split
  · exact control .loop
  · exact .refl _

theorem decodeBlock_follows (reordered : Reordered node other) :
    Follows (decodeBlock source node) (decodeBlock source other) := by
  induction node using node_induction generalizing other with
  | step node ih =>
      cases reordered with
      | scalar place value => exact .refl _
      | special place => exact .refl _
      | mapping place each perm =>
          simp only [decodeBlock]
          exact follows_complain _ _ _
      | @sequence place items others each =>
          rw [decodeBlock, decodeBlock]
          have among := (List.forall₂_and_left items others).mpr ⟨fun item isItem => isItem, each⟩
          refine Follows.bind (decodeCommands_follows source ?_) fun _ => .refl _
          refine among.imp ?_
          rintro item other ⟨isItem, reordered⟩
          have inside := sizeOf_lt_sequence place isItem
          exact decodeCommand_follows_of_blocks source
            (fun child smaller => ih child (Nat.lt_trans smaller inside)) reordered

end Commands

section Classes

variable (source : String) {node other : Node}

theorem member_one_follows (kind : String) (parts : MemberParts) {entry moved : Entry}
    (alike : entry.Alike moved) :
    Follows (decodeMemberParts source kind parts [entry]) (decodeMemberParts source kind parts [moved]) := by
  have texts := decodeString_follows (kind ++ " name") alike.value
  have bodies := decodeBlock_follows source alike.value
  intro next done
  rw [decodeMemberParts_one] at done ⊢
  rw [alike.key]
  exact done.imp (exists_part_follows fun _ => texts) (exists_part_follows fun _ => bodies)

theorem decodeMember_follows (kind : String) (reordered : Reordered node other) :
    Follows (decodeMember source kind node) (decodeMember source kind other) := by
  unfold decodeMember
  rw [reordered.place]
  exact entries_follow (decodeMemberParts_independent source kind)
    (fun parts _ _ => member_one_follows source kind parts) kind _ _ reordered

theorem decodeMemberSequence_follows (kind : String) (reordered : Reordered node other) :
    Follows (decodeMemberSequence source kind node) (decodeMemberSequence source kind other) := by
  cases reordered with
  | scalar place value => exact .refl _
  | special place => exact .refl _
  | mapping place each perm => exact follows_complain _ _ _
  | sequence place each =>
      exact each_follows (fun item rest => by rw [decodeMembers])
        (each.imp fun item other reordered => ⟨decodeMember_follows source kind reordered, rfl⟩)

theorem decodeFields_follows {entries moved : List Entry} (each : List.Forall₂ Entry.Alike entries moved) :
    Follows (decodeFields source entries) (decodeFields source moved) := by
  refine each_follows (fun entry rest => by rw [decodeFields]) (each.imp fun entry other alike => ?_)
  refine ⟨decodeString_follows "field type" alike.value, ?_⟩
  rw [alike.key, alike.keyPlace]

theorem decodeFieldMapping_follows (reordered : ReorderedInside node other) :
    Follows (decodeFieldMapping source node) (decodeFieldMapping source other) := by
  cases reordered with
  | mapping place each =>
      intro fields done
      obtain ⟨entries, read, fieldsRead⟩ := bind_eq_ok.mp done
      obtain ⟨distinct, _, shape⟩ := decodeEntries_eq_ok.mp read
      cases shape
      obtain ⟨moved, rfl, alike⟩ := entries_related (fun _ _ => alike_of_pair) each
      have stillDistinct := distinct_of_moved (fun _ _ alike => alike.toBeside) alike (.refl _) distinct
      exact bind_eq_ok.mpr ⟨moved, decodeEntries_eq_ok.mpr ⟨stillDistinct, place, rfl⟩,
        decodeFields_follows source alike fields fieldsRead⟩
  | other notMapping reordered =>
      cases reordered with
      | scalar place value => exact .refl _
      | special place => exact .refl _
      | mapping place => exact absurd rfl (notMapping place _)
      | sequence place each => exact follows_complain _ _ _

structure Entry.ClassAlike (entry other : Entry) : Prop extends entry.Beside other where
  fields : entry.key = "fields" → ReorderedInside entry.value other.value
  parts : entry.key ≠ "fields" → Reordered entry.value other.value

theorem classAlike_of_pair {entry : Entry} {pair : Node × Node}
    (reordered : ReorderedEntry entry.pair pair) :
    ∃ other, pair = Entry.pair other ∧ entry.ClassAlike other := by
  obtain ⟨key, keyPlace, value⟩ := entry
  cases reordered with
  | @fields _ _ moved inside =>
      exact ⟨⟨"fields", keyPlace, moved⟩, rfl, ⟨rfl, rfl⟩, fun _ => inside, fun no => absurd rfl no⟩
  | @other _ _ _ moved notFields name reordered =>
      obtain rfl := name.of_scalar
      refine ⟨⟨key, keyPlace, moved⟩, rfl, ⟨rfl, rfl⟩, fun isFields => ?_, fun _ => reordered⟩
      exact absurd (isFields ▸ rfl) (notFields keyPlace)

theorem class_one_follows (parts : ClassDeclaration) {entry moved : Entry} (alike : entry.ClassAlike moved) :
    Follows (decodeClassParts source parts [entry]) (decodeClassParts source parts [moved]) := by
  intro next done
  rw [decodeClassParts_one] at done ⊢
  rw [alike.key, alike.keyPlace]
  refine done.imp ?name (Or.imp ?fields (Or.imp ?fixtures ?tests))
  case name =>
    refine exists_part_follows fun isClass => decodeString_follows _ (alike.parts ?_)
    simp [isClass]
  case fields =>
    exact exists_part_follows fun isFields => decodeFieldMapping_follows source (alike.fields isFields)
  case fixtures =>
    refine exists_part_follows fun isFixtures => decodeMemberSequence_follows source _ (alike.parts ?_)
    simp [isFixtures]
  case tests =>
    refine exists_part_follows fun isTests => decodeMemberSequence_follows source _ (alike.parts ?_)
    simp [isTests]

/-- A description of a class is decoded to the same declaration in whatever order the keys of its mappings
stand, those of its fields apart. -/
theorem decodeClass_reordered (reordered : ReorderedClass node other) {declaration : ClassDeclaration}
    (done : decodeClass source node = .ok declaration) : decodeClass source other = .ok declaration := by
  obtain ⟨entries, read, done⟩ := bind_eq_ok.mp done
  obtain ⟨parts, partsRead, done⟩ := bind_eq_ok.mp done
  obtain ⟨distinct, place, rfl⟩ := decodeEntries_eq_ok.mp read
  cases reordered with
  | mapping _ each perm =>
      obtain ⟨middle, rfl, alike⟩ := entries_related (fun _ _ => classAlike_of_pair) each
      obtain ⟨last, rfl, isPerm⟩ := entries_moved perm
      have stillDistinct := distinct_of_moved (fun _ _ alike => alike.toBeside) alike isPerm distinct
      have follows := (decodeClassParts_independent source).follows
        (fun _ _ _ alike parts => class_one_follows source parts alike) alike isPerm stillDistinct
      exact bind_eq_ok.mpr ⟨last, decodeEntries_eq_ok.mpr ⟨stillDistinct, place, rfl⟩,
        bind_eq_ok.mpr ⟨parts, follows _ parts partsRead, done⟩⟩

def boxClass (order : List (Node × Node) → List (Node × Node)) : Node :=
  let condition := single ⟨7, 17⟩ ⟨7, 18⟩ "bool" (.scalar ⟨7, 24⟩ (.boolean true))
  let choice := single ⟨6, 11⟩ ⟨6, 9⟩ "if" (.mapping ⟨7, 15⟩ (order
    [(.scalar ⟨7, 11⟩ (.text "cond"), condition),
      (.scalar ⟨8, 11⟩ (.text "then"), .sequence ⟨8, 17⟩ [.scalar ⟨8, 18⟩ (.text "return")])]))
  let test := .mapping ⟨4, 9⟩ (order
    [(.scalar ⟨4, 5⟩ (.text "name"), .scalar ⟨4, 11⟩ (.text "done")),
      (.scalar ⟨5, 5⟩ (.text "body"), .sequence ⟨6, 7⟩ [choice])])
  let fields := .mapping ⟨2, 9⟩ [(.scalar ⟨2, 10⟩ (.text "a"), .scalar ⟨2, 13⟩ (.text "int")),
    (.scalar ⟨2, 18⟩ (.text "b"), .scalar ⟨2, 21⟩ (.text "int"))]
  .mapping ⟨1, 6⟩ (order
    [(.scalar ⟨1, 1⟩ (.text "class"), .scalar ⟨1, 8⟩ (.text "Box")),
      (.scalar ⟨2, 1⟩ (.text "fields"), fields),
      (.scalar ⟨3, 1⟩ (.text "tests"), .sequence ⟨4, 3⟩ [test])])

theorem boxClass_reordered : ReorderedClass (boxClass id) (boxClass List.reverse) := by
  have turned : ∀ entries : List (Node × Node), (id entries).Perm entries.reverse :=
    fun entries => (List.reverse_perm entries).symm
  have each : ∀ entries : List (Node × Node),
      List.Forall₂ (Prod.RProd Reordered Reordered) entries entries :=
    fun entries => List.forall₂_same.mpr fun pair _ => ⟨.refl pair.1, .refl pair.2⟩
  refine .mapping ⟨1, 6⟩ (.cons (.other (by simp) (.refl _) (.refl _)) (.cons
    (.fields _ (.mapping _ (each _))) (.cons
      (.other (by simp) (.refl _) (.sequence _ (.cons ?test .nil))) .nil))) (turned _)
  refine .mapping _ (.cons ⟨.refl _, .refl _⟩ (.cons ⟨.refl _, .sequence _ (.cons ?choice .nil)⟩ .nil))
    (turned _)
  refine .mapping _ (.cons ⟨.refl _, ?parts⟩ .nil) (.refl _)
  exact .mapping _ (each _) (turned _)

theorem decodeClass_boxClass_reverse :
    ∃ declaration, ReorderedClass (boxClass id) (boxClass List.reverse) ∧
      decodeClass "box.kit.yaml" (boxClass id) = .ok declaration ∧ declaration.tests.length = 1 ∧
        decodeClass "box.kit.yaml" (boxClass List.reverse) = .ok declaration := by
  have done : decodeClass "box.kit.yaml" (boxClass id) = .ok
      { position := ⟨"box.kit.yaml", 1, 1⟩, name := "Box", fixtures := []
        fields := [{ position := ⟨"box.kit.yaml", 2, 10⟩, name := "a", typeName := "int" },
          { position := ⟨"box.kit.yaml", 2, 18⟩, name := "b", typeName := "int" }]
        tests := [
          { position := ⟨"box.kit.yaml", 4, 9⟩, name := "done"
            body := .ifThen ⟨"box.kit.yaml", 6, 9⟩ (.boolean ⟨"box.kit.yaml", 7, 18⟩ true)
              (.ret ⟨"box.kit.yaml", 8, 18⟩) }] } := by
    decide +kernel
  exact ⟨_, boxClass_reordered, done, rfl,
    decodeClass_reordered "box.kit.yaml" boxClass_reordered done⟩

end Classes

end Assay.Description
