import Assay.Proofs.Description.Entries
import Mathlib.Algebra.Ring.Int.Defs

/-!
The grammar of class descriptions, said without the decoder. Of the expressions it describes, the
decoder accepts all, and nothing else.
-/

namespace Assay.Description

open Document (Node Place)
open Syntax (Command ClassDeclaration Expression)

def IsText (node : Node) : Prop := ∃ place value, node = .scalar place (.text value)

def IsName (node : Node) : Prop := ∃ place value, node = .scalar place (.text value) ∧ value ≠ ""

def IsNull (node : Node) : Prop := ∃ place, node = .scalar place .null

structure KeyedBy (keys : List String) (node : Node) (entries : List Entry) : Prop extends
    Keyed node entries where
  known : ∀ entry ∈ entries, entry.key ∈ keys

def HasKey (entries : List Entry) (key : String) : Prop := ∃ entry ∈ entries, entry.key = key

def single (place keyPlace : Place) (key : String) (value : Node) : Node :=
  .mapping place [(.scalar keyPlace (.text key), value)]

inductive IsExpression : Node → Prop
  | int (place keyPlace valuePlace : Place) {value : Int} : -2 ^ 63 ≤ value → value < 2 ^ 63 →
      IsExpression (single place keyPlace "int" (.scalar valuePlace (.integer value)))
  | boolean (place keyPlace valuePlace : Place) (value : Bool) :
      IsExpression (single place keyPlace "bool" (.scalar valuePlace (.boolean value)))
  | field (place keyPlace valuePlace : Place) (name : String) :
      IsExpression (single place keyPlace "field" (.scalar valuePlace (.text name)))
  | not (place keyPlace : Place) {operand : Node} : IsExpression operand →
      IsExpression (single place keyPlace "not" operand)
  | connective (place keyPlace listPlace : Place) {key : String} {left right : Node} :
      key ∈ ["and", "or", "add", "sub", "mul", "lt", "le", "gt", "ge", "eq", "ne"] →
      IsExpression left → IsExpression right →
      IsExpression (single place keyPlace key (.sequence listPlace [left, right]))

mutual

inductive IsCommand : Node → Prop
  | word (place : Place) {word : String} : word ∈ ["return", "skip"] →
      IsCommand (.scalar place (.text word))
  | bare (place keyPlace : Place) {key : String} (value : Node) : key ∈ ["return", "skip"] →
      IsCommand (single place keyPlace key value)
  | assert (place keyPlace : Place) {condition : Node} : IsExpression condition →
      IsCommand (single place keyPlace "assert" condition)
  | assign (place keyPlace : Place) {parts : Node} {entries : List Entry} :
      KeyedBy ["field", "value"] parts entries → HasKey entries "field" → HasKey entries "value" →
      (∀ entry ∈ entries, entry.key = "field" → IsName entry.value) →
      (∀ entry ∈ entries, entry.key = "value" → IsExpression entry.value) →
      IsCommand (single place keyPlace "assign" parts)
  | choice (place keyPlace : Place) {parts : Node} {entries : List Entry} :
      KeyedBy ["cond", "then", "else"] parts entries → HasKey entries "cond" →
      (∀ entry ∈ entries, entry.key = "cond" → IsExpression entry.value) →
      (∀ entry ∈ entries, entry.key = "then" → IsBlock entry.value) →
      (∀ entry ∈ entries, entry.key = "else" → IsBlock entry.value) →
      IsCommand (single place keyPlace "if" parts)
  | loop (place keyPlace : Place) {parts : Node} {entries : List Entry} :
      KeyedBy ["cond", "body"] parts entries → HasKey entries "cond" →
      (∀ entry ∈ entries, entry.key = "cond" → IsExpression entry.value) →
      (∀ entry ∈ entries, entry.key = "body" → IsBlock entry.value) →
      IsCommand (single place keyPlace "while" parts)

/-- The commands of a body. Null stands for none. -/
inductive IsBlock : Node → Prop
  | null (place : Place) : IsBlock (.scalar place .null)
  | commands (place : Place) {items : List Node} : (∀ item ∈ items, IsCommand item) →
      IsBlock (.sequence place items)

end

def IsFields (node : Node) : Prop :=
  IsNull node ∨ ∃ entries, Keyed node entries ∧ ∀ entry ∈ entries, IsText entry.value

def IsMember (node : Node) : Prop :=
  ∃ entries, KeyedBy ["name", "body"] node entries ∧ HasKey entries "name" ∧
    (∀ entry ∈ entries, entry.key = "name" → IsName entry.value) ∧
    ∀ entry ∈ entries, entry.key = "body" → IsBlock entry.value

def IsMembers (node : Node) : Prop :=
  IsNull node ∨ ∃ place items, node = .sequence place items ∧ ∀ item ∈ items, IsMember item

def IsClass (node : Node) : Prop :=
  ∃ entries, KeyedBy ["class", "fields", "fixtures", "tests"] node entries ∧
    HasKey entries "class" ∧
    (∀ entry ∈ entries, entry.key = "class" → IsName entry.value) ∧
    (∀ entry ∈ entries, entry.key = "fields" → IsFields entry.value) ∧
    (∀ entry ∈ entries, entry.key = "fixtures" → IsMembers entry.value) ∧
    ∀ entry ∈ entries, entry.key = "tests" → IsMembers entry.value

variable {source : String}

theorem isText_iff {what : String} {node : Node} :
    (∃ value, decodeString what node = .ok value) ↔ IsText node := by
  simp only [decodeString_eq_ok, IsText]
  exact exists_comm

theorem IsName.isText {node : Node} (isName : IsName node) : IsText node := by
  obtain ⟨place, value, isValue, -⟩ := isName
  exact ⟨place, value, isValue⟩

theorem named_iff {entries : List Entry} {key what name : String}
    (given : Given entries key (fun entry name => decodeString what entry.value = .ok name) ""
      name) :
    name ≠ "" ↔ HasKey entries key ∧ ∀ entry ∈ entries, entry.key = key → IsName entry.value := by
  constructor
  · intro nonempty
    constructor
    · refine Classical.byContradiction fun missing => nonempty (given.2 fun entry isEntry isKey => ?_)
      exact missing ⟨entry, isEntry, isKey⟩
    · intro entry isEntry isKey
      obtain ⟨place, isText⟩ := decodeString_eq_ok.mp (given.1 entry isEntry isKey)
      exact ⟨place, name, isText, nonempty⟩
  · rintro ⟨⟨entry, isEntry, isKey⟩, named⟩
    obtain ⟨place, isText⟩ := decodeString_eq_ok.mp (given.1 entry isEntry isKey)
    obtain ⟨_, text, isName, nonempty⟩ := named entry isEntry isKey
    rw [isText] at isName
    cases isName
    exact nonempty

theorem present_iff {α : Type} {entries : List Entry} {key : String} {part : Option α}
    (given : Given entries key (fun _ part => part.isSome = true) none part) :
    part.isSome = true ↔ HasKey entries key := by
  constructor
  · intro isSome
    refine Classical.byContradiction fun missing => ?_
    have isNone : part = none :=
      given.2 fun entry isEntry isKey => missing ⟨entry, isEntry, isKey⟩
    rw [isNone] at isSome
    cases isSome
  · rintro ⟨entry, isEntry, isKey⟩
    exact given.1 entry isEntry isKey

theorem connective?_isSome (key : String) :
    (connective? key).isSome = true ↔
      key ∈ ["and", "or", "add", "sub", "mul", "lt", "le", "gt", "ge", "eq", "ne"] := by
  have binary : (binaryOperator? key).isSome = true ↔ key ∈ ["add", "sub", "mul"] := by
    simp [binaryOperator?, List.lookup_isSome_iff]
  have comparison : (comparisonOperator? key).isSome = true ↔
      key ∈ ["lt", "le", "gt", "ge", "eq", "ne"] := by
    simp [comparisonOperator?, List.lookup_isSome_iff]
  have operators : (connective? key).isSome = true ↔ key = "and" ∨ key = "or" ∨
      (binaryOperator? key).isSome = true ∨ (comparisonOperator? key).isSome = true := by
    unfold connective?
    repeat' split
    all_goals simp_all
  rw [operators, binary, comparison]
  simp [or_assoc]

theorem decodeInteger_eq_ok {node : Node} {number : Int64} (done : decodeInteger node = .ok number) :
    ∃ place value, node = .scalar place (.integer value) ∧ -2 ^ 63 ≤ value ∧ value < 2 ^ 63 := by
  unfold decodeInteger at done
  split at done
  · rename_i place value
    split at done
    · rename_i fits
      simp only [Text.fitsInt64, Bool.and_eq_true, decide_eq_true_eq] at fits
      refine ⟨place, value, rfl, fits.1, ?_⟩
      have large : Int64.maxValue.toInt = 2 ^ 63 - 1 := by decide
      omega
    · cases done
  · cases done

theorem decodeInteger_of_fits (place : Place) {value : Int} (lower : -2 ^ 63 ≤ value)
    (upper : value < 2 ^ 63) :
    decodeInteger (.scalar place (.integer value)) = .ok (Int64.ofInt value) := by
  have large : Int64.maxValue.toInt = 2 ^ 63 - 1 := by decide
  have small : Int64.minValue.toInt = -2 ^ 63 := by decide
  have fits : Text.fitsInt64 value = true := by
    simp only [Text.fitsInt64, Bool.and_eq_true, decide_eq_true_eq]
    omega
  rw [decodeInteger, if_pos fits]

theorem decodeBoolean_eq_ok {node : Node} {truth : Bool} (done : decodeBoolean node = .ok truth) :
    ∃ place, node = .scalar place (.boolean truth) := by
  unfold decodeBoolean at done
  split at done
  · cases done
    exact ⟨_, rfl⟩
  · cases done

theorem notOneEntry_ne_ok {α : Type} {what : String} {node : Node} {result : α} :
    (notOneEntry what node : Decode α) ≠ .ok result := by
  intro done
  obtain ⟨_, -, done⟩ := bind_eq_ok.mp done
  cases done

theorem notTwoOperands_ne_ok {α : Type} {operator : String} {node : Node} {result : α} :
    (notTwoOperands operator node : Decode α) ≠ .ok result := by
  intro done
  obtain ⟨_, -, done⟩ := bind_eq_ok.mp done
  cases done

theorem decodeExpression_single (place keyPlace : Place) (key : String) (value : Node) :
    decodeExpression source (single place keyPlace key value) =
      if key = "int" then do
        pure (.int (positionOf source keyPlace) (← decodeInteger value))
      else if key = "bool" then do
        pure (.boolean (positionOf source keyPlace) (← decodeBoolean value))
      else if key = "field" then do
        pure (.field (positionOf source keyPlace) (← decodeString "field name" value))
      else if key = "not" then do
        pure (.not (positionOf source keyPlace) (← decodeExpression source value))
      else
        match connective? key with
        | none => complain keyPlace (.unknownExpression key)
        | some connect =>
          match value with
          | .sequence _ [left, right] => do
            let first ← decodeExpression source left
            let second ← decodeExpression source right
            pure (connect (positionOf source keyPlace) first second)
          | _ => notTwoOperands key value := by
  rw [single, decodeExpression]
  rfl

theorem single_of_decodeExpression {node : Node} {expression : Expression}
    (done : decodeExpression source node = .ok expression) :
    ∃ place keyPlace key value, node = single place keyPlace key value := by
  unfold decodeExpression at done
  split at done
  · obtain ⟨key, named, -⟩ := bind_eq_ok.mp done
    obtain ⟨keyPlace, rfl⟩ := decodeString_eq_ok.mp named
    exact ⟨_, keyPlace, key, _, rfl⟩
  · exact absurd done notOneEntry_ne_ok

theorem sizeOf_lt_single (place keyPlace : Place) (key : String) (value : Node) :
    sizeOf value < sizeOf (single place keyPlace key value) := by
  simp only [single, Node.mapping.sizeOf_spec, List.cons.sizeOf_spec, Prod.mk.sizeOf_spec]
  omega

theorem sizeOf_lt_sequence (place : Place) {item : Node} {items : List Node} (isItem : item ∈ items) :
    sizeOf item < sizeOf (Node.sequence place items) := by
  have smaller := List.sizeOf_lt_of_mem isItem
  rw [Node.sequence.sizeOf_spec]
  omega

theorem node_induction {motive : Node → Prop}
    (step : ∀ node, (∀ child, sizeOf child < sizeOf node → motive child) → motive node)
    (node : Node) : motive node :=
  step node fun child _ => node_induction step child
termination_by sizeOf node

theorem isExpression_of_decoded {node : Node} {expression : Expression}
    (done : decodeExpression source node = .ok expression) : IsExpression node := by
  induction node using node_induction generalizing expression with
  | step node ih =>
      obtain ⟨place, keyPlace, key, value, rfl⟩ := single_of_decodeExpression done
      have smaller := sizeOf_lt_single place keyPlace key value
      rw [decodeExpression_single] at done
      split at done
      · rename_i isInt
        obtain ⟨number, read, -⟩ := bind_eq_ok.mp done
        obtain ⟨valuePlace, number, rfl, lower, upper⟩ := decodeInteger_eq_ok read
        subst isInt
        exact .int place keyPlace valuePlace lower upper
      split at done
      · rename_i isBool
        obtain ⟨truth, read, -⟩ := bind_eq_ok.mp done
        obtain ⟨valuePlace, rfl⟩ := decodeBoolean_eq_ok read
        subst isBool
        exact .boolean place keyPlace valuePlace truth
      split at done
      · rename_i isField
        obtain ⟨name, read, -⟩ := bind_eq_ok.mp done
        obtain ⟨valuePlace, rfl⟩ := decodeString_eq_ok.mp read
        subst isField
        exact .field place keyPlace valuePlace name
      split at done
      · rename_i isNot
        obtain ⟨operand, read, -⟩ := bind_eq_ok.mp done
        subst isNot
        exact .not place keyPlace (ih value smaller read)
      split at done
      · cases done
      · rename_i isConnective
        have isKey := (connective?_isSome key).mp (by rw [isConnective]; rfl)
        split at done
        · rename_i listPlace left right
          obtain ⟨first, firstRead, done⟩ := bind_eq_ok.mp done
          obtain ⟨second, secondRead, -⟩ := bind_eq_ok.mp done
          have leftSmaller : sizeOf left < sizeOf (Node.sequence listPlace [left, right]) :=
            sizeOf_lt_sequence listPlace (by simp)
          have rightSmaller : sizeOf right < sizeOf (Node.sequence listPlace [left, right]) :=
            sizeOf_lt_sequence listPlace (by simp)
          exact .connective place keyPlace listPlace isKey
            (ih left (Nat.lt_trans leftSmaller smaller) firstRead)
            (ih right (Nat.lt_trans rightSmaller smaller) secondRead)
        · exact absurd done notTwoOperands_ne_ok

theorem decoded_of_isExpression {node : Node} (isExpression : IsExpression node) :
    ∃ expression, decodeExpression source node = .ok expression := by
  induction isExpression with
  | int place keyPlace valuePlace lower upper =>
      rw [decodeExpression_single, if_pos rfl, decodeInteger_of_fits valuePlace lower upper]
      exact ⟨_, rfl⟩
  | boolean place keyPlace valuePlace value =>
      rw [decodeExpression_single]
      exact ⟨_, rfl⟩
  | field place keyPlace valuePlace name =>
      rw [decodeExpression_single]
      exact ⟨_, rfl⟩
  | not place keyPlace _ ih =>
      obtain ⟨operand, read⟩ := ih
      rw [decodeExpression_single, read]
      exact ⟨_, rfl⟩
  | @connective place keyPlace listPlace key left right isKey _ _ leftIh rightIh =>
      obtain ⟨first, firstRead⟩ := leftIh
      obtain ⟨second, secondRead⟩ := rightIh
      obtain ⟨connect, isConnective⟩ :=
        Option.isSome_iff_exists.mp ((connective?_isSome _).mpr isKey)
      have isOther : ∀ word ∈ ["int", "bool", "field", "not"], key ≠ word := by
        rintro word isWord rfl
        simp only [List.mem_cons, List.not_mem_nil, or_false] at isWord
        rcases isWord with rfl | rfl | rfl | rfl <;> simp at isKey
      rw [decodeExpression_single, if_neg (isOther _ (by simp)), if_neg (isOther _ (by simp)),
        if_neg (isOther _ (by simp)), if_neg (isOther _ (by simp)), isConnective]
      simp only [firstRead, secondRead]
      exact ⟨_, rfl⟩

theorem decodeExpression_accepts_iff {node : Node} :
    (∃ expression, decodeExpression source node = .ok expression) ↔ IsExpression node :=
  ⟨fun ⟨_, done⟩ => isExpression_of_decoded done, decoded_of_isExpression⟩

end Assay.Description
