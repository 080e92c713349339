import Assay.Proofs.Description.Grammar

/-!
Commands and bodies are accepted exactly if the grammar describes them. The parts of a command stand
under keys, so what one entry can do is said first, and then what all of them come to.
-/

namespace Assay.Description

open Document (Node Place)
open Syntax (Command)

variable {source : String}

theorem exists_part {σ α : Type} {key here : String} {read : Decode α} {set : α → σ} :
    (∃ next, key = here ∧ ∃ part, read = .ok part ∧ set part = next) ↔
      key = here ∧ ∃ part, read = .ok part := by
  constructor
  · rintro ⟨_, isHere, part, isRead, -⟩
    exact ⟨isHere, part, isRead⟩
  · rintro ⟨isHere, part, isRead⟩
    exact ⟨_, isHere, part, isRead, rfl⟩

theorem assignmentEntry_iff (parts : Assignment) (entry : Entry) :
    (∃ next, decodeAssignmentParts source parts [entry] = .ok next) ↔
      entry.key ∈ ["field", "value"] ∧ (entry.key = "field" → IsText entry.value) ∧
        (entry.key = "value" → IsExpression entry.value) := by
  simp only [decodeAssignmentParts_one, exists_or, exists_part, isText_iff,
    decodeExpression_accepts_iff]
  grind

theorem assignment_given {entries : List Entry} {start parts : Assignment}
    (distinct : (entries.map Entry.key).Nodup)
    (done : decodeAssignmentParts source start entries = .ok parts) :
    Given entries "field" (fun entry name => decodeString "field name" entry.value = .ok name)
        start.field parts.field ∧
      Given entries "value" (fun _ part => part.isSome = true) start.value parts.value := by
  constructor
  · exact decodeAssignmentParts_successive.given Assignment.field
      (by grind [decodeAssignmentParts_one]) (by grind [decodeAssignmentParts_one]) distinct done
  · exact decodeAssignmentParts_successive.given Assignment.value
      (by grind [decodeAssignmentParts_one]) (by grind [decodeAssignmentParts_one]) distinct done

theorem decodeAssignment_eq (keyPlace : Place) (node : Node) :
    (∃ command, decodeAssignment source keyPlace node = .ok command) ↔
      ∃ entries, Keyed node entries ∧ ∃ parts,
        decodeAssignmentParts source { field := "", value := none } entries = .ok parts ∧
          parts.field ≠ "" ∧ parts.value.isSome = true := by
  simp only [decodeAssignment, bind_eq_ok, decodeEntries_eq_ok]
  constructor
  · rintro ⟨command, entries, keyed, parts, read, done⟩
    refine ⟨entries, keyed, parts, read, ?_⟩
    split at done
    · cases done
    · cases done
    · rename_i isValue nonempty
      exact ⟨nonempty, by rw [isValue]; rfl⟩
  · rintro ⟨entries, keyed, parts, read, nonempty, isSome⟩
    obtain ⟨value, isValue⟩ := Option.isSome_iff_exists.mp isSome
    refine ⟨.assign (positionOf source keyPlace) parts.field value, entries, keyed, parts, read, ?_⟩
    rw [isValue]
    split
    · exact absurd ‹_› nonempty
    · contradiction
    · simp_all
      rfl

theorem decodeAssignment_accepts_iff {keyPlace : Place} {node : Node} :
    (∃ command, decodeAssignment source keyPlace node = .ok command) ↔
      ∃ entries, KeyedBy ["field", "value"] node entries ∧ HasKey entries "field" ∧
        HasKey entries "value" ∧
        (∀ entry ∈ entries, entry.key = "field" → IsName entry.value) ∧
        ∀ entry ∈ entries, entry.key = "value" → IsExpression entry.value := by
  have complete : ∀ {entries}, Keyed node entries → ((∃ parts,
      decodeAssignmentParts source { field := "", value := none } entries = .ok parts ∧
        parts.field ≠ "" ∧ parts.value.isSome = true) ↔ _) := fun keyed =>
    decodeAssignmentParts_successive.complete_iff assignmentEntry_iff fun parts done =>
      have given := assignment_given keyed.distinct done
      and_congr (named_iff given.1) (present_iff given.2)
  rw [decodeAssignment_eq]
  constructor
  · rintro ⟨entries, keyed, read⟩
    obtain ⟨allowed, ⟨hasField, named⟩, hasValue⟩ := (complete keyed).mp read
    exact ⟨entries, ⟨keyed, fun entry isEntry => (allowed entry isEntry).1⟩, hasField, hasValue,
      named, fun entry isEntry => (allowed entry isEntry).2.2⟩
  · rintro ⟨entries, keyed, hasField, hasValue, named, values⟩
    refine ⟨entries, keyed.toKeyed, (complete keyed.toKeyed).mpr ⟨fun entry isEntry => ?_,
      ⟨hasField, named⟩, hasValue⟩⟩
    exact ⟨keyed.known entry isEntry, fun isField => (named entry isEntry isField).isText,
      values entry isEntry⟩

def Control.keys : Control → List String
  | choice => ["cond", "then", "else"]
  | loop => ["cond", "body"]

theorem controlEntry_iff {control : Control} (parts : ControlParts) (entry : Entry) :
    (∃ next, decodeControlParts source control parts [entry.pair] = .ok next) ↔
      entry.key ∈ control.keys ∧ (entry.key = "cond" → IsExpression entry.value) ∧
        (entry.key ≠ "cond" → ∃ body, decodeBlock source entry.value = .ok body) := by
  simp only [decodeControlParts_one, exists_or, exists_part, decodeExpression_accepts_iff]
  cases control with
  | choice =>
      simp only [Control.keys, Control.bodyKey]
      grind
  | loop =>
      simp only [Control.keys, Control.bodyKey]
      grind

theorem control_given {control : Control} {entries : List Entry} {start parts : ControlParts}
    (distinct : (entries.map Entry.key).Nodup)
    (done : decodeControlParts source control start (entries.map Entry.pair) = .ok parts) :
    Given entries "cond" (fun _ part => part.isSome = true) start.condition parts.condition := by
  have notCond : control.bodyKey ≠ "cond" := by cases control <;> decide
  exact (decodeControlParts_successive control).given ControlParts.condition
    (by grind [decodeControlParts_one]) (by grind [decodeControlParts_one]) distinct done

theorem decodeControl_eq_ok {control : Control} {keyPlace : Place} {node : Node} {command : Command} :
    decodeControl source control keyPlace node = .ok command ↔
      ∃ entries, Keyed node entries ∧ ∃ parts,
        decodeControlParts source control { condition := none, body := none, otherwise := none }
          (entries.map Entry.pair) = .ok parts ∧ ∃ condition, parts.condition = some condition ∧
            parts.command control (positionOf source keyPlace) condition = command := by
  constructor
  · intro done
    unfold decodeControl at done
    split at done
    · obtain ⟨entries, read, done⟩ := bind_eq_ok.mp done
      obtain ⟨rfl, distinct, -⟩ := decodeKeys_eq_ok.mp read
      obtain ⟨parts, partsRead, done⟩ := bind_eq_ok.mp done
      split at done
      · cases done
      · rename_i condition isCondition
        cases done
        exact ⟨entries, ⟨distinct, _, rfl⟩, parts, partsRead, condition, isCondition, rfl⟩
    · cases done
  · rintro ⟨entries, ⟨distinct, place, rfl⟩, parts, partsRead, condition, isCondition, rfl⟩
    have read : decodeKeys [] (entries.map Entry.pair) = .ok entries :=
      decodeKeys_eq_ok.mpr ⟨rfl, distinct, fun _ _ => List.not_mem_nil⟩
    rw [decodeControl, read]
    simp only [ok_bind, partsRead, isCondition]
    rfl

theorem decodeControl_eq {control : Control} (keyPlace : Place) (node : Node) :
    (∃ command, decodeControl source control keyPlace node = .ok command) ↔
      ∃ entries, Keyed node entries ∧ ∃ parts,
        decodeControlParts source control { condition := none, body := none, otherwise := none }
          (entries.map Entry.pair) = .ok parts ∧ parts.condition.isSome = true := by
  simp only [decodeControl_eq_ok, Option.isSome_iff_exists]
  constructor
  · rintro ⟨_, entries, keyed, parts, read, condition, isCondition, -⟩
    exact ⟨entries, keyed, parts, read, condition, isCondition⟩
  · rintro ⟨entries, keyed, parts, read, condition, isCondition⟩
    exact ⟨_, entries, keyed, parts, read, condition, isCondition, rfl⟩

theorem decodeControl_accepts_iff {control : Control} {keyPlace : Place} {node : Node} :
    (∃ command, decodeControl source control keyPlace node = .ok command) ↔
      ∃ entries, KeyedBy control.keys node entries ∧ HasKey entries "cond" ∧
        (∀ entry ∈ entries, entry.key = "cond" → IsExpression entry.value) ∧
        ∀ entry ∈ entries, entry.key ≠ "cond" →
          ∃ body, decodeBlock source entry.value = .ok body := by
  have complete : ∀ {entries}, Keyed node entries → ((∃ parts,
      decodeControlParts source control { condition := none, body := none, otherwise := none }
        (entries.map Entry.pair) = .ok parts ∧ parts.condition.isSome = true) ↔ _) := fun keyed =>
    (decodeControlParts_successive control).complete_iff controlEntry_iff fun parts done =>
      present_iff (control_given keyed.distinct done)
  rw [decodeControl_eq]
  constructor
  · rintro ⟨entries, keyed, read⟩
    obtain ⟨allowed, hasCondition⟩ := (complete keyed).mp read
    exact ⟨entries, ⟨keyed, fun entry isEntry => (allowed entry isEntry).1⟩, hasCondition,
      fun entry isEntry => (allowed entry isEntry).2.1,
      fun entry isEntry => (allowed entry isEntry).2.2⟩
  · rintro ⟨entries, keyed, hasCondition, conditions, bodies⟩
    exact ⟨entries, keyed.toKeyed, (complete keyed.toKeyed).mpr ⟨fun entry isEntry =>
      ⟨keyed.known entry isEntry, conditions entry isEntry, bodies entry isEntry⟩, hasCondition⟩⟩

theorem decodeCommands_accepts_iff {items : List Node} :
    (∃ commands, decodeCommands source items = .ok commands) ↔
      ∀ item ∈ items, ∃ command, decodeCommand source item = .ok command :=
  each_accepts_iff (by rw [decodeCommands]) fun item rest => by rw [decodeCommands]

theorem decodeBlock_accepts_iff {node : Node} :
    (∃ body, decodeBlock source node = .ok body) ↔
      IsNull node ∨ ∃ place items, node = .sequence place items ∧
        ∀ item ∈ items, ∃ command, decodeCommand source item = .ok command := by
  constructor
  · rintro ⟨body, done⟩
    unfold decodeBlock at done
    split at done
    · obtain ⟨commands, read, -⟩ := bind_eq_ok.mp done
      exact .inr ⟨_, _, rfl, decodeCommands_accepts_iff.mp ⟨commands, read⟩⟩
    · exact .inl ⟨_, rfl⟩
    · cases done
  · rintro (⟨place, rfl⟩ | ⟨place, items, rfl, accepted⟩)
    · exact ⟨_, by rw [decodeBlock]; rfl⟩
    · obtain ⟨commands, read⟩ := decodeCommands_accepts_iff.mpr accepted
      rw [decodeBlock, read, ok_bind]
      cases commands with
      | nil => exact ⟨_, rfl⟩
      | cons command rest => exact ⟨_, rfl⟩

theorem decodeCommand_single (place keyPlace : Place) (key : String) (value : Node) :
    decodeCommand source (single place keyPlace key value) =
      if key = "return" then .ok (.ret (positionOf source keyPlace))
      else if key = "skip" then .ok (.skip (positionOf source keyPlace))
      else if key = "assert" then do
        pure (.assert (positionOf source keyPlace) (← decodeExpression source value))
      else if key = "assign" then decodeAssignment source keyPlace value
      else if key = "if" then decodeControl source .choice keyPlace value
      else if key = "while" then decodeControl source .loop keyPlace value
      else complain keyPlace (.unknownCommand key) := by
  rw [single, decodeCommand]
  rfl

theorem shape_of_decodeCommand {node : Node} {command : Command}
    (done : decodeCommand source node = .ok command) :
    (∃ place word, word ∈ ["return", "skip"] ∧ node = .scalar place (.text word)) ∨
      ∃ place keyPlace key value, node = single place keyPlace key value := by
  unfold decodeCommand at done
  split at done
  · rename_i place word
    refine .inl ⟨place, word, ?_, rfl⟩
    unfold keyword at done
    grind [complain]
  · obtain ⟨key, named, -⟩ := bind_eq_ok.mp done
    obtain ⟨keyPlace, rfl⟩ := decodeString_eq_ok.mp named
    exact .inr ⟨_, keyPlace, key, _, rfl⟩
  · exact absurd done notOneEntry_ne_ok

theorem Keyed.sizeOf_lt {node : Node} {entries : List Entry} {entry : Entry}
    (keyed : Keyed node entries) (isEntry : entry ∈ entries) :
    sizeOf entry.value < sizeOf node := by
  obtain ⟨place, rfl⟩ := keyed.shape
  have smaller := List.sizeOf_lt_of_mem (List.mem_map_of_mem (f := Entry.pair) isEntry)
  have inPair : sizeOf entry.value < sizeOf entry.pair := by
    rw [Entry.pair, Prod.mk.sizeOf_spec]
    omega
  rw [Node.mapping.sizeOf_spec]
  omega

section Commands

variable {node : Node}

theorem isCommand_of_decoded {command : Command}
    (blocks : ∀ child, sizeOf child < sizeOf node →
      (∃ body, decodeBlock source child = .ok body) → IsBlock child)
    (done : decodeCommand source node = .ok command) : IsCommand node := by
  rcases shape_of_decodeCommand done with
    ⟨place, word, isWord, rfl⟩ | ⟨place, keyPlace, key, value, rfl⟩
  · exact .word place isWord
  have block : ∀ {entries entry}, Keyed value entries → entry ∈ entries →
      (∃ body, decodeBlock source entry.value = .ok body) → IsBlock entry.value :=
    fun keyed isEntry => blocks _ (Nat.lt_trans (keyed.sizeOf_lt isEntry)
      (sizeOf_lt_single place keyPlace key value))
  rw [decodeCommand_single] at done
  split at done
  · rename_i isKey
    exact .bare place keyPlace value (by simp [isKey])
  split at done
  · rename_i isKey
    exact .bare place keyPlace value (by simp [isKey])
  split at done
  · rename_i isKey
    obtain ⟨condition, read, -⟩ := bind_eq_ok.mp done
    subst isKey
    exact .assert place keyPlace (isExpression_of_decoded read)
  split at done
  · rename_i isKey
    obtain ⟨entries, keyed, hasField, hasValue, named, values⟩ :=
      decodeAssignment_accepts_iff.mp ⟨command, done⟩
    subst isKey
    exact .assign place keyPlace keyed hasField hasValue named values
  split at done
  · rename_i isKey
    obtain ⟨entries, keyed, hasCondition, conditions, bodies⟩ :=
      decodeControl_accepts_iff.mp ⟨command, done⟩
    subst isKey
    refine .choice place keyPlace keyed hasCondition conditions ?_ ?_
    · intro entry isEntry isThen
      exact block keyed.toKeyed isEntry (bodies entry isEntry (by simp [isThen]))
    · intro entry isEntry isElse
      exact block keyed.toKeyed isEntry (bodies entry isEntry (by simp [isElse]))
  split at done
  · rename_i isKey
    obtain ⟨entries, keyed, hasCondition, conditions, bodies⟩ :=
      decodeControl_accepts_iff.mp ⟨command, done⟩
    subst isKey
    refine .loop place keyPlace keyed hasCondition conditions ?_
    intro entry isEntry isBody
    exact block keyed.toKeyed isEntry (bodies entry isEntry (by simp [isBody]))
  · cases done

theorem decoded_of_isCommand
    (blocks : ∀ child, sizeOf child < sizeOf node → IsBlock child →
      ∃ body, decodeBlock source child = .ok body)
    (isCommand : IsCommand node) : ∃ command, decodeCommand source node = .ok command := by
  cases isCommand with
  | word place isWord =>
      simp only [List.mem_cons, List.not_mem_nil, or_false] at isWord
      rcases isWord with rfl | rfl
      · exact ⟨_, by rw [decodeCommand]; rfl⟩
      · exact ⟨_, by rw [decodeCommand]; rfl⟩
  | bare place keyPlace value isKey =>
      simp only [List.mem_cons, List.not_mem_nil, or_false] at isKey
      rcases isKey with rfl | rfl
      · exact ⟨_, decodeCommand_single place keyPlace "return" value⟩
      · exact ⟨_, decodeCommand_single place keyPlace "skip" value⟩
  | assert place keyPlace isExpression =>
      obtain ⟨condition, read⟩ := decoded_of_isExpression isExpression
      rw [decodeCommand_single, read]
      exact ⟨_, rfl⟩
  | assign place keyPlace keyed hasField hasValue named values =>
      rw [decodeCommand_single]
      exact decodeAssignment_accepts_iff.mpr ⟨_, keyed, hasField, hasValue, named, values⟩
  | @choice place keyPlace parts entries keyed hasCondition conditions bodies others =>
      rw [decodeCommand_single]
      refine decodeControl_accepts_iff.mpr ⟨entries, keyed, hasCondition, conditions, ?_⟩
      intro entry isEntry notCondition
      have smaller := Nat.lt_trans (keyed.sizeOf_lt isEntry) (sizeOf_lt_single place keyPlace "if" parts)
      have isKey := keyed.known entry isEntry
      simp only [List.mem_cons, List.not_mem_nil, or_false] at isKey
      rcases isKey with isKey | isKey | isKey
      · exact absurd isKey notCondition
      · exact blocks _ smaller (bodies entry isEntry isKey)
      · exact blocks _ smaller (others entry isEntry isKey)
  | @loop place keyPlace parts entries keyed hasCondition conditions bodies =>
      rw [decodeCommand_single]
      refine decodeControl_accepts_iff.mpr ⟨entries, keyed, hasCondition, conditions, ?_⟩
      intro entry isEntry notCondition
      have smaller :=
        Nat.lt_trans (keyed.sizeOf_lt isEntry) (sizeOf_lt_single place keyPlace "while" parts)
      have isKey := keyed.known entry isEntry
      simp only [List.mem_cons, List.not_mem_nil, or_false] at isKey
      rcases isKey with isKey | isKey
      · exact absurd isKey notCondition
      · exact blocks _ smaller (bodies entry isEntry isKey)

/-- The decoder accepts exactly the commands and the bodies. -/
theorem decodeCommand_accepts_iff :
    ((∃ command, decodeCommand source node = .ok command) ↔ IsCommand node) ∧
      ((∃ body, decodeBlock source node = .ok body) ↔ IsBlock node) := by
  induction node using node_induction with
  | step node ih =>
      refine ⟨⟨?_, ?_⟩, ?_⟩
      · rintro ⟨command, done⟩
        exact isCommand_of_decoded (fun child smaller => (ih child smaller).2.mp) done
      · exact decoded_of_isCommand fun child smaller => (ih child smaller).2.mpr
      · rw [decodeBlock_accepts_iff]
        constructor
        · rintro (⟨place, rfl⟩ | ⟨place, items, rfl, accepted⟩)
          · exact .null place
          · refine .commands place fun item isItem => ?_
            exact (ih item (sizeOf_lt_sequence place isItem)).1.mp (accepted item isItem)
        · intro isBlock
          cases isBlock with
          | null place => exact .inl ⟨place, rfl⟩
          | @commands place items commands =>
              refine .inr ⟨place, items, rfl, fun item isItem => ?_⟩
              exact (ih item (sizeOf_lt_sequence place isItem)).1.mpr (commands item isItem)

end Commands

end Assay.Description
