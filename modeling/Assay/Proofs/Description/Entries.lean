import Assay.Description.ClassDescription
import Assay.Proofs.Success

/-!
How mappings are read. The entries of a mapping are read one by one, so a part that was found is the
one under its key, wherever the key stands.
-/

namespace Assay.Description

open Document (Node Place)
open Syntax (Command ClassDeclaration Expression)

@[simp]
theorem ok_bind {ε α β : Type} (value : α) (second : α → Except ε β) :
    (Except.ok value >>= second) = second value :=
  rfl

@[simp]
theorem complain_bind {α β : Type} (place : Place) (cause : Cause) (second : α → Decode β) :
    (complain place cause >>= second) = complain place cause :=
  rfl

@[simp]
theorem complain_ne_ok {α : Type} {place : Place} {cause : Cause} {result : α} :
    (complain place cause : Decode α) = .ok result ↔ False := by
  simp [complain]

theorem decodeString_eq_ok {what : String} {node : Node} {value : String} :
    decodeString what node = .ok value ↔ ∃ place, node = .scalar place (.text value) := by
  unfold decodeString
  split
  · simp [eq_comm]
  · rename_i other
    simp only [complain_ne_ok, false_iff, not_exists]
    rintro place rfl
    exact other place value rfl

def Entry.pair (entry : Entry) : Node × Node :=
  (.scalar entry.keyPlace (.text entry.key), entry.value)

structure Keyed (node : Node) (entries : List Entry) : Prop where
  distinct : (entries.map Entry.key).Nodup
  shape : ∃ place, node = .mapping place (entries.map Entry.pair)

theorem decodeKeys_eq_ok {seen : List String} {pairs : List (Node × Node)} {entries : List Entry} :
    decodeKeys seen pairs = .ok entries ↔
      pairs = entries.map Entry.pair ∧ (entries.map Entry.key).Nodup ∧
        ∀ entry ∈ entries, entry.key ∉ seen := by
  induction pairs generalizing seen entries with
  | nil =>
      cases entries with
      | nil => simp [decodeKeys]
      | cons entry rest => simp [decodeKeys]
  | cons pair rest ih =>
      obtain ⟨name, value⟩ := pair
      simp only [decodeKeys, bind_eq_ok, decodeString_eq_ok]
      constructor
      · rintro ⟨key, ⟨place, rfl⟩, done⟩
        split at done
        · cases done
        · rename_i fresh
          obtain ⟨others, read, isEntries⟩ := bind_eq_ok.mp done
          obtain ⟨rfl, distinct, unseen⟩ := ih.mp read
          cases isEntries
          refine ⟨rfl, ?_, ?_⟩
          · refine List.nodup_cons.mpr ⟨?_, distinct⟩
            intro isLater
            obtain ⟨entry, isEntry, same⟩ := List.mem_map.mp isLater
            exact unseen entry isEntry (same ▸ List.mem_cons_self)
          · intro entry isEntry
            rcases List.mem_cons.mp isEntry with rfl | isLater
            · simpa using fresh
            · exact fun isSeen => unseen entry isLater (List.mem_cons_of_mem _ isSeen)
      · rintro ⟨isPairs, distinct, unseen⟩
        cases entries with
        | nil => cases isPairs
        | cons entry others =>
            rw [List.map_cons, List.cons.injEq] at isPairs
            obtain ⟨isPair, rfl⟩ := isPairs
            cases isPair
            rw [List.map_cons, List.nodup_cons] at distinct
            refine ⟨entry.key, ⟨entry.keyPlace, rfl⟩, ?_⟩
            rw [if_neg (by simpa using unseen entry List.mem_cons_self)]
            refine bind_eq_ok.mpr ⟨others, ih.mpr ⟨rfl, distinct.2, fun other isLater => ?_⟩, rfl⟩
            intro isSeen
            rcases List.mem_cons.mp isSeen with same | isSeen
            · exact distinct.1 (same ▸ List.mem_map_of_mem isLater)
            · exact unseen other (List.mem_cons_of_mem _ isLater) isSeen

theorem decodeEntries_eq_ok {what : String} {node : Node} {entries : List Entry} :
    decodeEntries what node = .ok entries ↔ Keyed node entries := by
  constructor
  · intro done
    unfold decodeEntries at done
    split at done
    · obtain ⟨rfl, distinct, -⟩ := decodeKeys_eq_ok.mp done
      exact ⟨distinct, _, rfl⟩
    · cases done
  · rintro ⟨distinct, place, rfl⟩
    exact decodeKeys_eq_ok.mpr ⟨rfl, distinct, fun _ _ => List.not_mem_nil⟩

theorem each_accepts_iff {α β γ : Type} {read : α → Decode β} {build : α → β → γ}
    {loop : List α → Decode (List γ)} (nil : loop [] = .ok [])
    (cons : ∀ item rest, loop (item :: rest) = (do
      let first ← read item
      let others ← loop rest
      pure (build item first :: others))) {items : List α} :
    (∃ results, loop items = .ok results) ↔ ∀ item ∈ items, ∃ value, read item = .ok value := by
  induction items with
  | nil => simp [nil]
  | cons item rest ih =>
      rw [List.forall_mem_cons, ← ih]
      simp only [cons, bind_eq_ok]
      constructor
      · rintro ⟨_, first, isRead, others, later, -⟩
        exact ⟨⟨first, isRead⟩, others, later⟩
      · rintro ⟨⟨first, isRead⟩, others, later⟩
        exact ⟨_, first, isRead, others, later, rfl⟩

section Parts

variable {σ α : Type} {entries : List Entry} {key : String} {reads : Entry → α → Prop}

/-- The part of a mapping under a key, if the mapping has the key, and otherwise the given one. -/
def Given (entries : List Entry) (key : String) (reads : Entry → α → Prop) (absent result : α) :
    Prop :=
  (∀ entry ∈ entries, entry.key = key → reads entry result) ∧
    ((∀ entry ∈ entries, entry.key ≠ key) → result = absent)

/-- A loop that reads entries one after the other. -/
structure Successive (loop : σ → List Entry → Decode σ) : Prop where
  nil : ∀ parts, loop parts [] = .ok parts
  cons : ∀ parts entry rest,
    loop parts (entry :: rest) = (loop parts [entry] >>= fun next => loop next rest)

theorem Successive.accepts_iff {loop : σ → List Entry → Decode σ} (successive : Successive loop)
    {accepts : Entry → Prop}
    (accepted : ∀ parts entry, (∃ next, loop parts [entry] = .ok next) ↔ accepts entry)
    (start : σ) :
    (∃ result, loop start entries = .ok result) ↔ ∀ entry ∈ entries, accepts entry := by
  induction entries generalizing start with
  | nil => simp [successive.nil]
  | cons entry rest ih =>
      simp only [successive.cons start entry rest, bind_eq_ok, List.forall_mem_cons]
      constructor
      · rintro ⟨result, next, here, later⟩
        exact ⟨(accepted start entry).mp ⟨next, here⟩, (ih next).mp ⟨result, later⟩⟩
      · rintro ⟨here, later⟩
        obtain ⟨next, here⟩ := (accepted start entry).mpr here
        obtain ⟨result, later⟩ := (ih next).mpr later
        exact ⟨result, next, here, later⟩

theorem Successive.complete_iff {loop : σ → List Entry → Decode σ} (successive : Successive loop)
    {accepts : Entry → Prop} {complete : σ → Prop} {sufficient : Prop} {start : σ}
    (accepted : ∀ parts entry, (∃ next, loop parts [entry] = .ok next) ↔ accepts entry)
    (completed : ∀ parts, loop start entries = .ok parts → (complete parts ↔ sufficient)) :
    (∃ parts, loop start entries = .ok parts ∧ complete parts) ↔
      (∀ entry ∈ entries, accepts entry) ∧ sufficient := by
  constructor
  · rintro ⟨parts, done, isComplete⟩
    exact ⟨(successive.accepts_iff accepted start).mp ⟨parts, done⟩,
      (completed parts done).mp isComplete⟩
  · rintro ⟨allAccepted, isSufficient⟩
    obtain ⟨parts, done⟩ := (successive.accepts_iff accepted start).mpr allAccepted
    exact ⟨parts, done, (completed parts done).mpr isSufficient⟩

theorem Successive.given {loop : σ → List Entry → Decode σ} (successive : Successive loop)
    (part : σ → α)
    (set : ∀ parts entry next, loop parts [entry] = .ok next → entry.key = key →
      reads entry (part next))
    (kept : ∀ parts entry next, loop parts [entry] = .ok next → entry.key ≠ key →
      part next = part parts)
    (distinct : (entries.map Entry.key).Nodup) {start result : σ}
    (done : loop start entries = .ok result) :
    Given entries key reads (part start) (part result) := by
  induction entries generalizing start with
  | nil =>
      rw [successive.nil] at done
      cases done
      exact ⟨by simp, fun _ => rfl⟩
  | cons entry rest ih =>
      rw [successive.cons] at done
      obtain ⟨next, here, later⟩ := bind_eq_ok.mp done
      rw [List.map_cons, List.nodup_cons] at distinct
      obtain ⟨found, absent⟩ := ih distinct.2 later
      constructor
      · intro other isOther isKey
        rcases List.mem_cons.mp isOther with rfl | isLater
        · have notLater : ∀ entry ∈ rest, entry.key ≠ key := by
            rintro entry isLater rfl
            exact distinct.1 (isKey ▸ List.mem_map_of_mem isLater)
          rw [absent notLater]
          exact set start _ next here isKey
        · exact found other isLater isKey
      · intro missing
        rw [absent fun other isLater => missing other (List.mem_cons_of_mem _ isLater)]
        exact kept start entry next here (missing entry List.mem_cons_self)

end Parts

variable {source : String}

theorem decodeAssignmentParts_successive : Successive (decodeAssignmentParts source) where
  nil := fun parts => by rw [decodeAssignmentParts]
  cons := by
    intro parts entry rest
    simp only [decodeAssignmentParts]
    repeat' split
    all_goals simp

theorem decodeMemberParts_successive (kind : String) :
    Successive (decodeMemberParts source kind) where
  nil := fun parts => by rw [decodeMemberParts]
  cons := by
    intro parts entry rest
    simp only [decodeMemberParts]
    repeat' split
    all_goals simp

theorem decodeClassParts_successive : Successive (decodeClassParts source) where
  nil := fun parts => by rw [decodeClassParts]
  cons := by
    intro parts entry rest
    simp only [decodeClassParts]
    repeat' split
    all_goals simp

theorem decodeControlParts_successive (control : Control) :
    Successive fun parts entries =>
      decodeControlParts source control parts (entries.map Entry.pair) where
  nil := fun parts => by rw [List.map_nil, decodeControlParts]
  cons := by
    intro parts entry rest
    simp only [decodeControlParts, List.map_cons, List.map_nil, Entry.pair, decodeString, ok_bind]
    repeat' split
    all_goals simp

/-! What one entry does to the parts. -/

theorem decodeAssignmentParts_one {parts next : Assignment} {entry : Entry} :
    decodeAssignmentParts source parts [entry] = .ok next ↔
      (entry.key = "field" ∧ ∃ field, decodeString "field name" entry.value = .ok field ∧
        { parts with field } = next) ∨
      (entry.key = "value" ∧ ∃ value, decodeExpression source entry.value = .ok value ∧
        { parts with value := some value } = next) := by
  simp only [decodeAssignmentParts]
  split
  · rename_i isField
    simp [isField, bind_eq_ok]
  split
  · rename_i isValue
    simp [isValue, bind_eq_ok]
  · simp [*]

theorem decodeMemberParts_one {kind : String} {parts next : MemberParts} {entry : Entry} :
    decodeMemberParts source kind parts [entry] = .ok next ↔
      (entry.key = "name" ∧ ∃ name, decodeString (kind ++ " name") entry.value = .ok name ∧
        { parts with name } = next) ∨
      (entry.key = "body" ∧ ∃ body, decodeBlock source entry.value = .ok body ∧
        { parts with body } = next) := by
  simp only [decodeMemberParts]
  split
  · rename_i isName
    simp [isName, bind_eq_ok]
  split
  · rename_i isBody
    simp [isBody, bind_eq_ok]
  · simp [*]

theorem decodeControlParts_one {control : Control} {parts next : ControlParts} {entry : Entry} :
    decodeControlParts source control parts [entry.pair] = .ok next ↔
      (entry.key = "cond" ∧ ∃ condition, decodeExpression source entry.value = .ok condition ∧
        { parts with condition := some condition } = next) ∨
      (entry.key = control.bodyKey ∧ ∃ body, decodeBlock source entry.value = .ok body ∧
        { parts with body := some body } = next) ∨
      (entry.key = "else" ∧ control = .choice ∧ ∃ body, decodeBlock source entry.value = .ok body ∧
        { parts with otherwise := some body } = next) := by
  have notCond : control.bodyKey ≠ "cond" := by cases control <;> decide
  have notElse : control.bodyKey ≠ "else" := by cases control <;> decide
  simp only [decodeControlParts, Entry.pair, decodeString, ok_bind]
  split
  · rename_i isCond
    simp [isCond, bind_eq_ok, notCond.symm]
  split
  · rename_i isBody
    simp [isBody, bind_eq_ok, notCond, notElse]
  split
  · rename_i isElse
    simp only [Bool.and_eq_true, decide_eq_true_eq] at isElse
    obtain ⟨isElse, rfl⟩ := isElse
    simp [isElse, bind_eq_ok, Control.bodyKey]
  · simp_all

theorem decodeClassParts_one {parts next : ClassDeclaration} {entry : Entry} :
    decodeClassParts source parts [entry] = .ok next ↔
      (entry.key = "class" ∧ ∃ name, decodeString "class name" entry.value = .ok name ∧
        { parts with name, position := positionOf source entry.keyPlace } = next) ∨
      (entry.key = "fields" ∧ ∃ fields, decodeFieldMapping source entry.value = .ok fields ∧
        { parts with fields } = next) ∨
      (entry.key = "fixtures" ∧ ∃ fixtures,
        decodeMemberSequence source "fixture" entry.value = .ok fixtures ∧
        { parts with fixtures } = next) ∨
      (entry.key = "tests" ∧ ∃ tests, decodeMemberSequence source "test" entry.value = .ok tests ∧
        { parts with tests } = next) := by
  simp only [decodeClassParts]
  split
  · rename_i isClass
    simp [isClass, bind_eq_ok]
  split
  · rename_i isFields
    simp [isFields, bind_eq_ok]
  split
  · rename_i isFixtures
    simp [isFixtures, bind_eq_ok]
  split
  · rename_i isTests
    simp [isTests, bind_eq_ok]
  · simp [*]

end Assay.Description
