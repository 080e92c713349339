import Assay.Proofs.Description.Classes
import Mathlib.Data.List.Perm.Basic

/-!
Mappings are read entry by entry. Entries with different keys can trade places, since each sets a part of its
own, and so entries with distinct keys can be read in any order.
-/

namespace Assay.Description

open Document (Place)
open Syntax (ClassDeclaration)

section Follows

variable {α β γ : Type}

def Follows (first second : Decode α) : Prop := ∀ value, first = .ok value → second = .ok value

theorem Follows.refl (first : Decode α) : Follows first first := fun _ done => done

theorem Follows.trans {first second third : Decode α} (earlier : Follows first second)
    (later : Follows second third) : Follows first third :=
  fun value done => later value (earlier value done)

theorem Follows.bind {first second : Decode α} {firstRest secondRest : α → Decode β}
    (here : Follows first second) (later : ∀ value, Follows (firstRest value) (secondRest value)) :
    Follows (first >>= firstRest) (second >>= secondRest) := by
  intro result done
  obtain ⟨value, read, done⟩ := bind_eq_ok.mp done
  exact bind_eq_ok.mpr ⟨value, here value read, later value result done⟩

theorem follows_complain (place : Place) (cause : Cause) (second : Decode α) :
    Follows (complain place cause) second := by
  intro value done
  cases done

theorem exists_part_follows {isKey : Prop} {first second : Decode α} {set : α → β} {next : β}
    (follows : isKey → Follows first second) (done : isKey ∧ ∃ part, first = .ok part ∧ set part = next) :
    isKey ∧ ∃ part, second = .ok part ∧ set part = next := by
  obtain ⟨here, part, read, isNext⟩ := done
  exact ⟨here, part, follows here part read, isNext⟩

theorem each_follows {ι : Type} {read : ι → Decode β} {build : ι → β → γ} {loop : List ι → Decode (List γ)}
    (cons : ∀ item rest, loop (item :: rest) = (do
      let first ← read item
      let others ← loop rest
      pure (build item first :: others))) {items others : List ι}
    (each : List.Forall₂ (fun item other => Follows (read item) (read other) ∧ build item = build other)
      items others) : Follows (loop items) (loop others) := by
  induction each with
  | nil => exact .refl _
  | cons here _ ih =>
      rw [cons, cons, here.2]
      exact here.1.bind fun first => ih.bind fun others => .refl _

variable {σ : Type} {loop : σ → List Entry → Decode σ} {entries moved : List Entry}

theorem Successive.append (successive : Successive loop) (first second : List Entry) (start : σ) :
    loop start (first ++ second) = (loop start first >>= fun next => loop next second) := by
  induction first generalizing start with
  | nil => rw [successive.nil, List.nil_append, ok_bind]
  | cons entry rest ih =>
      rw [List.cons_append, successive.cons, successive.cons start entry rest, bind_assoc]
      exact congrArg _ (funext ih)

theorem Successive.follows_of_related (successive : Successive loop) {related : Entry → Entry → Prop}
    (one : ∀ entry ∈ entries, ∀ other, related entry other →
      ∀ parts, Follows (loop parts [entry]) (loop parts [other]))
    (each : List.Forall₂ related entries moved) (start : σ) :
    Follows (loop start entries) (loop start moved) := by
  induction each generalizing start with
  | nil => exact .refl _
  | @cons entry other rest others here _ ih =>
      rw [successive.cons, successive.cons start other]
      rw [List.forall_mem_cons] at one
      exact (one.1 other here start).bind fun next => ih one.2 next

/-- A part that is set under one key, whatever the other parts are. -/
structure Slot {π : Type} (loop : σ → List Entry → Decode σ) (part : σ → π) (key : String) : Prop where
  set : ∀ parts other entry next otherNext, entry.key = key → loop parts [entry] = .ok next →
    loop other [entry] = .ok otherNext → part next = part otherNext
  kept : ∀ parts entry next, entry.key ≠ key → loop parts [entry] = .ok next → part next = part parts

theorem Slot.either {π : Type} {part : σ → π} {key : String} (slot : Slot loop part key)
    {first second : Entry} (different : first.key ≠ second.key) {start one both other last : σ}
    (firstRead : loop start [first] = .ok one) (thenSecond : loop one [second] = .ok both)
    (secondRead : loop start [second] = .ok other) (thenFirst : loop other [first] = .ok last) :
    part last = part both := by
  by_cases isFirst : first.key = key
  · have notSecond : second.key ≠ key := fun isSecond => different (isFirst.trans isSecond.symm)
    rw [slot.kept one second both notSecond thenSecond]
    exact slot.set other start first last one isFirst thenFirst firstRead
  · rw [slot.kept other first last isFirst thenFirst]
    by_cases isSecond : second.key = key
    · exact slot.set start one second other both isSecond secondRead thenSecond
    · rw [slot.kept start second other isSecond secondRead, slot.kept one second both isSecond thenSecond,
        slot.kept start first one isFirst firstRead]

/-- A loop in which entries with different keys do not depend on each other. -/
structure Independent (loop : σ → List Entry → Decode σ) : Prop extends Successive loop where
  free : ∀ parts other entry, (∃ next, loop parts [entry] = .ok next) → ∃ next, loop other [entry] = .ok next
  either : ∀ {first second : Entry}, first.key ≠ second.key → ∀ {start one both other last : σ},
    loop start [first] = .ok one → loop one [second] = .ok both →
    loop start [second] = .ok other → loop other [first] = .ok last → last = both

theorem Independent.trade (independent : Independent loop) {first second : Entry}
    (different : first.key ≠ second.key) (start : σ) :
    Follows (loop start [first, second]) (loop start [second, first]) := by
  intro both done
  rw [independent.cons] at done ⊢
  obtain ⟨one, firstRead, thenSecond⟩ := bind_eq_ok.mp done
  obtain ⟨other, secondRead⟩ := independent.free one start second ⟨both, thenSecond⟩
  obtain ⟨last, thenFirst⟩ := independent.free start other first ⟨one, firstRead⟩
  have same := independent.either different firstRead thenSecond secondRead thenFirst
  exact bind_eq_ok.mpr ⟨other, secondRead, same ▸ thenFirst⟩

/-- Entries whose keys are distinct can be read in any order. -/
theorem Independent.follows_of_perm (independent : Independent loop) (perm : entries.Perm moved)
    (distinct : (entries.map Entry.key).Nodup) (start : σ) :
    Follows (loop start entries) (loop start moved) := by
  -- Only neighbours that trade places need their keys to differ; the rest is the loop itself.
  induction perm generalizing start with
  | nil => exact .refl _
  | @cons entry first second _ ih =>
      rw [independent.cons start entry first, independent.cons start entry second]
      rw [List.map_cons, List.nodup_cons] at distinct
      exact (Follows.refl _).bind fun next => ih distinct.2 next
  | swap first second rest =>
      have different : second.key ≠ first.key := by
        intro same
        simp [same] at distinct
      change Follows (loop start ([second, first] ++ rest)) (loop start ([first, second] ++ rest))
      rw [independent.append, independent.append]
      exact (independent.trade different start).bind fun next => .refl _
  | trans before _ beforeIh afterIh =>
      have later := (before.map Entry.key).nodup_iff.mp distinct
      exact (beforeIh distinct start).trans (afterIh later start)

theorem Independent.follows (independent : Independent loop) {related : Entry → Entry → Prop}
    {middle : List Entry}
    (one : ∀ entry ∈ entries, ∀ other, related entry other →
      ∀ parts, Follows (loop parts [entry]) (loop parts [other]))
    (each : List.Forall₂ related entries middle) (perm : middle.Perm moved)
    (distinct : (moved.map Entry.key).Nodup) (start : σ) :
    Follows (loop start entries) (loop start moved) :=
  (independent.follows_of_related one each start).trans
    (independent.follows_of_perm perm ((perm.map Entry.key).nodup_iff.mpr distinct) start)

end Follows

section Loops

variable (source : String)

theorem assignment_slots : Slot (decodeAssignmentParts source) Assignment.field "field" ∧
    Slot (decodeAssignmentParts source) Assignment.value "value" := by
  refine ⟨⟨?_, ?_⟩, ⟨?_, ?_⟩⟩
  all_goals
    intros
    simp only [decodeAssignmentParts_one] at *
    grind

theorem decodeAssignmentParts_independent : Independent (decodeAssignmentParts source) where
  toSuccessive := decodeAssignmentParts_successive
  free := fun parts other entry accepted =>
    (assignmentEntry_iff other entry).mpr ((assignmentEntry_iff parts entry).mp accepted)
  either := by
    intro first second different start one both other last firstRead thenSecond secondRead thenFirst
    have field := (assignment_slots source).1.either different firstRead thenSecond secondRead thenFirst
    have value := (assignment_slots source).2.either different firstRead thenSecond secondRead thenFirst
    cases last
    cases both
    exact Assignment.mk.injEq .. ▸ ⟨field, value⟩

theorem control_slots (control : Control) :
    let loop := fun parts entries => decodeControlParts source control parts (entries.map Entry.pair)
    Slot loop ControlParts.condition "cond" ∧ Slot loop ControlParts.body control.bodyKey ∧
      Slot loop ControlParts.otherwise "else" := by
  have notElse : control.bodyKey ≠ "else" := by cases control <;> decide
  have notCond : control.bodyKey ≠ "cond" := by cases control <;> decide
  refine ⟨⟨?_, ?_⟩, ⟨?_, ?_⟩, ?_, ?_⟩
  all_goals
    intros
    simp only [List.map_cons, List.map_nil, decodeControlParts_one] at *
    grind

theorem decodeControlParts_independent (control : Control) : Independent fun parts entries =>
    decodeControlParts source control parts (entries.map Entry.pair) where
  toSuccessive := decodeControlParts_successive control
  free := fun parts other entry accepted =>
    (controlEntry_iff other entry).mpr ((controlEntry_iff parts entry).mp accepted)
  either := by
    intro first second different start one both other last firstRead thenSecond secondRead thenFirst
    obtain ⟨conditionSlot, bodySlot, otherwiseSlot⟩ := control_slots source control
    have condition := conditionSlot.either different firstRead thenSecond secondRead thenFirst
    have body := bodySlot.either different firstRead thenSecond secondRead thenFirst
    have otherwise := otherwiseSlot.either different firstRead thenSecond secondRead thenFirst
    cases last
    cases both
    exact ControlParts.mk.injEq .. ▸ ⟨condition, body, otherwise⟩

theorem member_slots (kind : String) : Slot (decodeMemberParts source kind) MemberParts.name "name" ∧
    Slot (decodeMemberParts source kind) MemberParts.body "body" := by
  refine ⟨⟨?_, ?_⟩, ⟨?_, ?_⟩⟩
  all_goals
    intros
    simp only [decodeMemberParts_one] at *
    grind

theorem decodeMemberParts_independent (kind : String) :
    Independent (decodeMemberParts source kind) where
  toSuccessive := decodeMemberParts_successive kind
  free := fun parts other entry accepted =>
    (memberEntry_iff other entry).mpr ((memberEntry_iff parts entry).mp accepted)
  either := by
    intro first second different start one both other last firstRead thenSecond secondRead thenFirst
    obtain ⟨nameSlot, bodySlot⟩ := member_slots source kind
    have name := nameSlot.either different firstRead thenSecond secondRead thenFirst
    have body := bodySlot.either different firstRead thenSecond secondRead thenFirst
    cases last
    cases both
    exact MemberParts.mk.injEq .. ▸ ⟨name, body⟩

theorem class_slots :
    Slot (decodeClassParts source) (fun parts => (parts.name, parts.position)) "class" ∧
      Slot (decodeClassParts source) ClassDeclaration.fields "fields" ∧
      Slot (decodeClassParts source) ClassDeclaration.fixtures "fixtures" ∧
      Slot (decodeClassParts source) ClassDeclaration.tests "tests" := by
  refine ⟨⟨?_, ?_⟩, ⟨?_, ?_⟩, ⟨?_, ?_⟩, ?_, ?_⟩
  all_goals
    intros
    simp only [decodeClassParts_one] at *
    grind

theorem decodeClassParts_independent : Independent (decodeClassParts source) where
  toSuccessive := decodeClassParts_successive
  free := fun parts other entry accepted =>
    (classEntry_iff other entry).mpr ((classEntry_iff parts entry).mp accepted)
  either := by
    intro first second different start one both other last firstRead thenSecond secondRead thenFirst
    obtain ⟨nameSlot, fieldsSlot, fixturesSlot, testsSlot⟩ := class_slots source
    have named := nameSlot.either different firstRead thenSecond secondRead thenFirst
    have fields := fieldsSlot.either different firstRead thenSecond secondRead thenFirst
    have fixtures := fixturesSlot.either different firstRead thenSecond secondRead thenFirst
    have tests := testsSlot.either different firstRead thenSecond secondRead thenFirst
    obtain ⟨name, position⟩ := Prod.mk.inj named
    cases last
    cases both
    exact ClassDeclaration.mk.injEq .. ▸ ⟨position, name, fields, fixtures, tests⟩

end Loops

end Assay.Description
