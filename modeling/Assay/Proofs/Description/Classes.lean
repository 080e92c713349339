import Assay.Proofs.Description.Bodies

/-!
Descriptions of classes are accepted exactly if the grammar describes them.
-/

namespace Assay.Description

open Document (Node Place)
open Syntax (ClassDeclaration)

variable {source : String}

theorem decodeFieldMapping_accepts_iff {node : Node} :
    (∃ fields, decodeFieldMapping source node = .ok fields) ↔ IsFields node := by
  have read : ∀ entries, (∃ fields, decodeFields source entries = .ok fields) ↔
      ∀ entry ∈ entries, ∃ typeName, decodeString "field type" entry.value = .ok typeName :=
    fun entries => each_accepts_iff (by rw [decodeFields]) fun entry rest => by rw [decodeFields]
  simp only [isText_iff] at read
  constructor
  · rintro ⟨fields, done⟩
    unfold decodeFieldMapping at done
    split at done
    · exact .inl ⟨_, rfl⟩
    · obtain ⟨entries, isMapping, done⟩ := bind_eq_ok.mp done
      exact .inr ⟨entries, decodeEntries_eq_ok.mp isMapping, (read entries).mp ⟨fields, done⟩⟩
  · rintro (⟨place, rfl⟩ | ⟨entries, keyed, texts⟩)
    · exact ⟨[], rfl⟩
    · obtain ⟨fields, done⟩ := (read entries).mpr texts
      obtain ⟨place, rfl⟩ := keyed.shape
      exact ⟨fields, bind_eq_ok.mpr ⟨entries, decodeEntries_eq_ok.mpr keyed, done⟩⟩

theorem memberEntry_iff {kind : String} (parts : MemberParts) (entry : Entry) :
    (∃ next, decodeMemberParts source kind parts [entry] = .ok next) ↔
      entry.key ∈ ["name", "body"] ∧ (entry.key = "name" → IsText entry.value) ∧
        (entry.key = "body" → IsBlock entry.value) := by
  simp only [decodeMemberParts_one, exists_or, exists_part, isText_iff,
    decodeCommand_accepts_iff.2]
  grind

theorem member_given {kind : String} {entries : List Entry} {start parts : MemberParts}
    (distinct : (entries.map Entry.key).Nodup)
    (done : decodeMemberParts source kind start entries = .ok parts) :
    Given entries "name" (fun entry name => decodeString (kind ++ " name") entry.value = .ok name)
      start.name parts.name :=
  (decodeMemberParts_successive kind).given MemberParts.name (by grind [decodeMemberParts_one])
    (by grind [decodeMemberParts_one]) distinct done

theorem decodeMember_accepts_iff {kind : String} {node : Node} :
    (∃ member, decodeMember source kind node = .ok member) ↔ IsMember node := by
  have complete : ∀ {entries}, Keyed node entries → ((∃ parts,
      decodeMemberParts source kind { name := "", body := .skip (positionOf source node.place) }
        entries = .ok parts ∧ parts.name ≠ "") ↔ _) := fun keyed =>
    (decodeMemberParts_successive kind).complete_iff memberEntry_iff fun parts done =>
      named_iff (member_given keyed.distinct done)
  simp only [decodeMember, bind_eq_ok, decodeEntries_eq_ok]
  constructor
  · rintro ⟨member, entries, keyed, parts, read, done⟩
    split at done
    · cases done
    · rename_i nonempty
      obtain ⟨allowed, hasName, named⟩ := (complete keyed).mp ⟨parts, read, nonempty⟩
      exact ⟨entries, ⟨keyed, fun entry isEntry => (allowed entry isEntry).1⟩, hasName, named,
        fun entry isEntry => (allowed entry isEntry).2.2⟩
  · rintro ⟨entries, keyed, hasName, named, bodies⟩
    obtain ⟨parts, read, nonempty⟩ := (complete keyed.toKeyed).mpr ⟨fun entry isEntry =>
      ⟨keyed.known entry isEntry, fun isName => (named entry isEntry isName).isText,
        bodies entry isEntry⟩, hasName, named⟩
    exact ⟨_, entries, keyed.toKeyed, parts, read, if_neg nonempty⟩

theorem decodeMemberSequence_accepts_iff {kind : String} {node : Node} :
    (∃ members, decodeMemberSequence source kind node = .ok members) ↔ IsMembers node := by
  have read : ∀ items, (∃ members, decodeMembers source kind items = .ok members) ↔
      ∀ item ∈ items, ∃ member, decodeMember source kind item = .ok member :=
    fun items => each_accepts_iff (by rw [decodeMembers]) fun item rest => by rw [decodeMembers]
  simp only [decodeMember_accepts_iff] at read
  constructor
  · rintro ⟨members, done⟩
    obtain ⟨items, isSequence, done⟩ := bind_eq_ok.mp done
    unfold decodeItems at isSequence
    split at isSequence
    · cases isSequence
      exact .inr ⟨_, _, rfl, (read items).mp ⟨members, done⟩⟩
    · exact .inl ⟨_, rfl⟩
    · cases isSequence
  · rintro (⟨place, rfl⟩ | ⟨place, items, rfl, accepted⟩)
    · exact ⟨[], rfl⟩
    · obtain ⟨members, done⟩ := (read items).mpr accepted
      exact ⟨members, bind_eq_ok.mpr ⟨items, rfl, done⟩⟩

theorem classEntry_iff (parts : ClassDeclaration) (entry : Entry) :
    (∃ next, decodeClassParts source parts [entry] = .ok next) ↔
      entry.key ∈ ["class", "fields", "fixtures", "tests"] ∧
        (entry.key = "class" → IsText entry.value) ∧ (entry.key = "fields" → IsFields entry.value) ∧
        (entry.key = "fixtures" → IsMembers entry.value) ∧
        (entry.key = "tests" → IsMembers entry.value) := by
  simp only [decodeClassParts_one, exists_or, exists_part, isText_iff,
    decodeFieldMapping_accepts_iff, decodeMemberSequence_accepts_iff]
  grind

theorem class_given {entries : List Entry} {start parts : ClassDeclaration}
    (distinct : (entries.map Entry.key).Nodup)
    (done : decodeClassParts source start entries = .ok parts) :
    Given entries "class" (fun entry name => decodeString "class name" entry.value = .ok name)
      start.name parts.name :=
  decodeClassParts_successive.given ClassDeclaration.name (by grind [decodeClassParts_one])
    (by grind [decodeClassParts_one]) distinct done

/-- A tree of nodes is decoded to a class exactly if it is the description of one. -/
theorem decodeClass_accepts_iff (source : String) (node : Node) :
    (∃ declaration, decodeClass source node = .ok declaration) ↔ IsClass node := by
  have complete : ∀ {entries}, Keyed node entries → ((∃ parts,
      decodeClassParts source
        { position := positionOf source node.place, name := "", fields := [], fixtures := []
          tests := [] } entries = .ok parts ∧ parts.name ≠ "") ↔ _) := fun keyed =>
    decodeClassParts_successive.complete_iff classEntry_iff fun parts done =>
      named_iff (class_given keyed.distinct done)
  simp only [decodeClass, bind_eq_ok, decodeEntries_eq_ok]
  constructor
  · rintro ⟨declaration, entries, keyed, parts, read, done⟩
    split at done
    · cases done
    · rename_i nonempty
      obtain ⟨allowed, hasName, named⟩ := (complete keyed).mp ⟨parts, read, nonempty⟩
      exact ⟨entries, ⟨keyed, fun entry isEntry => (allowed entry isEntry).1⟩, hasName, named,
        fun entry isEntry => (allowed entry isEntry).2.2.1,
        fun entry isEntry => (allowed entry isEntry).2.2.2.1,
        fun entry isEntry => (allowed entry isEntry).2.2.2.2⟩
  · rintro ⟨entries, keyed, hasName, named, fields, fixtures, tests⟩
    obtain ⟨parts, read, nonempty⟩ := (complete keyed.toKeyed).mpr ⟨fun entry isEntry =>
      ⟨keyed.known entry isEntry, fun isName => (named entry isEntry isName).isText,
        fields entry isEntry, fixtures entry isEntry, tests entry isEntry⟩, hasName, named⟩
    exact ⟨parts, entries, keyed.toKeyed, parts, read, if_neg nonempty⟩

end Assay.Description
