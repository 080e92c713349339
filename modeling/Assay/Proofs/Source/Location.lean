import Assay.Proofs.Bytecode.Interning
import Assay.Proofs.Syntax.Meaning
import Assay.Proofs.Typing.InPlace
import Mathlib.Data.List.DropRight

/-!
The location at the end of a diagnostic line. It is looked for behind the last separator and trimmed, so
whether it is found depends on the name of the source, and the message has no say.
-/

namespace Assay

namespace Text

theorem trimChars_eq (chars : List Char) :
    trimChars chars = (chars.dropWhile isBlank).rdropWhile isBlank :=
  rfl

theorem length_trimChars_le (chars : List Char) : (trimChars chars).length ≤ chars.length := by
  have back := (List.rdropWhile_prefix isBlank (chars.dropWhile isBlank)).length_le
  have front := (List.dropWhile_suffix isBlank (l := chars)).length_le
  rw [trimChars_eq]
  omega

theorem isBlank_of_printed {c : Char} (above : 33 ≤ c.toNat) (below : c.toNat < 127) :
    isBlank c = false := by
  unfold isBlank
  split
  · omega
  · omega
  · omega
  · omega
  · omega
  · omega
  · omega
  · omega
  · simp only [Bool.or_eq_false_iff, Bool.and_eq_false_iff, decide_eq_false_iff_not]
    omega

theorem trimChars_eq_self_iff {chars : List Char} :
    trimChars chars = chars ↔ (∀ c ∈ chars.head?, isBlank c = false) ∧
      ∀ c ∈ chars.getLast?, isBlank c = false := by
  have front : chars.dropWhile isBlank = chars ↔ ∀ c ∈ chars.head?, isBlank c = false := by
    cases chars with
    | nil => simp
    | cons c rest => simp [List.dropWhile_eq_self_iff]
  have back : chars.rdropWhile isBlank = chars ↔ ∀ c ∈ chars.getLast?, isBlank c = false := by
    rcases List.eq_nil_or_concat chars with rfl | ⟨rest, c, rfl⟩
    · simp
    · simp [List.rdropWhile_eq_self_iff]
  rw [← front, ← back, trimChars_eq]
  constructor
  · intro same
    have kept : chars.dropWhile isBlank = chars := by
      refine (List.dropWhile_suffix isBlank).eq_of_length_le ?_
      have shorter := (List.rdropWhile_prefix isBlank (chars.dropWhile isBlank)).length_le
      rw [same] at shorter
      exact shorter
    exact ⟨kept, by rwa [kept] at same⟩
  · rintro ⟨frontKept, backKept⟩
    rw [frontKept, backKept]

end Text

namespace Diagnostic

theorem afterLast_eq_none_iff {mark text : List Char} :
    afterLast mark text = none ↔ ¬mark <:+: text := by
  induction text with
  | nil => cases mark <;> simp [afterLast]
  | cons c rest ih =>
      rw [afterLast, List.infix_cons_iff, not_or, ← ih]
      cases afterLast mark rest with
      | some tail => simp
      | none => simp [List.isPrefixOf_iff_prefix]

theorem infix_of_afterLast {mark text tail : List Char} (found : afterLast mark text = some tail) :
    mark ++ tail <:+ text := by
  induction text with
  | nil =>
      rw [afterLast] at found
      split at found
      · cases found
        simp_all
      · cases found
  | cons c rest ih =>
      rw [afterLast] at found
      split at found
      · cases found
        rename_i later
        exact (ih later).trans (List.suffix_cons c rest)
      · split at found
        · rename_i starts
          obtain ⟨behind, isLine⟩ := List.isPrefixOf_iff_prefix.mp starts
          cases found
          rw [← isLine, List.drop_left]
        · cases found

theorem afterLast_append {mark text tail : List Char} (front : List Char)
    (found : afterLast mark text = some tail) : afterLast mark (front ++ text) = some tail := by
  induction front with
  | nil => exact found
  | cons c rest ih => rw [List.cons_append, afterLast, ih]

theorem afterLast_separator (text : List Char) :
    afterLast separator.toList (separator.toList ++ text) =
      some ((afterLast separator.toList (' ' :: text)).getD text) := by
  have isLine : separator.toList ++ text = [' ', '-', '>'] ++ ' ' :: text := rfl
  rw [isLine]
  cases later : afterLast separator.toList (' ' :: text) with
  | some tail => exact afterLast_append _ later
  | none =>
      have fromHead : afterLast separator.toList ('>' :: ' ' :: text) = none := by
        rw [afterLast, later]
        rfl
      have fromShaft : afterLast separator.toList ('-' :: '>' :: ' ' :: text) = none := by
        rw [afterLast, fromHead]
        rfl
      change afterLast separator.toList (' ' :: '-' :: '>' :: ' ' :: text) = some text
      rw [afterLast, fromShaft]
      rfl

theorem location_format (position : Position) (message : String) :
    location (format position message) = location (" " ++ position.text) := by
  have isLine : (format position message).toList =
      message.toList ++ (separator.toList ++ position.text.toList) := by
    simp [format]
  have isSpaced : (" " ++ position.text).toList = ' ' :: position.text.toList := by simp
  rw [location, isLine, location, isSpaced,
    afterLast_append _ (afterLast_separator position.text.toList)]
  cases afterLast separator.toList (' ' :: position.text.toList) with
  | some tail => rfl
  | none => rfl

theorem location_spaced_iff (text : String) :
    location (" " ++ text) = text ↔
      ¬separator.toList <:+: ' ' :: text.toList ∧ Text.trimChars text.toList = text.toList := by
  have isSpaced : (" " ++ text).toList = ' ' :: text.toList := by simp
  rw [location, isSpaced, ← afterLast_eq_none_iff, ← String.toList_inj, String.toList_ofList]
  cases found : afterLast separator.toList (' ' :: text.toList) with
  | none => simp; rfl
  | some tail =>
      have shorter := (infix_of_afterLast found).length_le
      have trimmed := Text.length_trimChars_le tail
      simp only [reduceCtorEq, false_and, iff_false, Option.getD_some]
      intro same
      rw [same] at trimmed
      simp [separator] at shorter
      omega

end Diagnostic

namespace Position

def coordinates (position : Position) : String :=
  if position.isKnown then
    ":" ++ toString position.line.toInt ++ ":" ++ toString position.column.toInt
  else ""

theorem text_eq (position : Position) : position.text = position.sourceText ++ position.coordinates := by
  unfold text coordinates
  split
  · simp only [String.append_assoc]
  · exact (String.append_empty).symm

theorem coordinates_eq_nil_iff (position : Position) :
    position.coordinates.toList = [] ↔ position.isKnown = false := by
  unfold coordinates
  split
  · simp_all
  · simp_all

theorem isBlank_coordinates {position : Position} {c : Char}
    (member : c ∈ position.coordinates.toList) : Text.isBlank c = false := by
  have number : ∀ {value : Int}, c ∈ (toString value).toList → Text.isBlank c = false := by
    intro value member
    rcases Bytecode.intText_chars member with digit | rfl
    · obtain ⟨above, below⟩ := Char.isDigit_iff_toNat.mp digit
      have zero : '0'.toNat = 48 := rfl
      have nine : '9'.toNat = 57 := rfl
      exact Text.isBlank_of_printed (by omega) (by omega)
    · rfl
  unfold coordinates at member
  split at member
  · simp only [String.toList_append, List.mem_append, or_assoc] at member
    rcases member with colon | line | colon | column
    · rw [show c = ':' by simpa using colon]
      rfl
    · exact number line
    · rw [show c = ':' by simpa using colon]
      rfl
    · exact number column
  · simp at member

/-- The name of the source can be told from what stands before it and loses nothing when it is trimmed. The
line and the column of a known position keep the end of the name. -/
structure PlainlyNamed (position : Position) : Prop where
  unseparated : ¬Diagnostic.separator.toList <:+: ' ' :: position.source.toList
  start : ∀ c ∈ position.source.toList.head?, Text.isBlank c = false
  finish : position.isKnown = false → ∀ c ∈ position.source.toList.getLast?, Text.isBlank c = false

theorem separator_infix_append_iff {text rest : List Char} (plain : ∀ c ∈ rest, Text.isBlank c = false) :
    Diagnostic.separator.toList <:+: text ++ rest ↔ Diagnostic.separator.toList <:+: text := by
  have notIn : ' ' ∉ rest := fun isIn => absurd (plain ' ' isIn) (by decide)
  rw [List.infix_append_iff]
  constructor
  · rintro (inText | inRest | ⟨front, behind, isMark, isSuffix, isPrefix⟩)
    · exact inText
    · exact absurd (inRest.subset (by decide)) notIn
    · rcases List.eq_nil_or_concat behind with rfl | ⟨most, last, rfl⟩
      · rw [isMark, List.append_nil]
        exact isSuffix.isInfix
      · have isBlank : last = ' ' := by
          have ends := congrArg List.getLast? isMark
          rw [List.concat_eq_append, ← List.append_assoc, List.getLast?_concat] at ends
          exact (Option.some.inj ends).symm
        exact absurd (isPrefix.subset (by simp [isBlank])) notIn
  · exact Or.inl

theorem sourceText_ne_nil (position : Position) : position.sourceText.toList ≠ [] := by
  unfold sourceText
  split
  · decide
  · simpa using ‹position.source ≠ ""›

theorem plainlyNamed_iff (position : Position) :
    position.PlainlyNamed ↔
      ¬Diagnostic.separator.toList <:+: ' ' :: position.source.toList ∧
        (∀ c ∈ position.source.toList.head?, Text.isBlank c = false) ∧
        (position.isKnown = false → ∀ c ∈ position.source.toList.getLast?, Text.isBlank c = false) :=
  ⟨fun plain => ⟨plain.unseparated, plain.start, plain.finish⟩,
    fun ⟨unseparated, start, finish⟩ => ⟨unseparated, start, finish⟩⟩

instance (position : Position) : Decidable position.PlainlyNamed :=
  letI _ (found : Option Char) : Decidable (∀ c ∈ found, Text.isBlank c = false) :=
    @Option.decidableForallMem Char _ (fun c => instDecidableEqBool (Text.isBlank c) false) found
  decidable_of_iff _ (plainlyNamed_iff position).symm

theorem plainlyNamed_iff_shown (position : Position) :
    position.PlainlyNamed ↔
      ¬Diagnostic.separator.toList <:+: ' ' :: position.sourceText.toList ∧
        (∀ c ∈ position.sourceText.toList.head?, Text.isBlank c = false) ∧
        (position.isKnown = false →
          ∀ c ∈ position.sourceText.toList.getLast?, Text.isBlank c = false) := by
  rw [plainlyNamed_iff, sourceText]
  split
  · rename_i isEmpty
    rw [isEmpty]
    have unshown : ¬Diagnostic.separator.toList <:+: [' '] := by decide
    have shown : ¬Diagnostic.separator.toList <:+: [' ', '?', '?'] := by decide
    have plain : Text.isBlank '?' = false := by decide
    simp [unshown, shown, plain]
  · rfl

/-- The location is found behind a separator exactly if the source is plainly named. -/
theorem location_found_iff (position : Position) :
    Diagnostic.location (" " ++ position.text) = position.text ↔ position.PlainlyNamed := by
  have plain : ∀ c ∈ position.coordinates.toList, Text.isBlank c = false := fun c => isBlank_coordinates
  have isText : position.text.toList = position.sourceText.toList ++ position.coordinates.toList := by
    rw [text_eq, String.toList_append]
  have ends : (∀ c ∈ position.text.toList.getLast?, Text.isBlank c = false) ↔
      (position.isKnown = false →
        ∀ c ∈ position.sourceText.toList.getLast?, Text.isBlank c = false) := by
    rw [isText, List.getLast?_append, ← coordinates_eq_nil_iff]
    rcases List.eq_nil_or_concat position.coordinates.toList with isNil | ⟨most, last, isLast⟩
    · simp [isNil]
    · have lastPlain := plain last (by simp [isLast])
      simp [isLast, lastPlain]
  have begins : position.text.toList.head? = position.sourceText.toList.head? := by
    rw [isText, List.head?_append_of_ne_nil _ (sourceText_ne_nil position)]
  rw [Diagnostic.location_spaced_iff, Text.trimChars_eq_self_iff, ends, begins, isText,
    ← List.cons_append, separator_infix_append_iff plain, plainlyNamed_iff_shown]

end Position

namespace Typing

open Syntax

theorem failure_of_checked_assert (checker : Checker) (site : Site) (position : Position)
    (condition : Expression) (ledger : Ledger) :
    (((checkCommandInPlace checker site (.assert position condition)).run ledger).2.notes site).failure =
      failureMessage position := by
  obtain ⟨notes, written, ran⟩ :=
    @checkCommandInPlace_checks checker (.assert position condition) site ledger.notes ledger rfl
  have here := written.inside [] _ rfl
  rw [List.append_nil] at here
  rw [ran]
  exact congrArg Note.failure here

/-- The location of a diagnostic line, and so the one that a failing assert prints, is the position exactly
if the source is plainly named. It is otherwise what stands behind the last separator in the position, or
the position without the white space around it. -/
theorem location_found_by_name (position : Position) :
    let found := Diagnostic.location (" " ++ position.text)
    (found = position.text ↔ position.PlainlyNamed) ∧
      (∀ message, Diagnostic.location (Diagnostic.format position message) = found) ∧
      (∀ (checker : Checker) (site : Site) (condition : Expression) (ledger : Ledger),
        (((checkCommandInPlace checker site (.assert position condition)).run ledger).2.notes
          site).failure = "failed at " ++ found) ∧
      Ending.printed? .test (.failed position) = some ("failed at " ++ found) := by
  have isFound := Diagnostic.location_format position
  have explained : failureMessage position =
      "failed at " ++ Diagnostic.location (" " ++ position.text) := by
    rw [failureMessage, isFound]
  refine ⟨position.location_found_iff, isFound, fun checker site condition ledger => ?_, ?_⟩
  · rw [failure_of_checked_assert, explained]
  · exact congrArg some explained

example : Position.PlainlyNamed { source := "shop/lamp.kit.yaml", line := 5, column := 9 } := by decide

/-- In a file whose name contains a separator a failing assert prints only what follows it. -/
theorem arrow_in_name_cuts_location :
    let position : Position := { source := "a -> b.kit.yaml", line := 5, column := 9 }
    position.text = "a -> b.kit.yaml:5:9" ∧
      Diagnostic.location (Diagnostic.format position "assertion") = "b.kit.yaml:5:9" ∧
      failureMessage position = "failed at b.kit.yaml:5:9" ∧
      failureMessage position ≠ "failed at " ++ position.text := by
  have isText : Position.text { source := "a -> b.kit.yaml", line := 5, column := 9 } =
      "a -> b.kit.yaml:5:9" := by rfl
  have isMessage : failureMessage { source := "a -> b.kit.yaml", line := 5, column := 9 } =
      "failed at b.kit.yaml:5:9" := by rfl
  refine ⟨isText, by rfl, isMessage, ?_⟩
  rw [isText, isMessage]
  decide

end Typing

end Assay
