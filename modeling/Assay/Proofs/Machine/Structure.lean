import Assay.Proofs.Bytecode.Listing
import Assay.Proofs.Machine.Effects

/-!
Machines do not break down on code that is made of complete instructions whose jumps lead to
instructions or to the end. Types do not matter for this: an instruction that finds something else than
it needs fails, and the call fails with it.
-/

namespace Assay.Bytecode

def Starts (code : Array UInt8) (listing : List Located) (offset : Nat) : Prop :=
  offset = code.size ∨ ∃ located ∈ listing, located.offset = offset

instance (code : Array UInt8) (listing : List Located) (offset : Nat) :
    Decidable (Starts code listing offset) :=
  inferInstanceAs (Decidable (_ ∨ _))

/-- The code of a routine is a list of complete instructions, and jumps stay among them. -/
structure Routine.Structured (routine : Routine) (listing : List Located) : Prop where
  decodes : Decodes routine.code 0 listing
  jumps : ∀ located ∈ listing, located.opcode.isJump = true →
    ∀ target ∈ located.operands, Starts routine.code listing target

structure ClassImage.Structured (image : ClassImage) : Prop where
  routines : ∀ routine ∈ image.routines, ∃ listing, routine.Structured listing
  methods : ∀ constant ∈ image.constants, constant.kind = .method →
    ∀ method, constant.method = some method → 0 ≤ method.args

def Program.Structured (program : Program) : Prop := ∀ image ∈ program.classes, image.Structured

theorem Decodes.starts {code : Array UInt8} {offset : Nat} {listing : List Located}
    (decodes : Decodes code offset listing) : Starts code listing offset := by
  cases decodes with
  | finish => exact .inl rfl
  | step _ _ => exact .inr ⟨_, List.mem_cons_self, rfl⟩

theorem Starts.cons {code : Array UInt8} {listing : List Located} {offset : Nat}
    (starts : Starts code listing offset) (first : Located) :
    Starts code (first :: listing) offset := by
  rcases starts with isEnd | ⟨located, isLocated, isHere⟩
  · exact .inl isEnd
  · exact .inr ⟨located, List.mem_cons_of_mem _ isLocated, isHere⟩

theorem Decodes.decodeAt {code : Array UInt8} {offset : Nat} {listing : List Located}
    (decodes : Decodes code offset listing) {located : Located} (isLocated : located ∈ listing) :
    ∃ next, Bytecode.decodeAt code located.offset =
        .instruction located.opcode located.operands next ∧ Starts code listing next := by
  induction decodes with
  | finish => simp at isLocated
  | step decoded rest ih =>
      rcases List.mem_cons.mp isLocated with rfl | isLater
      · exact ⟨_, decoded, rest.starts.cons _⟩
      · obtain ⟨next, found, starts⟩ := ih isLater
        exact ⟨next, found, starts.cons _⟩

theorem readOperands?_length {code : Array UInt8} {offset : Nat} {widths operands : List Nat}
    (read : readOperands? code offset widths = some operands) :
    operands.length = widths.length := by
  induction widths generalizing offset operands with
  | nil =>
      cases read
      rfl
  | cons width widths ih =>
      simp only [readOperands?] at read
      split at read
      · cases read
      · obtain ⟨rest, readRest, rfl⟩ := Option.map_eq_some_iff.mp read
        rw [List.length_cons, List.length_cons, ih readRest]

theorem decodeAt_operands {code : Array UInt8} {offset next : Nat} {opcode : Opcode}
    {operands : List Nat} (decoded : decodeAt code offset = .instruction opcode operands next) :
    operands.length = opcode.widths.length := by
  simp only [decodeAt] at decoded
  split at decoded
  · cases decoded
  · split at decoded
    · cases decoded
    · split at decoded
      · cases decoded
      · rename_i read
        cases decoded
        exact readOperands?_length read

theorem Starts.le_size {code : Array UInt8} {start offset : Nat} {listing : List Located}
    (starts : Starts code listing offset) (decodes : Decodes code start listing) :
    offset ≤ code.size := by
  rcases starts with rfl | ⟨located, isLocated, rfl⟩
  · exact Nat.le_refl _
  · exact Nat.le_of_lt (decodes.offset_lt located isLocated)

theorem Program.lookup_mem {program : Program} {owner name : String} {image : ClassImage}
    {routine : Routine} (found : program.lookup owner name = .ok (image, routine)) :
    image ∈ program.classes ∧ routine ∈ image.routines := by
  unfold lookup at found
  split at found
  · cases found
  · rename_i isImage
    split at found
    · cases found
    · rename_i isRoutine
      cases found
      exact ⟨List.mem_of_find?_eq_some isImage, Array.mem_of_find?_eq_some isRoutine⟩

end Assay.Bytecode

namespace Assay.Machine

open Bytecode

section Instructions

variable {program : Program} {frame : Frame} {world : World} {allowed : Nat → Prop}

inductive Confined (program : Program) (frame : Frame) (allowed : Nat → Prop) :
    Except Fault (World × Effect) → Prop
  | fault (cause : Fault) : Confined program frame allowed (.error cause)
  | proceed (world : World) {next : Frame} : Stays frame allowed next →
      Confined program frame allowed (.ok (world, .proceed next))
  | call (world : World) {caller : Frame} {image : ClassImage} {routine : Routine}
      (args : List Value) : Stays frame allowed caller → image ∈ program.classes →
      routine ∈ image.routines →
      Confined program frame allowed (.ok (world, .call caller image routine args))
  | finish (world : World) (value : Value) :
      Confined program frame allowed (.ok (world, .finish value))

theorem Behaves.confined {result : Except Fault (World × Effect)}
    (behaves : Behaves program frame world allowed False result) :
    Confined program frame allowed result := by
  cases behaves with
  | fault cause => exact .fault cause
  | proceed _ stays => exact .proceed _ stays
  | call args stays found =>
      obtain ⟨isImage, isRoutine⟩ := Program.lookup_mem found
      exact .call world args stays isImage isRoutine
  | finish value => exact .finish world value
  | crash impossible => exact impossible.elim

def NamesMethods (frame : Frame) : Prop :=
  ∀ index method, frame.methodConstant index = .ok method → 0 ≤ method.args

theorem namesMethods_of_structured (structured : frame.image.Structured) : NamesMethods frame := by
  intro index method found
  obtain ⟨constant, isConstant, found⟩ := bind_eq_ok.mp found
  unfold Frame.constant at isConstant
  split at isConstant
  · rename_i present
    cases isConstant
    split at found
    · rename_i isMethod present
      cases found
      exact structured.methods constant (Array.mem_of_getElem? ‹_›) isMethod method present
    · cases found
  · cases isConstant

/-- Every instruction stays within its routine: it goes on behind itself, or jumps to its operand. -/
theorem execute_confined (named : NamesMethods frame) (opcode : Opcode) (operand : Nat)
    (here : allowed frame.offset) (target : opcode.isJump = true → allowed operand) :
    Confined program frame allowed (execute program frame world opcode operand) := by
  refine (execute_behaves opcode operand here target fun index method found negative => ?_).confined
  exact Int.not_lt.mpr (named index method found) negative

end Instructions

end Assay.Machine
