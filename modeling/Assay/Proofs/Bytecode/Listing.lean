import Assay.Proofs.Bytecode.Decoding

/-!
The code of a routine as a list of instructions, each with the offset at which it stands.
-/

namespace Assay.Bytecode

structure Located where
  offset : Nat
  opcode : Opcode
  operands : List Nat
deriving DecidableEq, Repr

/-- The instructions from an offset to the end of the code, each right behind the one before. -/
inductive Decodes (code : Array UInt8) : Nat → List Located → Prop
  | finish : Decodes code code.size []
  | step {offset next : Nat} {opcode : Opcode} {operands : List Nat} {rest : List Located} :
      decodeAt code offset = .instruction opcode operands next → Decodes code next rest →
      Decodes code offset ({ offset, opcode, operands } :: rest)

theorem decodeAt_instruction {code : Array UInt8} {offset next : Nat} {opcode : Opcode}
    {operands : List Nat} (decoded : decodeAt code offset = .instruction opcode operands next) :
    offset < code.size ∧ next = offset + opcode.size := by
  simp only [decodeAt] at decoded
  split at decoded
  · simp at decoded
  · rename_i byte present
    split at decoded
    · simp at decoded
    · split at decoded
      · simp at decoded
      · simp only [Decoded.instruction.injEq] at decoded
        obtain ⟨rfl, -, rfl⟩ := decoded
        exact ⟨(Array.getElem?_eq_some_iff.mp present).1, rfl⟩

theorem Decodes.offset_lt {code : Array UInt8} {offset : Nat} {listing : List Located}
    (decodes : Decodes code offset listing) :
    ∀ located ∈ listing, located.offset < code.size := by
  induction decodes with
  | finish => simp
  | step decoded _ ih =>
      intro located isLocated
      rcases List.mem_cons.mp isLocated with rfl | later
      · exact (decodeAt_instruction decoded).1
      · exact ih located later

end Assay.Bytecode
