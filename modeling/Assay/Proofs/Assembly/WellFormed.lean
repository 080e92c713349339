import Assay.Proofs.Assembly.Totality
import Assay.Proofs.Bytecode.Listing

/-!
The code of a test class is well formed. Every routine can be read instruction by instruction to its
end, jumps lead to instructions, operands name locals and constants of the right kind, and no routine
can run off its end.
-/

namespace Assay.Assembly

open Bytecode Assay.Graph Lowering Syntax Typing

/-- The constants that an instruction of a test class can have as its operand. -/
inductive Serves (declaration : ClassDeclaration) (program : Program) (image : ClassImage) :
    Opcode → Constant → Prop
  | pushInt (value : Int64) : Serves declaration program image .pushConstant (.ofInt value)
  | pushFloat (value : Float) : Serves declaration program image .pushConstant (.ofFloat value)
  | pushString (value : String) : Serves declaration program image .pushConstant (.ofString value)
  | new {name : String} : (program.class? name).isSome = true →
      Serves declaration program image .new (.ofString name)
  | getField {name : String} : name ∈ declaration.fields.map FieldDeclaration.name →
      Serves declaration program image .getField (.ofString name)
  | setField {name : String} : name ∈ declaration.fields.map FieldDeclaration.name →
      Serves declaration program image .setField (.ofString name)
  | invokeStatic {method : MethodRef} {routine : Routine} : method.owner = image.name →
      image.routine? method.name = some routine → routine.isStatic = true →
      routine.params = method.args → routine.returns = method.returns →
      Serves declaration program image .invokeStatic (.ofMethod method)
  | invokeVirtual : Serves declaration program image .invokeVirtual
      (.ofMethod { owner := "String", name := "output", args := 0, returns := .void })

/-- The listing of a routine of the test class, with what its operands must be. -/
structure WellFormed (declaration : ClassDeclaration) (program : Program) (image : ClassImage)
    (routine : Routine) (listing : List Located) : Prop where
  decodes : Decodes routine.code 0 listing
  jumps : ∀ located ∈ listing, located.opcode.isJump = true →
    ∃ target ∈ listing, located.operands = [target.offset] ∧ target.offset < routine.code.size
  locals : ∀ located ∈ listing, located.opcode = .load ∨ located.opcode = .store →
    ∃ slot : Nat, located.operands = [slot] ∧ (slot : Int) < routine.locals
  constants : ∀ located ∈ listing, located.opcode.usesConstant = true →
    ∃ index entry, located.operands = [index] ∧ image.constants[index]? = some entry ∧
      Serves declaration program image located.opcode entry
  ends : ∃ last, listing.getLast? = some last ∧ last.opcode ∈ [Opcode.ret, .retValue, .jump]

section Listing

def Order.opcode : Order → Opcode
  | plain opcode _ => opcode
  | pooled opcode _ => opcode

def ordersSize (orders : List Order) : Nat := (orders.map fun order => order.opcode.size).sum

@[simp] theorem ordersSize_nil : ordersSize [] = 0 := rfl

@[simp] theorem ordersSize_append (first second : List Order) :
    ordersSize (first ++ second) = ordersSize first + ordersSize second := by
  simp [ordersSize]

inductive Shows (constants : Array Constant) : Order → Located → Prop
  | plain (offset : Nat) (opcode : Opcode) (operands : List Int) :
      Shows constants (.plain opcode operands) ⟨offset, opcode, operands.map Int.toNat⟩
  | pooled (offset : Nat) {opcode : Opcode} {constant entry : Constant} {index : Nat} :
      constants[index]? = some entry → StandsFor entry constant →
      Shows constants (.pooled opcode constant) ⟨offset, opcode, [index]⟩

variable {constants : Array Constant} {orders : List Order} {listing : List Located}

theorem Arranged.size {bytes : List UInt8} (arranged : Arranged constants orders bytes) :
    bytes.length = ordersSize orders := by
  induction arranged with
  | nil => rfl
  | plain encoded _ ih =>
      rw [List.length_append, encode_length encoded, ih]
      simp [ordersSize, Order.opcode]
  | pooled encoded _ _ _ ih =>
      rw [List.length_append, encode_length encoded, ih]
      simp [ordersSize, Order.opcode]

theorem Arranged.append {first second : List Order} {bytes more : List UInt8}
    (before : Arranged constants first bytes) (after : Arranged constants second more) :
    Arranged constants (first ++ second) (bytes ++ more) := by
  induction before with
  | nil => exact after
  | plain encoded _ ih =>
      rw [List.append_assoc]
      exact .plain encoded ih
  | pooled encoded found stands _ ih =>
      rw [List.append_assoc]
      exact .pooled encoded found stands ih

theorem Arranged.decodes {bytes : List UInt8} (arranged : Arranged constants orders bytes)
    {code : Array UInt8} {offset : Nat} (here : CodeAt code offset bytes)
    (whole : offset + bytes.length = code.size) :
    ∃ listing, Decodes code offset listing ∧ List.Forall₂ (Shows constants) orders listing := by
  induction arranged generalizing offset with
  | nil =>
      obtain rfl : offset = code.size := by simpa using whole
      exact ⟨[], .finish, .nil⟩
  | @plain opcode operands _ bytes _ encoded _ ih =>
      rw [List.length_append, ← Nat.add_assoc] at whole
      obtain ⟨listing, decodes, shows⟩ := ih here.right whole
      exact ⟨_, .step (decodeAt_encode encoded here.left) decodes, .cons (.plain _ _ _) shows⟩
  | @pooled opcode constant entry index _ bytes _ encoded found stands _ ih =>
      rw [List.length_append, ← Nat.add_assoc] at whole
      obtain ⟨listing, decodes, shows⟩ := ih here.right whole
      have decoded := decodeAt_encode encoded here.left
      simp only [List.map_cons, Int.toNat_natCast, List.map_nil] at decoded
      exact ⟨_, .step decoded decodes, .cons (.pooled _ found stands) shows⟩

theorem order_of_located (shows : List.Forall₂ (Shows constants) orders listing) {located : Located}
    (isLocated : located ∈ listing) : ∃ order ∈ orders, Shows constants order located := by
  induction shows with
  | nil => simp at isLocated
  | cons first _ ih =>
      rcases List.mem_cons.mp isLocated with rfl | later
      · exact ⟨_, List.mem_cons_self, first⟩
      · obtain ⟨order, isOrder, isShown⟩ := ih later
        exact ⟨order, List.mem_cons_of_mem _ isOrder, isShown⟩

theorem located_of_split {code : Array UInt8} {offset : Nat} {before after : List Order}
    {order : Order} (decodes : Decodes code offset listing)
    (shows : List.Forall₂ (Shows constants) (before ++ order :: after) listing) :
    ∃ front located back, listing = front ++ located :: back ∧ Shows constants order located ∧
      located.offset = offset + ordersSize before ∧ List.Forall₂ (Shows constants) after back := by
  induction before generalizing offset listing with
  | nil =>
      cases shows with
      | cons first rest =>
          cases decodes with
          | step decoded _ => exact ⟨[], _, _, rfl, first, by simp, rest⟩
  | cons earlier before ih =>
      cases shows with
      | cons first rest =>
          cases decodes with
          | @step _ next opcode operands _ decoded others =>
              obtain ⟨front, located, back, split, isShown, position, behind⟩ := ih others rest
              have size : earlier.opcode.size = opcode.size := by cases first <;> rfl
              have isNext := (decodeAt_instruction decoded).2
              refine ⟨_ :: front, located, back, by rw [split]; rfl, isShown, ?_, behind⟩
              rw [position, isNext, ← size]
              simp [ordersSize, Nat.add_assoc]

end Listing

inductive Proper (declaration : ClassDeclaration) (program : Program) (image : ClassImage)
    (locals : Int) (lands : Nat → Prop) : Order → Prop
  | simple {opcode : Opcode} : opcode.widths = [] →
      Proper declaration program image locals lands (.plain opcode [])
  | slot {opcode : Opcode} {slot : Nat} : opcode = .load ∨ opcode = .store → (slot : Int) < locals →
      Proper declaration program image locals lands (.plain opcode [(slot : Int)])
  | jump {opcode : Opcode} {address : Nat} : opcode.isJump = true → lands address →
      Proper declaration program image locals lands (.plain opcode [(address : Int)])
  | pooled {opcode : Opcode} {constant : Constant} : Usual image.name constant →
      Serves declaration program image opcode constant →
      Proper declaration program image locals lands (.pooled opcode constant)

def Order.isEnd : Order → Bool
  | plain opcode _ => opcode = .ret || opcode = .retValue || opcode = .jump
  | pooled _ _ => false

def Closes (orders : List Order) : Prop :=
  ∃ front last, orders = front ++ [last] ∧ last.isEnd = true

variable {declaration : ClassDeclaration} {program : Program} {image : ClassImage} {locals : Int}
  {lands : Nat → Prop}

theorem StandsFor.eq_of_usual {testClass : String} {entry constant : Constant}
    (stands : StandsFor entry constant) (first : Usual testClass entry)
    (second : Usual testClass constant) : entry = constant := by
  cases stands with
  | same => rfl
  | method sameText => rw [first.method_eq second sameText]

theorem simple_opcode {opcode : Opcode} (plain : opcode.widths = []) :
    opcode.isJump = false ∧ opcode.usesConstant = false ∧ opcode ≠ .load ∧ opcode ≠ .store := by
  cases opcode <;> simp_all [Opcode.widths, Opcode.isJump, Opcode.usesConstant]

theorem Serves.opcode {opcode : Opcode} {constant : Constant}
    (serves : Serves declaration program image opcode constant) :
    opcode.isJump = false ∧ opcode ≠ .load ∧ opcode ≠ .store := by
  cases serves <;> simp [Opcode.isJump]

theorem jump_opcode {opcode : Opcode} (isJump : opcode.isJump = true) :
    opcode.usesConstant = false ∧ opcode ≠ .load ∧ opcode ≠ .store := by
  cases opcode <;> simp_all [Opcode.isJump, Opcode.usesConstant]

theorem Proper.operands {order : Order} {located : Located}
    (isProper : Proper declaration program image locals lands order)
    (usual : ∀ entry ∈ image.constants, Usual image.name entry)
    (isShown : Shows image.constants order located) :
    (located.opcode.isJump = true → ∃ address, located.operands = [address] ∧ lands address) ∧
      (located.opcode = .load ∨ located.opcode = .store →
        ∃ slot : Nat, located.operands = [slot] ∧ (slot : Int) < locals) ∧
      (located.opcode.usesConstant = true → ∃ index entry, located.operands = [index] ∧
        image.constants[index]? = some entry ∧
        Serves declaration program image located.opcode entry) := by
  cases isProper with
  | simple plain =>
      cases isShown
      obtain ⟨noJump, noConstant, notLoad, notStore⟩ := simple_opcode plain
      exact ⟨by simp [noJump], by simp [notLoad, notStore], by simp [noConstant]⟩
  | @slot opcode slot isSlot small =>
      cases isShown
      refine ⟨?_, fun _ => ⟨slot, rfl, small⟩, ?_⟩
      · rcases isSlot with rfl | rfl <;> simp [Opcode.isJump]
      · rcases isSlot with rfl | rfl <;> simp [Opcode.usesConstant]
  | @jump opcode address isJump target =>
      cases isShown
      obtain ⟨noConstant, notLoad, notStore⟩ := jump_opcode isJump
      exact ⟨fun _ => ⟨address, rfl, target⟩, by simp [notLoad, notStore], by simp [noConstant]⟩
  | pooled isUsual serves =>
      obtain ⟨noJump, notLoad, notStore⟩ := serves.opcode
      cases isShown with
      | @pooled offset _ _ entry index found stands =>
          have same := stands.eq_of_usual (usual entry (Array.mem_of_getElem? found)) isUsual
          exact ⟨by simp [noJump], by simp [notLoad, notStore],
            fun _ => ⟨index, entry, rfl, found, same ▸ serves⟩⟩

theorem wellFormed_of_arranged {routine : Routine} {orders : List Order}
    (arranged : Arranged image.constants orders routine.code.toList)
    (usual : ∀ entry ∈ image.constants, Usual image.name entry)
    (proper : ∀ order ∈ orders, Proper declaration program image routine.locals lands order)
    (landing : ∀ address, lands address →
      ∃ before order after, orders = before ++ order :: after ∧ address = ordersSize before)
    (closes : Closes orders) :
    ∃ listing, WellFormed declaration program image routine listing := by
  have here : CodeAt routine.code 0 routine.code.toList := ⟨[], by simp⟩
  obtain ⟨listing, decodes, shows⟩ := arranged.decodes here (by simp)
  have operands : ∀ located ∈ listing, _ := fun located isLocated =>
    let ⟨_, isOrder, isShown⟩ := order_of_located shows isLocated
    (proper _ isOrder).operands usual isShown
  refine ⟨listing, decodes, ?_, ?_, ?_, ?_⟩
  · intro located isLocated isJump
    obtain ⟨address, isAddress, target⟩ := (operands located isLocated).1 isJump
    obtain ⟨before, order, after, split, rfl⟩ := landing address target
    rw [split] at shows
    obtain ⟨front, found, back, isFound, -, position, -⟩ := located_of_split decodes shows
    have member : found ∈ listing := by simp [isFound]
    refine ⟨found, member, ?_, decodes.offset_lt found member⟩
    rw [isAddress, position, Nat.zero_add]
  · exact fun located isLocated => (operands located isLocated).2.1
  · exact fun located isLocated => (operands located isLocated).2.2
  · obtain ⟨front, last, rfl, isEnd⟩ := closes
    obtain ⟨front, located, back, split, isShown, -, behind⟩ := located_of_split decodes shows
    cases behind
    refine ⟨located, by simp [split], ?_⟩
    cases isShown with
    | plain offset opcode operands =>
        simp only [Order.isEnd, Bool.or_eq_true, decide_eq_true_eq] at isEnd
        simp only [List.mem_cons, List.not_mem_nil, or_false]
        exact or_assoc.mp isEnd
    | pooled offset found stands => simp [Order.isEnd] at isEnd

theorem mem_fields_of_declares {name : String} (declares : Declares declaration name) :
    name ∈ declaration.fields.map FieldDeclaration.name := by
  cases found : declaration.fields.find? fun field => field.name = name with
  | none => simp [Declares, fieldType?, found] at declares
  | some field =>
      have named : field.name = name := by simpa using List.find?_some found
      exact named ▸ List.mem_map_of_mem (List.mem_of_find?_eq_some found)

section Members

variable {constants : Array Constant}

theorem arranged_plain {opcode : Opcode} {operands : List Int} {bytes : List UInt8}
    (encoded : encode opcode operands = .ok bytes) :
    Arranged constants [.plain opcode operands] bytes := by
  simpa using Arranged.plain encoded .nil

theorem arranged_pooled {opcode : Opcode} {constant entry : Constant} {index : Nat}
    {bytes : List UInt8} (encoded : encode opcode [(index : Int)] = .ok bytes)
    (found : constants[index]? = some entry) (stands : StandsFor entry constant) :
    Arranged constants [.pooled opcode constant] bytes := by
  simpa using Arranged.pooled encoded found stands .nil

theorem lowers_arranged {instruction : Instruction} {opcode : Opcode} {operands : List Int}
    {bytes : List UInt8} (lowers : Lowers constants instruction opcode operands)
    (encoded : encode opcode operands = .ok bytes)
    (isPlain : Plain (Declares declaration) instruction) :
    ∃ order, Arranged constants [order] bytes ∧
      Proper declaration program image 1 lands order := by
  cases isPlain with
  | const value =>
      cases lowers with
      | const found =>
          exact ⟨_, arranged_pooled encoded found (.same _), .pooled (.int value) (.pushInt value)⟩
  | newString text =>
      cases lowers with
      | newString found =>
          exact ⟨_, arranged_pooled encoded found (.same _), .pooled (.string text) (.pushString text)⟩
  | loadReceiver =>
      cases lowers with
      | load => exact ⟨_, arranged_plain encoded, .slot (.inl rfl) (show ((0 : Nat) : Int) < 1 by decide)⟩
  | @getField owner name known =>
      cases lowers with
      | getField found =>
          exact ⟨_, arranged_pooled encoded found (.same _),
            .pooled (.string name) (.getField (mem_fields_of_declares known))⟩
  | @putField owner name known =>
      cases lowers with
      | putField found =>
          exact ⟨_, arranged_pooled encoded found (.same _),
            .pooled (.string name) (.setField (mem_fields_of_declares known))⟩
  | arithmetic operator =>
      cases lowers with
      | arithmetic =>
          exact ⟨_, arranged_plain encoded, .simple (by cases operator <;> rfl)⟩
  | output =>
      cases lowers with
      | virtualCall isKind found sameText =>
          obtain rfl := Except.ok.inj isKind
          exact ⟨_, arranged_pooled encoded found (.method sameText), .pooled .output .invokeVirtual⟩

theorem closes_append (first : List Order) {second : List Order} (closes : Closes second) :
    Closes (first ++ second) := by
  obtain ⟨front, last, rfl, isEnd⟩ := closes
  exact ⟨first ++ front, last, by simp, isEnd⟩

theorem encodes_arranged {code : List Instruction} {bytes : List UInt8}
    (encodes : Encodes constants code bytes)
    (allowed : ∀ instruction ∈ code, Plain (Declares declaration) instruction ∨
      ∃ kind, instruction = .ret kind) :
    ∃ orders, Arranged constants orders bytes ∧
      (∀ order ∈ orders, Proper declaration program image 1 lands order) ∧
      (orders = [] ↔ code = []) ∧ (endsWithReturn code = true → Closes orders) := by
  induction encodes with
  | nil => exact ⟨[], .nil, by simp, by simp, by simp [endsWithReturn]⟩
  | @cons instruction rest opcode operands first later lowers encoded _ ih =>
      obtain ⟨here, others⟩ := List.forall_mem_cons.mp allowed
      obtain ⟨orders, arranged, proper, empty, closes⟩ := ih others
      have single : ∃ order, Arranged constants [order] first ∧
          Proper declaration program image 1 lands order ∧
          (instruction.isReturn = true → order.isEnd = true) := by
        rcases here with isPlain | ⟨kind, rfl⟩
        · obtain ⟨order, isArranged, isProper⟩ := lowers_arranged lowers encoded isPlain
          refine ⟨order, isArranged, isProper, fun isReturn => ?_⟩
          rw [isReturn_of_plain isPlain] at isReturn
          exact absurd isReturn (by simp)
        · cases lowers
          refine ⟨_, arranged_plain encoded, .simple ?_, fun _ => ?_⟩
          · split <;> rfl
          · simp only [Order.isEnd]
            split <;> rfl
      obtain ⟨order, isArranged, isProper, isEnd⟩ := single
      refine ⟨order :: orders, isArranged.append arranged, List.forall_mem_cons.mpr ⟨isProper, proper⟩,
        by simp, fun ends => ?_⟩
      cases rest with
      | nil =>
          have last : instruction.isReturn = true := by simpa [endsWithReturn] using ends
          obtain rfl := empty.mpr rfl
          exact ⟨[], order, rfl, isEnd last⟩
      | cons next more =>
          have later : endsWithReturn (next :: more) = true := by simpa [endsWithReturn] using ends
          exact closes_append [order] (closes later)

variable {addresses : Std.HashMap BlockIndex Nat}

theorem transfer_arranged {next : Option BlockIndex} {transfer : Transfer} {bytes : List UInt8}
    (encoded : encodeTransfer addresses next transfer = .ok bytes)
    (known : ∀ target ∈ transfer.successors, ∃ address, addresses[target]? = some address ∧ lands address) :
    ∃ orders, Arranged constants orders bytes ∧
      (∀ order ∈ orders, Proper declaration program image 1 lands order) ∧
      (transfer = .exit → orders = []) ∧ (next = none → transfer ≠ .exit → Closes orders) := by
  have jump : ∀ {opcode : Opcode} {target : BlockIndex} {bytes : List UInt8}, opcode.isJump = true →
      target ∈ transfer.successors → encodeJump addresses opcode target = .ok bytes →
      ∃ address : Nat, Arranged constants [.plain opcode [(address : Int)]] bytes ∧
        Proper declaration program image 1 lands (.plain opcode [(address : Int)]) := by
    intro opcode target bytes isJump isTarget jumps
    obtain ⟨address, isAddress, lands⟩ := known target isTarget
    have isEncoded := mapError_ok jumps
    rw [isAddress] at isEncoded
    exact ⟨address, arranged_plain isEncoded, .jump isJump lands⟩
  have unlessFollowing : ∀ {target : BlockIndex} {bytes : List UInt8}, target ∈ transfer.successors →
      encodeJumpUnlessFollowing addresses next target = .ok bytes →
      ∃ orders, Arranged constants orders bytes ∧
        (∀ order ∈ orders, Proper declaration program image 1 lands order) ∧
        (next = none → Closes orders) := by
    intro target bytes isTarget jumps
    by_cases follows : next = some target
    · simp only [encodeJumpUnlessFollowing, follows, if_true, Except.ok.injEq] at jumps
      exact ⟨[], jumps ▸ .nil, by simp, by simp [follows]⟩
    · simp only [encodeJumpUnlessFollowing, follows, if_false] at jumps
      obtain ⟨address, arranged, isProper⟩ := jump rfl isTarget jumps
      exact ⟨_, arranged, by simpa using isProper, fun _ => ⟨[], _, rfl, rfl⟩⟩
  cases transfer with
  | exit =>
      simp only [encodeTransfer, Except.ok.injEq] at encoded
      exact ⟨[], encoded ▸ .nil, by simp, fun _ => rfl, by simp⟩
  | jump target =>
      obtain ⟨orders, arranged, proper, closes⟩ :=
        unlessFollowing (by simp [Transfer.successors]) encoded
      exact ⟨orders, arranged, proper, by simp, fun isLast _ => closes isLast⟩
  | branch cond yes no =>
      obtain ⟨opcode, taken, otherwise, isOpcode, takenBy, otherwiseBy, rfl⟩ :=
        encodeTransfer_branch encoded
      have isJump : opcode.isJump = true := by
        cases cond <;> simp only [jumpOpcode?, Option.some.injEq, reduceCtorEq] at isOpcode <;>
          simp [← isOpcode, Opcode.isJump]
      obtain ⟨address, first, isProper⟩ := jump isJump (by simp [Transfer.successors]) takenBy
      obtain ⟨orders, second, proper, closes⟩ :=
        unlessFollowing (by simp [Transfer.successors]) otherwiseBy
      exact ⟨_, first.append second, List.forall_mem_cons.mpr ⟨isProper, proper⟩, by simp,
        fun isLast _ => closes_append _ (closes isLast)⟩

theorem allowed_of_finished {size : Nat} {code : List Instruction} {transfer : Transfer}
    (finished : Finished (Plain (Declares declaration)) size code transfer) :
    ∀ instruction ∈ code, Plain (Declares declaration) instruction ∨
      ∃ kind, instruction = .ret kind := by
  intro instruction isInstruction
  cases finished with
  | exit kind isPlain =>
      rcases List.mem_append.mp isInstruction with inBody | isLast
      · exact .inl (isPlain instruction inBody)
      · exact .inr ⟨kind, List.mem_singleton.mp isLast⟩
  | jump isPlain _ => exact .inl (isPlain instruction isInstruction)
  | branch isPlain _ _ _ => exact .inl (isPlain instruction isInstruction)

theorem block_arranged {arena : Arena} (complete : Complete (Declares declaration) arena)
    {id : BlockIndex} {block : Array UInt8} {transfer : Transfer} {next : Option BlockIndex}
    {jumps : List UInt8} (materialized : Materialized arena constants id block)
    (sameTransfer : (arena.get? id).map Block.transfer = some transfer)
    (encoded : encodeTransfer addresses next transfer = .ok jumps)
    (known : ∀ target ∈ arena.successors id,
      ∃ address, addresses[target]? = some address ∧ lands address) :
    ∃ orders, Arranged constants orders (block.toList ++ jumps) ∧
      (∀ order ∈ orders, Proper declaration program image 1 lands order) ∧
      (next = none → Closes orders) := by
  obtain ⟨stored, found, encodes, returns⟩ := materialized
  rw [found, Option.map_some, Option.some.injEq] at sameTransfer
  subst sameTransfer
  rw [Arena.successors_of_get found] at known
  have finished := complete id _ _ ⟨stored, found, rfl, rfl⟩
  obtain ⟨body, bodyArranged, bodyProper, -, bodyCloses⟩ :=
    encodes_arranged encodes (allowed_of_finished finished)
  obtain ⟨rest, restArranged, restProper, noRest, restCloses⟩ := transfer_arranged encoded known
  refine ⟨body ++ rest, bodyArranged.append restArranged,
    List.forall_mem_append.mpr ⟨bodyProper, restProper⟩, fun isLast => ?_⟩
  by_cases isExit : stored.transfer = .exit
  · rw [noRest isExit, List.append_nil]
    exact bodyCloses (returns isExit)
  · exact closes_append _ (restCloses isLast isExit)

theorem Closes.cons {orders : List Order} (closes : Closes orders) :
    ∃ order rest, orders = order :: rest := by
  obtain ⟨front, last, rfl, -⟩ := closes
  cases front with
  | nil => exact ⟨last, [], rfl⟩
  | cons order rest => exact ⟨order, rest ++ [last], rfl⟩

theorem joinBlocks_arranged {arena : Arena} (complete : Complete (Declares declaration) arena)
    {placed : List Placed} {start code : Array UInt8}
    (joined : joinBlocks addresses placed start = .ok code)
    (addressed : Addressed addresses placed start.size)
    (materialized : ∀ block ∈ placed, Materialized arena constants block.id block.bytes ∧
      (arena.get? block.id).map Block.transfer = some block.transfer)
    (known : ∀ block ∈ placed, ∀ target ∈ arena.successors block.id,
      ∃ address, addresses[target]? = some address ∧ lands address) :
    ∃ orders bytes, code.toList = start.toList ++ bytes ∧ Arranged constants orders bytes ∧
      (∀ order ∈ orders, Proper declaration program image 1 lands order) ∧
      (placed = [] ∧ orders = [] ∨ Closes orders) ∧
      ∀ id ∈ placed.map Placed.id, ∃ before order after, orders = before ++ order :: after ∧
        addresses[id]? = some (start.size + ordersSize before) := by
  induction placed generalizing start with
  | nil =>
      simp only [joinBlocks, Except.ok.injEq] at joined
      exact ⟨[], [], by simp [joined], .nil, by simp, .inl ⟨rfl, rfl⟩, by simp⟩
  | cons block rest ih =>
      simp only [joinBlocks] at joined
      split at joined
      · simp at joined
      · rename_i jumps encoded
        obtain ⟨isHere, sameTransfer⟩ := materialized block List.mem_cons_self
        obtain ⟨here, hereArranged, hereProper, hereCloses⟩ := block_arranged complete isHere
          sameTransfer encoded (known block List.mem_cons_self)
        have size : (start ++ block.bytes ++ jumps.toArray).size = start.size + ordersSize here := by
          rw [← hereArranged.size]
          simp
        have next : start.size + ordersSize here =
            start.size + (block.bytes.size + transferSize (following rest) block.transfer) := by
          rw [← size, ← encodeTransfer_length encoded]
          simp
        obtain ⟨later, bytes, split, laterArranged, laterProper, laterCloses, offsets⟩ :=
          ih joined (by rw [size, next]; exact addressed.2)
            (fun other member => materialized other (List.mem_cons_of_mem _ member))
            (fun other member => known other (List.mem_cons_of_mem _ member))
        have closes : Closes (here ++ later) := by
          rcases laterCloses with ⟨rfl, rfl⟩ | laterCloses
          · simpa using hereCloses rfl
          · exact closes_append here laterCloses
        refine ⟨here ++ later, block.bytes.toList ++ jumps ++ bytes, by simp [split],
          hereArranged.append laterArranged, List.forall_mem_append.mpr ⟨hereProper, laterProper⟩,
          .inr closes, ?_⟩
        intro id isPlaced
        rcases List.mem_cons.mp isPlaced with rfl | isLater
        · obtain ⟨order, others, isFirst⟩ := closes.cons
          exact ⟨[], order, others, isFirst, addressed.1⟩
        · obtain ⟨before, order, after, rfl, isAddress⟩ := offsets id isLater
          refine ⟨here ++ before, order, after, by simp, ?_⟩
          rw [isAddress, size, ordersSize_append, Nat.add_assoc]

theorem Addressed.exists_address {placed : List Placed} {start : Nat}
    (addressed : Addressed addresses placed start) {id : BlockIndex}
    (isPlaced : id ∈ placed.map Placed.id) : ∃ address, addresses[id]? = some address := by
  induction placed generalizing start with
  | nil => simp at isPlaced
  | cons block rest ih =>
      rcases List.mem_cons.mp isPlaced with rfl | later
      · exact ⟨start, addressed.1⟩
      · exact ih addressed.2 later

theorem Part.Linked.wellFormed {part : Part}
    (linked : part.Linked (Declares declaration) image.constants)
    (usual : ∀ entry ∈ image.constants, Usual image.name entry) :
    ∃ listing, WellFormed declaration program image part.routine listing := by
  obtain ⟨generator, sound, retains, linearized⟩ := linked.code
  simp only [linearize] at linearized
  cases laid : placedBlocks part.graph.arena generator.lowered
      (part.graph.arena.layout part.graph.root) with
  | error problem => simp [laid, bind, Except.bind] at linearized
  | ok placed =>
      simp only [laid, bind, Except.bind] at linearized
      obtain ⟨sameIds, known⟩ := placedBlocks_ok laid
      have layout := part.graph.arena.layout_laidOut part.graph.root
      have distinct : (placed.map Placed.id).Nodup := by rw [sameIds]; exact layout.distinct
      have materialized : ∀ block ∈ placed,
          Materialized part.graph.arena image.constants block.id block.bytes ∧
            (part.graph.arena.get? block.id).map Block.transfer = some block.transfer := by
        intro block isPlaced
        obtain ⟨isLowered, sameTransfer⟩ := known block isPlaced
        exact ⟨(sound.lowered _ _ isLowered).later (Arena.Extends.refl _) retains, sameTransfer⟩
      have addressed := addressed_addressTable distinct 0 {}
      have targets : ∀ block ∈ placed, ∀ target ∈ part.graph.arena.successors block.id,
          ∃ address, (addressTable placed 0 {})[target]? = some address ∧
            ∃ id ∈ placed.map Placed.id, (addressTable placed 0 {})[id]? = some address := by
        intro block isPlaced target isNext
        have isHere : block.id ∈ part.graph.arena.layout part.graph.root :=
          sameIds ▸ List.mem_map_of_mem isPlaced
        have isTarget := sameIds ▸ layout.closed block.id isHere target isNext
        obtain ⟨address, isAddress⟩ := addressed.exists_address isTarget
        exact ⟨address, isAddress, target, isTarget, isAddress⟩
      obtain ⟨orders, bytes, split, arranged, proper, closes, offsets⟩ :=
        joinBlocks_arranged linked.complete linearized addressed materialized targets
      have notEmpty : placed ≠ [] := by
        obtain ⟨others, head⟩ := part.graph.arena.layout_head part.graph.root
        rw [head] at sameIds
        rintro rfl
        simp at sameIds
      obtain rfl : part.routine.code.toList = bytes := by simpa using split
      refine wellFormed_of_arranged arranged usual (by rw [linked.locals]; exact proper) ?_
        (closes.resolve_left fun empty => notEmpty empty.1)
      rintro address ⟨id, isPlaced, isAddress⟩
      obtain ⟨before, order, after, split, here⟩ := offsets id isPlaced
      refine ⟨before, order, after, split, ?_⟩
      rw [isAddress, Option.some.injEq] at here
      simpa using here

end Members

theorem closes_mainOrders (owner testClass : String) (fixtures tests : List Signature) :
    Closes (mainOrders owner testClass fixtures tests) := by
  refine closes_append _ ?_
  exact ⟨_, .plain .ret [], rfl, rfl⟩

variable {selection : Selection} {parts : List Part} {main : Routine}

theorem Built.routine? (built : Built declaration selection image parts main)
    (accepted : Accepted declaration) {part : Part} (isPart : part ∈ parts) :
    image.routine? part.signature.name = some part.routine := by
  have distinct : (parts.map fun part => part.signature.name).Nodup := by
    have names := included_distinct accepted selection
    rw [← built.members, List.map_map] at names
    exact names
  have notMain : part.signature.name ≠ mainName := by
    have isIncluded : part.signature ∈ _ := built.members ▸ List.mem_map_of_mem isPart
    rcases List.mem_append.mp isIncluded with isFixture | isTest
    · exact included_not_main accepted isFixture
    · exact included_not_main accepted isTest
  cases found : image.routine? part.signature.name with
  | none =>
      have isRoutine : part.routine ∈ image.routines := by
        rw [← Array.mem_toList_iff, built.routines]
        exact List.mem_append_left _ (List.mem_map_of_mem isPart)
      have absent := Array.find?_eq_none.mp found part.routine isRoutine
      simp [(built.linked part isPart).name] at absent
  | some routine =>
      have named := name_of_routine? found
      have isRoutine := Array.mem_of_find?_eq_some found
      rw [← Array.mem_toList_iff, built.routines] at isRoutine
      rcases List.mem_append.mp isRoutine with isMember | isMain
      · obtain ⟨other, isOther, rfl⟩ := List.mem_map.mp isMember
        rw [(built.linked other isOther).name] at named
        rw [List.inj_on_of_nodup_map distinct isOther isPart named]
      · rw [List.mem_singleton.mp isMain, built.mainNamed] at named
        exact absurd named.symm notMain

theorem memberRef_returns {testClass : String} {signature : Signature} {kind : Kind}
    (returns : kindOf signature.role.resultKind = .ok kind) :
    kind = (memberRef testClass signature).returns := by
  unfold memberRef
  cases role : signature.role <;>
  · rw [role] at returns
    exact (Except.ok.inj returns).symm

theorem Built.main_wellFormed (built : Built declaration selection image parts main)
    (accepted : Accepted declaration)
    (known : (program.class? declaration.name).isSome = true) :
    ∃ listing, WellFormed declaration program image main listing := by
  obtain ⟨bytes, sameCode, arranged⟩ := built.mainFor.code
  rw [← sameCode] at arranged
  refine @wellFormed_of_arranged _ _ _ (fun _ => False) _ _ arranged built.usual ?_
    (fun _ => False.elim) (closes_mainOrders _ _ _ _)
  intro order isOrder
  rw [built.mainFor.locals]
  cases mainOrders_main _ _ _ _ order isOrder with
  | simple plain => exact .simple plain
  | slot isSlot small => exact .slot isSlot (by simp only [mainLocals]; omega)
  | int value => exact .pooled (.int value) (.pushInt value)
  | text value => exact .pooled (.string value) (.pushString value)
  | nanosPerMilli => exact .pooled .nanosPerMilli (.pushFloat _)
  | output => exact .pooled .output .invokeVirtual
  | new => exact .pooled (.string _) (.new known)
  | @call signature isCalled =>
      rw [← built.members] at isCalled
      obtain ⟨part, isPart, rfl⟩ := List.mem_map.mp isCalled
      have linked := built.linked part isPart
      exact .pooled (.member _) (.invokeStatic rfl (built.routine? accepted isPart) linked.static
        linked.params (memberRef_returns linked.returns))

/-- Every routine of the test class of a compiled class is well formed. -/
theorem compiled_routines_well_formed {runId : String} {log : List Logging.Event}
    (fine : (check declaration).diagnostics = [])
    (done : compile runId (check declaration) selection = (log, .ok program)) :
    ∃ image, program.class? (testClassName declaration.name) = some image ∧
      ∀ routine ∈ image.routines,
        ∃ listing, WellFormed declaration program image routine listing := by
  have accepted := accepted_of_no_errors fine
  rcases compile_outcome fine runId selection with
    ⟨-, otherLog, other, target, image, parts, main, same, classes, targetName, -, built⟩ |
    ⟨-, otherLog, problem, failed, -⟩
  · obtain rfl : program = other := by
      have results := (Prod.mk.inj (done.symm.trans same)).2
      simpa using results
    have different := testClassName_ne declaration.name
    have isTarget : program.class? declaration.name = some target := by
      simp [Program.class?, classes, targetName]
    refine ⟨image, by simp [Program.class?, classes, targetName, different, built.name], ?_⟩
    intro routine isRoutine
    rw [← Array.mem_toList_iff, built.routines] at isRoutine
    rcases List.mem_append.mp isRoutine with isMember | isMain
    · obtain ⟨part, isPart, rfl⟩ := List.mem_map.mp isMember
      exact (built.linked part isPart).wellFormed built.usual
    · rw [List.mem_singleton.mp isMain]
      exact built.main_wellFormed accepted (by simp [isTarget])
  · have results := (Prod.mk.inj (done.symm.trans failed)).2
    simp at results

theorem compiled_routines_well_formed_lamp : ∃ log program image,
    (check lampClass).diagnostics = [] ∧
    compile "lamp" (check lampClass) .everything = (log, .ok program) ∧
    program.class? (testClassName lampClass.name) = some image ∧
    ∀ routine ∈ image.routines, ∃ listing, WellFormed lampClass program image routine listing := by
  obtain ⟨log, program, done⟩ := lamp_compiled
  have fine : (check lampClass).diagnostics = [] := rfl
  obtain ⟨image, isImage, routines⟩ := compiled_routines_well_formed fine done
  exact ⟨log, program, image, fine, done, isImage, routines⟩

end Assay.Assembly
