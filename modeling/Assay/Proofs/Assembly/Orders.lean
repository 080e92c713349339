import Assay.Proofs.Assembly.Materialization
import Assay.Proofs.Success
import Mathlib.Data.List.Nodup
import Mathlib.Data.List.Perm.Subperm

/-!
The main routine of a test class as a list of instructions that are assembled one after the other, and
the bytes that they become.
-/

namespace Assay.Assembly

open Bytecode Assay.Graph Typing

/-- An instruction before its constants have a place in the pool. -/
inductive Order
  | plain (opcode : Opcode) (operands : List Int)
  | pooled (opcode : Opcode) (constant : Constant)

def Order.assemble : Order → Assemble Unit
  | plain opcode operands => emit opcode operands
  | pooled opcode constant => emitConstant opcode constant

def assembleAll : List Order → Assemble Unit
  | [] => pure ()
  | order :: rest => do
    order.assemble
    assembleAll rest

theorem assembleAll_append (first second : List Order) :
    assembleAll (first ++ second) = (assembleAll first >>= fun _ => assembleAll second) := by
  induction first with
  | nil => simp [assembleAll]
  | cons order rest ih => simp [assembleAll, ih]

def printOrders (text : String) : List Order :=
  [.pooled .pushConstant (.ofString text), .pooled .invokeVirtual (.ofMethod outputRef)]

def elapsedOrders (startLocal : Int) : List Order :=
  printOrders " [ " ++
    [.plain .nanoTime [], .plain .load [startLocal], .plain .sub [], .plain .intToFloat [],
      .pooled .pushConstant (.ofFloat nanosPerMilli), .plain .floatDiv [], .plain .print []] ++
    printOrders " ms ]\n"

def memberRef (testClass : String) (signature : Signature) : MethodRef :=
  { owner := testClass, name := signature.name, args := 1
    returns := match signature.role with
      | .fixture => .void
      | .test => .int }

def callOrder (testClass : String) (signature : Signature) : Order :=
  .pooled .invokeStatic (.ofMethod (memberRef testClass signature))

def fixtureOrders (testClass : String) (fixtures : List Signature) : List Order :=
  fixtures.flatMap fun fixture => [.plain .dup [], callOrder testClass fixture]

def testOrders (owner testClass : String) (fixtures : List Signature) (test : Signature) :
    List Order :=
  [.plain .nanoTime [], .plain .store [testStartLocal]] ++
    printOrders ("\t- " ++ test.name ++ ": ") ++
    [.pooled .new (.ofString owner)] ++ fixtureOrders testClass fixtures ++
    [callOrder testClass test, .plain .load [failuresLocal], .plain .add [],
      .plain .store [failuresLocal]] ++
    elapsedOrders testStartLocal

def summaryOrders (tests : Nat) : List Order :=
  [.pooled .pushConstant (.ofInt (Int64.ofNat tests)), .plain .load [failuresLocal],
      .plain .sub [], .plain .print []] ++
    printOrders " passed, " ++ [.plain .load [failuresLocal], .plain .print []] ++
    printOrders " failed " ++ elapsedOrders totalStartLocal ++ [.plain .ret []]

def mainOrders (owner testClass : String) (fixtures tests : List Signature) : List Order :=
  [.plain .nanoTime [], .plain .store [totalStartLocal]] ++
    printOrders ("Test execution for class " ++ owner ++ ":\n") ++
    [.pooled .pushConstant (.ofInt 0), .plain .store [failuresLocal]] ++
    tests.flatMap (testOrders owner testClass fixtures) ++ summaryOrders tests.length

theorem printString_eq (text : String) : printString text = assembleAll (printOrders text) := by
  simp [printString, printOrders, assembleAll, Order.assemble]

theorem printElapsed_eq (startLocal : Int) :
    printElapsed startLocal = assembleAll (elapsedOrders startLocal) := by
  simp [printElapsed, elapsedOrders, printString_eq, assembleAll_append, assembleAll, Order.assemble]

theorem callMember_eq (testClass : String) (signature : Signature) :
    callMember testClass signature =
      emitConstant .invokeStatic (.ofMethod (memberRef testClass signature)) := by
  unfold callMember memberRef
  cases signature.role <;> rfl

theorem applyFixtures_eq (testClass : String) (fixtures : List Signature) :
    applyFixtures testClass fixtures = assembleAll (fixtureOrders testClass fixtures) := by
  induction fixtures with
  | nil => rfl
  | cons fixture rest ih =>
      simp [applyFixtures, ih, fixtureOrders, assembleAll, Order.assemble, callMember_eq, callOrder]

theorem runTest_eq (owner testClass : String) (fixtures : List Signature) (test : Signature) :
    runTest owner testClass fixtures test =
      assembleAll (testOrders owner testClass fixtures test) := by
  simp [runTest, testOrders, printString_eq, printElapsed_eq, applyFixtures_eq, assembleAll_append,
    assembleAll, Order.assemble, callMember_eq, callOrder]

theorem runTestsOf_eq (owner testClass : String) (fixtures tests : List Signature) :
    runTestsOf owner testClass fixtures tests =
      assembleAll (tests.flatMap (testOrders owner testClass fixtures)) := by
  induction tests with
  | nil => rfl
  | cons test rest ih => simp [runTestsOf, runTest_eq, ih, assembleAll_append]

theorem mainCode_eq (owner testClass : String) (fixtures tests : List Signature) :
    mainCode owner testClass fixtures tests =
      assembleAll (mainOrders owner testClass fixtures tests) := by
  simp [mainCode, mainOrders, summaryOrders, printString_eq, printElapsed_eq, runTestsOf_eq,
    assembleAll_append, assembleAll, Order.assemble]

def Order.Fine (testClass : String) : Order → Prop
  | plain _ _ => True
  | pooled _ constant => Assembled constant ∧
    ∀ method, constant = .ofMethod method → method.args = 0 ∨ method.owner = testClass

inductive Usual (testClass : String) : Constant → Prop
  | int (value : Int64) : Usual testClass (.ofInt value)
  | string (value : String) : Usual testClass (.ofString value)
  | nanosPerMilli : Usual testClass (.ofFloat nanosPerMilli)
  | output : Usual testClass (.ofMethod outputRef)
  | member (signature : Signature) : Usual testClass (.ofMethod (memberRef testClass signature))

theorem Usual.assembled {testClass : String} {constant : Constant}
    (usual : Usual testClass constant) : Assembled constant := by
  cases usual with
  | int value => exact .int value
  | string value => exact .string value
  | nanosPerMilli => exact .nanosPerMilli
  | output => exact .method _
  | member signature => exact .method _

def Order.isEncodable : Order → Bool
  | plain opcode operands => (encode opcode operands).isOk
  | pooled opcode _ => opcode.widths = [2]

structure Order.Sendable (testClass : String) (order : Order) : Prop where
  encodable : order.isEncodable = true
  usual : ∀ opcode constant, order = .pooled opcode constant → Usual testClass constant

theorem Order.Sendable.fine {testClass : String} {order : Order}
    (sendable : order.Sendable testClass) : order.Fine testClass := by
  cases order with
  | plain opcode operands => trivial
  | pooled opcode constant =>
      have usual := sendable.usual opcode constant rfl
      refine ⟨usual.assembled, fun method isMethod => ?_⟩
      cases usual with
      | int value => simp [Constant.ofMethod, Constant.ofInt] at isMethod
      | string value => simp [Constant.ofMethod, Constant.ofString] at isMethod
      | nanosPerMilli => simp [Constant.ofMethod, Constant.ofFloat] at isMethod
      | output =>
          obtain rfl : outputRef = method := by simpa [Constant.ofMethod] using isMethod
          exact .inl rfl
      | member signature =>
          obtain rfl : memberRef testClass signature = method := by
            simpa [Constant.ofMethod] using isMethod
          exact .inr rfl

inductive MainOrder (owner testClass : String) (fixtures tests : List Signature) : Order → Prop
  | simple {opcode : Opcode} : opcode.widths = [] →
      MainOrder owner testClass fixtures tests (.plain opcode [])
  | slot {opcode : Opcode} {slot : Nat} : opcode = .load ∨ opcode = .store → slot < 4 →
      MainOrder owner testClass fixtures tests (.plain opcode [(slot : Int)])
  | int (value : Int64) :
      MainOrder owner testClass fixtures tests (.pooled .pushConstant (.ofInt value))
  | text (value : String) :
      MainOrder owner testClass fixtures tests (.pooled .pushConstant (.ofString value))
  | nanosPerMilli :
      MainOrder owner testClass fixtures tests (.pooled .pushConstant (.ofFloat nanosPerMilli))
  | output : MainOrder owner testClass fixtures tests (.pooled .invokeVirtual (.ofMethod outputRef))
  | new : MainOrder owner testClass fixtures tests (.pooled .new (.ofString owner))
  | call {signature : Signature} : signature ∈ fixtures ++ tests →
      MainOrder owner testClass fixtures tests (callOrder testClass signature)

section MainOrder

variable (owner testClass : String) (fixtures tests : List Signature)

theorem printOrders_main (text : String) :
    ∀ order ∈ printOrders text, MainOrder owner testClass fixtures tests order := by
  simp only [printOrders, List.forall_mem_cons]
  exact ⟨.text text, .output, by simp⟩

theorem elapsedOrders_main {startLocal : Nat} (small : startLocal < 4) :
    ∀ order ∈ elapsedOrders startLocal, MainOrder owner testClass fixtures tests order := by
  simp only [elapsedOrders, List.forall_mem_append, List.forall_mem_cons, and_assoc]
  exact ⟨printOrders_main _ _ _ _ _, .simple rfl, .slot (.inl rfl) small, .simple rfl, .simple rfl,
    .nanosPerMilli, .simple rfl, .simple rfl, by simp, printOrders_main _ _ _ _ _⟩

theorem fixtureOrders_main :
    ∀ order ∈ fixtureOrders testClass fixtures, MainOrder owner testClass fixtures tests order := by
  simp only [fixtureOrders, List.forall_mem_flatMap, List.forall_mem_cons]
  exact fun fixture isFixture =>
    ⟨.simple rfl, .call (List.mem_append_left _ isFixture), by simp⟩

theorem testOrders_main {test : Signature} (isTest : test ∈ tests) :
    ∀ order ∈ testOrders owner testClass fixtures test,
      MainOrder owner testClass fixtures tests order := by
  have elapsed := elapsedOrders_main owner testClass fixtures tests (show 3 < 4 by decide)
  have slots : ∀ {opcode : Opcode} {slot : Nat}, opcode = .load ∨ opcode = .store → slot < 4 →
      MainOrder owner testClass fixtures tests (.plain opcode [(slot : Int)]) := .slot
  simp only [testOrders, List.forall_mem_append, List.forall_mem_cons, and_assoc]
  exact ⟨.simple rfl, slots (.inr rfl) (show 3 < 4 by decide), by simp, printOrders_main _ _ _ _ _,
    .new, by simp, fixtureOrders_main _ _ _ _, .call (List.mem_append_right _ isTest),
    slots (.inl rfl) (show 1 < 4 by decide), .simple rfl, slots (.inr rfl) (show 1 < 4 by decide),
    by simp, elapsed⟩

theorem summaryOrders_main (count : Nat) :
    ∀ order ∈ summaryOrders count, MainOrder owner testClass fixtures tests order := by
  have elapsed := elapsedOrders_main owner testClass fixtures tests (show 2 < 4 by decide)
  have failures : MainOrder owner testClass fixtures tests (.plain .load [failuresLocal]) :=
    .slot (.inl rfl) (show 1 < 4 by decide)
  simp only [summaryOrders, List.forall_mem_append, List.forall_mem_cons, and_assoc]
  exact ⟨.int _, failures, .simple rfl, .simple rfl, by simp, printOrders_main _ _ _ _ _, failures,
    .simple rfl, by simp, printOrders_main _ _ _ _ _, elapsed, .simple rfl, by simp⟩

theorem mainOrders_main :
    ∀ order ∈ mainOrders owner testClass fixtures tests,
      MainOrder owner testClass fixtures tests order := by
  have slots : ∀ {slot : Nat}, slot < 4 →
      MainOrder owner testClass fixtures tests (.plain .store [(slot : Int)]) := .slot (.inr rfl)
  simp only [mainOrders, List.forall_mem_append, List.forall_mem_cons, List.forall_mem_flatMap,
    and_assoc]
  exact ⟨.simple rfl, slots (show 2 < 4 by decide), by simp, printOrders_main _ _ _ _ _, .int 0,
    slots (show 1 < 4 by decide), by simp, fun test isTest => testOrders_main _ _ _ _ isTest,
    summaryOrders_main _ _ _ _ _⟩

end MainOrder

section Sendable

variable {owner testClass : String} {fixtures tests : List Signature}

theorem encode_plain {opcode : Opcode} (plain : opcode.widths = []) :
    encode opcode [] = .ok [opcode.toByte] := by
  simp [encode, plain, encodeOperands]

theorem sendable_pooled {opcode : Opcode} {constant : Constant}
    (wide : (Order.pooled opcode constant).isEncodable = true) (usual : Usual testClass constant) :
    (Order.pooled opcode constant).Sendable testClass := by
  refine ⟨wide, fun other found same => ?_⟩
  obtain ⟨-, rfl⟩ := Order.pooled.inj same
  exact usual

theorem MainOrder.sendable {order : Order} (isMain : MainOrder owner testClass fixtures tests order) :
    order.Sendable testClass := by
  cases isMain with
  | simple plain =>
      refine ⟨?_, by simp⟩
      rw [Order.isEncodable, encode_plain plain]
      rfl
  | @slot opcode slot isSlot small =>
      refine ⟨?_, by simp⟩
      have range : slot = 0 ∨ slot = 1 ∨ slot = 2 ∨ slot = 3 := by omega
      rcases isSlot with rfl | rfl <;> rcases range with rfl | rfl | rfl | rfl <;> rfl
  | int value => exact sendable_pooled rfl (.int value)
  | text value => exact sendable_pooled rfl (.string value)
  | nanosPerMilli => exact sendable_pooled rfl .nanosPerMilli
  | output => exact sendable_pooled rfl .output
  | new => exact sendable_pooled rfl (.string owner)
  | call _ => exact sendable_pooled rfl (.member _)

theorem mainOrders_sendable :
    ∀ order ∈ mainOrders owner testClass fixtures tests, order.Sendable testClass :=
  fun order isOrder => (mainOrders_main owner testClass fixtures tests order isOrder).sendable

theorem mainOrders_fine :
    ∀ order ∈ mainOrders owner testClass fixtures tests, order.Fine testClass :=
  fun order isOrder => (mainOrders_sendable order isOrder).fine

end Sendable

inductive Arranged (constants : Array Constant) : List Order → List UInt8 → Prop
  | nil : Arranged constants [] []
  | plain {opcode : Opcode} {operands : List Int} {rest : List Order}
      {bytes restBytes : List UInt8} : encode opcode operands = .ok bytes →
      Arranged constants rest restBytes →
      Arranged constants (.plain opcode operands :: rest) (bytes ++ restBytes)
  | pooled {opcode : Opcode} {constant entry : Constant} {index : Nat} {rest : List Order}
      {bytes restBytes : List UInt8} : encode opcode [(index : Int)] = .ok bytes →
      constants[index]? = some entry → StandsFor entry constant →
      Arranged constants rest restBytes →
      Arranged constants (.pooled opcode constant :: rest) (bytes ++ restBytes)

theorem append_run (step : ClassImage → ClassImage × Except AssemblyError (List UInt8))
    (image : ClassImage) (code : Array UInt8) :
    (append step).run ⟨image, code⟩ =
      match step image with
      | (image, .ok bytes) => (.ok (), { image, code := code ++ bytes.toArray })
      | (image, .error problem) => (.error problem, { image, code }) := rfl

theorem append_ok (step : ClassImage → ClassImage × Except AssemblyError (List UInt8))
    {before after : Assembler} (done : (append step).run before = (.ok (), after)) :
    ∃ bytes, step before.image = (after.image, .ok bytes) ∧
      after.code = before.code ++ bytes.toArray := by
  obtain ⟨image, code⟩ := before
  rw [append_run] at done
  rcases stepped : step image with ⟨grown, problem | bytes⟩
  · rw [stepped] at done
    have failed := (Prod.mk.inj done).1
    simp at failed
  · rw [stepped] at done
    have same := (Prod.mk.inj done).2
    subst same
    exact ⟨bytes, rfl, rfl⟩

theorem assembleAll_ok {orders : List Order} {before after : Assembler}
    {testClass : String} (sound : PoolSound before.image.pool)
    (fine : ∀ order ∈ orders, order.Fine testClass)
    (done : (assembleAll orders).run before = (.ok (), after)) :
    Grows before.image after.image ∧
      (∀ entry ∈ after.image.constants, entry ∈ before.image.constants ∨
        ∃ opcode, .pooled opcode entry ∈ orders) ∧
      ∃ bytes, after.code.toList = before.code.toList ++ bytes ∧
        Arranged after.image.constants orders bytes := by
  induction orders generalizing before with
  | nil =>
      obtain ⟨-, rfl⟩ := pure_ok done
      exact ⟨Grows.refl sound, fun entry member => .inl member, [], by simp, .nil⟩
  | cons order rest ih =>
      obtain ⟨_, middle, first, later⟩ := bind_ok done
      cases order with
      | plain opcode operands =>
          obtain ⟨bytes, stepped, sameCode⟩ :=
            append_ok (fun image => plainInstruction image opcode operands) first
          obtain ⟨sameImage, encoded⟩ := Prod.mk.inj stepped
          obtain ⟨grows, entries, restBytes, code, arranged⟩ :=
            ih (by rw [← sameImage]; exact sound)
              (fun order member => fine order (List.mem_cons_of_mem _ member)) later
          rw [← sameImage] at grows entries
          refine ⟨grows, ?_, bytes ++ restBytes, ?_, .plain (mapError_ok encoded) arranged⟩
          · intro entry member
            rcases entries entry member with old | ⟨opcode, isOrder⟩
            · exact .inl old
            · exact .inr ⟨opcode, List.mem_cons_of_mem _ isOrder⟩
          · rw [code, sameCode]
            simp
      | pooled opcode constant =>
          obtain ⟨bytes, stepped, sameCode⟩ :=
            append_ok (fun image => constantInstruction image opcode constant) first
          have assembled := (fine (.pooled opcode constant) List.mem_cons_self).1
          obtain ⟨firstGrows, encodes⟩ := constantInstruction_grows opcode sound assembled
          rw [stepped] at firstGrows encodes
          obtain ⟨index, encoded, entry, found, stands⟩ := encodes bytes rfl
          obtain ⟨grows, entries, restBytes, code, arranged⟩ := ih firstGrows.sound
            (fun order member => fine order (List.mem_cons_of_mem _ member)) later
          refine ⟨firstGrows.trans grows, ?_, bytes ++ restBytes, ?_,
            .pooled encoded (grows.retains _ _ found) stands arranged⟩
          · intro entry member
            rcases entries entry member with old | ⟨opcode, isOrder⟩
            · have image : middle.image = (before.image.intern constant).1 := by
                rw [← (Prod.mk.inj stepped).1]
                rfl
              rw [image] at old
              rcases (ConstantPool.intern_interned sound.indexed constant).nothingElse entry old with
                older | rfl
              · exact .inl older
              · exact .inr ⟨_, List.mem_cons_self⟩
            · exact .inr ⟨opcode, List.mem_cons_of_mem _ isOrder⟩
          · rw [code, sameCode]
            simp

theorem encode_index_lt {opcode : Opcode} {index : Nat} {bytes : List UInt8}
    (wide : opcode.widths = [2]) (encoded : encode opcode [(index : Int)] = .ok bytes) :
    index < 65536 := by
  by_cases small : index < 65536
  · exact small
  · have outOfRange : ((index : Int) < 0 || 1 <<< (8 * 2) ≤ (index : Int).toNat) = true := by
      rw [Bool.or_eq_true, decide_eq_true_eq, decide_eq_true_eq]
      omega
    simp only [encode, wide, encodeOperands, outOfRange, if_true] at encoded
    exact absurd encoded (by simp)

theorem Arranged.pushed {constants : Array Constant} {orders : List Order} {bytes : List UInt8}
    (arranged : Arranged constants orders bytes) {constant : Constant}
    (noMethod : constant.method = none) (member : .pooled .pushConstant constant ∈ orders) :
    constant ∈ constants.toList.take 65536 := by
  induction arranged with
  | nil => simp at member
  | plain encoded later ih =>
      rcases List.mem_cons.mp member with same | isLater
      · simp at same
      · exact ih isLater
  | @pooled _ _ entry index _ _ _ encoded found stands later ih =>
      rcases List.mem_cons.mp member with same | isLater
      · simp only [Order.pooled.injEq] at same
        obtain ⟨rfl, rfl⟩ := same
        obtain rfl := stands.eq_of_no_method noMethod
        have small := encode_index_lt rfl encoded
        refine List.mem_of_getElem? (i := index) ?_
        rw [List.getElem?_take_of_lt small, Array.getElem?_toList]
        exact found
      · exact ih isLater

theorem Arranged.few {constants : Array Constant} {orders : List Order} {bytes : List UInt8}
    (arranged : Arranged constants orders bytes) {texts : List String} (distinct : texts.Nodup)
    (pushed : ∀ text ∈ texts, .pooled .pushConstant (.ofString text) ∈ orders) :
    texts.length ≤ 65536 := by
  have injective : Function.Injective Constant.ofString := by
    intro first second same
    simpa [Constant.ofString] using same
  have inside : texts.map Constant.ofString ⊆ constants.toList.take 65536 := by
    intro constant member
    obtain ⟨text, isText, rfl⟩ := List.mem_map.mp member
    exact arranged.pushed rfl (pushed text isText)
  have fits := (List.subperm_of_subset (distinct.map injective) inside).length_le
  rw [List.length_map, List.length_take] at fits
  omega

theorem encode_index {opcode : Opcode} {index : Nat} (wide : opcode.widths = [2])
    (small : index < 65536) : ∃ bytes, encode opcode [(index : Int)] = .ok bytes := by
  have inRange : ((index : Int) < 0 || 1 <<< (8 * 2) ≤ (index : Int).toNat) = false := by
    rw [Bool.or_eq_false_iff, decide_eq_false_iff_not, decide_eq_false_iff_not]
    omega
  simp only [encode, wide, encodeOperands, inRange]
  exact ⟨_, rfl⟩

end Assay.Assembly
