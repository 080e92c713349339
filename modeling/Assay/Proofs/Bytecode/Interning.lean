import Assay.Bytecode.Program

/-!
Interning keeps the entries of a pool at their positions and finds, or adds, an entry with the key of
the given constant. The text of a method fixes the number of its arguments and what it returns.
-/

namespace Assay.Bytecode

theorem key?_ofInt (value : Int64) : (Constant.ofInt value).key? =
    some { kind := 1, int := value, float := 0, text := "" } := by
  have zero : ((0 : Float) == 0) = true := by decide
  simp [Constant.key?, Constant.ofInt, zero, ConstantKind.toCode]

theorem key?_ofString (value : String) : (Constant.ofString value).key? =
    some { kind := 3, int := 0, float := 0, text := value } := by
  have zero : ((0 : Float) == 0) = true := by decide
  simp [Constant.key?, Constant.ofString, zero, ConstantKind.toCode]

theorem key?_ofMethod (value : MethodRef) : (Constant.ofMethod value).key? =
    some { kind := 4, int := 0, float := 0, text := value.text } := rfl

def Retains (before after : Array Constant) : Prop :=
  ∀ (position : Nat) (constant : Constant),
    before[position]? = some constant → after[position]? = some constant

theorem Retains.refl (entries : Array Constant) : Retains entries entries :=
  fun _ _ found => found

theorem Retains.trans {first second third : Array Constant} (earlier : Retains first second)
    (later : Retains second third) : Retains first third :=
  fun position constant found => later position constant (earlier position constant found)

theorem Retains.push (entries : Array Constant) (constant : Constant) :
    Retains entries (entries.push constant) := by
  intro position entry found
  obtain ⟨bound, _⟩ := Array.getElem?_eq_some_iff.mp found
  rw [Array.getElem?_push_lt bound]
  simpa [bound] using found

/-- The pool has an index, and what the index says about a key is true. -/
def ConstantPool.Indexed (pool : ConstantPool) : Prop :=
  ∃ index : Std.HashMap ConstantKey Nat, pool.index = some index ∧
    ∀ key position, index[key]? = some position →
      ∃ constant : Constant, pool.entries[position]? = some constant ∧ constant.key? = some key

theorem ConstantPool.indexed_empty : ConstantPool.empty.Indexed :=
  ⟨{}, rfl, fun key position found => by simp at found⟩

structure ConstantPool.Interned (pool : ConstantPool) (constant : Constant)
    (result : ConstantPool × Nat) : Prop where
  indexed : result.1.Indexed
  retains : Retains pool.entries result.1.entries
  entry : ∃ entry : Constant, result.1.entries[result.2]? = some entry ∧
    (entry = constant ∨ entry ∈ pool.entries ∧ entry.key? = constant.key?)
  nothingElse : ∀ entry ∈ result.1.entries, entry ∈ pool.entries ∨ entry = constant

theorem ConstantPool.intern_pushed {pool : ConstantPool} {constant : Constant}
    {index : Std.HashMap ConstantKey Nat}
    (sound : ∀ key position, index[key]? = some position →
      ∃ entry : Constant, (pool.entries.push constant)[position]? = some entry ∧ entry.key? = some key) :
    pool.Interned constant
      ({ entries := pool.entries.push constant, index := some index }, pool.entries.size) where
  indexed := ⟨index, rfl, sound⟩
  retains := Retains.push _ _
  entry := ⟨constant, by simp, Or.inl rfl⟩
  nothingElse := by
    intro entry member
    exact Array.mem_push.mp member

theorem ConstantPool.intern_interned {pool : ConstantPool} (indexed : pool.Indexed)
    (constant : Constant) : pool.Interned constant (pool.intern constant) := by
  obtain ⟨entries, stored⟩ := pool
  obtain ⟨index, rfl, sound⟩ := indexed
  have kept : ∀ key position, index[key]? = some position →
      ∃ entry : Constant, (entries.push constant)[position]? = some entry ∧ entry.key? = some key := by
    intro key position found
    obtain ⟨entry, present, keyed⟩ := sound key position found
    exact ⟨entry, Retains.push entries constant position entry present, keyed⟩
  cases keyed : constant.key? with
  | none =>
      simp only [intern, keyed]
      exact intern_pushed kept
  | some key =>
      cases found : index[key]? with
      | some position =>
          simp only [intern, keyed, found]
          obtain ⟨entry, present, sameKey⟩ := sound key position found
          refine ⟨⟨index, rfl, sound⟩, Retains.refl _, ⟨entry, present, Or.inr ⟨?_, ?_⟩⟩, ?_⟩
          · exact Array.mem_of_getElem? present
          · rw [sameKey, keyed]
          · exact fun _ member => Or.inl member
      | none =>
          simp only [intern, keyed, found]
          apply intern_pushed
          intro other position atOther
          by_cases same : key = other
          · subst same
            simp only [Std.HashMap.getElem?_insert_self, Option.some.injEq] at atOther
            subst atOther
            exact ⟨constant, by simp, keyed⟩
          · rw [Std.HashMap.getElem?_insert] at atOther
            simp only [beq_iff_eq, same, if_false] at atOther
            exact kept other position atOther

theorem append_cons_inj (mark : Char) (first firstTail second secondTail : List Char)
    (notFirst : mark ∉ firstTail) (notSecond : mark ∉ secondTail)
    (same : first ++ mark :: firstTail = second ++ mark :: secondTail) :
    first = second ∧ firstTail = secondTail := by
  rcases List.append_eq_append_iff.mp same with ⟨middle, left, right⟩ | ⟨middle, left, right⟩
  · cases middle with
    | nil => simpa [left] using right
    | cons head middle =>
        simp only [List.cons_append, List.cons.injEq] at right
        exact absurd (by simp [right.2]) notFirst
  · cases middle with
    | nil => simpa [left, eq_comm] using right
    | cons head middle =>
        simp only [List.cons_append, List.cons.injEq] at right
        exact absurd (by simp [right.2]) notSecond

theorem natText_inj {first second : Nat} (same : first.repr = second.repr) : first = second := by
  have digits : Nat.toDigits 10 first = Nat.toDigits 10 second := by
    rw [← Nat.toList_repr, ← Nat.toList_repr, same]
  have firstRead : Nat.ofDigitChars 10 (Nat.toDigits 10 first) 0 = first :=
    Nat.ofDigitChars_toDigits (by decide) (by decide)
  have secondRead : Nat.ofDigitChars 10 (Nat.toDigits 10 second) 0 = second :=
    Nat.ofDigitChars_toDigits (by decide) (by decide)
  rw [← firstRead, ← secondRead, digits]

theorem isDigit_of_mem_natText {number : Nat} {c : Char} (member : c ∈ number.repr.toList) :
    c.isDigit = true := by
  rw [Nat.toList_repr] at member
  exact Nat.isDigit_of_mem_toDigits (by decide) (by decide) member

theorem intText_chars {number : Int} {c : Char} (member : c ∈ (toString number).toList) :
    c.isDigit = true ∨ c = '-' := by
  rw [Int.toString_eq_repr, Int.repr_eq_if] at member
  split at member
  · exact Or.inl (isDigit_of_mem_natText member)
  · simp only [String.toList_append, List.mem_append] at member
    rcases member with sign | digit
    · exact Or.inr (by simpa using sign)
    · exact Or.inl (isDigit_of_mem_natText digit)

theorem natText_ne_minus (number : Nat) (rest : String) : number.repr ≠ "-" ++ rest := by
  intro same
  have minus : '-' ∈ number.repr.toList := by rw [same]; simp
  exact absurd (isDigit_of_mem_natText minus) (by decide)

theorem intText_inj {first second : Int} (same : toString first = toString second) :
    first = second := by
  rw [Int.toString_eq_repr, Int.toString_eq_repr, Int.repr_eq_if, Int.repr_eq_if] at same
  split at same
  · split at same
    · have digits := natText_inj same
      omega
    · exact absurd same (natText_ne_minus _ _)
  · split at same
    · exact absurd same.symm (natText_ne_minus _ _)
    · have digits := natText_inj (String.append_right_inj _ |>.mp same)
      omega

theorem Kind.text_inj {first second : Kind} (same : first.text = second.text) : first = second := by
  have known : ∀ (kind : Kind) (code : UInt8), (∀ other, kind ≠ .unknown other) →
      kind.text ≠ (Kind.unknown code).text := by
    intro kind code notUnknown texts
    have start : (Kind.unknown code).text.toList.head? = some 'K' := by simp [Kind.text]
    rw [← texts] at start
    cases kind with
    | unknown other => exact notUnknown other rfl
    | _ => revert start; decide
  cases first with
  | unknown code =>
      cases second with
      | unknown other =>
          simp only [Kind.text, String.append_left_inj, String.append_right_inj] at same
          rw [UInt8.toNat_inj.mp (natText_inj same)]
      | _ => exact absurd same.symm (known _ _ (by simp))
  | _ =>
      cases second with
      | unknown other => exact absurd same (known _ _ (by simp))
      | _ => first | rfl | exact absurd same (by decide)

theorem Kind.colon_not_mem_text (kind : Kind) : ':' ∉ kind.text.toList := by
  cases kind with
  | unknown code =>
      simp only [Kind.text, String.toList_append, List.mem_append, not_or]
      refine ⟨⟨by decide, ?_⟩, by decide⟩
      intro member
      exact absurd (isDigit_of_mem_natText member) (by decide)
  | _ => decide

/-- Methods of one text differ at most in how a name is divided between class and method. -/
theorem MethodRef.text_determines {first second : MethodRef} (same : first.text = second.text) :
    first.args = second.args ∧ first.returns = second.returns ∧
      first.owner ++ "." ++ first.name = second.owner ++ "." ++ second.name := by
  have chars := congrArg String.toList same
  simp only [MethodRef.text, String.toList_append, List.append_assoc] at chars
  have slash : ∀ number : Int, '/' ∉ (toString number).toList := by
    intro number member
    rcases intText_chars member with digit | minus
    · exact absurd digit (by decide)
    · exact absurd minus (by decide)
  obtain ⟨before, kinds⟩ := append_cons_inj ':'
    (first.owner ++ "." ++ first.name ++ "/" ++ toString first.args).toList
    first.returns.text.toList
    (second.owner ++ "." ++ second.name ++ "/" ++ toString second.args).toList
    second.returns.text.toList first.returns.colon_not_mem_text second.returns.colon_not_mem_text
    (by simpa using chars)
  obtain ⟨names, args⟩ := append_cons_inj '/' (first.owner ++ "." ++ first.name).toList
    (toString first.args).toList (second.owner ++ "." ++ second.name).toList
    (toString second.args).toList (slash _) (slash _) (by simpa using before)
  exact ⟨intText_inj (String.toList_injective args), Kind.text_inj (String.toList_injective kinds),
    String.toList_injective names⟩

end Assay.Bytecode
