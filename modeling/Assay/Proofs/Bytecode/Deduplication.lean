import Assay.Proofs.Bytecode.Capacity

/-!
What interning into the pool of a new class comes to. A constant is found at the first of the constants
given so far that is shown alike. That is the constant itself, unless a method was given before whose
class and name run together to the same text but are divided otherwise.
-/

namespace Assay.Bytecode

def MethodRef.qualifiedName (method : MethodRef) : String := method.owner ++ "." ++ method.name

/-- Methods that take and return the same and whose names run together to the same text. -/
structure MethodRef.Resembles (first second : MethodRef) : Prop where
  qualifiedName : first.qualifiedName = second.qualifiedName
  args : first.args = second.args
  returns : first.returns = second.returns

theorem MethodRef.text_eq_iff {first second : MethodRef} :
    first.text = second.text ↔ first.Resembles second := by
  constructor
  · intro same
    obtain ⟨args, returns, qualifiedName⟩ := text_determines same
    exact ⟨qualifiedName, args, returns⟩
  · rintro ⟨qualifiedName, args, returns⟩
    unfold MethodRef.qualifiedName at qualifiedName
    rw [text, text, qualifiedName, args, returns]

theorem MethodRef.Resembles.eq_of_owner {first second : MethodRef}
    (resembles : first.Resembles second) (owner : first.owner = second.owner) : first = second := by
  obtain ⟨names, args, returns⟩ := resembles
  simp only [MethodRef.qualifiedName, owner, String.append_right_inj] at names
  cases first
  cases second
  simp_all only

namespace Constant

/-- An integer, a string or a method, with nothing in the other components. -/
inductive WellFormed : Constant → Prop
  | int (value : Int64) : WellFormed (.ofInt value)
  | string (value : String) : WellFormed (.ofString value)
  | method (value : MethodRef) : WellFormed (.ofMethod value)

/-- Constants that share an entry of a pool. -/
inductive Alike : Constant → Constant → Prop
  | same (constant : Constant) : Alike constant constant
  | methods {first second : MethodRef} : first.Resembles second →
      Alike (.ofMethod first) (.ofMethod second)

theorem Alike.key?_eq {first second : Constant} (alike : first.Alike second) :
    first.key? = second.key? := by
  cases alike with
  | same => rfl
  | methods resembles => rw [key?_ofMethod, key?_ofMethod, MethodRef.text_eq_iff.mpr resembles]

theorem WellFormed.alike_of_key? {first second : Constant} (isFirst : first.WellFormed)
    (isSecond : second.WellFormed) (same : first.key? = second.key?) : first.Alike second := by
  cases isFirst <;> cases isSecond <;>
    simp only [key?_ofInt, key?_ofString, key?_ofMethod, Option.some.injEq,
      ConstantKey.mk.injEq] at same
  case int.int => rw [same.2.1]; exact .same _
  case string.string => rw [same.2.2.2]; exact .same _
  case method.method => exact .methods (MethodRef.text_eq_iff.mp same.2.2.2)
  all_goals exact absurd same.1 (by decide)

theorem WellFormed.keyed {constant : Constant} (wellFormed : constant.WellFormed) :
    ∃ key, constant.key? = some key := by
  cases wellFormed with
  | int value => exact ⟨_, key?_ofInt value⟩
  | string value => exact ⟨_, key?_ofString value⟩
  | method value => exact ⟨_, key?_ofMethod value⟩

end Constant

namespace ConstantPool

variable {pool : ConstantPool} {keys : List ConstantKey} {constant : Constant} {key : ConstantKey}
  {given : List Constant}

def forget (pool : ConstantPool) : ConstantPool := { pool with index := none }

/-- Interns constants one after the other; before each of them the index may be dropped. -/
def internAll (pool : ConstantPool) : List (Bool × Constant) → ConstantPool
  | [] => pool
  | (forgets, constant) :: rest =>
    ((if forgets then pool.forget else pool).intern constant).1.internAll rest

def rebuilt (pool : ConstantPool) : ConstantPool :=
  { pool with index := some (buildIndex pool.entries) }

theorem intern_forget (pool : ConstantPool) (constant : Constant) :
    pool.forget.intern constant = pool.rebuilt.intern constant := rfl

theorem getElem?_buildIndex {entries : Array Constant} {keys : List ConstantKey}
    (sameKeys : entries.toList.map Constant.key? = keys.map some) (distinct : keys.Nodup) :
    ∀ (key : ConstantKey) (position : Nat),
      (buildIndex entries)[key]? = some position ↔ keys[position]? = some key := by
  unfold buildIndex
  generalize entries.toList = entries at sameKeys
  induction entries using List.reverseRecOn generalizing keys with
  | nil =>
      cases keys with
      | nil => simp
      | cons first rest => simp at sameKeys
  | append_singleton entries constant ih =>
      obtain ⟨before, last, rfl⟩ : ∃ before last, keys = before ++ [last] := by
        rcases List.eq_nil_or_concat keys with rfl | ⟨before, last, rfl⟩
        · simp at sameKeys
        · exact ⟨before, last, List.concat_eq_append⟩
      rw [List.map_append, List.map_append] at sameKeys
      obtain ⟨sameBefore, sameLast⟩ := List.append_inj' sameKeys rfl
      have keyed : constant.key? = some last := by simpa using sameLast
      have length : entries.length = before.length := by simpa using congrArg List.length sameBefore
      obtain ⟨distinctBefore, -, apart⟩ := List.nodup_append.mp distinct
      have fresh : last ∉ before := fun member => apart last member last (by simp) rfl
      rw [List.zipIdx_append, List.foldl_append]
      simp only [List.zipIdx_cons, List.zipIdx_nil, List.foldl_cons, List.foldl_nil, keyed, Nat.zero_add,
        length]
      exact getElem?_insert_fresh fresh (ih distinctBefore sameBefore)

theorem Exact.rebuilt (exact : pool.Exact keys) : pool.rebuilt.Exact keys :=
  ⟨exact.distinct, exact.entries, _, rfl, getElem?_buildIndex exact.entries exact.distinct⟩

theorem Exact.intern_eq (exact : pool.Exact keys) (keyed : constant.key? = some key) :
    (pool.intern constant).2 = keys.idxOf key ∧
      (pool.intern constant).1.entries =
        if key ∈ keys then pool.entries else pool.entries.push constant := by
  have size := exact.size
  obtain ⟨distinct, -, index, isIndex, found_iff⟩ := exact
  obtain ⟨entries, stored⟩ := pool
  obtain rfl : stored = some index := isIndex
  by_cases known : key ∈ keys
  · have found := (found_iff key _).mpr (List.getElem?_idxOf known)
    simp only [intern, keyed, found, if_pos known, and_self]
  · have missing : index[key]? = none := by
      rw [Option.eq_none_iff_forall_ne_some]
      exact fun position found => known (List.mem_of_getElem? ((found_iff key position).mp found))
    simp only [intern, keyed, missing, if_neg known, List.idxOf_eq_length known, and_true]
    exact size

theorem find?_key_eq {entries : List Constant}
    (sameKeys : entries.map Constant.key? = keys.map some) (key : ConstantKey) :
    entries.find? (fun entry => entry.key? = some key) = entries[keys.idxOf key]? := by
  induction entries generalizing keys with
  | nil => rfl
  | cons entry rest ih =>
      cases keys with
      | nil => simp at sameKeys
      | cons first others =>
          simp only [List.map_cons, List.cons.injEq] at sameKeys
          by_cases same : first = key
          · simp [sameKeys.1, same]
          · rw [List.idxOf_cons_ne _ same, List.getElem?_cons_succ, ← ih sameKeys.2]
            simp [sameKeys.1, same]

/-- The entries of the pool are the first ones given of their keys. -/
structure FirstGiven (pool : ConstantPool) (keys : List ConstantKey) (given : List Constant) : Prop where
  exact : pool.Exact keys
  first : ∀ key, pool.entries.toList.find? (fun entry => entry.key? = some key) =
    given.find? fun entry => entry.key? = some key

theorem firstGiven_empty : empty.FirstGiven [] [] := ⟨exact_empty, fun _ => rfl⟩

theorem FirstGiven.rebuilt (firstGiven : pool.FirstGiven keys given) :
    pool.rebuilt.FirstGiven keys given := ⟨firstGiven.exact.rebuilt, firstGiven.first⟩

theorem FirstGiven.intern (firstGiven : pool.FirstGiven keys given)
    (keyed : constant.key? = some key) :
    ∃ keys', (pool.intern constant).1.FirstGiven keys' (given ++ [constant]) ∧
      (pool.intern constant).2 = keys'.idxOf key := by
  obtain ⟨position, entries⟩ := firstGiven.exact.intern_eq keyed
  by_cases known : key ∈ keys
  · rw [if_pos known] at entries
    refine ⟨keys, ⟨(firstGiven.exact.intern_old keyed known).1, fun other => ?_⟩, position⟩
    rw [entries, firstGiven.first, List.find?_append]
    by_cases same : key = other
    · subst same
      have found := find?_key_eq firstGiven.exact.entries key
      rw [firstGiven.first, List.getElem?_eq_getElem] at found
      · rw [found, Option.some_or]
      · rw [Array.length_toList, firstGiven.exact.size]
        exact List.idxOf_lt_length_iff.mpr known
    · simp [keyed, same]
  · rw [if_neg known] at entries
    refine ⟨keys ++ [key], ⟨(firstGiven.exact.intern_new keyed known).1, fun other => ?_⟩, ?_⟩
    · rw [entries, Array.toList_push, List.find?_append, List.find?_append, firstGiven.first]
    · rw [position, List.idxOf_eq_length known, List.idxOf_append_of_notMem known]
      simp

theorem FirstGiven.internAll {calls : List (Bool × Constant)}
    (firstGiven : pool.FirstGiven keys given) (wellFormed : ∀ call ∈ calls, call.2.WellFormed) :
    ∃ keys', (pool.internAll calls).FirstGiven keys' (given ++ calls.map Prod.snd) := by
  induction calls generalizing pool keys given with
  | nil => exact ⟨keys, by simpa [ConstantPool.internAll] using firstGiven⟩
  | cons call rest ih =>
      obtain ⟨forgets, constant⟩ := call
      obtain ⟨key, keyed⟩ := (wellFormed _ List.mem_cons_self).keyed
      have stepped : ∃ keys', ((if forgets then pool.forget else pool).intern constant).1.FirstGiven
          keys' (given ++ [constant]) := by
        cases forgets with
        | false => exact (firstGiven.intern keyed).imp fun _ => And.left
        | true => exact (firstGiven.rebuilt.intern keyed).imp fun _ => And.left
      obtain ⟨next, firstGiven⟩ := stepped
      obtain ⟨last, firstGiven⟩ := ih firstGiven fun call isLater =>
        wellFormed call (List.mem_cons_of_mem _ isLater)
      exact ⟨last, by simpa [ConstantPool.internAll] using firstGiven⟩

/-- What it comes to if one more constant is interned after those given. -/
structure Interns (pool : ConstantPool) (given : List Constant) (constant : Constant) : Prop where
  first : ∃ before entry after, given ++ [constant] = before ++ entry :: after ∧
    (∀ other ∈ before, ¬other.Alike constant) ∧ entry.Alike constant ∧
    (pool.intern constant).1.entries[(pool.intern constant).2]? = some entry
  exact : (∀ method other, constant = .ofMethod method → .ofMethod other ∈ given →
      other.qualifiedName = method.qualifiedName → other.owner = method.owner) →
    (pool.intern constant).1.entries[(pool.intern constant).2]? = some constant
  retains : pool.entries.toList <+: (pool.intern constant).1.entries.toList
  distinct : (pool.intern constant).1.entries.toList.Pairwise fun first second =>
    ¬first.Alike second
  rebuilt : (pool.forget.intern constant).2 = (pool.intern constant).2 ∧
    (pool.forget.intern constant).1.entries = (pool.intern constant).1.entries

theorem Exact.not_alike (exact : pool.Exact keys) :
    pool.entries.toList.Pairwise fun first second => ¬first.Alike second := by
  have distinct : (pool.entries.toList.map Constant.key?).Nodup := by
    rw [exact.entries]
    exact exact.distinct.map (Option.some_injective _)
  exact (List.pairwise_map.mp distinct).imp fun different alike => different alike.key?_eq

theorem Exact.retains (exact : pool.Exact keys) (keyed : constant.key? = some key) :
    pool.entries.toList <+: (pool.intern constant).1.entries.toList := by
  rw [(exact.intern_eq keyed).2]
  split
  · exact List.prefix_rfl
  · rw [Array.toList_push]
    exact List.prefix_append _ _

theorem Exact.intern_rebuilt (exact : pool.Exact keys) (keyed : constant.key? = some key) :
    (pool.forget.intern constant).2 = (pool.intern constant).2 ∧
      (pool.forget.intern constant).1.entries = (pool.intern constant).1.entries := by
  obtain ⟨position, entries⟩ := exact.intern_eq keyed
  obtain ⟨samePosition, sameEntries⟩ := exact.rebuilt.intern_eq keyed
  rw [intern_forget, position, entries, samePosition, sameEntries]
  exact ⟨rfl, rfl⟩

/-- A constant is found at the first of the constants given that has its key. -/
theorem FirstGiven.entry (firstGiven : pool.FirstGiven keys given)
    (keyed : constant.key? = some key) :
    (pool.intern constant).1.entries[(pool.intern constant).2]? =
      (given ++ [constant]).find? fun entry => entry.key? = some key := by
  obtain ⟨grown, isGrown, position⟩ := firstGiven.intern keyed
  rw [← isGrown.first, find?_key_eq isGrown.exact.entries, position, Array.getElem?_toList]

theorem FirstGiven.first_alike (firstGiven : pool.FirstGiven keys given)
    (wellFormed : ∀ other ∈ given, other.WellFormed) (isWellFormed : constant.WellFormed) :
    ∃ before entry after, given ++ [constant] = before ++ entry :: after ∧
      (∀ other ∈ before, ¬other.Alike constant) ∧ entry.Alike constant ∧
      (pool.intern constant).1.entries[(pool.intern constant).2]? = some entry := by
  obtain ⟨key, keyed⟩ := isWellFormed.keyed
  have all : ∀ other ∈ given ++ [constant], other.WellFormed := by
    simpa [or_imp, forall_and] using ⟨wellFormed, isWellFormed⟩
  have present : ((given ++ [constant]).find? fun entry => entry.key? = some key).isSome = true := by
    simp [keyed]
  obtain ⟨entry, found⟩ := Option.isSome_iff_exists.mp present
  obtain ⟨hasKey, before, after, split, others⟩ := List.find?_eq_some_iff_append.mp found
  rw [decide_eq_true_eq] at hasKey
  refine ⟨before, entry, after, split, fun other isBefore alike => ?_, ?_, ?_⟩
  · have differs := others other isBefore
    simp [alike.key?_eq, keyed] at differs
  · exact (all entry (List.mem_of_find?_eq_some found)).alike_of_key? isWellFormed
      (hasKey.trans keyed.symm)
  · rw [firstGiven.entry keyed, found]

theorem FirstGiven.exact_entry (firstGiven : pool.FirstGiven keys given)
    (wellFormed : ∀ other ∈ given, other.WellFormed) (isWellFormed : constant.WellFormed)
    (apart : ∀ method other, constant = .ofMethod method → .ofMethod other ∈ given →
      other.qualifiedName = method.qualifiedName → other.owner = method.owner) :
    (pool.intern constant).1.entries[(pool.intern constant).2]? = some constant := by
  obtain ⟨before, entry, after, split, -, alike, found⟩ :=
    firstGiven.first_alike wellFormed isWellFormed
  rw [found]
  cases alike with
  | same => rfl
  | @methods other method resembles =>
      have isGiven : Constant.ofMethod other ∈ given ++ [Constant.ofMethod method] := by
        rw [split]
        exact List.mem_append_right _ List.mem_cons_self
      rcases List.mem_append.mp isGiven with earlier | itself
      · have owner := apart method other rfl earlier resembles.qualifiedName
        rw [resembles.eq_of_owner owner]
      · rw [List.mem_singleton.mp itself]

end ConstantPool

/-- Interning finds the first constant given that is alike. An integer, a string or a method is given
the index of an equal entry, unless a method of another class was given before whose class and name run
together to the same text; then the index is that of the other method. Entries stay where they are, no
two of them are alike, and building the index anew changes nothing. -/
theorem intern_finds_first_alike (name : String) {calls : List (Bool × Constant)}
    {constant : Constant} (wellFormed : ∀ call ∈ calls, call.2.WellFormed)
    (isWellFormed : constant.WellFormed) :
    ((ClassImage.new name).pool.internAll calls).Interns (calls.map Prod.snd) constant := by
  obtain ⟨keys, firstGiven⟩ := ConstantPool.firstGiven_empty.internAll wellFormed
  rw [List.nil_append] at firstGiven
  obtain ⟨key, keyed⟩ := isWellFormed.keyed
  obtain ⟨grown, isGrown, -⟩ := firstGiven.intern keyed
  have all : ∀ other ∈ calls.map Prod.snd, other.WellFormed := List.forall_mem_map.mpr wellFormed
  exact {
    first := firstGiven.first_alike all isWellFormed
    exact := firstGiven.exact_entry all isWellFormed
    retains := firstGiven.exact.retains keyed
    distinct := isGrown.exact.not_alike
    rebuilt := firstGiven.exact.intern_rebuilt keyed }

/-- The method `c` of a class `A.b`, and the method `b.c` of a class `A`. -/
def dottedClass : MethodRef := { owner := "A.b", name := "c", args := 0, returns := .void }

def dottedName : MethodRef := { owner := "A", name := "b.c", args := 0, returns := .void }

theorem intern_finds_first_alike_dotted :
    let calls := [(false, .ofMethod dottedClass), (false, .ofString "A.b.c/0:void"), (true, .ofInt 7)]
    (∀ call ∈ calls, call.2.WellFormed) ∧ (Constant.ofMethod dottedName).WellFormed ∧
    ((ClassImage.new "Lamp").pool.internAll calls).Interns (calls.map Prod.snd)
      (.ofMethod dottedName) := by
  intro calls
  have wellFormed : ∀ call ∈ calls, call.2.WellFormed := by
    simp only [calls, List.forall_mem_cons, List.not_mem_nil, false_implies, implies_true, and_true]
    exact ⟨.method _, .string _, .int _⟩
  exact ⟨wellFormed, .method _, intern_finds_first_alike "Lamp" wellFormed (.method _)⟩

/-- The second method is given the index of the first one, which it is not. -/
theorem dotted_methods_share_entry :
    let first := Constant.ofMethod dottedClass
    let second := Constant.ofMethod dottedName
    let pool := ((ClassImage.new "Lamp").pool.intern first).1
    first.WellFormed ∧ second.WellFormed ∧ first ≠ second ∧
      (pool.intern second).1.entries[(pool.intern second).2]? = some first := by
  intro first second pool
  have different : first ≠ second := by
    simp [first, second, Constant.ofMethod, dottedClass, dottedName]
  obtain ⟨keys, firstGiven, -⟩ := ConstantPool.firstGiven_empty.intern (key?_ofMethod dottedClass)
  have found := firstGiven.entry (key?_ofMethod dottedName)
  exact ⟨.method _, .method _, different, found⟩

end Assay.Bytecode
