import Assay.Proofs.Bytecode.Interning
import Mathlib.Data.Finset.Card
import Mathlib.Data.List.Dedup

/-!
How many entries a pool has: one for each key that was interned, in the order of the first time.
-/

namespace Assay.Bytecode

/-- More keys than `limit` have the property. -/
def Exceeds (limit : Nat) (needed : ConstantKey → Prop) : Prop :=
  ∃ keys : List ConstantKey, keys.Nodup ∧ limit < keys.length ∧ ∀ key ∈ keys, needed key

theorem Exceeds.mono {limit : Nat} {needed more : ConstantKey → Prop}
    (exceeds : Exceeds limit needed) (implies : ∀ key, needed key → more key) :
    Exceeds limit more := by
  obtain ⟨keys, distinct, many, needs⟩ := exceeds
  exact ⟨keys, distinct, many, fun key member => implies key (needs key member)⟩

theorem exceeds_iff_card (limit : Nat) (keys : List ConstantKey) :
    Exceeds limit (· ∈ keys) ↔ limit < keys.toFinset.card := by
  constructor
  · rintro ⟨some, distinct, many, inside⟩
    have fits : some.toFinset ⊆ keys.toFinset := by
      intro key member
      exact List.mem_toFinset.mpr (inside key (List.mem_toFinset.mp member))
    have bound := Finset.card_le_card fits
    rw [List.toFinset_card_of_nodup distinct] at bound
    omega
  · intro many
    rw [List.card_toFinset] at many
    exact ⟨keys.dedup, keys.nodup_dedup, many, fun key member => List.mem_dedup.mp member⟩

theorem getElem?_insert_fresh {index : Std.HashMap ConstantKey Nat} {keys : List ConstantKey}
    {key : ConstantKey} (fresh : key ∉ keys)
    (found_iff : ∀ (other : ConstantKey) (position : Nat),
      index[other]? = some position ↔ keys[position]? = some other)
    (other : ConstantKey) (position : Nat) :
    (index.insert key keys.length)[other]? = some position ↔
      (keys ++ [key])[position]? = some other := by
  rw [Std.HashMap.getElem?_insert]
  by_cases same : key = other
  · subst same
    rw [if_pos (beq_self_eq_true key), Option.some.injEq]
    constructor
    · rintro rfl
      exact List.getElem?_concat_length
    · intro found
      rcases Nat.lt_or_ge position keys.length with before | behind
      · rw [List.getElem?_append_left before] at found
        exact absurd (List.mem_of_getElem? found) fresh
      · have bound := (List.getElem?_eq_some_iff.mp found).1
        rw [List.length_append, List.length_singleton] at bound
        omega
  · rw [if_neg (by simpa using same), found_iff]
    rcases Nat.lt_or_ge position keys.length with before | behind
    · rw [List.getElem?_append_left before]
    · rw [List.getElem?_append_right behind, List.getElem?_eq_none behind]
      simp [List.getElem?_singleton, same]

structure ConstantPool.Exact (pool : ConstantPool) (keys : List ConstantKey) : Prop where
  distinct : keys.Nodup
  entries : pool.entries.toList.map Constant.key? = keys.map some
  indexed : ∃ index : Std.HashMap ConstantKey Nat, pool.index = some index ∧
    ∀ (key : ConstantKey) (position : Nat),
      index[key]? = some position ↔ keys[position]? = some key

namespace ConstantPool

variable {pool : ConstantPool} {keys : List ConstantKey}

theorem exact_empty : empty.Exact [] :=
  ⟨List.nodup_nil, rfl, {}, rfl, fun key position => by simp⟩

theorem Exact.size (exact : pool.Exact keys) : pool.entries.size = keys.length := by
  have lengths := congrArg List.length exact.entries
  simpa using lengths

theorem Exact.to_indexed (exact : pool.Exact keys) : pool.Indexed := by
  obtain ⟨index, known, found_iff⟩ := exact.indexed
  refine ⟨index, known, fun key position found => ?_⟩
  have keyed : (pool.entries.toList.map Constant.key?)[position]? = some (some key) := by
    rw [exact.entries, List.getElem?_map, (found_iff key position).mp found]
    rfl
  rw [List.getElem?_map, Option.map_eq_some_iff] at keyed
  obtain ⟨entry, present, isKey⟩ := keyed
  exact ⟨entry, by simpa using present, isKey⟩

theorem Exact.intern_old (exact : pool.Exact keys) {constant : Constant} {key : ConstantKey}
    (keyed : constant.key? = some key) (known : key ∈ keys) :
    (pool.intern constant).1.Exact keys ∧ (pool.intern constant).2 < keys.length := by
  obtain ⟨distinct, sameEntries, index, isIndex, found_iff⟩ := exact
  obtain ⟨position, present⟩ := List.mem_iff_getElem?.mp known
  have found := (found_iff key position).mpr present
  obtain ⟨entries, stored⟩ := pool
  obtain rfl : stored = some index := isIndex
  simp only [intern, keyed, found]
  exact ⟨⟨distinct, sameEntries, index, rfl, found_iff⟩, (List.getElem?_eq_some_iff.mp present).1⟩

theorem Exact.intern_new (exact : pool.Exact keys) {constant : Constant} {key : ConstantKey}
    (keyed : constant.key? = some key) (fresh : key ∉ keys) :
    (pool.intern constant).1.Exact (keys ++ [key]) ∧ (pool.intern constant).2 = keys.length := by
  have size := exact.size
  obtain ⟨distinct, sameEntries, index, isIndex, found_iff⟩ := exact
  have missing : index[key]? = none := by
    cases found : index[key]? with
    | none => rfl
    | some position =>
        exact absurd (List.mem_of_getElem? ((found_iff key position).mp found)) fresh
  obtain ⟨entries, stored⟩ := pool
  obtain rfl : stored = some index := isIndex
  simp only [intern, keyed, missing]
  refine ⟨⟨?_, ?_, index.insert key entries.size, rfl, ?_⟩, size⟩
  · rw [← List.concat_eq_append]
    exact List.Nodup.concat fresh distinct
  · simp only at sameEntries
    simp [sameEntries, keyed]
  · simp only at size
    rw [size]
    exact getElem?_insert_fresh fresh found_iff

end ConstantPool

end Assay.Bytecode
