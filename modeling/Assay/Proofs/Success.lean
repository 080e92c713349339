/-!
Computations that may fail, some of which carry a state: what the result of a sequence says about its parts.
-/

namespace Assay

variable {ε σ α β : Type}

theorem bind_eq_ok {first : Except ε α} {second : α → Except ε β} {result : β} :
    (first >>= second) = .ok result ↔ ∃ value, first = .ok value ∧ second value = .ok result := by
  cases first with
  | error problem => simp [bind, Except.bind]
  | ok value => simp [bind, Except.bind]

theorem bind_ok {first : ExceptT ε (StateM σ) α} {second : α → ExceptT ε (StateM σ) β}
    {start finish : σ} {result : β}
    (done : (first >>= second).run start = (.ok result, finish)) :
    ∃ value middle, first.run start = (.ok value, middle) ∧
      (second value).run middle = (.ok result, finish) := by
  have unfolded : (first >>= second).run start =
      (ExceptT.bindCont second (first.run start).1 : StateM σ (Except ε β))
        (first.run start).2 := rfl
  rw [unfolded] at done
  rcases ran : first.run start with ⟨problem | value, middle⟩
  · rw [ran] at done
    have failed : (Except.error problem, middle) = (Except.ok result, finish) := done
    simp at failed
  · rw [ran] at done
    exact ⟨value, middle, rfl, done⟩

theorem bind_of_ok {first : ExceptT ε (StateM σ) α} {second : α → ExceptT ε (StateM σ) β}
    {start middle : σ} {value : α} (done : first.run start = (.ok value, middle)) :
    (first >>= second).run start = (second value).run middle := by
  have unfolded : (first >>= second).run start =
      (ExceptT.bindCont second (first.run start).1 : StateM σ (Except ε β))
        (first.run start).2 := rfl
  rw [unfolded, done]
  rfl

theorem bind_of_error {first : ExceptT ε (StateM σ) α} {second : α → ExceptT ε (StateM σ) β}
    {start middle : σ} {problem : ε} (failed : first.run start = (.error problem, middle)) :
    (first >>= second).run start = (.error problem, middle) := by
  have unfolded : (first >>= second).run start =
      (ExceptT.bindCont second (first.run start).1 : StateM σ (Except ε β))
        (first.run start).2 := rfl
  rw [unfolded, failed]
  rfl

theorem pure_ok {value result : α} {start finish : σ}
    (done : (pure value : ExceptT ε (StateM σ) α).run start = (.ok result, finish)) :
    result = value ∧ finish = start := by
  have same : (Except.ok value, start) = (Except.ok result, finish) := done
  simp only [Prod.mk.injEq, Except.ok.injEq] at same
  exact ⟨same.1.symm, same.2.symm⟩

theorem throw_ok {problem : ε} {result : α} {start finish : σ}
    (done : (throw problem : ExceptT ε (StateM σ) α).run start = (.ok result, finish)) : False := by
  have same : (Except.error problem, start) = (Except.ok result, finish) := done
  simp at same

end Assay
