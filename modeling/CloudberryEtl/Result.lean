import Mathlib

/-! Inversion rules for computations in `Except` and `Option`: a bind, a mapped error, a monadic fold and a monadic
map that returned a value. -/
namespace CloudberryEtl.Result

variable {ε ε' α β σ : Type}

theorem bindOk {x : Except ε α} {f : α → Except ε β} {b : β} :
    (x >>= f) = .ok b ↔ ∃ a, x = .ok a ∧ f a = .ok b := by
  cases x <;> simp [bind,Except.bind]

theorem bindError {x : Except ε α} {f : α → Except ε β} {e : ε} (failed : (x >>= f) = .error e) :
    x = .error e ∨ ∃ a, x = .ok a ∧ f a = .error e := by
  cases x with
  | error other => exact .inl (congrArg Except.error (Except.error.inj failed))
  | ok a => exact .inr ⟨a,rfl,failed⟩

@[simp] theorem mapErrorOk {x : Except ε α} {f : ε → ε'} {a : α} : x.mapError f = .ok a ↔ x = .ok a := by
  cases x <;> simp [Except.mapError]

theorem iteOk {p : Prop} [Decidable p] {e : ε} {x : Except ε α} {a : α} :
    (if p then .error e else x) = .ok a ↔ ¬ p ∧ x = .ok a := by
  split <;> simp_all

theorem okOfToOption {x : Except ε α} (some' : x.toOption.isSome) : ∃ a, x = .ok a := by
  cases x with
  | error _ => contradiction
  | ok a => exact ⟨a,rfl⟩

theorem toOptionSome {x : Except ε α} {a : α} : x.toOption = some a ↔ x = .ok a := by
  cases x <;> simp [Except.toOption]

theorem foldlMInvariant {step : σ → α → Except ε σ} {holds : List α → σ → Prop}
    (next : ∀ past s a s', holds past s → step s a = .ok s' → holds (past ++ [a]) s')
    (rest : List α) : ∀ past s s', holds past s → rest.foldlM step s = .ok s' → holds (past ++ rest) s' := by
  induction rest with
  | nil =>
    intro past s s' start run
    cases Except.ok.inj run
    simpa using start
  | cons a rest ih =>
    intro past s s' start run
    obtain ⟨middle,first,run⟩ := bindOk.mp run
    simpa using ih (past ++ [a]) middle s' (next past s a middle start first) run

theorem mapMOk {f : α → Except ε β} {xs : List α} {ys : List β} :
    xs.mapM f = .ok ys ↔ List.Forall₂ (fun x y => f x = .ok y) xs ys := by
  induction xs generalizing ys with
  | nil => cases ys <;> simp [pure,Except.pure]
  | cons x xs ih =>
    simp only [List.mapM_cons,bindOk,pure,Except.pure,Except.ok.injEq]
    constructor
    · rintro ⟨y,first,rest,tail,rfl⟩
      exact .cons first (ih.mp tail)
    · rintro (_ | ⟨first,tail⟩)
      exact ⟨_,first,_,ih.mpr tail,rfl⟩

theorem forMOk {f : α → Except ε Unit} {xs : List α} : xs.forM f = .ok () ↔ ∀ x ∈ xs, f x = .ok () := by
  induction xs with
  | nil => simp [pure,Except.pure]
  | cons x xs ih =>
    rw [List.forall_mem_cons]
    constructor
    · intro ok
      obtain ⟨_,first,rest⟩ := bindOk.mp ok
      exact ⟨first,ih.mp rest⟩
    · rintro ⟨first,rest⟩
      exact bindOk.mpr ⟨(),first,ih.mpr rest⟩

theorem mapMError {f : α → Except ε β} {xs : List α} {e : ε} (failed : xs.mapM f = .error e) :
    ∃ x ∈ xs, f x = .error e := by
  induction xs with
  | nil => contradiction
  | cons x xs ih =>
    rw [List.mapM_cons] at failed
    rcases bindError failed with failed | ⟨_,_,failed⟩
    · exact ⟨x,by simp,failed⟩
    · rcases bindError failed with failed | ⟨_,_,failed⟩
      · obtain ⟨later,mem,failed⟩ := ih failed
        exact ⟨later,by simp [mem],failed⟩
      · contradiction

theorem mapMSome {f : α → Option β} {xs : List α} {ys : List β} :
    xs.mapM f = some ys ↔ List.Forall₂ (fun x y => f x = some y) xs ys := by
  induction xs generalizing ys with
  | nil => cases ys <;> simp
  | cons x xs ih =>
    simp only [List.mapM_cons,bind,Option.bind_eq_some_iff,pure,Option.some.injEq]
    constructor
    · rintro ⟨y,first,rest,tail,rfl⟩
      exact .cons first (ih.mp tail)
    · rintro (_ | ⟨first,tail⟩)
      exact ⟨_,first,_,ih.mpr tail,rfl⟩

theorem relatedAt {R : α → β → Prop} {xs : List α} {ys : List β} (related : List.Forall₂ R xs ys) {index : Nat} {x : α}
    (found : xs[index]? = some x) : ∃ y, ys[index]? = some y ∧ R x y := by
  induction related generalizing index with
  | nil => simp at found
  | cons head tail ih =>
    cases index with
    | zero => cases Option.some.inj found; exact ⟨_,rfl,head⟩
    | succ index => exact ih found

theorem relatedFrom {R : α → β → Prop} {xs : List α} {ys : List β} (related : List.Forall₂ R xs ys) {x : α} (mem : x ∈ xs) :
    ∃ y ∈ ys, R x y := by
  obtain ⟨index,found⟩ := List.getElem?_of_mem mem
  obtain ⟨y,here,related⟩ := relatedAt related found
  exact ⟨y,List.mem_of_getElem? here,related⟩

theorem relatedMem {R : α → β → Prop} {xs : List α} {ys : List β} (related : List.Forall₂ R xs ys) {y : β} (mem : y ∈ ys) :
    ∃ x ∈ xs, R x y := by
  induction related with
  | nil => simp at mem
  | cons head tail ih =>
    rcases List.mem_cons.mp mem with rfl | mem
    · exact ⟨_,by simp,head⟩
    · obtain ⟨x,found,here⟩ := ih mem
      exact ⟨x,by simp [found],here⟩

theorem mapMOkOfForall {f : α → Except ε β} {g : α → β} {xs : List α} (each : ∀ x ∈ xs, f x = .ok (g x)) :
    xs.mapM f = .ok (xs.map g) := by
  induction xs with
  | nil => rfl
  | cons x xs ih =>
    have tail := ih (fun x mem => each x (List.mem_cons_of_mem _ mem))
    simp [List.mapM_cons,each x,tail,bind,Except.bind,pure,Except.pure]

end CloudberryEtl.Result
