import Mathlib.Data.List.Sort

/-! Sorting by a key that different values may share. Insertion sort keeps the order of the values of one key, so the
sorted list says exactly the order within each key, and nothing about the order between keys. -/
namespace CloudberryEtl.StableSort

variable {α κ : Type} [LinearOrder κ] (key : α → κ)

def sortBy (xs : List α) : List α := xs.insertionSort (fun a b => key a ≤ key b)

def withKey (k : κ) (xs : List α) : List α := xs.filter (fun a => key a = k)

theorem withKeyInserted (k : κ) (a : α) (xs : List α) :
    withKey key k (xs.orderedInsert (fun a b => key a ≤ key b) a) = withKey key k (a :: xs) := by
  induction xs with
  | nil => rfl
  | cons b xs ih =>
    rw [List.orderedInsert_cons]
    split
    · rfl
    · rename_i after
      have apart : key a = k → key b ≠ k := fun here there => after (by rw [here,there])
      simp only [withKey,List.filter_cons] at ih ⊢
      rw [ih]
      by_cases here : key a = k
      · simp [here,apart here]
      · simp [here]

@[simp] theorem withKeySorted (k : κ) (xs : List α) : withKey key k (sortBy key xs) = withKey key k xs := by
  induction xs with
  | nil => rfl
  | cons a xs ih =>
    have inserted := withKeyInserted key k a (sortBy key xs)
    simp only [withKey,List.filter_cons] at ih inserted ⊢
    rw [← ih]
    exact inserted

theorem sortedBy (xs : List α) : (sortBy key xs).Pairwise (fun a b => key a ≤ key b) := by
  have total : Std.Total (fun a b : α => key a ≤ key b) := ⟨fun a b => le_total (key a) (key b)⟩
  have transitive : IsTrans α (fun a b : α => key a ≤ key b) := ⟨fun _ _ _ => le_trans⟩
  exact List.pairwise_insertionSort _ xs

theorem sortByPerm (xs : List α) : (sortBy key xs).Perm xs := List.perm_insertionSort _ xs

theorem eqOfWithKey {xs ys : List α} (same : ∀ k, withKey key k xs = withKey key k ys)
    (sortedXs : xs.Pairwise (fun a b => key a ≤ key b)) (sortedYs : ys.Pairwise (fun a b => key a ≤ key b)) :
    xs = ys := by
  -- Two sorted lists with the same values of every key are equal: their heads have the least key of all.
  induction xs generalizing ys with
  | nil =>
    cases ys with
    | nil => rfl
    | cons y ys => simpa [withKey] using same (key y)
  | cons x xs ih =>
    cases ys with
    | nil => simpa [withKey] using same (key x)
    | cons y ys =>
      obtain ⟨leastX,sortedXs⟩ := List.pairwise_cons.mp sortedXs
      obtain ⟨leastY,sortedTail⟩ := List.pairwise_cons.mp sortedYs
      have memberX : x ∈ withKey key (key x) (y :: ys) := same (key x) ▸ by simp [withKey]
      have memberY : y ∈ withKey key (key y) (x :: xs) := same (key y) ▸ by simp [withKey]
      have below : key x ≤ key y := by
        rcases List.mem_cons.mp (List.mem_filter.mp memberY).1 with rfl | mem
        · exact le_rfl
        · exact leastX y mem
      have above : key y ≤ key x := by
        rcases List.mem_cons.mp (List.mem_filter.mp memberX).1 with rfl | mem
        · exact le_rfl
        · exact leastY x mem
      have keys := le_antisymm below above
      have heads := same (key x)
      simp only [withKey,List.filter_cons,keys,decide_true,if_true] at heads
      obtain ⟨rfl,_⟩ := List.cons.inj heads
      have rest : ∀ k, withKey key k xs = withKey key k ys := by
        intro k
        have both := same k
        simp only [withKey,List.filter_cons] at both ⊢
        split at both
        · exact (List.cons.inj both).2
        · exact both
      rw [ih rest sortedXs sortedTail]

theorem sortByEqIff {xs ys : List α} : sortBy key xs = sortBy key ys ↔ ∀ k, withKey key k xs = withKey key k ys := by
  constructor
  · intro same k
    rw [← withKeySorted key k xs,same,withKeySorted]
  · intro same
    exact eqOfWithKey key (by simpa using same) (sortedBy key xs) (sortedBy key ys)

theorem permOfSortByEq {xs ys : List α} (same : sortBy key xs = sortBy key ys) : xs.Perm ys :=
  (sortByPerm key xs).symm.trans (same ▸ sortByPerm key ys)

theorem sortByEqForEveryOrder [DecidableEq α] {xs : List α} (distinct : xs.Nodup) :
    (∀ ys, ys.Perm xs → sortBy key ys = sortBy key xs) ↔ (xs.map key).Nodup := by
  constructor
  · intro every
    rw [List.nodup_map_iff_inj_on distinct]
    intro a memberA b memberB keys
    by_contra differs
    obtain ⟨rest,first⟩ : ∃ rest, xs.Perm (a :: b :: rest) := by
      have inside : b ∈ xs.erase a := (List.mem_erase_of_ne (Ne.symm differs)).mpr memberB
      exact ⟨(xs.erase a).erase b,(List.perm_cons_erase memberA).trans ((List.perm_cons_erase inside).cons a)⟩
    have one := every _ first.symm
    have other := every _ ((List.Perm.swap a b rest).trans first.symm)
    have same := (sortByEqIff key).mp (one.trans other.symm) (key a)
    simp only [withKey,List.filter_cons,keys,decide_true,if_true] at same
    exact differs (List.cons.inj same).1
  · intro distinctKeys ys perm
    have injective := (List.nodup_map_iff_inj_on distinct).mp distinctKeys
    apply List.Perm.eq_of_pairwise _ (sortedBy key ys) (sortedBy key xs)
    · exact (sortByPerm key ys).trans (perm.trans (sortByPerm key xs).symm)
    · intro a b memberA memberB below above
      have memberA := perm.subset ((sortByPerm key ys).subset memberA)
      have memberB := (sortByPerm key xs).subset memberB
      exact injective a memberA b memberB (le_antisymm below above)

end CloudberryEtl.StableSort
