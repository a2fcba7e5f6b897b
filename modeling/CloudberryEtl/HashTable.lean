import Mathlib

/-! A hash map by its keys and their values, for programs that bound the number of keys they keep. A key that is absent has
the default value, so looking a key up and inserting its default give the same value. -/
namespace CloudberryEtl.HashTable

structure Table (κ ν : Type) [DecidableEq κ] [Inhabited ν] where
  keys : Finset κ
  value : κ → ν
  absent : ∀ key ∉ keys, value key = default

namespace Table
variable {κ ν : Type} [DecidableEq κ] [Inhabited ν]

def empty : Table κ ν := ⟨∅,fun _ => default,fun _ _ => rfl⟩

def insert (table : Table κ ν) (key : κ) (value : ν) : Table κ ν where
  keys := Insert.insert key table.keys
  value := Function.update table.value key value
  absent := by
    intro other outside
    obtain ⟨apart,missing⟩ := not_or.mp (Finset.mem_insert.not.mp outside)
    rw [Function.update_of_ne apart]
    exact table.absent other missing

def remove (table : Table κ ν) (key : κ) : Table κ ν where
  keys := table.keys.erase key
  value := Function.update table.value key default
  absent := by
    intro other outside
    by_cases same : other = key
    · rw [same,Function.update_self]
    · rw [Function.update_of_ne same]
      exact table.absent other (fun mem => outside (Finset.mem_erase.mpr ⟨same,mem⟩))

def orDefault (table : Table κ ν) (key : κ) : Table κ ν where
  keys := Insert.insert key table.keys
  value := table.value
  absent := by
    intro other outside
    exact table.absent other (fun mem => outside (Finset.mem_insert_of_mem mem))

def retain (table : Table κ ν) (change : ν → ν) (keep : ν → Bool) : Table κ ν where
  keys := table.keys.filter (fun key => keep (change (table.value key)))
  value := fun key => if key ∈ table.keys ∧ keep (change (table.value key)) then change (table.value key) else default
  absent := by
    intro key outside
    exact if_neg (fun kept => outside (Finset.mem_filter.mpr kept))

-- Room for a new key: in a full table some key that the iteration meets first gives way.
def evict (table : Table κ ν) (bound : Nat) (key : κ) (first : Option κ) : Table κ ν :=
  if bound ≤ table.keys.card ∧ key ∉ table.keys then
    match first with
    | some oldest => table.remove oldest
    | none => table
  else table

@[simp] theorem emptyKeys : (empty : Table κ ν).keys = ∅ := rfl

@[simp] theorem emptyValue (key : κ) : (empty : Table κ ν).value key = default := rfl

@[simp] theorem insertKeys (table : Table κ ν) (key : κ) (value : ν) :
    (table.insert key value).keys = Insert.insert key table.keys := rfl

@[simp] theorem insertValue (table : Table κ ν) (key : κ) (value : ν) :
    (table.insert key value).value = Function.update table.value key value := rfl

@[simp] theorem removeKeys (table : Table κ ν) (key : κ) : (table.remove key).keys = table.keys.erase key := rfl

@[simp] theorem removeValue (table : Table κ ν) (key : κ) :
    (table.remove key).value = Function.update table.value key default := rfl

@[simp] theorem orDefaultKeys (table : Table κ ν) (key : κ) :
    (table.orDefault key).keys = Insert.insert key table.keys := rfl

@[simp] theorem orDefaultValue (table : Table κ ν) (key : κ) : (table.orDefault key).value = table.value := rfl

theorem memRetain {table : Table κ ν} {change : ν → ν} {keep : ν → Bool} {key : κ} :
    key ∈ (table.retain change keep).keys ↔ key ∈ table.keys ∧ keep (change (table.value key)) = true :=
  Finset.mem_filter

theorem retainValue {table : Table κ ν} {change : ν → ν} {keep : ν → Bool}
    (fixed : change default = default) (dropped : ∀ value, keep value = false → value = default) (key : κ) :
    (table.retain change keep).value key = change (table.value key) := by
  unfold retain
  simp only
  split
  next => rfl
  next gone =>
    rcases not_and_or.mp gone with missing | out
    · rw [table.absent key missing,fixed]
    · exact (dropped _ (by simpa using out)).symm

theorem evictPresent {table : Table κ ν} {bound : Nat} {key : κ} {first : Option κ} (present : key ∈ table.keys) :
    table.evict bound key first = table := if_neg (fun full => full.2 present)

end Table

end CloudberryEtl.HashTable
