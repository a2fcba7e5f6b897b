import Mathlib

/-! Finite relations with a key: a table is a list of rows whose keys are pairwise different, and is determined,
up to the order of its rows, by its lookup function. The set statements DELETE, UPDATE and INSERT are described
by what they do to that function. -/
namespace CloudberryEtl.KeyedTable

variable {ρ κ σ : Type} (key : ρ → κ)

def UniqueKeys (rows : List ρ) : Prop := (rows.map key).Nodup

instance [DecidableEq κ] (rows : List ρ) : Decidable (UniqueKeys key rows) :=
  inferInstanceAs (Decidable (rows.map key).Nodup)

def lookup [DecidableEq κ] (rows : List ρ) (k : κ) : Option ρ := rows.find? (fun row => key row = k)

variable {key}

theorem UniqueKeys.nodup {rows : List ρ} (unique : UniqueKeys key rows) : rows.Nodup := List.Nodup.of_map _ unique

theorem UniqueKeys.filter {rows : List ρ} (unique : UniqueKeys key rows) (keep : ρ → Bool) :
    UniqueKeys key (rows.filter keep) :=
  List.Nodup.sublist (List.Sublist.map key List.filter_sublist) unique

theorem UniqueKeys.mapSameKey {rows : List ρ} (unique : UniqueKeys key rows) {f : ρ → ρ}
    (same : ∀ row ∈ rows, key (f row) = key row) : UniqueKeys key (rows.map f) := by
  have keys : (rows.map f).map key = rows.map key := by
    rw [List.map_map]
    exact List.map_congr_left same
  rw [UniqueKeys,keys]
  exact unique

variable [DecidableEq κ]

theorem lookupKey {rows : List ρ} {k row} (found : lookup key rows k = some row) : key row = k := by
  simpa using List.find?_some found

theorem lookupMem {rows : List ρ} {k row} (found : lookup key rows k = some row) : row ∈ rows :=
  List.mem_of_find?_eq_some found

theorem lookupNone {rows : List ρ} {k} : lookup key rows k = none ↔ ∀ row ∈ rows, key row ≠ k := by
  simp [lookup]

theorem lookupOfMem {rows : List ρ} (unique : UniqueKeys key rows) {row} (mem : row ∈ rows) :
    lookup key rows (key row) = some row := by
  induction rows with
  | nil => simp at mem
  | cons head tail ih =>
    obtain ⟨fresh,unique⟩ := List.nodup_cons.mp unique
    rcases List.mem_cons.mp mem with rfl | mem
    · simp [lookup]
    · have other : key head ≠ key row := fun same => fresh (same ▸ List.mem_map_of_mem mem)
      simpa [lookup,other] using ih unique mem

theorem positionOfKey {rows : List ρ} (unique : UniqueKeys key rows) {index row} (found : rows[index]? = some row) :
    rows.findIdx (fun other => key other = key row) = index := by
  induction rows generalizing index with
  | nil => simp at found
  | cons head tail ih =>
    obtain ⟨fresh,unique⟩ := List.nodup_cons.mp unique
    cases index with
    | zero => cases Option.some.inj found; simp [List.findIdx_cons]
    | succ index =>
      have mem : row ∈ tail := List.mem_of_getElem? found
      have other : key head ≠ key row := fun same => fresh (same ▸ List.mem_map_of_mem mem)
      simpa [List.findIdx_cons,other] using ih unique found

theorem filterKey {rows : List ρ} (unique : UniqueKeys key rows) (k : κ) :
    rows.filter (fun row => key row = k) = (lookup key rows k).toList := by
  induction rows with
  | nil => rfl
  | cons head tail ih =>
    obtain ⟨fresh,unique⟩ := List.nodup_cons.mp unique
    by_cases here : key head = k
    · have none' : tail.filter (fun row => key row = k) = [] := by
        rw [List.filter_eq_nil_iff]
        intro row mem
        have other : key row ≠ k := fun same => fresh ((same.trans here.symm) ▸ List.mem_map_of_mem mem)
        simpa using other
      simp [lookup,here,none']
    · simpa [lookup,here] using ih unique

theorem permWithout {rows : List ρ} (unique : UniqueKeys key rows) {k row} (found : lookup key rows k = some row) :
    rows.Perm (row :: rows.filter (fun other => key other ≠ k)) := by
  have split := List.filter_append_perm (fun other => decide (key other = k)) rows
  rw [filterKey unique,found] at split
  simpa using split.symm

theorem lookupIff {rows : List ρ} (unique : UniqueKeys key rows) {k row} :
    lookup key rows k = some row ↔ row ∈ rows ∧ key row = k :=
  ⟨fun found => ⟨lookupMem found,lookupKey found⟩,fun ⟨mem,same⟩ => same ▸ lookupOfMem unique mem⟩

/-- Two relations with the same lookups hold the same rows. -/
theorem permOfLookup {left right : List ρ} (hl : UniqueKeys key left) (hr : UniqueKeys key right)
    (same : ∀ k, lookup key left k = lookup key right k) : left.Perm right := by
  rw [List.perm_ext_iff_of_nodup hl.nodup hr.nodup]
  intro row
  have hk := same (key row)
  constructor
  · intro mem
    rw [lookupOfMem hl mem] at hk
    exact lookupMem hk.symm
  · intro mem
    rw [lookupOfMem hr mem] at hk
    exact lookupMem hk

theorem lookupPerm {left right : List ρ} (hl : UniqueKeys key left) (perm : left.Perm right) (k : κ) :
    lookup key left k = lookup key right k := by
  have hr : UniqueKeys key right := (perm.map key).nodup_iff.mp hl
  cases h : lookup key right k with
  | some row => exact (lookupIff hl).mpr ((lookupIff hr).mp h |>.imp_left perm.mem_iff.mpr)
  | none =>
    rw [lookupNone] at h ⊢
    exact fun row mem => h row (perm.mem_iff.mp mem)

def deleteUsing (joins : σ → ρ → Bool) (using' : List σ) (rows : List ρ) : List ρ :=
  rows.filter (fun row => !using'.any (fun s => joins s row))

-- UPDATE t SET … FROM s WHERE joins: a row is rewritten from the first joined source row.
def updateFrom (joins : σ → ρ → Bool) (set : σ → ρ → ρ) (source : List σ) (rows : List ρ) : List ρ :=
  rows.map (fun row => ((source.find? (fun s => joins s row)).map (fun s => set s row)).getD row)

theorem anyAgrees {α : Type} {xs : List α} {p q : α → Bool} (agree : ∀ x ∈ xs, p x = q x) : xs.any p = xs.any q := by
  rw [Bool.eq_iff_iff,List.any_eq_true,List.any_eq_true]
  exact exists_congr fun x => and_congr_right fun mem => by rw [agree x mem]

theorem lookupFilter {rows : List ρ} (unique : UniqueKeys key rows) (keep : ρ → Bool) (k : κ) :
    lookup key (rows.filter keep) k = (lookup key rows k).filter keep := by
  cases h : lookup key rows k with
  | none =>
    rw [lookupNone] at h
    rw [Option.filter_none,lookupNone]
    exact fun row mem => h row (List.mem_of_mem_filter mem)
  | some row =>
    obtain ⟨mem,same⟩ := (lookupIff unique).mp h
    by_cases kept : keep row
    · rw [Option.filter_some_pos kept,lookupIff (unique.filter keep)]
      exact ⟨List.mem_filter.mpr ⟨mem,kept⟩,same⟩
    · rw [Option.filter_some_neg (by simpa using kept),lookupNone]
      intro other member sameKey
      obtain ⟨inRows,keeps⟩ := List.mem_filter.mp member
      have equal := (lookupIff unique).mpr ⟨inRows,sameKey⟩
      rw [h] at equal
      cases Option.some.inj equal
      exact kept keeps

theorem lookupDeleteUsing {rows : List ρ} (unique : UniqueKeys key rows) (joins : σ → ρ → Bool) (source : List σ)
    (k : κ) : lookup key (deleteUsing joins source rows) k =
      (lookup key rows k).filter (fun row => !source.any (fun s => joins s row)) := lookupFilter unique _ k

theorem lookupMapSameKey {rows : List ρ} {f : ρ → ρ} (same : ∀ row ∈ rows, key (f row) = key row) (k : κ) :
    lookup key (rows.map f) k = (lookup key rows k).map f := by
  induction rows with
  | nil => rfl
  | cons head tail ih =>
    have tailSame := fun row mem => same row (List.mem_cons_of_mem _ mem)
    have headSame := same head List.mem_cons_self
    by_cases here : key head = k
    · simp [lookup,headSame,here]
    · simpa [lookup,headSame,here] using ih tailSame

theorem lookupFilterKept {rows : List ρ} {keep : ρ → Bool} {k : κ} (kept : ∀ row, key row = k → keep row) :
    lookup key (rows.filter keep) k = lookup key rows k := by
  unfold lookup
  rw [List.find?_filter]
  congr 1
  funext row
  by_cases same : key row = k
  · simp [kept row same]
  · simp [same]

theorem lookupAppend (left right : List ρ) (k : κ) :
    lookup key (left ++ right) k = (lookup key left k).or (lookup key right k) := by
  simp [lookup,List.find?_append]

theorem uniqueAppend {left right : List ρ} (hl : UniqueKeys key left) (hr : UniqueKeys key right)
    (apart : ∀ row ∈ right, lookup key left (key row) = none) : UniqueKeys key (left ++ right) := by
  rw [UniqueKeys,List.map_append,List.nodup_append]
  refine ⟨hl,hr,?_⟩
  intro a memA b memB same
  obtain ⟨l,inLeft,rfl⟩ := List.mem_map.mp memA
  obtain ⟨r,inRight,rfl⟩ := List.mem_map.mp memB
  exact lookupNone.mp (apart r inRight) l inLeft same

end CloudberryEtl.KeyedTable
