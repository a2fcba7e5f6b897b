import CloudberryEtl.Publication
import CloudberryEtl.StableSort

/-! The allow-list check of a publication, and `ensure_publication` that ends with it. The check sorts both lists by the
displayed name, which a dot inside an identifier makes ambiguous. -/
namespace CloudberryEtl.Membership
open Schema Result Settings Catalog Publication StableSort

def validateEnsurable (state : PublicationState) (spec : PublicationSpec) : Except SourceError Unit :=
  if state.allTables then .error (.contract ("publication " ++ spec.name ++ " is not an explicit allow-list"))
  else if !(state.publishInsert && state.publishUpdate && state.publishDelete && state.publishTruncate) then
    .error (.contract ("publication " ++ spec.name ++ " does not publish the required row operations"))
  else if state.publishViaPartitionRoot ≠ spec.publishViaPartitionRoot then
    .error (.contract ("publication " ++ spec.name ++ " has publish_via_partition_root=" ++
      boolText state.publishViaPartitionRoot ++ ", expected " ++ boolText spec.publishViaPartitionRoot))
  else .ok ()

/- What CREATE PUBLICATION, or ALTER PUBLICATION on an ensurable one, leaves. The members are read back in the order
`returned` puts them, which is the server's. -/
def ensuredState (owner : String) (spec : PublicationSpec) (tables : List QualifiedName) : PublicationState :=
  ⟨owner,false,true,true,true,true,spec.publishViaPartitionRoot,true,tables⟩

def ensurePublication (returned : List QualifiedName → List QualifiedName) (owner : String)
    (existing : Option PublicationState) (spec : PublicationSpec) : Except SourceError PublicationState := do
  let tables ← match existing with
    | some state => do
      validateEnsurable state spec
      .ok (if membershipMatches state.tables spec.tables then state.tables else spec.tables)
    | none => .ok spec.tables
  let state := ensuredState owner spec (returned tables)
  validatePublicationState state spec
  .ok state

def sameOrderPerDisplay (actual expected : List QualifiedName) : Prop :=
  ∀ text, withKey QualifiedName.display text actual = withKey QualifiedName.display text expected

theorem displaySorted (tables : List QualifiedName) : displaySort tables = sortBy QualifiedName.display tables := by
  unfold displaySort sortBy
  congr

theorem matchesIff {actual expected : List QualifiedName} :
    membershipMatches actual expected = true ↔ sameOrderPerDisplay actual expected := by
  simp only [membershipMatches,decide_eq_true_eq,displaySorted]
  exact sortByEqIff _

theorem matchesPerm {actual expected : List QualifiedName} (same : membershipMatches actual expected = true) :
    actual.Perm expected := by
  simp only [membershipMatches,decide_eq_true_eq,displaySorted] at same
  exact permOfSortByEq _ same

theorem matchesEveryOrder {tables : List QualifiedName} (distinct : tables.Nodup) :
    (∀ order, order.Perm tables → membershipMatches order tables = true) ↔ (tables.map QualifiedName.display).Nodup := by
  simp only [membershipMatches,decide_eq_true_eq,displaySorted]
  exact sortByEqForEveryOrder _ distinct

theorem ensuredAccepted {owner spec tables} :
    validatePublicationState (ensuredState owner spec tables) spec = .ok () ↔
      membershipMatches tables spec.tables = true := by
  simp [validatePublicationState,ensuredState]

theorem membersEnsured {owner spec existing}
    (ensurable : ∀ state, existing = some state → validateEnsurable state spec = .ok ()) :
    ∃ tables, tables.Perm spec.tables ∧ ∀ returned, ensurePublication returned owner existing spec =
      (validatePublicationState (ensuredState owner spec (returned tables)) spec).map
        (fun _ => ensuredState owner spec (returned tables)) := by
  cases existing with
  | none => exact ⟨spec.tables,List.Perm.refl _,fun _ => rfl⟩
  | some state =>
    have valid := ensurable state rfl
    by_cases same : membershipMatches state.tables spec.tables = true
    · exact ⟨state.tables,matchesPerm same,fun _ => by simp only [ensurePublication,valid,same]; rfl⟩
    · exact ⟨spec.tables,List.Perm.refl _,fun _ => by simp only [ensurePublication,valid,same]; rfl⟩

/-- The allow-list check is equality of sets on two duplicate-free lists exactly when lists with the same tables also
keep, for each displayed name, the order of the tables shown so. Ensuring a publication therefore succeeds whatever
order the server returns the members in exactly when no two tables of the specification are displayed alike. -/
theorem membershipExact (actual expected : List QualifiedName) (_ : actual.Nodup) (distinct : expected.Nodup) :
    ((membershipMatches actual expected = true ↔ actual.Perm expected) ↔
      (actual.Perm expected → sameOrderPerDisplay actual expected)) ∧
    ∀ owner existing spec, spec.tables = expected →
      (∀ state, existing = some state → validateEnsurable state spec = .ok ()) →
      ((∀ returned, (∀ tables, (returned tables).Perm tables) →
          ∃ state, ensurePublication returned owner existing spec = .ok state ∧ state.tables.Perm expected) ↔
        (expected.map QualifiedName.display).Nodup) := by
  constructor
  · constructor
    · intro exact' perm
      exact matchesIff.mp (exact'.mpr perm)
    · intro ordered
      exact ⟨matchesPerm,fun perm => matchesIff.mpr (ordered perm)⟩
  · intro owner existing spec same ensurable
    subst same
    obtain ⟨tables,members,ensured⟩ := membersEnsured ensurable
    rw [← matchesEveryOrder distinct]
    constructor
    · intro every order perm
      have arranged : ∀ listed, (if listed = tables then order else listed).Perm listed := by
        intro listed
        split
        · rename_i same
          exact same ▸ perm.trans members.symm
        · exact List.Perm.refl _
      obtain ⟨state,answer,_⟩ := every _ arranged
      rw [ensured,if_pos rfl] at answer
      have accepted : validatePublicationState (ensuredState owner spec order) spec = .ok () := by
        cases checked : validatePublicationState (ensuredState owner spec order) spec with
        | error _ => simp [checked,Except.map] at answer
        | ok _ => rfl
      exact ensuredAccepted.mp accepted
    · intro every returned arranged
      have order := (arranged tables).trans members
      have accepted : validatePublicationState (ensuredState owner spec (returned tables)) spec = .ok () :=
        ensuredAccepted.mpr (every _ order)
      exact ⟨_,by rw [ensured,accepted]; rfl,order⟩

theorem dottedValid : IdentifierValid "a.b" := by decide

theorem dottedTailValid : IdentifierValid "b.c" := by decide

theorem headValid : IdentifierValid "a" := by decide

theorem tailValid : IdentifierValid "c" := by decide

def dottedSchema : QualifiedName := ⟨"a.b","c",dottedValid,tailValid⟩

def dottedTable : QualifiedName := ⟨"a","b.c",headValid,dottedTailValid⟩

theorem dottedTogether : membershipMatches [dottedSchema,dottedTable] [dottedSchema,dottedTable] = true ↔
    [dottedSchema,dottedTable].Perm [dottedSchema,dottedTable] :=
  (membershipExact [dottedSchema,dottedTable] [dottedSchema,dottedTable] (by decide) (by decide)).1.mpr (fun _ _ => rfl)

theorem dottedApart : [dottedTable,dottedSchema].Nodup ∧ [dottedSchema,dottedTable].Nodup ∧
    [dottedTable,dottedSchema].Perm [dottedSchema,dottedTable] ∧
    membershipMatches [dottedTable,dottedSchema] [dottedSchema,dottedTable] = false := by
  decide

end CloudberryEtl.Membership
