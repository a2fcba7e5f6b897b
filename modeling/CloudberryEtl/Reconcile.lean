import CloudberryEtl.Framing
import CloudberryEtl.Sha256

/-! Count and primary-key chunk reconciliation, from `engine::reconcile`. A hasher is the bytes it has taken so far. -/
namespace CloudberryEtl.Reconcile
open Change Manifest PrefixCode Framing Result

structure CanonicalRow where
  key : List Bytes
  values : List Cell
  deriving DecidableEq, Repr

structure ChunkDigest where
  rowCount : Nat
  sha256 : Bytes
  deriving DecidableEq, Repr

inductive ReconcileResult where
  | «match» (digest : ChunkDigest)
  | mismatch (source target : ChunkDigest)
  deriving DecidableEq, Repr

inductive ReconcileError where
  | source (message : String)
  | target (message : String)
  | unchangedToast
  deriving DecidableEq, Repr

def ReconcileError.text : ReconcileError → String
  | .source message => "source reconciliation read failed: " ++ message
  | .target message => "target reconciliation read failed: " ++ message
  | .unchangedToast => "unchanged TOAST cannot appear in a materialized reconciliation row"

def ChunkReader := Option (List Bytes) → Except ReconcileError (List CanonicalRow)

def hashBytes (hasher : Bytes) (tag : UInt8) (value : Bytes) : Bytes :=
  hasher ++ [tag] ++ beBytes 8 value.length ++ value

def hashValue (hasher : Bytes) : Cell → Except ReconcileError Bytes
  | .null => .ok (hasher ++ [0])
  | .text value => .ok (hashBytes hasher 2 value)
  | .binary value => .ok (hashBytes hasher 3 value)
  | .unchangedToast => .error .unchangedToast

def hashRow (hasher : Bytes) (row : CanonicalRow) : Except ReconcileError Bytes :=
  let hasher := hasher ++ beBytes 8 row.key.length
  let hasher := row.key.foldl (fun hasher key => hashBytes hasher 1 key) hasher
  row.values.foldlM hashValue (hasher ++ beBytes 8 row.values.length)

def digestRows (sha256 : Bytes → Bytes) (rows : List CanonicalRow) : Except ReconcileError ChunkDigest := do
  let hasher ← rows.foldlM hashRow []
  .ok ⟨rows.length,sha256 hasher⟩

/- `try_join!` ends with the first error it meets: that of the source if the source is polled to its end first. -/
def tryJoin {ε α β : Type} (sourceFirst : Bool) : Except ε α → Except ε β → Except ε (α × β)
  | .ok source,.ok target => .ok (source,target)
  | .error error,.ok _ => .error error
  | .ok _,.error error => .error error
  | .error error,.error error' => .error (if sourceFirst then error else error')

def compareChunk (sha256 : Bytes → Bytes) (sourceFirst : Bool) (source target : ChunkReader)
    (startAfter : Option (List Bytes)) : Except ReconcileError ReconcileResult := do
  let rows ← tryJoin sourceFirst (source startAfter) (target startAfter)
  let sourceDigest ← digestRows sha256 rows.1
  let targetDigest ← digestRows sha256 rows.2
  if sourceDigest = targetDigest then .ok (.match sourceDigest) else .ok (.mismatch sourceDigest targetDigest)

def keyCode : Code (List Bytes) UInt8 := Code.counted lengthCode (Code.marked 1 fieldCode)

def cellBytes : Cell → Bytes
  | .null => [0]
  | .text value => 2 :: hashField value
  | .binary value => 3 :: hashField value
  | .unchangedToast => []

def CellInMemory : Cell → Prop
  | .text value => value.length < 2 ^ 64
  | .binary value => value.length < 2 ^ 64
  | _ => True

def CellValid (value : Cell) : Prop := value ≠ .unchangedToast ∧ CellInMemory value

theorem cellDelimits (left right : Cell) (rest rest' : Bytes) (here : CellValid left) (there : CellValid right)
    (same : cellBytes left ++ rest = cellBytes right ++ rest') : left = right ∧ rest = rest' := by
  cases left with
  | unchangedToast => exact absurd rfl here.1
  | null => cases right with
    | unchangedToast => exact absurd rfl there.1
    | null => exact ⟨rfl,List.append_cancel_left same⟩
    | text | binary => exact absurd (List.cons.inj same).1 (by decide)
  | text value => cases right with
    | unchangedToast => exact absurd rfl there.1
    | null | binary => exact absurd (List.cons.inj same).1 (by decide)
    | text value' =>
      obtain ⟨values,rests⟩ := fieldCode.delimits value value' rest rest' here.2 there.2 (List.cons.inj same).2
      exact ⟨by rw [values],rests⟩
  | binary value => cases right with
    | unchangedToast => exact absurd rfl there.1
    | null | text => exact absurd (List.cons.inj same).1 (by decide)
    | binary value' =>
      obtain ⟨values,rests⟩ := fieldCode.delimits value value' rest rest' here.2 there.2 (List.cons.inj same).2
      exact ⟨by rw [values],rests⟩

def cellCode : Code Cell UInt8 := ⟨cellBytes,CellValid,cellDelimits⟩

def rowCode : Code CanonicalRow UInt8 :=
  (Code.pair keyCode (Code.counted lengthCode cellCode)).comap (fun row => (row.key,row.values)) (by
    intro left right same
    obtain ⟨keys,values⟩ := Prod.mk.inj same
    cases left
    cases right
    exact congrArg₂ CanonicalRow.mk keys values)

def chunkText (rows : List CanonicalRow) : Bytes := rows.flatMap rowCode.encode

def Materialized (rows : List CanonicalRow) : Prop := ∀ row ∈ rows, .unchangedToast ∉ row.values

instance (rows : List CanonicalRow) : Decidable (Materialized rows) := by unfold Materialized; infer_instance

def InMemory (rows : List CanonicalRow) : Prop := ∀ row ∈ rows,
  (row.key.length < 2 ^ 64 ∧ ∀ part ∈ row.key, part.length < 2 ^ 64) ∧
  row.values.length < 2 ^ 64 ∧ ∀ value ∈ row.values, CellInMemory value

instance : DecidablePred CellInMemory := fun value => by cases value <;> unfold CellInMemory <;> infer_instance

instance (rows : List CanonicalRow) : Decidable (InMemory rows) := by unfold InMemory; infer_instance

theorem keysHashed (keys : List Bytes) (hasher : Bytes) :
    keys.foldl (fun hasher key => hashBytes hasher 1 key) hasher =
      hasher ++ keys.flatMap (Code.marked 1 fieldCode).encode := by
  induction keys generalizing hasher with
  | nil => simp
  | cons key keys ih =>
    rw [List.foldl_cons,ih,List.flatMap_cons]
    simp [hashBytes,Code.marked,fieldEncode,hashField]

theorem valueHashed (hasher : Bytes) {value : Cell} (present : value ≠ .unchangedToast) :
    hashValue hasher value = .ok (hasher ++ cellBytes value) := by
  cases value with
  | unchangedToast => exact absurd rfl present
  | null => rfl
  | text | binary => simp [hashValue,hashBytes,cellBytes,hashField]

theorem valuesHashed (values : List Cell) (hasher : Bytes) (present : .unchangedToast ∉ values) :
    values.foldlM hashValue hasher = .ok (hasher ++ values.flatMap cellBytes) := by
  induction values generalizing hasher with
  | nil => simp [pure,Except.pure]
  | cons value values ih =>
    rw [List.mem_cons,not_or] at present
    simp [valueHashed hasher (Ne.symm present.1),ih _ present.2,bind,Except.bind]

theorem rowHashed (hasher : Bytes) {row : CanonicalRow} (present : .unchangedToast ∉ row.values) :
    hashRow hasher row = .ok (hasher ++ rowCode.encode row) := by
  simp [hashRow,keysHashed,valuesHashed _ _ present,rowCode,keyCode,Code.comap,Code.pair,Code.counted,lengthCode,
    Code.fixed,cellCode]

theorem rowsHashed (rows : List CanonicalRow) (hasher : Bytes) (materialized : Materialized rows) :
    rows.foldlM hashRow hasher = .ok (hasher ++ chunkText rows) := by
  induction rows generalizing hasher with
  | nil => simp [chunkText,pure,Except.pure]
  | cons row rows ih =>
    obtain ⟨head,tail⟩ := List.forall_mem_cons.mp materialized
    simp [rowHashed hasher head,ih _ tail,chunkText,bind,Except.bind]

theorem digestRowsOk (sha256 : Bytes → Bytes) {rows : List CanonicalRow} (materialized : Materialized rows) :
    digestRows sha256 rows = .ok ⟨rows.length,sha256 (chunkText rows)⟩ := by
  simp [digestRows,rowsHashed rows [] materialized,bind,Except.bind]

theorem rowValid {rows : List CanonicalRow} (materialized : Materialized rows) (held : InMemory rows) :
    ∀ row ∈ rows, rowCode.valid row := by
  intro row mem
  obtain ⟨keys,size,values⟩ := held row mem
  exact ⟨keys,size,fun value inside => ⟨fun same => materialized row mem (same ▸ inside),values value inside⟩⟩

theorem rowFilled (row : CanonicalRow) : rowCode.encode row ≠ [] := by
  intro empty
  have size := congrArg List.length empty
  simp [rowCode,keyCode,Code.comap,Code.pair,Code.counted,lengthCode,Code.fixed,beBytesSize] at size

theorem chunkTextInjective {left right : List CanonicalRow} (materialized : Materialized left) (held : InMemory left)
    (materialized' : Materialized right) (held' : InMemory right) (same : chunkText left = chunkText right) :
    left = right :=
  rowCode.streamInjective rowFilled left right (rowValid materialized held) (rowValid materialized' held') same

theorem digestsEqual {sha256 : Bytes → Bytes} {left right : List CanonicalRow}
    (materialized : Materialized left) (materialized' : Materialized right) (held : InMemory left)
    (held' : InMemory right) (free : sha256 (chunkText left) = sha256 (chunkText right) → chunkText left = chunkText right) :
    digestRows sha256 left = digestRows sha256 right ↔ left = right := by
  constructor
  · intro same
    rw [digestRowsOk sha256 materialized,digestRowsOk sha256 materialized',Except.ok.injEq,ChunkDigest.mk.injEq] at same
    exact chunkTextInjective materialized held materialized' held' (free same.2)
  · intro same
    rw [same]

theorem compareMatches {sha256 : Bytes → Bytes} {sourceFirst : Bool} {source target : ChunkReader}
    {startAfter : Option (List Bytes)} {left right : List CanonicalRow} (sourceRead : source startAfter = .ok left)
    (targetRead : target startAfter = .ok right) (materialized : Materialized left) (materialized' : Materialized right) :
    (∃ digest, compareChunk sha256 sourceFirst source target startAfter = .ok (.match digest)) ↔
      digestRows sha256 left = digestRows sha256 right := by
  simp only [compareChunk,sourceRead,targetRead,tryJoin,digestRowsOk sha256 materialized,
    digestRowsOk sha256 materialized',bind,Except.bind,Except.ok.injEq]
  split
  · rename_i same
    exact ⟨fun _ => same,fun _ => ⟨_,rfl⟩⟩
  · rename_i differ
    constructor
    · intro found
      obtain ⟨digest,found⟩ := found
      cases found
    · intro same
      exact absurd same differ

theorem valuesToast (values : List Cell) (hasher : Bytes) (absent : .unchangedToast ∈ values) :
    values.foldlM hashValue hasher = .error .unchangedToast := by
  induction values generalizing hasher with
  | nil => simp at absent
  | cons value values ih =>
    by_cases present : value = .unchangedToast
    · simp [present,hashValue,bind,Except.bind]
    · have later := (List.mem_cons.mp absent).resolve_left (Ne.symm present)
      simp [valueHashed hasher present,ih _ later,bind,Except.bind]

theorem rowsToast (rows : List CanonicalRow) (hasher : Bytes) (absent : ¬ Materialized rows) :
    rows.foldlM hashRow hasher = .error .unchangedToast := by
  induction rows generalizing hasher with
  | nil => exact absurd (by simp [Materialized]) absent
  | cons row rows ih =>
    by_cases present : .unchangedToast ∈ row.values
    · simp [hashRow,valuesToast _ _ present,bind,Except.bind]
    · have later : ¬ Materialized rows := fun others => absent (List.forall_mem_cons.mpr ⟨present,others⟩)
      simp [rowHashed hasher present,ih _ later,bind,Except.bind]

theorem digestRowsToast (sha256 : Bytes → Bytes) {rows : List CanonicalRow} (absent : ¬ Materialized rows) :
    digestRows sha256 rows = .error .unchangedToast := by
  simp [digestRows,rowsToast rows [] absent,bind,Except.bind]

/-- Chunks in which every value is there have digests, and these are equal exactly when the chunks are. So a comparison
of what two readers return is a match exactly when both returned the same rows. -/
theorem chunksComparedExactly (sha256 : Bytes → Bytes) (left right : List CanonicalRow)
    (materialized : Materialized left) (materialized' : Materialized right) (held : InMemory left)
    (held' : InMemory right) (free : sha256 (chunkText left) = sha256 (chunkText right) → chunkText left = chunkText right) :
    (∃ digest digest', digestRows sha256 left = .ok digest ∧ digestRows sha256 right = .ok digest' ∧
      (digest = digest' ↔ left = right)) ∧
    ∀ sourceFirst (source target : ChunkReader) startAfter,
      source startAfter = .ok left → target startAfter = .ok right →
      ((∃ digest, compareChunk sha256 sourceFirst source target startAfter = .ok (.match digest)) ↔ left = right) := by
  have equal := digestsEqual materialized materialized' held held' free
  constructor
  · have here := digestRowsOk sha256 materialized
    have there := digestRowsOk sha256 materialized'
    rw [here,there,Except.ok.injEq] at equal
    exact ⟨_,_,here,there,equal⟩
  · intro sourceFirst source target startAfter sourceRead targetRead
    exact (compareMatches sourceRead targetRead materialized materialized').trans equal

section Sample

def firstCut : CanonicalRow := ⟨[[97]],[.text [98,99],.null]⟩

def secondCut : CanonicalRow := ⟨[[97,98]],[.text [99],.null]⟩

def constantReader (rows : List CanonicalRow) : ChunkReader := fun _ => .ok rows

theorem cutsCompared :
    ((∃ digest digest', digestRows Sha256.digest [firstCut] = .ok digest ∧
      digestRows Sha256.digest [secondCut] = .ok digest' ∧ (digest = digest' ↔ [firstCut] = [secondCut])) ∧
    ¬ ∃ digest, compareChunk Sha256.digest true (constantReader [firstCut]) (constantReader [secondCut]) none =
      .ok (.match digest)) := by
  obtain ⟨digests,compared⟩ := chunksComparedExactly Sha256.digest [firstCut] [secondCut]
    (by decide) (by decide) (by decide) (by decide) (fun same => absurd same (by decide +kernel))
  have apart : [firstCut] ≠ [secondCut] := by decide
  exact ⟨digests,fun found => apart ((compared true _ _ none rfl rfl).mp found)⟩

end Sample

end CloudberryEtl.Reconcile
