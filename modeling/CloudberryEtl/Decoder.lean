import CloudberryEtl.DdlCapture

/-! The decoder of pgoutput messages, from `source::wal`. A message is what the protocol crate parses it to; a text of it
that is not UTF-8 is `none`. An error keeps the values its text shows. -/
namespace CloudberryEtl.Decoder
open Change Result Wire
open DdlCapture (DdlEnvelope DdlError decodeDdlMessage ddlMessagePrefix)

abbrev WireText := Option String

inductive TupleData where
  | null
  | unchangedToast
  | text (bytes : Bytes)
  | binary (bytes : Bytes)
  deriving DecidableEq, Repr

inductive WireReplicaIdentity where
  | default | nothing | full | index
  deriving DecidableEq, Repr

structure BodyColumn where
  flags : Int
  name : WireText
  typeId : Int
  typeModifier : Int
  deriving DecidableEq, Repr

structure RelationBody where
  relId : Nat
  (namespace' : WireText)
  name : WireText
  replicaIdentity : WireReplicaIdentity
  columns : List BodyColumn
  deriving DecidableEq, Repr

inductive LogicalReplicationMessage where
  | begin' (finalLsn : PgLsn) (timestamp : Int) (xid : Nat)
  | commit (flags : Int) (commitLsn endLsn : PgLsn) (timestamp : Int)
  | origin (name : WireText)
  | relation (body : RelationBody)
  | type (id : Nat) (namespace' name : WireText)
  | insert (relId : Nat) (tuple : List TupleData)
  | update (relId : Nat) (oldTuple keyTuple : Option (List TupleData)) (newTuple : List TupleData)
  | delete (relId : Nat) (oldTuple keyTuple : Option (List TupleData))
  | truncate (options : Int) (relIds : List Nat)
  | message (messagePrefix content : WireText)
  | unknown
  deriving DecidableEq, Repr

inductive DecodeError where
  | notUtf8
  | nestedBegin
  | commitWithoutBegin
  | negativeTypeOid (typeId : Int)
  | generationOverflow (relationId : Nat)
  | outsideTransaction (operation : String)
  | unknownRelation (relationId : Nat)
  | changedReplicaIdentity (relationId : Nat)
  | noOldKey (relationId : Nat)
  | unknownPrefix (text : String)
  | malformedDdl
  | ddl (error : DdlError)
  | unsupportedOrigin (name : String)
  | unsupportedMessage
  | timestampOverflow
  | invalidTimestamp
  | unknownEnvelope
  deriving DecidableEq, Repr

/- What the libraries decide: the timestamps `chrono` represents and the envelopes `serde_json` reads. -/
structure Libraries where
  representable : Int → Bool
  fromSlice : String → Option DdlEnvelope

structure TransactionDecoder where
  inTransaction : Bool
  relations : Nat → Option RelationEvent

def TransactionDecoder.new : TransactionDecoder := ⟨false,fun _ => none⟩

def u64Max : Nat := 2 ^ 64 - 1

def i64Max : Int := 2 ^ 63 - 1

def postgresEpochUnixSeconds : Int := 946684800

def getStr : WireText → Except DecodeError String
  | some text => .ok text
  | none => .error .notUtf8

def postgresTimestamp (libraries : Libraries) (microsSince2000 : Int) : Except DecodeError Int :=
  let unixMicros := microsSince2000 + postgresEpochUnixSeconds * 1000000
  if i64Max < unixMicros then .error .timestampOverflow
  else if libraries.representable unixMicros then .ok unixMicros else .error .invalidTimestamp

def convertCell : TupleData → Cell
  | .null => .null
  | .unchangedToast => .unchangedToast
  | .text bytes => .text bytes
  | .binary bytes => .binary bytes

def convertTuple (tuple : List TupleData) : Tuple := ⟨tuple.map convertCell⟩

def mapReplicaIdentity : WireReplicaIdentity → WireReplicaIdentityKind
  | .default => .default
  | .index => .index
  | .full => .full
  | .nothing => .nothing

def relationShapeEqual (left right : RelationEvent) : Bool :=
  left.relationId = right.relationId && left.namespace' = right.namespace' && left.name = right.name &&
    left.replicaIdentity = right.replicaIdentity && left.columns = right.columns

def decodeColumn (column : BodyColumn) : Except DecodeError RelationColumn := do
  let name ← getStr column.name
  if column.typeId < 0 then .error (.negativeTypeOid column.typeId)
  else .ok ⟨column.flags,name,column.typeId.toNat,column.typeModifier⟩

def firstEvent (body : RelationBody) : Except DecodeError RelationEvent := do
  let namespaceText ← getStr body.namespace'
  let name ← getStr body.name
  let columns ← body.columns.mapM decodeColumn
  .ok ⟨body.relId,namespaceText,name,1,mapReplicaIdentity body.replicaIdentity,columns⟩

namespace TransactionDecoder

def requireTransaction (decoder : TransactionDecoder) (operation : String) : Except DecodeError Unit :=
  if decoder.inTransaction then .ok () else .error (.outsideTransaction operation)

def requireRelation (decoder : TransactionDecoder) (relationId : Nat) : Except DecodeError Unit :=
  match decoder.relations relationId with
  | none => .error (.unknownRelation relationId)
  | some relation =>
    if relation.replicaIdentity ≠ .default then .error (.changedReplicaIdentity relationId) else .ok ()

def relationGeneration (decoder : TransactionDecoder) (relationId : Nat) : Except DecodeError Nat :=
  match decoder.relations relationId with
  | none => .error (.unknownRelation relationId)
  | some relation => .ok relation.generation

def nextGeneration (decoder : TransactionDecoder) (event : RelationEvent) : Except DecodeError Nat :=
  match decoder.relations event.relationId with
  | none => .ok event.generation
  | some previous =>
    if relationShapeEqual previous event then .ok previous.generation
    else if previous.generation = u64Max then .error (.generationOverflow event.relationId)
    else .ok (previous.generation + 1)

def decodeRelation (decoder : TransactionDecoder) (body : RelationBody) :
    Except DecodeError (DecodedMessage × TransactionDecoder) := do
  let first ← firstEvent body
  let generation ← decoder.nextGeneration first
  let event := {first with generation := generation}
  .ok (.relation event,{decoder with relations := Function.update decoder.relations event.relationId (some event)})

def decode (libraries : Libraries) (decoder : TransactionDecoder) :
    LogicalReplicationMessage → Except DecodeError (DecodedMessage × TransactionDecoder)
  | .begin' finalLsn timestamp xid => do
    if decoder.inTransaction then .error .nestedBegin
    else
      let timestamp ← postgresTimestamp libraries timestamp
      .ok (.begin' finalLsn timestamp xid,{decoder with inTransaction := true})
  | .commit flags commitLsn endLsn timestamp => do
    if !decoder.inTransaction then .error .commitWithoutBegin
    else
      let timestamp ← postgresTimestamp libraries timestamp
      .ok (.commit commitLsn endLsn timestamp flags,{decoder with inTransaction := false})
  | .relation body => decoder.decodeRelation body
  | .type id namespaceText name => do
    let namespaceText ← getStr namespaceText
    let name ← getStr name
    .ok (.type ⟨id,namespaceText,name⟩,decoder)
  | .insert relationId tuple => do
    decoder.requireTransaction "INSERT"
    decoder.requireRelation relationId
    let generation ← decoder.relationGeneration relationId
    .ok (.insert relationId generation (convertTuple tuple),decoder)
  | .update relationId oldTuple keyTuple newTuple => do
    decoder.requireTransaction "UPDATE"
    decoder.requireRelation relationId
    let oldKey := (keyTuple.or oldTuple).map convertTuple
    let generation ← decoder.relationGeneration relationId
    .ok (.update relationId generation oldKey (convertTuple newTuple),decoder)
  | .delete relationId oldTuple keyTuple => do
    decoder.requireTransaction "DELETE"
    decoder.requireRelation relationId
    match keyTuple.or oldTuple with
    | none => .error (.noOldKey relationId)
    | some oldKey =>
      let generation ← decoder.relationGeneration relationId
      .ok (.delete relationId generation (convertTuple oldKey),decoder)
  | .truncate options relationIds => do
    decoder.requireTransaction "TRUNCATE"
    relationIds.forM decoder.requireRelation
    .ok (.truncate relationIds options,decoder)
  | .message messagePrefix content => do
    decoder.requireTransaction "MESSAGE"
    let messagePrefix ← getStr messagePrefix
    let content ← getStr content
    if messagePrefix ≠ ddlMessagePrefix then .error (.unknownPrefix messagePrefix)
    else match libraries.fromSlice content with
    | none => .error .malformedDdl
    | some envelope => do
      let message ← (decodeDdlMessage messagePrefix envelope).mapError .ddl
      .ok (.ddl message,decoder)
  | .origin name => do
    let name ← getStr name
    .error (.unsupportedOrigin name)
  | .unknown => .error .unsupportedMessage

end TransactionDecoder

inductive ReplicationMessage where
  | xLogData (message : LogicalReplicationMessage)
  | primaryKeepAlive (walEnd : PgLsn) (timestamp : Int) (reply : Nat)
  | unknown
  deriving DecidableEq, Repr

def receive (libraries : Libraries) (decoder : TransactionDecoder) :
    ReplicationMessage → Except DecodeError (DecodedMessage × TransactionDecoder)
  | .xLogData message => decoder.decode libraries message
  | .primaryKeepAlive walEnd timestamp reply => .ok (.keepalive walEnd timestamp (reply ≠ 0),decoder)
  | .unknown => .error .unknownEnvelope

def rowKey? : DecodedMessage → Option (Nat × Nat)
  | .insert relationId generation _ => some (relationId,generation)
  | .update relationId generation _ _ => some (relationId,generation)
  | .delete relationId generation _ => some (relationId,generation)
  | _ => none

def relationEvent? : DecodedMessage → Option RelationEvent
  | .relation event => some event
  | _ => none

def shapeOf (event : RelationEvent) : RelationEvent := {event with generation := 1}

theorem shapeEqualIff {left right : RelationEvent} : relationShapeEqual left right = true ↔ shapeOf left = shapeOf right := by
  cases left
  cases right
  simp [relationShapeEqual,shapeOf,and_assoc]

structure Registered (decoder : TransactionDecoder) (event : RelationEvent) (next : TransactionDecoder) : Prop where
  relations : next.relations = Function.update decoder.relations event.relationId (some event)
  generation : match decoder.relations event.relationId with
    | none => event.generation = 1
    | some previous => event.generation = if shapeOf previous = shapeOf event then previous.generation
        else previous.generation + 1

theorem decodeRelationRegistered {decoder body decoded next}
    (ok : TransactionDecoder.decodeRelation decoder body = .ok (decoded,next)) :
    ∃ event, decoded = .relation event ∧ Registered decoder event next := by
  obtain ⟨first,read,ok⟩ := bindOk.mp ok
  obtain ⟨generation,counted,ok⟩ := bindOk.mp ok
  obtain ⟨rfl,rfl⟩ := Prod.mk.inj (Except.ok.inj ok)
  refine ⟨_,rfl,rfl,?_⟩
  have one : first.generation = 1 := by
    obtain ⟨_,_,read⟩ := bindOk.mp read
    obtain ⟨_,_,read⟩ := bindOk.mp read
    obtain ⟨_,_,read⟩ := bindOk.mp read
    exact Except.ok.inj read ▸ rfl
  unfold TransactionDecoder.nextGeneration at counted
  simp only
  cases held : decoder.relations first.relationId with
  | none =>
    simp only [held,Except.ok.injEq] at counted
    simpa [one] using counted.symm
  | some previous =>
    simp only [held] at counted
    have shape : shapeOf {first with generation := generation} = shapeOf first := rfl
    simp only [shape,← shapeEqualIff]
    split at counted
    next same => simpa [same] using (Except.ok.inj counted).symm
    next other => simpa [other] using (Except.ok.inj (iteOk.mp counted).2).symm

inductive Effect (decoder : TransactionDecoder) (decoded : DecodedMessage) (next : TransactionDecoder) : Prop where
  | registered (event : RelationEvent) (same : decoded = .relation event) (kept : Registered decoder event next)
  | row (relationId : Nat) (relation : RelationEvent) (key : rowKey? decoded = some (relationId,relation.generation))
      (held : decoder.relations relationId = some relation) (same : next.relations = decoder.relations)
  | other (noRow : rowKey? decoded = none) (noRelation : relationEvent? decoded = none)
      (same : next.relations = decoder.relations)

theorem generationHeld {decoder : TransactionDecoder} {relationId generation}
    (ok : decoder.relationGeneration relationId = .ok generation) :
    ∃ relation, decoder.relations relationId = some relation ∧ relation.generation = generation := by
  unfold TransactionDecoder.relationGeneration at ok
  split at ok
  · contradiction
  next relation held => exact ⟨relation,held,Except.ok.inj ok⟩

theorem decodeEffect {libraries decoder message decoded next}
    (ok : TransactionDecoder.decode libraries decoder message = .ok (decoded,next)) : Effect decoder decoded next := by
  cases message with
  | begin' finalLsn timestamp xid =>
    obtain ⟨_,ok⟩ := iteOk.mp ok
    obtain ⟨_,_,ok⟩ := bindOk.mp ok
    obtain ⟨rfl,rfl⟩ := Prod.mk.inj (Except.ok.inj ok)
    exact .other rfl rfl rfl
  | commit flags commitLsn endLsn timestamp =>
    obtain ⟨_,ok⟩ := iteOk.mp ok
    obtain ⟨_,_,ok⟩ := bindOk.mp ok
    obtain ⟨rfl,rfl⟩ := Prod.mk.inj (Except.ok.inj ok)
    exact .other rfl rfl rfl
  | relation body =>
    obtain ⟨event,same,kept⟩ := decodeRelationRegistered ok
    exact .registered event same kept
  | type id namespaceText name =>
    obtain ⟨_,_,ok⟩ := bindOk.mp ok
    obtain ⟨_,_,ok⟩ := bindOk.mp ok
    obtain ⟨rfl,rfl⟩ := Prod.mk.inj (Except.ok.inj ok)
    exact .other rfl rfl rfl
  | insert relationId tuple =>
    obtain ⟨_,_,ok⟩ := bindOk.mp ok
    obtain ⟨_,_,ok⟩ := bindOk.mp ok
    obtain ⟨generation,current,ok⟩ := bindOk.mp ok
    obtain ⟨rfl,rfl⟩ := Prod.mk.inj (Except.ok.inj ok)
    obtain ⟨relation,held,rfl⟩ := generationHeld current
    exact .row relationId relation rfl held rfl
  | update relationId oldTuple keyTuple newTuple =>
    obtain ⟨_,_,ok⟩ := bindOk.mp ok
    obtain ⟨_,_,ok⟩ := bindOk.mp ok
    obtain ⟨generation,current,ok⟩ := bindOk.mp ok
    obtain ⟨rfl,rfl⟩ := Prod.mk.inj (Except.ok.inj ok)
    obtain ⟨relation,held,rfl⟩ := generationHeld current
    exact .row relationId relation rfl held rfl
  | delete relationId oldTuple keyTuple =>
    obtain ⟨_,_,ok⟩ := bindOk.mp ok
    obtain ⟨_,_,ok⟩ := bindOk.mp ok
    split at ok
    · contradiction
    obtain ⟨generation,current,ok⟩ := bindOk.mp ok
    obtain ⟨rfl,rfl⟩ := Prod.mk.inj (Except.ok.inj ok)
    obtain ⟨relation,held,rfl⟩ := generationHeld current
    exact .row relationId relation rfl held rfl
  | truncate options relationIds =>
    obtain ⟨_,_,ok⟩ := bindOk.mp ok
    obtain ⟨_,_,ok⟩ := bindOk.mp ok
    obtain ⟨rfl,rfl⟩ := Prod.mk.inj (Except.ok.inj ok)
    exact .other rfl rfl rfl
  | message messagePrefix content =>
    obtain ⟨_,_,ok⟩ := bindOk.mp ok
    obtain ⟨_,_,ok⟩ := bindOk.mp ok
    obtain ⟨_,_,ok⟩ := bindOk.mp ok
    obtain ⟨_,ok⟩ := iteOk.mp ok
    split at ok
    · contradiction
    obtain ⟨_,_,ok⟩ := bindOk.mp ok
    obtain ⟨rfl,rfl⟩ := Prod.mk.inj (Except.ok.inj ok)
    exact .other rfl rfl rfl
  | origin name =>
    obtain ⟨_,_,ok⟩ := bindOk.mp ok
    contradiction
  | unknown => contradiction

theorem receiveEffect {libraries decoder message decoded next}
    (ok : receive libraries decoder message = .ok (decoded,next)) : Effect decoder decoded next := by
  cases message with
  | xLogData message => exact decodeEffect ok
  | primaryKeepAlive walEnd timestamp reply =>
    obtain ⟨rfl,rfl⟩ := Prod.mk.inj (Except.ok.inj ok)
    exact .other rfl rfl rfl
  | unknown => contradiction

end CloudberryEtl.Decoder
