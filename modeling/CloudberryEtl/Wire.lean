import CloudberryEtl.Change
import CloudberryEtl.Result

/-! Assembly of decoded pgoutput messages into committed transactions, from `source::wal`. A timestamp is its number of
microseconds and a `usize` is a natural number below 2 ^ 64. An error keeps the values its text shows. -/
namespace CloudberryEtl.Wire
open Change Result

def usizeMax : Nat := 2 ^ 64 - 1

def saturatingAdd (left right : Nat) : Nat := min (left + right) usizeMax

structure RelationColumn where
  flags : Int
  name : String
  typeOid : Nat
  typeModifier : Int
  deriving DecidableEq, Repr

inductive WireReplicaIdentityKind where
  | default | index | full | nothing
  deriving DecidableEq, Repr

structure RelationEvent where
  relationId : Nat
  (namespace' : String)
  name : String
  generation : Nat
  replicaIdentity : WireReplicaIdentityKind
  columns : List RelationColumn
  deriving DecidableEq, Repr

structure TypeEvent where
  typeId : Nat
  (namespace' : String)
  name : String
  deriving DecidableEq, Repr

inductive DecodedMessage where
  | begin' (finalLsn : PgLsn) (timestamp : Int) (xid : Nat)
  | commit (commitLsn endLsn : PgLsn) (timestamp : Int) (flags : Int)
  | relation (event : RelationEvent)
  | type (event : TypeEvent)
  | insert (relationId generation : Nat) (new : Tuple)
  | update (relationId generation : Nat) (oldKey : Option Tuple) (new : Tuple)
  | delete (relationId generation : Nat) (oldKey : Tuple)
  | truncate (relationIds : List Nat) (options : Int)
  | ddl (message : DdlMessage)
  | keepalive (walEnd : PgLsn) (timestampMicros : Int) (replyRequested : Bool)
  deriving DecidableEq, Repr

-- Bit tests on the two's complement of an `i8`.
def DecodedMessage.toTransactionChange : DecodedMessage → Option TransactionChange
  | .insert relationId generation new => some (.row ⟨relationId,generation,.insert new⟩)
  | .update relationId generation oldKey new => some (.row ⟨relationId,generation,.update oldKey new⟩)
  | .delete relationId generation oldKey => some (.row ⟨relationId,generation,.delete oldKey⟩)
  | .truncate relationIds options => some (.truncate relationIds (options % 2 = 1) (options / 2 % 2 = 1))
  | .ddl message => some (.ddl message)
  | _ => none

structure SourceNodeIdentity where
  nodeId : Int
  systemIdentifier : Nat
  timeline : Nat
  deriving DecidableEq, Repr

def SourceNodeIdentity.position (identity : SourceNodeIdentity) (lsn : PgLsn) : SourcePosition :=
  ⟨identity.nodeId,identity.systemIdentifier,identity.timeline,lsn⟩

structure TransactionLimits where
  maxChanges : Nat
  maxBytes : Nat
  deriving DecidableEq, Repr

inductive SourceError where
  | invalidTransactionLimits
  | beginBeforePreviousCommit
  | beginBehindCommit (finalLsn previous : PgLsn)
  | eventWithoutBegin
  | generationNotCurrent (relationId generation : Nat)
  | tooManyChanges (xid maxChanges : Nat)
  | tooManyBytes (xid maxBytes : Nat)
  | openTransaction (xid : Nat)
  | zeroGeneration (relationId : Nat)
  | generationMovedBackwards (relationId previous generation : Nat)
  | unsupportedCommitFlags (flags : Int)
  | endPrecedesCommit (endLsn commitLsn : PgLsn)
  | commitMovedBackwards (endLsn previous : PgLsn)
  | commitWithoutBegin
  | beginsAfterCommit (xid : Nat)
  | commitTimePrecedesBegin (xid : Nat)
  | transport
  deriving DecidableEq, Repr

structure CommittedTransaction where
  transaction : SourceTransaction
  commitLsn : PgLsn
  deriving DecidableEq, Repr

inductive AssembledEvent where
  | transaction (committed : CommittedTransaction)
  | keepalive (walEnd : PgLsn) (timestampMicros : Int) (replyRequested : Bool)
  deriving DecidableEq, Repr

structure PendingTransaction where
  xid : Nat
  beginLsn : PgLsn
  beginTime : Int
  changes : List TransactionChange
  bufferedBytes : Nat
  deriving DecidableEq, Repr

structure TransactionAssembler where
  identity : SourceNodeIdentity
  limits : TransactionLimits
  pending : Option PendingTransaction
  lastCommitLsn : Option PgLsn
  relationGenerations : Nat → Option Nat

def TransactionAssembler.withLimits (identity : SourceNodeIdentity) (limits : TransactionLimits) :
    Except SourceError TransactionAssembler :=
  if limits.maxChanges = 0 ∨ limits.maxBytes = 0 then .error .invalidTransactionLimits
  else .ok ⟨identity,limits,none,none,fun _ => none⟩

def cellBytes : Cell → Nat
  | .null | .unchangedToast => 1
  | .text bytes | .binary bytes => bytes.length

def tupleBytes (tuple : Tuple) : Nat := (tuple.cells.map cellBytes).sum

def rowChangeBytes : RowChange → Nat
  | .insert new => tupleBytes new
  | .update oldKey new => (oldKey.map tupleBytes).getD 0 + tupleBytes new
  | .delete oldKey => tupleBytes oldKey

def transactionChangeBytes : TransactionChange → Nat
  | .row row => rowChangeBytes row.change
  | .truncate relationIds _ _ => relationIds.length * 4
  | .ddl message => message.commandTag.utf8ByteSize + message.schemaFingerprint.utf8ByteSize +
      message.relationIds.length * 4 + (message.affectedSchemas.map String.utf8ByteSize).sum

/-- An error with the assembler it leaves: `push` changes it in place, also when it fails. -/
abbrev Refusal := SourceError × TransactionAssembler

namespace TransactionAssembler

def acceptRelation (assembler : TransactionAssembler) (relation : RelationEvent) :
    Except Refusal TransactionAssembler :=
  if relation.generation = 0 then .error (.zeroGeneration relation.relationId,assembler)
  else match assembler.relationGenerations relation.relationId with
  | some previous =>
    if relation.generation < previous then
      .error (.generationMovedBackwards relation.relationId previous relation.generation,assembler)
    else .ok (accept assembler relation)
  | none => .ok (accept assembler relation)
where
  accept (assembler : TransactionAssembler) (relation : RelationEvent) : TransactionAssembler :=
    {assembler with relationGenerations :=
      Function.update assembler.relationGenerations relation.relationId (some relation.generation)}

def begin' (assembler : TransactionAssembler) (finalLsn : PgLsn) (timestamp : Int) (xid : Nat) :
    Except Refusal TransactionAssembler :=
  if assembler.pending.isSome then .error (.beginBeforePreviousCommit,assembler)
  else match assembler.lastCommitLsn with
  | some previous =>
    if finalLsn < previous then .error (.beginBehindCommit finalLsn previous,assembler) else .ok (opened assembler)
  | none => .ok (opened assembler)
where
  opened (assembler : TransactionAssembler) : TransactionAssembler :=
    {assembler with pending := some ⟨xid,finalLsn,timestamp,[],0⟩}

def behindLast (assembler : TransactionAssembler) (endLsn : PgLsn) : Except Refusal Unit :=
  match assembler.lastCommitLsn with
  | some previous => if endLsn < previous then .error (.commitMovedBackwards endLsn previous,assembler) else .ok ()
  | none => .ok ()

def commit (assembler : TransactionAssembler) (commitLsn endLsn : PgLsn) (timestamp flags : Int) :
    Except Refusal (CommittedTransaction × TransactionAssembler) := do
  if flags ≠ 0 then .error (.unsupportedCommitFlags flags,assembler)
  else if endLsn < commitLsn then .error (.endPrecedesCommit endLsn commitLsn,assembler)
  else
    behindLast assembler endLsn
    match assembler.pending with
    | none => .error (.commitWithoutBegin,assembler)
    | some pending =>
      -- `take` stands before the last two checks, so their errors leave no pending transaction
      let assembler := {assembler with pending := none}
      if endLsn < pending.beginLsn then .error (.beginsAfterCommit pending.xid,assembler)
      else if timestamp < pending.beginTime then .error (.commitTimePrecedesBegin pending.xid,assembler)
      else .ok (⟨⟨pending.xid,timestamp,assembler.identity.position endLsn,pending.changes⟩,commitLsn⟩,
        {assembler with lastCommitLsn := some endLsn})

def generationCurrent (assembler : TransactionAssembler) : TransactionChange → Except Refusal Unit
  | .row row =>
    if assembler.relationGenerations row.relationId ≠ some row.generation then
      .error (.generationNotCurrent row.relationId row.generation,assembler)
    else .ok ()
  | _ => .ok ()

def repeatedDdl (pending : PendingTransaction) : TransactionChange → Bool
  | .ddl message => (TransactionChange.ddl message) ∈ pending.changes
  | _ => false

def buffer (assembler : TransactionAssembler) (change : TransactionChange) : Except Refusal TransactionAssembler := do
  match assembler.pending with
  | none => .error (.eventWithoutBegin,assembler)
  | some pending =>
    generationCurrent assembler change
    if repeatedDdl pending change then .ok assembler
    else if assembler.limits.maxChanges ≤ pending.changes.length then
      .error (.tooManyChanges pending.xid assembler.limits.maxChanges,assembler)
    else
      let bytes := saturatingAdd pending.bufferedBytes (transactionChangeBytes change)
      if assembler.limits.maxBytes < bytes then
        .error (.tooManyBytes pending.xid assembler.limits.maxBytes,assembler)
      else .ok {assembler with pending := some {pending with changes := pending.changes ++ [change], bufferedBytes := bytes}}

def push (assembler : TransactionAssembler) (event : DecodedMessage) :
    Except Refusal (Option AssembledEvent × TransactionAssembler) :=
  match event with
  | .keepalive walEnd timestampMicros replyRequested =>
      .ok (some (.keepalive walEnd timestampMicros replyRequested),assembler)
  | .relation relation => do .ok (none,← assembler.acceptRelation relation)
  | .type _ => .ok (none,assembler)
  | .begin' finalLsn timestamp xid => do .ok (none,← assembler.begin' finalLsn timestamp xid)
  | .commit commitLsn endLsn timestamp flags => do
      let (committed,assembler) ← assembler.commit commitLsn endLsn timestamp flags
      .ok (some (.transaction committed),assembler)
  | event =>
    match event.toTransactionChange with
    | none => .ok (none,assembler)
    | some change => do .ok (none,← assembler.buffer change)

def finish (assembler : TransactionAssembler) : Except SourceError Unit :=
  match assembler.pending with
  | some pending => .error (.openTransaction pending.xid)
  | none => .ok ()

end TransactionAssembler

end CloudberryEtl.Wire
