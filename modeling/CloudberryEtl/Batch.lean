import CloudberryEtl.Wire

/-! Bounded batches of the transactions of one node, from `engine::batch`. -/
namespace CloudberryEtl.Batch
open Change Wire

structure BatchLimits where
  maxRows : Nat
  maxBytes : Nat
  maxDelay : Nat
  deriving DecidableEq, Repr

inductive BatchError where
  | invalidLimits
  | mixedNodes (expected actual : Int)
  | mixedSystems
  | nonMonotonicLsn (previous actual : PgLsn)
  deriving DecidableEq, Repr

structure TransactionBatch where
  transactions : List SourceTransaction
  rowCount : Nat
  estimatedBytes : Nat
  hasGenerationBarrier : Bool
  filled : transactions ≠ []
  deriving DecidableEq, Repr

def TransactionBatch.finalTransaction (batch : TransactionBatch) : SourceTransaction :=
  batch.transactions.getLast batch.filled

structure Batcher where
  limits : BatchLimits
  pending : List SourceTransaction
  pendingRows : Nat
  pendingBytes : Nat
  nodeIdentity : Option (Int × Nat)
  deriving DecidableEq, Repr

def isRow : TransactionChange → Bool
  | .row _ => true
  | _ => false

def transactionRowCount (transaction : SourceTransaction) : Nat := (transaction.changes.filter isRow).length

/- The estimate of a DDL message leaves out its schemas, unlike `transaction_change_bytes` of the source. -/
def estimatedChangeBytes : TransactionChange → Nat
  | .row row => rowChangeBytes row.change
  | .truncate relationIds _ _ => relationIds.length * 4
  | .ddl message => message.commandTag.utf8ByteSize + message.schemaFingerprint.utf8ByteSize +
      message.relationIds.length * 4

def transactionEstimatedBytes (transaction : SourceTransaction) : Nat :=
  (transaction.changes.map estimatedChangeBytes).sum

def hasBarrier (transaction : SourceTransaction) : Bool := transaction.changes.any TransactionChange.requiresGenerationBarrier

namespace Batcher

def new (limits : BatchLimits) : Except BatchError Batcher :=
  if limits.maxRows = 0 ∨ limits.maxBytes = 0 ∨ limits.maxDelay = 0 then .error .invalidLimits
  else .ok ⟨limits,[],0,0,none⟩

def isEmpty (batcher : Batcher) : Bool := batcher.pending.isEmpty

def validateNode (batcher : Batcher) (position : SourcePosition) : Except BatchError Unit :=
  match batcher.nodeIdentity with
  | some (nodeId,systemIdentifier) =>
    if nodeId ≠ position.nodeId then .error (.mixedNodes nodeId position.nodeId)
    else if systemIdentifier ≠ position.systemIdentifier then .error .mixedSystems
    else .ok ()
  | none => .ok ()

def validateOrder (batcher : Batcher) (transaction : SourceTransaction) : Except BatchError Unit := do
  validateNode batcher transaction.finalPosition
  match batcher.pending.getLast? with
  | some previous =>
    if transaction.finalPosition.lsn < previous.finalPosition.lsn then
      .error (.nonMonotonicLsn previous.finalPosition.lsn transaction.finalPosition.lsn)
    else .ok ()
  | none => .ok ()

def takePending (batcher : Batcher) (filled : batcher.pending ≠ []) : TransactionBatch × Batcher :=
  (⟨batcher.pending,batcher.pendingRows,batcher.pendingBytes,batcher.pending.any hasBarrier,filled⟩,
    {batcher with pending := [], pendingRows := 0, pendingBytes := 0, nodeIdentity := none})

def flush (batcher : Batcher) : Option TransactionBatch × Batcher :=
  if filled : batcher.pending ≠ [] then
    let (batch,emptied) := batcher.takePending filled
    (some batch,emptied)
  else (none,batcher)

def mustFlush (batcher : Batcher) (transaction : SourceTransaction) : Bool :=
  hasBarrier transaction ||
    batcher.limits.maxRows < saturatingAdd batcher.pendingRows (transactionRowCount transaction) ||
    batcher.limits.maxBytes < saturatingAdd batcher.pendingBytes (transactionEstimatedBytes transaction) ||
    batcher.limits.maxRows ≤ batcher.pending.length

def append (batcher : Batcher) (transaction : SourceTransaction) : Batcher :=
  {batcher with
    pending := batcher.pending ++ [transaction]
    pendingRows := saturatingAdd batcher.pendingRows (transactionRowCount transaction)
    pendingBytes := saturatingAdd batcher.pendingBytes (transactionEstimatedBytes transaction)
    nodeIdentity := some (transaction.finalPosition.nodeId,transaction.finalPosition.systemIdentifier)}

def push (batcher : Batcher) (transaction : SourceTransaction) :
    Except BatchError (Option TransactionBatch × Batcher) := do
  batcher.validateOrder transaction
  if batcher.mustFlush transaction then
    let (full,emptied) := batcher.flush
    .ok (full,emptied.append transaction)
  else .ok (none,batcher.append transaction)

end Batcher

end CloudberryEtl.Batch
