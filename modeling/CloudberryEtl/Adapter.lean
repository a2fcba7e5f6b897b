import CloudberryEtl.Fencing
import CloudberryEtl.Normalize
import CloudberryEtl.Batch

/-! From a batch of transactions to one apply request, from `adapters::cloudberry`. The hash sets and the hash map are
lists that are read through membership and lookup only. -/
namespace CloudberryEtl.Adapter
open Schema Change TablePlan StagedApply Normalize Checkpoint Result Batch Fencing

inductive PipelineError where
  | source (error : Wire.SourceError)
  | target (error : ApplyError)
  | missingBinding (relationId generation : Nat)
  | ddlBarrier (commandTag : String) (xid : Nat) (relationIds : List Nat) (schemas : List String)
  | truncateBarrier (xid : Nat) (relationIds : List Nat)
  | normalize (error : NormalizeError)
  | acknowledge
  | batch (error : BatchError)
  deriving DecidableEq, Repr

inductive AdapterConfigError where
  | applyPlan (error : ApplyPlanError)
  | duplicateBinding (relationId generation : Nat)
  | duplicateTarget (table : String)
  | duplicateStagingName (name : String)
  | invalidSlotName
  deriving DecidableEq, Repr

structure DdlScope where
  includeSchemas : Option (List String)
  excludeSchemas : List String
  deriving DecidableEq, Repr

def DdlScope.fromLists (includeSchemas : Option (List String)) (excludeSchemas : List String) : DdlScope :=
  ⟨includeSchemas,excludeSchemas⟩

def DdlScope.exclude (scope : DdlScope) (schema : String) : DdlScope :=
  {scope with excludeSchemas := schema :: scope.excludeSchemas}

def DdlScope.covers (scope : DdlScope) (schema : String) : Bool :=
  match scope.includeSchemas with
  | some included => schema ∈ included ∧ schema ∉ scope.excludeSchemas
  | none => schema ∉ scope.excludeSchemas

def DdlScope.requiresBarrier (scope : DdlScope) (message : DdlMessage) : Bool :=
  message.affectedSchemas.isEmpty || message.affectedSchemas.any scope.covers

structure TableBinding where
  schema : TableSchema
  plan : ApplyPlan
  deriving DecidableEq, Repr

def TableBinding.new (schema : TableSchema) (target : QualifiedName) (stagingName : String) :
    Except AdapterConfigError TableBinding := do
  let plan ← (planApply schema target stagingName).mapError .applyPlan
  .ok ⟨schema,plan⟩

def TableBinding.key (binding : TableBinding) : Nat × Nat := (binding.schema.relationId,binding.schema.generation)

structure TableBindingRegistry where
  bindings : List TableBinding
  deriving DecidableEq, Repr

def TableBindingRegistry.insert (registry : TableBindingRegistry) (binding : TableBinding) :
    Except AdapterConfigError TableBindingRegistry :=
  if registry.bindings.any (fun other => other.key = binding.key) then
    .error (.duplicateBinding binding.key.1 binding.key.2)
  else if registry.bindings.any (fun other => other.plan.table.target = binding.plan.table.target) then
    .error (.duplicateTarget binding.plan.table.target.display)
  else if registry.bindings.any (fun other => other.plan.stagingName = binding.plan.stagingName) then
    .error (.duplicateStagingName binding.plan.stagingName)
  else .ok ⟨registry.bindings ++ [binding]⟩

def TableBindingRegistry.new (bindings : List TableBinding) : Except AdapterConfigError TableBindingRegistry :=
  bindings.foldlM TableBindingRegistry.insert ⟨[]⟩

def TableBindingRegistry.get (registry : TableBindingRegistry) (relationId generation : Nat) : Option TableBinding :=
  registry.bindings.find? (fun binding => binding.key = (relationId,generation))

def rejectChange (scope : DdlScope) (xid : Nat) : TransactionChange → Except PipelineError Unit
  | .ddl message =>
    if scope.requiresBarrier message then
      .error (.ddlBarrier message.commandTag xid message.relationIds message.affectedSchemas)
    else .ok ()
  | .truncate relationIds _ _ => .error (.truncateBarrier xid relationIds)
  | .row _ => .ok ()

def rejectSchemaBarriers (batch : TransactionBatch) (scope : DdlScope) : Except PipelineError Unit :=
  batch.transactions.forM (fun transaction => transaction.changes.forM (rejectChange scope transaction.xid))

def rowChange? : TransactionChange → Option TableChange
  | .row change => some change
  | _ => none

def rowChanges (batch : TransactionBatch) : List TableChange :=
  batch.transactions.flatMap (fun transaction => transaction.changes.filterMap rowChange?)

def changeKey (change : TableChange) : Nat × Nat := (change.relationId,change.generation)

def keyLe (left right : Nat × Nat) : Prop := left.1 < right.1 ∨ (left.1 = right.1 ∧ left.2 ≤ right.2)

instance : DecidableRel keyLe := fun left right => by unfold keyLe; infer_instance

-- The entries of the BTreeMap in the order of its keys.
def groupChanges (changes : List TableChange) : List ((Nat × Nat) × List TableChange) :=
  ((changes.map changeKey).dedup.insertionSort keyLe).map
    (fun key => (key,changes.filter (fun change => changeKey change = key)))

def tableBatch (registry : TableBindingRegistry) (group : (Nat × Nat) × List TableChange) :
    Except PipelineError (Option TableApplyBatch) :=
  match registry.get group.1.1 group.1.2 with
  | none => .error (.missingBinding group.1.1 group.1.2)
  | some binding => do
    let rows ← (normalizeTableChanges binding.schema group.2).mapError .normalize
    .ok (if rows.isEmpty then none else some ⟨binding.plan,rows⟩)

def batchCheckpoint (fence : PipelineFence) (slotName : String) (position : SourcePosition) : NodeCheckpoint :=
  ⟨⟨fence.pipelineId,fence.topologyGeneration,position.nodeId⟩,position.systemIdentifier,position.timeline,slotName,
    position.lsn⟩

def buildApplyRequestScoped (fence : PipelineFence) (slotName : String) (registry : TableBindingRegistry)
    (scope : DdlScope) (batch : TransactionBatch) : Except PipelineError ApplyRequest := do
  rejectSchemaBarriers batch scope
  let tables ← (groupChanges (rowChanges batch)).mapM (tableBatch registry)
  .ok ⟨fence,batchCheckpoint fence slotName batch.finalTransaction.finalPosition,tables.filterMap id⟩

structure CloudberryTransactionSink where
  fence : PipelineFence
  slotName : String
  registry : TableBindingRegistry
  scope : DdlScope
  deriving DecidableEq, Repr

def CloudberryTransactionSink.new (fence : PipelineFence) (slotName : String) (registry : TableBindingRegistry)
    (scope : DdlScope) : Except AdapterConfigError CloudberryTransactionSink :=
  if slotName = "" ∨ '\x00' ∈ slotName.toList then .error .invalidSlotName else .ok ⟨fence,slotName,registry,scope⟩

def CloudberryTransactionSink.apply (equal : Operators) (sink : CloudberryTransactionSink)
    (target : TargetStore.Target) (batch : TransactionBatch) : Except PipelineError TargetStore.Target := do
  let request ← buildApplyRequestScoped sink.fence sink.slotName sink.registry sink.scope batch
  let (_,target) ← (executeApply equal target request).mapError .target
  .ok target

end CloudberryEtl.Adapter
