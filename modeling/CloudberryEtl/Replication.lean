import CloudberryEtl.Adapter

/-! The replication loop of `engine::pipeline` over the source of `adapters::pgoutput` and the sink of
`adapters::cloudberry`, as steps of one owner that may be cut at every await and started again from the checkpoint the
target holds. -/
namespace CloudberryEtl.Replication
open Change StagedApply Checkpoint Result Wire Batch Fencing Adapter TargetStore

structure PgOutputTransactionSource where
  assembler : TransactionAssembler
  durableAppliedLsn : PgLsn
  deliveredCommits : List PgLsn

inductive Received where
  | transaction (transaction : SourceTransaction)
  | status (lsn : PgLsn) -- a keepalive that asks for a reply
  | nothing
  deriving DecidableEq, Repr

namespace PgOutputTransactionSource

def receive (source : PgOutputTransactionSource) (message : DecodedMessage) :
    Except PipelineError (Received × PgOutputTransactionSource) := do
  let (event,assembler) ← (source.assembler.push message).mapError (fun refusal => .source refusal.1)
  match event with
  | some (.transaction committed) =>
    let lsn := committed.transaction.finalPosition.lsn
    .ok (.transaction committed.transaction,
      {source with assembler := assembler, deliveredCommits := source.deliveredCommits ++ [lsn]})
  | some (.keepalive _ _ replyRequested) =>
    .ok (if replyRequested then .status source.durableAppliedLsn else .nothing,{source with assembler := assembler})
  | none => .ok (.nothing,{source with assembler := assembler})

def validateAcknowledgement (source : PgOutputTransactionSource) (position : SourcePosition) : Except PipelineError Unit :=
  let identity := source.assembler.identity
  if position.nodeId ≠ identity.nodeId ∨ position.systemIdentifier ≠ identity.systemIdentifier ∨
      position.timeline ≠ identity.timeline then .error .acknowledge
  else if position.lsn < source.durableAppliedLsn then .error .acknowledge
  else if position.lsn ∉ source.deliveredCommits then .error .acknowledge
  else .ok ()

def acknowledge (source : PgOutputTransactionSource) (position : SourcePosition) :
    Except PipelineError PgOutputTransactionSource := do
  source.validateAcknowledgement position
  .ok {source with
    durableAppliedLsn := position.lsn
    deliveredCommits := source.deliveredCommits.dropWhile (fun lsn => lsn ≤ position.lsn)}

end PgOutputTransactionSource

structure SourceCommit where
  xid : Nat
  commitLsn : PgLsn
  endLsn : PgLsn
  commitTime : Int
  deriving DecidableEq, Repr

structure WalSender where
  remaining : List SourceCommit
  inTransaction : Bool
  deriving DecidableEq, Repr

/- The messages the walsender can send next. A keepalive stands anywhere; the events inside a transaction are any. -/
def WalSender.send (sender : WalSender) : DecodedMessage → Option WalSender
  | .keepalive _ _ _ => some sender
  | .begin' finalLsn timestamp xid =>
    match sender with
    | ⟨entry :: rest,false⟩ =>
      if finalLsn = entry.commitLsn ∧ timestamp = entry.commitTime ∧ xid = entry.xid then some ⟨entry :: rest,true⟩
      else none
    | _ => none
  | .commit commitLsn endLsn timestamp flags =>
    match sender with
    | ⟨entry :: rest,true⟩ =>
      if commitLsn = entry.commitLsn ∧ endLsn = entry.endLsn ∧ timestamp = entry.commitTime ∧ flags = 0 then
        some ⟨rest,false⟩
      else none
    | _ => none
  | _ => if sender.inTransaction then some sender else none

/- Where the loop stands: in its select, inside an apply, or between the commit of a batch and its acknowledgement.
`last` marks the batch that is flushed when the stream has ended. -/
inductive Stage where
  | receiving
  | applying (batch : TransactionBatch) (last : Bool)
  | applied (batch : TransactionBatch) (last : Bool)
  deriving DecidableEq, Repr

structure Run where
  start : PgLsn
  sender : WalSender
  source : PgOutputTransactionSource
  batcher : Batcher
  stage : Stage
  reports : List PgLsn

structure Job where
  sink : CloudberryTransactionSink
  identity : SourceNodeIdentity
  transactionLimits : TransactionLimits
  batchLimits : BatchLimits
  deriving DecidableEq, Repr

/- `reflected` and `reports` are histories: the transactions of the committed batches in the order of the commits, and
the flush positions sent to the source in all runs. -/
structure System where
  target : Target
  reflected : List SourceTransaction
  reports : List PgLsn
  run : Option Run

inductive Event where
  | start
  | deliver (message : DecodedMessage) (sent : Bool)
  | streamEnd
  | streamError
  | timer
  | apply (commits : Bool)
  | acknowledge (sent : Bool)
  | cancel
  | crash
  deriving DecidableEq, Repr

def Job.checkpointKey (job : Job) : CheckpointKey :=
  ⟨job.sink.fence.pipelineId,job.sink.fence.topologyGeneration,job.identity.nodeId⟩

def checkpointLsn (job : Job) (target : Target) : Option PgLsn :=
  (target.checkpoints.nodeCheckpoints job.checkpointKey).map (fun stored => stored.checkpoint.appliedLsn)

def System.stop (system : System) : System := {system with run := none}

def System.withRun (system : System) (run : Run) : System := {system with run := some run}

-- A status update; a failed one may still have reached the source.
def System.report (system : System) (run : Run) (lsn : PgLsn) (sent : Bool) : System :=
  let reported := {system with reports := system.reports ++ [lsn]}
  if sent then reported.withRun {run with reports := run.reports ++ [lsn]} else reported.stop

def streamFrom (log : List SourceCommit) (lsn : PgLsn) : WalSender := ⟨log.filter (fun entry => lsn < entry.endLsn),false⟩

def startRun (log : List SourceCommit) (job : Job) (lsn : PgLsn) : Option Run := do
  let assembler ← (TransactionAssembler.withLimits job.identity job.transactionLimits).toOption
  let batcher ← (Batcher.new job.batchLimits).toOption
  some ⟨lsn,streamFrom log lsn,⟨assembler,lsn,[]⟩,batcher,.receiving,[]⟩

def deliver (system : System) (run : Run) (sender : WalSender) (message : DecodedMessage) (sent : Bool) : System :=
  match run.source.receive message with
  | .error _ => system.stop
  | .ok (.nothing,source) => system.withRun {run with sender := sender, source := source}
  | .ok (.status lsn,source) => system.report {run with sender := sender, source := source} lsn sent
  | .ok (.transaction transaction,source) =>
    match run.batcher.push transaction with
    | .error _ => system.stop
    | .ok (none,batcher) => system.withRun {run with sender := sender, source := source, batcher := batcher}
    | .ok (some batch,batcher) =>
      system.withRun {run with sender := sender, source := source, batcher := batcher, stage := .applying batch false}

def streamEnd (system : System) (run : Run) : System :=
  match run.source.assembler.finish,run.batcher.flush with
  | .error _,_ => system.stop
  | .ok (),(none,_) => system.stop
  | .ok (),(some batch,batcher) => system.withRun {run with batcher := batcher, stage := .applying batch true}

def timer (system : System) (run : Run) : System :=
  match run.batcher.flush with
  | (none,_) => system
  | (some batch,batcher) => system.withRun {run with batcher := batcher, stage := .applying batch false}

def acknowledge (system : System) (run : Run) (batch : TransactionBatch) (last sent : Bool) : System :=
  match run.source.acknowledge batch.finalTransaction.finalPosition with
  | .error _ => system.stop
  | .ok source =>
    system.report {run with source := source, stage := .receiving} source.durableAppliedLsn (sent && !last)

section Steps
variable (log : List SourceCommit) (job : Job) (equal : Operators)

def applyBatch (system : System) (run : Run) (batch : TransactionBatch) (last : Bool) : System :=
  match job.sink.apply equal system.target batch with
  | .error _ => system.stop
  | .ok target => ⟨target,system.reflected ++ batch.transactions,system.reports,some {run with stage := .applied batch last}⟩

def step (system : System) (event : Event) : System :=
  match system.run with
  | none =>
    match event,checkpointLsn job system.target with
    | .start,some lsn => {system with run := startRun log job lsn}
    | _,_ => system
  | some run =>
    match event,run.stage with
    | .deliver message sent,.receiving =>
      match run.sender.send message with
      | none => system
      | some sender => deliver system run sender message sent
    | .streamEnd,.receiving => streamEnd system run
    | .streamError,.receiving => system.stop
    | .timer,.receiving => timer system run
    | .apply commits,.applying batch last => if commits then applyBatch job equal system run batch last else system.stop
    | .acknowledge sent,.applied batch last => acknowledge system run batch last sent
    | .cancel,_ => system.stop
    | .crash,_ => system.stop
    | _,_ => system

def steps (system : System) (events : List Event) : System := events.foldl (step log job equal) system

end Steps

end CloudberryEtl.Replication
