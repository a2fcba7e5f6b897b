import CloudberryEtl.Replication
import CloudberryEtl.SortedLog

/-! Over every run of the replication loop, with failures, cancellations, crashes and restarts: the target reflects a
prefix of the source log, the checkpoint is its end, and the source is never told more than that. -/
namespace CloudberryEtl.Delivery
open Change StagedApply Checkpoint Result Wire Batch Adapter TargetStore Replication SortedLog
open Fencing hiding step

def Aligned (identity : SourceNodeIdentity) (sender : WalSender) (assembler : TransactionAssembler) : Prop :=
  assembler.identity = identity ∧
    match sender.inTransaction with
    | false => assembler.pending = none
    | true => ∃ entry rest pending, sender.remaining = entry :: rest ∧ assembler.pending = some pending ∧
        pending.xid = entry.xid

theorem bufferAligned {identity : SourceNodeIdentity} {sender : WalSender} {assembler assembler' : TransactionAssembler}
    {change} (inside : sender.inTransaction) (aligned : Aligned identity sender assembler)
    (ok : assembler.buffer change = .ok assembler') : Aligned identity sender assembler' := by
  obtain ⟨same,state⟩ := aligned
  rw [inside] at state
  obtain ⟨entry,rest,pending,remaining,opened,xid⟩ := state
  unfold TransactionAssembler.buffer at ok
  simp only [opened] at ok
  obtain ⟨_,_,ok⟩ := bindOk.mp ok
  split at ok
  · cases Except.ok.inj ok
    exact ⟨same,by rw [inside]; exact ⟨entry,rest,pending,remaining,opened,xid⟩⟩
  · obtain ⟨_,ok⟩ := iteOk.mp ok
    obtain ⟨_,ok⟩ := iteOk.mp ok
    cases Except.ok.inj ok
    exact ⟨same,by rw [inside]; exact ⟨entry,rest,_,remaining,rfl,xid⟩⟩

theorem acceptAligned {identity : SourceNodeIdentity} {sender : WalSender} {assembler assembler' : TransactionAssembler}
    {relation} (aligned : Aligned identity sender assembler) (ok : assembler.acceptRelation relation = .ok assembler') :
    Aligned identity sender assembler' := by
  unfold TransactionAssembler.acceptRelation at ok
  obtain ⟨_,ok⟩ := iteOk.mp ok
  split at ok
  · obtain ⟨_,ok⟩ := iteOk.mp ok
    cases Except.ok.inj ok
    exact aligned
  · cases Except.ok.inj ok
    exact aligned

theorem beginAligned {identity : SourceNodeIdentity} {entry rest} {assembler assembler' : TransactionAssembler}
    {finalLsn timestamp} (aligned : Aligned identity ⟨entry :: rest,false⟩ assembler)
    (ok : assembler.begin' finalLsn timestamp entry.xid = .ok assembler') :
    Aligned identity ⟨entry :: rest,true⟩ assembler' := by
  unfold TransactionAssembler.begin' at ok
  obtain ⟨_,ok⟩ := iteOk.mp ok
  split at ok
  · obtain ⟨_,ok⟩ := iteOk.mp ok
    cases Except.ok.inj ok
    exact ⟨aligned.1,entry,rest,_,rfl,rfl,rfl⟩
  · cases Except.ok.inj ok
    exact ⟨aligned.1,entry,rest,_,rfl,rfl,rfl⟩

theorem commitAligned {identity : SourceNodeIdentity} {entry rest} {assembler assembler' : TransactionAssembler}
    {commitLsn timestamp flags committed} (aligned : Aligned identity ⟨entry :: rest,true⟩ assembler)
    (ok : assembler.commit commitLsn entry.endLsn timestamp flags = .ok (committed,assembler')) :
    Aligned identity ⟨rest,false⟩ assembler' ∧ committed.transaction.xid = entry.xid ∧
      committed.transaction.finalPosition = identity.position entry.endLsn := by
  obtain ⟨same,entry',rest',pending,remaining,opened,xid⟩ := aligned
  cases remaining
  unfold TransactionAssembler.commit at ok
  obtain ⟨_,ok⟩ := iteOk.mp ok
  obtain ⟨_,ok⟩ := iteOk.mp ok
  obtain ⟨_,_,ok⟩ := bindOk.mp ok
  simp only [opened] at ok
  obtain ⟨_,ok⟩ := iteOk.mp ok
  obtain ⟨_,ok⟩ := iteOk.mp ok
  cases Except.ok.inj ok
  exact ⟨⟨same,rfl⟩,xid,by rw [same]⟩

theorem pushAligned {identity : SourceNodeIdentity} {sender sender' : WalSender} {assembler assembler' : TransactionAssembler}
    {message event} (aligned : Aligned identity sender assembler) (sent : sender.send message = some sender')
    (ok : assembler.push message = .ok (event,assembler')) :
    Aligned identity sender' assembler' ∧
    ((∃ committed entry, event = some (.transaction committed) ∧ sender.remaining = entry :: sender'.remaining ∧
        committed.transaction.xid = entry.xid ∧
        committed.transaction.finalPosition = identity.position entry.endLsn) ∨
      ((∀ committed, event ≠ some (.transaction committed)) ∧ sender'.remaining = sender.remaining)) := by
  have inside : ∀ change, message.toTransactionChange = some change → sender.send message = some sender' →
      (do .ok (none,← assembler.buffer change) : Except Refusal (Option AssembledEvent × TransactionAssembler)) =
        .ok (event,assembler') → sender.inTransaction → sender' = sender →
      Aligned identity sender' assembler' ∧ ((∀ committed, event ≠ some (.transaction committed)) ∧
        sender'.remaining = sender.remaining) := by
    intro change _ _ ok opened same
    obtain ⟨buffered,bufferOk,ok⟩ := bindOk.mp ok
    cases Except.ok.inj ok
    subst same
    exact ⟨bufferAligned opened aligned bufferOk,by simp,rfl⟩
  have body : (if sender.inTransaction then some sender else none) = some sender' →
      sender.inTransaction ∧ sender' = sender := by
    intro h
    split at h <;> try contradiction
    exact ⟨by assumption,(Option.some.inj h).symm⟩
  cases message with
  | keepalive walEnd timestamp reply =>
    cases Option.some.inj sent
    cases Except.ok.inj ok
    exact ⟨aligned,.inr ⟨by simp,rfl⟩⟩
  | begin' finalLsn timestamp xid =>
    obtain ⟨opened,beginOk,ok⟩ := bindOk.mp ok
    cases Except.ok.inj ok
    simp only [WalSender.send] at sent
    split at sent <;> try contradiction
    split at sent <;> try contradiction
    rename_i matching
    cases Option.some.inj sent
    rw [matching.2.2] at beginOk
    exact ⟨beginAligned aligned beginOk,.inr ⟨by simp,rfl⟩⟩
  | commit commitLsn endLsn timestamp flags =>
    obtain ⟨⟨committed,closed⟩,commitOk,ok⟩ := bindOk.mp ok
    cases Except.ok.inj ok
    simp only [WalSender.send] at sent
    split at sent <;> try contradiction
    rename_i entry rest
    split at sent <;> try contradiction
    rename_i matching
    cases Option.some.inj sent
    rw [matching.2.1] at commitOk
    obtain ⟨aligned,xid,position⟩ := commitAligned aligned commitOk
    exact ⟨aligned,.inl ⟨committed,entry,rfl,rfl,xid,position⟩⟩
  | relation event =>
    obtain ⟨accepted,acceptOk,ok⟩ := bindOk.mp ok
    cases Except.ok.inj ok
    obtain ⟨_,rfl⟩ := body sent
    exact ⟨acceptAligned aligned acceptOk,.inr ⟨by simp,rfl⟩⟩
  | type event =>
    cases Except.ok.inj ok
    obtain ⟨_,rfl⟩ := body sent
    exact ⟨aligned,.inr ⟨by simp,rfl⟩⟩
  | insert relationId generation new =>
    obtain ⟨opened,same⟩ := body sent
    exact (inside _ rfl sent ok opened same).imp_right .inr
  | update relationId generation oldKey new =>
    obtain ⟨opened,same⟩ := body sent
    exact (inside _ rfl sent ok opened same).imp_right .inr
  | delete relationId generation oldKey =>
    obtain ⟨opened,same⟩ := body sent
    exact (inside _ rfl sent ok opened same).imp_right .inr
  | truncate relationIds options =>
    obtain ⟨opened,same⟩ := body sent
    exact (inside _ rfl sent ok opened same).imp_right .inr
  | ddl message =>
    obtain ⟨opened,same⟩ := body sent
    exact (inside _ rfl sent ok opened same).imp_right .inr

inductive Consumes (identity : SourceNodeIdentity) (durable : PgLsn) :
    List SourceCommit → List SourceCommit → Received → Prop where
  | transaction {entry rest transaction} (xid : transaction.xid = entry.xid)
      (position : transaction.finalPosition = identity.position entry.endLsn) :
      Consumes identity durable (entry :: rest) rest (.transaction transaction)
  | status {remaining} : Consumes identity durable remaining remaining (.status durable)
  | nothing {remaining} : Consumes identity durable remaining remaining .nothing

theorem receiveAligned {identity : SourceNodeIdentity} {sender sender' : WalSender} {source source' : PgOutputTransactionSource}
    {message received} (aligned : Aligned identity sender source.assembler) (sent : sender.send message = some sender')
    (ok : source.receive message = .ok (received,source')) :
    Aligned identity sender' source'.assembler ∧ source'.durableAppliedLsn = source.durableAppliedLsn ∧
      Consumes identity source.durableAppliedLsn sender.remaining sender'.remaining received := by
  obtain ⟨⟨event,assembler⟩,pushed,ok⟩ := bindOk.mp ok
  obtain ⟨aligned',effect⟩ := pushAligned aligned sent (mapErrorOk.mp pushed)
  simp only at ok
  split at ok
  · rename_i committed
    cases Except.ok.inj ok
    rcases effect with ⟨other,entry,same,remaining,xid,position⟩ | ⟨none',_⟩
    · cases same
      refine ⟨aligned',rfl,?_⟩
      rw [remaining]
      exact .transaction xid position
    · exact absurd rfl (none' committed)
  · rename_i reply
    rcases effect with ⟨_,_,same,_⟩ | ⟨_,remaining⟩
    · cases same
    · cases Except.ok.inj ok
      refine ⟨aligned',rfl,?_⟩
      rw [remaining]
      cases reply
      · exact .nothing
      · exact .status
  · rcases effect with ⟨_,_,same,_⟩ | ⟨_,remaining⟩
    · cases same
    · cases Except.ok.inj ok
      refine ⟨aligned',rfl,?_⟩
      rw [remaining]
      exact .nothing

theorem flushSource {batcher : Batcher} {batch batcher'} (flushed : batcher.flush = (some batch,batcher')) :
    batch.transactions = batcher.pending ∧ batcher'.pending = [] := by
  unfold Batcher.flush at flushed
  split at flushed
  · simp only [Batcher.takePending,Prod.mk.injEq,Option.some.injEq] at flushed
    obtain ⟨rfl,rfl⟩ := flushed
    exact ⟨rfl,rfl⟩
  · cases flushed

theorem pushSource {batcher : Batcher} {transaction full batcher'} (ok : batcher.push transaction = .ok (full,batcher')) :
    (full.elim [] TransactionBatch.transactions) ++ batcher'.pending = batcher.pending ++ [transaction] := by
  obtain ⟨_,_,ok⟩ := bindOk.mp ok
  split at ok
  · cases flushed : batcher.flush with
    | mk full emptied =>
      simp only [flushed] at ok
      cases Except.ok.inj ok
      cases full with
      | none =>
        unfold Batcher.flush at flushed
        split at flushed <;> cases flushed
        rfl
      | some batch =>
        obtain ⟨same,empty⟩ := flushSource flushed
        simp [Batcher.append,same,empty]
  · cases Except.ok.inj ok
    rfl

theorem applyCheckpoint {equal : Operators} {job : Job} {target target' : Target} {batch : TransactionBatch}
    (position : batch.finalTransaction.finalPosition.nodeId = job.identity.nodeId)
    (ok : job.sink.apply equal target batch = .ok target') :
    checkpointLsn job target' = some batch.finalTransaction.finalPosition.lsn := by
  obtain ⟨request,built,ok⟩ := bindOk.mp ok
  obtain ⟨⟨_,_⟩,executed,ok⟩ := bindOk.mp ok
  cases Except.ok.inj ok
  obtain ⟨_,_,built⟩ := bindOk.mp built
  obtain ⟨_,_,built⟩ := bindOk.mp built
  cases Except.ok.inj built
  obtain ⟨_,_,executed⟩ := bindOk.mp (mapErrorOk.mp executed)
  obtain ⟨_,_,executed⟩ := bindOk.mp executed
  obtain ⟨_,_,executed⟩ := bindOk.mp executed
  obtain ⟨⟨_,checkpoints⟩,advanced,executed⟩ := bindOk.mp executed
  cases Except.ok.inj executed
  have written := advanceWritten (mapErrorOk.mp advanced)
  have key : (batchCheckpoint job.sink.fence job.sink.slotName batch.finalTransaction.finalPosition).key =
      job.checkpointKey := by
    simp [batchCheckpoint,Job.checkpointKey,position]
  simp only [key] at written
  rw [checkpointLsn,written]
  rfl

def lsnOf (transaction : SourceTransaction) : PgLsn := transaction.finalPosition.lsn

def mark (transaction : SourceTransaction) : Nat × PgLsn := (transaction.xid,lsnOf transaction)

def commitMark (entry : SourceCommit) : Nat × PgLsn := (entry.xid,entry.endLsn)

def unapplied (run : Run) : List SourceTransaction :=
  (match run.stage with
    | .applying batch _ => batch.transactions
    | _ => []) ++ run.batcher.pending

def Known (initial : PgLsn) (reflected : List SourceTransaction) (lsn : PgLsn) : Prop :=
  lsn = initial ∨ lsn ∈ reflected.map lsnOf

structure RunInvariant (log : List SourceCommit) (job : Job) (checkpoint : PgLsn) (reflected : List SourceTransaction)
    (run : Run) : Prop where
  aligned : Aligned job.identity run.sender run.source.assembler
  queued : (unapplied run).map mark ++ run.sender.remaining.map commitMark = (behind SourceCommit.endLsn log checkpoint).map commitMark
  nodes : ∀ transaction ∈ unapplied run, transaction.finalPosition.nodeId = job.identity.nodeId
  durable : run.source.durableAppliedLsn ≤ checkpoint
  durableKnown : Known run.start reflected run.source.durableAppliedLsn
  applied : ∀ batch last, run.stage = .applied batch last →
    lsnOf batch.finalTransaction = checkpoint ∧ checkpoint ∈ reflected.map lsnOf
  sorted : run.reports.Pairwise (· ≤ ·)
  reported : ∀ lsn ∈ run.reports, lsn ≤ run.source.durableAppliedLsn ∧ Known run.start reflected lsn

structure Invariant (log : List SourceCommit) (job : Job) (initial : PgLsn) (system : System) (checkpoint : PgLsn) : Prop where
  stored : checkpointLsn job system.target = some checkpoint
  start : initial ≤ checkpoint
  reflected : system.reflected.map mark = (between SourceCommit.endLsn log initial checkpoint).map commitMark
  last : checkpoint = ((system.reflected.map lsnOf).getLast?).getD initial
  reported : ∀ lsn ∈ system.reports, lsn ≤ checkpoint ∧ Known initial system.reflected lsn
  run : ∀ run, system.run = some run → RunInvariant log job checkpoint system.reflected run ∧
    run.start ≤ checkpoint ∧ Known initial system.reflected run.start

section Steps
variable {log : List SourceCommit} {job : Job} {initial checkpoint : PgLsn} {system : System} {run : Run}

theorem stopKeeps (holds : Invariant log job initial system checkpoint) :
    Invariant log job initial system.stop checkpoint :=
  ⟨holds.stored,holds.start,holds.reflected,holds.last,holds.reported,by simp [System.stop]⟩

theorem withRunKeeps {run' : Run} (holds : Invariant log job initial system checkpoint) (known : system.run = some run)
    (same : run'.start = run.start) (next : RunInvariant log job checkpoint system.reflected run') :
    Invariant log job initial (system.withRun run') checkpoint := by
  refine ⟨holds.stored,holds.start,holds.reflected,holds.last,holds.reported,fun other found => ?_⟩
  cases Option.some.inj found
  rw [same]
  exact ⟨next,(holds.run run known).2⟩

theorem knownFrom (holds : Invariant log job initial system checkpoint) (known : system.run = some run) {lsn}
    (source : Known run.start system.reflected lsn) : Known initial system.reflected lsn := by
  rcases source with rfl | mem
  · exact (holds.run run known).2.2
  · exact .inr mem

theorem reportKeeps (run' : Run) {sent : Bool} (holds : Invariant log job initial system checkpoint)
    (known : system.run = some run) (same : run'.start = run.start)
    (next : RunInvariant log job checkpoint system.reflected run') :
    Invariant log job initial (system.report run' run'.source.durableAppliedLsn sent) checkpoint := by
  have reportedAll : ∀ lsn ∈ system.reports ++ [run'.source.durableAppliedLsn],
      lsn ≤ checkpoint ∧ Known initial system.reflected lsn := by
    intro lsn mem
    rcases List.mem_append.mp mem with mem | mem
    · exact holds.reported lsn mem
    · rw [List.mem_singleton.mp mem]
      exact ⟨next.durable,knownFrom holds known (same ▸ next.durableKnown)⟩
  have reported : Invariant log job initial
      {system with reports := system.reports ++ [run'.source.durableAppliedLsn]} checkpoint :=
    ⟨holds.stored,holds.start,holds.reflected,holds.last,reportedAll,holds.run⟩
  unfold System.report
  split
  · refine withRunKeeps reported known same ⟨next.aligned,next.queued,next.nodes,next.durable,next.durableKnown,
      next.applied,?_,fun lsn mem => ?_⟩
    · refine List.pairwise_append.mpr ⟨next.sorted,by simp,fun lsn mem last here => ?_⟩
      rw [List.mem_singleton.mp here]
      exact (next.reported lsn mem).1
    · rcases List.mem_append.mp mem with mem | mem
      · exact next.reported lsn mem
      · rw [List.mem_singleton.mp mem]
        exact ⟨Nat.le_refl _,next.durableKnown⟩
  · exact stopKeeps reported

theorem RunInvariant.moved {run' : Run} {reflected : List SourceTransaction}
    (before : RunInvariant log job checkpoint reflected run) (durable : run'.source.durableAppliedLsn = run.source.durableAppliedLsn)
    (start : run'.start = run.start) (reports : run'.reports = run.reports)
    (aligned : Aligned job.identity run'.sender run'.source.assembler)
    (queued : (unapplied run').map mark ++ run'.sender.remaining.map commitMark =
      (behind SourceCommit.endLsn log checkpoint).map commitMark)
    (nodes : ∀ transaction ∈ unapplied run', transaction.finalPosition.nodeId = job.identity.nodeId)
    (applied : ∀ batch last, run'.stage ≠ .applied batch last) : RunInvariant log job checkpoint reflected run' where
  aligned := aligned
  queued := queued
  nodes := nodes
  durable := durable ▸ before.durable
  durableKnown := by rw [durable,start]; exact before.durableKnown
  applied batch last stage := absurd stage (applied batch last)
  sorted := reports ▸ before.sorted
  reported := by rw [reports,durable,start]; exact before.reported

theorem deliverKeeps {sender message sent} (holds : Invariant log job initial system checkpoint)
    (known : system.run = some run) (stage : run.stage = .receiving) (sends : run.sender.send message = some sender) :
    Invariant log job initial (deliver system run sender message sent) checkpoint := by
  have before := (holds.run run known).1
  have pending : unapplied run = run.batcher.pending := by simp [unapplied,stage]
  have queued := before.queued
  have nodes := before.nodes
  rw [pending] at queued nodes
  unfold deliver
  cases received : run.source.receive message with
  | error _ => exact stopKeeps holds
  | ok result =>
    obtain ⟨event,source⟩ := result
    obtain ⟨aligned,durable,consumes⟩ := receiveAligned before.aligned sends received
    generalize rest : sender.remaining = remaining at consumes
    generalize all : run.sender.remaining = entries at consumes
    cases consumes with
    | nothing =>
      refine withRunKeeps holds known rfl (before.moved durable rfl rfl aligned ?_ ?_ (by simp [stage]))
      · simpa [unapplied,stage,rest,all] using queued
      · simpa [unapplied,stage] using nodes
    | status =>
      simp only
      rw [← durable]
      refine reportKeeps {run with sender := sender, source := source} holds known rfl
        (before.moved durable rfl rfl aligned ?_ ?_ (by simp [stage]))
      · simpa [unapplied,stage,rest,all] using queued
      · simpa [unapplied,stage] using nodes
    | transaction xid position =>
      rename_i entry transaction
      have sameMark : mark transaction = commitMark entry := by
        simp [mark,lsnOf,commitMark,xid,position,SourceNodeIdentity.position]
      have node : transaction.finalPosition.nodeId = job.identity.nodeId := by
        simp [position,SourceNodeIdentity.position]
      simp only
      cases pushed : run.batcher.push transaction with
      | error _ => exact stopKeeps holds
      | ok result =>
        obtain ⟨full,batcher⟩ := result
        have order := pushSource pushed
        have queuedNow : (full.elim [] TransactionBatch.transactions ++ batcher.pending).map mark ++
            remaining.map commitMark = (behind SourceCommit.endLsn log checkpoint).map commitMark := by
          rw [order,← queued,all]
          simp [sameMark]
        have nodesNow : ∀ other ∈ full.elim [] TransactionBatch.transactions ++ batcher.pending,
            other.finalPosition.nodeId = job.identity.nodeId := by
          intro other mem
          rw [order] at mem
          rcases List.mem_append.mp mem with mem | mem
          · exact nodes other mem
          · rw [List.mem_singleton.mp mem]
            exact node
        cases full with
        | none =>
          refine withRunKeeps holds known rfl (before.moved durable rfl rfl aligned ?_ ?_ (by simp [stage]))
          · simpa [unapplied,stage,rest] using queuedNow
          · simpa [unapplied,stage] using nodesNow
        | some batch =>
          refine withRunKeeps holds known rfl (before.moved durable rfl rfl aligned ?_ ?_ (by simp))
          · simpa [unapplied,rest] using queuedNow
          · simpa [unapplied] using nodesNow

theorem flushKeeps {batch batcher last} (holds : Invariant log job initial system checkpoint)
    (known : system.run = some run) (stage : run.stage = .receiving) (flushed : run.batcher.flush = (some batch,batcher)) :
    Invariant log job initial (system.withRun {run with batcher := batcher, stage := .applying batch last}) checkpoint := by
  have before := (holds.run run known).1
  obtain ⟨same,empty⟩ := flushSource flushed
  refine withRunKeeps holds known rfl (before.moved rfl rfl rfl before.aligned ?_ ?_ (by simp))
  · simpa [unapplied,stage,same,empty] using before.queued
  · simpa [unapplied,stage,same,empty] using before.nodes

theorem acknowledgeKeeps {batch last sent} (holds : Invariant log job initial system checkpoint)
    (known : system.run = some run) (stage : run.stage = .applied batch last) :
    Invariant log job initial (acknowledge system run batch last sent) checkpoint := by
  have before := (holds.run run known).1
  obtain ⟨position,reached⟩ := before.applied batch last stage
  unfold acknowledge
  cases accepted : run.source.acknowledge batch.finalTransaction.finalPosition with
  | error _ => exact stopKeeps holds
  | ok source =>
    obtain ⟨_,valid,ok⟩ := bindOk.mp accepted
    cases Except.ok.inj ok
    unfold PgOutputTransactionSource.validateAcknowledgement at valid
    simp only at valid
    obtain ⟨_,valid⟩ := iteOk.mp valid
    obtain ⟨forward,_⟩ := iteOk.mp valid
    have sameLsn : batch.finalTransaction.finalPosition.lsn = checkpoint := position
    refine reportKeeps {run with
      source := {run.source with
        durableAppliedLsn := batch.finalTransaction.finalPosition.lsn
        deliveredCommits := run.source.deliveredCommits.dropWhile
          (fun lsn => lsn ≤ batch.finalTransaction.finalPosition.lsn)}
      stage := .receiving} holds known rfl
      ⟨before.aligned,?_,?_,Nat.le_of_eq sameLsn,.inr (sameLsn ▸ reached),by simp,before.sorted,fun lsn mem => ?_⟩
    · simpa [unapplied,stage] using before.queued
    · simpa [unapplied,stage] using before.nodes
    · obtain ⟨low,source⟩ := before.reported lsn mem
      exact ⟨Nat.le_trans low (Nat.le_of_not_lt forward),source⟩

theorem coveredBatch {batch : TransactionBatch} {rest : List (Nat × PgLsn)} (increasing : Increasing SourceCommit.endLsn log)
    (queued : batch.transactions.map mark ++ rest = (behind SourceCommit.endLsn log checkpoint).map commitMark) :
    ∃ first later, behind SourceCommit.endLsn log checkpoint = first ++ later ∧
      first.map commitMark = batch.transactions.map mark ∧ later.map commitMark = rest ∧
      checkpoint ≤ lsnOf batch.finalTransaction ∧
      (∀ entry ∈ first, entry.endLsn ≤ lsnOf batch.finalTransaction) ∧
      ∀ entry ∈ later, lsnOf batch.finalTransaction < entry.endLsn := by
  obtain ⟨first,later,cut,sameFirst,sameLater⟩ := List.map_eq_append_iff.mp queued.symm
  have filled : first ≠ [] := by
    rintro rfl
    exact batch.filled (List.map_eq_nil_iff.mp sameFirst.symm)
  have last : (first.getLast filled).endLsn = lsnOf batch.finalTransaction := by
    have marks : commitMark (first.getLast filled) = mark batch.finalTransaction := by
      have front := List.getLast_map (f := commitMark) (l := first) (by simpa using filled)
      have back := List.getLast_map (f := mark) (l := batch.transactions) (by simpa using batch.filled)
      rw [TransactionBatch.finalTransaction,← front,← back]
      simp only [sameFirst]
    exact congrArg Prod.snd marks
  have sorted : (first ++ later).Pairwise (fun left right => left.endLsn < right.endLsn) := by
    rw [← cut]
    exact List.Pairwise.sublist List.filter_sublist increasing
  obtain ⟨sortedFirst,_,across⟩ := List.pairwise_append.mp sorted
  refine ⟨first,later,cut,sameFirst,sameLater,?_,fun entry mem => ?_,fun entry mem => ?_⟩
  · have member : first.getLast filled ∈ behind SourceCommit.endLsn log checkpoint := by
      rw [cut]
      exact List.mem_append_left _ (List.getLast_mem filled)
    have above : checkpoint < (first.getLast filled).endLsn := by simpa [behind] using (List.mem_filter.mp member).2
    rw [← last]
    exact Nat.le_of_lt above
  · rw [← last]
    obtain ⟨front,back⟩ : ∃ front, first = front ++ [first.getLast filled] :=
      ⟨first.dropLast,(List.dropLast_append_getLast filled).symm⟩
    rw [back] at mem sortedFirst
    rcases List.mem_append.mp mem with mem | mem
    · exact Nat.le_of_lt ((List.pairwise_append.mp sortedFirst).2.2 entry mem _ (by simp))
    · rw [List.mem_singleton.mp mem]
  · rw [← last]
    exact across _ (List.getLast_mem filled) entry mem

theorem applyKeeps {equal : Operators} {batch last} (increasing : Increasing SourceCommit.endLsn log)
    (holds : Invariant log job initial system checkpoint) (known : system.run = some run)
    (stage : run.stage = .applying batch last) :
    ∃ later, Invariant log job initial (applyBatch job equal system run batch last) later := by
  have before := (holds.run run known).1
  obtain ⟨starts,startKnown⟩ := (holds.run run known).2
  unfold applyBatch
  cases committed : job.sink.apply equal system.target batch with
  | error _ => exact ⟨checkpoint,stopKeeps holds⟩
  | ok target =>
    have queued := before.queued
    have nodes := before.nodes
    simp only [unapplied,stage,List.map_append,List.append_assoc] at queued nodes
    obtain ⟨first,later,cut,sameFirst,sameLater,forward,upTo,above⟩ := coveredBatch increasing queued
    obtain ⟨reflectedNow,behindNow⟩ := cutBehind increasing holds.start cut upTo above forward
    have final : batch.finalTransaction ∈ batch.transactions := List.getLast_mem batch.filled
    have stored := applyCheckpoint (nodes batch.finalTransaction (List.mem_append_left _ final)) committed
    have grows : ∀ {start lsn}, Known start system.reflected lsn → Known start (system.reflected ++ batch.transactions) lsn := by
      rintro start lsn (same | mem)
      · exact .inl same
      · exact .inr (by rw [List.map_append]; exact List.mem_append_left _ mem)
    have covered : lsnOf batch.finalTransaction ∈ (system.reflected ++ batch.transactions).map lsnOf :=
      List.mem_map_of_mem (List.mem_append_right _ final)
    refine ⟨lsnOf batch.finalTransaction,stored,Nat.le_trans holds.start forward,?_,?_,fun lsn mem => ?_,fun other found => ?_⟩
    · simp only [List.map_append,holds.reflected,reflectedNow,sameFirst]
    · have lastLsn : ((system.reflected ++ batch.transactions).map lsnOf).getLast? =
          some (lsnOf batch.finalTransaction) := by
        rw [List.map_append,List.getLast?_append_of_ne_nil _ (by simpa using batch.filled),
          List.getLast?_eq_some_getLast (by simpa using batch.filled),List.getLast_map]
        rfl
      rw [lastLsn]
      rfl
    · obtain ⟨low,source⟩ := holds.reported lsn mem
      exact ⟨Nat.le_trans low forward,grows source⟩
    · cases Option.some.inj found
      refine ⟨⟨before.aligned,?_,fun transaction mem => ?_,Nat.le_trans before.durable forward,grows before.durableKnown,
        fun other last' same => ?_,before.sorted,fun lsn mem => ?_⟩,Nat.le_trans starts forward,grows startKnown⟩
      · simp only [unapplied,behindNow,sameLater,List.nil_append]
      · exact nodes transaction (List.mem_append_right _ (by simpa [unapplied] using mem))
      · cases same
        exact ⟨rfl,covered⟩
      · obtain ⟨low,source⟩ := before.reported lsn mem
        exact ⟨low,grows source⟩

theorem startKeeps (holds : Invariant log job initial system checkpoint) :
    Invariant log job initial {system with run := startRun log job checkpoint} checkpoint := by
  refine ⟨holds.stored,holds.start,holds.reflected,holds.last,holds.reported,fun run found => ?_⟩
  simp only [startRun,bind,Option.bind_eq_some_iff,toOptionSome,Option.some.injEq] at found
  obtain ⟨assembler,created,batcher,batcherOk,rfl⟩ := found
  obtain ⟨_,created⟩ := iteOk.mp created
  obtain ⟨_,batcherOk⟩ := iteOk.mp batcherOk
  cases Except.ok.inj created
  cases Except.ok.inj batcherOk
  refine ⟨⟨⟨rfl,rfl⟩,rfl,by simp [unapplied],Nat.le_refl _,.inl rfl,by simp,.nil,by simp⟩,Nat.le_refl _,?_⟩
  -- the stored checkpoint is the initial one or the end of the last applied transaction
  have last := holds.last
  cases tail : (system.reflected.map lsnOf).getLast? with
  | none =>
    rw [tail] at last
    exact .inl last
  | some lsn =>
    rw [tail] at last
    exact .inr (last ▸ List.mem_of_getLast? tail)

theorem stepKeeps (equal : Operators) (event : Event) (increasing : Increasing SourceCommit.endLsn log)
    (holds : Invariant log job initial system checkpoint) :
    ∃ later, Invariant log job initial (step log job equal system event) later := by
  unfold step
  cases known : system.run with
  | none =>
    simp only [holds.stored]
    cases event with
    | start => exact ⟨checkpoint,startKeeps holds⟩
    | _ => exact ⟨checkpoint,holds⟩
  | some run =>
    simp only
    cases event with
    | start => exact ⟨checkpoint,holds⟩
    | cancel => exact ⟨checkpoint,stopKeeps holds⟩
    | crash => exact ⟨checkpoint,stopKeeps holds⟩
    | deliver message sent =>
      cases stage : run.stage with
      | receiving =>
        simp only
        cases sends : run.sender.send message with
        | none => exact ⟨checkpoint,holds⟩
        | some sender => exact ⟨checkpoint,deliverKeeps holds known stage sends⟩
      | _ => exact ⟨checkpoint,holds⟩
    | streamEnd =>
      cases stage : run.stage with
      | receiving =>
        simp only [streamEnd]
        split
        · exact ⟨checkpoint,stopKeeps holds⟩
        · exact ⟨checkpoint,stopKeeps holds⟩
        · rename_i flushed
          exact ⟨checkpoint,flushKeeps holds known stage flushed⟩
      | _ => exact ⟨checkpoint,holds⟩
    | streamError =>
      cases run.stage with
      | receiving => exact ⟨checkpoint,stopKeeps holds⟩
      | _ => exact ⟨checkpoint,holds⟩
    | timer =>
      cases stage : run.stage with
      | receiving =>
        simp only [timer]
        split
        · exact ⟨checkpoint,holds⟩
        · rename_i flushed
          exact ⟨checkpoint,flushKeeps holds known stage flushed⟩
      | _ => exact ⟨checkpoint,holds⟩
    | apply commits =>
      cases stage : run.stage with
      | applying batch last =>
        cases commits with
        | true => exact applyKeeps increasing holds known stage
        | false => exact ⟨checkpoint,stopKeeps holds⟩
      | _ => exact ⟨checkpoint,holds⟩
    | acknowledge sent =>
      cases stage : run.stage with
      | applied batch last => exact ⟨checkpoint,acknowledgeKeeps holds known stage⟩
      | _ => exact ⟨checkpoint,holds⟩

theorem stepsKeep (equal : Operators) (increasing : Increasing SourceCommit.endLsn log)
    (events : List Event) :
    ∀ {system checkpoint}, Invariant log job initial system checkpoint →
    ∃ later, Invariant log job initial (steps log job equal system events) later := by
  induction events with
  | nil => exact fun holds => ⟨_,holds⟩
  | cons event events ih =>
    intro system checkpoint holds
    obtain ⟨middle,holds⟩ := stepKeeps equal event increasing holds
    exact ih holds

def Latest (system : System) : Prop :=
  ∀ run, system.run = some run → run.source.durableAppliedLsn = run.reports.getLast?.getD run.start

theorem withRunLatest {run' : Run} (latest : run'.source.durableAppliedLsn = run'.reports.getLast?.getD run'.start) :
    Latest (system.withRun run') := by
  intro run found
  cases Option.some.inj found
  exact latest

theorem reportLatest {run' : Run} {lsn sent} (same : lsn = run'.source.durableAppliedLsn) :
    Latest (system.report run' lsn sent) := by
  unfold System.report
  split
  · exact withRunLatest (by simp [same])
  · simp [Latest,System.stop]

theorem receiveDurable {source source' : PgOutputTransactionSource} {message received}
    (ok : source.receive message = .ok (received,source')) :
    source'.durableAppliedLsn = source.durableAppliedLsn ∧
      ∀ lsn, received = .status lsn → lsn = source.durableAppliedLsn := by
  obtain ⟨⟨event,assembler⟩,_,ok⟩ := bindOk.mp ok
  simp only at ok
  split at ok
  · cases Except.ok.inj ok
    exact ⟨rfl,by simp⟩
  · rename_i _ _ reply _
    cases Except.ok.inj ok
    refine ⟨rfl,fun lsn same => ?_⟩
    cases reply with
    | false => cases same
    | true => exact (Received.status.inj same).symm
  · cases Except.ok.inj ok
    exact ⟨rfl,by simp⟩

theorem deliverLatest {sender message sent} (latest : run.source.durableAppliedLsn = run.reports.getLast?.getD run.start) :
    Latest (deliver system run sender message sent) := by
  unfold deliver
  cases received : run.source.receive message with
  | error _ => simp [Latest,System.stop]
  | ok result =>
    obtain ⟨event,source⟩ := result
    obtain ⟨durable,status⟩ := receiveDurable received
    have kept : source.durableAppliedLsn = run.reports.getLast?.getD run.start := durable.trans latest
    cases event with
    | nothing => exact withRunLatest kept
    | status lsn => exact reportLatest ((status lsn rfl).trans durable.symm)
    | transaction transaction =>
      simp only
      cases run.batcher.push transaction with
      | error _ => simp [Latest,System.stop]
      | ok pushed =>
        obtain ⟨full,batcher⟩ := pushed
        cases full <;> exact withRunLatest kept

theorem stepLatest {equal : Operators} {event} (latest : Latest system) :
    Latest (step log job equal system event) := by
  have stopped : Latest system.stop := by simp [Latest,System.stop]
  unfold step
  cases known : system.run with
  | none =>
    simp only
    split
    · intro run found
      simp only [startRun,bind,Option.bind_eq_some_iff,Option.some.injEq] at found
      obtain ⟨_,_,_,_,rfl⟩ := found
      rfl
    · exact latest
  | some run =>
    have here := latest run known
    simp only
    split
    · split
      · exact latest
      · exact deliverLatest here
    · unfold streamEnd
      split
      · exact stopped
      · exact stopped
      · exact withRunLatest here
    · exact stopped
    · unfold timer
      split
      · exact latest
      · exact withRunLatest here
    · split
      · unfold applyBatch
        split
        · exact stopped
        · intro run' found
          cases Option.some.inj found
          exact here
      · exact stopped
    · unfold acknowledge
      split
      · exact stopped
      · exact reportLatest rfl
    · exact stopped
    · exact stopped
    · exact latest

theorem stepsLatest {equal : Operators} (events : List Event) : ∀ {system}, Latest system →
    Latest (steps log job equal system events) := by
  induction events with
  | nil => exact fun latest => latest
  | cons event events ih => exact fun latest => ih (stepLatest latest)

theorem reportRepeats (system : System) (run : Run) (lsn : PgLsn) (sent : Bool) :
    (system.report run lsn sent).target = system.target ∧ (system.report run lsn sent).reflected = system.reflected ∧
      ∀ reported ∈ (system.report run lsn sent).reports, reported ∈ system.reports ∨ reported = lsn := by
  cases sent with
  | false => exact ⟨rfl,rfl,fun _ mem => (List.mem_append.mp mem).imp_right List.mem_singleton.mp⟩
  | true => exact ⟨rfl,rfl,fun _ mem => (List.mem_append.mp mem).imp_right List.mem_singleton.mp⟩

theorem keepaliveReports {equal : Operators} {walEnd timestamp reply sent} :
    let next := step log job equal system (.deliver (.keepalive walEnd timestamp reply) sent)
    next.target = system.target ∧ next.reflected = system.reflected ∧
    ∀ lsn ∈ next.reports, lsn ∈ system.reports ∨ ∃ run, system.run = some run ∧ lsn = run.source.durableAppliedLsn := by
  unfold step
  cases known : system.run with
  | none => exact ⟨rfl,rfl,fun lsn mem => .inl mem⟩
  | some run =>
    simp only
    cases run.stage with
    | receiving =>
      have answer : run.source.receive (.keepalive walEnd timestamp reply) =
          .ok (if reply then .status run.source.durableAppliedLsn else .nothing,run.source) := rfl
      simp only [WalSender.send,deliver,answer]
      cases reply with
      | false => exact ⟨rfl,rfl,fun lsn mem => .inl mem⟩
      | true =>
        obtain ⟨target,reflected,reports⟩ := reportRepeats system run run.source.durableAppliedLsn sent
        exact ⟨target,reflected,fun lsn mem => (reports lsn mem).imp_right fun same => ⟨run,rfl,same⟩⟩
    | _ => exact ⟨rfl,rfl,fun lsn mem => .inl mem⟩

theorem beginsInvariant {target : Target} (stored : checkpointLsn job target = some initial) :
    Invariant log job initial ⟨target,[],[],none⟩ initial := by
  have nothing : between SourceCommit.endLsn log initial initial = [] := by
    refine List.filter_eq_nil_iff.mpr fun entry _ => ?_
    simp only [decide_eq_true_eq,not_and,Nat.not_le]
    exact fun above => above
  exact ⟨stored,Nat.le_refl _,by simp [nothing],rfl,by simp,by simp⟩

/-- Over every interleaving of messages, timers, applies, acknowledgements, cancellations, crashes and restarts: the
target reflects exactly the transactions up to its checkpoint, once and in order, and no reported position is ahead of
it. -/
theorem deliversOnceAndReportsBehind {equal : Operators} {target : Target}
    (increasing : Increasing SourceCommit.endLsn log) (stored : checkpointLsn job target = some initial)
    (events : List Event) :
    let system := steps log job equal ⟨target,[],[],none⟩ events
    ∃ checkpoint, checkpointLsn job system.target = some checkpoint ∧
      (∀ lsn ∈ system.reports, lsn ≤ checkpoint ∧ (lsn = initial ∨ lsn ∈ system.reflected.map lsnOf)) ∧
      (∀ run, system.run = some run → run.reports.Pairwise (· ≤ ·) ∧
        ∀ lsn ∈ run.reports, lsn = run.start ∨ lsn ∈ system.reflected.map lsnOf) ∧
      (∀ walEnd timestamp reply sent, ∀ lsn ∈
        (step log job equal system (.deliver (.keepalive walEnd timestamp reply) sent)).reports, lsn ∈ system.reports ∨
          ∃ run, system.run = some run ∧ lsn = run.reports.getLast?.getD run.start) ∧
      checkpoint = ((system.reflected.map lsnOf).getLast?).getD initial ∧
      system.reflected.map mark = (between SourceCommit.endLsn log initial checkpoint).map commitMark := by
  obtain ⟨checkpoint,holds⟩ := stepsKeep equal increasing events (beginsInvariant stored)
  have latest : Latest (steps log job equal ⟨target,[],[],none⟩ events) := stepsLatest events (by simp [Latest])
  refine ⟨checkpoint,holds.stored,holds.reported,fun run known => ?_,fun walEnd timestamp reply sent lsn mem => ?_,
    holds.last,holds.reflected⟩
  · have here := (holds.run run known).1
    exact ⟨here.sorted,fun lsn mem => (here.reported lsn mem).2⟩
  · rcases keepaliveReports.2.2 lsn mem with mem | ⟨run,known,same⟩
    · exact .inl mem
    · exact .inr ⟨run,known,same.trans (latest run known)⟩

end Steps

section Sample

def sampleLog : List SourceCommit := [⟨700,90,100,5⟩,⟨701,190,200,6⟩]

def sampleJob : Job :=
  ⟨⟨⟨7,1,3⟩,"pg2cb_slot",⟨[]⟩,⟨none,[]⟩⟩,⟨0,42,1⟩,⟨1000,1000000⟩,⟨10,1000000,1⟩⟩

def sampleTarget : Target :=
  ⟨⟨fun _ => some ⟨1,3⟩,fun _ => some ⟨⟨⟨7,1,0⟩,42,1,"pg2cb_slot",50⟩,3⟩⟩,
    ⟨fun _ => none,1,fun _ => none,[],fun _ => none,[],[],[],[]⟩⟩

def sampleEvents : List Event :=
  [.start,.deliver (.begin' 90 5 700) true,.deliver (.commit 90 100 5 0) true,.timer,.apply true,.acknowledge true,
    .deliver (.begin' 190 6 701) true,.crash,.start,.deliver (.keepalive 500 7 true) true,
    .deliver (.begin' 190 6 701) true,.deliver (.commit 190 200 6 0) true,.timer,.apply true]

theorem deliversSampleLog :
    let system := steps sampleLog sampleJob (fun _ => (· == ·)) ⟨sampleTarget,[],[],none⟩ sampleEvents
    (system.reports = [100,100] ∧ system.reflected.map lsnOf = [100,200]) ∧
    ∃ checkpoint, checkpointLsn sampleJob system.target = some checkpoint ∧
      (∀ lsn ∈ system.reports, lsn ≤ checkpoint ∧ (lsn = 50 ∨ lsn ∈ system.reflected.map lsnOf)) ∧
      checkpoint = ((system.reflected.map lsnOf).getLast?).getD 50 ∧
      system.reflected.map mark = (between SourceCommit.endLsn sampleLog 50 checkpoint).map commitMark := by
  have increasing : Increasing SourceCommit.endLsn sampleLog := by decide
  have start : checkpointLsn sampleJob sampleTarget = some 50 := rfl
  obtain ⟨checkpoint,stored,reported,_,_,last,reflected⟩ := deliversOnceAndReportsBehind increasing start sampleEvents
  exact ⟨by decide +kernel,checkpoint,stored,reported,last,reflected⟩

end Sample

end CloudberryEtl.Delivery
