import CloudberryEtl.Batch
import CloudberryEtl.Result

/-! Runs of the batcher: any calls of `push` and `flush`, the transactions they take and the batches they return. What
is pending and what was returned keep one description, so that it holds after every call. -/
namespace CloudberryEtl.Batching
open Change Result Wire Batch

-- `push(&mut self)` with the state it leaves: `?` returns before anything is written.
def pushInPlace (batcher : Batcher) (transaction : SourceTransaction) :
    Except BatchError (Option TransactionBatch) × Batcher :=
  match batcher.validateOrder transaction with
  | .error error => (.error error,batcher)
  | .ok () =>
    let (full,emptied) := if batcher.mustFlush transaction then batcher.flush else (none,batcher)
    (.ok full,emptied.append transaction)

theorem pushInPlaceOk {batcher transaction full next} (ok : pushInPlace batcher transaction = (.ok full,next)) :
    batcher.push transaction = .ok (full,next) := by
  unfold pushInPlace at ok
  cases valid : batcher.validateOrder transaction with
  | error error => simp [valid] at ok
  | ok _ => cases kept : batcher.mustFlush transaction <;> simp_all [Batcher.push,bind,Except.bind]

theorem pushInPlaceError {batcher transaction error next} (failed : pushInPlace batcher transaction = (.error error,next)) :
    next = batcher := by
  unfold pushInPlace at failed
  split at failed
  · exact (Prod.mk.inj failed).2.symm
  · simp at failed

inductive Call where
  | push (transaction : SourceTransaction)
  | flush
  deriving DecidableEq, Repr

/- `emitted` and `accepted` are histories: what the calls have returned and what they have taken. -/
structure Run where
  batcher : Batcher
  emitted : List TransactionBatch
  accepted : List SourceTransaction
  deriving DecidableEq, Repr

def step (run : Run) : Call → Run
  | .push transaction =>
    match pushInPlace run.batcher transaction with
    | (.ok full,batcher) => ⟨batcher,run.emitted ++ full.toList,run.accepted ++ [transaction]⟩
    | (.error _,batcher) => {run with batcher := batcher}
  | .flush =>
    let (batch,batcher) := run.batcher.flush
    ⟨batcher,run.emitted ++ batch.toList,run.accepted⟩

def steps (batcher : Batcher) (calls : List Call) : Run := calls.foldl step ⟨batcher,[],[]⟩

def sameNode (a b : SourceTransaction) : Prop :=
  a.finalPosition.nodeId = b.finalPosition.nodeId ∧ a.finalPosition.systemIdentifier = b.finalPosition.systemIdentifier

structure Collected (limits : BatchLimits) (transactions : List SourceTransaction) (rowCount estimatedBytes : Nat) :
    Prop where
  rows : rowCount = min (transactions.map transactionRowCount).sum usizeMax
  bytes : estimatedBytes = min (transactions.map transactionEstimatedBytes).sum usizeMax
  bounded : transactions.length ≤ 1 ∨
    (rowCount ≤ limits.maxRows ∧ estimatedBytes ≤ limits.maxBytes ∧ transactions.length ≤ limits.maxRows)
  barrier : ∀ transaction ∈ transactions.tail, hasBarrier transaction = false
  node : ∀ a ∈ transactions, ∀ b ∈ transactions, sameNode a b
  ordered : transactions.Pairwise (fun a b => a.finalPosition.lsn ≤ b.finalPosition.lsn)

structure Sound (limits : BatchLimits) (run : Run) : Prop where
  same : run.batcher.limits = limits
  pending : Collected limits run.batcher.pending run.batcher.pendingRows run.batcher.pendingBytes
  identity : ∀ transaction ∈ run.batcher.pending,
    run.batcher.nodeIdentity = some (transaction.finalPosition.nodeId,transaction.finalPosition.systemIdentifier)
  batches : ∀ batch ∈ run.emitted, Collected limits batch.transactions batch.rowCount batch.estimatedBytes
  conserved : run.emitted.flatMap TransactionBatch.transactions ++ run.batcher.pending = run.accepted

theorem collectedNil (limits : BatchLimits) : Collected limits [] 0 0 :=
  ⟨by simp,by simp,.inl (by simp),by simp,by simp,.nil⟩

theorem saturatingSum (before next : Nat) :
    saturatingAdd (min before usizeMax) next = min (before + next) usizeMax := by
  unfold saturatingAdd
  omega

theorem validateNodeSource {batcher : Batcher} {position : SourcePosition} (ok : batcher.validateNode position = .ok ())
    {nodeId systemIdentifier} (known : batcher.nodeIdentity = some (nodeId,systemIdentifier)) :
    nodeId = position.nodeId ∧ systemIdentifier = position.systemIdentifier := by
  simp only [Batcher.validateNode,known] at ok
  obtain ⟨node,ok⟩ := iteOk.mp ok
  obtain ⟨system,_⟩ := iteOk.mp ok
  exact ⟨not_not.mp node,not_not.mp system⟩

theorem validateOrderSource {batcher : Batcher} {transaction} (ok : batcher.validateOrder transaction = .ok ()) :
    batcher.validateNode transaction.finalPosition = .ok () ∧
      ∀ previous, batcher.pending.getLast? = some previous →
        previous.finalPosition.lsn ≤ transaction.finalPosition.lsn := by
  obtain ⟨_,node,ok⟩ := bindOk.mp ok
  refine ⟨node,?_⟩
  intro previous last
  simp only [last] at ok
  exact Nat.not_lt.mp (iteOk.mp ok).1

theorem mustFlushNot {batcher : Batcher} {transaction} (kept : batcher.mustFlush transaction = false) :
    hasBarrier transaction = false ∧
      saturatingAdd batcher.pendingRows (transactionRowCount transaction) ≤ batcher.limits.maxRows ∧
      saturatingAdd batcher.pendingBytes (transactionEstimatedBytes transaction) ≤ batcher.limits.maxBytes ∧
      batcher.pending.length < batcher.limits.maxRows := by
  simp only [Batcher.mustFlush,Bool.or_eq_false_iff,decide_eq_false_iff_not] at kept
  obtain ⟨⟨⟨barrier,rows⟩,bytes⟩,count⟩ := kept
  exact ⟨barrier,by omega,by omega,by omega⟩

theorem lastOrdered {transactions : List SourceTransaction} {lsn : PgLsn}
    (ordered : transactions.Pairwise (fun a b => a.finalPosition.lsn ≤ b.finalPosition.lsn))
    (last : ∀ previous, transactions.getLast? = some previous → previous.finalPosition.lsn ≤ lsn) :
    ∀ transaction ∈ transactions, transaction.finalPosition.lsn ≤ lsn := by
  induction transactions using List.reverseRecOn with
  | nil => simp
  | append_singleton earlier final _ =>
    have bound := last final (by simp)
    intro transaction mem
    rcases List.mem_append.mp mem with before | here
    · exact Nat.le_trans ((List.pairwise_append.mp ordered).2.2 transaction before final (by simp)) bound
    · exact List.mem_singleton.mp here ▸ bound

theorem appendCollected {limits : BatchLimits} {batcher : Batcher} {transaction : SourceTransaction}
    (pending : Collected limits batcher.pending batcher.pendingRows batcher.pendingBytes)
    (fits : batcher.pending = [] ∨ (batcher.limits = limits ∧ batcher.mustFlush transaction = false))
    (node : ∀ other ∈ batcher.pending, sameNode other transaction)
    (order : ∀ other ∈ batcher.pending, other.finalPosition.lsn ≤ transaction.finalPosition.lsn) :
    Collected limits (batcher.append transaction).pending (batcher.append transaction).pendingRows
      (batcher.append transaction).pendingBytes := by
  refine ⟨?_,?_,?_,?_,?_,?_⟩
  · simp only [Batcher.append,pending.rows,saturatingSum,List.map_append,List.sum_append,List.map_cons,List.map_nil,
      List.sum_singleton]
  · simp only [Batcher.append,pending.bytes,saturatingSum,List.map_append,List.sum_append,List.map_cons,List.map_nil,
      List.sum_singleton]
  · rcases fits with empty | ⟨same,kept⟩
    · exact .inl (by simp [Batcher.append,empty])
    · obtain ⟨_,rows,bytes,count⟩ := mustFlushNot kept
      rw [same] at rows bytes count
      refine .inr ⟨rows,bytes,?_⟩
      simp only [Batcher.append,List.length_append,List.length_singleton]
      omega
  · intro other mem
    rcases fits with empty | ⟨_,kept⟩
    · simp [Batcher.append,empty] at mem
    · cases held : batcher.pending with
      | nil => simp [Batcher.append,held] at mem
      | cons first rest =>
        rw [Batcher.append,held,List.cons_append,List.tail_cons,List.mem_append,List.mem_singleton] at mem
        rcases mem with before | here
        · exact pending.barrier other (by rw [held]; exact before)
        · rw [here]
          exact (mustFlushNot kept).1
  · intro a memA b memB
    rcases List.mem_append.mp memA with beforeA | hereA
    · rcases List.mem_append.mp memB with beforeB | hereB
      · exact pending.node a beforeA b beforeB
      · rw [List.mem_singleton.mp hereB]
        exact node a beforeA
    · rw [List.mem_singleton.mp hereA]
      rcases List.mem_append.mp memB with beforeB | hereB
      · exact ⟨(node b beforeB).1.symm,(node b beforeB).2.symm⟩
      · rw [List.mem_singleton.mp hereB]
        exact ⟨rfl,rfl⟩
  · exact List.pairwise_append.mpr ⟨pending.ordered,List.pairwise_singleton _ _,
      fun other mem last here => List.mem_singleton.mp here ▸ order other mem⟩

section Steps
variable {limits : BatchLimits} {run : Run} (sound : Sound limits run)
include sound

theorem flushSound {batch batcher} (flushed : run.batcher.flush = (batch,batcher)) :
    batcher.pending = [] ∧ Sound limits ⟨batcher,run.emitted ++ batch.toList,run.accepted⟩ := by
  unfold Batcher.flush at flushed
  split at flushed
  · obtain ⟨rfl,rfl⟩ := Prod.mk.inj flushed
    refine ⟨rfl,sound.same,collectedNil limits,by simp,?_,?_⟩
    · intro batch mem
      rcases List.mem_append.mp mem with before | here
      · exact sound.batches batch before
      · rw [Option.toList_some,List.mem_singleton] at here
        rw [here]
        exact sound.pending
    · simp [← sound.conserved]
  · rename_i empty
    obtain ⟨rfl,rfl⟩ := Prod.mk.inj flushed
    exact ⟨not_not.mp empty,sound.same,sound.pending,sound.identity,by simpa using sound.batches,
      by simpa using sound.conserved⟩

theorem appendSound {transaction}
    (fits : run.batcher.pending = [] ∨ run.batcher.mustFlush transaction = false)
    (node : ∀ other ∈ run.batcher.pending, sameNode other transaction)
    (order : ∀ other ∈ run.batcher.pending, other.finalPosition.lsn ≤ transaction.finalPosition.lsn) :
    Sound limits ⟨run.batcher.append transaction,run.emitted,run.accepted ++ [transaction]⟩ := by
  refine ⟨sound.same,appendCollected sound.pending (fits.imp_right fun kept => ⟨sound.same,kept⟩) node order,?_,
    sound.batches,?_⟩
  · intro other mem
    rcases List.mem_append.mp mem with before | here
    · obtain ⟨sameId,sameSystem⟩ := node other before
      simp only [Batcher.append,sameId,sameSystem]
    · rw [List.mem_singleton.mp here]
      rfl
  · simp only [Batcher.append,← List.append_assoc,sound.conserved]

theorem pushSound {transaction full batcher} (ok : run.batcher.push transaction = .ok (full,batcher)) :
    Sound limits ⟨batcher,run.emitted ++ full.toList,run.accepted ++ [transaction]⟩ := by
  obtain ⟨_,valid,ok⟩ := bindOk.mp ok
  obtain ⟨node,order⟩ := validateOrderSource valid
  split at ok
  · -- the pending transactions leave first, so the new one stands alone
    obtain ⟨rfl,rfl⟩ := Prod.mk.inj (Except.ok.inj ok)
    obtain ⟨empty,flushed⟩ := @flushSound _ _ sound run.batcher.flush.1 run.batcher.flush.2 rfl
    exact appendSound flushed (.inl empty) (by simp [empty]) (by simp [empty])
  · rename_i kept
    obtain ⟨rfl,rfl⟩ := Prod.mk.inj (Except.ok.inj ok)
    rw [Option.toList_none,List.append_nil]
    refine appendSound sound (.inr (by simpa using kept)) ?_ (lastOrdered sound.pending.ordered order)
    intro other mem
    exact validateNodeSource node (sound.identity other mem)

theorem stepSound (call : Call) : Sound limits (step run call) := by
  cases call with
  | push transaction =>
    simp only [step]
    split
    · rename_i full batcher pushed
      exact pushSound sound (pushInPlaceOk pushed)
    · rename_i error batcher failed
      rw [pushInPlaceError failed]
      exact sound
  | flush => exact (@flushSound _ _ sound run.batcher.flush.1 run.batcher.flush.2 rfl).2

end Steps

theorem stepsSound {limits start} (valid : Batcher.new limits = .ok start) (calls : List Call) :
    Sound limits (steps start calls) := by
  have fresh : Sound limits ⟨start,[],[]⟩ := by
    cases Except.ok.inj (iteOk.mp valid).2
    exact ⟨rfl,collectedNil limits,by simp,by simp,rfl⟩
  unfold steps
  generalize (⟨start,[],[]⟩ : Run) = run at fresh
  induction calls generalizing run with
  | nil => exact fresh
  | cons call calls ih => exact ih (step run call) (stepSound fresh call)

/-- After any calls: the returned batches followed by what is pending are the accepted transactions in order; every
batch and the pending transactions carry the sums of their parts and stay within the limits or are a single transaction,
a barrier transaction comes first, the node is one and the positions do not fall; a rejected push changes nothing. -/
theorem conservesWithinLimits {limits start} (valid : Batcher.new limits = .ok start) (calls : List Call) :
    let run := steps start calls
    run.emitted.flatMap TransactionBatch.transactions ++ run.batcher.pending = run.accepted ∧
      (∀ batch ∈ run.emitted, batch.transactions ≠ [] ∧
        Collected limits batch.transactions batch.rowCount batch.estimatedBytes) ∧
      Collected limits run.batcher.pending run.batcher.pendingRows run.batcher.pendingBytes ∧
      ∀ transaction error next, pushInPlace run.batcher transaction = (.error error,next) → next = run.batcher := by
  intro run
  have sound := stepsSound valid calls
  exact ⟨sound.conserved,fun batch mem => ⟨batch.filled,sound.batches batch mem⟩,sound.pending,
    fun _ _ _ failed => pushInPlaceError failed⟩

section Sample

def sampleTransaction (lsn : PgLsn) (changes : List TransactionChange) : SourceTransaction :=
  ⟨7,0,⟨0,42,1,lsn⟩,changes⟩

def sampleRow : TransactionChange := .row ⟨16385,1,.insert ⟨[.text [49]]⟩⟩

def sampleCalls : List Call := [
  .push (sampleTransaction 10 [sampleRow]),
  .push (sampleTransaction 20 [.truncate [16385] false false]),
  .push (sampleTransaction 15 [sampleRow]),
  .push (sampleTransaction 30 [sampleRow,sampleRow]),
  .flush]

/-- A barrier closes the batch before it, a position that falls is refused, and the rest leaves with the flush. -/
theorem conservesBarrier :
    (steps ⟨⟨2,64,1⟩,[],0,0,none⟩ sampleCalls).emitted.map (fun batch => batch.transactions.map SourceTransaction.finalPosition)
      = [[⟨0,42,1,10⟩],[⟨0,42,1,20⟩,⟨0,42,1,30⟩]] ∧
    ∀ batch ∈ (steps ⟨⟨2,64,1⟩,[],0,0,none⟩ sampleCalls).emitted,
      Collected ⟨2,64,1⟩ batch.transactions batch.rowCount batch.estimatedBytes := by
  have run := @conservesWithinLimits ⟨2,64,1⟩ ⟨⟨2,64,1⟩,[],0,0,none⟩ (by decide) sampleCalls
  exact ⟨by decide,fun batch mem => (run.2.1 batch mem).2⟩

end Sample

end CloudberryEtl.Batching
