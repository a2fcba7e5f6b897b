import CloudberryEtl.Delivery

/-! The acknowledgements of `engine::pipeline` over any message stream that the assembler accepts and any flushes of
the batcher: what `delivered_commits` holds, and when an applied batch is acknowledged. -/
namespace CloudberryEtl.Acknowledgement
open Change Result Wire Batch Adapter Replication Delivery

inductive Mark where
  | delivered (lsn : PgLsn)
  | acknowledged (lsn : PgLsn)
  deriving DecidableEq, Repr

inductive Point where
  | receiving
  | applying (batch : TransactionBatch) (last : Bool)
  | applied (batch : TransactionBatch) (last : Bool)
  | ended
  deriving DecidableEq, Repr

/- `trace` is a history: the end positions that `next_transaction` returned and those that were acknowledged. -/
structure Loop where
  source : PgOutputTransactionSource
  batcher : Batcher
  point : Point
  trace : List Mark

def Loop.stop (loop : Loop) : Loop := {loop with point := .ended}

def initial (assembler : TransactionAssembler) (start : PgLsn) (batcher : Batcher) : Loop :=
  ⟨⟨assembler,start,[]⟩,batcher,.receiving,[]⟩

def deliver (loop : Loop) (message : DecodedMessage) (sent : Bool) : Loop :=
  match loop.source.receive message with
  | .error _ => loop.stop
  | .ok (.nothing,source) => {loop with source := source}
  | .ok (.status _,source) => {loop with source := source, point := if sent then .receiving else .ended}
  | .ok (.transaction transaction,source) =>
    let trace := loop.trace ++ [.delivered (lsnOf transaction)]
    match loop.batcher.push transaction with
    | .error _ => ⟨source,loop.batcher,.ended,trace⟩
    | .ok (none,batcher) => ⟨source,batcher,.receiving,trace⟩
    | .ok (some batch,batcher) => ⟨source,batcher,.applying batch false,trace⟩

def flush (loop : Loop) (last : Bool) : Loop :=
  match loop.batcher.flush with
  | (none,_) => if last then loop.stop else loop
  | (some batch,batcher) => {loop with batcher := batcher, point := .applying batch last}

-- The queue is popped before the status update, which may fail.
def acknowledge (loop : Loop) (batch : TransactionBatch) (last sent : Bool) : Loop :=
  match loop.source.acknowledge batch.finalTransaction.finalPosition with
  | .error _ => loop.stop
  | .ok source =>
    {loop with
      source := source
      point := if sent && !last then .receiving else .ended
      trace := loop.trace ++ [.acknowledged (lsnOf batch.finalTransaction)]}

def step (loop : Loop) (event : Event) : Loop :=
  match event,loop.point with
  | .deliver message sent,.receiving => deliver loop message sent
  | .streamError,.receiving => loop.stop
  | .streamEnd,.receiving =>
    match loop.source.assembler.finish with
    | .error _ => loop.stop
    | .ok () => flush loop true
  | .timer,.receiving => flush loop false
  | .apply commits,.applying batch last => if commits then {loop with point := .applied batch last} else loop.stop
  | .acknowledge sent,.applied batch last => acknowledge loop batch last sent
  | .cancel,_ => loop.stop
  | .crash,_ => loop.stop
  | _,_ => loop

def steps (loop : Loop) (events : List Event) : Loop := events.foldl step loop

def covers (lsn : PgLsn) : Mark → Bool
  | .acknowledged position => lsn ≤ position
  | .delivered _ => false

def uncovered : List Mark → List PgLsn
  | [] => []
  | .delivered lsn :: rest => if rest.any (covers lsn) then uncovered rest else lsn :: uncovered rest
  | .acknowledged _ :: rest => uncovered rest

/- One transaction is pending, which ends at the position of the last acknowledgement and was delivered before it, and
the step makes a batch of it alone: by the timer, at the end of the stream, or for a transaction that ends later. -/
def Stranded (loop : Loop) (event : Event) : Prop :=
  loop.point = .receiving ∧ ∃ transaction, loop.batcher.pending = [transaction] ∧
    loop.trace.getLast? = some (.acknowledged (lsnOf transaction)) ∧
    match event with
    | .timer => True
    | .streamEnd => loop.source.assembler.finish = .ok ()
    | .deliver message _ => ∃ next source batch batcher, loop.source.receive message = .ok (.transaction next,source) ∧
        loop.batcher.push next = .ok (some batch,batcher) ∧ lsnOf next ≠ lsnOf transaction
    | _ => False

def Clear : Loop → List Event → Prop
  | _,[] => True
  | loop,event :: events => ¬ Stranded loop event ∧ Clear (step loop event) events

def EndsFrom (start : PgLsn) (events : List Event) : Prop :=
  ∀ commitLsn endLsn timestamp flags sent, .deliver (.commit commitLsn endLsn timestamp flags) sent ∈ events → start ≤ endLsn

section Calls

structure Quiet (assembler assembler' : TransactionAssembler) : Prop where
  identity : assembler'.identity = assembler.identity
  last : assembler'.lastCommitLsn = assembler.lastCommitLsn

structure Commits (assembler assembler' : TransactionAssembler) (message : DecodedMessage)
    (transaction : SourceTransaction) : Prop where
  identity : assembler'.identity = assembler.identity
  commit : ∃ commitLsn timestamp flags, message = .commit commitLsn (lsnOf transaction) timestamp flags
  last : assembler'.lastCommitLsn = some (lsnOf transaction)
  position : transaction.finalPosition = assembler.identity.position (lsnOf transaction)
  ahead : ∀ previous, assembler.lastCommitLsn = some previous → previous ≤ lsnOf transaction

theorem relationQuiet {assembler assembler' : TransactionAssembler} {relation}
    (ok : assembler.acceptRelation relation = .ok assembler') : Quiet assembler assembler' := by
  unfold TransactionAssembler.acceptRelation at ok
  obtain ⟨_,ok⟩ := iteOk.mp ok
  split at ok
  · obtain ⟨_,ok⟩ := iteOk.mp ok
    cases Except.ok.inj ok
    exact ⟨rfl,rfl⟩
  · cases Except.ok.inj ok
    exact ⟨rfl,rfl⟩

theorem beginQuiet {assembler assembler' : TransactionAssembler} {finalLsn timestamp xid}
    (ok : assembler.begin' finalLsn timestamp xid = .ok assembler') : Quiet assembler assembler' := by
  unfold TransactionAssembler.begin' at ok
  obtain ⟨_,ok⟩ := iteOk.mp ok
  split at ok
  · obtain ⟨_,ok⟩ := iteOk.mp ok
    cases Except.ok.inj ok
    exact ⟨rfl,rfl⟩
  · cases Except.ok.inj ok
    exact ⟨rfl,rfl⟩

theorem bufferQuiet {assembler assembler' : TransactionAssembler} {change}
    (ok : assembler.buffer change = .ok assembler') : Quiet assembler assembler' := by
  unfold TransactionAssembler.buffer at ok
  split at ok
  · cases ok
  · obtain ⟨_,_,ok⟩ := bindOk.mp ok
    split at ok
    · cases Except.ok.inj ok
      exact ⟨rfl,rfl⟩
    · obtain ⟨_,ok⟩ := iteOk.mp ok
      obtain ⟨_,ok⟩ := iteOk.mp ok
      cases Except.ok.inj ok
      exact ⟨rfl,rfl⟩

theorem commitCommits {assembler assembler' : TransactionAssembler} {commitLsn endLsn timestamp flags committed}
    (ok : assembler.commit commitLsn endLsn timestamp flags = .ok (committed,assembler')) :
    Commits assembler assembler' (.commit commitLsn endLsn timestamp flags) committed.transaction := by
  unfold TransactionAssembler.commit at ok
  obtain ⟨_,ok⟩ := iteOk.mp ok
  obtain ⟨_,ok⟩ := iteOk.mp ok
  obtain ⟨_,behind,ok⟩ := bindOk.mp ok
  split at ok
  · cases ok
  · obtain ⟨_,ok⟩ := iteOk.mp ok
    obtain ⟨_,ok⟩ := iteOk.mp ok
    cases Except.ok.inj ok
    refine ⟨rfl,⟨commitLsn,timestamp,flags,rfl⟩,rfl,rfl,?_⟩
    intro previous last
    simp only [TransactionAssembler.behindLast,last] at behind
    obtain ⟨ahead,_⟩ := iteOk.mp behind
    exact not_lt.mp ahead

theorem pushEffect {assembler assembler' : TransactionAssembler} {message event}
    (ok : assembler.push message = .ok (event,assembler')) :
    (∃ committed, event = some (.transaction committed) ∧ Commits assembler assembler' message committed.transaction) ∨
      ((∀ committed, event ≠ some (.transaction committed)) ∧ Quiet assembler assembler') := by
  cases message with
  | keepalive walEnd timestamp reply =>
    cases Except.ok.inj ok
    exact .inr ⟨by simp,rfl,rfl⟩
  | relation relation =>
    obtain ⟨next,accepted,ok⟩ := bindOk.mp ok
    cases Except.ok.inj ok
    exact .inr ⟨by simp,relationQuiet accepted⟩
  | type event' =>
    cases Except.ok.inj ok
    exact .inr ⟨by simp,rfl,rfl⟩
  | begin' finalLsn timestamp xid =>
    obtain ⟨next,opened,ok⟩ := bindOk.mp ok
    cases Except.ok.inj ok
    exact .inr ⟨by simp,beginQuiet opened⟩
  | commit commitLsn endLsn timestamp flags =>
    obtain ⟨⟨committed,next⟩,closed,ok⟩ := bindOk.mp ok
    cases Except.ok.inj ok
    exact .inl ⟨committed,rfl,commitCommits closed⟩
  | _ =>
    obtain ⟨next,buffered,ok⟩ := bindOk.mp ok
    cases Except.ok.inj ok
    exact .inr ⟨by simp,bufferQuiet buffered⟩

theorem receiveEffect {source source' : PgOutputTransactionSource} {message received}
    (ok : source.receive message = .ok (received,source')) :
    source'.durableAppliedLsn = source.durableAppliedLsn ∧
    ((∃ transaction, received = .transaction transaction ∧
        Commits source.assembler source'.assembler message transaction ∧
        source'.deliveredCommits = source.deliveredCommits ++ [lsnOf transaction]) ∨
      ((∀ transaction, received ≠ .transaction transaction) ∧ Quiet source.assembler source'.assembler ∧
        source'.deliveredCommits = source.deliveredCommits)) := by
  obtain ⟨⟨event,assembler⟩,pushed,ok⟩ := bindOk.mp ok
  have effect := pushEffect (mapErrorOk.mp pushed)
  simp only at ok
  split at ok
  next committed =>
    cases Except.ok.inj ok
    rcases effect with commits | quiet
    · obtain ⟨other,same,commits⟩ := commits
      cases same
      exact ⟨rfl,.inl ⟨committed.transaction,rfl,commits,rfl⟩⟩
    · exact absurd rfl (quiet.1 committed)
  next reply =>
    cases Except.ok.inj ok
    rcases effect with commits | quiet
    · obtain ⟨_,same,_⟩ := commits
      cases same
    · exact ⟨rfl,.inr ⟨by cases reply <;> simp,quiet.2,rfl⟩⟩
  next =>
    cases Except.ok.inj ok
    rcases effect with commits | quiet
    · obtain ⟨_,same,_⟩ := commits
      cases same
    · exact ⟨rfl,.inr ⟨by simp,quiet.2,rfl⟩⟩

theorem pushCases {batcher batcher' : Batcher} {transaction full} (ok : batcher.push transaction = .ok (full,batcher')) :
    (full = none ∧ batcher'.pending = batcher.pending ++ [transaction]) ∨
    ∃ batch, full = some batch ∧ batch.transactions = batcher.pending ∧ batcher'.pending = [transaction] := by
  have together := pushSource ok
  cases full with
  | none => exact .inl ⟨rfl,by simpa using together⟩
  | some batch =>
    obtain ⟨_,_,ok⟩ := bindOk.mp ok
    split at ok
    · cases flushed : batcher.flush with
      | mk full emptied =>
        simp only [flushed] at ok
        cases Except.ok.inj ok
        obtain ⟨same,empty⟩ := flushSource flushed
        exact .inr ⟨batch,rfl,same,by simp [Batcher.append,empty]⟩
    · cases Except.ok.inj ok

end Calls

section Queue

theorem uncoveredDelivered (trace : List Mark) (lsn : PgLsn) :
    uncovered (trace ++ [.delivered lsn]) = uncovered trace ++ [lsn] := by
  induction trace with
  | nil => rfl
  | cons mark trace ih =>
    cases mark with
    | acknowledged position => simpa [uncovered] using ih
    | delivered earlier =>
      simp only [List.cons_append,uncovered,List.any_append,List.any_cons,List.any_nil,covers,Bool.or_false,ih]
      split <;> rfl

theorem uncoveredAcknowledged (trace : List Mark) (position : PgLsn) :
    uncovered (trace ++ [.acknowledged position]) = (uncovered trace).filter (fun lsn => position < lsn) := by
  induction trace with
  | nil => rfl
  | cons mark trace ih =>
    cases mark with
    | acknowledged earlier => simpa [uncovered] using ih
    | delivered lsn =>
      simp only [List.cons_append,uncovered,List.any_append,List.any_cons,List.any_nil,covers,Bool.or_false,ih,
        Bool.or_eq_true,decide_eq_true_eq]
      by_cases earlier : trace.any (covers lsn) = true
      · simp [earlier]
      · by_cases now : lsn ≤ position
        · simp [earlier,now]
        · simp [earlier,now,not_le.mp now]

theorem droppedSorted {queue : List PgLsn} (sorted : queue.Pairwise (· ≤ ·)) (position : PgLsn) :
    queue.dropWhile (fun lsn => lsn ≤ position) = queue.filter (fun lsn => position < lsn) := by
  induction queue with
  | nil => rfl
  | cons lsn queue ih =>
    obtain ⟨least,rest⟩ := List.pairwise_cons.mp sorted
    by_cases here : lsn ≤ position
    · simp [here,not_lt.mpr here,ih rest]
    · have all : ∀ other ∈ lsn :: queue, position < other := by
        intro other mem
        rcases List.mem_cons.mp mem with same | later
        · rw [same]
          exact not_le.mp here
        · exact lt_of_lt_of_le (not_le.mp here) (least other later)
      rw [List.filter_eq_self.mpr (by simpa using all)]
      simp [here]

end Queue

def frontier (start : PgLsn) (source : PgOutputTransactionSource) : PgLsn := source.assembler.lastCommitLsn.getD start

structure QueueKeeps (start : PgLsn) (source : PgOutputTransactionSource) (trace : List Mark) : Prop where
  queue : source.deliveredCommits = uncovered trace
  sorted : source.deliveredCommits.Pairwise (· ≤ ·)
  behind : ∀ lsn ∈ source.deliveredCommits, lsn ≤ frontier start source
  durable : source.durableAppliedLsn ≤ frontier start source

structure HeldKeeps (start : PgLsn) (source : PgOutputTransactionSource) (held : List SourceTransaction) : Prop where
  position : ∀ transaction ∈ held, transaction.finalPosition = source.assembler.identity.position (lsnOf transaction)
  ahead : ∀ transaction ∈ held, source.durableAppliedLsn ≤ lsnOf transaction
  behind : ∀ transaction ∈ held, lsnOf transaction ≤ frontier start source
  ordered : held.Pairwise (fun earlier later => lsnOf earlier ≤ lsnOf later)

def held (loop : Loop) : List SourceTransaction :=
  match loop.point with
  | .applying batch _ => batch.transactions ++ loop.batcher.pending
  | .applied batch _ => batch.transactions ++ loop.batcher.pending
  | _ => loop.batcher.pending

def Keeps (start : PgLsn) (loop : Loop) : Prop :=
  QueueKeeps start loop.source loop.trace ∧ HeldKeeps start loop.source (held loop)

section Keep
variable {start : PgLsn} {loop : Loop}

theorem HeldKeeps.sublist {source few many} (keeps : HeldKeeps start source many) (sub : List.Sublist few many) :
    HeldKeeps start source few :=
  ⟨fun transaction mem => keeps.position transaction (sub.subset mem),
    fun transaction mem => keeps.ahead transaction (sub.subset mem),
    fun transaction mem => keeps.behind transaction (sub.subset mem),keeps.ordered.sublist sub⟩

theorem pendingHeld (loop : Loop) : List.Sublist loop.batcher.pending (held loop) := by
  unfold held
  split
  next => exact List.sublist_append_right _ _
  next => exact List.sublist_append_right _ _
  next => exact List.Sublist.refl _

theorem stopKeeps (keeps : Keeps start loop) : Keeps start loop.stop :=
  ⟨keeps.1,keeps.2.sublist (pendingHeld loop)⟩

theorem quietKeeps {source source' : PgOutputTransactionSource} {trace transactions}
    (quiet : Quiet source.assembler source'.assembler) (durable : source'.durableAppliedLsn = source.durableAppliedLsn)
    (queue : source'.deliveredCommits = source.deliveredCommits) (queueKeeps : QueueKeeps start source trace)
    (heldKeeps : HeldKeeps start source transactions) :
    QueueKeeps start source' trace ∧ HeldKeeps start source' transactions := by
  have same : frontier start source' = frontier start source := by rw [frontier,frontier,quiet.last]
  obtain ⟨exact',sorted,behind,reached⟩ := queueKeeps
  obtain ⟨position,ahead,within,ordered⟩ := heldKeeps
  constructor
  · exact ⟨by rw [queue]; exact exact',by rw [queue]; exact sorted,by rw [queue,same]; exact behind,
      by rw [durable,same]; exact reached⟩
  · exact ⟨by rw [quiet.identity]; exact position,by rw [durable]; exact ahead,by rw [same]; exact within,ordered⟩

theorem commitKeeps {source source' : PgOutputTransactionSource} {trace transactions message transaction}
    (commits : Commits source.assembler source'.assembler message transaction)
    (durable : source'.durableAppliedLsn = source.durableAppliedLsn)
    (queue : source'.deliveredCommits = source.deliveredCommits ++ [lsnOf transaction])
    (from' : start ≤ lsnOf transaction) (queueKeeps : QueueKeeps start source trace)
    (heldKeeps : HeldKeeps start source transactions) :
    QueueKeeps start source' (trace ++ [.delivered (lsnOf transaction)]) ∧
      HeldKeeps start source' (transactions ++ [transaction]) := by
  have moved : frontier start source' = lsnOf transaction := by rw [frontier,commits.last]; rfl
  have grows : frontier start source ≤ lsnOf transaction := by
    unfold frontier
    cases last : source.assembler.lastCommitLsn with
    | none => exact from'
    | some previous => exact commits.ahead previous last
  constructor
  · refine ⟨?_,?_,?_,?_⟩
    · rw [queue,uncoveredDelivered,queueKeeps.queue]
    · rw [queue]
      refine List.pairwise_append.mpr ⟨queueKeeps.sorted,List.pairwise_singleton _ _,?_⟩
      intro lsn mem other single
      rw [List.mem_singleton.mp single]
      exact le_trans (queueKeeps.behind lsn mem) grows
    · intro lsn mem
      rw [queue] at mem
      rw [moved]
      rcases List.mem_append.mp mem with before | single
      · exact le_trans (queueKeeps.behind lsn before) grows
      · exact le_of_eq (List.mem_singleton.mp single)
    · rw [durable,moved]
      exact le_trans queueKeeps.durable grows
  · refine ⟨?_,?_,?_,?_⟩
    · intro other mem
      rw [commits.identity]
      rcases List.mem_append.mp mem with before | single
      · exact heldKeeps.position other before
      · rw [List.mem_singleton.mp single]
        exact commits.position
    · intro other mem
      rw [durable]
      rcases List.mem_append.mp mem with before | single
      · exact heldKeeps.ahead other before
      · rw [List.mem_singleton.mp single]
        exact le_trans queueKeeps.durable grows
    · intro other mem
      rw [moved]
      rcases List.mem_append.mp mem with before | single
      · exact le_trans (heldKeeps.behind other before) grows
      · rw [List.mem_singleton.mp single]
    · refine List.pairwise_append.mpr ⟨heldKeeps.ordered,List.pairwise_singleton _ _,?_⟩
      intro earlier mem later single
      rw [List.mem_singleton.mp single]
      exact le_trans (heldKeeps.behind earlier mem) grows

end Keep

structure Delivered (source source' : PgOutputTransactionSource) (message : DecodedMessage)
    (transaction : SourceTransaction) : Prop where
  received : source.receive message = .ok (.transaction transaction,source')
  durable : source'.durableAppliedLsn = source.durableAppliedLsn
  commits : Commits source.assembler source'.assembler message transaction
  queue : source'.deliveredCommits = source.deliveredCommits ++ [lsnOf transaction]

inductive Delivers (loop : Loop) (message : DecodedMessage) : Loop → Prop where
  | stopped : Delivers loop message loop.stop
  | quiet {source point} (goes : point = loop.point ∨ point = .ended)
      (durable : source.durableAppliedLsn = loop.source.durableAppliedLsn)
      (quiet : Quiet loop.source.assembler source.assembler)
      (queue : source.deliveredCommits = loop.source.deliveredCommits) :
      Delivers loop message ⟨source,loop.batcher,point,loop.trace⟩
  | refused {source transaction} (delivered : Delivered loop.source source message transaction) :
      Delivers loop message ⟨source,loop.batcher,.ended,loop.trace ++ [.delivered (lsnOf transaction)]⟩
  | added {source transaction batcher} (delivered : Delivered loop.source source message transaction)
      (pending : batcher.pending = loop.batcher.pending ++ [transaction]) :
      Delivers loop message ⟨source,batcher,.receiving,loop.trace ++ [.delivered (lsnOf transaction)]⟩
  | filled {source transaction batch batcher} (delivered : Delivered loop.source source message transaction)
      (pushed : loop.batcher.push transaction = .ok (some batch,batcher))
      (transactions : batch.transactions = loop.batcher.pending) (pending : batcher.pending = [transaction]) :
      Delivers loop message ⟨source,batcher,.applying batch false,loop.trace ++ [.delivered (lsnOf transaction)]⟩

theorem deliverDelivers {loop : Loop} (message : DecodedMessage) (sent : Bool) (receiving : loop.point = .receiving) :
    Delivers loop message (deliver loop message sent) := by
  unfold deliver
  split
  next => exact .stopped
  next source received =>
    obtain ⟨durable,effect⟩ := receiveEffect received
    rcases effect with commits | quiet
    · obtain ⟨_,same,_⟩ := commits
      cases same
    · exact .quiet (.inl rfl) durable quiet.2.1 quiet.2.2
  next lsn source received =>
    obtain ⟨durable,effect⟩ := receiveEffect received
    rcases effect with commits | quiet
    · obtain ⟨_,same,_⟩ := commits
      cases same
    · refine .quiet ?_ durable quiet.2.1 quiet.2.2
      rw [receiving]
      cases sent
      · exact .inr rfl
      · exact .inl rfl
  next transaction source received =>
    obtain ⟨durable,effect⟩ := receiveEffect received
    rcases effect with commits | quiet
    · obtain ⟨other,same,commits,queue⟩ := commits
      cases same
      have delivered : Delivered loop.source source message transaction := ⟨received,durable,commits,queue⟩
      simp only
      split
      next => exact .refused delivered
      next batcher pushed =>
        rcases pushCases pushed with added | filled
        · exact .added delivered added.2
        · obtain ⟨_,same,_⟩ := filled
          cases same
      next batch batcher pushed =>
        rcases pushCases pushed with added | filled
        · cases added.1
        · obtain ⟨_,same,transactions,pending⟩ := filled
          cases same
          exact .filled delivered pushed transactions pending
    · exact absurd rfl (quiet.1 transaction)

inductive Flushes (loop : Loop) (last : Bool) : Loop → Prop where
  | empty {point} (pending : loop.batcher.pending = []) (goes : point = loop.point ∨ point = .ended) :
      Flushes loop last {loop with point := point}
  | filled {batch batcher} (transactions : batch.transactions = loop.batcher.pending) (pending : batcher.pending = []) :
      Flushes loop last {loop with batcher := batcher,point := .applying batch last}

theorem flushFlushes (loop : Loop) (last : Bool) : Flushes loop last (flush loop last) := by
  unfold flush
  split
  next batcher flushed =>
    have pending : loop.batcher.pending = [] := by
      unfold Batcher.flush at flushed
      split at flushed
      next => cases flushed
      next empty => exact not_not.mp empty
    cases last
    · exact .empty pending (.inl rfl)
    · exact .empty pending (.inr rfl)
  next batch batcher flushed =>
    obtain ⟨transactions,emptied⟩ := flushSource flushed
    exact .filled transactions emptied

theorem acknowledgedSource {source source' : PgOutputTransactionSource} {position}
    (ok : source.acknowledge position = .ok source') : source' = {source with
      durableAppliedLsn := position.lsn
      deliveredCommits := source.deliveredCommits.dropWhile (fun lsn => lsn ≤ position.lsn)} := by
  obtain ⟨_,_,ok⟩ := bindOk.mp ok
  exact (Except.ok.inj ok).symm

theorem finalMem (batch : TransactionBatch) : batch.finalTransaction ∈ batch.transactions := List.getLast_mem batch.filled

section Keep
variable {start : PgLsn} {loop : Loop}

theorem heldReceiving (receiving : loop.point = .receiving) : held loop = loop.batcher.pending := by
  rw [held,receiving]

theorem deliversKeeps {message next} (delivers : Delivers loop message next) (keeps : Keeps start loop)
    (receiving : loop.point = .receiving)
    (from' : ∀ commitLsn endLsn timestamp flags, message = .commit commitLsn endLsn timestamp flags → start ≤ endLsn) :
    Keeps start next := by
  have arrives : ∀ {source transaction}, Delivered loop.source source message transaction →
      QueueKeeps start source (loop.trace ++ [.delivered (lsnOf transaction)]) ∧
        HeldKeeps start source (loop.batcher.pending ++ [transaction]) := by
    intro source transaction delivered
    obtain ⟨commitLsn,timestamp,flags,isCommit⟩ := delivered.commits.commit
    exact commitKeeps delivered.commits delivered.durable delivered.queue (from' _ _ _ _ isCommit) keeps.1
      (heldReceiving receiving ▸ keeps.2)
  cases delivers with
  | stopped => exact stopKeeps keeps
  | @quiet source point goes durable quiet queue =>
    obtain ⟨queueKeeps,heldKeeps⟩ := quietKeeps quiet durable queue keeps.1 keeps.2
    refine ⟨queueKeeps,heldKeeps.sublist ?_⟩
    rw [heldReceiving receiving]
    rcases goes with same | ended
    · rw [heldReceiving (by rw [same]; exact receiving)]
    · rw [ended]
      exact List.Sublist.refl _
  | refused delivered =>
    obtain ⟨queueKeeps,heldKeeps⟩ := arrives delivered
    exact ⟨queueKeeps,heldKeeps.sublist (List.sublist_append_left _ _)⟩
  | added delivered pending =>
    obtain ⟨queueKeeps,heldKeeps⟩ := arrives delivered
    refine ⟨queueKeeps,?_⟩
    rw [heldReceiving rfl,pending]
    exact heldKeeps
  | filled delivered pushed transactions pending =>
    obtain ⟨queueKeeps,heldKeeps⟩ := arrives delivered
    refine ⟨queueKeeps,?_⟩
    simp only [held,transactions,pending]
    exact heldKeeps

theorem flushesKeeps {last next} (flushes : Flushes loop last next) (keeps : Keeps start loop)
    (receiving : loop.point = .receiving) : Keeps start next := by
  cases flushes with
  | empty pending goes =>
    refine ⟨keeps.1,keeps.2.sublist ?_⟩
    rw [heldReceiving receiving]
    rcases goes with same | ended
    · rw [heldReceiving (by rw [same]; exact receiving)]
    · rw [ended]
      exact List.Sublist.refl _
  | filled transactions pending =>
    refine ⟨keeps.1,?_⟩
    have whole := heldReceiving receiving ▸ keeps.2
    simpa only [held,transactions,pending,List.append_nil] using whole

theorem acknowledgeKeeps {batch last sent} (keeps : Keeps start loop) (applied : loop.point = .applied batch last) :
    Keeps start (acknowledge loop batch last sent) := by
  unfold acknowledge
  split
  next => exact stopKeeps keeps
  next source accepted =>
    obtain ⟨queueKeeps,heldKeeps⟩ := keeps
    have all : held loop = batch.transactions ++ loop.batcher.pending := by rw [held,applied]
    rw [all] at heldKeeps
    have final := heldKeeps.position batch.finalTransaction (List.mem_append_left _ (finalMem batch))
    have within := heldKeeps.behind batch.finalTransaction (List.mem_append_left _ (finalMem batch))
    have popped := droppedSorted queueKeeps.sorted (lsnOf batch.finalTransaction)
    cases acknowledgedSource accepted
    constructor
    · refine ⟨?_,?_,?_,?_⟩
      · rw [uncoveredAcknowledged,← queueKeeps.queue]
        exact popped
      · exact queueKeeps.sorted.sublist (List.dropWhile_sublist _)
      · intro lsn mem
        exact queueKeeps.behind lsn ((List.dropWhile_sublist _).subset mem)
      · exact within
    · have pending : HeldKeeps start loop.source loop.batcher.pending :=
        heldKeeps.sublist (List.sublist_append_right _ _)
      have same : held {loop with
          source := {loop.source with
            durableAppliedLsn := batch.finalTransaction.finalPosition.lsn
            deliveredCommits := loop.source.deliveredCommits.dropWhile
              (fun lsn => lsn ≤ batch.finalTransaction.finalPosition.lsn)}
          point := if sent && !last then Point.receiving else .ended
          trace := loop.trace ++ [.acknowledged (lsnOf batch.finalTransaction)]} = loop.batcher.pending := by
        cases sent <;> cases last <;> rfl
      rw [same]
      refine ⟨pending.position,?_,pending.behind,pending.ordered⟩
      intro transaction mem
      exact (List.pairwise_append.mp heldKeeps.ordered).2.2 batch.finalTransaction (finalMem batch) transaction mem

theorem stepKeeps (event : Event) (keeps : Keeps start loop)
    (from' : ∀ commitLsn endLsn timestamp flags sent, event = .deliver (.commit commitLsn endLsn timestamp flags) sent →
      start ≤ endLsn) : Keeps start (step loop event) := by
  unfold step
  split
  next message sent receiving =>
    exact deliversKeeps (deliverDelivers message sent receiving) keeps receiving fun commitLsn endLsn timestamp flags same =>
      from' commitLsn endLsn timestamp flags sent (by rw [same])
  next => exact stopKeeps keeps
  next receiving =>
    split
    next => exact stopKeeps keeps
    next => exact flushesKeeps (flushFlushes loop true) keeps receiving
  next receiving => exact flushesKeeps (flushFlushes loop false) keeps receiving
  next commits batch last applying =>
    cases commits with
    | false => exact stopKeeps keeps
    | true =>
      have whole := keeps.2
      rw [held,applying] at whole
      exact ⟨keeps.1,whole⟩
  next sent batch last applied => exact acknowledgeKeeps keeps applied
  next => exact stopKeeps keeps
  next => exact stopKeeps keeps
  next => exact keeps

end Keep

def LeftBehind (loop : Loop) (transaction : SourceTransaction) : Prop :=
  loop.batcher.pending = [transaction] ∧ loop.trace.getLast? = some (.acknowledged (lsnOf transaction))

/- The last transaction of a batch to come is in the queue, or it is the only one and was left behind. -/
def Waits (loop : Loop) : Prop :=
  match loop.point with
  | .receiving => ∀ transaction, loop.batcher.pending.getLast? = some transaction →
      lsnOf transaction ∈ loop.source.deliveredCommits ∨ LeftBehind loop transaction
  | .applying batch _ => lsnOf batch.finalTransaction ∈ loop.source.deliveredCommits ∧
      ∀ transaction, loop.batcher.pending.getLast? = some transaction →
        loop.batcher.pending = [transaction] ∧ lsnOf transaction ∈ loop.source.deliveredCommits
  | .applied batch _ => lsnOf batch.finalTransaction ∈ loop.source.deliveredCommits ∧
      ∀ transaction, loop.batcher.pending.getLast? = some transaction →
        loop.batcher.pending = [transaction] ∧ lsnOf transaction ∈ loop.source.deliveredCommits
  | .ended => True

section Wait
variable {start : PgLsn} {loop : Loop}

theorem finalOf {batch : TransactionBatch} {transactions : List SourceTransaction}
    (same : batch.transactions = transactions) :
    transactions.getLast? = some batch.finalTransaction := by
  rw [← same]
  exact List.getLast?_eq_some_getLast batch.filled

theorem deliversWait {message sent next} (delivers : Delivers loop message next) (waits : Waits loop)
    (receiving : loop.point = .receiving) (clear : ¬ Stranded loop (.deliver message sent)) : Waits next := by
  simp only [Waits,receiving] at waits
  cases delivers with
  | stopped => trivial
  | quiet goes durable quiet queue =>
    rcases goes with same | ended
    · simp only [Waits,same,receiving,queue]
      exact waits
    · simp only [Waits,ended]
  | refused delivered => trivial
  | added delivered pending =>
    simp only [Waits,pending,delivered.queue]
    intro transaction last
    rw [List.getLast?_append,List.getLast?_singleton] at last
    rw [← Option.some.inj last]
    exact .inl (by simp)
  | @filled source transaction batch batcher delivered pushed transactions pending =>
    have final := finalOf transactions
    simp only [Waits,pending,delivered.queue]
    constructor
    · rcases waits batch.finalTransaction final with queued | left
      · exact List.mem_append_left _ queued
      · -- the transaction that fills the batch ends where the one left behind does, or the step strands it
        by_cases same : lsnOf transaction = lsnOf batch.finalTransaction
        · rw [same]
          simp
        · exact absurd ⟨receiving,_,left.1,left.2,transaction,source,batch,batcher,delivered.received,pushed,same⟩ clear
    · intro other last
      rw [List.getLast?_singleton] at last
      rw [← Option.some.inj last]
      exact ⟨rfl,by simp⟩

theorem flushesWait {last event next} (flushes : Flushes loop last next) (waits : Waits loop)
    (receiving : loop.point = .receiving)
    (clear : ∀ transaction, LeftBehind loop transaction → Stranded loop event) (unstranded : ¬ Stranded loop event) :
    Waits next := by
  simp only [Waits,receiving] at waits
  cases flushes with
  | empty pending goes =>
    rcases goes with same | ended
    · simp only [Waits,same,receiving,pending]
      intro transaction none
      cases none
    · simp only [Waits,ended]
  | @filled batch batcher transactions pending =>
    simp only [Waits,pending]
    constructor
    · rcases waits batch.finalTransaction (finalOf transactions) with queued | left
      · exact queued
      · exact absurd (clear _ left) unstranded
    · intro transaction none
      cases none

theorem acknowledgeWaits {batch last sent} (keeps : Keeps start loop) (waits : Waits loop)
    (applied : loop.point = .applied batch last) : Waits (acknowledge loop batch last sent) := by
  simp only [Waits,applied] at waits
  unfold acknowledge
  split
  next => trivial
  next source accepted =>
    have ordered := keeps.2.ordered
    have sorted := keeps.1.sorted
    rw [held,applied] at ordered
    have popped := droppedSorted sorted (lsnOf batch.finalTransaction)
    cases acknowledgedSource accepted
    by_cases goesOn : (sent && !last) = true
    · simp only [Waits,goesOn,if_true]
      intro transaction isLast
      obtain ⟨single,queued⟩ := waits.2 transaction isLast
      have later := (List.pairwise_append.mp ordered).2.2 batch.finalTransaction (finalMem batch) transaction
        (by rw [single]; simp)
      rcases lt_or_eq_of_le later with above | same
      · refine .inl ?_
        show lsnOf transaction ∈ loop.source.deliveredCommits.dropWhile (fun lsn => lsn ≤ lsnOf batch.finalTransaction)
        rw [popped]
        exact List.mem_filter.mpr ⟨queued,by simpa using above⟩
      · refine .inr ⟨single,?_⟩
        rw [← same]
        simp
    · simp only [Waits,goesOn,Bool.false_eq_true,if_false]

theorem stepWaits {event : Event} (keeps : Keeps start loop) (waits : Waits loop) (clear : ¬ Stranded loop event) :
    Waits (step loop event) := by
  unfold step
  split
  next message sent receiving => exact deliversWait (deliverDelivers message sent receiving) waits receiving clear
  next => trivial
  next receiving =>
    split
    next => trivial
    next finished =>
      exact flushesWait (flushFlushes loop true) waits receiving
        (fun transaction left => ⟨receiving,transaction,left.1,left.2,finished⟩) clear
  next receiving =>
    exact flushesWait (flushFlushes loop false) waits receiving
      (fun transaction left => ⟨receiving,transaction,left.1,left.2,trivial⟩) clear
  next commits batch last applying =>
    simp only [Waits,applying] at waits
    cases commits with
    | false => trivial
    | true => exact waits
  next sent batch last applied => exact acknowledgeWaits keeps waits applied
  next => trivial
  next => trivial
  next => exact waits

theorem appliedAccepted {batch last} (keeps : Keeps start loop) (waits : Waits loop)
    (applied : loop.point = .applied batch last) :
    loop.source.validateAcknowledgement batch.finalTransaction.finalPosition = .ok () := by
  simp only [Waits,applied] at waits
  have mem : batch.finalTransaction ∈ held loop := by
    rw [held,applied]
    exact List.mem_append_left _ (finalMem batch)
  have position := keeps.2.position batch.finalTransaction mem
  have ahead := keeps.2.ahead batch.finalTransaction mem
  have queued := waits.1
  simp only [lsnOf] at ahead queued
  simp only [PgOutputTransactionSource.validateAcknowledgement]
  rw [if_neg (by rw [position]; simp [SourceNodeIdentity.position]),if_neg (not_lt.mpr ahead),if_neg (by simpa using queued)]

end Wait

section Runs
variable {start : PgLsn}

theorem initialKeeps {identity limits assembler} (made : TransactionAssembler.withLimits identity limits = .ok assembler)
    {batchLimits batcher} (valid : Batcher.new batchLimits = .ok batcher) :
    Keeps start (initial assembler start batcher) ∧ Waits (initial assembler start batcher) := by
  obtain ⟨_,made⟩ := iteOk.mp made
  obtain ⟨_,valid⟩ := iteOk.mp valid
  cases Except.ok.inj made
  cases Except.ok.inj valid
  refine ⟨⟨⟨rfl,.nil,by simp [initial],le_rfl⟩,⟨?_,?_,?_,.nil⟩⟩,?_⟩
  · intro transaction none
    cases none
  · intro transaction none
    cases none
  · intro transaction none
    cases none
  · intro transaction none
    cases none

theorem stepsKeep (events : List Event) {loop : Loop} (keeps : Keeps start loop) (from' : EndsFrom start events) :
    Keeps start (steps loop events) := by
  induction events generalizing loop with
  | nil => exact keeps
  | cons event events ih =>
    have next := stepKeeps event keeps fun commitLsn endLsn timestamp flags sent same =>
      from' commitLsn endLsn timestamp flags sent (by rw [same]; simp)
    exact ih next fun commitLsn endLsn timestamp flags sent mem =>
      from' commitLsn endLsn timestamp flags sent (List.mem_cons_of_mem _ mem)

theorem stepsWait (events : List Event) {loop : Loop} (keeps : Keeps start loop) (waits : Waits loop)
    (from' : EndsFrom start events) (clear : Clear loop events) : Waits (steps loop events) := by
  induction events generalizing loop with
  | nil => exact waits
  | cons event events ih =>
    have next := stepKeeps event keeps fun commitLsn endLsn timestamp flags sent same =>
      from' commitLsn endLsn timestamp flags sent (by rw [same]; simp)
    exact ih next (stepWaits keeps waits clear.1) (fun commitLsn endLsn timestamp flags sent mem =>
      from' commitLsn endLsn timestamp flags sent (List.mem_cons_of_mem _ mem)) clear.2

theorem coveredGone {loop : Loop} {lsn : PgLsn} (keeps : Keeps start loop)
    (last : loop.trace.getLast? = some (.acknowledged lsn)) : lsn ∉ loop.source.deliveredCommits := by
  obtain ⟨before,same⟩ := List.getLast?_eq_some_iff.mp last
  rw [keeps.1.queue,same,uncoveredAcknowledged]
  intro mem
  simp at mem

theorem rejected {source : PgOutputTransactionSource} {position : SourcePosition}
    (gone : position.lsn ∉ source.deliveredCommits) : source.validateAcknowledgement position ≠ .ok () := by
  unfold PgOutputTransactionSource.validateAcknowledgement
  intro ok
  obtain ⟨_,ok⟩ := iteOk.mp ok
  obtain ⟨_,ok⟩ := iteOk.mp ok
  obtain ⟨queued,_⟩ := iteOk.mp ok
  exact queued gone

theorem strandedFlush {loop : Loop} {transaction} {last : Bool} (keeps : Keeps start loop)
    (pending : loop.batcher.pending = [transaction])
    (acknowledged : loop.trace.getLast? = some (.acknowledged (lsnOf transaction))) :
    ∃ batch, (flush loop last).point = .applying batch last ∧
      (flush loop last).source.validateAcknowledgement batch.finalTransaction.finalPosition ≠ .ok () := by
  have gone := coveredGone keeps acknowledged
  have flushes := flushFlushes loop last
  generalize flush loop last = next at flushes ⊢
  cases flushes with
  | empty none =>
    rw [pending] at none
    cases none
  | @filled batch batcher transactions emptied =>
    have final := finalOf (transactions.trans pending)
    rw [List.getLast?_singleton] at final
    cases Option.some.inj final
    exact ⟨batch,rfl,rejected gone⟩

theorem strandedRejected {loop : Loop} {event} (keeps : Keeps start loop) (stranded : Stranded loop event) :
    ∃ batch last, (step loop event).point = .applying batch last ∧
      (step loop event).source.validateAcknowledgement batch.finalTransaction.finalPosition ≠ .ok () := by
  obtain ⟨receiving,transaction,pending,acknowledged,alone⟩ := stranded
  cases event with
  | timer =>
    obtain ⟨batch,flushed⟩ := @strandedFlush start loop transaction false keeps pending acknowledged
    exact ⟨batch,false,by simpa [step,receiving] using flushed⟩
  | streamEnd =>
    obtain ⟨batch,flushed⟩ := @strandedFlush start loop transaction true keeps pending acknowledged
    have ended : loop.source.assembler.finish = .ok () := alone
    exact ⟨batch,true,by simpa [step,receiving,ended] using flushed⟩
  | deliver message sent =>
    obtain ⟨next,source,batch,batcher,received,pushed,apart⟩ := alone
    have gone := coveredGone keeps acknowledged
    obtain ⟨_,effect⟩ := receiveEffect received
    have queue : source.deliveredCommits = loop.source.deliveredCommits ++ [lsnOf next] := by
      rcases effect with commits | quiet
      · obtain ⟨other,same,_,queue⟩ := commits
        cases same
        exact queue
      · exact absurd rfl (quiet.1 next)
    have final : batch.finalTransaction = transaction := by
      rcases pushCases pushed with added | filled
      · cases added.1
      · obtain ⟨_,same,transactions,_⟩ := filled
        cases same
        have final := finalOf (transactions.trans pending)
        rw [List.getLast?_singleton] at final
        exact (Option.some.inj final).symm
    refine ⟨batch,false,?_⟩
    simp only [step,receiving,deliver,received,pushed,true_and]
    refine rejected ?_
    rw [queue,final]
    intro mem
    rcases List.mem_append.mp mem with before | single
    · exact gone before
    · exact apart (List.mem_singleton.mp single).symm
  | start => cases alone
  | streamError => cases alone
  | apply commits => cases alone
  | acknowledge sent => cases alone
  | cancel => cases alone
  | crash => cases alone

/-- At every point of a run the queue has the delivered positions that no acknowledgement covers, in order. In a run
that strands no transaction every applied batch is acknowledged, and the batch of a stranded one never is. -/
theorem acknowledgedExactly {identity limits assembler batchLimits batcher}
    (made : TransactionAssembler.withLimits identity limits = .ok assembler) (valid : Batcher.new batchLimits = .ok batcher)
    (events : List Event) (from' : EndsFrom start events) {loop : Loop}
    (reached : steps (initial assembler start batcher) events = loop) :
    (loop.source.deliveredCommits = uncovered loop.trace ∧ (uncovered loop.trace).Pairwise (· ≤ ·)) ∧
    (Clear (initial assembler start batcher) events → ∀ batch last, loop.point = .applied batch last →
      loop.source.validateAcknowledgement batch.finalTransaction.finalPosition = .ok ()) ∧
    ∀ event, Stranded loop event → ∃ batch last, (step loop event).point = .applying batch last ∧
      (step loop event).source.validateAcknowledgement batch.finalTransaction.finalPosition ≠ .ok () := by
  subst reached
  obtain ⟨keeps,waits⟩ := initialKeeps made valid
  have reached := stepsKeep events keeps from'
  refine ⟨⟨reached.1.queue,?_⟩,?_,?_⟩
  · rw [← reached.1.queue]
    exact reached.1.sorted
  · intro clear batch last applied
    exact appliedAccepted reached (stepsWait events keeps waits from' clear) applied
  · intro event stranded
    exact strandedRejected reached stranded

end Runs

section Sample

def sampleIdentity : SourceNodeIdentity := ⟨1,9,1⟩

def sampleAssembler : TransactionAssembler := ⟨sampleIdentity,⟨8,1024⟩,none,none,fun _ => none⟩

def sampleBatcher : Batcher := ⟨⟨1,1024,250⟩,[],0,0,none⟩

def sampleEvents (secondCommit secondEnd : PgLsn) : List Event :=
  [.deliver (.begin' 90 5 700) true,.deliver (.commit 90 100 5 0) true,.deliver (.begin' secondCommit 6 701) true,
    .deliver (.commit secondCommit secondEnd 6 0) true,.apply true,.acknowledge true,.timer,.apply true]

theorem sampleEndsFrom {secondCommit secondEnd : PgLsn} (later : 50 ≤ secondEnd) :
    EndsFrom 50 (sampleEvents secondCommit secondEnd) := by
  intro commitLsn endLsn timestamp flags sent mem
  simp only [sampleEvents,List.mem_cons,Event.deliver.injEq,DecodedMessage.commit.injEq,reduceCtorEq,false_and,false_or,
    List.not_mem_nil,or_false] at mem
  rcases mem with first | second
  · rw [first.1.2.1]
    decide
  · rw [second.1.2.1]
    exact later

theorem notLeftBehind {loop : Loop} {event} (apart : ∀ transaction, loop.batcher.pending = [transaction] →
    loop.trace.getLast? ≠ some (.acknowledged (lsnOf transaction))) : ¬ Stranded loop event := by
  intro stranded
  obtain ⟨_,transaction,pending,acknowledged,_⟩ := stranded
  exact apart transaction pending acknowledged

theorem sampleClear : Clear (initial sampleAssembler 50 sampleBatcher) (sampleEvents 190 200) := by
  refine ⟨?_,?_,?_,?_,?_,?_,?_,?_,trivial⟩
  all_goals
    refine notLeftBehind fun transaction pending => ?_
    cases pending <;> decide

theorem laterAcknowledged : ∃ batch last,
    (steps (initial sampleAssembler 50 sampleBatcher) (sampleEvents 190 200)).point = .applied batch last ∧
    (steps (initial sampleAssembler 50 sampleBatcher) (sampleEvents 190 200)).source.validateAcknowledgement
      batch.finalTransaction.finalPosition = .ok () :=
  ⟨_,_,rfl,(acknowledgedExactly (show TransactionAssembler.withLimits sampleIdentity ⟨8,1024⟩ = .ok sampleAssembler from rfl)
    (show Batcher.new ⟨1,1024,250⟩ = .ok sampleBatcher from rfl) (sampleEvents 190 200) (sampleEndsFrom (by decide))
    rfl).2.1 sampleClear _ _ rfl⟩

/- Both transactions end at one position: the first acknowledgement pops both, and the second is refused although its
batch was applied. -/
theorem equalEndRefused : EndsFrom 50 (sampleEvents 100 100) ∧ ∃ batch last,
    (steps (initial sampleAssembler 50 sampleBatcher) (sampleEvents 100 100)).point = .applied batch last ∧
    (steps (initial sampleAssembler 50 sampleBatcher) (sampleEvents 100 100)).source.validateAcknowledgement
      batch.finalTransaction.finalPosition = .error .acknowledge :=
  ⟨sampleEndsFrom (by decide),_,_,rfl,rfl⟩

end Sample

end CloudberryEtl.Acknowledgement
