import CloudberryEtl.Delivery

/-! The replication loop on a walsender that sends what the source wrote: between BEGIN and COMMIT the messages of that
transaction and no others, in their order, with keepalives anywhere. The transactions the target reflects then carry the
row changes of the log. -/
namespace CloudberryEtl.LogContents
open Change StagedApply Result Wire Batch Adapter TargetStore Replication SortedLog Delivery
open Fencing hiding step

/- The messages the source wrote for a transaction: relation and type messages, row changes, TRUNCATE and DDL. -/
abbrev Contents := SourceCommit → List DecodedMessage

-- `unsent` is what the open transaction of the walsender still has before its COMMIT.
structure Live where
  system : System
  unsent : List DecodedMessage

def Live.begins (target : Target) : Live := ⟨⟨target,[],[],none⟩,[]⟩

def unsentAfter (contents : Contents) (sender : WalSender) (unsent : List DecodedMessage) :
    DecodedMessage → Option (List DecodedMessage)
  | .keepalive _ _ _ => some unsent
  | .begin' _ _ _ => sender.remaining.head?.map contents
  | .commit _ _ _ _ => if unsent = [] then some [] else none
  | message =>
    match unsent with
    | next :: rest => if next = message then some rest else none
    | [] => none

section Steps
variable (log : List SourceCommit) (contents : Contents) (job : Job) (equal : Operators)

def step (live : Live) (event : Event) : Live :=
  match event,live.system.run with
  | .deliver message _,some run =>
    match run.sender.send message,unsentAfter contents run.sender live.unsent message with
    | some _,some unsent => if run.stage = .receiving then ⟨Replication.step log job equal live.system event,unsent⟩ else live
    | _,_ => live
  | _,_ => ⟨Replication.step log job equal live.system event,live.unsent⟩

def steps (live : Live) (events : List Event) : Live := events.foldl (step log contents job equal) live

end Steps

def rowsOf (changes : List TransactionChange) : List TableChange := changes.filterMap rowChange?

def changesOf (messages : List DecodedMessage) : List TransactionChange := messages.filterMap DecodedMessage.toTransactionChange

/- The row changes that were written, in their order, and every other change; repeated DDL may stand once. -/
structure Carries (changes written : List TransactionChange) : Prop where
  rows : rowsOf changes = rowsOf written
  all : ∀ change ∈ written, change ∈ changes

def FromLog (contents : Contents) (log : List SourceCommit) (transaction : SourceTransaction) : Prop :=
  ∃ entry ∈ log, mark transaction = commitMark entry ∧ Carries transaction.changes (changesOf (contents entry))

def Opened (contents : Contents) (sender : WalSender) (assembler : TransactionAssembler) (unsent : List DecodedMessage) :
    Prop :=
  sender.inTransaction → ∀ entry rest pending, sender.remaining = entry :: rest → assembler.pending = some pending →
    Carries (pending.changes ++ changesOf unsent) (changesOf (contents entry))

structure RunFaithful (contents : Contents) (log : List SourceCommit) (unsent : List DecodedMessage) (run : Run) :
    Prop where
  remaining : ∀ entry ∈ run.sender.remaining, entry ∈ log
  opened : Opened contents run.sender run.source.assembler unsent
  received : ∀ transaction ∈ unapplied run, FromLog contents log transaction

structure Faithful (contents : Contents) (log : List SourceCommit) (live : Live) : Prop where
  reflected : ∀ transaction ∈ live.system.reflected, FromLog contents log transaction
  run : ∀ run, live.system.run = some run → RunFaithful contents log live.unsent run

theorem rowsOfAppend (left right : List TransactionChange) : rowsOf (left ++ right) = rowsOf left ++ rowsOf right :=
  List.filterMap_append ..

theorem Carries.refl (changes : List TransactionChange) : Carries changes changes := ⟨rfl,fun _ mem => mem⟩

theorem Carries.trans {first second third : List TransactionChange} (one : Carries first second)
    (two : Carries second third) : Carries first third :=
  ⟨one.rows.trans two.rows,fun change mem => one.all change (two.all change mem)⟩

theorem Carries.append {changes written : List TransactionChange} (carries : Carries changes written)
    (rest : List TransactionChange) : Carries (changes ++ rest) (written ++ rest) := by
  refine ⟨by rw [rowsOfAppend,rowsOfAppend,carries.rows],?_⟩
  intro change mem
  rcases List.mem_append.mp mem with mem | mem
  · exact List.mem_append_left _ (carries.all change mem)
  · exact List.mem_append_right _ mem

theorem changesOfChange {message : DecodedMessage} {change} (is : message.toTransactionChange = some change)
    (rest : List DecodedMessage) : changesOf (message :: rest) = [change] ++ changesOf rest := by
  rw [changesOf,List.filterMap_cons,is]
  rfl

theorem changesOfQuiet {message : DecodedMessage} (quiet : message.toTransactionChange = none)
    (rest : List DecodedMessage) : changesOf (message :: rest) = changesOf rest := by
  rw [changesOf,List.filterMap_cons,quiet]
  rfl

theorem bufferCarries {assembler assembler' : TransactionAssembler} {change pending} (opened : assembler.pending = some pending)
    (ok : assembler.buffer change = .ok assembler') : ∃ pending', assembler'.pending = some pending' ∧
      Carries pending'.changes (pending.changes ++ [change]) := by
  unfold TransactionAssembler.buffer at ok
  simp only [opened] at ok
  obtain ⟨_,_,ok⟩ := bindOk.mp ok
  split at ok
  · rename_i repeated
    cases Except.ok.inj ok
    cases change with
    | ddl message =>
      have held : TransactionChange.ddl message ∈ pending.changes := by
        simpa [TransactionAssembler.repeatedDdl] using repeated
      refine ⟨pending,opened,by simp [rowsOf,rowChange?],?_⟩
      intro other mem
      rcases List.mem_append.mp mem with mem | mem
      · exact mem
      · exact List.mem_singleton.mp mem ▸ held
    | row change => contradiction
    | truncate => contradiction
  · obtain ⟨_,ok⟩ := iteOk.mp ok
    obtain ⟨_,ok⟩ := iteOk.mp ok
    cases Except.ok.inj ok
    exact ⟨_,rfl,.refl _⟩

theorem acceptPending {assembler assembler' : TransactionAssembler} {relation}
    (ok : assembler.acceptRelation relation = .ok assembler') : assembler'.pending = assembler.pending := by
  unfold TransactionAssembler.acceptRelation at ok
  obtain ⟨_,ok⟩ := iteOk.mp ok
  split at ok
  · obtain ⟨_,ok⟩ := iteOk.mp ok
    cases Except.ok.inj ok
    rfl
  · cases Except.ok.inj ok
    rfl

theorem beginPending {assembler assembler' : TransactionAssembler} {finalLsn timestamp xid}
    (ok : assembler.begin' finalLsn timestamp xid = .ok assembler') :
    assembler'.pending = some ⟨xid,finalLsn,timestamp,[],0⟩ := by
  unfold TransactionAssembler.begin' at ok
  obtain ⟨_,ok⟩ := iteOk.mp ok
  split at ok
  · obtain ⟨_,ok⟩ := iteOk.mp ok
    cases Except.ok.inj ok
    rfl
  · cases Except.ok.inj ok
    rfl

theorem commitChanges {assembler assembler' : TransactionAssembler} {commitLsn endLsn timestamp flags committed pending}
    (opened : assembler.pending = some pending)
    (ok : assembler.commit commitLsn endLsn timestamp flags = .ok (committed,assembler')) :
    committed.transaction.changes = pending.changes := by
  unfold TransactionAssembler.commit at ok
  obtain ⟨_,ok⟩ := iteOk.mp ok
  obtain ⟨_,ok⟩ := iteOk.mp ok
  obtain ⟨_,_,ok⟩ := bindOk.mp ok
  simp only [opened] at ok
  obtain ⟨_,ok⟩ := iteOk.mp ok
  obtain ⟨_,ok⟩ := iteOk.mp ok
  cases Except.ok.inj ok
  rfl

section Push
variable {contents : Contents} {log : List SourceCommit} {identity : SourceNodeIdentity} {sender sender' : WalSender}
  {assembler assembler' : TransactionAssembler} {unsent unsent' : List DecodedMessage}

theorem sendInside (sent : (if sender.inTransaction then some sender else none) = some sender') :
    sender.inTransaction ∧ sender' = sender := by
  split at sent <;> try contradiction
  exact ⟨by assumption,(Option.some.inj sent).symm⟩

theorem quietOpened {message : DecodedMessage} (quiet : message.toTransactionChange = none)
    (same : assembler'.pending = assembler.pending) (opened : Opened contents sender assembler (message :: unsent)) :
    Opened contents sender assembler' unsent := by
  intro inside entry rest pending remaining found
  have carries := opened inside entry rest pending remaining (same ▸ found)
  rwa [changesOfQuiet quiet] at carries

theorem bufferedOpened {message : DecodedMessage} {change} (is : message.toTransactionChange = some change)
    (inside : sender.inTransaction) (aligned : Aligned identity sender assembler)
    (opened : Opened contents sender assembler (message :: unsent)) (ok : assembler.buffer change = .ok assembler') :
    Opened contents sender assembler' unsent := by
  have state := aligned.2
  rw [inside] at state
  obtain ⟨entry,rest,pending,remaining,found,_⟩ := state
  obtain ⟨pending',found',carries⟩ := bufferCarries found ok
  intro _ entry' rest' pending'' remaining' found''
  cases remaining.symm.trans remaining'
  cases found'.symm.trans found''
  refine (carries.append _).trans ?_
  rw [List.append_assoc,← changesOfChange is]
  exact opened inside entry rest pending remaining found

theorem unsentInner {message : DecodedMessage}
    (next : (match unsent with
      | head :: rest => if head = message then some rest else none
      | [] => none) = some unsent') : unsent = message :: unsent' := by
  split at next <;> try contradiction
  split at next <;> try contradiction
  rename_i same
  rw [same,Option.some.inj next]

theorem pushOpened {message event} (aligned : Aligned identity sender assembler)
    (sent : sender.send message = some sender') (next : unsentAfter contents sender unsent message = some unsent')
    (opened : Opened contents sender assembler unsent) (ok : assembler.push message = .ok (event,assembler')) :
    Opened contents sender' assembler' unsent' ∧
      ∀ committed, event = some (.transaction committed) → ∀ entry rest, sender.remaining = entry :: rest →
        Carries committed.transaction.changes (changesOf (contents entry)) := by
  cases message with
  | keepalive walEnd timestamp reply =>
    cases Option.some.inj sent
    cases Option.some.inj next
    cases Except.ok.inj ok
    exact ⟨opened,by simp⟩
  | begin' finalLsn timestamp xid =>
    obtain ⟨begun,beginOk,ok⟩ := bindOk.mp ok
    cases Except.ok.inj ok
    refine ⟨?_,by simp⟩
    intro _ entry rest pending remaining found
    rw [beginPending beginOk] at found
    cases Option.some.inj found
    simp only [WalSender.send] at sent
    split at sent <;> try contradiction
    split at sent <;> try contradiction
    cases Option.some.inj sent
    cases remaining
    cases Option.some.inj next
    exact .refl _
  | commit commitLsn endLsn timestamp flags =>
    obtain ⟨⟨committed,closed⟩,commitOk,ok⟩ := bindOk.mp ok
    cases Except.ok.inj ok
    simp only [WalSender.send] at sent
    split at sent <;> try contradiction
    split at sent <;> try contradiction
    cases Option.some.inj sent
    simp only [unsentAfter] at next
    split at next <;> try contradiction
    rename_i empty
    refine ⟨fun inside => by simp at inside,?_⟩
    intro other same entry rest remaining
    cases same
    obtain ⟨entry',rest',pending,remaining',found,_⟩ := aligned.2
    have carries := opened rfl entry rest pending remaining found
    rw [empty,show changesOf [] = [] from rfl,List.append_nil] at carries
    rw [commitChanges found commitOk]
    exact carries
  | relation event =>
    obtain ⟨accepted,acceptOk,ok⟩ := bindOk.mp ok
    cases Except.ok.inj ok
    obtain ⟨_,rfl⟩ := sendInside sent
    cases unsentInner next
    exact ⟨quietOpened rfl (acceptPending acceptOk) opened,by simp⟩
  | type event =>
    cases Except.ok.inj ok
    obtain ⟨_,rfl⟩ := sendInside sent
    cases unsentInner next
    exact ⟨quietOpened rfl rfl opened,by simp⟩
  | _ =>
    obtain ⟨buffered,bufferOk,ok⟩ := bindOk.mp ok
    cases Except.ok.inj ok
    obtain ⟨inside,rfl⟩ := sendInside sent
    cases unsentInner next
    exact ⟨bufferedOpened rfl inside aligned opened bufferOk,by simp⟩

end Push

section Runs
variable {contents : Contents} {log : List SourceCommit} {job : Job} {initial checkpoint : PgLsn} {system : System}
  {run : Run} {unsent : List DecodedMessage}

theorem sendRemaining {sender sender' : WalSender} {message} (sent : sender.send message = some sender') :
    ∀ entry ∈ sender'.remaining, entry ∈ sender.remaining := by
  cases message with
  | begin' =>
    simp only [WalSender.send] at sent
    split at sent <;> try contradiction
    split at sent <;> try contradiction
    cases Option.some.inj sent
    exact fun _ mem => mem
  | commit =>
    simp only [WalSender.send] at sent
    split at sent <;> try contradiction
    split at sent <;> try contradiction
    cases Option.some.inj sent
    exact fun _ mem => List.mem_cons_of_mem _ mem
  | keepalive =>
    cases Option.some.inj sent
    exact fun _ mem => mem
  | _ =>
    rw [(sendInside sent).2]
    exact fun _ mem => mem

theorem stopFaithful {unsent' : List DecodedMessage} (faithful : Faithful contents log ⟨system,unsent⟩) :
    Faithful contents log ⟨system.stop,unsent'⟩ := ⟨faithful.reflected,by simp [System.stop]⟩

theorem withRunFaithful {run' : Run} {unsent' : List DecodedMessage} (faithful : Faithful contents log ⟨system,unsent⟩)
    (next : RunFaithful contents log unsent' run') : Faithful contents log ⟨system.withRun run',unsent'⟩ := by
  refine ⟨faithful.reflected,?_⟩
  intro other found
  cases Option.some.inj found
  exact next

theorem reportFaithful {run' : Run} {lsn sent} {unsent' : List DecodedMessage}
    (faithful : Faithful contents log ⟨system,unsent⟩) (next : RunFaithful contents log unsent' run') :
    Faithful contents log ⟨system.report run' lsn sent,unsent'⟩ := by
  have reported : Faithful contents log ⟨{system with reports := system.reports ++ [lsn]},unsent⟩ :=
    ⟨faithful.reflected,faithful.run⟩
  unfold System.report
  split
  · exact withRunFaithful reported ⟨next.remaining,next.opened,next.received⟩
  · exact stopFaithful reported

theorem deliverFaithful {message sender sent unsent'} (holds : Invariant log job initial system checkpoint)
    (faithful : Faithful contents log ⟨system,unsent⟩) (known : system.run = some run) (stage : run.stage = .receiving)
    (sends : run.sender.send message = some sender) (next : unsentAfter contents run.sender unsent message = some unsent') :
    Faithful contents log ⟨deliver system run sender message sent,unsent'⟩ := by
  have aligned := (holds.run run known).1.aligned
  have before := faithful.run run known
  have pending : unapplied run = run.batcher.pending := by simp [unapplied,stage]
  have received := before.received
  rw [pending] at received
  unfold deliver
  cases got : run.source.receive message with
  | error _ => exact stopFaithful faithful
  | ok result =>
    obtain ⟨outcome,source⟩ := result
    obtain ⟨_,_,consumes⟩ := receiveAligned aligned sends got
    obtain ⟨⟨event,assembler⟩,pushed,ok⟩ := bindOk.mp got
    obtain ⟨opened,complete⟩ := pushOpened aligned sends next before.opened (mapErrorOk.mp pushed)
    have remaining : ∀ entry ∈ sender.remaining, entry ∈ log :=
      fun entry mem => before.remaining entry (sendRemaining sends entry mem)
    simp only at ok
    split at ok
    · rename_i committed
      cases Except.ok.inj ok
      generalize all : run.sender.remaining = entries at consumes
      generalize sender.remaining = rest at consumes
      cases consumes with
      | transaction xid position =>
        rename_i entry
        have fromLog : FromLog contents log committed.transaction :=
          ⟨entry,before.remaining entry (by rw [all]; exact List.mem_cons_self),
            by simp [mark,lsnOf,commitMark,xid,position,SourceNodeIdentity.position],complete committed rfl entry _ all⟩
        simp only
        cases batched : run.batcher.push committed.transaction with
        | error _ => exact stopFaithful faithful
        | ok result =>
          obtain ⟨full,batcher⟩ := result
          have order := pushSource batched
          have kept : ∀ transaction ∈ full.elim [] TransactionBatch.transactions ++ batcher.pending,
              FromLog contents log transaction := by
            intro transaction mem
            rw [order] at mem
            rcases List.mem_append.mp mem with mem | mem
            · exact received transaction mem
            · rw [List.mem_singleton.mp mem]
              exact fromLog
          cases full with
          | none => exact withRunFaithful faithful ⟨remaining,opened,by simpa [unapplied,stage] using kept⟩
          | some batch => exact withRunFaithful faithful ⟨remaining,opened,by simpa [unapplied] using kept⟩
    · rename_i walEnd timestamp reply
      cases Except.ok.inj ok
      cases reply with
      | false => exact withRunFaithful faithful ⟨remaining,opened,by simpa [unapplied,stage] using received⟩
      | true => exact reportFaithful faithful ⟨remaining,opened,by simpa [unapplied,stage] using received⟩
    · cases Except.ok.inj ok
      exact withRunFaithful faithful ⟨remaining,opened,by simpa [unapplied,stage] using received⟩

theorem flushFaithful {batch batcher last} (faithful : Faithful contents log ⟨system,unsent⟩)
    (known : system.run = some run) (stage : run.stage = .receiving) (flushed : run.batcher.flush = (some batch,batcher)) :
    Faithful contents log ⟨system.withRun {run with batcher := batcher, stage := .applying batch last},unsent⟩ := by
  have before := faithful.run run known
  obtain ⟨same,empty⟩ := flushSource flushed
  exact withRunFaithful faithful
    ⟨before.remaining,before.opened,by simpa [unapplied,stage,same,empty] using before.received⟩

theorem startFaithful {lsn} (faithful : Faithful contents log ⟨system,unsent⟩) :
    Faithful contents log ⟨{system with run := startRun log job lsn},unsent⟩ := by
  refine ⟨faithful.reflected,?_⟩
  intro run found
  simp only [startRun,bind,Option.bind_eq_some_iff,toOptionSome,Option.some.injEq] at found
  obtain ⟨assembler,created,batcher,batcherOk,rfl⟩ := found
  obtain ⟨_,batcherOk⟩ := iteOk.mp batcherOk
  cases Except.ok.inj batcherOk
  exact ⟨fun entry mem => List.mem_of_mem_filter mem,fun inside => by simp [streamFrom] at inside,by simp [unapplied]⟩

theorem applyFaithful {equal : Operators} {batch last} (faithful : Faithful contents log ⟨system,unsent⟩)
    (known : system.run = some run) (stage : run.stage = .applying batch last) :
    Faithful contents log ⟨applyBatch job equal system run batch last,unsent⟩ := by
  have before := faithful.run run known
  have received : ∀ transaction ∈ batch.transactions ++ run.batcher.pending, FromLog contents log transaction := by
    simpa [unapplied,stage] using before.received
  unfold applyBatch
  cases job.sink.apply equal system.target batch with
  | error _ => exact stopFaithful faithful
  | ok target =>
    refine ⟨?_,?_⟩
    · intro transaction mem
      rcases List.mem_append.mp mem with mem | mem
      · exact faithful.reflected transaction mem
      · exact received transaction (List.mem_append_left _ mem)
    · intro other found
      cases Option.some.inj found
      exact ⟨before.remaining,before.opened,
        fun transaction mem => received transaction (List.mem_append_right _ (by simpa [unapplied] using mem))⟩

theorem acknowledgeFaithful {batch last sent} (faithful : Faithful contents log ⟨system,unsent⟩)
    (known : system.run = some run) (stage : run.stage = .applied batch last) :
    Faithful contents log ⟨Replication.acknowledge system run batch last sent,unsent⟩ := by
  have before := faithful.run run known
  unfold Replication.acknowledge
  cases accepted : run.source.acknowledge batch.finalTransaction.finalPosition with
  | error _ => exact stopFaithful faithful
  | ok source =>
    obtain ⟨_,_,ok⟩ := bindOk.mp accepted
    cases Except.ok.inj ok
    exact reportFaithful faithful ⟨before.remaining,before.opened,by simpa [unapplied,stage] using before.received⟩

theorem eventFaithful (equal : Operators) {event : Event}
    (quiet : ∀ message sent, event = .deliver message sent → system.run = none)
    (faithful : Faithful contents log ⟨system,unsent⟩) :
    Faithful contents log ⟨Replication.step log job equal system event,unsent⟩ := by
  unfold Replication.step
  cases known : system.run with
  | none =>
    simp only
    split
    · exact startFaithful faithful
    · exact faithful
  | some run =>
    simp only
    cases event with
    | start => exact faithful
    | cancel => exact stopFaithful faithful
    | crash => exact stopFaithful faithful
    | deliver message sent =>
      rw [quiet message sent rfl] at known
      contradiction
    | streamEnd =>
      cases stage : run.stage with
      | receiving =>
        simp only [streamEnd]
        split
        · exact stopFaithful faithful
        · exact stopFaithful faithful
        · rename_i flushed
          exact flushFaithful faithful known stage flushed
      | _ => exact faithful
    | streamError =>
      cases run.stage with
      | receiving => exact stopFaithful faithful
      | _ => exact faithful
    | timer =>
      cases stage : run.stage with
      | receiving =>
        simp only [timer]
        split
        · exact faithful
        · rename_i flushed
          exact flushFaithful faithful known stage flushed
      | _ => exact faithful
    | apply commits =>
      cases stage : run.stage with
      | applying batch last =>
        cases commits with
        | true => exact applyFaithful faithful known stage
        | false => exact stopFaithful faithful
      | _ => exact faithful
    | acknowledge sent =>
      cases stage : run.stage with
      | applied batch last => exact acknowledgeFaithful faithful known stage
      | _ => exact faithful

end Runs

section Source
variable (contents : Contents) (log : List SourceCommit) (job : Job) (equal : Operators)

inductive StepSource (live : Live) (event : Event) : Live → Prop where
  | idle : StepSource live event live
  | delivered {run message sent sender unsent} (known : live.system.run = some run) (stage : run.stage = .receiving)
      (is : event = .deliver message sent) (sends : run.sender.send message = some sender)
      (next : unsentAfter contents run.sender live.unsent message = some unsent) :
      StepSource live event ⟨Replication.step log job equal live.system event,unsent⟩
  | other (quiet : ∀ message sent, event = .deliver message sent → live.system.run = none) :
      StepSource live event ⟨Replication.step log job equal live.system event,live.unsent⟩

theorem stepSource (live : Live) (event : Event) :
    StepSource contents log job equal live event (step log contents job equal live event) := by
  unfold step
  split
  · rename_i message sent run known
    split
    · rename_i sends next
      split
      · rename_i stage
        exact .delivered known stage rfl sends next
      · exact .idle
    · exact .idle
  · rename_i other
    refine .other ?_
    rintro message sent rfl
    cases known : live.system.run with
    | none => rfl
    | some run => exact absurd known (other message sent run rfl)

end Source

section Live
variable {contents : Contents} {log : List SourceCommit} {job : Job} {equal : Operators}

theorem stepServes {initial checkpoint live} (event : Event) (increasing : Increasing SourceCommit.endLsn log)
    (holds : Invariant log job initial live.system checkpoint) (faithful : Faithful contents log live) :
    (∃ later, Invariant log job initial (step log contents job equal live event).system later) ∧
      Faithful contents log (step log contents job equal live event) := by
  generalize after : step log contents job equal live event = next
  have source := stepSource contents log job equal live event
  rw [after] at source
  cases source with
  | idle => exact ⟨⟨checkpoint,holds⟩,faithful⟩
  | delivered known stage is sends received =>
    refine ⟨stepKeeps equal event increasing holds,?_⟩
    subst is
    unfold Replication.step
    simp only [known,stage,sends]
    exact deliverFaithful holds faithful known stage sends received
  | other quiet => exact ⟨stepKeeps equal event increasing holds,eventFaithful equal quiet faithful⟩

theorem beginsFaithful (target : Target) : Faithful contents log (.begins target) := ⟨by simp [Live.begins],by simp [Live.begins]⟩

theorem stepsServe {initial : PgLsn} (increasing : Increasing SourceCommit.endLsn log) (events : List Event) :
    ∀ {live checkpoint}, Invariant log job initial live.system checkpoint → Faithful contents log live →
    ∃ later, Invariant log job initial (steps log contents job equal live events).system later ∧
      Faithful contents log (steps log contents job equal live events) := by
  induction events with
  | nil => exact fun holds faithful => ⟨_,holds,faithful⟩
  | cons event events ih =>
    intro live checkpoint holds faithful
    obtain ⟨⟨later,holds⟩,faithful⟩ := stepServes event increasing holds faithful
    exact ih holds faithful

theorem reflectedCarries {initial checkpoint : PgLsn} {live : Live} (increasing : Increasing SourceCommit.endLsn log)
    (holds : Invariant log job initial live.system checkpoint) (faithful : Faithful contents log live) :
    List.Forall₂ (fun transaction entry => Carries transaction.changes (changesOf (contents entry)))
      live.system.reflected (between SourceCommit.endLsn log initial checkpoint) := by
  have inLog : ∀ entry ∈ between SourceCommit.endLsn log initial checkpoint, entry ∈ log :=
    fun entry mem => List.mem_of_mem_filter mem
  have marks := holds.reflected
  have origin := faithful.reflected
  generalize live.system.reflected = transactions at marks origin
  generalize between SourceCommit.endLsn log initial checkpoint = entries at marks inLog
  induction transactions generalizing entries with
  | nil =>
    rw [List.map_eq_nil_iff.mp marks.symm]
    exact .nil
  | cons transaction transactions ih =>
    cases entries with
    | nil => simp at marks
    | cons entry entries =>
      obtain ⟨here,later⟩ := List.cons.inj marks
      obtain ⟨other,memOther,otherMark,carries⟩ := origin transaction List.mem_cons_self
      obtain rfl := increasingInjective increasing memOther (inLog entry List.mem_cons_self)
        (congrArg Prod.snd (otherMark.symm.trans here))
      exact .cons carries (ih (fun t mem => origin t (List.mem_cons_of_mem _ mem)) entries later
        (fun e mem => inLog e (List.mem_cons_of_mem _ mem)))

end Live

end CloudberryEtl.LogContents
