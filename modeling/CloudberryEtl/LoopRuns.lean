import CloudberryEtl.Acknowledgement

/-! A run of the replicated system is a run of its loop: the messages that the source sends and the outcome of each
apply are the events of the loop, so what holds of every run of the loop holds of the system. -/
namespace CloudberryEtl.LoopRuns
open Change Result Wire Batch Adapter TargetStore Replication Acknowledgement SortedLog
open Delivery (Invariant beginsInvariant lsnOf mark commitMark unapplied)

def standing : Stage → Point
  | .receiving => .receiving
  | .applying batch last => .applying batch last
  | .applied batch last => .applied batch last

structure Follows (start : PgLsn) (loop : Loop) (run : Run) : Prop where
  source : loop.source = run.source
  batcher : loop.batcher = run.batcher
  point : loop.point = standing run.stage
  ahead : ∀ entry ∈ run.sender.remaining, start < entry.endLsn

def Followed (start : PgLsn) (loop : Loop) (system : System) : Prop :=
  match system.run with
  | none => loop.point = .ended
  | some run => Follows start loop run

def Inside (start : PgLsn) (event : Event) : Prop :=
  ∀ commitLsn endLsn timestamp flags sent, event = .deliver (.commit commitLsn endLsn timestamp flags) sent → start ≤ endLsn

section Step
variable {start : PgLsn} {loop : Loop} {system : System} {run : Run}

theorem stopFollowed : Followed start loop.stop system.stop := rfl

theorem sendRemaining {sender sender' : WalSender} {message} (sent : sender.send message = some sender') :
    sender'.remaining ⊆ sender.remaining := by
  unfold WalSender.send at sent
  split at sent
  · cases sent
    exact List.Subset.refl _
  · split at sent <;> try contradiction
    split at sent <;> try contradiction
    cases sent
    exact List.Subset.refl _
  · split at sent <;> try contradiction
    split at sent <;> try contradiction
    cases sent
    exact List.subset_cons_self _ _
  · split at sent <;> try contradiction
    cases sent
    exact List.Subset.refl _

theorem sentCommit {sender sender' : WalSender} {commitLsn endLsn timestamp flags}
    (sent : sender.send (.commit commitLsn endLsn timestamp flags) = some sender') :
    ∃ entry ∈ sender.remaining, entry.endLsn = endLsn := by
  simp only [WalSender.send] at sent
  split at sent <;> try contradiction
  rename_i entry rest
  split at sent <;> try contradiction
  rename_i matching
  exact ⟨entry,List.mem_cons_self,matching.2.1.symm⟩

theorem deliverFollowed {sender : WalSender} {message sent} (follows : Follows start loop run)
    (receiving : run.stage = .receiving) (ahead : ∀ entry ∈ sender.remaining, start < entry.endLsn) :
    Followed start (Acknowledgement.deliver loop message sent) (Replication.deliver system run sender message sent) := by
  have here : loop.point = .receiving := by rw [follows.point,receiving]; rfl
  unfold Acknowledgement.deliver Replication.deliver
  rw [follows.source]
  cases received : run.source.receive message with
  | error => exact stopFollowed
  | ok answer =>
    obtain ⟨item,source⟩ := answer
    cases item with
    | nothing => exact ⟨rfl,follows.batcher,follows.point,ahead⟩
    | status lsn =>
      cases sent with
      | false => rfl
      | true => exact ⟨rfl,follows.batcher,by simp [receiving,standing],ahead⟩
    | transaction transaction =>
      simp only [follows.batcher]
      cases pushed : run.batcher.push transaction with
      | error => rfl
      | ok answer =>
        obtain ⟨full,batcher⟩ := answer
        cases full with
        | none => exact ⟨rfl,rfl,by simp [receiving,standing],ahead⟩
        | some batch => exact ⟨rfl,rfl,rfl,ahead⟩

theorem timerFollowed (active : system.run = some run) (follows : Follows start loop run) :
    Followed start (flush loop false) (timer system run) := by
  unfold flush timer
  rw [follows.batcher]
  cases flushed : run.batcher.flush with
  | mk full batcher =>
    cases full with
    | none =>
      simp only [Followed,active]
      exact follows
    | some batch => exact ⟨follows.source,rfl,rfl,follows.ahead⟩

theorem acknowledgeFollowed {batch last sent} (follows : Follows start loop run) :
    Followed start (Acknowledgement.acknowledge loop batch last sent)
      (Replication.acknowledge system run batch last sent) := by
  unfold Acknowledgement.acknowledge Replication.acknowledge
  rw [follows.source]
  cases accepted : run.source.acknowledge batch.finalTransaction.finalPosition with
  | error => exact stopFollowed
  | ok source =>
    cases going : sent && !last with
    | false => simp [Followed,System.report,System.stop]
    | true => exact ⟨rfl,follows.batcher,rfl,follows.ahead⟩

theorem streamEndFollowed (follows : Follows start loop run) (receiving : run.stage = .receiving) :
    Followed start (Acknowledgement.step loop .streamEnd) (streamEnd system run) := by
  have here : loop.point = .receiving := by rw [follows.point,receiving]; rfl
  simp only [Acknowledgement.step,here,streamEnd,follows.source,flush,follows.batcher]
  cases finished : run.source.assembler.finish with
  | error => exact stopFollowed
  | ok =>
    cases flushed : run.batcher.flush with
    | mk full batcher =>
      cases full with
      | none => exact stopFollowed
      | some batch => exact ⟨rfl,rfl,rfl,follows.ahead⟩

theorem restFollowed (follows : Followed start loop system) :
    ∃ event, Inside start event ∧ Followed start (Acknowledgement.step loop event) system := by
  refine ⟨.start,?_,?_⟩
  · intro _ _ _ _ _ same
    cases same
  · exact follows

theorem stopsFollowed : ∃ event, Inside start event ∧ Followed start (Acknowledgement.step loop event) system.stop := by
  refine ⟨.cancel,?_,stopFollowed⟩
  intro _ _ _ _ _ same
  cases same

theorem applyFollowed {job : Job} {equal : StagedApply.Operators} {batch last} (follows : Follows start loop run)
    (applying : run.stage = .applying batch last) :
    ∃ event, Inside start event ∧
      Followed start (Acknowledgement.step loop event) (applyBatch job equal system run batch last) := by
  have here : loop.point = .applying batch last := by rw [follows.point,applying]; rfl
  unfold applyBatch
  cases job.sink.apply equal system.target batch with
  | error => exact stopsFollowed
  | ok target =>
    refine ⟨.apply true,?_,?_⟩
    · intro _ _ _ _ _ same
      cases same
    · simp only [Acknowledgement.step,here]
      exact ⟨follows.source,follows.batcher,rfl,follows.ahead⟩

theorem runFollowed {log : List SourceCommit} {job : Job} {equal : StagedApply.Operators} {event : Event}
    (active : system.run = some run) (follows : Follows start loop run) :
    ∃ event', Inside start event' ∧
      Followed start (Acknowledgement.step loop event') (Replication.step log job equal system event) := by
  have stays : Followed start loop system := by
    simp only [Followed,active]
    exact follows
  have point := follows.point
  simp only [Replication.step,active]
  cases event with
  | start => exact restFollowed stays
  | cancel => exact stopsFollowed
  | crash => exact stopsFollowed
  | streamError =>
    cases run.stage with
    | receiving => exact stopsFollowed
    | applying batch last => exact restFollowed stays
    | applied batch last => exact restFollowed stays
  | deliver message sent =>
    cases stage : run.stage with
    | applying batch last => exact restFollowed stays
    | applied batch last => exact restFollowed stays
    | receiving =>
      cases sends : run.sender.send message with
      | none =>
        simp only [sends]
        exact restFollowed stays
      | some sender =>
        refine ⟨.deliver message sent,?_,?_⟩
        · intro commitLsn endLsn timestamp flags sent' same
          cases same
          obtain ⟨entry,mem,same⟩ := sentCommit sends
          exact same ▸ Nat.le_of_lt (follows.ahead entry mem)
        · rw [stage] at point
          simp only [Acknowledgement.step,point,standing,sends]
          exact deliverFollowed follows stage fun entry mem => follows.ahead entry (sendRemaining sends mem)
  | streamEnd =>
    cases stage : run.stage with
    | applying batch last => exact restFollowed stays
    | applied batch last => exact restFollowed stays
    | receiving =>
      refine ⟨.streamEnd,?_,streamEndFollowed follows stage⟩
      intro _ _ _ _ _ same
      cases same
  | timer =>
    cases stage : run.stage with
    | applying batch last => exact restFollowed stays
    | applied batch last => exact restFollowed stays
    | receiving =>
      refine ⟨.timer,?_,?_⟩
      · intro _ _ _ _ _ same
        cases same
      · rw [stage] at point
        simp only [Acknowledgement.step,point,standing]
        exact timerFollowed active follows
  | apply commits =>
    cases stage : run.stage with
    | receiving => exact restFollowed stays
    | applied batch last => exact restFollowed stays
    | applying batch last =>
      cases commits with
      | false => exact stopsFollowed
      | true => exact applyFollowed follows stage
  | acknowledge sent =>
    cases stage : run.stage with
    | receiving => exact restFollowed stays
    | applying batch last => exact restFollowed stays
    | applied batch last =>
      refine ⟨.acknowledge sent,?_,?_⟩
      · intro _ _ _ _ _ same
        cases same
      · rw [stage] at point
        simp only [Acknowledgement.step,point,standing]
        exact acknowledgeFollowed follows

end Step

section Durable
variable {loop : Loop}

def LastDurable (loop : Loop) : Prop :=
  ∀ lsn, loop.trace.getLast? = some (.acknowledged lsn) → loop.source.durableAppliedLsn = lsn

theorem deliveredLast {trace : List Mark} {source : PgOutputTransactionSource} {batcher point lsn} :
    LastDurable ⟨source,batcher,point,trace ++ [.delivered lsn]⟩ := by
  intro position last
  rw [List.getLast?_concat] at last
  cases last

theorem deliversDurable {message next} (delivers : Delivers loop message next) (durable : LastDurable loop) :
    LastDurable next := by
  cases delivers with
  | stopped => exact durable
  | quiet _ same _ _ =>
    intro lsn last
    exact same.trans (durable lsn last)
  | refused _ => exact deliveredLast
  | added _ _ => exact deliveredLast
  | filled _ _ _ _ => exact deliveredLast

theorem flushesDurable {last next} (flushes : Flushes loop last next) (durable : LastDurable loop) :
    LastDurable next := by
  cases flushes with
  | empty _ _ => exact durable
  | filled _ _ => exact durable

theorem stepDurable (event : Event) (durable : LastDurable loop) : LastDurable (Acknowledgement.step loop event) := by
  unfold Acknowledgement.step
  split
  next message sent receiving =>
    exact deliversDurable (deliverDelivers message sent receiving) durable
  next => exact durable
  next =>
    split
    next => exact durable
    next => exact flushesDurable (flushFlushes loop _) durable
  next => exact flushesDurable (flushFlushes loop _) durable
  next commits batch last _ =>
    cases commits with
    | false => exact durable
    | true => exact durable
  next sent batch last _ =>
    unfold Acknowledgement.acknowledge
    split
    next => exact durable
    next source accepted =>
      intro lsn marked
      rw [List.getLast?_concat] at marked
      cases marked
      cases acknowledgedSource accepted
      rfl
  next => exact durable
  next => exact durable
  next => exact durable

end Durable

section Runs
variable {log : List SourceCommit} {job : Job} {equal : StagedApply.Operators} {first checkpoint : PgLsn}
  {system : System}

structure Mirrors (start : PgLsn) (loop : Loop) (run : Run) : Prop where
  follows : Follows start loop run
  keeps : Keeps start loop
  waits : Waits loop
  durable : LastDurable loop

def Mirrored (system : System) : Prop := ∀ run, system.run = some run → ∃ start loop, Mirrors start loop run

theorem notStranded {run start loop} (holds : Invariant log job first system checkpoint) (active : system.run = some run)
    (mirrors : Mirrors start loop run) (event : Event) : ¬ Stranded loop event := by
  intro stranded
  obtain ⟨_,transaction,pending,marked,_⟩ := stranded
  have invariant := (holds.run run active).1
  have durable := mirrors.durable _ marked
  rw [mirrors.follows.source] at durable
  have mem : transaction ∈ unapplied run := by
    refine List.mem_append_right _ ?_
    rw [← mirrors.follows.batcher,pending]
    exact List.mem_singleton_self _
  have queued : mark transaction ∈ (behind SourceCommit.endLsn log checkpoint).map commitMark := by
    rw [← invariant.queued]
    exact List.mem_append_left _ (List.mem_map_of_mem mem)
  obtain ⟨entry,inLog,same⟩ := List.mem_map.mp queued
  have beyond : checkpoint < entry.endLsn := of_decide_eq_true (List.mem_filter.mp inLog).2
  have position : entry.endLsn = lsnOf transaction := congrArg Prod.snd same
  have reported := invariant.durable
  rw [durable] at reported
  rw [position] at beyond
  exact absurd reported (not_le.mpr beyond)

theorem startMirrored {lsn run} (started : startRun log job lsn = some run) : ∃ start loop, Mirrors start loop run := by
  obtain ⟨assembler,made,started⟩ := Option.bind_eq_some_iff.mp started
  obtain ⟨batcher,valid,started⟩ := Option.bind_eq_some_iff.mp started
  cases Option.some.inj started
  have begun : Keeps lsn (initial assembler lsn batcher) ∧ Waits (initial assembler lsn batcher) :=
    initialKeeps (toOptionSome.mp made) (toOptionSome.mp valid)
  refine ⟨lsn,initial assembler lsn batcher,⟨rfl,rfl,rfl,?_⟩,begun.1,begun.2,?_⟩
  · intro entry mem
    exact of_decide_eq_true (List.mem_filter.mp mem).2
  · intro lsn marked
    cases marked

theorem stepMirrored (event : Event) (holds : Invariant log job first system checkpoint) (mirrored : Mirrored system) :
    Mirrored (Replication.step log job equal system event) := by
  intro run' reached
  cases active : system.run with
  | some run =>
    obtain ⟨start,loop,mirrors⟩ := mirrored run active
    have next : ∃ event', Inside start event' ∧
        Followed start (Acknowledgement.step loop event') (Replication.step log job equal system event) :=
      runFollowed active mirrors.follows
    obtain ⟨event',inside,followed⟩ := next
    simp only [Followed,reached] at followed
    exact ⟨start,_,followed,stepKeeps event' mirrors.keeps inside,
      stepWaits mirrors.keeps mirrors.waits (notStranded holds active mirrors event'),stepDurable event' mirrors.durable⟩
  | none =>
    cases event with
    | start =>
      simp only [Replication.step,active,holds.stored] at reached
      exact startMirrored reached
    | _ => simp [Replication.step,active] at reached

theorem stepsMirrored (increasing : Increasing SourceCommit.endLsn log) (events : List Event)
    (holds : Invariant log job first system checkpoint) (mirrored : Mirrored system) :
    Mirrored (Replication.steps log job equal system events) := by
  induction events generalizing system checkpoint with
  | nil => exact mirrored
  | cons event events ih =>
    obtain ⟨later,next⟩ := Delivery.stepKeeps equal event increasing holds
    exact ih next (stepMirrored event holds mirrored)

/-- Over every interleaving on a log of transactions that end at increasing positions, whatever was applied can be
acknowledged. -/
theorem appliedAcknowledged {target : Target} (increasing : Increasing SourceCommit.endLsn log)
    (stored : checkpointLsn job target = some first) (events : List Event) :
    let system := Replication.steps log job equal ⟨target,[],[],none⟩ events
    ∀ run batch last, system.run = some run → run.stage = .applied batch last →
      run.source.validateAcknowledgement batch.finalTransaction.finalPosition = .ok () := by
  intro system run batch last active stage
  have idle : Mirrored ⟨target,[],[],none⟩ := by
    intro run none'
    cases none'
  obtain ⟨start,loop,mirrors⟩ := stepsMirrored increasing events (beginsInvariant stored) idle run active
  have point : loop.point = .applied batch last := by
    rw [mirrors.follows.point,stage]
    rfl
  rw [← mirrors.follows.source]
  exact appliedAccepted mirrors.keeps mirrors.waits point

end Runs

end CloudberryEtl.LoopRuns
