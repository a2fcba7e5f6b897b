import CloudberryEtl.Reconciler

/-! What the reconciler keeps over every run: a running task is covered by an owned lease, every lease that was acquired
is held or was released once, and a task is started and a lease released only when no task of the pipeline runs. -/
namespace CloudberryEtl.Ownership
open KeyedTable Lease Reconciler

abbrev LeaseKey := Nat × Nat × Int

def leaseKey (lease : PipelineLease) : LeaseKey := (lease.pipelineId,lease.holderId,lease.fencingToken)

def track (jobs : List PipelineLease) : Event → List PipelineLease
  | .started lease => lease :: jobs
  | .ended lease => jobs.erase lease
  | _ => jobs

def running (log : List Event) : List PipelineLease := log.foldl track []

def Allowed (jobs : List PipelineLease) : Event → Prop
  | .started lease => ∀ job ∈ jobs, job.pipelineId ≠ lease.pipelineId
  | .released lease => ∀ job ∈ jobs, job.pipelineId ≠ lease.pipelineId
  | _ => True

inductive Legal : List Event → Prop where
  | nil : Legal []
  | record {log event} (legal : Legal log) (allowed : Allowed (running log) event) : Legal (log ++ [event])

def acquiredKey : Event → Option LeaseKey
  | .acquired lease => some (leaseKey lease)
  | _ => none

def releasedKey : Event → Option LeaseKey
  | .released lease => some (leaseKey lease)
  | _ => none

def acquisitions (log : List Event) : List LeaseKey := log.filterMap acquiredKey

def releases (log : List Event) : List LeaseKey := log.filterMap releasedKey

def ownedKeys (state : State) : List LeaseKey := state.owned.map (fun owned => leaseKey owned.lease)

def unfinished (state : State) : List PipelineLease :=
  (state.pipelines.filter (fun managed => !managed.finished)).map ManagedPipeline.lease

/- The books of a state in the middle of an action: `hand` are the leases it holds in its variables, `loose` the running
tasks it has taken out of the supervisor. -/
structure Sound (hand : List LeaseKey) (loose : List PipelineLease) (state : State) : Prop where
  tasks : UniqueKeys ManagedPipeline.pipelineId state.pipelines
  named : ∀ managed ∈ state.pipelines, managed.lease.pipelineId = managed.pipelineId
  jobs : (running state.log).Perm (unfinished state ++ loose)
  legal : Legal state.log
  owners : UniqueKeys OwnedPipeline.pipelineId state.owned
  leased : ∀ owned ∈ state.owned, owned.lease.pipelineId = owned.pipelineId
  covered : ∀ managed ∈ state.pipelines, leaseKey managed.lease ∈ ownedKeys state ++ hand
  accounted : (acquisitions state.log).Perm (releases state.log ++ (ownedKeys state ++ hand))

theorem runningRecord (log : List Event) (event : Event) : running (log ++ [event]) = track (running log) event := by
  simp [running]

theorem acquisitionsRecord (log : List Event) (event : Event) :
    acquisitions (log ++ [event]) = acquisitions log ++ (acquiredKey event).toList := by
  cases event <;> simp [acquisitions,acquiredKey]

theorem releasesRecord (log : List Event) (event : Event) :
    releases (log ++ [event]) = releases log ++ (releasedKey event).toList := by
  cases event <;> simp [releases,releasedKey]

theorem unfinishedSplit {state : State} {managed : ManagedPipeline} {pipelineId : Nat}
    (unique : UniqueKeys ManagedPipeline.pipelineId state.pipelines)
    (found : lookup ManagedPipeline.pipelineId state.pipelines pipelineId = some managed)
    (going : managed.finished = false) :
    (unfinished state).Perm (managed.lease :: ((state.pipelines.filter (fun other => other.pipelineId ≠ pipelineId)).filter
      (fun other => !other.finished)).map ManagedPipeline.lease) := by
  have split := ((permWithout unique found).filter (fun other => !other.finished)).map ManagedPipeline.lease
  rwa [List.filter_cons_of_pos (by simp [going]),List.map_cons] at split

section Frame
variable {hand : List LeaseKey} {loose : List PipelineLease} {state : State}

theorem Sound.same {state' : State} (sound : Sound hand loose state) (owned : state'.owned = state.owned)
    (pipelines : state'.pipelines = state.pipelines) (log : state'.log = state.log) : Sound hand loose state' := by
  obtain ⟨tasks,named,jobs,legal,owners,leased,covered,accounted⟩ := sound
  constructor
  · rwa [pipelines]
  · rwa [pipelines]
  · rwa [unfinished,pipelines,log]
  · rwa [log]
  · rwa [owned]
  · rwa [owned]
  · rwa [pipelines,ownedKeys,owned]
  · rwa [log,ownedKeys,owned]

theorem endJobSound (sound : Sound hand loose state) (pipelineId : Nat) : Sound hand loose (endJob state pipelineId) := by
  unfold endJob
  split
  · exact sound
  · rename_i managed found
    split
    · exact sound
    · rename_i going
      have open' : managed.finished = false := by simpa using going
      have split := unfinishedSplit sound.tasks found open'
      have keys : ∀ other ∈ state.pipelines, (if other.pipelineId = pipelineId then {other with finished := true}
          else other).pipelineId = other.pipelineId := by
        intro other _
        split <;> rfl
      have rest : ∀ rows : List ManagedPipeline, ((rows.map fun other => if other.pipelineId = pipelineId then
          {other with finished := true} else other).filter fun other => !other.finished).map ManagedPipeline.lease =
          ((rows.filter fun other => other.pipelineId ≠ pipelineId).filter fun other => !other.finished).map
            ManagedPipeline.lease := by
        intro rows
        induction rows with
        | nil => rfl
        | cons row rows ih =>
          by_cases here : row.pipelineId = pipelineId
          · simpa [here] using ih
          · by_cases done : row.finished <;> simpa [here,done] using ih
      refine ⟨sound.tasks.mapSameKey keys,?_,?_,.record sound.legal trivial,sound.owners,sound.leased,?_,?_⟩
      · intro other mem
        obtain ⟨row,inRows,rfl⟩ := List.mem_map.mp mem
        have := sound.named row inRows
        split <;> exact this
      · rw [runningRecord]
        have jobs := (sound.jobs.trans (split.append_right loose)).erase managed.lease
        rw [List.cons_append,List.erase_cons_head] at jobs
        simpa only [unfinished,rest,track] using jobs
      · intro other mem
        obtain ⟨row,inRows,rfl⟩ := List.mem_map.mp mem
        have := sound.covered row inRows
        split <;> exact this
      · rw [acquisitionsRecord,releasesRecord]
        simp only [acquiredKey,releasedKey,Option.toList_none,List.append_nil]
        exact sound.accounted

theorem endJobFrame (state : State) (pipelineId : Nat) :
    (endJob state pipelineId).owned = state.owned ∧ (endJob state pipelineId).pipelines.map ManagedPipeline.pipelineId =
      state.pipelines.map ManagedPipeline.pipelineId := by
  unfold endJob
  split
  · exact ⟨rfl,rfl⟩
  · split
    · exact ⟨rfl,rfl⟩
    · refine ⟨rfl,?_⟩
      simp only [List.map_map]
      refine List.map_congr_left fun other _ => ?_
      simp only [Function.comp_apply]
      split <;> rfl

theorem endJobsSound (ended : List Nat) : ∀ {state}, Sound hand loose state → Sound hand loose (ended.foldl endJob state) := by
  induction ended with
  | nil => exact fun sound => sound
  | cons pipelineId ended ih => exact fun sound => ih (endJobSound sound pipelineId)

theorem endJobsFrame (ended : List Nat) : ∀ state, (ended.foldl endJob state).owned = state.owned ∧
    (ended.foldl endJob state).pipelines.map ManagedPipeline.pipelineId = state.pipelines.map ManagedPipeline.pipelineId := by
  induction ended with
  | nil => exact fun state => ⟨rfl,rfl⟩
  | cons pipelineId ended ih =>
    intro state
    obtain ⟨owned,pipelines⟩ := ih (endJob state pipelineId)
    obtain ⟨first,firstIds⟩ := endJobFrame state pipelineId
    exact ⟨owned.trans first,pipelines.trans firstIds⟩

theorem endLoose {lease} (sound : Sound hand (lease :: loose) state) :
    Sound hand loose (state.record (.ended lease)) := by
  refine ⟨sound.tasks,sound.named,?_,.record sound.legal trivial,sound.owners,sound.leased,sound.covered,?_⟩
  · have jobs := (sound.jobs.trans List.perm_middle).erase lease
    rw [List.erase_cons_head] at jobs
    rw [State.record,runningRecord]
    exact jobs
  · rw [State.record,acquisitionsRecord,releasesRecord]
    simp only [acquiredKey,releasedKey,Option.toList_none,List.append_nil]
    exact sound.accounted

theorem takeSound {managed pipelineId} (sound : Sound hand loose state)
    (found : lookup ManagedPipeline.pipelineId state.pipelines pipelineId = some managed) :
    Sound hand (if managed.finished then loose else managed.lease :: loose)
      {state with pipelines := state.pipelines.filter (fun other => other.pipelineId ≠ pipelineId)} := by
  refine ⟨sound.tasks.filter _,fun other mem => sound.named other (List.mem_of_mem_filter mem),?_,sound.legal,sound.owners,
    sound.leased,fun other mem => sound.covered other (List.mem_of_mem_filter mem),sound.accounted⟩
  have all := ((permWithout sound.tasks found).filter (fun other => !other.finished)).map ManagedPipeline.lease
  cases done : managed.finished with
  | true =>
    rw [List.filter_cons_of_neg (by simp [done])] at all
    exact sound.jobs.trans (all.append_right loose)
  | false =>
    rw [List.filter_cons_of_pos (by simp [done]),List.map_cons] at all
    exact sound.jobs.trans ((all.append_right loose).trans List.perm_middle.symm)

theorem removeOwnedSound {owned pipelineId} (sound : Sound hand loose state)
    (found : lookup OwnedPipeline.pipelineId state.owned pipelineId = some owned) :
    Sound (leaseKey owned.lease :: hand) loose (removeOwned state pipelineId) := by
  have keys : (ownedKeys state ++ hand).Perm
      (ownedKeys (removeOwned state pipelineId) ++ leaseKey owned.lease :: hand) :=
    (((permWithout sound.owners found).map (fun (owned : OwnedPipeline) => leaseKey owned.lease)).append_right hand).trans
      List.perm_middle.symm
  exact ⟨sound.tasks,sound.named,sound.jobs,sound.legal,sound.owners.filter _,
    fun other mem => sound.leased other (List.mem_of_mem_filter mem),
    fun managed mem => keys.mem_iff.mp (sound.covered managed mem),sound.accounted.trans (keys.append_left _)⟩

theorem releasedSound {lease} (sound : Sound (leaseKey lease :: hand) [] state)
    (stopped : ∀ managed ∈ state.pipelines, managed.pipelineId ≠ lease.pipelineId) :
    Sound hand [] (state.record (.released lease)) := by
  refine ⟨sound.tasks,sound.named,?_,.record sound.legal ?_,sound.owners,sound.leased,fun managed mem => ?_,?_⟩
  · rw [State.record,runningRecord]
    exact sound.jobs
  · intro job mem
    have listed := sound.jobs.mem_iff.mp mem
    rw [List.append_nil] at listed
    obtain ⟨managed,inTasks,rfl⟩ := List.mem_map.mp listed
    have task := List.mem_of_mem_filter inTasks
    exact sound.named managed task ▸ stopped managed task
  · have listed := sound.covered managed mem
    have other : leaseKey managed.lease ≠ leaseKey lease := by
      intro same
      exact stopped managed mem ((sound.named managed mem).symm.trans (congrArg Prod.fst same))
    simp only [List.mem_append,List.mem_cons,other,false_or] at listed
    exact List.mem_append.mpr listed
  · rw [State.record,acquisitionsRecord,releasesRecord]
    simp only [acquiredKey,releasedKey,Option.toList_none,Option.toList_some,List.append_nil,List.append_assoc]
    exact sound.accounted.trans (List.perm_middle.append_left _)

end Frame

def taskIds (state : State) : List Nat := state.pipelines.map ManagedPipeline.pipelineId

def ownerIds (state : State) : List Nat := state.owned.map OwnedPipeline.pipelineId

section Actions
variable {world : Nat → Moment} {config : ReconcilerConfig} {holderId : Nat} {hand : List LeaseKey}
  {loose : List PipelineLease} {state : State} {pipelineId : Nat} {lease : PipelineLease}

theorem awaitSound (world : Nat → Moment) (sound : Sound hand loose state) : Sound hand loose (await world state) :=
  endJobsSound _ (sound.same rfl rfl rfl)

theorem awaitOwned (world : Nat → Moment) (state : State) : (await world state).owned = state.owned :=
  (endJobsFrame _ _).1

theorem awaitTasks (world : Nat → Moment) (state : State) : taskIds (await world state) = taskIds state :=
  (endJobsFrame _ _).2

theorem releaseSound (world : Nat → Moment) (sound : Sound (leaseKey lease :: hand) [] state) (stopped : lease.pipelineId ∉ taskIds state) :
    Sound hand [] (release world state lease) := by
  refine awaitSound world (releasedSound sound fun managed mem same => stopped ?_)
  exact same ▸ List.mem_map_of_mem mem

theorem releaseOwned (world : Nat → Moment) (state : State) (lease : PipelineLease) :
    (release world state lease).owned = state.owned := awaitOwned world _

theorem releaseTasks (world : Nat → Moment) (state : State) (lease : PipelineLease) :
    taskIds (release world state lease) = taskIds state := awaitTasks world _

theorem stopSound (world : Nat → Moment) (pipelineId : Nat) (sound : Sound hand [] state) : Sound hand [] (stopWithTimeout world state pipelineId) ∧
    pipelineId ∉ taskIds (stopWithTimeout world state pipelineId) ∧
    (stopWithTimeout world state pipelineId).owned = state.owned := by
  have waited := awaitSound world sound
  unfold stopWithTimeout
  simp only
  split
  · rename_i absent
    refine ⟨waited,fun mem => ?_,awaitOwned world state⟩
    obtain ⟨managed,inTasks,same⟩ := List.mem_map.mp mem
    exact lookupNone.mp absent managed inTasks same
  · rename_i managed found
    have taken := awaitSound world (takeSound waited found)
    let rest : State := {await world state with
      pipelines := (await world state).pipelines.filter (fun other => other.pipelineId ≠ pipelineId)}
    have gone : pipelineId ∉ taskIds (await world rest) := by
      rw [awaitTasks]
      simp [taskIds,rest]
    have owned : (await world rest).owned = state.owned := (awaitOwned world rest).trans (awaitOwned world state)
    split
    · rename_i done
      rw [if_pos done] at taken
      exact ⟨taken,gone,owned⟩
    · rename_i going
      rw [if_neg going] at taken
      exact ⟨endLoose taken,gone,owned⟩

theorem removeOwnedIds (state : State) (pipelineId : Nat) : pipelineId ∉ ownerIds (removeOwned state pipelineId) := by
  simp [ownerIds,removeOwned]

theorem stopAndRelease (world : Nat → Moment) {owned : OwnedPipeline} (sound : Sound [] [] state)
    (found : lookup OwnedPipeline.pipelineId state.owned pipelineId = some owned)
    (same : leaseKey lease = leaseKey owned.lease) :
    Sound [] [] (release world (stopWithTimeout world (removeOwned state pipelineId) pipelineId) lease) ∧
      (release world (stopWithTimeout world (removeOwned state pipelineId) pipelineId) lease).owned =
        (removeOwned state pipelineId).owned := by
  have removed := removeOwnedSound sound found
  obtain ⟨stopped,idle,kept⟩ := stopSound world pipelineId removed
  have named : lease.pipelineId = pipelineId :=
    (congrArg Prod.fst same).trans ((sound.leased owned (lookupMem found)).trans (lookupKey found))
  rw [← same] at stopped
  exact ⟨releaseSound world stopped (named ▸ idle),(releaseOwned _ _ _).trans kept⟩

theorem stopOwnedSound (world : Nat → Moment) (pipelineId : Nat) (sound : Sound [] [] state) : Sound [] [] (stopOwned world state pipelineId) ∧
    pipelineId ∉ ownerIds (stopOwned world state pipelineId) := by
  unfold stopOwned
  split
  · rename_i absent
    refine ⟨sound,fun mem => ?_⟩
    obtain ⟨owned,inOwned,same⟩ := List.mem_map.mp mem
    exact lookupNone.mp absent owned inOwned same
  · rename_i owned found
    obtain ⟨stopped,kept⟩ := stopAndRelease world sound found rfl
    exact ⟨stopped,by rw [ownerIds,kept]; exact removeOwnedIds state pipelineId⟩

theorem reapTasksSound (world : Nat → Moment) (idText durationText : Nat → String) (sound : Sound [] [] state) :
    Sound [] [] (reapTasks world idText durationText state).2 ∧
    (reapTasks world idText durationText state).2.owned = state.owned ∧
    ∀ ids, (reapTasks world idText durationText state).1 = some ids → ∀ pipelineId ∈ ids,
      pipelineId ∉ taskIds (reapTasks world idText durationText state).2 := by
  have waited := awaitSound world sound
  let rest : State := {await world state with
    pipelines := (await world state).pipelines.filter (fun managed => !managed.finished)}
  have reaped : Sound [] [] rest := by
    refine ⟨waited.tasks.filter _,fun managed mem => waited.named managed (List.mem_of_mem_filter mem),?_,waited.legal,
      waited.owners,waited.leased,fun managed mem => waited.covered managed (List.mem_of_mem_filter mem),waited.accounted⟩
    have same : unfinished rest = unfinished (await world state) := by simp [unfinished,rest,List.filter_filter]
    rw [same]
    exact waited.jobs
  have idle : ∀ moment, ∀ pipelineId ∈ inOrder moment id (((await world state).pipelines.filter ManagedPipeline.finished).map
      ManagedPipeline.pipelineId), pipelineId ∉ taskIds (await world rest) := by
    intro moment pipelineId mem
    obtain ⟨managed,inTasks,rfl⟩ := List.mem_map.mp ((List.mem_insertionSort _).mp mem)
    obtain ⟨task,done⟩ := List.mem_filter.mp inTasks
    rw [awaitTasks]
    intro listed
    obtain ⟨other,inRest,same⟩ := List.mem_map.mp listed
    obtain ⟨otherTask,going⟩ := List.mem_filter.mp inRest
    have equal := lookupOfMem waited.tasks otherTask
    rw [same,lookupOfMem waited.tasks task] at equal
    cases Option.some.inj equal
    simp [done] at going
  have owned : (await world rest).owned = state.owned := (awaitOwned world rest).trans (awaitOwned world state)
  unfold reapTasks
  simp only
  split
  · refine ⟨awaitSound world reaped,owned,fun ids same => ?_⟩
    cases Option.some.inj same
    exact idle _
  · exact ⟨awaitSound world reaped,owned,fun ids same => by contradiction⟩

/- No record of a task that has ended by itself panics. -/
def Reportable (world : Nat → Moment) (idText durationText : Nat → String) (state : State) : Prop :=
  ∀ managed ∈ (await world state).pipelines, managed.finished → ∀ failure,
    ((await world state).moment world).joined managed.pipelineId = .error failure →
    Telemetry.CutsCleanly (failure.display idText durationText)

theorem reapsIff (world : Nat → Moment) (idText durationText : Nat → String) (state : State) :
    (reapTasks world idText durationText state).1.isSome ↔ Reportable world idText durationText state := by
  let moment := (await world state).moment world
  let ids := inOrder moment id (((await world state).pipelines.filter ManagedPipeline.finished).map ManagedPipeline.pipelineId)
  let tasks := ids.map (fun pipelineId => (⟨pipelineId,moment.joined pipelineId,moment.now⟩ : Telemetry.Finished))
  have reaps := Telemetry.reapsIff idText durationText tasks (fun pipelineId => some (moment.telemetry pipelineId))
  have clean : (∀ finished ∈ tasks, Telemetry.RecordsCleanly idText durationText finished false
      (fun pipelineId => some (moment.telemetry pipelineId))) ↔ Reportable world idText durationText state := by
    constructor
    · intro clean managed mem done failure failed
      have listed : managed.pipelineId ∈ ids :=
        (List.mem_insertionSort _).mpr (List.mem_map_of_mem (List.mem_filter.mpr ⟨mem,done⟩))
      exact clean _ (List.mem_map_of_mem listed) failure failed rfl rfl
    · intro reportable finished mem failure failed _ _
      obtain ⟨pipelineId,listed,rfl⟩ := List.mem_map.mp mem
      obtain ⟨managed,inTasks,rfl⟩ := List.mem_map.mp ((List.mem_insertionSort _).mp listed)
      obtain ⟨task,done⟩ := List.mem_filter.mp inTasks
      exact reportable managed task done failure failed
  rw [← clean,← reaps]
  unfold reapTasks
  simp only
  split
  · rename_i returned
    exact ⟨fun _ => returned,fun _ => rfl⟩
  · rename_i panicked
    refine ⟨fun some' => by contradiction,fun returned => ?_⟩
    exact absurd (returned.symm.trans panicked) (by decide)

end Actions

section Ticks
variable (world : Nat → Moment) (idText durationText : Nat → String) (config : ReconcilerConfig) (holderId : Nat)
  {state : State} {pipelineId : Nat}

theorem reapOneSound (sound : Sound [] [] state) (idle : pipelineId ∉ taskIds state) :
    Sound [] [] (reapOne world config state pipelineId) ∧
      taskIds (reapOne world config state pipelineId) = taskIds state := by
  unfold reapOne
  split
  · exact ⟨sound,rfl⟩
  · rename_i owned found
    have named : owned.lease.pipelineId = pipelineId := (sound.leased owned (lookupMem found)).trans (lookupKey found)
    have released := releaseSound world (removeOwnedSound sound found) (named ▸ idle)
    have tasks := releaseTasks world (removeOwned state pipelineId) owned.lease
    simp only
    refine ⟨?_,?_⟩
    · split
      · exact released.same rfl rfl rfl
      · exact released.same rfl rfl rfl
    · split
      · exact tasks
      · exact tasks

theorem reapSound (ids : List Nat) : ∀ {state}, Sound [] [] state → (∀ pipelineId ∈ ids, pipelineId ∉ taskIds state) →
    Sound [] [] (ids.foldl (reapOne world config) state) := by
  induction ids with
  | nil => exact fun sound _ => sound
  | cons pipelineId ids ih =>
    intro state sound idle
    obtain ⟨reaped,tasks⟩ := reapOneSound world config sound (idle pipelineId List.mem_cons_self)
    refine ih reaped fun other mem => ?_
    rw [tasks]
    exact idle other (List.mem_cons_of_mem _ mem)

theorem reapFinishedSound {state' : State} (sound : Sound [] [] state)
    (ok : reapFinished world idText durationText config state = .ok state') : Sound [] [] state' := by
  obtain ⟨reaped,_,idle⟩ := reapTasksSound world idText durationText sound
  unfold reapFinished at ok
  split at ok
  · rename_i ids after same
    cases Except.ok.inj ok
    rw [same] at reaped idle
    exact reapSound world config ids reaped (idle ids rfl)
  · contradiction

def books (state : State) : List (Nat × LeaseKey) :=
  state.owned.map (fun owned => (owned.pipelineId,leaseKey owned.lease))

theorem booksFound {due : OwnedPipeline} (unique : UniqueKeys OwnedPipeline.pipelineId state.owned)
    (listed : (due.pipelineId,leaseKey due.lease) ∈ books state) :
    ∃ owned, lookup OwnedPipeline.pipelineId state.owned due.pipelineId = some owned ∧
      leaseKey owned.lease = leaseKey due.lease := by
  obtain ⟨owned,mem,same⟩ := List.mem_map.mp listed
  obtain ⟨samePipeline,sameKey⟩ := Prod.mk.inj same
  exact ⟨owned,samePipeline ▸ lookupOfMem unique mem,sameKey⟩

theorem renewOneSound (lost : List OwnedPipeline) {due : OwnedPipeline} (sound : Sound [] [] state)
    (listed : (due.pipelineId,leaseKey due.lease) ∈ books state) :
    Sound [] [] (renewOne world config (state,lost) due).1 ∧
      books (renewOne world config (state,lost) due).1 = books state ∧
      ((renewOne world config (state,lost) due).2 = lost ∨ (renewOne world config (state,lost) due).2 = lost ++ [due]) := by
  have waited := awaitSound world sound
  have kept : books (await world state) = books state := by rw [books,awaitOwned]; rfl
  obtain ⟨owned,found,sameKey⟩ := booksFound waited.owners (kept ▸ listed)
  have samePair : ∀ other ∈ (await world state).owned, other.pipelineId = due.pipelineId →
      leaseKey other.lease = leaseKey due.lease := by
    intro other mem same
    have equal := lookupOfMem waited.owners mem
    rw [same,found] at equal
    cases Option.some.inj equal
    exact sameKey
  unfold renewOne
  simp only
  split
  · rename_i expiresAt _
    simp only [found]
    split
    · exact ⟨waited,kept,.inr rfl⟩
    · let renewed := fun (other : OwnedPipeline) => if other.pipelineId = due.pipelineId then {other with
            lease := {due.lease with expiresAt := expiresAt}
            nextRenewal := (state.moment world).reading due.pipelineId + config.leaseRenewInterval
            stopAt := leaseStopAt config ((state.moment world).reading due.pipelineId)}
          else other
      have pairs : ∀ other ∈ (await world state).owned, (renewed other).pipelineId = other.pipelineId ∧
          leaseKey (renewed other).lease = leaseKey other.lease := by
        intro other mem
        by_cases here : other.pipelineId = due.pipelineId
        · simp only [renewed,here,if_true]
          exact ⟨trivial,(samePair other mem here).symm⟩
        · simp [renewed,here]
      have keys : (await world state).owned.map (fun other => leaseKey (renewed other).lease) =
          (await world state).owned.map (fun other => leaseKey other.lease) :=
        List.map_congr_left fun other mem => (pairs other mem).2
      refine ⟨⟨waited.tasks,waited.named,waited.jobs,waited.legal,
        waited.owners.mapSameKey fun other mem => (pairs other mem).1,fun other mem => ?_,fun managed mem => ?_,?_⟩,?_,.inl rfl⟩
      · obtain ⟨row,inRows,rfl⟩ := List.mem_map.mp mem
        have same := congrArg Prod.fst (pairs row inRows).2
        exact same.trans ((waited.leased row inRows).trans (pairs row inRows).1.symm)
      · have covered := waited.covered managed mem
        rw [ownedKeys] at covered ⊢
        simp only [List.map_map]
        exact keys ▸ covered
      · have accounted := waited.accounted
        rw [ownedKeys] at accounted ⊢
        simp only [List.map_map]
        exact keys ▸ accounted
      · rw [← kept,books,books,List.map_map]
        refine List.map_congr_left fun other mem => ?_
        exact Prod.ext (pairs other mem).1 (pairs other mem).2
  · exact ⟨waited,kept,.inr rfl⟩

theorem renewAllSound (due : List OwnedPipeline) : ∀ {state} (lost), Sound [] [] state →
    (∀ entry ∈ due, (entry.pipelineId,leaseKey entry.lease) ∈ books state) →
    Sound [] [] (due.foldl (renewOne world config) (state,lost)).1 ∧
      books (due.foldl (renewOne world config) (state,lost)).1 = books state ∧
      ∃ more, (due.foldl (renewOne world config) (state,lost)).2 = lost ++ more ∧ more.Sublist due := by
  induction due with
  | nil => exact fun lost sound _ => ⟨sound,rfl,[],by simp,.refl _⟩
  | cons entry due ih =>
    intro state lost sound listed
    obtain ⟨first,kept,step⟩ := renewOneSound world config lost sound (listed entry List.mem_cons_self)
    rw [List.foldl_cons]
    generalize renewOne world config (state,lost) entry = next at *
    obtain ⟨state',lost'⟩ := next
    obtain ⟨rest,keptRest,more,sameMore,part⟩ := ih lost' first
      (fun other mem => kept ▸ listed other (List.mem_cons_of_mem _ mem))
    refine ⟨rest,keptRest.trans kept,?_⟩
    rcases step with same | same
    · cases same
      exact ⟨more,sameMore,part.cons _⟩
    · cases same
      exact ⟨entry :: more,sameMore.trans (List.append_assoc lost [entry] more),part.cons_cons _⟩

theorem leaseLostSound {lost : OwnedPipeline} (sound : Sound [] [] state)
    (listed : (lost.pipelineId,leaseKey lost.lease) ∈ books state) :
    Sound [] [] (leaseLost world config state lost) ∧
      ∀ entry ∈ books state, entry.1 ≠ lost.pipelineId → entry ∈ books (leaseLost world config state lost) := by
  obtain ⟨owned,found,sameKey⟩ := booksFound sound.owners listed
  obtain ⟨released,kept⟩ := stopAndRelease world sound found sameKey.symm
  have others : ∀ entry ∈ books state, entry.1 ≠ lost.pipelineId →
      entry ∈ books (release world (stopWithTimeout world (removeOwned state lost.pipelineId) lost.pipelineId) lost.lease) := by
    intro entry mem apart
    obtain ⟨other,inOwned,rfl⟩ := List.mem_map.mp mem
    rw [books,kept]
    exact List.mem_map.mpr ⟨other,List.mem_filter.mpr ⟨inOwned,by simpa using apart⟩,rfl⟩
  unfold leaseLost
  simp only [found]
  split
  · exact ⟨released.same rfl rfl rfl,others⟩
  · exact ⟨released.same rfl rfl rfl,others⟩

theorem lostSound (lost : List OwnedPipeline) : ∀ {state}, Sound [] [] state →
    UniqueKeys OwnedPipeline.pipelineId lost → (∀ entry ∈ lost, (entry.pipelineId,leaseKey entry.lease) ∈ books state) →
    Sound [] [] (lost.foldl (leaseLost world config) state) := by
  induction lost with
  | nil => exact fun sound _ _ => sound
  | cons entry lost ih =>
    intro state sound unique listed
    obtain ⟨fresh,unique⟩ := List.nodup_cons.mp unique
    obtain ⟨first,others⟩ := leaseLostSound world config sound (listed entry List.mem_cons_self)
    refine ih first unique fun other mem => others _ (listed other (List.mem_cons_of_mem _ mem)) fun same => ?_
    exact fresh (same ▸ List.mem_map_of_mem mem)

theorem renewLeasesSound (sound : Sound [] [] state) : Sound [] [] (renewLeases world config state) := by
  let moment := state.moment world
  let due := inOrder moment OwnedPipeline.pipelineId
    (state.owned.filter (fun owned => owned.nextRenewal ≤ moment.reading owned.pipelineId))
  have perm : due.Perm (state.owned.filter (fun owned => owned.nextRenewal ≤ moment.reading owned.pipelineId)) :=
    List.perm_insertionSort _ _
  have listed : ∀ entry ∈ due, (entry.pipelineId,leaseKey entry.lease) ∈ books state := by
    intro entry mem
    exact List.mem_map.mpr ⟨entry,List.mem_of_mem_filter (perm.mem_iff.mp mem),rfl⟩
  have unique : UniqueKeys OwnedPipeline.pipelineId due := (perm.map _).nodup_iff.mpr (sound.owners.filter _)
  obtain ⟨renewed,kept,more,same,part⟩ := renewAllSound world config due [] sound listed
  refine lostSound world config _ renewed ?_ fun entry mem => ?_
  · rw [same,List.nil_append]
    exact unique.sublist (part.map _)
  · rw [same,List.nil_append] at mem
    exact kept ▸ listed entry (part.subset mem)

theorem failStartSound {lease : PipelineLease} (sound : Sound [leaseKey lease] [] state)
    (idle : lease.pipelineId ∉ taskIds state) : Sound [] [] (failStart world config state lease) :=
  (releaseSound world sound idle).same rfl rfl rfl

theorem acquiredSound {lease : PipelineLease} (sound : Sound [] [] state) :
    Sound [leaseKey lease] [] (state.record (.acquired lease)) := by
  refine ⟨sound.tasks,sound.named,?_,.record sound.legal trivial,sound.owners,sound.leased,fun managed mem => ?_,?_⟩
  · rw [State.record,runningRecord]
    exact sound.jobs
  · have covered := sound.covered managed mem
    rw [List.append_nil] at covered
    exact List.mem_append_left _ covered
  · rw [State.record,acquisitionsRecord,releasesRecord]
    simp only [acquiredKey,releasedKey,Option.toList_none,Option.toList_some,List.append_nil]
    have accounted := sound.accounted.append_right [leaseKey lease]
    rwa [List.append_nil,List.append_assoc] at accounted

theorem startTaskSound {lease : PipelineLease} (pipelineId : Nat) (sound : Sound [leaseKey lease] [] state)
    (named : lease.pipelineId = pipelineId) (idle : pipelineId ∉ taskIds state) :
    (startTask world state pipelineId lease).1 = true ∧
      Sound [leaseKey lease] [] (startTask world state pipelineId lease).2 ∧
      (startTask world state pipelineId lease).2.owned = state.owned := by
  have absent : ∀ {later : State}, pipelineId ∉ taskIds later →
      lookup ManagedPipeline.pipelineId later.pipelines pipelineId = none := by
    intro later idle
    exact lookupNone.mpr fun managed mem same => idle (same ▸ List.mem_map_of_mem mem)
  have waited := awaitSound world sound
  have idle' : pipelineId ∉ taskIds (await world state) := awaitTasks world state ▸ idle
  have all : (await world state).pipelines.filter (fun managed => managed.pipelineId ≠ pipelineId) =
      (await world state).pipelines := by
    refine List.filter_eq_self.mpr fun managed mem => ?_
    simpa using lookupNone.mp (absent idle') managed mem
  have again := awaitSound world waited
  have idleAgain : pipelineId ∉ taskIds (await world (await world state)) := by
    rwa [awaitTasks]
  unfold startTask
  simp only [absent idle',Bool.false_eq_true,if_false,all,absent idleAgain,Option.isSome_none]
  refine ⟨trivial,?_,(awaitOwned world _).trans (awaitOwned world state)⟩
  refine ⟨?_,?_,?_,.record again.legal ?_,again.owners,again.leased,?_,?_⟩
  · exact uniqueAppend again.tasks (List.nodup_singleton _) fun managed mem => by
      rw [List.mem_singleton.mp mem]
      exact absent idleAgain
  · intro managed mem
    rcases List.mem_append.mp mem with mem | mem
    · exact again.named managed mem
    · rw [List.mem_singleton.mp mem]
      exact named
  · rw [State.record,runningRecord]
    simp only [track,unfinished,List.filter_append,List.map_append,List.append_nil]
    refine (again.jobs.cons lease).trans ?_
    rw [List.append_nil]
    exact (List.perm_append_singleton _ _).symm
  · intro job mem
    have listed := again.jobs.mem_iff.mp mem
    rw [List.append_nil] at listed
    obtain ⟨managed,inTasks,rfl⟩ := List.mem_map.mp listed
    have task := List.mem_of_mem_filter inTasks
    rw [again.named managed task,named]
    exact fun same => idleAgain (same ▸ List.mem_map_of_mem task)
  · intro managed mem
    rcases List.mem_append.mp mem with mem | mem
    · exact again.covered managed mem
    · rw [List.mem_singleton.mp mem]
      exact List.mem_append_right _ List.mem_cons_self
  · rw [State.record,acquisitionsRecord,releasesRecord]
    simp only [acquiredKey,releasedKey,Option.toList_none,List.append_nil]
    exact again.accounted

theorem idleOfUnowned (sound : Sound [] [] state) (free : pipelineId ∉ ownerIds state) : pipelineId ∉ taskIds state := by
  intro listed
  obtain ⟨managed,mem,same⟩ := List.mem_map.mp listed
  have covered := sound.covered managed mem
  rw [List.append_nil] at covered
  obtain ⟨owned,inOwned,sameKey⟩ := List.mem_map.mp covered
  have pipelines : owned.lease.pipelineId = managed.lease.pipelineId := congrArg Prod.fst sameKey
  rw [sound.leased owned inOwned,sound.named managed mem,same] at pipelines
  exact free (pipelines ▸ List.mem_map_of_mem inOwned)

theorem insertOwnedSound {owned : OwnedPipeline} (sound : Sound [leaseKey owned.lease] [] state)
    (free : owned.pipelineId ∉ ownerIds state) (named : owned.lease.pipelineId = owned.pipelineId) :
    Sound [] [] (insertOwned state owned) := by
  have absent : lookup OwnedPipeline.pipelineId state.owned owned.pipelineId = none :=
    lookupNone.mpr fun other mem same => free (same ▸ List.mem_map_of_mem mem)
  have all : state.owned.filter (fun other => other.pipelineId ≠ owned.pipelineId) = state.owned := by
    refine List.filter_eq_self.mpr fun other mem => ?_
    simpa using lookupNone.mp absent other mem
  have keys : (state.owned ++ [owned]).map (fun entry => leaseKey entry.lease) =
      ownedKeys state ++ [leaseKey owned.lease] := by simp [ownedKeys]
  rw [insertOwned,all]
  refine ⟨sound.tasks,sound.named,sound.jobs,sound.legal,?_,fun other mem => ?_,?_,?_⟩
  · exact uniqueAppend sound.owners (List.nodup_singleton _) fun other mem => by
      rw [List.mem_singleton.mp mem]
      exact absent
  · rcases List.mem_append.mp mem with mem | mem
    · exact sound.leased other mem
    · rw [List.mem_singleton.mp mem]
      exact named
  · intro managed mem
    rw [List.append_nil,ownedKeys,keys]
    exact sound.covered managed mem
  · rw [List.append_nil,ownedKeys,keys]
    exact sound.accounted

theorem markStartedSound (sound : Sound [] [] state) : Sound [] [] (markStarted state pipelineId) := by
  unfold markStarted
  split
  · exact sound
  · exact sound.same rfl rfl rfl

theorem startPipelineSound {definition : PipelineDefinition} (sound : Sound [] [] state)
    (free : definition.id ∉ ownerIds state) : Sound [] [] (startPipeline world config holderId state definition) := by
  have waited := awaitSound world sound
  have idle : definition.id ∉ taskIds (await world state) := by
    rw [awaitTasks]
    exact idleOfUnowned sound free
  unfold startPipeline
  simp only
  split
  · exact waited.same rfl rfl rfl
  · exact waited
  · rename_i fencingToken expiresAt _
    let lease : PipelineLease := ⟨definition.id,holderId,fencingToken,expiresAt⟩
    let gained := (await world state).record (.acquired lease)
    have acquired : Sound [leaseKey lease] [] gained := acquiredSound waited
    have ready := awaitSound world (awaitSound world acquired)
    have idleReady : definition.id ∉ taskIds (await world (await world gained)) := by
      rw [awaitTasks,awaitTasks]
      exact idle
    split
    · exact failStartSound world config acquired idle
    · split
      · exact failStartSound world config ready idleReady
      · split
        · exact failStartSound world config ready idleReady
        · obtain ⟨started,task,owned⟩ := startTaskSound world definition.id ready rfl idleReady
          have running : ¬ (!(startTask world (await world (await world gained)) definition.id lease).1) = true := by
            simp [started]
          rw [if_neg running]
          refine markStartedSound (insertOwnedSound task ?_ rfl)
          rw [ownerIds,owned,awaitOwned,awaitOwned]
          change definition.id ∉ (await world state).owned.map OwnedPipeline.pipelineId
          rw [awaitOwned]
          exact free

theorem reconcileOneSound (now : Nat) (definition : PipelineDefinition) (sound : Sound [] [] state) :
    Sound [] [] (reconcileOne world config holderId now state definition) := by
  unfold reconcileOne
  split
  · have forgotten : Sound [] [] (forgetRestart state definition.id) := sound.same rfl rfl rfl
    exact (stopOwnedSound world definition.id forgotten).1
  · split
    · split
      · exact sound
      · obtain ⟨stopped,free⟩ := stopOwnedSound world definition.id sound
        have forgotten : Sound [] [] (forgetRestart (stopOwned world state definition.id) definition.id) :=
          stopped.same rfl rfl rfl
        simp only
        split
        · exact startPipelineSound world config holderId forgotten free
        · exact forgotten
    · rename_i absent
      have free : definition.id ∉ ownerIds state := by
        intro listed
        obtain ⟨owned,mem,same⟩ := List.mem_map.mp listed
        exact lookupNone.mp absent owned mem same
      split
      · exact startPipelineSound world config holderId sound free
      · exact sound

theorem foldSound {α : Type} {step : State → α → State} (next : ∀ {state} item, Sound [] [] state → Sound [] [] (step state item))
    (items : List α) : ∀ {state}, Sound [] [] state → Sound [] [] (items.foldl step state) := by
  induction items with
  | nil => exact fun sound => sound
  | cons item items ih => exact fun sound => ih (next item sound)

theorem reconcileSound (sound : Sound [] [] state) : Sound [] [] (reconcile world config holderId state) := by
  have waited := awaitSound world sound
  unfold reconcile
  simp only
  split
  · exact waited
  · rename_i definitions _
    have reconciled := foldSound (reconcileOneSound world config holderId ((await world state).moment world).now)
      definitions waited
    refine Sound.same (foldSound (fun pipelineId sound => ?_) _ reconciled) rfl rfl rfl
    exact (stopOwnedSound world pipelineId sound).1.same rfl rfl rfl

theorem endAllSound (tasks : List ManagedPipeline) : ∀ {state}, Sound [] (tasks.map ManagedPipeline.lease) state →
    Sound [] [] (tasks.foldl (fun state managed => state.record (.ended managed.lease)) state) := by
  induction tasks with
  | nil => exact fun sound => sound
  | cons managed tasks ih => exact fun sound => ih (endLoose sound)

theorem stopAllSound (sound : Sound [] [] state) : Sound [] [] (stopAll world state) := by
  have waited := awaitSound world sound
  refine endAllSound _ (awaitSound world ?_)
  have perm : (unfinished (await world state)).Perm ((inOrder ((await world state).moment world) ManagedPipeline.pipelineId
      ((await world state).pipelines.filter (fun managed => !managed.finished))).map ManagedPipeline.lease) :=
    ((List.perm_insertionSort _ _).map _).symm
  refine ⟨List.nodup_nil,by simp,?_,waited.legal,waited.owners,waited.leased,by simp,waited.accounted⟩
  have jobs := waited.jobs
  rw [List.append_nil] at jobs
  simpa [unfinished] using jobs.trans perm

theorem shutdownSound (sound : Sound [] [] state) : Sound [] [] (shutdown world state) :=
  stopAllSound world (foldSound (fun pipelineId sound => (stopOwnedSound world pipelineId sound).1) _ sound)

theorem actSound {action : Action} {state' : State} (sound : Sound [] [] state)
    (ok : act world idText durationText config holderId state action = .ok state') : Sound [] [] state' := by
  cases action with
  | shutdown =>
    cases Except.ok.inj ok
    exact shutdownSound world sound
  | tick pollDue =>
    obtain ⟨reaped,first,ok⟩ := Result.bindOk.mp ok
    cases Except.ok.inj ok
    have renewed := renewLeasesSound world config (reapFinishedSound world idText durationText config sound first)
    cases pollDue with
    | false => exact renewed
    | true => exact reconcileSound world config holderId renewed

theorem runSound (actions : List Action) : ∀ {state state'}, Sound [] [] state →
    run world idText durationText config holderId state actions = .ok state' → Sound [] [] state' := by
  induction actions with
  | nil =>
    intro state state' sound ok
    cases Except.ok.inj ok
    exact sound
  | cons action actions ih =>
    intro state state' sound ok
    obtain ⟨middle,first,ok⟩ := Result.bindOk.mp ok
    exact ih (actSound world idText durationText config holderId sound first) ok

end Ticks

theorem storeAnswers {interval : Nat → Nat} {table table' : LeaseTable} {readings : Readings} :
    (∀ pipelineId holderId ttl lease, tryAcquireLease interval table readings pipelineId holderId ttl =
      .ok (some lease,table') → lease.pipelineId = pipelineId ∧ lease.holderId = holderId) ∧
    ∀ lease ttl renewed, renewLease interval table readings lease ttl = .ok (some renewed,table') →
      leaseKey renewed = leaseKey lease := by
  refine ⟨fun pipelineId holderId ttl lease ok => ?_,fun lease ttl renewed ok => ?_⟩
  · rcases acquireSource ok with ⟨nothing,_⟩ | ⟨_,same,pipeline,_,holder,_⟩
    · cases nothing
    · cases Option.some.inj same
      exact ⟨pipeline,holder⟩
  · rcases renewSource ok with ⟨nothing,_⟩ | ⟨stored,_,_,asked,_,same,pipeline,kept,_⟩
    · cases nothing
    · cases Option.some.inj same
      simp [leaseKey,pipeline,kept.1.trans asked.1,kept.2.trans asked.2]

def idle : State := ⟨[],fun _ => none,[],[],0⟩

end CloudberryEtl.Ownership
