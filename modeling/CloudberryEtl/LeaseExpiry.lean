import CloudberryEtl.LeaseRenewal

/-! What follows for whole runs: only a renewal begun in time moves a deadline, a watcher that is not late has cancelled
its job by then, and a renewal that is answered too late ends the ownership. -/
namespace CloudberryEtl.LeaseDeadline
open KeyedTable Result
open Lease (PipelineLease LeaseTable Readings Request StoreError)
open Reconciler (ReconcilerConfig leaseStopAt)
open Ownership (leaseKey)

section Moves
variable {deployment : Deployment} {state state' : State} {pass : Pass}

def Rearms (state : State) (deadline requestStarted : Nat) : Prop := ∃ pass rearming, state.phase = .renewing pass ∧
  pass.rearming = some rearming ∧ rearming.isOk = none ∧ rearming.deadline = deadline ∧
  rearming.renewal.requestStarted = requestStarted

def KeepsDeadlines (guards guards' : List LeaseDeadlineGuard) : Prop := ∀ (index : Nat) (guard : LeaseDeadlineGuard),
  guards[index]? = some guard → ∃ after : LeaseDeadlineGuard, guards'[index]? = some after ∧
    after.deadline = guard.deadline ∧ (guard.jobCancellation = true → after.jobCancellation = true)

structure Moves (deployment : Deployment) (state : State) (action : Action) (state' : State) : Prop where
  time : (∃ duration, action = .advance duration ∧ state'.now = state.now + duration ∧ state'.guards = state.guards) ∨
    state'.now = state.now
  room : state.guards.length ≤ state'.guards.length
  guards : KeepsDeadlines state.guards state'.guards ∨ ∃ ok index requestStarted guard,
    action = .proceed ok ∧ Rearms state index requestStarted ∧ state.guards[index]? = some guard ∧
      state'.guards = state.guards.set index (guard.send (leaseStopAt deployment.config requestStarted)).2
  owned : ∀ after ∈ state'.owned, (∃ owned ∈ state.owned, owned.deadline = after.deadline) ∨
    ∃ start, state.phase = .starting start ∧ start.stage = .handing ∧ start.deadline = after.deadline
  starting : ∀ after, state'.phase = .starting after → (after.stage = .acquired ∧ after.deadline = state.guards.length) ∨
    ∃ start, state.phase = .starting start ∧ start.deadline = after.deadline ∧
      (start.stage = .acquired → after.stage = .acquired ∨ expiredAt state start.deadline = false)

theorem keepsRefl (guards : List LeaseDeadlineGuard) : KeepsDeadlines guards guards := fun _ guard found => ⟨guard,found,rfl,id⟩

theorem keepsOfSame {guards guards' : List LeaseDeadlineGuard} (same : SameDeadlines guards guards')
    (room : guards'.length = guards.length) : KeepsDeadlines guards guards' := by
  intro index guard found
  have bound := (List.getElem?_eq_some_iff.mp found).1
  obtain ⟨before,was,equal,cancelled⟩ := same index _ (List.getElem?_eq_getElem (room ▸ bound))
  cases Option.some.inj (found.symm.trans was)
  exact ⟨_,List.getElem?_eq_getElem (room ▸ bound),equal.symm,cancelled⟩

theorem quietMoves {action : Action} (now : state'.now = state.now) (guards : SameDeadlines state.guards state'.guards)
    (room : state'.guards.length = state.guards.length)
    (owned : ∀ after ∈ state'.owned, ∃ owned ∈ state.owned, owned.deadline = after.deadline)
    (phase : (∀ start, state'.phase ≠ .starting start) ∨ state'.phase = state.phase) :
    Moves deployment state action state' := by
  refine ⟨.inr now,Nat.le_of_eq room.symm,.inl (keepsOfSame guards room),fun after mem => .inl (owned after mem),
    fun after here => ?_⟩
  rcases phase with never | same
  · exact absurd here (never after)
  · exact .inr ⟨after,same.symm.trans here,rfl,.inl⟩

theorem sameOwned (state : State) : ∀ after ∈ state.owned, ∃ owned ∈ state.owned, owned.deadline = after.deadline :=
  fun after mem => ⟨after,mem,rfl⟩

theorem leaveNextMoves {action : Action} {lost : List Due} {guards : List LeaseDeadlineGuard}
    (same : SameDeadlines state.guards guards) (room : guards.length = state.guards.length) :
    Moves deployment state action (leaveNext {state with guards := guards} lost) := by
  cases lost with
  | nil => exact quietMoves rfl same room (sameOwned state) (.inl (by simp [leaveNext]))
  | cons due lost =>
    refine quietMoves rfl same room (fun after mem => ⟨after,?_,rfl⟩) (.inl (by simp [leaveNext]))
    exact List.mem_of_mem_filter mem

theorem startingMoves {action : Action} {start : Starting} (ok : Bool) (here : state.phase = .starting start) :
    Moves deployment state action (proceedStarting deployment state start ok) := by
  have fails : Moves deployment state action (failStart state start) :=
    quietMoves rfl (sameDeadlines _) rfl (sameOwned state) (.inl (by simp [failStart]))
  have stages : ∀ stage, (start.stage = .acquired → expiredAt state start.deadline = false) →
      Moves deployment state action {state with phase := .starting {start with stage := stage}} := by
    intro stage alive
    refine ⟨.inr rfl,Nat.le_refl _,.inl (keepsRefl _),fun after mem => .inl (sameOwned state after mem),
      fun after next => .inr ?_⟩
    cases next
    exact ⟨start,here,rfl,fun first => .inr (alive first)⟩
  simp only [proceedStarting]
  split
  · split
    · exact fails
    · rename_i alive
      exact stages .creating fun _ => Bool.eq_false_iff.mpr alive
  · rename_i creating
    split
    · exact stages .created (by simp [creating])
    · exact fails
  · rename_i created
    split
    · exact fails
    · exact stages .handing (by simp [created])
  · rename_i handing
    split
    · refine ⟨.inr rfl,Nat.le_refl _,.inl (keepsRefl _),fun after mem => ?_,by simp⟩
      rcases List.mem_append.mp mem with was | now
      · exact .inl ⟨after,was,rfl⟩
      · cases List.mem_singleton.mp now
        exact .inr ⟨start,here,handing,rfl⟩
    · exact fails

theorem renewingMoves {ok : Bool} (here : state.phase = .renewing pass)
    (next : proceedRenewing deployment state pass = some state') : Moves deployment state (.proceed ok) state' := by
  simp only [proceedRenewing] at next
  split at next
  · rename_i rearming some'
    simp only [proceedRearming] at next
    split at next
    · rename_i pending
      obtain ⟨guard,found,next⟩ := Option.bind_eq_some_iff.mp next
      cases Option.some.inj next
      refine ⟨.inr rfl,by simp,.inr ⟨ok,rearming.deadline,rearming.renewal.requestStarted,guard,rfl,
        ⟨pass,rearming,here,some',pending,rfl,rfl⟩,found,rfl⟩,fun after mem => .inl (sameOwned state after mem),by simp⟩
    · split at next
      · cases Option.some.inj next
        refine quietMoves rfl (sameDeadlines _) rfl (fun after mem => ?_) (.inl (by simp))
        obtain ⟨owned,inOwned,same⟩ := List.mem_map.mp mem
        refine ⟨owned,inOwned,?_⟩
        rw [← same]
        split <;> rfl
      · cases Option.some.inj next
        exact quietMoves rfl (sameDeadlines _) rfl (sameOwned state) (.inl (by simp))
  · split at next
    · cases Option.some.inj next
      exact quietMoves rfl (sameDeadlines _) rfl (sameOwned state) (.inl (by simp))
    · contradiction
  · split at next
    · cases Option.some.inj next
      exact leaveNextMoves (sameDeadlines _) rfl
    · contradiction

theorem renewalAnsweredPhase {pipelineId : Nat} {failed : Bool} (ok : renewalAnswered state pass pipelineId failed = some state') :
    ∃ after, state' = {state with phase := .renewing after} := by
  simp only [renewalAnswered] at ok
  split at ok
  · contradiction
  · obtain ⟨_,_,ok⟩ := Option.bind_eq_some_iff.mp ok
    obtain ⟨_,_,ok⟩ := Option.bind_eq_some_iff.mp ok
    split at ok
    · split at ok
      · exact ⟨_,(Option.some.inj ok).symm⟩
      · exact ⟨_,(Option.some.inj ok).symm⟩
    · exact ⟨_,(Option.some.inj ok).symm⟩

theorem answeredMoves {failed : Bool} (ok : act deployment state (.answered failed) = some state') :
    Moves deployment state (.answered failed) state' := by
  simp only [act] at ok
  split at ok
  · obtain ⟨answer,_,ok⟩ := Option.bind_eq_some_iff.mp ok
    cases answer with
    | none =>
      cases Option.some.inj ok
      exact quietMoves rfl (sameDeadlines _) rfl (sameOwned state) (.inl (by simp))
    | some lease =>
      cases Option.some.inj ok
      refine ⟨.inr rfl,by simp,.inl fun index guard found => ⟨guard,?_,rfl,id⟩,
        fun after mem => .inl (sameOwned state after mem),fun after next => ?_⟩
      · exact (List.getElem?_append_left (List.getElem?_eq_some_iff.mp found).1).trans found
      · cases next
        exact .inl ⟨rfl,rfl⟩
  · rename_i leave here
    obtain ⟨index,_,ok⟩ := Option.bind_eq_some_iff.mp ok
    obtain ⟨_,_,ok⟩ := Option.bind_eq_some_iff.mp ok
    cases Option.some.inj ok
    obtain ⟨guards,dropped,same,room,_⟩ := dropGuardFrame state leave.deadline
    rw [dropped]
    exact leaveNextMoves same room
  · contradiction

theorem actMoves {action : Action} (ok : act deployment state action = some state') :
    Moves deployment state action state' := by
  cases action with
  | advance duration =>
    cases Option.some.inj ok
    refine ⟨.inl ⟨duration,rfl,rfl,rfl⟩,Nat.le_refl _,.inl (keepsRefl _),fun after mem => .inl (sameOwned state after mem),
      fun after here => .inr ⟨after,here,rfl,.inl⟩⟩
  | others call =>
    simp only [act] at ok
    split at ok
    · cases Option.some.inj ok
      exact quietMoves rfl (sameDeadlines _) rfl (sameOwned state) (.inr rfl)
    · contradiction
  | execute index readings =>
    obtain ⟨_,_,_,_,_,rfl⟩ := executeSource ok
    exact quietMoves rfl (sameDeadlines _) rfl (sameOwned state) (.inr rfl)
  | watch index =>
    obtain ⟨guard,guard',found,turn,rfl⟩ := watchSource ok
    refine quietMoves rfl (sameSet found ?_) (by simp) (sameOwned state) (.inr rfl)
    exact watchDeadline turn
  | startPipeline pipelineId =>
    simp only [act,startPipeline] at ok
    split at ok
    · split at ok
      · contradiction
      · cases Option.some.inj ok
        exact quietMoves rfl (sameDeadlines _) rfl (sameOwned state) (.inl (by simp))
    · contradiction
  | renewLeases due =>
    simp only [act,renewLeases] at ok
    split at ok
    · split at ok
      · cases Option.some.inj ok
        exact quietMoves rfl (sameDeadlines _) rfl (sameOwned state) (.inl (by simp))
      · contradiction
    · contradiction
  | stopOwned pipelineId =>
    simp only [act] at ok
    split at ok
    · obtain ⟨owned,_,ok⟩ := Option.bind_eq_some_iff.mp ok
      cases Option.some.inj ok
      refine quietMoves rfl (sameDeadlines _) rfl (fun after mem => ⟨after,?_,rfl⟩) (.inl (by simp))
      exact List.mem_of_mem_filter mem
    · contradiction
  | answered failed => exact answeredMoves ok
  | renewed pipelineId failed =>
    simp only [act] at ok
    split at ok
    · obtain ⟨after,rfl⟩ := renewalAnsweredPhase ok
      exact quietMoves rfl (sameDeadlines _) rfl (sameOwned state) (.inl (by simp))
    · contradiction
  | proceed outcome =>
    simp only [act] at ok
    split at ok
    · cases Option.some.inj ok
      exact startingMoves outcome ‹_›
    · exact renewingMoves ‹_› ok
    · rename_i leave here
      simp only [proceedLeaving] at ok
      split at ok
      · cases Option.some.inj ok
        exact quietMoves rfl (sameDeadlines _) rfl (sameOwned state) (.inl (by simp))
      · contradiction
    · contradiction

end Moves

section Deadlines
variable {deployment : Deployment} {state state' : State} {index : Nat} {guard guard' : LeaseDeadlineGuard}
  {actions : List Action}

def RearmedBefore (deployment : Deployment) (state : State) (actions : List Action) (index deadline : Nat) : Prop :=
  ∃ earlier ok later middle requestStarted, actions = earlier ++ .proceed ok :: later ∧
    run deployment state earlier = some middle ∧ Rearms middle index requestStarted ∧ requestStarted < deadline

theorem rearmsBefore {requestStarted : Nat} (sound : Sound deployment state) (rearms : Rearms state index requestStarted)
    (found : state.guards[index]? = some guard) : requestStarted < guard.deadline := by
  obtain ⟨pass,rearming,here,some',pending,rfl,rfl⟩ := rearms
  have phase := sound.phase
  rw [here] at phase
  exact ((phase.rearming rearming some').before pending).2 guard found

theorem deadlineRun (accepted : deployment.config.validate = .ok ())
    (sound : Sound deployment state)
    (found : state.guards[index]? = some guard) (ok : run deployment state actions = some state') :
    ∃ after : LeaseDeadlineGuard, state'.guards[index]? = some after ∧
      (after.deadline = guard.deadline ∨ RearmedBefore deployment state actions index guard.deadline) := by
  induction actions generalizing state guard with
  | nil =>
    cases Option.some.inj ok
    exact ⟨guard,found,.inl rfl⟩
  | cons action actions ih =>
    obtain ⟨middle,first,rest⟩ := Option.bind_eq_some_iff.mp ok
    have next := actSound accepted sound first
    have stays : ∀ between : LeaseDeadlineGuard, middle.guards[index]? = some between →
        between.deadline = guard.deadline → ∃ after : LeaseDeadlineGuard, state'.guards[index]? = some after ∧
          (after.deadline = guard.deadline ∨ RearmedBefore deployment state (action :: actions) index guard.deadline) := by
      intro between here same
      obtain ⟨after,there,kept | ⟨earlier,outcome,later,mid,requestStarted,split,reached,rearms,before⟩⟩ := ih next here rest
      · exact ⟨after,there,.inl (kept.trans same)⟩
      · refine ⟨after,there,.inr ⟨action :: earlier,outcome,later,mid,requestStarted,by rw [split]; rfl,?_,rearms,same ▸ before⟩⟩
        exact Option.bind_eq_some_iff.mpr ⟨middle,first,reached⟩
    rcases (actMoves first).guards with keeps | ⟨outcome,other,requestStarted,was,rfl,rearms,at',moved⟩
    · obtain ⟨between,here,same,_⟩ := keeps index guard found
      exact stays between here same
    · by_cases same : other = index
      · subst same
        cases Option.some.inj (found.symm.trans at')
        have room : other < middle.guards.length := by
          rw [moved,List.length_set]
          exact (List.getElem?_eq_some_iff.mp found).1
        obtain ⟨after,there,_⟩ := ih next (List.getElem?_eq_getElem room) rest
        exact ⟨after,there,.inr ⟨[],outcome,actions,state,requestStarted,rfl,rfl,rearms,rearmsBefore sound rearms found⟩⟩
      · refine stays guard ?_ rfl
        rw [moved,List.getElem?_set_ne same]
        exact found

def InTime (state : State) (index : Nat) : Prop := ∀ guard : LeaseDeadlineGuard, state.guards[index]? = some guard →
  guard.jobCancellation = false → state.now ≤ guard.deadline

theorem advanceInTime {duration : Nat} (sound : GuardSound deployment state.now guard)
    (waits : ∀ elapsed < duration, watchLeaseDeadline guard (state.now + elapsed) = none)
    (running : guard.jobCancellation = false) (passes : 0 < duration) : state.now + duration ≤ guard.deadline := by
  have idle := waits (duration - 1) (Nat.sub_lt passes Nat.one_pos)
  cases asleep : guard.watcher with
  | asleep stopAt =>
    have sleeps := sound.sleeps stopAt asleep
    simp only [watchLeaseDeadline,asleep] at idle
    split at idle
    · contradiction
    · split at idle
      · contradiction
      · split at idle
        · contradiction
        · omega
  | fired =>
    have cancelled := sound.awake (by simp [asleep])
    rw [running] at cancelled
    contradiction
  | returned =>
    have cancelled := sound.awake (by simp [asleep])
    rw [running] at cancelled
    contradiction

theorem rearmsLater {requestStarted : Nat} (sound : Sound deployment state) (rearms : Rearms state index requestStarted)
    (found : state.guards[index]? = some guard) : guard.deadline ≤ leaseStopAt deployment.config requestStarted := by
  obtain ⟨pass,rearming,here,some',pending,rfl,rfl⟩ := rearms
  have phase := sound.phase
  rw [here] at phase
  obtain ⟨⟨owned,mem,key,guarded⟩,_,_,before⟩ := phase.rearming rearming some'
  exact (before pending).1 owned mem key guard (guarded ▸ found)

theorem inTimeStep {action : Action} (sound : Sound deployment state) (known : index < state.guards.length)
    (inTime : InTime state index) (waits : Waits state action) (ok : act deployment state action = some state') :
    InTime state' index := by
  intro guard' found' running'
  have found := List.getElem?_eq_getElem known
  have moves := actMoves ok
  rcases moves.time with ⟨duration,rfl,later,same⟩ | now
  · rw [same] at found'
    rw [later]
    rcases Nat.eq_zero_or_pos duration with rfl | passes
    · exact inTime guard' found' running'
    · have mem := List.mem_of_getElem? found'
      exact advanceInTime (sound.roster.guards guard' mem) (waits guard' mem) running' passes
  · rw [now]
    rcases moves.guards with keeps | ⟨_,other,requestStarted,guard,_,rearms,at',moved⟩
    · obtain ⟨after,there,deadline,cancelled⟩ := keeps index _ found
      cases Option.some.inj (found'.symm.trans there)
      rw [deadline]
      refine inTime _ found (Bool.eq_false_iff.mpr fun was => ?_)
      rw [cancelled was] at running'
      contradiction
    · rw [moved] at found'
      by_cases same : other = index
      · subst same
        have later := rearmsLater sound rearms at'
        rw [List.getElem?_set_self known] at found'
        cases Option.some.inj found'
        simp only [LeaseDeadlineGuard.send] at running' ⊢
        split at running'
        · rw [if_pos ‹_›]
          exact inTime guard at' running'
        · rw [if_neg ‹_›]
          exact Nat.le_trans (inTime guard at' running') later
      · rw [List.getElem?_set_ne same] at found'
        exact inTime guard' found' running'

def Guards (state : State) (index : Nat) : Prop := (∃ owned ∈ state.owned, owned.deadline = index) ∨
  ∃ start, state.phase = .starting start ∧ start.stage ≠ .acquired ∧ start.deadline = index

theorem guardsKnown (sound : Sound deployment state) (guards : Guards state index) : index < state.guards.length := by
  rcases guards with ⟨owned,mem,rfl⟩ | ⟨start,here,_,rfl⟩
  · exact (sound.roster.owned owned mem).2
  · have phase := sound.phase
    rw [here] at phase
    exact phase.guard

theorem jobsInTimeStep {action : Action} (sound : Sound deployment state) (inTime : ∀ index, Guards state index → InTime state index)
    (waits : Waits state action) (ok : act deployment state action = some state') :
    ∀ index, Guards state' index → InTime state' index := by
  have moves := actMoves ok
  have next : ∀ index, Guards state index → InTime state' index := fun index guards =>
    inTimeStep sound (guardsKnown sound guards) (inTime index guards) waits ok
  rintro index (⟨after,mem,rfl⟩ | ⟨after,here,further,rfl⟩)
  · rcases moves.owned after mem with ⟨owned,was,same⟩ | ⟨start,was,handing,same⟩
    · exact next _ (.inl ⟨owned,was,same⟩)
    · exact next _ (.inr ⟨start,was,by simp [handing],same⟩)
  · rcases moves.starting after here with ⟨first,_⟩ | ⟨start,was,same,passed⟩
    · exact absurd first further
    · by_cases first : start.stage = .acquired
      · have alive := (passed first).resolve_left further
        have phase := sound.phase
        rw [was] at phase
        rw [← same]
        refine inTimeStep sound phase.guard (fun guard found _ => ?_) waits ok
        rw [expiredAt,found] at alive
        simp only [LeaseDeadlineGuard.expired,Bool.or_eq_false_iff,decide_eq_false_iff_not] at alive
        omega
      · exact next _ (.inr ⟨start,was,first,same⟩)

theorem promptSplit {past : List Action} {middle : State} (ok : run deployment state past = some middle)
    (prompt : Prompt deployment state (past ++ actions)) :
    Prompt deployment state past ∧ Prompt deployment middle actions := by
  induction past generalizing state with
  | nil =>
    cases Option.some.inj ok
    exact ⟨trivial,prompt⟩
  | cons action past ih =>
    obtain ⟨next,first,rest⟩ := Option.bind_eq_some_iff.mp ok
    refine ⟨⟨prompt.1,fun other second => ?_⟩,(ih rest (prompt.2 next first)).2⟩
    cases Option.some.inj (first.symm.trans second)
    exact (ih rest (prompt.2 next first)).1

theorem jobsInTime (accepted : deployment.config.validate = .ok ()) (sound : Sound deployment state)
    (inTime : ∀ index, Guards state index → InTime state index) (prompt : Prompt deployment state actions)
    (ok : run deployment state actions = some state') : ∀ index, Guards state' index → InTime state' index := by
  induction actions generalizing state with
  | nil =>
    cases Option.some.inj ok
    exact inTime
  | cons action actions ih =>
    obtain ⟨middle,first,rest⟩ := Option.bind_eq_some_iff.mp ok
    exact ih (actSound accepted sound first) (jobsInTimeStep sound inTime prompt.1 first) (prompt.2 middle first) rest

theorem inTimeRun (accepted : deployment.config.validate = .ok ()) (sound : Sound deployment state)
    (known : index < state.guards.length) (inTime : InTime state index) (prompt : Prompt deployment state actions)
    (ok : run deployment state actions = some state') : InTime state' index := by
  induction actions generalizing state with
  | nil =>
    cases Option.some.inj ok
    exact inTime
  | cons action actions ih =>
    obtain ⟨middle,first,rest⟩ := Option.bind_eq_some_iff.mp ok
    have room := Nat.lt_of_lt_of_le known (actMoves first).room
    exact ih (actSound accepted sound first) room (inTimeStep sound known inTime prompt.1 first) (prompt.2 middle first) rest

theorem cancelledInTime (accepted : deployment.config.validate = .ok ()) (sound : Sound deployment state)
    (inTime : InTime state index) (prompt : Prompt deployment state actions) (found : state.guards[index]? = some guard)
    (ok : run deployment state actions = some state') (found' : state'.guards[index]? = some guard')
    (running : guard'.jobCancellation = false) :
    state'.now ≤ guard.deadline ∨ RearmedBefore deployment state actions index guard.deadline := by
  have known := (List.getElem?_eq_some_iff.mp found).1
  have before := inTimeRun accepted sound known inTime prompt ok guard' found' running
  obtain ⟨after,there,same | rearmed⟩ := deadlineRun accepted sound found ok
  · cases Option.some.inj (found'.symm.trans there)
    exact .inl (same ▸ before)
  · exact .inr rearmed

end Deadlines

section Loss
variable {deployment : Deployment} {state state' : State} {pass : Pass} {action : Action} {actions : List Action} {index : Nat}

def lostOf : Phase → List Due
  | .renewing pass => pass.lost
  | .leaving leave => leave.lost
  | _ => []

def remaining : Phase → Nat
  | .renewing pass => 6 * pass.waiting.length + 5 * pass.inFlight.length + 2 * pass.lost.length + 1 +
    (match pass.rearming with
    | none => 0
    | some rearming => if rearming.isOk.isNone then 4 else 3)
  | .leaving leave => 2 * leave.lost.length + if leave.release.isNone then 2 else 1
  | _ => 0

def ownSteps (actions : List Action) : Nat := actions.countP Action.own

def Departing (state : State) (index : Nat) : Prop := ∃ due ∈ lostOf state.phase, ∃ owned ∈ state.owned,
  owned.pipelineId = due.pipelineId ∧ owned.deadline = index

structure Left (state : State) (index : Nat) : Prop where
  known : index < state.guards.length
  owned : ∀ owned ∈ state.owned, owned.deadline ≠ index
  starting : ∀ start, state.phase = .starting start → start.deadline ≠ index

def KeepsDeadline (state : State) (index : Nat) (state' : State) : Prop := ∀ guard : LeaseDeadlineGuard,
  state.guards[index]? = some guard → ∃ after : LeaseDeadlineGuard, state'.guards[index]? = some after ∧
    after.deadline = guard.deadline

theorem movesKeep (moves : Moves deployment state action state')
    (apart : ∀ pass rearming, state.phase = .renewing pass → pass.rearming = some rearming → rearming.deadline ≠ index) :
    KeepsDeadline state index state' := by
  intro guard found
  rcases moves.guards with keeps | ⟨_,other,_,guard',_,⟨pass,rearming,here,some',_,rfl,_⟩,_,moved⟩
  · obtain ⟨after,there,same,_⟩ := keeps index guard found
    exact ⟨after,there,same⟩
  · refine ⟨guard,?_,rfl⟩
    rw [moved,List.getElem?_set_ne (apart pass rearming here some')]
    exact found

theorem leftStep (sound : Sound deployment state) (left : Left state index)
    (ok : act deployment state action = some state') : Left state' index ∧ KeepsDeadline state index state' := by
  have moves := actMoves ok
  refine ⟨⟨Nat.lt_of_lt_of_le left.known moves.room,fun after mem => ?_,fun after here => ?_⟩,
    movesKeep moves fun pass rearming here some' same => ?_⟩
  · rcases moves.owned after mem with ⟨owned,was,same⟩ | ⟨start,here,_,same⟩
    · rw [← same]
      exact left.owned owned was
    · rw [← same]
      exact left.starting start here
  · rcases moves.starting after here with ⟨_,fresh⟩ | ⟨start,was,same,_⟩
    · rw [fresh]
      exact Nat.ne_of_gt left.known
    · rw [← same]
      exact left.starting start was
  · have phase := sound.phase
    rw [here] at phase
    obtain ⟨owned,mem,_,guarded⟩ := (phase.rearming rearming some').guard
    exact left.owned owned mem (guarded.trans same)

theorem leaveNextDeparts (state : State) {lost : List Due} {due : Due} {owned : OwnedPipeline}
    (deadlines : UniqueKeys OwnedPipeline.deadline state.owned) (known : owned.deadline < state.guards.length)
    (apart : (lost.map Due.pipelineId).Nodup) (mem : due ∈ lost) (inOwned : owned ∈ state.owned)
    (named : owned.pipelineId = due.pipelineId) :
    Left (leaveNext state lost) owned.deadline ∨ Departing (leaveNext state lost) owned.deadline := by
  cases lost with
  | nil => contradiction
  | cons first lost =>
    obtain ⟨fresh,_⟩ := List.nodup_cons.mp apart
    rcases List.mem_cons.mp mem with rfl | later
    · refine .inl ⟨known,fun other member same => ?_,by simp [leaveNext]⟩
      obtain ⟨inOld,differs⟩ := List.mem_filter.mp member
      have equal := List.inj_on_of_nodup_map deadlines inOld inOwned same
      rw [equal,named] at differs
      simp at differs
    · refine .inr ⟨due,later,owned,List.mem_filter.mpr ⟨inOwned,?_⟩,named,rfl⟩
      have differs : owned.pipelineId ≠ first.pipelineId := by
        intro same
        exact fresh (same.symm.trans named ▸ List.mem_map_of_mem later)
      simpa using differs

theorem leaveNextRemaining (state : State) (lost : List Due) : remaining (leaveNext state lost).phase ≤ 2 * lost.length := by
  cases lost with
  | nil => exact Nat.le_refl _
  | cons due lost =>
    simp only [leaveNext,remaining,Option.isNone_none,if_true,List.length_cons]
    omega

theorem lostApart {rearming : Rearming} {due : Due} (phase : PassSound deployment state pass)
    (some' : pass.rearming = some rearming) (mem : due ∈ pass.lost) :
    due.pipelineId ≠ rearming.renewal.due.pipelineId := by
  have apart := phase.apart
  simp only [dues,List.map_append,some',Option.map_some,Option.toList_some,List.map_cons,List.map_nil] at apart
  intro same
  have disjoint := List.disjoint_of_nodup_append apart.of_append_right.of_append_right
  exact disjoint (by simp [same]) (List.mem_map_of_mem mem)

theorem departKeeps (sound : Sound deployment state) (departing : Departing state index)
    (moves : Moves deployment state action state') : KeepsDeadline state index state' := by
  refine movesKeep moves fun pass rearming here some' same => ?_
  obtain ⟨due,lost,owned,mem,named,guarded⟩ := departing
  have phase := sound.phase
  rw [here] at phase lost
  obtain ⟨_,key,_⟩ := rearmingOwned sound.roster phase some' mem (.inl (guarded.trans same.symm))
  exact lostApart phase some' lost (named.symm.trans key)

def Departs (state : State) (index : Nat) (steps : Nat) (state' : State) : Prop :=
  Left state' index ∨ Departing state' index ∧ remaining state'.phase + steps ≤ remaining state.phase

theorem leaveNextStep {lost : List Due} {steps : Nat} {guards : List LeaseDeadlineGuard} (roster : Roster deployment state)
    (room : guards.length = state.guards.length) (apart : (lost.map Due.pipelineId).Nodup)
    (left : 2 * lost.length + steps ≤ remaining state.phase)
    (departing : ∃ due ∈ lost, ∃ owned ∈ state.owned, owned.pipelineId = due.pipelineId ∧ owned.deadline = index) :
    Departs state index steps (leaveNext {state with guards := guards} lost) := by
  obtain ⟨due,mem,owned,inOwned,named,rfl⟩ := departing
  have bound := leaveNextRemaining {state with guards := guards} lost
  have known : owned.deadline < guards.length := room ▸ (roster.owned owned inOwned).2
  rcases leaveNextDeparts {state with guards := guards} roster.deadlines known apart mem inOwned named with gone | stays
  · exact .inl gone
  · exact .inr ⟨stays,by omega⟩

theorem rearmingDeparts {rearming : Rearming} (departing : Departing state index) (here : state.phase = .renewing pass)
    (some' : pass.rearming = some rearming) (ok : proceedRearming deployment state pass rearming = some state') :
    Departs state index 1 state' := by
  obtain ⟨due,lost,owned,mem,named,guarded⟩ := departing
  rw [here] at lost
  right
  simp only [proceedRearming] at ok
  split at ok
  · rename_i pending
    obtain ⟨guard,_,ok⟩ := Option.bind_eq_some_iff.mp ok
    cases Option.some.inj ok
    refine ⟨⟨due,lost,owned,mem,named,guarded⟩,?_⟩
    simp only [here,remaining,some',pending,Option.isNone_some,Option.isNone_none,if_true]
    simp
  · rename_i sent
    split at ok
    · cases Option.some.inj ok
      refine ⟨⟨due,lost,_,List.mem_map_of_mem mem,?_,?_⟩,?_⟩
      · split <;> exact named
      · split <;> exact guarded
      · simp [here,remaining,some',sent]
    · cases Option.some.inj ok
      refine ⟨⟨due,List.mem_append_left _ lost,owned,mem,named,guarded⟩,?_⟩
      simp only [here,remaining,some',sent,List.length_append,List.length_singleton,Option.isNone_some,Bool.false_eq_true,
        if_false]
      omega

theorem renewingDeparts (sound : Sound deployment state) (departing : Departing state index)
    (here : state.phase = .renewing pass) (ok : proceedRenewing deployment state pass = some state') :
    Departs state index 1 state' := by
  have phase := sound.phase
  rw [here] at phase
  simp only [proceedRenewing] at ok
  split at ok
  · exact rearmingDeparts departing here ‹_› ok
  · rename_i idle first
    split at ok
    · cases Option.some.inj ok
      obtain ⟨due,lost,owned,mem,named,guarded⟩ := departing
      rw [here] at lost
      refine .inr ⟨⟨due,lost,owned,mem,named,guarded⟩,?_⟩
      simp only [here,remaining,idle,first,List.length_append,List.length_cons,List.length_nil]
      omega
    · contradiction
  · rename_i idle none'
    split at ok
    · rename_i answered
      cases Option.some.inj ok
      have left : dues pass = pass.lost := by simp [dues,idle,none',answered]
      rw [Departing,here] at departing
      refine leaveNextStep sound.roster rfl (left ▸ phase.apart) ?_ departing
      simp [here,remaining,idle,none',answered]
    · contradiction

theorem answeredDeparts {pipelineId : Nat} {failed : Bool} (sound : Sound deployment state) (departing : Departing state index)
    (here : state.phase = .renewing pass) (ok : renewalAnswered state pass pipelineId failed = some state') :
    Departs state index 1 state' := by
  have phase := sound.phase
  rw [here] at phase
  obtain ⟨due,lost,owned,mem,named,guarded⟩ := departing
  rw [here] at lost
  obtain ⟨idle,renewal,inFlight,_,_,_,perm,fails | ⟨renewed,_,_,_,_,rearms⟩⟩ := renewalAnsweredSource phase ok
  · have length := perm.length_eq
    rw [fails]
    refine .inr ⟨⟨due,List.mem_append_left _ lost,owned,mem,named,guarded⟩,?_⟩
    simp only [here,remaining,idle,length,List.length_append,List.length_cons,List.length_nil]
    omega
  · have length := perm.length_eq
    rw [rearms]
    refine .inr ⟨⟨due,lost,owned,mem,named,guarded⟩,?_⟩
    simp only [here,remaining,idle,length,List.length_cons,Option.isNone_none,if_true]
    omega

theorem releasedDeparts {leave : Leaving} {failed : Bool} (sound : Sound deployment state) (departing : Departing state index)
    (here : state.phase = .leaving leave) (ok : released state leave failed = some state') : Departs state index 1 state' := by
  have phase := sound.phase
  rw [here] at phase
  obtain ⟨release,sent,ok⟩ := Option.bind_eq_some_iff.mp ok
  obtain ⟨_,_,ok⟩ := Option.bind_eq_some_iff.mp ok
  cases Option.some.inj ok
  obtain ⟨guards,dropped,_,room,_⟩ := dropGuardFrame state leave.deadline
  rw [Departing,here] at departing
  rw [dropped]
  refine leaveNextStep sound.roster room phase.apart ?_ departing
  simp [here,remaining,sent]

theorem otherDeparts (departing : Departing state index) (phase : state'.phase = state.phase)
    (owned : state'.owned = state.owned) : Departs state index 0 state' :=
  .inr ⟨by rwa [Departing,phase,owned],by rw [phase]; exact Nat.le_refl _⟩

theorem departStep (sound : Sound deployment state) (departing : Departing state index)
    (ok : act deployment state action = some state') :
    KeepsDeadline state index state' ∧ Departs state index (if action.own then 1 else 0) state' := by
  refine ⟨departKeeps sound departing (actMoves ok),?_⟩
  have busy : state.phase ≠ .between := by
    intro idle
    obtain ⟨due,lost,_⟩ := departing
    simp [idle,lostOf] at lost
  cases action with
  | advance duration =>
    cases Option.some.inj ok
    exact otherDeparts departing rfl rfl
  | others call =>
    simp only [act] at ok
    split at ok
    · cases Option.some.inj ok
      exact otherDeparts departing rfl rfl
    · contradiction
  | execute sent readings =>
    obtain ⟨_,_,_,_,_,rfl⟩ := executeSource ok
    exact otherDeparts departing rfl rfl
  | watch guard =>
    obtain ⟨_,_,_,_,rfl⟩ := watchSource ok
    exact otherDeparts departing rfl rfl
  | startPipeline pipelineId =>
    simp only [act] at ok
    contradiction
  | renewLeases due =>
    simp only [act] at ok
    contradiction
  | stopOwned pipelineId =>
    simp only [act] at ok
    contradiction
  | answered failed =>
    simp only [act] at ok
    split at ok
    · rename_i here
      obtain ⟨due,lost,_⟩ := departing
      simp [here,lostOf] at lost
    · exact releasedDeparts sound departing ‹_› ok
    · contradiction
  | renewed pipelineId failed =>
    simp only [act] at ok
    split at ok
    · exact answeredDeparts sound departing ‹_› ok
    · contradiction
  | proceed outcome =>
    simp only [act] at ok
    split at ok
    · rename_i here
      obtain ⟨due,lost,_⟩ := departing
      simp [here,lostOf] at lost
    · exact renewingDeparts sound departing ‹_› ok
    · rename_i leave here
      simp only [proceedLeaving] at ok
      split at ok
      · rename_i unsent
        cases Option.some.inj ok
        obtain ⟨due,lost,owned,mem,named,guarded⟩ := departing
        rw [here] at lost
        refine .inr ⟨⟨due,lost,owned,mem,named,guarded⟩,?_⟩
        simp [here,remaining,unsent,Action.own]
      · contradiction
    · contradiction

theorem keepsTrans {middle : State} (first : KeepsDeadline state index middle) (later : KeepsDeadline middle index state') :
    KeepsDeadline state index state' := by
  intro guard found
  obtain ⟨between,here,same⟩ := first guard found
  obtain ⟨after,there,equal⟩ := later between here
  exact ⟨after,there,equal.trans same⟩

theorem leftRun (accepted : deployment.config.validate = .ok ())
    (sound : Sound deployment state)
    (left : Left state index) (ok : run deployment state actions = some state') :
    KeepsDeadline state index state' ∧ Left state' index := by
  induction actions generalizing state with
  | nil =>
    cases Option.some.inj ok
    exact ⟨fun guard found => ⟨guard,found,rfl⟩,left⟩
  | cons action actions ih =>
    obtain ⟨middle,first,rest⟩ := Option.bind_eq_some_iff.mp ok
    obtain ⟨left',keeps⟩ := leftStep sound left first
    obtain ⟨later,gone⟩ := ih (actSound accepted sound first) left' rest
    exact ⟨keepsTrans keeps later,gone⟩

theorem departRun (accepted : deployment.config.validate = .ok ())
    (sound : Sound deployment state)
    (departing : Departing state index) (ok : run deployment state actions = some state') :
    KeepsDeadline state index state' ∧ Departs state index (ownSteps actions) state' := by
  -- The pipeline is gone after as many steps of the reconciler as the pass has left, and its deadline never moves
  -- again.
  induction actions generalizing state with
  | nil =>
    cases Option.some.inj ok
    exact ⟨fun guard found => ⟨guard,found,rfl⟩,.inr ⟨departing,Nat.le_refl _⟩⟩
  | cons action actions ih =>
    obtain ⟨middle,first,rest⟩ := Option.bind_eq_some_iff.mp ok
    have next := actSound accepted sound first
    obtain ⟨keeps,left | ⟨departing',fewer⟩⟩ := departStep sound departing first
    · obtain ⟨later,gone⟩ := leftRun accepted next left rest
      exact ⟨keepsTrans keeps later,.inl gone⟩
    · obtain ⟨later,gone | ⟨still,fewer'⟩⟩ := ih next departing' rest
      · exact ⟨keepsTrans keeps later,.inl gone⟩
      · refine ⟨keepsTrans keeps later,.inr ⟨still,?_⟩⟩
        rw [ownSteps,List.countP_cons]
        simp only [ownSteps] at fewer'
        omega

theorem departingProceeds (sound : Sound deployment state) (departing : Departing state index) :
    ∃ action, action.own = true ∧ (act deployment state action).isSome := by
  obtain ⟨due,lost,_⟩ := departing
  have phase := sound.phase
  cases here : state.phase with
  | between => simp [here,lostOf] at lost
  | acquiring _ _ _ => simp [here,lostOf] at lost
  | starting start => simp [here,lostOf] at lost
  | renewing pass =>
    rw [here] at phase
    cases rearming : pass.rearming with
    | some rearming' =>
      refine ⟨.proceed true,rfl,?_⟩
      simp only [act,here,proceedRenewing,rearming,proceedRearming]
      cases sent : rearming'.isOk with
      | none =>
        obtain ⟨owned,mem,_,guarded⟩ := (phase.rearming rearming' rearming).guard
        have room := (sound.roster.owned owned mem).2
        rw [guarded] at room
        simp [List.getElem?_eq_getElem room]
      | some isOk =>
        simp only
        split <;> rfl
    | none =>
      cases flying : pass.inFlight with
      | cons renewal rest =>
        refine ⟨.renewed renewal.due.pipelineId true,rfl,?_⟩
        simp only [act,here,renewalAnswered,rearming,takeRenewal,flying,List.find?_cons,decide_true,Option.map_some,outcome,
          if_true,Option.bind_eq_bind,Option.bind_some]
        rfl
      | nil =>
        refine ⟨.proceed true,rfl,?_⟩
        simp only [act,here,proceedRenewing,rearming,flying,List.length_nil,maxConcurrentLeaseRenewals]
        cases pass.waiting with
        | nil => rfl
        | cons due waiting => rfl
  | leaving leave =>
    cases sent : leave.release with
    | none =>
      refine ⟨.proceed true,rfl,?_⟩
      simp [act,here,proceedLeaving,sent]
    | some release =>
      refine ⟨.answered true,rfl,?_⟩
      simp [act,here,released,sent,outcome]

theorem lateAnswer {owned : OwnedPipeline} {guard : LeaseDeadlineGuard} {failed : Bool} (sound : Sound deployment state)
    (mem : owned ∈ state.owned) (found : state.guards[owned.deadline]? = some guard) (late : guard.expired state.now = true)
    (ok : act deployment state (.renewed owned.pipelineId failed) = some state') :
    Departing state' owned.deadline ∧ state'.guards = state.guards := by
  simp only [act] at ok
  split at ok
  · rename_i pass here
    have phase := sound.phase
    rw [here] at phase
    obtain ⟨_,renewal,inFlight,_,key,_,_,fails | ⟨_,other,_,found',alive,_⟩⟩ := renewalAnsweredSource phase ok
    · rw [fails]
      exact ⟨⟨renewal.due,by simp [lostOf],owned,mem,key.symm,rfl⟩,rfl⟩
    · have same : owned = other :=
        List.inj_on_of_nodup_map sound.roster.keys mem (lookupMem found') (lookupKey found').symm
      rw [← same,expiredAt,found] at alive
      simp only [late] at alive
      contradiction
  · contradiction

/-- The guard of an owned pipeline stops its job a safety margin before the expiry that the database stored for the lease, up
to what the database rounds away of the TTL; where the watchers take their turns in time, the job is cancelled by its deadline
unless a renewal begun before has moved it; and a renewal answered after the deadline, or after the cancellation, moves no
deadline and ends the ownership. -/
theorem deadlinePrecedesExpiry {now reading : Nat} {table : LeaseTable} {past : List Action}
    (accepted : deployment.config.validate = .ok ())
    (reached : run deployment (initial now reading table) past = some state) :
    (∀ owned ∈ state.owned, ∃ guard expiresAt, state.guards[owned.deadline]? = some guard ∧
      state.stored owned.pipelineId owned.lease.owner = some expiresAt ∧
      (∀ row, state.table.leases owned.pipelineId = some row → row.owner = owned.lease.owner → row.expiresAt = expiresAt) ∧
      guard.deadline + deployment.offset + deployment.config.leaseRenewInterval ≤ expiresAt + deployment.roundedAway) ∧
    (∀ owned ∈ state.owned, ∀ guard, state.guards[owned.deadline]? = some guard → ∀ actions later after,
      run deployment state actions = some later → Prompt deployment (initial now reading table) (past ++ actions) →
      later.guards[owned.deadline]? = some after → after.jobCancellation = false →
      later.now ≤ guard.deadline ∨ RearmedBefore deployment state actions owned.deadline guard.deadline) ∧
    ∀ owned ∈ state.owned, ∀ guard, state.guards[owned.deadline]? = some guard → guard.expired state.now = true →
      ∀ failed answered, act deployment state (.renewed owned.pipelineId failed) = some answered →
      ∀ actions later, run deployment answered actions = some later →
      (∃ after, later.guards[owned.deadline]? = some after ∧ after.deadline = guard.deadline) ∧
      ((∃ other ∈ later.owned, other.deadline = owned.deadline) →
        ownSteps actions < remaining answered.phase ∧
        ∃ action, action.own = true ∧ (act deployment later action).isSome) := by
  have sound := runSound accepted (initialSound now reading table) reached
  refine ⟨fun owned mem => ?_,fun owned mem guard found actions later after ok prompt found' running => ?_,
    fun owned mem guard found late failed answered ok actions later ran => ?_⟩
  · obtain ⟨named,room⟩ := sound.roster.owned owned mem
    have held : Holds deployment state owned.lease state.guards[owned.deadline].deadline :=
      .owned mem (List.getElem?_eq_getElem room)
    obtain ⟨_,_,expiresAt,stored,margin,_⟩ := sound.books.covered _ _ held
    rw [named] at stored
    refine ⟨_,expiresAt,List.getElem?_eq_getElem room,stored,fun row found owner => ?_,by omega⟩
    have recorded := sound.books.recorded owned.pipelineId row found
    rw [owner] at recorded
    exact Option.some.inj (recorded.symm.trans stored)
  · obtain ⟨promptly,prompt⟩ := promptSplit reached prompt
    have jobs : ∀ index, Guards (initial now reading table) index → InTime (initial now reading table) index := by
      rintro index (⟨owned,mem,_⟩ | ⟨start,here,_⟩)
      · simp [initial] at mem
      · simp [initial] at here
    have inTime := jobsInTime accepted (initialSound now reading table) jobs promptly reached owned.deadline
      (.inl ⟨owned,mem,rfl⟩)
    exact cancelledInTime accepted sound inTime prompt found ok found' running
  · obtain ⟨departing,kept⟩ := lateAnswer sound mem found late ok
    have next := actSound accepted sound ok
    obtain ⟨keeps,departs⟩ := departRun accepted next departing ran
    refine ⟨keeps guard (kept ▸ found),fun stays => ?_⟩
    obtain ⟨other,inLater,same⟩ := stays
    rcases departs with left | ⟨still,fewer⟩
    · exact absurd same (left.owned other inLater)
    · refine ⟨?_,departingProceeds (runSound accepted next ran) still⟩
      have positive : 0 < remaining later.phase := by
        obtain ⟨due,lost,_⟩ := still
        cases here : later.phase with
        | between => simp [here,lostOf] at lost
        | acquiring _ _ _ => simp [here,lostOf] at lost
        | starting start => simp [here,lostOf] at lost
        | renewing pass =>
          simp only [remaining]
          omega
        | leaving leave =>
          simp only [remaining]
          split <;> omega
      omega

end Loss

theorem someGetD {α : Type} {answer : Option α} (isSome : answer.isSome) (default : α) : answer = some (answer.getD default) := by
  obtain ⟨value,rfl⟩ := Option.isSome_iff_exists.mp isSome
  rfl

def second : Nat := 1000000000

theorem nothingRoundedAway {deployment : Deployment} (rounds : deployment.interval = wholeMicroseconds)
    (whole : 1000 ∣ deployment.config.leaseTtl) : deployment.roundedAway = 0 := by
  rw [Deployment.roundedAway,rounds,wholeMicroseconds]
  simp only [Nat.mod_eq_zero_of_dvd whole,Nat.zero_lt_succ,true_or,if_true,Nat.mul_div_cancel' whole,Nat.sub_self]

def halfMinuteDeployment (excess : Nat) : Deployment :=
  ⟨wholeMicroseconds,100 * second,⟨2 * second,30 * second + excess,10 * second,second,60 * second,300 * second⟩,7⟩

def oneTable : LeaseTable := ⟨[1],fun _ => none⟩

def startRun : List Action :=
  [.startPipeline 1,.execute 0 ⟨100 * second,100 * second⟩,.answered false,.proceed true,.proceed true,.proceed true,
    .proceed true]

def startState (excess : Nat) : State :=
  (run (halfMinuteDeployment excess) (initial 0 (100 * second) oneTable) startRun).getD (initial 0 0 oneTable)

def startOwned : OwnedPipeline := ⟨1,⟨1,7,1,130 * second⟩,10 * second,0⟩

def startGuard (excess : Nat) : LeaseDeadlineGuard := ⟨20 * second + excess,false,false,false,.asleep (20 * second + excess)⟩

def hangingRun : List Action := [.advance (20 * second),.watch 0,.watch 0,.advance (5 * second)]

def hangingState : State := (run (halfMinuteDeployment 0) (startState 0) hangingRun).getD (startState 0)

def lateRun : List Action := [.advance (10 * second),.renewLeases [startOwned],.proceed true,
  .execute 1 ⟨110 * second,110 * second⟩,.advance (20 * second)]

def lateState : State := (run (halfMinuteDeployment 0) (startState 0) lateRun).getD (startState 0)

def lateAnswered : State := (act (halfMinuteDeployment 0) lateState (.renewed 1 false)).getD lateState

theorem lateRenewal : (∃ expiresAt, (startState 0).stored 1 startOwned.lease.owner = some expiresAt ∧
      (startGuard 0).deadline + 100 * second + 10 * second ≤ expiresAt) ∧
    (∀ after, hangingState.guards[0]? = some after → after.jobCancellation = true) ∧
    ∀ actions later, run (halfMinuteDeployment 0) lateAnswered actions = some later → 3 ≤ ownSteps actions →
      ∀ other ∈ later.owned, other.deadline ≠ 0 := by
  have accepted : (halfMinuteDeployment 0).config.validate = .ok () := by decide
  have reached : run (halfMinuteDeployment 0) (initial 0 (100 * second) oneTable) startRun = some (startState 0) :=
    someGetD (by decide +kernel) _
  have owns : (startState 0).owned = [startOwned] := by decide +kernel
  have guards : (startState 0).guards[startOwned.deadline]? = some (startGuard 0) := by decide +kernel
  have mem : startOwned ∈ (startState 0).owned := by simp [owns]
  obtain ⟨margins,cancels,_⟩ := deadlinePrecedesExpiry accepted reached
  refine ⟨?_,fun after found => ?_,?_⟩
  · obtain ⟨guard,expiresAt,found,stored,_,margin⟩ := margins startOwned mem
    cases Option.some.inj (guards.symm.trans found)
    rw [nothingRoundedAway rfl (by decide),Nat.add_zero] at margin
    exact ⟨expiresAt,stored,margin⟩
  · have hangs : run (halfMinuteDeployment 0) (startState 0) hangingRun = some hangingState := someGetD (by decide +kernel) _
    have prompt : Prompt (halfMinuteDeployment 0) (initial 0 (100 * second) oneTable) (startRun ++ hangingRun) := by
      decide +kernel
    by_contra running
    rcases cancels startOwned mem _ guards hangingRun _ after hangs prompt found (Bool.eq_false_iff.mpr running) with
      early | ⟨earlier,ok,later,_,_,split,_⟩
    · exact absurd early (by decide +kernel)
    · have proceeds : Action.proceed ok ∈ hangingRun := by simp [split]
      simp [hangingRun] at proceeds
  · have past : run (halfMinuteDeployment 0) (initial 0 (100 * second) oneTable) (startRun ++ lateRun) = some lateState := by
      rw [run,List.foldlM_append]
      exact Option.bind_eq_some_iff.mpr ⟨_,reached,someGetD (by decide +kernel) _⟩
    have lateOwns : lateState.owned = [startOwned] := by decide +kernel
    have lateGuards : lateState.guards[startOwned.deadline]? = some (startGuard 0) := by decide +kernel
    have late : (startGuard 0).expired lateState.now = true := by decide +kernel
    have left : remaining lateAnswered.phase = 3 := by decide +kernel
    have answers : act (halfMinuteDeployment 0) lateState (.renewed startOwned.pipelineId false) = some lateAnswered :=
      someGetD (by decide +kernel) _
    obtain ⟨_,_,losses⟩ := deadlinePrecedesExpiry accepted past
    intro actions later ran enough other inLater same
    obtain ⟨_,gone⟩ := losses startOwned (by simp [lateOwns]) _ lateGuards late false _ answers actions later ran
    have few := (gone ⟨other,inLater,same⟩).1
    rw [left] at few
    exact absurd few (Nat.not_lt.mpr enough)

theorem roundedTtlExceeds : ¬ ∀ config : ReconcilerConfig, config.validate = .ok () → ∀ offset holderId now reading table past state,
    run ⟨wholeMicroseconds,offset,config,holderId⟩ (initial now reading table) past = some state →
    ∀ owned ∈ state.owned, ∀ guard expiresAt, state.guards[owned.deadline]? = some guard →
    state.stored owned.pipelineId owned.lease.owner = some expiresAt →
    guard.deadline + offset + config.leaseRenewInterval ≤ expiresAt := by
  intro margins
  have reached : run (halfMinuteDeployment 400) (initial 0 (100 * second) oneTable) startRun = some (startState 400) :=
    someGetD (by decide +kernel) _
  have owns : (startState 400).owned = [startOwned] := by decide +kernel
  have guards : (startState 400).guards[startOwned.deadline]? = some (startGuard 400) := by decide +kernel
  have stored : (startState 400).stored startOwned.pipelineId startOwned.lease.owner = some (130 * second) := by decide +kernel
  have margin := margins (halfMinuteDeployment 400).config (by decide) _ _ _ _ _ _ _ reached startOwned
    (by simp [owns]) _ _ guards stored
  exact absurd margin (by decide)

end CloudberryEtl.LeaseDeadline
