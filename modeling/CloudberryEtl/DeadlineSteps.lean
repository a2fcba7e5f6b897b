import CloudberryEtl.DeadlineInvariant

/-! The steps of the reconciler and of its watchers, and with them every run, keep the invariant of the deadlines. -/
namespace CloudberryEtl.LeaseDeadline
open KeyedTable Result
open Lease (PipelineLease LeaseTable Readings Request StoreError)
open Reconciler (ReconcilerConfig leaseStopAt)
open Ownership (leaseKey)

section Guards
variable {deployment : Deployment} {now later requestStarted : Nat} {guard guard' : LeaseDeadlineGuard}

theorem leaseStopAtLater {first second : Nat} (ordered : first ≤ second) :
    leaseStopAt deployment.config first ≤ leaseStopAt deployment.config second := by
  simp only [leaseStopAt]
  omega

theorem guardAdvance (sound : GuardSound deployment now guard) (ordered : now ≤ later) : GuardSound deployment later guard :=
  ⟨Nat.le_trans sound.within (leaseStopAtLater ordered),sound.sleeps,sound.awake,sound.closed⟩

theorem guardNew (started : requestStarted ≤ now) :
    GuardSound deployment now (.new (leaseStopAt deployment.config requestStarted)) := by
  constructor
  · exact leaseStopAtLater started
  · intro stopAt asleep
    exact Nat.le_of_eq (Watcher.asleep.inj asleep).symm
  · intro awake
    exact absurd rfl (awake _)
  · intro closed
    contradiction

theorem guardWatch (sound : GuardSound deployment now guard) (turn : watchLeaseDeadline guard later = some guard') :
    GuardSound deployment now guard' := by
  simp only [watchLeaseDeadline] at turn
  split at turn
  · split at turn
    · cases Option.some.inj turn
      refine ⟨sound.within,?_,fun awake => absurd rfl (awake guard.deadline),sound.closed⟩
      intro stopAt asleep
      exact Nat.le_of_eq (Watcher.asleep.inj asleep).symm
    · split at turn
      · rename_i closed
        cases Option.some.inj turn
        exact ⟨sound.within,by simp,fun _ => sound.closed closed,sound.closed⟩
      · split at turn
        · cases Option.some.inj turn
          exact ⟨sound.within,by simp,fun _ => rfl,fun _ => rfl⟩
        · contradiction
  · rename_i fired
    cases Option.some.inj turn
    exact ⟨sound.within,by simp,fun _ => sound.awake (by simp [fired]),sound.closed⟩
  · contradiction

theorem watchDeadline (turn : watchLeaseDeadline guard later = some guard') :
    guard'.deadline = guard.deadline ∧ (guard.jobCancellation = true → guard'.jobCancellation = true) := by
  simp only [watchLeaseDeadline] at turn
  split at turn
  · split at turn
    · cases Option.some.inj turn
      exact ⟨rfl,id⟩
    · split at turn
      · cases Option.some.inj turn
        exact ⟨rfl,id⟩
      · split at turn
        · cases Option.some.inj turn
          exact ⟨rfl,fun _ => rfl⟩
        · contradiction
  · cases Option.some.inj turn
    exact ⟨rfl,id⟩
  · contradiction

theorem guardDrop (sound : GuardSound deployment now guard) : GuardSound deployment now guard.drop :=
  ⟨sound.within,sound.sleeps,fun _ => rfl,fun _ => rfl⟩

theorem guardSend (sound : GuardSound deployment now guard) (started : requestStarted ≤ now)
    (ordered : guard.deadline ≤ leaseStopAt deployment.config requestStarted) :
    GuardSound deployment now (guard.send (leaseStopAt deployment.config requestStarted)).2 := by
  simp only [LeaseDeadlineGuard.send]
  split
  · exact sound
  · exact ⟨leaseStopAtLater started,fun stopAt asleep => Nat.le_trans (sound.sleeps stopAt asleep) ordered,sound.awake,
      sound.closed⟩

theorem sameDeadlines (guards : List LeaseDeadlineGuard) : SameDeadlines guards guards :=
  fun _ guard found => ⟨guard,found,rfl,id⟩

theorem sameSet {guards : List LeaseDeadlineGuard} {index : Nat} (found : guards[index]? = some guard)
    (same : guard'.deadline = guard.deadline ∧ (guard.jobCancellation = true → guard'.jobCancellation = true)) :
    SameDeadlines guards (guards.set index guard') := by
  intro other one here
  rw [List.getElem?_set] at here
  split at here
  · rename_i at'
    split at here
    · cases Option.some.inj here
      exact ⟨guard,at' ▸ found,same.1.symm,same.2⟩
    · contradiction
  · exact ⟨one,here,rfl,id⟩

theorem sameDrop (guards : List LeaseDeadlineGuard) (index : Nat) :
    SameDeadlines guards (guards.modify index LeaseDeadlineGuard.drop) := by
  intro other one here
  rw [List.getElem?_modify] at here
  obtain ⟨before,was,moved⟩ := Option.map_eq_some_iff.mp here
  rw [← moved]
  split
  · exact ⟨before,was,rfl,fun _ => rfl⟩
  · exact ⟨before,was,rfl,id⟩

end Guards

section Frame
variable {deployment : Deployment} {state state' : State}

theorem freshFrame {renewal : Renewal} (fresh : Fresh deployment state renewal) (owned : state'.owned = state.owned)
    (guards : SameDeadlines state.guards state'.guards) : Fresh deployment state' renewal := by
  intro pipeline mem named guard found
  obtain ⟨before,was,same,_⟩ := guards _ _ found
  rw [← same]
  exact fresh pipeline (owned ▸ mem) named before was

theorem phaseFrame {phase : Phase} (sound : PhaseSound deployment state phase) (later : state.now ≤ state'.now) (table : state'.table = state.table)
    (stored : state'.stored = state.stored) (owned : state'.owned = state.owned) (sent : state'.sent = state.sent)
    (guards : SameDeadlines state.guards state'.guards) (room : state'.guards.length = state.guards.length) :
    PhaseSound deployment state' phase := by
  have promisedFrame : ∀ {renewal renewed}, Promised deployment state renewal renewed →
      Promised deployment state' renewal renewed :=
    fun promised => ⟨promised.same,by rw [stored]; exact promised.expiry⟩
  have backedFrame : ∀ {due}, Backed state due → Backed state' due := fun backed => by rwa [Backed,owned]
  cases phase with
  | between => trivial
  | acquiring pipelineId acquireStarted index => exact ⟨by rw [owned]; exact sound.apart,by rw [sent]; exact sound.sent⟩
  | starting start => exact ⟨by rw [owned]; exact sound.apart,sound.named,by rw [room]; exact sound.guard⟩
  | renewing pass =>
    refine ⟨sound.apart,fun due mem => backedFrame (sound.backed due mem),fun renewal mem => ?_,fun rearming some' => ?_⟩
    · obtain ⟨fresh,one,found,started,request,promised⟩ := sound.inFlight renewal mem
      exact ⟨freshFrame fresh owned guards,one,sent ▸ found,started,request,fun renewed reply =>
        promisedFrame (promised renewed reply)⟩
    · obtain ⟨guard,past,promised,before⟩ := sound.rearming rearming some'
      refine ⟨by rw [owned]; exact guard,Nat.le_trans past later,promisedFrame promised,fun pending => ?_⟩
      obtain ⟨fresh,started⟩ := before pending
      refine ⟨freshFrame fresh owned guards,fun guard found => ?_⟩
      obtain ⟨earlier,was,same,_⟩ := guards _ _ found
      rw [← same]
      exact started earlier was
  | leaving leave =>
    exact ⟨table ▸ sound.issued,by rw [owned]; exact sound.left,sound.apart,fun due mem => backedFrame (sound.backed due mem)⟩

theorem frameSound (sound : Sound deployment state) (later : state.now ≤ state'.now) (table : state'.table = state.table)
    (stored : state'.stored = state.stored) (reading : state'.reading = state.reading) (owned : state'.owned = state.owned)
    (sent : state'.sent = state.sent) (phase : state'.phase = state.phase)
    (guards : SameDeadlines state.guards state'.guards) (room : state'.guards.length = state.guards.length)
    (each : ∀ guard ∈ state'.guards, GuardSound deployment state'.now guard) : Sound deployment state' := by
  refine ⟨keepBooks sound.books table stored reading later (fun one mem => .inl (sent ▸ mem))
    (fun lease stopAt holds => holdsFrame owned phase sent guards holds),⟨each,?_,?_,?_⟩,?_⟩
  · rw [owned]
    exact sound.roster.keys
  · rw [owned]
    exact sound.roster.deadlines
  · rw [owned,room]
    exact sound.roster.owned
  · rw [phase]
    exact phaseFrame sound.phase later table stored owned sent guards room

theorem advanceSound (sound : Sound deployment state) (duration : Nat) :
    Sound deployment {state with now := state.now + duration} :=
  frameSound sound (Nat.le_add_right _ _) rfl rfl rfl rfl rfl rfl (sameDeadlines _) rfl
    (fun guard mem => guardAdvance (sound.roster.guards guard mem) (Nat.le_add_right _ _))

theorem watchSource {index : Nat} (ok : watch state index = some state') : ∃ guard guard', state.guards[index]? = some guard ∧
    watchLeaseDeadline guard state.now = some guard' ∧ state' = {state with guards := state.guards.set index guard'} := by
  obtain ⟨guard,found,ok⟩ := Option.bind_eq_some_iff.mp ok
  obtain ⟨guard',turn,ok⟩ := Option.bind_eq_some_iff.mp ok
  exact ⟨guard,guard',found,turn,(Option.some.inj ok).symm⟩

theorem watchSound {index : Nat} (sound : Sound deployment state) (ok : watch state index = some state') :
    Sound deployment state' := by
  obtain ⟨guard,guard',found,turn,rfl⟩ := watchSource ok
  have turned := guardWatch (sound.roster.guards guard (List.mem_of_getElem? found)) turn
  refine frameSound sound (Nat.le_refl _) rfl rfl rfl rfl rfl rfl (sameSet found (watchDeadline turn)) (by simp) ?_
  intro other mem
  rcases List.mem_or_eq_of_mem_set mem with was | rfl
  · exact sound.roster.guards other was
  · exact turned

end Frame

section Ownership
variable {deployment : Deployment} {state state' : State} {lease : PipelineLease}

theorem issuedSame {other : PipelineLease} (issued : Issued state.table lease) (same : leaseKey lease = leaseKey other) :
    Issued state.table other := by
  obtain ⟨row,found,later,holder⟩ := issued
  obtain ⟨pipelineId,owner⟩ := sameLease same
  obtain ⟨holders,tokens⟩ := Prod.mk.inj owner
  exact ⟨row,pipelineId ▸ found,tokens ▸ later,fun equal => (holder (tokens.trans equal)).trans holders⟩

theorem ownedHolds {owned : OwnedPipeline} (roster : Roster deployment state) (mem : owned ∈ state.owned) :
    ∃ stopAt, Holds deployment state owned.lease stopAt :=
  ⟨_,.owned mem (List.getElem?_eq_getElem (roster.owned owned mem).2)⟩

theorem backedIssued {due : Due} (books : Books deployment state) (roster : Roster deployment state)
    (backed : Backed state due) : Issued state.table due.lease ∧ due.lease.pipelineId = due.pipelineId := by
  obtain ⟨owned,mem,named,same⟩ := backed
  obtain ⟨stopAt,holds⟩ := ownedHolds roster mem
  refine ⟨issuedSame (books.covered _ _ holds).issued same,?_⟩
  rw [← (sameLease same).1,(roster.owned owned mem).1,named]

theorem removeSound (phase : Phase) {guards : List LeaseDeadlineGuard} (books : Books deployment state)
    (roster : Roster deployment state) (keep : OwnedPipeline → Bool) (quiet : Quiet phase)
    (same : SameDeadlines state.guards guards) (room : guards.length = state.guards.length)
    (each : ∀ guard ∈ guards, GuardSound deployment state.now guard) :
    Books deployment {state with guards := guards, owned := state.owned.filter keep, phase := phase} ∧
      Roster deployment {state with guards := guards, owned := state.owned.filter keep, phase := phase} := by
  constructor
  · exact keepBooks books rfl rfl rfl (Nat.le_refl _) (fun _ mem => .inl mem)
      (fun lease stopAt holds => holdsSubset state quiet (fun _ mem => List.mem_of_mem_filter mem) same holds)
  · refine ⟨each,roster.keys.filter keep,roster.deadlines.filter keep,fun owned mem => ?_⟩
    obtain ⟨named,bound⟩ := roster.owned owned (List.mem_of_mem_filter mem)
    exact ⟨named,room ▸ bound⟩

theorem phaseSoundQuiet {phase : Phase} (sound : Sound deployment state) (quiet : Quiet phase)
    (next : PhaseSound deployment state phase) : Sound deployment {state with phase := phase} := by
  obtain ⟨books,roster,_⟩ := sound
  refine ⟨?_,⟨roster.guards,roster.keys,roster.deadlines,roster.owned⟩,
    phaseFrame next (Nat.le_refl _) rfl rfl rfl rfl (sameDeadlines _) rfl⟩
  have owned : ∀ owned ∈ ({state with phase := phase} : State).owned, owned ∈ state.owned := fun _ mem => mem
  exact keepBooks books rfl rfl rfl (Nat.le_refl _) (fun _ mem => .inl mem)
    (fun lease stopAt holds => holdsSubset state quiet owned (sameDeadlines _) holds)

theorem leaveNextSound {lost : List Due} (books : Books deployment state) (roster : Roster deployment state)
    (apart : (lost.map Due.pipelineId).Nodup) (backed : ∀ due ∈ lost, Backed state due) :
    Sound deployment (leaveNext state lost) := by
  cases lost with
  | nil =>
    have kept : state.owned.filter (fun _ => true) = state.owned := List.filter_true _
    obtain ⟨books',roster'⟩ := removeSound .between books roster (fun _ => true) trivial (sameDeadlines _) rfl roster.guards
    rw [kept] at books' roster'
    exact ⟨books',roster',trivial⟩
  | cons due lost =>
    obtain ⟨fresh,apart⟩ := List.nodup_cons.mp apart
    obtain ⟨issued,named⟩ := backedIssued books roster (backed due (by simp))
    obtain ⟨books',roster'⟩ := removeSound (leaveNext state (due :: lost)).phase books roster
      (fun owned => owned.pipelineId ≠ due.pipelineId) trivial (sameDeadlines _) rfl roster.guards
    refine ⟨books',roster',issued,?_,apart,?_⟩
    · intro owned mem
      rw [named]
      simpa using (List.mem_filter.mp mem).2
    · intro other mem
      obtain ⟨owned,inOwned,key,same⟩ := backed other (List.mem_cons_of_mem _ mem)
      have different : owned.pipelineId ≠ due.pipelineId := by
        intro equal
        rw [key] at equal
        exact fresh (equal ▸ List.mem_map_of_mem mem)
      exact ⟨owned,List.mem_filter.mpr ⟨inOwned,by simpa using different⟩,key,same⟩

theorem stopOwnedSound {pipelineId : Nat} (sound : Sound deployment state)
    (ok : stopOwned state pipelineId = some state') : Sound deployment state' := by
  obtain ⟨owned,found,ok⟩ := Option.bind_eq_some_iff.mp ok
  cases Option.some.inj ok
  obtain ⟨books,roster,_⟩ := sound
  have mem := lookupMem found
  have key : owned.pipelineId = pipelineId := lookupKey found
  obtain ⟨stopAt,holds⟩ := ownedHolds roster mem
  obtain ⟨books',roster'⟩ := removeSound (.leaving ⟨owned.lease,some owned.deadline,none,[]⟩) books roster
    (fun other => other.pipelineId ≠ pipelineId) trivial (sameDeadlines _) rfl roster.guards
  refine ⟨books',roster',(books.covered _ _ holds).issued,?_,by simp,by simp⟩
  intro other inRest
  rw [(roster.owned owned mem).1,key]
  simpa using (List.mem_filter.mp inRest).2

theorem dropGuardFrame (state : State) (deadline : Option Nat) : ∃ guards,
    dropGuard state deadline = {state with guards := guards} ∧ SameDeadlines state.guards guards ∧
      guards.length = state.guards.length ∧
      ∀ guard ∈ guards, guard ∈ state.guards ∨ ∃ before ∈ state.guards, guard = before.drop := by
  cases deadline with
  | none => exact ⟨state.guards,rfl,sameDeadlines _,rfl,fun guard mem => .inl mem⟩
  | some index =>
    refine ⟨_,rfl,sameDrop state.guards index,by simp,fun guard mem => ?_⟩
    obtain ⟨other,found⟩ := List.getElem?_of_mem mem
    rw [List.getElem?_modify] at found
    obtain ⟨before,was,moved⟩ := Option.map_eq_some_iff.mp found
    have mem' := List.mem_of_getElem? was
    split at moved
    · exact .inr ⟨before,mem',moved.symm⟩
    · exact .inl (moved ▸ mem')

theorem releasedSound {leave : Leaving} {failed : Bool} (sound : Sound deployment state) (here : state.phase = .leaving leave)
    (ok : released state leave failed = some state') : Sound deployment state' := by
  obtain ⟨index,_,ok⟩ := Option.bind_eq_some_iff.mp ok
  obtain ⟨_,_,ok⟩ := Option.bind_eq_some_iff.mp ok
  cases Option.some.inj ok
  obtain ⟨guards,dropped,same,room,each⟩ := dropGuardFrame state leave.deadline
  have phase := sound.phase
  rw [here] at phase
  have framed : Sound deployment (dropGuard state leave.deadline) := by
    rw [dropped]
    refine frameSound sound (Nat.le_refl _) rfl rfl rfl rfl rfl rfl same room fun guard mem => ?_
    rcases each guard mem with was | ⟨before,was,rfl⟩
    · exact sound.roster.guards guard was
    · exact guardDrop (sound.roster.guards before was)
  refine leaveNextSound framed.books framed.roster phase.apart fun due mem => ?_
  have backed := phase.backed due mem
  rw [dropped]
  exact backed

theorem sentLast (sent : List Sent) (one : Sent) : (sent ++ [one])[sent.length]? = some one := by
  simp

theorem sendBooks {request : Request} {phase : Phase} (books : Books deployment state)
    (fresh : SentSound deployment {send state request with phase := phase} ⟨state.now,request,none⟩)
    (holds : ∀ lease stopAt, Holds deployment {send state request with phase := phase} lease stopAt →
      Holds deployment state lease stopAt) :
    Books deployment {send state request with phase := phase} := by
  refine keepBooks books rfl rfl rfl (Nat.le_refl _) (fun one mem => ?_) holds
  rcases List.mem_append.mp mem with was | now
  · exact .inl was
  · cases List.mem_singleton.mp now
    exact .inr fresh

theorem proceedLeavingSound {leave : Leaving} (sound : Sound deployment state) (here : state.phase = .leaving leave)
    (ok : proceedLeaving state leave = some state') : Sound deployment state' := by
  simp only [proceedLeaving] at ok
  split at ok
  · cases Option.some.inj ok
    obtain ⟨books,roster,phase⟩ := sound
    rw [here] at phase
    have holds : ∀ lease stopAt, Holds deployment {send state (.release leave.lease) with
        phase := .leaving {leave with release := some state.sent.length}} lease stopAt →
        Holds deployment state lease stopAt :=
      fun lease stopAt => holdsSubset state trivial (fun _ mem => mem) (sameDeadlines _)
    refine ⟨sendBooks books ⟨Nat.le_refl _,phase.issued,fun _ held stopAt mine => ?_⟩ holds,
      ⟨roster.guards,roster.keys,roster.deadlines,roster.owned⟩,phase.issued,phase.left,phase.apart,phase.backed⟩
    obtain ⟨owned,mem,_,_,rfl,_⟩ := holdsQuiet (by exact trivial) mine
    intro same
    exact phase.left owned mem ((roster.owned owned mem).1.symm.trans (sameLease same).1.symm)
  · contradiction

theorem startPipelineSound {pipelineId : Nat} (sound : Sound deployment state)
    (ok : startPipeline deployment state pipelineId = some state') : Sound deployment state' := by
  simp only [startPipeline] at ok
  split at ok
  · contradiction
  · rename_i absent
    cases Option.some.inj ok
    obtain ⟨books,roster,_⟩ := sound
    refine ⟨sendBooks books ⟨Nat.le_refl _,rfl⟩ fun lease stopAt holds => ?_,
      ⟨roster.guards,roster.keys,roster.deadlines,roster.owned⟩,?_,_,sentLast _ _,rfl,rfl,?_⟩
    · cases holds with
      | owned mem found => exact .owned mem found
      | starting phase _ => cases phase
      | granted phase found reply =>
        cases phase
        rw [send,sentLast] at found
        cases Option.some.inj found
        contradiction
    · intro owned mem same
      exact absent (same ▸ List.mem_map_of_mem mem)
    · intro lease reply
      contradiction

end Ownership

section Start
variable {deployment : Deployment} {state state' : State} {lease : PipelineLease}

theorem outcomeSource {index : Nat} {failed : Bool} (ok : outcome state index failed = some (some lease)) :
    ∃ sent, state.sent[index]? = some sent ∧ sent.reply = some (.ok (some lease)) := by
  simp only [outcome] at ok
  split at ok
  · cases Option.some.inj ok
  · obtain ⟨reply,answered,joined⟩ := Option.map_eq_some_iff.mp ok
    obtain ⟨sent,found,reply'⟩ := Option.bind_eq_some_iff.mp answered
    cases reply with
    | error error => contradiction
    | ok value =>
      have value' : value = some lease := by simpa [Except.toOption] using joined
      exact ⟨sent,found,by rw [reply',value']⟩

theorem guardsLength (roster : Roster deployment state) {owned : OwnedPipeline} (mem : owned ∈ state.owned)
    (more : List LeaseDeadlineGuard) : (state.guards ++ more)[owned.deadline]? = state.guards[owned.deadline]? :=
  List.getElem?_append_left (roster.owned owned mem).2

theorem acquireAnsweredSound {pipelineId acquireStarted index : Nat} {failed : Bool} (sound : Sound deployment state)
    (here : state.phase = .acquiring pipelineId acquireStarted index)
    (ok : acquireAnswered deployment state pipelineId acquireStarted index failed = some state') :
    Sound deployment state' := by
  obtain ⟨answer,answered,ok⟩ := Option.bind_eq_some_iff.mp ok
  cases answer with
  | none =>
    cases Option.some.inj ok
    exact phaseSoundQuiet sound trivial trivial
  | some lease =>
    cases Option.some.inj ok
    obtain ⟨books,roster,phase⟩ := sound
    rw [here] at phase
    obtain ⟨apart,sent,found,rfl,_,named⟩ := phase
    obtain ⟨one,at',reply⟩ := outcomeSource answered
    have same : one = sent := Option.some.inj (at'.symm.trans found)
    rw [same] at reply
    have held : Holds deployment state lease (leaseStopAt deployment.config sent.started) := .granted here found reply
    refine ⟨keepBooks books rfl rfl rfl (Nat.le_refl _) (fun _ mem => .inl mem) fun other stopAt holds => ?_,
      ⟨fun guard mem => ?_,roster.keys,roster.deadlines,fun owned mem => ?_⟩,fun owned mem => ?_,named lease reply,by simp⟩
    · cases holds with
      | owned mem found =>
        rw [guardsLength roster mem] at found
        exact .owned mem found
      | starting phase found =>
        cases phase
        simp only [List.getElem?_concat_length] at found
        cases Option.some.inj found
        exact held
      | granted phase _ _ => cases phase
    · rcases List.mem_append.mp mem with was | now
      · exact roster.guards guard was
      · cases List.mem_singleton.mp now
        exact guardNew (books.sent sent (List.mem_of_getElem? found)).1
    · obtain ⟨name,bound⟩ := roster.owned owned mem
      refine ⟨name,?_⟩
      simp only [List.length_append]
      omega
    · exact ⟨apart owned mem,Nat.ne_of_lt (roster.owned owned mem).2⟩

theorem startingHolds {start : Starting} (here : state.phase = .starting start) (room : start.deadline < state.guards.length) :
    Holds deployment state start.lease state.guards[start.deadline].deadline :=
  .starting here (List.getElem?_eq_getElem room)

theorem failStartSound {start : Starting} (sound : Sound deployment state) (here : state.phase = .starting start) :
    Sound deployment (failStart state start) := by
  have phase := sound.phase
  rw [here] at phase
  refine phaseSoundQuiet sound trivial ⟨(sound.books.covered _ _ (startingHolds here phase.guard)).issued,?_,by simp,by simp⟩
  intro owned mem
  rw [phase.named]
  exact (phase.apart owned mem).1

theorem stageSound {start : Starting} (stage : Stage) (sound : Sound deployment state) (here : state.phase = .starting start) :
    Sound deployment {state with phase := .starting {start with stage := stage}} := by
  obtain ⟨books,roster,phase⟩ := sound
  rw [here] at phase
  refine ⟨keepBooks books rfl rfl rfl (Nat.le_refl _) (fun _ mem => .inl mem) fun other stopAt holds => ?_,
    ⟨roster.guards,roster.keys,roster.deadlines,roster.owned⟩,phase.apart,phase.named,phase.guard⟩
  cases holds with
  | owned mem found => exact .owned mem found
  | starting next found =>
    cases next
    have held : Holds deployment state start.lease _ := .starting here found
    exact held
  | granted next _ _ => cases next

theorem uniqueAppend {κ : Type} {key : OwnedPipeline → κ} {rows : List OwnedPipeline} {row : OwnedPipeline}
    (unique : UniqueKeys key rows) (fresh : ∀ other ∈ rows, key other ≠ key row) : UniqueKeys key (rows ++ [row]) := by
  rw [UniqueKeys,List.map_append]
  refine List.Nodup.append unique (by simp) ?_
  intro k mine last
  obtain ⟨other,mem,rfl⟩ := List.mem_map.mp mine
  exact fresh other mem (by simpa using last)

theorem insertSound {start : Starting} {owned : OwnedPipeline} (sound : Sound deployment state)
    (here : state.phase = .starting start) (named : owned.pipelineId = start.pipelineId) (leased : owned.lease = start.lease)
    (guarded : owned.deadline = start.deadline) :
    Sound deployment {state with owned := state.owned ++ [owned], phase := .between} := by
  obtain ⟨books,roster,phase⟩ := sound
  rw [here] at phase
  refine ⟨keepBooks books rfl rfl rfl (Nat.le_refl _) (fun _ mem => .inl mem) fun lease stopAt holds => ?_,
    ⟨roster.guards,?_,?_,fun other mem => ?_⟩,trivial⟩
  · obtain ⟨other,mem,guard,found,rfl,rfl⟩ := holdsQuiet (by exact trivial) holds
    rcases List.mem_append.mp mem with was | now
    · exact .owned was found
    · cases List.mem_singleton.mp now
      rw [leased]
      exact .starting here (guarded ▸ found)
  · exact uniqueAppend roster.keys fun other mem => named ▸ (phase.apart other mem).1
  · exact uniqueAppend roster.deadlines fun other mem => guarded ▸ (phase.apart other mem).2
  · rcases List.mem_append.mp mem with was | now
    · exact roster.owned other was
    · cases List.mem_singleton.mp now
      exact ⟨by rw [leased,named,phase.named],guarded ▸ phase.guard⟩

theorem proceedStartingSound {start : Starting} (ok : Bool) (sound : Sound deployment state)
    (here : state.phase = .starting start) : Sound deployment (proceedStarting deployment state start ok) := by
  have fails := failStartSound sound here
  simp only [proceedStarting]
  split
  · split
    · exact fails
    · exact stageSound .creating sound here
  · split
    · exact stageSound .created sound here
    · exact fails
  · split
    · exact fails
    · exact stageSound .handing sound here
  · split
    · exact insertSound sound here rfl rfl rfl
    · exact fails

end Start

end CloudberryEtl.LeaseDeadline
