import CloudberryEtl.DeadlineSteps

/-! The pass that renews the due leases keeps the invariant of the deadlines, and so does every run. -/
namespace CloudberryEtl.LeaseDeadline
open KeyedTable Result
open Lease (PipelineLease LeaseTable Readings Request StoreError)
open Reconciler (ReconcilerConfig leaseStopAt)
open Ownership (leaseKey)

section Pass
variable {deployment : Deployment} {state state' : State} {pass pass' : Pass}

theorem duesMoved (sound : PassSound deployment state pass) (perm : (dues pass).Perm (dues pass')) :
    ((dues pass').map Due.pipelineId).Nodup ∧ ∀ due ∈ dues pass', Backed state due :=
  ⟨(perm.map Due.pipelineId).nodup_iff.mp sound.apart,fun due mem => sound.backed due (perm.mem_iff.mpr mem)⟩

theorem passPerm (sound : PassSound deployment state pass) (perm : (dues pass).Perm (dues pass'))
    (inFlight : ∀ renewal ∈ pass'.inFlight, InFlightSound deployment state renewal)
    (rearming : ∀ rearming, pass'.rearming = some rearming → RearmingSound deployment state rearming) :
    PassSound deployment state pass' :=
  ⟨(duesMoved sound perm).1,(duesMoved sound perm).2,inFlight,rearming⟩

theorem requestPerm {due : Due} {waiting : List Due} (renewal : Renewal) (first : pass.waiting = due :: waiting)
    (same : renewal.due = due) :
    (dues pass).Perm (dues {pass with waiting := waiting, inFlight := pass.inFlight ++ [renewal]}) := by
  simp only [dues,first,List.map_append,List.map_cons,List.map_nil,same,List.perm_iff_count,List.count_append,List.count_cons,
    List.count_nil]
  intro other
  omega

theorem inFlightKeys (sound : PassSound deployment state pass) :
    UniqueKeys (fun renewal : Renewal => renewal.due.pipelineId) pass.inFlight := by
  have apart := sound.apart
  simp only [dues,List.map_append,List.map_map] at apart
  exact apart.of_append_right.of_append_left

theorem takeSource {pipelineId : Nat} {renewal : Renewal} {inFlight : List Renewal} (sound : PassSound deployment state pass)
    (take : takeRenewal pass pipelineId = some (renewal,inFlight)) :
    renewal ∈ pass.inFlight ∧ renewal.due.pipelineId = pipelineId ∧ (∀ other ∈ inFlight, other ∈ pass.inFlight) ∧
      pass.inFlight.Perm (renewal :: inFlight) := by
  obtain ⟨one,found,pair⟩ := Option.map_eq_some_iff.mp take
  obtain ⟨rfl,rfl⟩ := Prod.mk.inj pair
  have found' : lookup (fun renewal : Renewal => renewal.due.pipelineId) pass.inFlight pipelineId = some one := found
  have key : one.due.pipelineId = pipelineId := by simpa using List.find?_some found
  exact ⟨lookupMem found',key,fun other mem => List.mem_of_mem_filter mem,
    permWithout (inFlightKeys sound) found'⟩

theorem lostSound {renewal : Renewal} {inFlight : List Renewal} (sound : PassSound deployment state pass)
    (rest : ∀ other ∈ inFlight, other ∈ pass.inFlight) (perm : pass.inFlight.Perm (renewal :: inFlight)) :
    PassSound deployment state {pass with inFlight := inFlight, lost := pass.lost ++ [renewal.due]} := by
  refine passPerm sound ?_ (fun other mem => sound.inFlight other (rest other mem)) sound.rearming
  have moved := perm.map Renewal.due
  simp only [List.map_cons,List.perm_iff_count,List.count_cons] at moved
  simp only [dues,List.perm_iff_count,List.count_append,List.count_cons,List.count_nil,moved]
  intro other
  omega

theorem rearmingSound {renewal : Renewal} {inFlight : List Renewal} {renewed : PipelineLease} {deadline : Nat}
    (sound : PassSound deployment state pass) (idle : pass.rearming = none)
    (rest : ∀ other ∈ inFlight, other ∈ pass.inFlight) (perm : pass.inFlight.Perm (renewal :: inFlight))
    (next : RearmingSound deployment state ⟨renewal,renewed,deadline,none⟩) :
    PassSound deployment state {pass with inFlight := inFlight, rearming := some ⟨renewal,renewed,deadline,none⟩} := by
  refine passPerm sound ?_ (fun other mem => sound.inFlight other (rest other mem)) fun rearming some' => ?_
  · have moved := perm.map Renewal.due
    simp only [List.map_cons,List.perm_iff_count,List.count_cons] at moved
    simp only [dues,idle,Option.map_none,Option.map_some,Option.toList_none,Option.toList_some,List.perm_iff_count,
      List.count_append,List.count_cons,List.count_nil,moved]
    intro other
    omega
  · cases Option.some.inj some'
    exact next

theorem expiredSource {deadline : Nat} (alive : expiredAt state deadline = false) :
    ∃ guard, state.guards[deadline]? = some guard ∧ guard.jobCancellation = false ∧ state.now < guard.deadline := by
  simp only [expiredAt] at alive
  split at alive
  · rename_i guard found
    simp only [LeaseDeadlineGuard.expired,Bool.or_eq_false_iff,decide_eq_false_iff_not,Nat.not_le] at alive
    exact ⟨guard,found,alive.1,alive.2⟩
  · contradiction

theorem renewalAnsweredSource {pipelineId : Nat} {failed : Bool} (sound : PassSound deployment state pass)
    (ok : renewalAnswered state pass pipelineId failed = some state') :
    pass.rearming = none ∧ ∃ renewal inFlight, renewal ∈ pass.inFlight ∧ renewal.due.pipelineId = pipelineId ∧
      (∀ other ∈ inFlight, other ∈ pass.inFlight) ∧ pass.inFlight.Perm (renewal :: inFlight) ∧
      (state' = {state with
          phase := .renewing {pass with inFlight := inFlight, lost := pass.lost ++ [renewal.due]}} ∨
        ∃ renewed owned, outcome state renewal.sent failed = some (some renewed) ∧
          lookup OwnedPipeline.pipelineId state.owned pipelineId = some owned ∧
          expiredAt state owned.deadline = false ∧
          state' = {state with
            phase := .renewing
              {pass with inFlight := inFlight, rearming := some ⟨renewal,renewed,owned.deadline,none⟩}}) := by
  simp only [renewalAnswered] at ok
  split at ok
  · contradiction
  · rename_i idle
    obtain ⟨⟨renewal,inFlight⟩,take,ok⟩ := Option.bind_eq_some_iff.mp ok
    obtain ⟨lease,answered,ok⟩ := Option.bind_eq_some_iff.mp ok
    obtain ⟨mem,key,rest,perm⟩ := takeSource sound take
    refine ⟨idle,renewal,inFlight,mem,key,rest,perm,?_⟩
    split at ok
    · rename_i renewed owned found
      split at ok
      · exact .inl (Option.some.inj ok).symm
      · rename_i alive
        exact .inr ⟨renewed,owned,answered,found,by simpa using alive,(Option.some.inj ok).symm⟩
    · exact .inl (Option.some.inj ok).symm

theorem renewalAnsweredSound {pipelineId : Nat} {failed : Bool} (sound : Sound deployment state)
    (here : state.phase = .renewing pass) (ok : renewalAnswered state pass pipelineId failed = some state') :
    Sound deployment state' := by
  have phase := sound.phase
  rw [here] at phase
  obtain ⟨idle,renewal,inFlight,mem,key,rest,perm,lost | ⟨renewed,owned,answered,found,alive,rearmed⟩⟩ :=
    renewalAnsweredSource phase ok
  · rw [lost]
    exact phaseSoundQuiet sound trivial (lostSound phase rest perm)
  · rw [rearmed]
    obtain ⟨fresh,sent,at',started,_,promised⟩ := phase.inFlight renewal mem
    obtain ⟨one,at'',reply⟩ := outcomeSource answered
    have same : one = sent := Option.some.inj (at''.symm.trans at')
    rw [same] at reply
    obtain ⟨guard,guarded,_,before⟩ := expiredSource alive
    have past := (sound.books.sent sent (List.mem_of_getElem? at')).1
    rw [started] at past
    refine phaseSoundQuiet sound trivial (rearmingSound phase idle rest perm
      ⟨⟨owned,lookupMem found,(lookupKey found).trans key.symm,rfl⟩,past,promised renewed reply,fun _ => ⟨fresh,?_⟩⟩)
    intro other found'
    cases Option.some.inj (guarded.symm.trans found')
    simp only
    omega

end Pass

section Rearm
variable {deployment : Deployment} {state state' : State} {pass : Pass} {rearming : Rearming}

theorem requestSound {due : Due} {waiting : List Due} (sound : Sound deployment state) (here : state.phase = .renewing pass)
    (idle : pass.rearming = none) (first : pass.waiting = due :: waiting) :
    Sound deployment {send state (.renew due.lease deployment.config.leaseTtl) with
      phase := .renewing {pass with
        waiting := waiting
        inFlight := pass.inFlight ++ [⟨due,state.now,state.sent.length⟩]}} := by
  obtain ⟨books,roster,phase⟩ := sound
  rw [here] at phase
  obtain ⟨apart,backed⟩ := duesMoved phase (requestPerm ⟨due,state.now,state.sent.length⟩ first rfl)
  refine ⟨sendBooks books ⟨Nat.le_refl _,rfl⟩ fun lease stopAt =>
    holdsSubset state trivial (fun _ mem => mem) (sameDeadlines _),
    ⟨roster.guards,roster.keys,roster.deadlines,roster.owned⟩,apart,backed,fun renewal mem => ?_,fun rearming some' => ?_⟩
  · rcases List.mem_append.mp mem with was | now
    · obtain ⟨fresh,one,found,started,request,promised⟩ := phase.inFlight renewal was
      refine ⟨fresh,one,?_,started,request,fun renewed reply => ?_⟩
      · exact (List.getElem?_append_left (List.getElem?_eq_some_iff.mp found).1).trans found
      · obtain ⟨same,expiry⟩ := promised renewed reply
        exact ⟨same,expiry⟩
    · cases List.mem_singleton.mp now
      refine ⟨fun owned _ _ guard found => ?_,_,sentLast _ _,rfl,rfl,fun renewed reply => by contradiction⟩
      exact (roster.guards guard (List.mem_of_getElem? found)).within
  · rw [idle] at some'
    contradiction

theorem rearmingOwned {owned : OwnedPipeline} (roster : Roster deployment state) (phase : PassSound deployment state pass)
    (some' : pass.rearming = some rearming) (mem : owned ∈ state.owned)
    (same : owned.deadline = rearming.deadline ∨ owned.pipelineId = rearming.renewal.due.pipelineId) :
    owned.deadline = rearming.deadline ∧ owned.pipelineId = rearming.renewal.due.pipelineId ∧
      leaseKey owned.lease = leaseKey rearming.renewal.due.lease := by
  obtain ⟨other,member,named,guarded⟩ := (phase.rearming rearming some').guard
  obtain ⟨backing,inOwned,key,leased⟩ := phase.backed rearming.renewal.due (by simp [dues,some'])
  have again : other = backing := List.inj_on_of_nodup_map roster.keys member inOwned (by rw [named,key])
  have equal : owned = other := by
    rcases same with deadline | pipelineId
    · exact List.inj_on_of_nodup_map roster.deadlines mem member (deadline.trans guarded.symm)
    · exact List.inj_on_of_nodup_map roster.keys mem member (pipelineId.trans named.symm)
  rw [equal]
  exact ⟨guarded,named,by rw [again,leased]⟩

theorem getSet {guards : List LeaseDeadlineGuard} {index other : Nat} {guard one : LeaseDeadlineGuard}
    (found : (guards.set index guard)[other]? = some one) : (index = other ∧ one = guard) ∨ guards[other]? = some one := by
  rw [List.getElem?_set] at found
  split at found
  · rename_i same
    split at found
    · exact .inl ⟨same,(Option.some.inj found).symm⟩
    · contradiction
  · exact .inr found

theorem rearmedDues (some' : pass.rearming = some rearming) {isOk : Option Bool} :
    dues {pass with rearming := some {rearming with isOk := isOk}} = dues pass := by
  simp [dues,some']

theorem inFlightApart {renewal : Renewal} (phase : PassSound deployment state pass) (some' : pass.rearming = some rearming)
    (mem : renewal ∈ pass.inFlight) : renewal.due.pipelineId ≠ rearming.renewal.due.pipelineId := by
  have apart := phase.apart
  simp only [dues,List.map_append,List.map_map,some',Option.map_some,Option.toList_some,List.map_cons,List.map_nil] at apart
  intro same
  have disjoint := List.disjoint_of_nodup_append apart.of_append_right
  exact disjoint (List.mem_map_of_mem mem) (by simp [same])

theorem sendDeadline (guard : LeaseDeadlineGuard) (stopAt : Nat) :
    (guard.send stopAt).2.deadline = stopAt ∨ (guard.send stopAt).2.deadline = guard.deadline := by
  simp only [LeaseDeadlineGuard.send]
  split
  · exact .inr rfl
  · exact .inl rfl

theorem sendSound {guard : LeaseDeadlineGuard} {isOk : Bool} (accepted : deployment.config.validate = .ok ())
    (sound : Sound deployment state) (here : state.phase = .renewing pass) (some' : pass.rearming = some rearming)
    (pending : rearming.isOk = none) (found : state.guards[rearming.deadline]? = some guard) :
    Sound deployment {state with
      guards := state.guards.set rearming.deadline
        (guard.send (leaseStopAt deployment.config rearming.renewal.requestStarted)).2
      phase := .renewing {pass with rearming := some {rearming with isOk := some isOk}}} := by
  obtain ⟨books,roster,phase⟩ := sound
  rw [here] at phase
  obtain ⟨⟨backing,inOwned,backs,guarded⟩,past,⟨same,expiresAt,stored,bound⟩,before⟩ := phase.rearming rearming some'
  obtain ⟨fresh,_⟩ := before pending
  have later : guard.deadline ≤ leaseStopAt deployment.config rearming.renewal.requestStarted :=
    fresh backing inOwned backs guard (guarded ▸ found)
  have sentSound := guardSend (roster.guards guard (List.mem_of_getElem? found)) past later
  refine ⟨moveBooks books rfl rfl rfl (Nat.le_refl _) (fun _ mem => .inl mem) fun lease stopAt holds => ?_,
    ⟨fun one mem => ?_,roster.keys,roster.deadlines,fun owned mem => ?_⟩,?_,?_,fun renewal mem => ?_,fun next some'' => ?_⟩
  · obtain ⟨owned,mem,one,at',rfl,rfl⟩ := holdsQuiet (by exact trivial) holds
    rcases getSet at' with ⟨here',rfl⟩ | kept
    · have held : Holds deployment state owned.lease guard.deadline := .owned mem (here' ▸ found)
      obtain ⟨issued,holder,current,at'',margin,bounded⟩ := books.covered _ _ held
      refine ⟨⟨issued,holder,current,at'',?_,bounded⟩,_,_,held,rfl⟩
      rcases sendDeadline guard (leaseStopAt deployment.config rearming.renewal.requestStarted) with moved | stays
      · obtain ⟨_,_,key⟩ := rearmingOwned roster phase some' mem (.inl here'.symm)
        obtain ⟨pipelineId,owner⟩ := sameLease key
        rw [pipelineId,owner] at at''
        cases Option.some.inj (stored.symm.trans at'')
        rw [moved,stopAtMargin accepted]
        exact bound
      · rw [stays]
        exact margin
    · have held : Holds deployment state owned.lease one.deadline := .owned mem kept
      exact ⟨books.covered _ _ held,_,_,held,rfl⟩
  · rcases List.mem_or_eq_of_mem_set mem with was | rfl
    · exact roster.guards one was
    · exact sentSound
  · obtain ⟨named,room⟩ := roster.owned owned mem
    exact ⟨named,by simpa using room⟩
  · rw [rearmedDues some']
    exact phase.apart
  · rw [rearmedDues some']
    exact phase.backed
  · obtain ⟨earlier,sent,at',started,request,promised⟩ := phase.inFlight renewal mem
    refine ⟨fun owned inOwned' key one at'' => ?_,sent,at',started,request,fun renewed reply => ?_⟩
    · rcases getSet at'' with ⟨here',_⟩ | kept
      · obtain ⟨_,named,_⟩ := rearmingOwned roster phase some' inOwned' (.inl here'.symm)
        exact absurd (key.symm.trans named) (inFlightApart phase some' mem)
      · exact earlier owned inOwned' key one kept
    · obtain ⟨key,expiry⟩ := promised renewed reply
      exact ⟨key,expiry⟩
  · cases Option.some.inj some''
    exact ⟨⟨backing,inOwned,backs,guarded⟩,past,⟨same,expiresAt,stored,bound⟩,fun pending => by contradiction⟩

theorem coveredSame {lease other : PipelineLease} {stopAt : Nat} (covered : Covered deployment state lease stopAt)
    (same : leaseKey lease = leaseKey other) : Covered deployment state other stopAt := by
  obtain ⟨issued,holder,expiry⟩ := covered
  obtain ⟨pipelineId,owner⟩ := sameLease same
  exact ⟨issuedSame issued same,(congrArg Prod.fst owner).symm.trans holder,by rwa [← pipelineId,← owner]⟩

theorem duesRearmed (phase : PassSound deployment state pass) (some' : pass.rearming = some rearming) :
    ((dues {pass with rearming := none}).map Due.pipelineId).Nodup ∧
      ∀ due ∈ dues {pass with rearming := none}, due ∈ dues pass := by
  have fewer : (dues {pass with rearming := none}).Sublist (dues pass) := by
    simp only [dues,some',Option.map_none,Option.toList_none,List.nil_append]
    exact (List.Sublist.refl _).append ((List.Sublist.refl _).append (List.sublist_append_right _ _))
  exact ⟨phase.apart.sublist (fewer.map _),fun due mem => fewer.subset mem⟩

theorem confirmSound {nextRenewal : Nat} (sound : Sound deployment state) (here : state.phase = .renewing pass)
    (some' : pass.rearming = some rearming) :
    Sound deployment {state with
      owned := state.owned.map (fun owned => if owned.pipelineId = rearming.renewal.due.pipelineId then
        {owned with lease := rearming.renewed, nextRenewal := nextRenewal} else owned)
      phase := .renewing {pass with rearming := none}} := by
  obtain ⟨books,roster,phase⟩ := sound
  rw [here] at phase
  obtain ⟨_,_,promised,_⟩ := phase.rearming rearming some'
  have kept : ∀ owned ∈ state.owned, ∀ after, (if owned.pipelineId = rearming.renewal.due.pipelineId then
      {owned with lease := rearming.renewed, nextRenewal := nextRenewal} else owned) = after →
      after.pipelineId = owned.pipelineId ∧ after.deadline = owned.deadline ∧
        leaseKey after.lease = leaseKey owned.lease := by
    intro owned mem after same
    rw [← same]
    split
    · rename_i named
      obtain ⟨_,_,key⟩ := rearmingOwned roster phase some' mem (.inr named)
      exact ⟨rfl,rfl,promised.same.trans key.symm⟩
    · exact ⟨rfl,rfl,rfl⟩
  obtain ⟨apart,fewer⟩ := duesRearmed phase some'
  refine ⟨moveBooks books rfl rfl rfl (Nat.le_refl _) (fun _ mem => .inl mem) fun lease stopAt holds => ?_,
    ⟨roster.guards,roster.keys.mapSameKey fun owned mem => (kept owned mem _ rfl).1,
      roster.deadlines.mapSameKey fun owned mem => (kept owned mem _ rfl).2.1,fun after mem => ?_⟩,
    apart,fun due mem => ?_,fun renewal mem => ?_,fun next some'' => by contradiction⟩
  · obtain ⟨after,mem,guard,found,rfl,rfl⟩ := holdsQuiet (by exact trivial) holds
    obtain ⟨owned,inOwned,same⟩ := List.mem_map.mp mem
    obtain ⟨_,deadline,key⟩ := kept owned inOwned after same
    have held : Holds deployment state owned.lease guard.deadline := .owned inOwned (deadline ▸ found)
    exact ⟨coveredSame (books.covered _ _ held) key.symm,_,_,held,key.symm⟩
  · obtain ⟨owned,inOwned,same⟩ := List.mem_map.mp mem
    obtain ⟨pipelineId,deadline,key⟩ := kept owned inOwned after same
    obtain ⟨named,room⟩ := roster.owned owned inOwned
    exact ⟨by rw [(sameLease key).1,named,pipelineId],by rw [deadline]; exact room⟩
  · obtain ⟨owned,inOwned,named,leased⟩ := phase.backed due (fewer due mem)
    obtain ⟨pipelineId,_,key⟩ := kept owned inOwned _ rfl
    exact ⟨_,List.mem_map_of_mem inOwned,pipelineId.trans named,key.trans leased⟩
  · obtain ⟨earlier,sent,at',started,request,promised'⟩ := phase.inFlight renewal mem
    refine ⟨fun after inAfter named guard found => ?_,sent,at',started,request,fun renewed reply => ?_⟩
    · obtain ⟨owned,inOwned,same⟩ := List.mem_map.mp inAfter
      obtain ⟨pipelineId,deadline,_⟩ := kept owned inOwned after same
      rw [deadline] at found
      exact earlier owned inOwned (pipelineId.symm.trans named) guard found
    · obtain ⟨key,expiry⟩ := promised' renewed reply
      exact ⟨key,expiry⟩

theorem confirmLostSound (sound : Sound deployment state) (here : state.phase = .renewing pass)
    (some' : pass.rearming = some rearming) :
    Sound deployment {state with phase := .renewing {pass with
      rearming := none
      lost := pass.lost ++ [rearming.renewal.due]}} := by
  have phase := sound.phase
  rw [here] at phase
  refine phaseSoundQuiet sound trivial (passPerm phase ?_ phase.inFlight (fun next some'' => by contradiction))
  simp only [dues,some',Option.map_some,Option.map_none,Option.toList_some,Option.toList_none,List.perm_iff_count,
    List.count_append,List.count_cons,List.count_nil]
  intro other
  omega

theorem proceedRearmingSound (accepted : deployment.config.validate = .ok ()) (sound : Sound deployment state)
    (here : state.phase = .renewing pass) (some' : pass.rearming = some rearming)
    (ok : proceedRearming deployment state pass rearming = some state') : Sound deployment state' := by
  simp only [proceedRearming] at ok
  split at ok
  · rename_i pending
    obtain ⟨guard,found,ok⟩ := Option.bind_eq_some_iff.mp ok
    cases Option.some.inj ok
    exact sendSound accepted sound here some' pending found
  · split at ok
    · cases Option.some.inj ok
      exact confirmSound sound here some'
    · cases Option.some.inj ok
      exact confirmLostSound sound here some'

theorem proceedRenewingSound (accepted : deployment.config.validate = .ok ()) (sound : Sound deployment state)
    (here : state.phase = .renewing pass) (ok : proceedRenewing deployment state pass = some state') :
    Sound deployment state' := by
  simp only [proceedRenewing] at ok
  split at ok
  · rename_i some'
    exact proceedRearmingSound accepted sound here some' ok
  · rename_i idle first
    split at ok
    · cases Option.some.inj ok
      exact requestSound sound here idle first
    · contradiction
  · rename_i idle none'
    split at ok
    · rename_i answered
      cases Option.some.inj ok
      have phase := sound.phase
      rw [here] at phase
      have left : dues pass = pass.lost := by simp [dues,idle,none',answered]
      exact leaveNextSound sound.books sound.roster (left ▸ phase.apart) (left ▸ phase.backed)
    · contradiction

theorem renewLeasesSound {due : List OwnedPipeline} (sound : Sound deployment state)
    (ok : renewLeases state due = some state') : Sound deployment state' := by
  simp only [renewLeases] at ok
  split at ok
  · rename_i chosen
    cases Option.some.inj ok
    have some' : ∀ owned ∈ due, owned ∈ state.owned :=
      fun owned mem => List.mem_of_mem_filter (chosen.1.mem_iff.mp mem)
    refine phaseSoundQuiet sound trivial ⟨?_,fun one mem => ?_,by simp,by simp⟩
    · have keys : ((state.owned.filter (fun owned => owned.nextRenewal ≤ state.now)).map OwnedPipeline.pipelineId).Nodup :=
        sound.roster.keys.filter _
      have moved := (chosen.1.map OwnedPipeline.pipelineId).nodup_iff.mpr keys
      simpa [dues,Function.comp_def] using moved
    · simp only [dues,List.map_nil,Option.map_none,Option.toList_none,List.append_nil,List.mem_map] at mem
      obtain ⟨owned,inDue,rfl⟩ := mem
      exact ⟨owned,some' owned inDue,rfl,rfl⟩
  · contradiction

end Rearm

section Runs
variable {deployment : Deployment} {state state' : State}

theorem actSound {action : Action} (accepted : deployment.config.validate = .ok ())
    (sound : Sound deployment state)
    (ok : act deployment state action = some state') : Sound deployment state' := by
  cases action with
  | advance duration =>
    cases Option.some.inj ok
    exact advanceSound sound duration
  | others call =>
    simp only [act] at ok
    split at ok
    · rename_i foreign
      cases Option.some.inj ok
      exact performSound sound (othersHarmless sound.books foreign.1 foreign.2)
    · contradiction
  | execute index readings => exact executeSound accepted sound ok
  | watch index => exact watchSound sound ok
  | startPipeline pipelineId =>
    simp only [act] at ok
    split at ok
    · exact startPipelineSound sound ok
    · contradiction
  | renewLeases due =>
    simp only [act] at ok
    split at ok
    · exact renewLeasesSound sound ok
    · contradiction
  | stopOwned pipelineId =>
    simp only [act] at ok
    split at ok
    · exact stopOwnedSound sound ok
    · contradiction
  | answered failed =>
    simp only [act] at ok
    split at ok
    · exact acquireAnsweredSound sound ‹_› ok
    · exact releasedSound sound ‹_› ok
    · contradiction
  | renewed pipelineId failed =>
    simp only [act] at ok
    split at ok
    · exact renewalAnsweredSound sound ‹_› ok
    · contradiction
  | proceed outcome =>
    simp only [act] at ok
    split at ok
    · cases Option.some.inj ok
      exact proceedStartingSound outcome sound ‹_›
    · exact proceedRenewingSound accepted sound ‹_› ok
    · exact proceedLeavingSound sound ‹_› ok
    · contradiction

theorem runSound {actions : List Action} (accepted : deployment.config.validate = .ok ())
    (sound : Sound deployment state) (ok : run deployment state actions = some state') : Sound deployment state' := by
  induction actions generalizing state with
  | nil =>
    cases Option.some.inj ok
    exact sound
  | cons action actions ih =>
    obtain ⟨middle,first,rest⟩ := Option.bind_eq_some_iff.mp ok
    exact ih (actSound accepted sound first) rest

theorem initialSound (now reading : Nat) (table : LeaseTable) : Sound deployment (initial now reading table) := by
  refine ⟨⟨recordedStep,fun lease stopAt holds => ?_,by simp [initial]⟩,⟨by simp [initial],?_,?_,by simp [initial]⟩,trivial⟩
  · obtain ⟨owned,mem,_⟩ := holdsQuiet (by exact trivial) holds
    simp [initial] at mem
  · simp [initial,UniqueKeys]
  · simp [initial,UniqueKeys]

end Runs

end CloudberryEtl.LeaseDeadline
