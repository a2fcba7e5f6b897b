import CloudberryEtl.SlotOwners
import CloudberryEtl.SchemaDrift

/-! What the slot, the target and the runs of all owners keep. The owner of the current fence waits only for a slot that
serves it, and no other owner can acknowledge a position behind the one it waits with. -/
namespace CloudberryEtl.SlotInvariant
open Change Result Settings Standalone SlotOwners
open Checkpoint

/- The position from which a run will start a stream that it has compared with the slot. -/
def waitsFrom : Phase → Option PgLsn
  | .validating start | .registering start | .copying start | .activating start | .starting start => some start
  | _ => none

def createdAt : Phase → Option PgLsn
  | .registering start | .copying start | .activating start => some start
  | _ => none

def heldAt : Phase → Option PgLsn
  | .resuming checkpoint => some checkpoint.appliedLsn
  | .validating start | .starting start => some start
  | .streaming stream => some stream.durable
  | _ => none

/- The position that a run may acknowledge. -/
def ackAt : Phase → Option PgLsn
  | .starting start => some start
  | .streaming stream => some stream.durable
  | _ => none

def streamOf : Phase → Option Stream
  | .streaming stream => some stream
  | _ => none

def Bare (phase : Phase) : Prop := ackAt phase = none ∧ heldAt phase = none ∧ createdAt phase = none ∧
  waitsFrom phase = none ∧ streamOf phase = none

section Invariant
variable {ι : Type} (site : Site ι)

def storedAt (target : CheckpointTables) (generation : Nat) : Option PgLsn :=
  (target.nodeCheckpoints (site.key generation)).map (fun stored => stored.checkpoint.appliedLsn)

def fenceOf (target : CheckpointTables) : Option StoredFence := target.pipelineState site.job.settings.pipelineId

def Current (target : CheckpointTables) (owner : ι) (run : Run) : Prop :=
  fenceOf site target = some ⟨run.generation,site.token owner⟩

/- No transaction after `start` lies before the position of the slot. -/
def Serves (slot : Option (HeldSlot ι)) (commits : List PgLsn) (start : PgLsn) : Prop :=
  ∀ held, slot = some held → ∀ lsn ∈ commits, start < lsn → held.confirmed < lsn

structure RunSound (target : CheckpointTables) (walEnd : PgLsn) (owner : ι) (run : Run) : Prop where
  fenced : run.phase ≠ .fencing → ∃ fence, fenceOf site target = some fence ∧
    run.generation ≤ fence.topologyGeneration ∧ site.token owner ≤ fence.fencingToken
  acked : ∀ lsn, ackAt run.phase = some lsn → ∀ generation stored, run.generation ≤ generation →
    storedAt site target generation = some stored → lsn ≤ stored
  ackedEnd : ∀ lsn, ackAt run.phase = some lsn → lsn ≤ walEnd
  createdEnd : ∀ lsn, createdAt run.phase = some lsn → lsn ≤ walEnd
  passed : ∀ stream, streamOf run.phase = some stream → ∀ lsn ∈ stream.delivered, lsn ≤ stream.position
  written : ∀ stream, streamOf run.phase = some stream → stream.position ≤ walEnd

/- What holds as well of the owner of the current fence. -/
structure OwnerSound (world : World ι) (owner : ι) (run : Run) : Prop where
  held : ∀ lsn, heldAt run.phase = some lsn → storedAt site world.target run.generation = some lsn
  created : ∀ lsn, createdAt run.phase = some lsn → ∀ other run' acked, other ≠ owner →
    world.runs other = some run' → ackAt run'.phase = some acked → acked ≤ lsn
  waits : ∀ start, waitsFrom run.phase = some start → Serves world.slot world.commits start
  whole : ∀ stream, streamOf run.phase = some stream → ∀ lsn ∈ world.commits, stream.start < lsn →
    lsn ≤ stream.position → lsn ∈ stream.delivered

/- No transaction between the start of a stream and the end of a batch it applied is missing from it. -/
def Unbroken (commits : List PgLsn) (record : Applied) : Prop :=
  ∀ lsn ∈ commits, record.start < lsn → lsn < record.lsn → lsn ∈ record.delivered

structure Sound (world : World ι) : Prop where
  commitsEnd : ∀ lsn ∈ world.commits, lsn ≤ world.walEnd
  slotEnd : ∀ held, world.slot = some held → held.confirmed ≤ world.walEnd
  storedEnd : ∀ generation lsn, storedAt site world.target generation = some lsn → lsn ≤ world.walEnd
  storedFenced : ∀ generation lsn, storedAt site world.target generation = some lsn →
    ∃ fence, fenceOf site world.target = some fence ∧ generation ≤ fence.topologyGeneration
  runs : ∀ owner run, world.runs owner = some run → RunSound site world.target world.walEnd owner run
  owners : ∀ owner run, world.runs owner = some run → Current site world.target owner run →
    OwnerSound site world owner run
  logEnd : ∀ record ∈ world.log, record.lsn ≤ world.walEnd
  log : ∀ record ∈ world.log, Unbroken world.commits record

end Invariant

section Steps
variable {ι : Type} {site : Site ι} {world : World ι}

theorem currentUnique (distinct : Function.Injective site.token) {target : CheckpointTables} {owner other : ι}
    {run run' : Run} (here : Current site target owner run) (there : Current site target other run') : owner = other := by
  have same := Option.some.inj (here.symm.trans there)
  exact distinct (congrArg StoredFence.fencingToken same)

theorem ackedBeforeWait (sound : Sound site world) {owner other : ι} {run run' : Run} {start acked : PgLsn}
    (found : world.runs owner = some run) (current : Current site world.target owner run)
    (waits : waitsFrom run.phase = some start) (apart : other ≠ owner) (found' : world.runs other = some run')
    (acks : ackAt run'.phase = some acked) : acked ≤ start := by
  have mine := sound.owners owner run found current
  have theirs := sound.runs other run' found'
  cases created : createdAt run.phase with
  | some lsn =>
    have same : lsn = start := by
      cases phase : run.phase <;> simp_all [createdAt,waitsFrom]
    exact same ▸ mine.created lsn created other run' acked apart found' acks
  | none =>
    have held : heldAt run.phase = some start := by
      cases phase : run.phase <;> simp_all [createdAt,waitsFrom,heldAt]
    have late : run'.phase ≠ .fencing := by
      intro phase
      rw [phase] at acks
      cases acks
    obtain ⟨fence,stands,generation,_⟩ := theirs.fenced late
    cases Option.some.inj (current.symm.trans stands)
    exact theirs.acked acked acks run.generation start generation (mine.held start held)

theorem frameSound (sound : Sound site world) (generation : Nat) (issued : List SlotCommand) :
    Sound site {world with generation := generation, issued := issued} := by
  obtain ⟨commitsEnd,slotEnd,storedEnd,storedFenced,runs,owners,logEnd,log⟩ := sound
  refine ⟨commitsEnd,slotEnd,storedEnd,storedFenced,runs,?_,logEnd,log⟩
  intro owner run found current
  obtain ⟨held,created,waits,whole⟩ := owners owner run found current
  exact ⟨held,created,waits,whole⟩

theorem slotSound (sound : Sound site world) {slot : Option (HeldSlot ι)}
    (slotEnd : ∀ held, slot = some held → held.confirmed ≤ world.walEnd)
    (serves : ∀ owner run start, world.runs owner = some run → Current site world.target owner run →
      waitsFrom run.phase = some start → Serves slot world.commits start) : Sound site {world with slot := slot} := by
  refine ⟨sound.commitsEnd,slotEnd,sound.storedEnd,sound.storedFenced,sound.runs,?_,sound.logEnd,sound.log⟩
  intro owner run found current
  obtain ⟨held,created,_,whole⟩ := sound.owners owner run found current
  exact ⟨held,created,fun start waits => serves owner run start found current waits,whole⟩

theorem RunSound.later {target : CheckpointTables} {walEnd next : PgLsn} {owner : ι} {run : Run}
    (sound : RunSound site target walEnd owner run) (later : walEnd ≤ next) : RunSound site target next owner run where
  fenced := sound.fenced
  acked := sound.acked
  ackedEnd := fun lsn at' => (sound.ackedEnd lsn at').trans later
  createdEnd := fun lsn at' => (sound.createdEnd lsn at').trans later
  passed := sound.passed
  written := fun stream at' => (sound.written stream at').trans later

theorem walSound (sound : Sound site world) (lsn : PgLsn) : Sound site {world with walEnd := max world.walEnd lsn} := by
  have later : world.walEnd ≤ max world.walEnd lsn := le_max_left _ _
  refine ⟨fun other mem => (sound.commitsEnd other mem).trans later,fun held found => (sound.slotEnd held found).trans later,
    fun generation stored found => (sound.storedEnd generation stored found).trans later,sound.storedFenced,?_,?_,
    fun record mem => (sound.logEnd record mem).trans later,sound.log⟩
  · intro owner run found
    exact (sound.runs owner run found).later later
  · intro owner run found current
    obtain ⟨held,created,waits,whole⟩ := sound.owners owner run found current
    exact ⟨held,created,waits,whole⟩

theorem commitSound (sound : Sound site world) {lsn : PgLsn} (next : world.walEnd < lsn) :
    Sound site {world with commits := world.commits ++ [lsn], walEnd := lsn} := by
  have later : world.walEnd ≤ lsn := le_of_lt next
  refine ⟨?_,fun held found => (sound.slotEnd held found).trans later,
    fun generation stored found => (sound.storedEnd generation stored found).trans later,sound.storedFenced,?_,?_,
    fun record mem => (sound.logEnd record mem).trans later,?_⟩
  · intro other mem
    rcases List.mem_append.mp mem with mem | mem
    · exact (sound.commitsEnd other mem).trans later
    · exact le_of_eq (List.mem_singleton.mp mem)
  · intro owner run found
    exact (sound.runs owner run found).later later
  · intro owner run found current
    obtain ⟨held,created,waits,whole⟩ := sound.owners owner run found current
    refine ⟨held,created,?_,?_⟩
    · intro start at' slot there other mem after
      rcases List.mem_append.mp mem with mem | mem
      · exact waits start at' slot there other mem after
      · rw [List.mem_singleton.mp mem]
        exact lt_of_le_of_lt (sound.slotEnd slot there) next
    · intro stream phase other mem after before
      rcases List.mem_append.mp mem with mem | mem
      · exact whole stream phase other mem after before
      · rw [List.mem_singleton.mp mem] at before
        exact absurd (lt_of_lt_of_le next before) (not_lt.mpr ((sound.runs owner run found).written stream phase))
  · intro record mem other inside after before
    rcases List.mem_append.mp inside with inside | inside
    · exact sound.log record mem other inside after before
    · rw [List.mem_singleton.mp inside] at before
      exact absurd (next.trans before) (not_lt.mpr (sound.logEnd record mem))

theorem dropSlotSound (sound : Sound site world) {dropped : World ι} (ok : world.dropSlot = some dropped) :
    Sound site dropped := by
  unfold World.dropSlot at ok
  split at ok <;> try contradiction
  cases Option.some.inj ok
  exact slotSound sound (fun _ found => by cases found) (fun _ _ _ _ _ _ _ found => by cases found)

theorem retainSound (sound : Sound site world) (retention : Retention) :
    Sound site {world with slot := world.slot.map (fun slot => {slot with retention := retention})} := by
  have same : ∀ held, world.slot.map (fun slot => {slot with retention := retention}) = some held →
      ∃ slot, world.slot = some slot ∧ held.confirmed = slot.confirmed := by
    intro held found
    obtain ⟨slot,there,rfl⟩ := Option.map_eq_some_iff.mp found
    exact ⟨slot,there,rfl⟩
  refine slotSound sound ?_ ?_
  · intro held found
    obtain ⟨slot,there,confirmed⟩ := same held found
    exact confirmed ▸ sound.slotEnd slot there
  · intro other run start found current waits held found'
    obtain ⟨slot,there,confirmed⟩ := same held found'
    rw [confirmed]
    exact (sound.owners other run found current).waits start waits slot there

theorem createSlotSound (sound : Sound site world) {created : World ι} (ok : world.createSlot = some created)
    (calm : ∀ owner run start, world.runs owner = some run → Current site world.target owner run →
      waitsFrom run.phase = some start → ∀ lsn ∈ world.commits, lsn ≤ start) : Sound site created := by
  unfold World.createSlot at ok
  split at ok <;> try contradiction
  cases Option.some.inj ok
  refine slotSound sound (fun _ found => by cases found; exact le_rfl) ?_
  intro owner run start found current waits held _ lsn mem after
  exact absurd (calm owner run start found current waits lsn mem) (not_le.mpr after)

theorem logSound (sound : Sound site world) {record : Applied} (written : record.lsn ≤ world.walEnd)
    (whole : Unbroken world.commits record) : Sound site {world with log := world.log ++ [record]} := by
  refine ⟨sound.commitsEnd,sound.slotEnd,sound.storedEnd,sound.storedFenced,sound.runs,?_,?_,?_⟩
  · intro owner run found current
    obtain ⟨held,created,waits,whole⟩ := sound.owners owner run found current
    exact ⟨held,created,waits,whole⟩
  · intro other mem
    rcases List.mem_append.mp mem with mem | mem
    · exact sound.logEnd other mem
    · rwa [List.mem_singleton.mp mem]
  · intro other mem
    rcases List.mem_append.mp mem with mem | mem
    · exact sound.log other mem
    · rwa [List.mem_singleton.mp mem]

theorem fenceSound (distinct : Function.Injective site.token) (sound : Sound site world) {owner : ι} {run : Run}
    {target : CheckpointTables} (found : world.runs owner = some run) (phase : run.phase = .fencing)
    (ok : activatePipelineFence world.target (site.fence owner run.generation) = .ok target) :
    Sound site {world with target := target} := by
  obtain ⟨newer,rfl⟩ := activateSource ok
  have fence : fenceOf site (world.target.putFence (site.fence owner run.generation)) =
      some ⟨run.generation,site.token owner⟩ := Function.update_self ..
  refine ⟨sound.commitsEnd,sound.slotEnd,sound.storedEnd,?_,?_,?_,sound.logEnd,sound.log⟩
  · intro generation lsn stored
    obtain ⟨before,stands,within⟩ := sound.storedFenced generation lsn stored
    exact ⟨_,fence,within.trans (newer before stands).1⟩
  · intro other run' found'
    obtain ⟨fenced,acked,ackedEnd,createdEnd,passed,written⟩ := sound.runs other run' found'
    refine ⟨?_,acked,ackedEnd,createdEnd,passed,written⟩
    intro late
    obtain ⟨before,stands,generation,token⟩ := fenced late
    obtain ⟨generation',token'⟩ := newer before stands
    exact ⟨_,fence,generation.trans generation',token.trans token'⟩
  · intro other run' found' current
    have same := currentUnique distinct current fence
    subst same
    cases Option.some.inj (found.symm.trans found')
    refine ⟨?_,?_,?_,?_⟩ <;> intro lsn at' <;> rw [phase] at at' <;> cases at'

theorem storedByCurrent (sound : Sound site world) {owner : ι} {run : Run} (current : Current site world.target owner run)
    {generation : Nat} {lsn : PgLsn} (later : run.generation ≤ generation)
    (stored : storedAt site world.target generation = some lsn) : generation = run.generation := by
  obtain ⟨fence,stands,within⟩ := sound.storedFenced generation lsn stored
  cases Option.some.inj (current.symm.trans stands)
  exact le_antisymm within later

section Advance
variable {owner : ι} {run : Run} {lsn : PgLsn} {outcome : AdvanceOutcome} {target : CheckpointTables}

theorem advanceCurrent (ok : advanceNodeCheckpoint world.target (site.fence owner run.generation)
    (site.checkpoint run.generation lsn) = .ok (outcome,target)) : Current site world.target owner run :=
  (lockSource (advanceSource ok).2.2.1).1

theorem advanceForward (ok : advanceNodeCheckpoint world.target (site.fence owner run.generation)
    (site.checkpoint run.generation lsn) = .ok (outcome,target)) {old : PgLsn}
    (stored : storedAt site world.target run.generation = some old) : old ≤ lsn := by
  obtain ⟨_,_,_,checked,_⟩ := advanceSource ok
  obtain ⟨row,there,same⟩ := Option.map_eq_some_iff.mp stored
  rw [show world.target.nodeCheckpoints (site.checkpoint run.generation lsn).key = some row from there] at checked
  exact same ▸ (checkAdvanceSource checked).2.2.2.2

theorem advanceFence (ok : advanceNodeCheckpoint world.target (site.fence owner run.generation)
    (site.checkpoint run.generation lsn) = .ok (outcome,target)) : fenceOf site target = fenceOf site world.target := by
  obtain ⟨_,_,_,_,rfl⟩ := advanceSource ok
  rfl

theorem advanceStored (ok : advanceNodeCheckpoint world.target (site.fence owner run.generation)
    (site.checkpoint run.generation lsn) = .ok (outcome,target)) : storedAt site target run.generation = some lsn :=
  Option.map_eq_some_iff.mpr ⟨_,advanceWritten ok,rfl⟩

theorem advanceOther (ok : advanceNodeCheckpoint world.target (site.fence owner run.generation)
    (site.checkpoint run.generation lsn) = .ok (outcome,target)) {generation : Nat} (apart : generation ≠ run.generation) :
    storedAt site target generation = storedAt site world.target generation := by
  have other : site.key generation ≠ (site.checkpoint run.generation lsn).key :=
    fun same => apart (congrArg CheckpointKey.topologyGeneration same)
  unfold storedAt
  rw [advanceElsewhere ok other]

end Advance

variable [DecidableEq ι]

theorem putCases {owner other : ι} {run run' : Run} (found : (world.put owner (some run)).runs other = some run') :
    (other = owner ∧ run' = run) ∨ (other ≠ owner ∧ world.runs other = some run') := by
  by_cases same : other = owner
  · subst same
    rw [World.putSelf] at found
    exact .inl ⟨rfl,(Option.some.inj found).symm⟩
  · rw [World.putOther _ same] at found
    exact .inr ⟨same,found⟩

theorem putSound (distinct : Function.Injective site.token) (sound : Sound site world) {owner : ι} {run : Run}
    (own : RunSound site world.target world.walEnd owner run)
    (mine : Current site world.target owner run → OwnerSound site world owner run)
    (acks : ∀ lsn, ackAt run.phase = some lsn →
      (∃ before, world.runs owner = some before ∧ ackAt before.phase = some lsn) ∨ Current site world.target owner run) :
    Sound site (world.put owner (some run)) := by
  refine ⟨sound.commitsEnd,sound.slotEnd,sound.storedEnd,sound.storedFenced,?_,?_,sound.logEnd,sound.log⟩
  · intro other run' found
    rcases putCases found with ⟨rfl,rfl⟩ | ⟨_,found⟩
    · exact own
    · exact sound.runs other run' found
  · intro other run' found current
    rcases putCases found with ⟨rfl,rfl⟩ | ⟨apart,found⟩
    · have before := mine current
      refine ⟨before.held,?_,before.waits,before.whole⟩
      intro lsn created third run'' acked apart' found'' acks''
      rcases putCases found'' with ⟨same,_⟩ | ⟨_,found''⟩
      · exact absurd same apart'
      · exact before.created lsn created third run'' acked apart' found'' acks''
    · have before := sound.owners other run' found current
      refine ⟨before.held,?_,before.waits,before.whole⟩
      intro lsn created third run'' acked apart' found'' acks''
      rcases putCases found'' with ⟨rfl,rfl⟩ | ⟨_,found''⟩
      · rcases acks acked acks'' with ⟨older,found'',acks''⟩ | mine'
        · exact before.created lsn created third older acked apart' found'' acks''
        · exact absurd (currentUnique distinct mine' current) apart'
      · exact before.created lsn created third run'' acked apart' found'' acks''

theorem dropRunSound (sound : Sound site world) (owner : ι) : Sound site (world.put owner none) := by
  have kept : ∀ other run, (world.put owner none).runs other = some run → world.runs other = some run := by
    intro other run found
    by_cases same : other = owner
    · rw [same,World.putSelf] at found
      cases found
    · rwa [World.putOther _ same] at found
  refine ⟨sound.commitsEnd,sound.slotEnd,sound.storedEnd,sound.storedFenced,
    fun other run found => sound.runs other run (kept other run found),?_,sound.logEnd,sound.log⟩
  intro other run found current
  obtain ⟨held,created,waits,whole⟩ := sound.owners other run (kept other run found) current
  exact ⟨held,fun lsn at' third run' acked apart found' => created lsn at' third run' acked apart (kept third run' found'),
    waits,whole⟩

theorem stopSound (sound : Sound site world) (owner : ι) : Sound site (world.stop owner) := by
  let released := world.slot.map (fun slot => if slot.holder = some owner then {slot with holder := none} else slot)
  have same : ∀ held, released = some held → ∃ slot, world.slot = some slot ∧ held.confirmed = slot.confirmed := by
    intro held found
    obtain ⟨slot,there,rfl⟩ := Option.map_eq_some_iff.mp found
    refine ⟨slot,there,?_⟩
    split <;> rfl
  have released' : Sound site {world with slot := released} := by
    refine slotSound sound ?_ ?_
    · intro held found
      obtain ⟨slot,there,confirmed⟩ := same held found
      exact confirmed ▸ sound.slotEnd slot there
    · intro other run start found current waits held found'
      obtain ⟨slot,there,confirmed⟩ := same held found'
      rw [confirmed]
      exact (sound.owners other run found current).waits start waits slot there
  exact dropRunSound released' owner

theorem rebuildSound (sound : Sound site world) (owner : ι) : Sound site (world.rebuild owner) :=
  frameSound (stopSound sound owner) _ _

/- The next phase of a run that has its fence. Each of its positions is one the run had, or comes from what the run has
just seen of the slot, the WAL or the target. -/
theorem moveSound (distinct : Function.Injective site.token) (sound : Sound site world) {owner : ι} {run : Run}
    (found : world.runs owner = some run) (begun : run.phase ≠ .fencing) {phase : Phase}
    (acks : ∀ lsn, ackAt phase = some lsn →
      ackAt run.phase = some lsn ∨ (Current site world.target owner run ∧ heldAt run.phase = some lsn))
    (held : ∀ lsn, heldAt phase = some lsn →
      heldAt run.phase = some lsn ∨ storedAt site world.target run.generation = some lsn)
    (created : ∀ lsn, createdAt phase = some lsn → createdAt run.phase = some lsn ∨ lsn = world.walEnd)
    (waits : ∀ start, waitsFrom phase = some start →
      waitsFrom run.phase = some start ∨ Serves world.slot world.commits start)
    (streams : ∀ stream, streamOf phase = some stream → (∀ lsn ∈ stream.delivered, lsn ≤ stream.position) ∧
      stream.position ≤ world.walEnd ∧ (Current site world.target owner run → ∀ lsn ∈ world.commits, stream.start < lsn →
        lsn ≤ stream.position → lsn ∈ stream.delivered)) :
    Sound site (world.put owner (some {run with phase := phase})) := by
  have before := sound.runs owner run found
  have mine := sound.owners owner run found
  refine putSound distinct sound ⟨fun _ => before.fenced begun,?_,?_,?_,fun stream here => (streams stream here).1,
    fun stream here => (streams stream here).2.1⟩ ?_ ?_
  · intro lsn at' generation stored later found'
    rcases acks lsn at' with same | ⟨current,reads⟩
    · exact before.acked lsn same generation stored later found'
    · have same := storedByCurrent sound current later found'
      subst same
      exact le_of_eq (Option.some.inj (((mine current).held lsn reads).symm.trans found'))
  · intro lsn at'
    rcases acks lsn at' with same | ⟨current,reads⟩
    · exact before.ackedEnd lsn same
    · exact sound.storedEnd run.generation lsn ((mine current).held lsn reads)
  · intro lsn at'
    exact (created lsn at').elim (before.createdEnd lsn) le_of_eq
  · intro current
    refine ⟨?_,?_,?_,fun stream here => (streams stream here).2.2 current⟩
    · intro lsn at'
      exact (held lsn at').elim ((mine current).held lsn) id
    · intro lsn at' other run' acked apart found' acks'
      rcases created lsn at' with same | same
      · exact (mine current).created lsn same other run' acked apart found' acks'
      · exact same ▸ (sound.runs other run' found').ackedEnd acked acks'
    · intro start at'
      exact (waits start at').elim ((mine current).waits start) id
  · intro lsn at'
    exact (acks lsn at').imp (fun same => ⟨run,found,same⟩) And.left

theorem bareSound (distinct : Function.Injective site.token) (sound : Sound site world) {owner : ι} {run : Run}
    (found : world.runs owner = some run) (begun : run.phase ≠ .fencing) {phase : Phase} (bare : Bare phase) :
    Sound site (world.put owner (some {run with phase := phase})) := by
  obtain ⟨acks,held,created,waits,still⟩ := bare
  refine moveSound distinct sound found begun ?_ ?_ ?_ ?_ ?_
  · intro lsn at'
    rw [acks] at at'
    cases at'
  · intro lsn at'
    rw [held] at at'
    cases at'
  · intro lsn at'
    rw [created] at at'
    cases at'
  · intro start at'
    rw [waits] at at'
    cases at'
  · intro stream at'
    rw [still] at at'
    cases at'

theorem advanceSound (distinct : Function.Injective site.token) (sound : Sound site world) {owner : ι} {run : Run}
    {lsn : PgLsn} {outcome : AdvanceOutcome} {target : CheckpointTables} {phase : Phase}
    (ok : advanceNodeCheckpoint world.target (site.fence owner run.generation) (site.checkpoint run.generation lsn) =
      .ok (outcome,target)) (lsnEnd : lsn ≤ world.walEnd)
    (others : ∀ other run' acked, other ≠ owner → world.runs other = some run' → ackAt run'.phase = some acked →
      run'.generation ≤ run.generation → acked ≤ lsn)
    (acks : ∀ acked, ackAt phase = some acked → acked = lsn) (held : ∀ held, heldAt phase = some held → held = lsn)
    (created : createdAt phase = none)
    (waits : ∀ start, waitsFrom phase = some start → Serves world.slot world.commits start)
    (streams : ∀ stream, streamOf phase = some stream → (∀ other ∈ stream.delivered, other ≤ stream.position) ∧
      stream.position ≤ world.walEnd ∧ ∀ other ∈ world.commits, stream.start < other → other ≤ stream.position →
        other ∈ stream.delivered) :
    Sound site ({world with target := target}.put owner (some {run with phase := phase})) := by
  have current := advanceCurrent ok
  have fence := advanceFence ok
  have stored : ∀ {generation at'}, storedAt site target generation = some at' →
      (generation = run.generation ∧ at' = lsn) ∨
        (generation ≠ run.generation ∧ storedAt site world.target generation = some at') := by
    intro generation at' found
    by_cases same : generation = run.generation
    · rw [same,advanceStored ok] at found
      exact .inl ⟨same,(Option.some.inj found).symm⟩
    · rw [advanceOther ok same] at found
      exact .inr ⟨same,found⟩
  refine ⟨sound.commitsEnd,sound.slotEnd,?_,?_,?_,?_,sound.logEnd,sound.log⟩
  · intro generation at' found
    rcases stored found with ⟨_,rfl⟩ | ⟨_,found⟩
    · exact lsnEnd
    · exact sound.storedEnd generation at' found
  · intro generation at' found
    show ∃ stands, fenceOf site target = some stands ∧ generation ≤ stands.topologyGeneration
    rw [fence]
    rcases stored found with ⟨rfl,_⟩ | ⟨_,found⟩
    · exact ⟨_,current,le_rfl⟩
    · exact sound.storedFenced generation at' found
  · intro other run' found
    rcases putCases found with ⟨rfl,rfl⟩ | ⟨apart,found⟩
    · refine ⟨fun _ => ⟨_,fence.trans current,le_rfl,le_rfl⟩,?_,?_,?_,fun stream here => (streams stream here).1,
        fun stream here => (streams stream here).2.1⟩
      · intro acked at' generation stored' later found'
        rw [acks acked at']
        rcases stored found' with ⟨_,rfl⟩ | ⟨apart,found'⟩
        · exact le_rfl
        · exact absurd (storedByCurrent sound current later found') apart
      · intro acked at'
        rw [acks acked at']
        exact lsnEnd
      · intro at' there
        rw [created] at there
        cases there
    · have before := sound.runs other run' found
      refine ⟨?_,?_,before.ackedEnd,before.createdEnd,before.passed,before.written⟩
      · intro late
        obtain ⟨stands,there,within⟩ := before.fenced late
        exact ⟨stands,fence.trans there,within⟩
      · intro acked at' generation stored' later found'
        rcases stored found' with ⟨rfl,rfl⟩ | ⟨_,found'⟩
        · exact others other run' acked apart found at' later
        · exact before.acked acked at' generation stored' later found'
  · intro other run' found current'
    have owned : Current site world.target other run' := fence.symm.trans current'
    rcases putCases found with ⟨rfl,rfl⟩ | ⟨apart,found⟩
    · refine ⟨?_,?_,waits,fun stream here => (streams stream here).2.2⟩
      · intro at' there
        rw [held at' there]
        exact advanceStored ok
      · intro at' there
        rw [created] at there
        cases there
    · exact absurd (currentUnique distinct owned current) apart

end Steps

section Slot
variable {ι : Type} {site : Site ι}

theorem resumeSlotServes {slot : Option (HeldSlot ι)} {checkpoint : NodeCheckpoint}
    (ok : validateResumeSlot site.job (site.observed slot) checkpoint = .ok ()) (commits : List PgLsn) :
    Serves slot commits checkpoint.appliedLsn := by
  intro held found lsn _ after
  subst found
  unfold validateResumeSlot at ok
  obtain ⟨_,ok⟩ := iteOk.mp ok
  obtain ⟨_,ok⟩ := iteOk.mp ok
  have seen : inspectLogicalSlot (site.observed (some held)) site.job.names.slot = some (site.slotState held) := by
    simp [inspectLogicalSlot,Site.observed,Site.slotState]
  rw [seen] at ok
  obtain ⟨_,_,ok⟩ := bindOk.mp ok
  have usable := SchemaDrift.positionIff.mp ok
  push Not at usable
  exact lt_of_le_of_lt (usable.2.2.2.1 held.confirmed rfl) after

/- No owner runs, and what the slot and the target hold lies within the WAL. -/
structure Quiet (site : Site ι) (world : World ι) : Prop where
  runs : ∀ owner, world.runs owner = none
  commitsEnd : ∀ lsn ∈ world.commits, lsn ≤ world.walEnd
  slotEnd : ∀ held, world.slot = some held → held.confirmed ≤ world.walEnd
  storedEnd : ∀ generation lsn, storedAt site world.target generation = some lsn → lsn ≤ world.walEnd
  storedFenced : ∀ generation lsn, storedAt site world.target generation = some lsn →
    ∃ fence, fenceOf site world.target = some fence ∧ generation ≤ fence.topologyGeneration
  log : world.log = []

theorem quietSound {world : World ι} (quiet : Quiet site world) : Sound site world := by
  refine ⟨quiet.commitsEnd,quiet.slotEnd,quiet.storedEnd,quiet.storedFenced,?_,?_,?_,?_⟩
  · intro owner run found
    rw [quiet.runs] at found
    cases found
  · intro owner run found
    rw [quiet.runs] at found
    cases found
  · rw [quiet.log]
    exact fun _ mem => absurd mem (List.not_mem_nil)
  · rw [quiet.log]
    exact fun _ mem => absurd mem (List.not_mem_nil)

end Slot

end CloudberryEtl.SlotInvariant
