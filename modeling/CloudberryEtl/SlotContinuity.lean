import CloudberryEtl.SlotInvariant

/-! Slot continuity across owners. The owner of the current fence misses nothing as long as nobody creates the slot anew
while that owner stands between its own look at the slot and its START_REPLICATION. -/
namespace CloudberryEtl.SlotContinuity
open Change Result Standalone SlotOwners SlotInvariant
open Checkpoint

section Actions
variable {ι : Type} [DecidableEq ι] {site : Site ι} {world : World ι}

def Creates (world : World ι) : Event ι → Prop
  | .execute command => command = .create ∧ command ∈ world.issued ∧ world.slot = none
  | .act owner action => action = .proceed ∧ (world.runs owner).map Run.phase = some .creating ∧ world.slot = none
  | _ => False

instance (world : World ι) : DecidablePred (Creates world) := fun event => by
  cases event <;> unfold Creates <;> infer_instance

/- The owner of the current fence does not stand between its own look at the slot and its START_REPLICATION, or nothing
has been committed after the position it is to start from. -/
def Calm (site : Site ι) (world : World ι) : Prop :=
  ∀ owner run start, world.runs owner = some run → Current site world.target owner run →
    waitsFrom run.phase = some start → ∀ lsn ∈ world.commits, lsn ≤ start

omit [DecidableEq ι] in
theorem dropSlotRuns {after : World ι} (ok : world.dropSlot = some after) : after.runs = world.runs := by
  unfold World.dropSlot at ok
  split at ok <;> try contradiction
  cases Option.some.inj ok
  rfl

section Proceed
variable (distinct : Function.Injective site.token) (sound : Sound site world) {owner : ι} {run : Run}
  (found : world.runs owner = some run)
include distinct sound found

theorem resumeSound {checkpoint : NodeCheckpoint} (phase : run.phase = .resuming checkpoint) :
    Sound site (resume site world owner run checkpoint) := by
  unfold resume
  split
  · rename_i ok
    refine moveSound distinct sound found (by simp [phase]) ?_ ?_ ?_ ?_ ?_
    · intro lsn at'
      cases at'
    · intro lsn at'
      exact .inl (by rw [phase]; exact at')
    · intro lsn at'
      cases at'
    · intro start at'
      cases at'
      exact .inr (resumeSlotServes ok _)
    · intro stream at'
      cases at'
  · split
    · exact rebuildSound sound owner
    · exact stopSound sound owner

theorem keepSound (start : PgLsn) {phase : Phase} (before : waitsFrom run.phase = some start)
    (created : createdAt run.phase = some start) (same : createdAt phase = some start ∧ waitsFrom phase = some start)
    (none' : ackAt phase = none ∧ heldAt phase = none ∧ streamOf phase = none) :
    Sound site (world.put owner (some {run with phase := phase})) := by
  have begun : run.phase ≠ .fencing := by
    intro fencing
    rw [fencing] at before
    cases before
  refine moveSound distinct sound found begun ?_ ?_ ?_ ?_ ?_
  · intro lsn at'
    rw [none'.1] at at'
    cases at'
  · intro lsn at'
    rw [none'.2.1] at at'
    cases at'
  · intro lsn at'
    rw [same.1] at at'
    exact .inl (created.trans at')
  · intro lsn at'
    rw [same.2] at at'
    exact .inl (before.trans at')
  · intro stream at'
    rw [none'.2.2] at at'
    cases at'

theorem fencedSound (phase : run.phase = .fencing) {target : CheckpointTables}
    (ok : activatePipelineFence world.target (site.fence owner run.generation) = .ok target) :
    Sound site ({world with target := target}.put owner (some {run with phase := .loading})) := by
  have current : Current site target owner run := by
    obtain ⟨_,rfl⟩ := activateSource ok
    exact Function.update_self ..
  refine putSound distinct (fenceSound distinct sound found phase ok) ⟨fun _ => ⟨_,current,le_rfl,le_rfl⟩,?_,?_,?_,?_,?_⟩
    (fun _ => ⟨?_,?_,?_,?_⟩) ?_ <;> intro position at' <;> cases at'

theorem loadedSound (phase : run.phase = .loading) {stored : StoredNodeCheckpoint}
    (ok : loadNodeCheckpoint world.target (site.key run.generation) = .ok (some stored)) :
    Sound site (world.put owner (some {run with phase := .resuming stored.checkpoint})) := by
  obtain ⟨_,_,read⟩ := bindOk.mp ok
  have row := Except.ok.inj read
  refine moveSound distinct sound found (by simp [phase]) ?_ ?_ ?_ ?_ ?_
  · intro lsn at'
    cases at'
  · intro lsn at'
    cases at'
    exact .inr (Option.map_eq_some_iff.mpr ⟨stored,row,rfl⟩)
  · intro lsn at'
    cases at'
  · intro lsn at'
    cases at'
  · intro lsn at'
    cases at'

theorem validatedSound {start : PgLsn} (phase : run.phase = .validating start)
    (ok : lockPipelineFence world.target (site.fence owner run.generation) = .ok ()) :
    Sound site (world.put owner (some {run with phase := .starting start})) := by
  refine moveSound distinct sound found (by simp [phase]) ?_ ?_ ?_ ?_ ?_
  · intro lsn at'
    exact .inr ⟨(lockSource ok).1,by rw [phase]; exact at'⟩
  · intro lsn at'
    exact .inl (by rw [phase]; exact at')
  · intro lsn at'
    cases at'
  · intro lsn at'
    exact .inl (by rw [phase]; exact at')
  · intro lsn at'
    cases at'

theorem createSound (phase : run.phase = .creating) (calm : world.slot = none → Calm site world) {created : World ι}
    (ok : world.createSlot = some created) :
    Sound site (created.put owner (some {run with phase := .registering world.walEnd})) := by
  have empty : world.slot = none := by
    unfold World.createSlot at ok
    split at ok
    · assumption
    · contradiction
  have after := createSlotSound sound ok (calm empty)
  have same : created = {world with slot := some ⟨world.walEnd,⟨some world.walEnd,some "reserved",none⟩,none⟩} := by
    unfold World.createSlot at ok
    rw [empty] at ok
    exact (Option.some.inj ok).symm
  subst same
  refine moveSound distinct after found (by simp [phase]) ?_ ?_ ?_ ?_ ?_
  · intro lsn at'
    cases at'
  · intro lsn at'
    cases at'
  · intro lsn at'
    cases at'
    exact .inr rfl
  · intro start at'
    cases at'
    -- the slot stands at the end of the WAL, and so does every transaction before it
    exact .inr fun held _ lsn mem behind => absurd (sound.commitsEnd lsn mem) (not_le.mpr behind)
  · intro stream at'
    cases at'

theorem activateSound {start : PgLsn} (phase : run.phase = .activating start) {outcome : AdvanceOutcome}
    {target : CheckpointTables} (ok : advanceNodeCheckpoint world.target (site.fence owner run.generation)
      (site.checkpoint run.generation start) = .ok (outcome,target)) :
    Sound site ({world with target := target}.put owner (some {run with phase := .starting start})) := by
  have mine := sound.owners owner run found (advanceCurrent ok)
  have created : createdAt run.phase = some start := by rw [phase]; rfl
  have waits : waitsFrom run.phase = some start := by rw [phase]; rfl
  refine advanceSound distinct sound ok ((sound.runs owner run found).createdEnd start created) ?_ ?_ ?_ rfl ?_ ?_
  · exact fun other run' acked apart found' acks _ => mine.created start created other run' acked apart found' acks
  · exact fun acked at' => (Option.some.inj at').symm
  · exact fun held at' => (Option.some.inj at').symm
  · intro start' at'
    cases at'
    exact mine.waits start waits
  · intro stream at'
    cases at'

theorem startSound {start confirmed : PgLsn} {retention : Retention} (phase : run.phase = .starting start)
    (there : world.slot = some ⟨confirmed,retention,none⟩) :
    Sound site ({world with slot := some ⟨confirmed,retention,some owner⟩}.put owner
      (some {run with phase := .streaming ⟨start,max start confirmed,[],start⟩})) := by
  have serves : ∀ {from'}, Serves world.slot world.commits from' →
      Serves (some ⟨confirmed,retention,some owner⟩) world.commits from' := by
    intro from' before held same
    cases Option.some.inj same
    exact before ⟨confirmed,retention,none⟩ there
  have after : Sound site {world with slot := some ⟨confirmed,retention,some owner⟩} := by
    refine slotSound sound ?_ ?_
    · intro held same
      cases Option.some.inj same
      exact sound.slotEnd ⟨confirmed,retention,none⟩ there
    · intro other run' from' found' current waits
      exact serves ((sound.owners other run' found' current).waits from' waits)
  refine moveSound distinct after found (by simp [phase]) ?_ ?_ ?_ ?_ ?_
  · intro lsn at'
    exact .inl (by rw [phase]; exact at')
  · intro lsn at'
    exact .inl (by rw [phase]; exact at')
  · intro lsn at'
    cases at'
  · intro lsn at'
    cases at'
  · intro stream at'
    cases at'
    refine ⟨by simp,max_le ?_ (sound.slotEnd ⟨confirmed,retention,none⟩ there),?_⟩
    · exact (sound.runs owner run found).ackedEnd start (by rw [phase]; rfl)
    · intro current lsn mem behind upTo
      have clear := (sound.owners owner run found current).waits start (by rw [phase]; rfl) ⟨confirmed,retention,none⟩ there lsn mem behind
      exact absurd upTo (not_le.mpr (max_lt behind clear))

theorem proceedSound (calm : run.phase = .creating → world.slot = none → Calm site world) :
    Sound site (proceed site world owner run) := by
  unfold proceed
  cases phase : run.phase with
  | fencing =>
    simp only
    split
    · rename_i target ok
      exact fencedSound distinct sound found phase ok
    · exact stopSound sound owner
  | loading =>
    simp only
    split
    · rename_i stored ok
      exact loadedSound distinct sound found phase ok
    · exact bareSound distinct sound found (by simp [phase]) ⟨rfl,rfl,rfl,rfl,rfl⟩
    · exact stopSound sound owner
  | resuming checkpoint => exact resumeSound distinct sound found phase
  | validating start =>
    simp only
    split
    · rename_i ok
      exact validatedSound distinct sound found phase ok
    · exact stopSound sound owner
  | inspecting =>
    simp only
    split
    · exact bareSound distinct sound found (by simp [phase]) ⟨rfl,rfl,rfl,rfl,rfl⟩
    · split
      · exact bareSound distinct sound found (by simp [phase]) ⟨rfl,rfl,rfl,rfl,rfl⟩
      · exact stopSound sound owner
  | dropping =>
    simp only
    split
    · rename_i dropped ok
      have there : dropped.runs owner = some run := by rw [dropSlotRuns ok]; exact found
      exact bareSound distinct (dropSlotSound sound ok) there (by simp [phase]) ⟨rfl,rfl,rfl,rfl,rfl⟩
    · exact stopSound sound owner
  | publishing => exact bareSound distinct sound found (by simp [phase]) ⟨rfl,rfl,rfl,rfl,rfl⟩
  | creating =>
    simp only
    split
    · rename_i created ok
      exact createSound distinct sound found phase (calm phase) ok
    · exact bareSound distinct sound found (by simp [phase]) ⟨rfl,rfl,rfl,rfl,rfl⟩
  | registering start =>
    simp only
    split
    · exact keepSound distinct sound found start (by rw [phase]; rfl) (by rw [phase]; rfl) ⟨rfl,rfl⟩
        ⟨rfl,rfl,rfl⟩
    · exact bareSound distinct sound found (by simp [phase]) ⟨rfl,rfl,rfl,rfl,rfl⟩
  | copying start =>
    exact keepSound distinct sound found start (by rw [phase]; rfl) (by rw [phase]; rfl) ⟨rfl,rfl⟩
      ⟨rfl,rfl,rfl⟩
  | activating start =>
    simp only
    split
    · rename_i outcome target ok
      exact activateSound distinct sound found phase ok
    · exact stopSound sound owner
  | releasing =>
    simp only
    cases dropped : world.dropSlot with
    | none => exact stopSound sound owner
    | some after => exact stopSound (dropSlotSound sound dropped) owner
  | starting start =>
    simp only
    split
    · rename_i confirmed retention there
      split
      · exact stopSound sound owner
      · exact startSound distinct sound found phase there
    · exact stopSound sound owner
  | streaming stream => exact sound

theorem failSound : Sound site (fail world owner run) := by
  unfold fail
  split
  · rename_i phase
    exact bareSound distinct sound found (by simp [phase]) ⟨rfl,rfl,rfl,rfl,rfl⟩
  · rename_i phase
    exact bareSound distinct sound found (by simp [phase]) ⟨rfl,rfl,rfl,rfl,rfl⟩
  · rename_i phase
    exact bareSound distinct sound found (by simp [phase]) ⟨rfl,rfl,rfl,rfl,rfl⟩
  · exact stopSound sound owner

theorem deliverSound (lsn : PgLsn) : Sound site (deliver world owner run lsn) := by
  unfold deliver
  split
  · rename_i stream phase
    split
    · rename_i next
      obtain ⟨committed,later,first⟩ := next
      have before := sound.runs owner run found
      have streams : streamOf run.phase = some stream := by rw [phase]; rfl
      refine moveSound distinct sound found (by simp [phase]) ?_ ?_ ?_ ?_ ?_
      · intro at' same
        exact .inl (by rw [phase]; exact same)
      · intro at' same
        exact .inl (by rw [phase]; exact same)
      · intro at' same
        cases same
      · intro at' same
        cases same
      · intro stream' same
        cases same
        refine ⟨?_,sound.commitsEnd lsn committed,?_⟩
        · intro other mem
          rcases List.mem_append.mp mem with mem | mem
          · exact (before.passed stream streams other mem).trans (le_of_lt later)
          · exact le_of_eq (List.mem_singleton.mp mem)
        · intro current other mem behind upTo
          have whole := (sound.owners owner run found current).whole stream streams other mem behind
          rcases le_or_gt other stream.position with passed | ahead
          · exact List.mem_append_left _ (whole passed)
          · -- nothing committed lies between the old position and the new one
            have same := le_antisymm upTo (first other mem ahead)
            exact List.mem_append_right _ (List.mem_singleton.mpr same)
    · exact sound
  · exact sound

theorem applySound (lsn : PgLsn) : Sound site (apply site world owner run lsn) := by
  unfold apply
  split
  · rename_i stream phase
    split
    · rename_i delivered
      split
      · rename_i outcome target ok
        have before := sound.runs owner run found
        have mine := sound.owners owner run found (advanceCurrent ok)
        have streams : streamOf run.phase = some stream := by rw [phase]; rfl
        have position := before.passed stream streams lsn delivered
        have lsnEnd := position.trans (before.written stream streams)
        have whole : Unbroken world.commits ⟨stream.start,lsn,stream.delivered⟩ := by
          intro other mem behind upTo
          exact mine.whole stream streams other mem behind ((le_of_lt upTo).trans position)
        have logged := logSound sound lsnEnd whole
        refine advanceSound distinct logged ok lsnEnd ?_ ?_ ?_ rfl ?_ ?_
        · intro other run' acked apart found' acks within
          have held := mine.held stream.durable (by rw [phase]; rfl)
          exact ((sound.runs other run' found').acked acked acks run.generation _ within held).trans (advanceForward ok held)
        · exact fun acked at' => (Option.some.inj at').symm
        · exact fun held at' => (Option.some.inj at').symm
        · intro start at'
          cases at'
        · intro stream' same
          cases same
          exact ⟨before.passed stream streams,before.written stream streams,mine.whole stream streams⟩
      · exact stopSound sound owner
    · exact sound
  · exact sound

omit distinct in
theorem acknowledgeSound : Sound site (acknowledge world owner run) := by
  unfold acknowledge
  split
  · rename_i stream slot phase there
    split
    · refine slotSound sound ?_ ?_
      · intro held same
        cases Option.some.inj same
        exact max_le (sound.slotEnd slot there) ((sound.runs owner run found).ackedEnd stream.durable (by rw [phase]; rfl))
      · intro other run' start found' current waits held same lsn mem behind
        cases Option.some.inj same
        have apart : owner ≠ other := by
          intro same
          subst same
          cases Option.some.inj (found.symm.trans found')
          rw [phase] at waits
          cases waits
        have acked := ackedBeforeWait sound found' current waits apart found (by rw [phase]; rfl)
        have serves := (sound.owners other run' found' current).waits start waits slot there lsn mem behind
        exact max_lt serves (lt_of_le_of_lt acked behind)
    · exact sound
  · exact sound

theorem actSound (action : Action)
    (calm : action = .proceed → run.phase = .creating → world.slot = none → Calm site world) :
    Sound site (act site world owner run action) := by
  cases action with
  | proceed => exact proceedSound distinct sound found (calm rfl)
  | fail => exact failSound distinct sound found
  | crash => exact frameSound (stopSound sound owner) _ _
  | deliver lsn => exact deliverSound distinct sound found lsn
  | apply lsn => exact applySound distinct sound found lsn
  | acknowledge => exact acknowledgeSound sound found
  | drift =>
    unfold act
    simp only
    split
    · exact rebuildSound sound owner
    · exact sound
  | barrier =>
    unfold act
    simp only
    split
    · exact rebuildSound sound owner
    · exact sound

end Proceed

theorem stepSound (distinct : Function.Injective site.token) (sound : Sound site world) (event : Event ι)
    (calm : Creates world event → Calm site world) : Sound site (step site world event) := by
  cases event with
  | commit lsn =>
    simp only [step]
    split
    · rename_i next
      exact commitSound sound next
    · exact sound
  | writeWal lsn => exact walSound sound lsn
  | retain retention => exact retainSound sound retention
  | requestRebuild => exact frameSound sound _ _
  | execute command =>
    simp only [step]
    split
    · rename_i mem
      have after := frameSound sound world.generation (world.issued.erase command)
      cases command with
      | create =>
        cases created : ({world with issued := world.issued.erase .create} : World ι).createSlot with
        | none =>
          simp only [execute,created,Option.getD_none]
          exact after
        | some next =>
          have empty : world.slot = none := by
            unfold World.createSlot at created
            split at created
            · assumption
            · contradiction
          simp only [execute,created,Option.getD_some]
          exact createSlotSound after created (calm ⟨rfl,mem,empty⟩)
      | drop =>
        cases dropped : ({world with issued := world.issued.erase .drop} : World ι).dropSlot with
        | none =>
          simp only [execute,dropped,Option.getD_none]
          exact after
        | some next =>
          simp only [execute,dropped,Option.getD_some]
          exact dropSlotSound after dropped
    · exact sound
  | begin' owner =>
    simp only [step]
    split
    · refine putSound distinct sound ⟨fun late => absurd rfl late,?_,?_,?_,?_,?_⟩ (fun _ => ⟨?_,?_,?_,?_⟩) ?_ <;>
        intro position at' <;> cases at'
    · exact sound
  | act owner action =>
    simp only [step]
    split
    · exact sound
    · rename_i run found
      exact actSound distinct sound found action fun proceeds phase empty =>
        calm ⟨proceeds,by rw [found,Option.map_some,phase],empty⟩

def CalmRun (site : Site ι) (world : World ι) (events : List (Event ι)) : Prop :=
  ∀ n event, events[n]? = some event → Creates (run site world (events.take n)) event →
    Calm site (run site world (events.take n))

theorem runSound (distinct : Function.Injective site.token) (events : List (Event ι)) (sound : Sound site world)
    (calm : CalmRun site world events) : Sound site (run site world events) := by
  induction events generalizing world with
  | nil => exact sound
  | cons event events ih =>
    have first : Sound site (step site world event) := stepSound distinct sound event (calm 0 event rfl)
    exact ih first fun n other position => calm (n + 1) other position

/-- Whatever the order of the steps of any owners with different tokens, and wherever they crash: no batch that an owner
applies under the current fence skips a transaction since the checkpoint its stream started from, as long as no step
creates the slot while the owner of the current fence waits to start behind a later commit. -/
theorem nothingSkipped (site : Site ι) (distinct : Function.Injective site.token) (start : World ι) (quiet : Quiet site start)
    (events : List (Event ι)) (calm : CalmRun site start events) :
    ∀ record ∈ (run site start events).log, Unbroken (run site start events).commits record :=
  (runSound distinct events (quietSound quiet) calm).log

instance [Fintype ι] : Decidable (Calm site world) :=
  decidable_of_iff (∀ owner, ∀ run ∈ world.runs owner, ∀ start ∈ waitsFrom run.phase,
      fenceOf site world.target = some ⟨run.generation,site.token owner⟩ → ∀ lsn ∈ world.commits, lsn ≤ start)
    ⟨fun calm owner run start found current waits => calm owner run found start waits current,
      fun calm owner run found start waits current => calm owner run start found current waits⟩

theorem calmRunIff {events : List (Event ι)} : CalmRun site world events ↔ ∀ n ∈ List.range events.length,
    ∀ event ∈ events[n]?, Creates (run site world (events.take n)) event → Calm site (run site world (events.take n)) := by
  constructor
  · intro calm n _ event position
    exact calm n event position
  · intro calm n event position
    have inside : n < events.length := (List.getElem?_eq_some_iff.mp position).1
    exact calm n (List.mem_range.mpr inside) event position

end Actions

instance (commits : List PgLsn) (record : Applied) : Decidable (Unbroken commits record) := by
  unfold Unbroken
  infer_instance

section Sample

def succession : Site Bool := ⟨SchemaDrift.sampleJob,SchemaDrift.sampleServer SchemaDrift.dropNote.after,
  fun newer => if newer then 2 else 1⟩

theorem tokensApart : Function.Injective succession.token := by
  intro left right same
  cases left <;> cases right <;> first | rfl | cases same

def leftSlot : World Bool where
  generation := 1
  commits := []
  walEnd := 10
  slot := some ⟨5,⟨some 5,some "reserved",none⟩,none⟩
  target := ⟨fun _ => none,fun _ => none⟩
  runs := fun _ => none
  issued := []
  log := []

theorem leftQuiet : Quiet succession leftSlot where
  runs := fun _ => rfl
  commitsEnd := fun _ mem => absurd mem List.not_mem_nil
  slotEnd := fun held found => by cases Option.some.inj found; exact show 5 ≤ 10 by decide
  storedEnd := fun _ _ found => by cases found
  storedFenced := fun _ _ found => by cases found
  log := rfl

def steps (owner : Bool) (count : Nat) : List (Event Bool) := List.replicate count (.act owner .proceed)

/- The older owner stops before its drop. The newer one makes its snapshot at 10 and activates it; then the older one goes
on, drops the slot of the newer one and creates its own behind the transaction at 20, and the newer one streams from it. -/
def latecomer : List (Event Bool) :=
  .begin' false :: steps false 3 ++ .begin' true :: steps true 9 ++ .commit 20 :: steps false 3 ++ steps true 1 ++
    [.commit 30,.act true (.deliver 30),.act true (.apply 30)]

theorem latecomerSkips : Function.Injective succession.token ∧ Quiet succession leftSlot ∧
    ¬ ∀ record ∈ (run succession leftSlot latecomer).log,
      Unbroken (run succession leftSlot latecomer).commits record :=
  ⟨tokensApart,leftQuiet,by decide +kernel⟩

/- The older owner applies 30 behind 20; the newer one takes the fence, and the next batch of the older one is refused. The
newer one goes on from 30 and applies 50. Its next run finds that the publication has drifted, and a rebuild is requested
besides. The run after that dies before its drop, which is executed under the last one: that one makes a new snapshot at 50,
while the older owner is back and takes no fence, and applies 70 behind 60. -/
def handedOver : List (Event Bool) :=
  List.flatten [[.begin' false],steps false 9,[.commit 20],steps false 1,
    [.commit 30,.act false (.deliver 20),.act false (.deliver 30),.act false (.apply 30),.begin' true],steps true 1,
    [.commit 40,.act false (.deliver 40),.act false .acknowledge,.act false (.apply 40)],steps true 4,
    [.commit 50,.act true (.deliver 40),.act true (.deliver 50),.act true (.apply 50),.act true .crash,.begin' true],
    steps true 3,[.act true .drift,.requestRebuild,.begin' true],steps true 3,
    [.act true .crash,.begin' false,.begin' true],steps true 2,[.execute .drop],steps true 6,[.commit 60],
    steps false 1,steps true 1,[.commit 70,.act true (.deliver 60),.act true (.deliver 70),.act true (.apply 70)]]

theorem handedOverCalm : CalmRun succession leftSlot handedOver := calmRunIff.mpr (by decide +kernel)

theorem handedOverSkipsNothing :
    (run succession leftSlot handedOver).log = [⟨10,30,[20,30]⟩,⟨30,50,[40,50]⟩,⟨50,70,[60,70]⟩] ∧
    (run succession leftSlot handedOver).generation = 3 ∧
    ∀ record ∈ (run succession leftSlot handedOver).log, Unbroken (run succession leftSlot handedOver).commits record :=
  ⟨by decide +kernel,by decide +kernel,nothingSkipped succession tokensApart leftSlot leftQuiet handedOver handedOverCalm⟩

end Sample

end CloudberryEtl.SlotContinuity
