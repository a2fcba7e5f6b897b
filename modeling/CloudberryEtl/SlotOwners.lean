import CloudberryEtl.Standalone

/-! Owners of one pipeline on its replication slot, from `engine::runtime::job`. A run takes its steps on the source and on
the target one at a time, and the runs of several owners interleave. The target checks the fence of what it writes; the
source drops and creates the slot for whoever asks, and all owners call it by one name. -/
namespace CloudberryEtl.SlotOwners
open Change Result Settings Fencing Standalone
open Checkpoint

/-- What the server reports of the WAL that it keeps for a slot. -/
structure Retention where
  restartLsn : Option PgLsn
  walStatus : Option String
  invalidationReason : Option String
  deriving DecidableEq, Repr

structure HeldSlot (ι : Type) where
  confirmed : PgLsn
  retention : Retention
  holder : Option ι
  deriving DecidableEq, Repr

structure Stream where
  start : PgLsn
  position : PgLsn
  delivered : List PgLsn
  durable : PgLsn
  deriving DecidableEq, Repr

inductive Phase where
  | fencing | loading
  | resuming (checkpoint : NodeCheckpoint)
  | validating (start : PgLsn)
  | inspecting | dropping | publishing | creating
  | registering (start : PgLsn)
  | copying (start : PgLsn)
  | activating (start : PgLsn)
  | releasing
  | starting (start : PgLsn)
  | streaming (stream : Stream)
  deriving DecidableEq, Repr

structure Run where
  generation : Nat
  phase : Phase
  deriving DecidableEq, Repr

inductive SlotCommand where
  | create | drop
  deriving DecidableEq, Repr

structure Applied where
  start : PgLsn
  lsn : PgLsn
  delivered : List PgLsn
  deriving DecidableEq, Repr

/- `commits` are the end positions of the source transactions, `issued` the slot commands of runs that are gone. -/
structure World (ι : Type) where
  generation : Nat
  commits : List PgLsn
  walEnd : PgLsn
  slot : Option (HeldSlot ι)
  target : CheckpointTables
  runs : ι → Option Run
  issued : List SlotCommand
  log : List Applied

structure Site (ι : Type) where
  job : StandaloneJob
  server : SourceServer
  token : ι → Int

section Site
variable {ι : Type} (site : Site ι)

def Site.fence (owner : ι) (generation : Nat) : PipelineFence :=
  ⟨site.job.settings.pipelineId,generation,site.token owner⟩

def Site.key (generation : Nat) : CheckpointKey := ⟨site.job.settings.pipelineId,generation,standaloneNodeId⟩

def Site.checkpoint (generation : Nat) (lsn : PgLsn) : NodeCheckpoint :=
  ⟨site.key generation,site.server.systemIdentifier,site.server.timeline,site.job.names.slot,lsn⟩

def Site.slotState (slot : HeldSlot ι) : LogicalSlotState :=
  ⟨site.job.names.slot,"pgoutput",some site.job.settings.sourceDatabase,false,slot.holder.isSome,some slot.confirmed,
    slot.retention.restartLsn,slot.retention.walStatus,slot.retention.invalidationReason,false,false,false⟩

def Site.observed (slot : Option (HeldSlot ι)) : SourceServer :=
  {site.server with slots := (slot.map site.slotState).toList}

end Site

section World
variable {ι : Type} [DecidableEq ι]

def World.put (world : World ι) (owner : ι) (run : Option Run) : World ι :=
  {world with runs := Function.update world.runs owner run}

@[simp] theorem World.putSelf (world : World ι) (owner : ι) (run : Option Run) : (world.put owner run).runs owner = run :=
  Function.update_self ..

theorem World.putOther (world : World ι) {owner other : ι} (apart : other ≠ owner) (run : Option Run) :
    (world.put owner run).runs other = world.runs other := Function.update_of_ne apart ..

def World.stop (world : World ι) (owner : ι) : World ι :=
  {world with
    slot := world.slot.map (fun slot => if slot.holder = some owner then {slot with holder := none} else slot)
    runs := Function.update world.runs owner none}

def World.rebuild (world : World ι) (owner : ι) : World ι :=
  {world.stop owner with generation := world.generation + 1}

def World.dropSlot (world : World ι) : Option (World ι) :=
  match world.slot with
  | some ⟨_,_,none⟩ => some {world with slot := none}
  | _ => none

/- `CREATE_REPLICATION_SLOT` refuses a name that is taken. A new slot starts at the end of the WAL. -/
def World.createSlot (world : World ι) : Option (World ι) :=
  match world.slot with
  | none => some {world with slot := some ⟨world.walEnd,⟨some world.walEnd,some "reserved",none⟩,none⟩}
  | some _ => none

variable (site : Site ι)

def resume (world : World ι) (owner : ι) (run : Run) (checkpoint : NodeCheckpoint) : World ι :=
  match validateResumeSlot site.job (site.observed world.slot) checkpoint with
  | .ok () => world.put owner (some {run with phase := .validating checkpoint.appliedLsn})
  | .error error => if error.rebuilds then world.rebuild owner else world.stop owner

def proceed (world : World ι) (owner : ι) (run : Run) : World ι :=
  let go := fun (world : World ι) (phase : Phase) => world.put owner (some {run with phase := phase})
  let fence := site.fence owner run.generation
  match run.phase with
  | .fencing =>
    match activatePipelineFence world.target fence with
    | .ok target => go {world with target := target} .loading
    | .error _ => world.stop owner
  | .loading =>
    match loadNodeCheckpoint world.target (site.key run.generation) with
    | .ok (some stored) => go world (.resuming stored.checkpoint)
    | .ok none => go world .inspecting
    | .error _ => world.stop owner
  | .resuming checkpoint => resume site world owner run checkpoint
  | .validating start =>
    match lockPipelineFence world.target fence with
    | .ok () => go world (.starting start)
    | .error _ => world.stop owner
  | .inspecting =>
    match world.slot with
    | none => go world .publishing
    | some slot =>
      match validateSlotMode site.job (site.slotState slot) with
      | .ok () => go world .dropping
      | .error _ => world.stop owner
  | .dropping =>
    match world.dropSlot with
    | some world => go world .publishing
    | none => world.stop owner
  | .publishing => go world .creating
  | .creating =>
    match world.createSlot with
    | some created => go created (.registering world.walEnd)
    | none => go world .releasing
  | .registering start =>
    match lockPipelineFence world.target fence with
    | .ok () => go world (.copying start)
    | .error _ => go world .releasing
  | .copying start => go world (.activating start)
  | .activating start =>
    match advanceNodeCheckpoint world.target fence (site.checkpoint run.generation start) with
    | .ok (_,target) => go {world with target := target} (.starting start)
    | .error _ => world.stop owner
  | .releasing => (world.dropSlot.getD world).stop owner
  | .starting start =>
    match world.slot with
    | some ⟨confirmed,retention,none⟩ =>
      if retention.walStatus = some "lost" ∨ retention.invalidationReason.isSome then world.stop owner
      -- the server starts at its own position when that is the later one
      else go {world with slot := some ⟨confirmed,retention,some owner⟩} (.streaming ⟨start,max start confirmed,[],start⟩)
    | _ => world.stop owner
  | .streaming _ => world

/- A step that fails for a reason of its own. The slot is released from its creation to the attempt to activate. -/
def fail (world : World ι) (owner : ι) (run : Run) : World ι :=
  match run.phase with
  | .creating | .registering _ | .copying _ => world.put owner (some {run with phase := .releasing})
  | _ => world.stop owner

def Phase.sent : Phase → List SlotCommand
  | .dropping | .releasing => [.drop]
  | .creating => [.create]
  | _ => []

def deliver (world : World ι) (owner : ι) (run : Run) (lsn : PgLsn) : World ι :=
  match run.phase with
  | .streaming stream =>
    if lsn ∈ world.commits ∧ stream.position < lsn ∧ ∀ other ∈ world.commits, stream.position < other → lsn ≤ other then
      world.put owner (some {run with
        phase := .streaming {stream with position := lsn, delivered := stream.delivered ++ [lsn]}})
    else world
  | _ => world

def apply (world : World ι) (owner : ι) (run : Run) (lsn : PgLsn) : World ι :=
  match run.phase with
  | .streaming stream =>
    if lsn ∈ stream.delivered then
      match advanceNodeCheckpoint world.target (site.fence owner run.generation) (site.checkpoint run.generation lsn) with
      | .ok (_,target) =>
        let applied : World ι := {world with target := target, log := world.log ++ [⟨stream.start,lsn,stream.delivered⟩]}
        applied.put owner (some {run with phase := .streaming {stream with durable := lsn}})
      | .error _ => world.stop owner
    else world
  | _ => world

-- A status update carries the durable position; the server only moves forwards.
def acknowledge (world : World ι) (owner : ι) (run : Run) : World ι :=
  match run.phase,world.slot with
  | .streaming stream,some slot =>
    if slot.holder = some owner then {world with slot := some {slot with confirmed := max slot.confirmed stream.durable}}
    else world
  | _,_ => world

/- `drift` is a publication that is no longer the planned one, `barrier` a schema change or the retention monitor. -/
inductive Action where
  | proceed | fail | crash
  | deliver (lsn : PgLsn)
  | apply (lsn : PgLsn)
  | acknowledge | drift | barrier
  deriving DecidableEq, Repr

/- `commit`, `writeWal` and `retain` are the source's own, `execute` runs a command that was sent before its run died, and
`requestRebuild` comes from the API. -/
inductive Event (ι : Type) where
  | commit (lsn : PgLsn)
  | writeWal (lsn : PgLsn)
  | retain (retention : Retention)
  | execute (command : SlotCommand)
  | requestRebuild
  | begin' (owner : ι)
  | act (owner : ι) (action : Action)
  deriving DecidableEq, Repr

def execute (world : World ι) : SlotCommand → World ι
  | .create => world.createSlot.getD world
  | .drop => world.dropSlot.getD world

def act (world : World ι) (owner : ι) (run : Run) : Action → World ι
  | .proceed => proceed site world owner run
  | .fail => fail world owner run
  | .crash => {world.stop owner with issued := world.issued ++ run.phase.sent}
  | .deliver lsn => deliver world owner run lsn
  | .apply lsn => apply site world owner run lsn
  | .acknowledge => acknowledge world owner run
  | .drift =>
    match run.phase with
    | .validating _ => world.rebuild owner
    | _ => world
  | .barrier =>
    match run.phase with
    | .streaming _ => world.rebuild owner
    | _ => world

def step (world : World ι) : Event ι → World ι
  | .commit lsn => if world.walEnd < lsn then {world with commits := world.commits ++ [lsn], walEnd := lsn} else world
  | .writeWal lsn => {world with walEnd := max world.walEnd lsn}
  | .retain retention => {world with slot := world.slot.map (fun slot => {slot with retention := retention})}
  | .execute command =>
    if command ∈ world.issued then execute {world with issued := world.issued.erase command} command else world
  | .requestRebuild => {world with generation := world.generation + 1}
  | .begin' owner =>
    match world.runs owner with
    | none => world.put owner (some ⟨world.generation,.fencing⟩)
    | some _ => world
  | .act owner action =>
    match world.runs owner with
    | none => world
    | some run => act site world owner run action

def run (world : World ι) (events : List (Event ι)) : World ι := events.foldl (step site) world

end World

end CloudberryEtl.SlotOwners
