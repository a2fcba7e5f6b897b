import CloudberryEtl.Namespaces

/-! Runtime telemetry of a pipeline, from `engine::telemetry`, and how the supervisor records a finished task in it. An
update runs under the telemetry's lock. One that panics leaves what it has assigned so far, and the next update takes the
poisoned lock as it is. A clock reading is a number and an LSN its value. -/
namespace CloudberryEtl.Telemetry
open Schema Planning Namespaces

inductive PipelineRuntimeState where
  | starting | running | stopped | failed | degraded
  deriving DecidableEq, Repr

inductive PipelinePhase where
  | draft | validating | snapshotting | catchingUp | running | paused | degraded | failed | stopped
  deriving DecidableEq, Repr

structure PipelineRuntimeSnapshot where
  pipelineId : Nat
  phase : PipelinePhase
  state : PipelineRuntimeState
  sourceReceivedLsn : Option Nat
  sourceCurrentLsn : Option Nat
  targetCheckpointLsn : Option Nat
  estimatedByteLag : Option Nat
  slotRetainedWalBytes : Option Nat
  slotSafeWalBytes : Option Nat
  walRetentionWarning : Bool
  lastTransactionAt : Option Nat
  lastApplyAt : Option Nat
  lastAckAt : Option Nat
  startedAt : Option Nat
  stoppedAt : Option Nat
  restartCount : Nat
  lastError : Option String
  deriving DecidableEq, Repr

def PipelineRuntimeSnapshot.new (pipelineId : Nat) : PipelineRuntimeSnapshot :=
  ⟨pipelineId,.draft,.stopped,none,none,none,none,none,none,false,none,none,none,none,none,0,none⟩

inductive Outcome where
  | returned | panicked
  deriving DecidableEq, Repr

abbrev Update := PipelineRuntimeSnapshot → Outcome × PipelineRuntimeSnapshot

section Errors

def maxErrorBytes : Nat := 1024

-- `String::truncate`, which asserts that the new length is a character boundary.
def truncate (value : String) (newLen : Nat) : Option String :=
  if value.utf8ByteSize < newLen then some value
  else if isCharBoundary value.toList newLen then some (String.ofList (charPrefix newLen value.toList))
  else none

def trimError (error : String) : Option String :=
  if maxErrorBytes < error.utf8ByteSize then (truncate error maxErrorBytes).map (fun kept => kept ++ "...")
  else some error

def setError (error : String) : Update := fun snapshot =>
  match trimError error with
  | some text => (.returned,{snapshot with lastError := some text})
  | none => (.panicked,snapshot)

end Errors

section Updates

def PipelineRuntimeSnapshot.byteLag (snapshot : PipelineRuntimeSnapshot) : Option Nat :=
  match snapshot.sourceReceivedLsn,snapshot.targetCheckpointLsn with
  | some received,some applied => some (received - applied)
  | _,_ => none

def withMut (update : Update) : Update := fun snapshot =>
  match update snapshot with
  | (.returned,after) => (.returned,{after with estimatedByteLag := after.byteLag})
  | (.panicked,after) => (.panicked,after)

def assign (change : PipelineRuntimeSnapshot → PipelineRuntimeSnapshot) : Update :=
  withMut (fun snapshot => (.returned,change snapshot))

def markStarted (now : Nat) : Update := assign fun snapshot =>
  {snapshot with
    restartCount := if snapshot.startedAt.isSome then min (snapshot.restartCount + 1) (2 ^ 64 - 1) else snapshot.restartCount
    startedAt := some now
    stoppedAt := none
    state := .starting}

def markRunning : Update := assign fun snapshot => {snapshot with state := .running}

def markStopped (now : Nat) : Update := assign fun snapshot =>
  {snapshot with state := .stopped, phase := .stopped, stoppedAt := some now}

def markFailed (now : Nat) (error : String) : Update := withMut fun snapshot =>
  setError error {snapshot with state := .failed, phase := .failed, stoppedAt := some now}

def markDegraded (error : String) : Update := withMut fun snapshot =>
  setError error {snapshot with state := .degraded, phase := .degraded}

def setPhase (phase : PipelinePhase) : Update := assign fun snapshot => {snapshot with phase := phase}

def advance (previous : Option Nat) (lsn : Nat) : Option Nat :=
  if previous.all (fun previous => previous < lsn) then some lsn else previous

def PipelineRuntimeSnapshot.ended (snapshot : PipelineRuntimeSnapshot) : Bool :=
  snapshot.phase = .degraded || snapshot.phase = .failed

def sourceReceived (lsn : Nat) : Update := assign fun snapshot =>
  {snapshot with
    sourceReceivedLsn := advance snapshot.sourceReceivedLsn lsn
    phase := if snapshot.ended then snapshot.phase
      else match snapshot.targetCheckpointLsn with
        | some applied => if applied < lsn then .catchingUp else .running
        | none => snapshot.phase}

def transactionReceived (lsn commitTime : Nat) : Update := assign fun snapshot =>
  {snapshot with
    sourceCurrentLsn := advance snapshot.sourceCurrentLsn lsn
    sourceReceivedLsn := advance snapshot.sourceReceivedLsn lsn
    lastTransactionAt := some commitTime}

def checkpointInitialized (lsn : Nat) : Update := assign fun snapshot =>
  {snapshot with targetCheckpointLsn := advance snapshot.targetCheckpointLsn lsn}

def applied (now lsn : Nat) : Update := assign fun snapshot =>
  {snapshot with
    targetCheckpointLsn := advance snapshot.targetCheckpointLsn lsn
    lastApplyAt := some now
    phase := if !snapshot.ended && snapshot.sourceReceivedLsn.all (fun received => received ≤ lsn) then .running
      else snapshot.phase}

def acknowledged (now lsn : Nat) : Update := assign fun snapshot =>
  {snapshot with targetCheckpointLsn := advance snapshot.targetCheckpointLsn lsn, lastAckAt := some now}

def walRetentionObserved (retained safe : Option Nat) (warning : Bool) : Update := assign fun snapshot =>
  {snapshot with slotRetainedWalBytes := retained, slotSafeWalBytes := safe, walRetentionWarning := warning}

def error (error : String) : Update := withMut (setError error)

end Updates

section Supervision

inductive SupervisorError where
  | alreadyRunning (pipelineId : Nat)
  | notRunning (pipelineId : Nat)
  | task (error : String)
  | join (error : String)
  | stopTimeout (pipelineId timeout : Nat)
  deriving DecidableEq, Repr

variable (idText durationText : Nat → String)

def SupervisorError.display : SupervisorError → String
  | .alreadyRunning pipelineId => "pipeline " ++ idText pipelineId ++ " is already running"
  | .notRunning pipelineId => "pipeline " ++ idText pipelineId ++ " is not running"
  | .task error => "pipeline task failed: " ++ error
  | .join error => "pipeline task panicked: " ++ error
  | .stopTimeout pipelineId timeout =>
    "pipeline " ++ idText pipelineId ++ " did not stop within " ++ durationText timeout ++ " and was aborted"

abbrev Handles := Nat → Option PipelineRuntimeSnapshot

structure Finished where
  pipelineId : Nat
  result : Except SupervisorError Unit
  now : Nat

def finish (finished : Finished) (intentionalStop : Bool) : Update := fun snapshot =>
  if intentionalStop then markStopped finished.now snapshot
  else match finished.result with
    | .error failure => markFailed finished.now (failure.display idText durationText) snapshot
    | .ok _ =>
      if snapshot.state = .degraded ∨ snapshot.state = .failed then (.returned,snapshot)
      else markStopped finished.now snapshot

def recordFinished (finished : Finished) (intentionalStop : Bool) (handles : Handles) : Outcome × Handles :=
  match handles finished.pipelineId with
  | none => (.returned,handles)
  | some snapshot =>
    let after := finish idText durationText finished intentionalStop snapshot
    (after.1,Function.update handles finished.pipelineId (some after.2))

/- The loop of `reap_finished` over the tasks it has taken out of the map; a panic drops the outcomes collected. -/
def reapFinished : List Finished → Handles → Outcome × List Finished × Handles
  | [],handles => (.returned,[],handles)
  | finished :: rest,handles =>
    match recordFinished idText durationText finished false handles with
    | (.panicked,handles) => (.panicked,[],handles)
    | (.returned,handles) =>
      match reapFinished rest handles with
      | (.panicked,_,handles) => (.panicked,[],handles)
      | (.returned,outcomes,handles) => (.returned,finished :: outcomes,handles)

end Supervision

section Reporting

/- The text that a report of the error leaves: the error itself, or a prefix of whole characters and three dots. -/
def Described (error text : String) : Prop :=
  (error.utf8ByteSize ≤ maxErrorBytes ∧ text = error) ∨
  (maxErrorBytes < error.utf8ByteSize ∧ ∃ kept : String, kept.toList <+: error.toList ∧
    kept.utf8ByteSize ≤ maxErrorBytes ∧ text = kept ++ "...")

def Reported (error : String) (result : Outcome × PipelineRuntimeSnapshot) : Prop :=
  result.1 = .returned ∧ ∃ text, result.2.lastError = some text ∧ Described error text

/- The error fits, or its byte 1024 begins a character. -/
def CutsCleanly (error : String) : Prop :=
  error.utf8ByteSize ≤ maxErrorBytes ∨ isCharBoundary error.toList maxErrorBytes = true

instance (error : String) : Decidable (CutsCleanly error) := by unfold CutsCleanly; infer_instance

theorem trimmedDescribes {error text : String} (trimmed : trimError error = some text) : Described error text := by
  unfold trimError at trimmed
  split at trimmed
  next long =>
    obtain ⟨kept,cut,rfl⟩ := Option.map_eq_some_iff.mp trimmed
    unfold truncate at cut
    rw [if_neg (by omega)] at cut
    split at cut
    next =>
      cases Option.some.inj cut
      obtain ⟨count,taken⟩ := charPrefixTake maxErrorBytes error.toList
      refine .inr ⟨long,_,?_,?_,rfl⟩
      · rw [String.toList_ofList,taken]
        exact List.take_prefix count error.toList
      · rw [String.utf8ByteSize_ofList]
        exact charPrefixBytes maxErrorBytes error.toList
    next => contradiction
  next short => exact .inl ⟨Nat.not_lt.mp short,(Option.some.inj trimmed).symm⟩

theorem trimmedIff (error : String) : (trimError error).isSome ↔ CutsCleanly error := by
  unfold trimError CutsCleanly
  split
  next long =>
    rw [Option.isSome_map,truncate,if_neg (by omega)]
    split
    next boundary => simp [boundary]
    next split => simpa [split] using long
  next short => simp [Nat.not_lt.mp short]

theorem returnsIff (error : String) (before : PipelineRuntimeSnapshot → PipelineRuntimeSnapshot)
    (snapshot : PipelineRuntimeSnapshot) :
    (withMut (fun snapshot => setError error (before snapshot)) snapshot).1 = .returned ↔ CutsCleanly error := by
  rw [← trimmedIff]
  unfold withMut setError
  cases trimError error <;> simp

theorem reportedIff (error : String) (before : PipelineRuntimeSnapshot → PipelineRuntimeSnapshot)
    (snapshot : PipelineRuntimeSnapshot) :
    Reported error (withMut (fun snapshot => setError error (before snapshot)) snapshot) ↔ CutsCleanly error := by
  rw [← returnsIff error before snapshot]
  unfold Reported withMut setError
  cases trimmed : trimError error with
  | none => simp
  | some text => simpa using trimmedDescribes trimmed

end Reporting

section Records
variable (idText durationText : Nat → String)

def Recorded (finished : Finished) (intentionalStop : Bool) (handles : Handles) (result : Outcome × Handles) : Prop :=
  result.1 = .returned ∧ ∀ failure, finished.result = .error failure → intentionalStop = false →
    (handles finished.pipelineId).isSome → ∃ snapshot text, result.2 finished.pipelineId = some snapshot ∧
      snapshot.lastError = some text ∧ Described (failure.display idText durationText) text

def RecordsCleanly (finished : Finished) (intentionalStop : Bool) (handles : Handles) : Prop :=
  ∀ failure, finished.result = .error failure → intentionalStop = false → (handles finished.pipelineId).isSome →
    CutsCleanly (failure.display idText durationText)

theorem finishReturns {finished : Finished} {intentionalStop : Bool} (snapshot : PipelineRuntimeSnapshot)
    (quiet : intentionalStop = true ∨ finished.result = .ok ()) :
    (finish idText durationText finished intentionalStop snapshot).1 = .returned := by
  unfold finish
  split
  next => rfl
  next going =>
    rcases quiet with stop | done
    · exact absurd stop going
    · rw [done]
      simp only
      split <;> rfl

theorem recordReturnsIff (finished : Finished) (intentionalStop : Bool) (handles : Handles) :
    (recordFinished idText durationText finished intentionalStop handles).1 = .returned ↔
    RecordsCleanly idText durationText finished intentionalStop handles := by
  unfold RecordsCleanly recordFinished
  cases handles finished.pipelineId with
  | none => simp
  | some snapshot =>
    cases intentionalStop with
    | true => simpa using finishReturns idText durationText snapshot (.inl rfl)
    | false =>
      cases result : finished.result with
      | ok _ => simpa using finishReturns idText durationText snapshot (.inr result)
      | error failure =>
        have returns := returnsIff (failure.display idText durationText)
          (fun snapshot => {snapshot with state := .failed, phase := .failed, stoppedAt := some finished.now}) snapshot
        simpa [finish,result,markFailed] using returns

theorem recordedIff (finished : Finished) (intentionalStop : Bool) (handles : Handles) :
    Recorded idText durationText finished intentionalStop handles
      (recordFinished idText durationText finished intentionalStop handles) ↔
    RecordsCleanly idText durationText finished intentionalStop handles := by
  constructor
  · intro recorded
    exact (recordReturnsIff idText durationText finished intentionalStop handles).mp recorded.1
  · intro clean
    refine ⟨(recordReturnsIff idText durationText finished intentionalStop handles).mpr clean,?_⟩
    intro failure result going known
    obtain ⟨snapshot,found⟩ := Option.isSome_iff_exists.mp known
    have reported := (reportedIff (failure.display idText durationText)
      (fun snapshot => {snapshot with state := .failed, phase := .failed, stoppedAt := some finished.now}) snapshot).mpr
      (clean failure result going known)
    obtain ⟨_,text,last,described⟩ := reported
    refine ⟨_,text,?_,last,described⟩
    simp [recordFinished,found,finish,going,result,markFailed]

theorem recordKeepsHandles (finished : Finished) (intentionalStop : Bool) (handles : Handles) (pipelineId : Nat) :
    ((recordFinished idText durationText finished intentionalStop handles).2 pipelineId).isSome =
      (handles pipelineId).isSome := by
  unfold recordFinished
  cases found : handles finished.pipelineId with
  | none => rfl
  | some snapshot =>
    by_cases same : pipelineId = finished.pipelineId
    · rw [same,found]
      simp
    · simp [Function.update_of_ne same]

theorem reapsIff (tasks : List Finished) : ∀ handles,
    (reapFinished idText durationText tasks handles).1 = .returned ↔
      ∀ finished ∈ tasks, RecordsCleanly idText durationText finished false handles := by
  induction tasks with
  | nil => simp [reapFinished]
  | cons finished rest ih =>
    intro handles
    have returns := recordReturnsIff idText durationText finished false handles
    have kept := recordKeepsHandles idText durationText finished false handles
    rw [List.forall_mem_cons,← returns]
    unfold reapFinished
    rcases record : recordFinished idText durationText finished false handles with ⟨outcome,after⟩
    rw [record] at kept
    cases outcome with
    | panicked => simp
    | returned =>
      have same (other : Finished) : RecordsCleanly idText durationText other false after ↔
          RecordsCleanly idText durationText other false handles := by
        unfold RecordsCleanly
        rw [kept]
      have tail := ih after
      simp only [same] at tail
      rw [← tail]
      rcases run : reapFinished idText durationText rest after with ⟨last,outcomes,final⟩
      cases last <;> simp [run]

end Records

/-- Every report of an error returns and leaves the error or its prefix exactly when the error fits into 1024 bytes or its
byte 1024 begins a character. A record of a finished task does so exactly when it reports no such error, and a tick
that records several tasks returns exactly when each of them does. -/
theorem errorReportsExactly (idText durationText : Nat → String) :
    (∀ now failure snapshot, Reported failure (markFailed now failure snapshot) ↔ CutsCleanly failure) ∧
    (∀ failure snapshot, Reported failure (markDegraded failure snapshot) ↔ CutsCleanly failure) ∧
    (∀ failure snapshot, Reported failure (error failure snapshot) ↔ CutsCleanly failure) ∧
    (∀ finished intentionalStop handles,
      Recorded idText durationText finished intentionalStop handles
        (recordFinished idText durationText finished intentionalStop handles) ↔
      RecordsCleanly idText durationText finished intentionalStop handles) ∧
    ∀ tasks handles, (reapFinished idText durationText tasks handles).1 = .returned ↔
      ∀ finished ∈ tasks, RecordsCleanly idText durationText finished false handles :=
  ⟨fun _ failure snapshot => reportedIff failure _ snapshot,fun failure snapshot => reportedIff failure _ snapshot,
    fun failure snapshot => reportedIff failure id snapshot,recordedIff idText durationText,reapsIff idText durationText⟩

theorem splitUncut {letters : List Char} (ascii : ∀ c ∈ letters, c.utf8Size = 1) (count : letters.length = 1023) :
    ¬ CutsCleanly (String.ofList (letters ++ ['é'])) := by
  have short (taken : Nat) : String.utf8Len (letters.take taken) ≤ 1023 := by
    rw [asciiBytes (fun c mem => ascii c (List.mem_of_mem_take mem)),List.length_take]
    omega
  intro clean
  rcases clean with fits | boundary
  · rw [String.utf8ByteSize_ofList,String.utf8Len_append,asciiBytes ascii,count] at fits
    exact absurd fits (by decide)
  · obtain ⟨taken,size⟩ := boundaryIff.mp boundary
    rw [String.toList_ofList] at size
    rcases Nat.lt_or_ge 1023 taken with beyond | within
    · rw [List.take_of_length_le (by rw [List.length_append,List.length_singleton]; omega),String.utf8Len_append,
        asciiBytes ascii,count] at size
      exact absurd size (by decide)
    · rw [List.take_append_of_le_length (by omega)] at size
      exact absurd (size ▸ short taken) (by decide)

def splitError : String := String.ofList (List.replicate 1023 'a' ++ ['é'])

def splitTaskError : SupervisorError := .task (String.ofList (List.replicate 1001 'a' ++ ['é']))

theorem replicatedAscii (count : Nat) : ∀ c ∈ List.replicate count 'a', c.utf8Size = 1 := by
  intro c mem
  rw [List.eq_of_mem_replicate mem]
  rfl

theorem markFailedReturns (now : Nat) (failure : String) (snapshot : PipelineRuntimeSnapshot) :
    (markFailed now failure snapshot).1 = .returned ↔ CutsCleanly failure := returnsIff failure _ snapshot

theorem taskDisplay (idText durationText : Nat → String) (error : List Char) :
    (SupervisorError.task (String.ofList error)).display idText durationText =
      String.ofList ("pipeline task failed: ".toList ++ error) := by
  rw [String.ofList_append,String.ofList_toList]
  rfl

theorem taskWords : ∀ c ∈ "pipeline task failed: ".toList, c.utf8Size = 1 := by
  have words : "pipeline task failed: ".toList.all (fun c => c.utf8Size == 1) = true := by decide +kernel
  simpa using List.all_eq_true.mp words

theorem splitTaskUncut (idText durationText : Nat → String) :
    ¬ CutsCleanly (splitTaskError.display idText durationText) := by
  rw [splitTaskError,taskDisplay,← List.append_assoc]
  refine splitUncut ?_ ?_
  · intro c mem
    exact (List.mem_append.mp mem).elim (taskWords c) (replicatedAscii 1001 c)
  · rw [List.length_append,List.length_replicate]
    rfl

theorem splitErrorPanics : ¬ (∀ now failure snapshot, Reported failure (markFailed now failure snapshot)) ∧
    (markFailed 7 splitError (.new 1)).1 = .panicked ∧
    (reapFinished toString toString [⟨1,.error splitTaskError,7⟩] (fun _ => some (.new 1))).1 = .panicked := by
  have uncut : ¬ CutsCleanly splitError := splitUncut (replicatedAscii 1023) List.length_replicate
  have panics {outcome : Outcome} (returns : ¬ outcome = .returned) : outcome = .panicked := by
    cases outcome with
    | returned => exact absurd rfl returns
    | panicked => rfl
  refine ⟨?_,panics ?_,panics ?_⟩
  · intro reports
    exact uncut ((markFailedReturns 7 splitError (.new 1)).mp (reports 7 splitError (.new 1)).1)
  · intro returns
    exact uncut ((markFailedReturns 7 splitError (.new 1)).mp returns)
  · intro returns
    exact splitTaskUncut toString toString ((reapsIff toString toString _ _).mp returns ⟨1,.error splitTaskError,7⟩
      (List.mem_singleton_self _) splitTaskError rfl rfl rfl)

section Runs

inductive Call where
  | started (now : Nat)
  | running
  | stopped (now : Nat)
  | failed (now : Nat) (error : String)
  | degraded (error : String)
  | phase (phase : PipelinePhase)
  | received (lsn : Nat)
  | transaction (lsn commitTime : Nat)
  | initialized (lsn : Nat)
  | applied (now lsn : Nat)
  | acknowledged (now lsn : Nat)
  | retention (retained safe : Option Nat) (warning : Bool)
  | error (error : String)

def Call.perform : Call → Update
  | .started now => markStarted now
  | .running => markRunning
  | .stopped now => markStopped now
  | .failed now failure => markFailed now failure
  | .degraded failure => markDegraded failure
  | .phase next => setPhase next
  | .received lsn => sourceReceived lsn
  | .transaction lsn commitTime => transactionReceived lsn commitTime
  | .initialized lsn => checkpointInitialized lsn
  | .applied now lsn => Telemetry.applied now lsn
  | .acknowledged now lsn => Telemetry.acknowledged now lsn
  | .retention retained safe warning => walRetentionObserved retained safe warning
  | .error failure => Telemetry.error failure

def performAll (calls : List Call) (snapshot : PipelineRuntimeSnapshot) : PipelineRuntimeSnapshot :=
  calls.foldl (fun snapshot call => (call.perform snapshot).2) snapshot

def Advances (before after : Option Nat) : Prop := ∀ lsn, before = some lsn → ∃ later, after = some later ∧ lsn ≤ later

theorem advancesRefl (position : Option Nat) : Advances position position := fun lsn found => ⟨lsn,found,le_rfl⟩

theorem advancesAdvance (position : Option Nat) (lsn : Nat) : Advances position (advance position lsn) := by
  intro before found
  subst found
  unfold advance
  split
  next later => exact ⟨lsn,rfl,by simp at later; omega⟩
  next => exact ⟨before,rfl,le_rfl⟩

structure Kept (before after : PipelineRuntimeSnapshot) : Prop where
  received : Advances before.sourceReceivedLsn after.sourceReceivedLsn
  current : Advances before.sourceCurrentLsn after.sourceCurrentLsn
  checkpoint : Advances before.targetCheckpointLsn after.targetCheckpointLsn
  lag : before.estimatedByteLag = before.byteLag → after.estimatedByteLag = after.byteLag

theorem assignKept {change : PipelineRuntimeSnapshot → PipelineRuntimeSnapshot} {snapshot : PipelineRuntimeSnapshot}
    (received : Advances snapshot.sourceReceivedLsn (change snapshot).sourceReceivedLsn)
    (current : Advances snapshot.sourceCurrentLsn (change snapshot).sourceCurrentLsn)
    (checkpoint : Advances snapshot.targetCheckpointLsn (change snapshot).targetCheckpointLsn) :
    Kept snapshot (assign change snapshot).2 := ⟨received,current,checkpoint,fun _ => rfl⟩

theorem reportKept (failure : String) {before : PipelineRuntimeSnapshot → PipelineRuntimeSnapshot}
    {snapshot : PipelineRuntimeSnapshot} (received : (before snapshot).sourceReceivedLsn = snapshot.sourceReceivedLsn)
    (current : (before snapshot).sourceCurrentLsn = snapshot.sourceCurrentLsn)
    (checkpoint : (before snapshot).targetCheckpointLsn = snapshot.targetCheckpointLsn)
    (lag : (before snapshot).estimatedByteLag = snapshot.estimatedByteLag) :
    Kept snapshot (withMut (fun snapshot => setError failure (before snapshot)) snapshot).2 := by
  unfold withMut setError
  cases trimError failure with
  | none =>
    refine ⟨received ▸ advancesRefl _,current ▸ advancesRefl _,checkpoint ▸ advancesRefl _,?_⟩
    intro exact'
    simpa [PipelineRuntimeSnapshot.byteLag,received,checkpoint,lag] using exact'
  | some text => exact ⟨received ▸ advancesRefl _,current ▸ advancesRefl _,checkpoint ▸ advancesRefl _,fun _ => rfl⟩

theorem performKept (call : Call) (snapshot : PipelineRuntimeSnapshot) : Kept snapshot (call.perform snapshot).2 := by
  have still := advancesRefl
  have moved := advancesAdvance
  cases call with
  | started now => exact assignKept (by apply still) (by apply still) (by apply still)
  | running => exact assignKept (by apply still) (by apply still) (by apply still)
  | stopped now => exact assignKept (by apply still) (by apply still) (by apply still)
  | failed now failure => exact reportKept failure (by rfl) (by rfl) (by rfl) (by rfl)
  | degraded failure => exact reportKept failure (by rfl) (by rfl) (by rfl) (by rfl)
  | phase next => exact assignKept (by apply still) (by apply still) (by apply still)
  | received lsn => exact assignKept (by apply moved) (by apply still) (by apply still)
  | transaction lsn commitTime => exact assignKept (by apply moved) (by apply moved) (by apply still)
  | initialized lsn => exact assignKept (by apply still) (by apply still) (by apply moved)
  | applied now lsn => exact assignKept (by apply still) (by apply still) (by apply moved)
  | acknowledged now lsn => exact assignKept (by apply still) (by apply still) (by apply moved)
  | retention retained safe warning => exact assignKept (by apply still) (by apply still) (by apply still)
  | error failure =>
    have kept : Kept snapshot (withMut (fun snapshot => setError failure (id snapshot)) snapshot).2 :=
      reportKept failure rfl rfl rfl rfl
    exact kept

theorem advancesTrans {a b c : Option Nat} (first : Advances a b) (second : Advances b c) : Advances a c := by
  intro lsn found
  obtain ⟨middle,here,below⟩ := first lsn found
  obtain ⟨later,there,above⟩ := second middle here
  exact ⟨later,there,le_trans below above⟩

/-- In every run of reporter calls the positions only advance and the estimated lag is the distance between them, also
past a report that panicked. -/
theorem runKept (calls : List Call) : ∀ snapshot, Kept snapshot (performAll calls snapshot) := by
  induction calls with
  | nil => exact fun snapshot => ⟨advancesRefl _,advancesRefl _,advancesRefl _,id⟩
  | cons call calls ih =>
    intro snapshot
    have first := performKept call snapshot
    have rest := ih (call.perform snapshot).2
    exact ⟨advancesTrans first.received rest.received,advancesTrans first.current rest.current,
      advancesTrans first.checkpoint rest.checkpoint,fun lag => rest.lag (first.lag lag)⟩

end Runs

end CloudberryEtl.Telemetry
