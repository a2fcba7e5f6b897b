import CloudberryEtl.Result
import Mathlib.Data.List.Infix
import Mathlib.Logic.Function.Basic

/-! Scripts that are executed once each and recorded by version and checksum, by any number of sessions on one database.
Every script is one transaction, which the sessions take one after the other. -/
namespace CloudberryEtl.VersionedScripts

structure Scheme (Script Version Checksum Row Data : Type) where
  version : Script → Version
  checksum : Script → Checksum
  row : Script → Row
  rowVersion : Row → Version
  rowChecksum : Row → Checksum
  execute : Script → Data → Option Data
  versionKept : ∀ script, rowVersion (row script) = version script
  checksumKept : ∀ script, rowChecksum (row script) = checksum script

-- The history is missing until the first transaction commits.
structure Store (Row Data : Type) where
  history : Option (List Row)
  data : Data

inductive Failure (Version : Type) where
  | database
  | checksumMismatch (version : Version)
  deriving DecidableEq, Repr

inductive Session (Script Version : Type) where
  | running (done rest : List Script)
  | stopped (done : List Script) (script : Script) (rest : List Script) (failure : Failure Version)

variable {Script Version Checksum Row Data : Type}

def Store.rows (store : Store Row Data) : List Row := store.history.getD []

structure System (Script Version Row Data : Type) where
  store : Store Row Data
  sessions : Nat → Option (Session Script Version)
  executed : List Script

inductive Event (Script Data : Type) where
  | start (session : Nat) (scripts : List Script)
  | turn (session : Nat)
  | kill (session : Nat)
  | other (change : Data → Data)

section Steps
variable [DecidableEq Version] [DecidableEq Checksum] (scheme : Scheme Script Version Checksum Row Data)

def listed (rows : List Row) (script : Script) : Option Row :=
  rows.find? (fun row => scheme.rowVersion row = scheme.version script)

def apply (store : Store Row Data) (script : Script) : Except (Failure Version) (Store Row Data) :=
  match listed scheme store.rows script with
  | some row =>
    if scheme.rowChecksum row ≠ scheme.checksum script then .error (.checksumMismatch (scheme.version script))
    else .ok ⟨some store.rows,store.data⟩
  | none =>
    match scheme.execute script store.data with
    | none => .error .database
    | some data => .ok ⟨some (store.rows ++ [scheme.row script]),data⟩

def applied (store : Store Row Data) (script : Script) : List Script :=
  if (listed scheme store.rows script).isSome then [] else [script]

def turn (system : System Script Version Row Data) (id : Nat) (done : List Script) (script : Script)
    (rest : List Script) : System Script Version Row Data :=
  match apply scheme system.store script with
  | .ok store => ⟨store,Function.update system.sessions id (some (.running (done ++ [script]) rest)),
      system.executed ++ applied scheme system.store script⟩
  | .error failure => {system with
      sessions := Function.update system.sessions id (some (.stopped done script rest failure))}

def step (system : System Script Version Row Data) : Event Script Data → System Script Version Row Data
  | .start id scripts => {system with sessions := Function.update system.sessions id (some (.running [] scripts))}
  | .turn id =>
    match system.sessions id with
    | some (.running done (script :: rest)) => turn scheme system id done script rest
    | _ => system
  | .kill id => {system with sessions := Function.update system.sessions id none}
  | .other change => {system with store := {system.store with data := change system.store.data}}

def run (system : System Script Version Row Data) (events : List (Event Script Data)) : System Script Version Row Data :=
  events.foldl (step scheme) system

def applyAll : List Script → Store Row Data → Store Row Data × Except (Failure Version) Unit
  | [],store => (store,.ok ())
  | script :: rest,store =>
    match apply scheme store script with
    | .ok store => applyAll rest store
    | .error failure => (store,.error failure)

end Steps

def initial (Script Version Row : Type) (data : Data) : System Script Version Row Data := ⟨⟨none,data⟩,fun _ => none,[]⟩

section Facts
variable {scheme : Scheme Script Version Checksum Row Data}

inductive Applies (scheme : Scheme Script Version Checksum Row Data) (store : Store Row Data) (script : Script)
    (store' : Store Row Data) (ran : List Script) : Prop where
  | recorded (row : Row) (mem : row ∈ store.rows) (version : scheme.rowVersion row = scheme.version script)
      (checksum : scheme.rowChecksum row = scheme.checksum script) (same : store' = ⟨some store.rows,store.data⟩)
      (nothing : ran = [])
  | executed (fresh : ∀ row ∈ store.rows, scheme.rowVersion row ≠ scheme.version script)
      (effect : scheme.execute script store.data = some store'.data)
      (added : store'.history = some (store.rows ++ [scheme.row script])) (once : ran = [script])

/- Everything else in the database: the scripts that were executed, each once and in this order, with other changes in
between. -/
inductive Built (scheme : Scheme Script Version Checksum Row Data) (start : Data) : List Script → Data → Prop where
  | start : Built scheme start [] start
  | script {executed data data'} (script : Script) (before : Built scheme start executed data)
      (effect : scheme.execute script data = some data') : Built scheme start (executed ++ [script]) data'
  | other {executed data} (change : Data → Data) (before : Built scheme start executed data) :
      Built scheme start executed (change data)

def Recorded (scheme : Scheme Script Version Checksum Row Data) (store : Store Row Data) (script : Script) : Prop :=
  ∃ row ∈ store.rows, scheme.rowVersion row = scheme.version script ∧ scheme.rowChecksum row = scheme.checksum script

def Taken (scheme : Scheme Script Version Checksum Row Data) (store : Store Row Data) (script : Script) : Prop :=
  ∃ row ∈ store.rows, scheme.rowVersion row = scheme.version script ∧ scheme.rowChecksum row ≠ scheme.checksum script

def SessionSound (scheme : Scheme Script Version Checksum Row Data) (store : Store Row Data) :
    Session Script Version → Prop
  | .running done _ => ∀ script ∈ done, Recorded scheme store script
  | .stopped done script _ failure => (∀ script ∈ done, Recorded scheme store script) ∧
      ∀ version, failure = .checksumMismatch version → version = scheme.version script ∧ Taken scheme store script

structure Sound (scheme : Scheme Script Version Checksum Row Data) (start : Data)
    (system : System Script Version Row Data) : Prop where
  rows : system.store.rows = system.executed.map scheme.row
  once : (system.executed.map scheme.version).Nodup
  built : Built scheme start system.executed system.store.data
  sessions : ∀ id session, system.sessions id = some session → SessionSound scheme system.store session

theorem SessionSound.grows {store store' : Store Row Data} {session : Session Script Version}
    (sound : SessionSound scheme store session) (grows : store.rows ⊆ store'.rows) :
    SessionSound scheme store' session := by
  have recorded : ∀ script, Recorded scheme store script → Recorded scheme store' script :=
    fun _ ⟨row,mem,same⟩ => ⟨row,grows mem,same⟩
  cases session with
  | running done rest => exact fun script mem => recorded script (sound script mem)
  | stopped done script rest failure =>
    refine ⟨fun script mem => recorded script (sound.1 script mem),fun version met => ?_⟩
    obtain ⟨same,row,mem,taken⟩ := sound.2 version met
    exact ⟨same,row,grows mem,taken⟩

theorem Applies.grows {store store' : Store Row Data} {script : Script} {ran}
    (applies : Applies scheme store script store' ran) : store.rows ⊆ store'.rows := by
  cases applies with
  | recorded row mem version checksum same nothing =>
    rw [same]
    exact List.Subset.refl _
  | executed fresh effect added once =>
    intro row mem
    rw [Store.rows,added]
    exact List.mem_append_left _ mem

theorem Applies.recorded' {store store' : Store Row Data} {script : Script} {ran}
    (applies : Applies scheme store script store' ran) : Recorded scheme store' script := by
  cases applies with
  | recorded row mem version checksum same nothing =>
    rw [same]
    exact ⟨row,mem,version,checksum⟩
  | executed fresh effect added once =>
    refine ⟨scheme.row script,?_,scheme.versionKept script,scheme.checksumKept script⟩
    rw [Store.rows,added]
    exact List.mem_append_right _ (List.mem_singleton_self _)

theorem updatedSessions {sessions : Nat → Option (Session Script Version)} {id : Nat}
    {next : Option (Session Script Version)} {holds : Session Script Version → Prop}
    (here : ∀ session, next = some session → holds session)
    (others : ∀ other session, sessions other = some session → holds session) :
    ∀ other session, Function.update sessions id next other = some session → holds session := by
  intro other session at'
  by_cases same : other = id
  · rw [same,Function.update_self] at at'
    exact here session at'
  · rw [Function.update_of_ne same] at at'
    exact others other session at'

theorem initialSound (data : Data) : Sound scheme data (initial Script Version Row data) :=
  ⟨rfl,List.nodup_nil,.start,fun _ _ here => by contradiction⟩

/- The lists that the sessions start are all beginnings of one list, as those of successive releases are. -/
def Beginnings (all : List Script) (events : List (Event Script Data)) : Prop :=
  ∀ id scripts, .start id scripts ∈ events → scripts <+: all

def SessionReleased (all executed : List Script) : Session Script Version → Prop
  | .running done rest => done ++ rest <+: all ∧ done <+: executed
  | .stopped done _ _ failure => done <+: executed ∧ failure = .database

structure Released (all : List Script) (system : System Script Version Row Data) : Prop where
  executed : system.executed <+: all
  sessions : ∀ id session, system.sessions id = some session → SessionReleased all system.executed session

theorem SessionReleased.grows {all executed executed' : List Script} {session : Session Script Version}
    (released : SessionReleased all executed session) (grows : executed <+: executed') :
    SessionReleased all executed' session := by
  cases session with
  | running done rest => exact ⟨released.1,released.2.trans grows⟩
  | stopped done script rest failure => exact ⟨released.1.trans grows,released.2⟩

theorem nextOrExecuted {all executed done rest : List Script} {script : Script} (before : executed <+: all)
    (listed : done ++ script :: rest <+: all) (past : done <+: executed) :
    executed = done ∨ done ++ [script] <+: executed := by
  have here : done ++ [script] <+: all := by
    refine List.IsPrefix.trans ?_ listed
    exact List.prefix_append_right_inj _ |>.mpr (by simp)
  by_cases longer : done.length < executed.length
  · exact .inr (List.prefix_of_prefix_length_le here before (by simpa using longer))
  · exact .inl (past.eq_of_length_le (by omega)).symm

theorem initialReleased (all : List Script) (data : Data) :
    Released all (initial Script Version Row data) :=
  ⟨List.nil_prefix,fun _ _ here => by contradiction⟩

section Applies
variable {all : List Script} {start : Data} {system : System Script Version Row Data} {id : Nat} {done rest : List Script}
  {script : Script}

theorem Sound.applies (sound : Sound scheme start system) (here : system.sessions id = some (.running done (script :: rest)))
    {store' : Store Row Data} {ran : List Script} (applies : Applies scheme system.store script store' ran) :
    Sound scheme start ⟨store',Function.update system.sessions id (some (.running (done ++ [script]) rest)),
      system.executed ++ ran⟩ := by
  have sessions : ∀ other session,
      Function.update system.sessions id (some (.running (done ++ [script]) rest)) other = some session →
        SessionSound scheme store' session := by
    refine updatedSessions (fun session same => ?_) fun other session there =>
      (sound.sessions other session there).grows applies.grows
    cases Option.some.inj same
    intro other mem
    rcases List.mem_append.mp mem with earlier | now
    · exact (sound.sessions id _ here).grows applies.grows other earlier
    · rw [List.mem_singleton.mp now]
      exact applies.recorded'
  cases applies with
  | recorded row mem version checksum same nothing =>
    subst same nothing
    exact ⟨by rw [List.append_nil]; exact sound.rows,by rw [List.append_nil]; exact sound.once,
      by rw [List.append_nil]; exact sound.built,sessions⟩
  | executed fresh effect added once =>
    subst once
    refine ⟨?_,?_,sound.built.script script effect,sessions⟩
    · rw [Store.rows,added,Option.getD_some,sound.rows,List.map_append,List.map_singleton]
    · rw [List.map_append,List.nodup_append]
      refine ⟨sound.once,List.nodup_singleton _,?_⟩
      intro version before other last
      rw [List.map_singleton,List.mem_singleton] at last
      obtain ⟨ran,mem,rfl⟩ := List.mem_map.mp before
      rw [last,← scheme.versionKept ran]
      exact fresh _ (sound.rows ▸ List.mem_map_of_mem mem)

theorem rowScript (distinct : (all.map scheme.version).Nodup) (sound : Sound scheme start system)
    (released : Released all system) (listed : script ∈ all) {row : Row} (mem : row ∈ system.store.rows)
    (version : scheme.rowVersion row = scheme.version script) : script ∈ system.executed ∧ row = scheme.row script := by
  rw [sound.rows] at mem
  obtain ⟨ran,member,rfl⟩ := List.mem_map.mp mem
  rw [scheme.versionKept] at version
  obtain rfl : ran = script := List.inj_on_of_nodup_map distinct (released.executed.subset member) listed version
  exact ⟨member,rfl⟩

theorem Released.applies (distinct : (all.map scheme.version).Nodup) (sound : Sound scheme start system)
    (released : Released all system) (here : system.sessions id = some (.running done (script :: rest)))
    {store' : Store Row Data} {ran : List Script} (applies : Applies scheme system.store script store' ran) :
    Released all ⟨store',Function.update system.sessions id (some (.running (done ++ [script]) rest)),
      system.executed ++ ran⟩ := by
  obtain ⟨listed,past⟩ := released.sessions id _ here
  have member : script ∈ all := listed.subset (by simp)
  have scripts : (done ++ script :: rest).Nodup := (List.Nodup.of_map _ distinct).sublist listed.sublist
  have whole : done ++ [script] ++ rest <+: all := by simpa using listed
  have reaches : done ++ [script] <+: system.executed ++ ran ∧ system.executed ++ ran <+: all := by
    cases applies with
    | recorded row mem version checksum same nothing =>
      obtain ⟨executed,_⟩ := rowScript distinct sound released member mem version
      rw [nothing,List.append_nil]
      refine ⟨?_,released.executed⟩
      rcases nextOrExecuted released.executed listed past with same | further
      · rw [same] at executed
        exact absurd rfl ((List.nodup_append.mp scripts).2.2 script executed script List.mem_cons_self)
      · exact further
    | executed fresh effect added once =>
      rw [once]
      rcases nextOrExecuted released.executed listed past with same | further
      · rw [same]
        exact ⟨List.prefix_refl _,(List.prefix_append _ _).trans whole⟩
      · have ran : script ∈ system.executed := further.subset (by simp)
        exact absurd (scheme.versionKept script) (fresh _ (sound.rows ▸ List.mem_map_of_mem ran))
  refine ⟨reaches.2,updatedSessions (fun session same => ?_) fun other session there => ?_⟩
  · cases Option.some.inj same
    exact ⟨whole,reaches.1⟩
  · exact (released.sessions other session there).grows (List.prefix_append _ _)

end Applies

end Facts

section Runs
variable [DecidableEq Version] [DecidableEq Checksum] {scheme : Scheme Script Version Checksum Row Data}

theorem appliedSource {store store' : Store Row Data} {script : Script} (ok : apply scheme store script = .ok store') :
    Applies scheme store script store' (applied scheme store script) := by
  unfold apply at ok
  cases found : listed scheme store.rows script with
  | some row =>
    simp only [found] at ok
    obtain ⟨same,ok⟩ := Result.iteOk.mp ok
    cases Except.ok.inj ok
    exact .recorded row (List.mem_of_find?_eq_some found) (by simpa using List.find?_some found) (not_not.mp same) rfl
      (by simp [applied,found])
  | none =>
    simp only [found] at ok
    cases effect : scheme.execute script store.data with
    | none => simp [effect] at ok
    | some data =>
      simp only [effect] at ok
      cases Except.ok.inj ok
      exact .executed (by simpa [listed] using found) effect rfl (by simp [applied,found])

theorem mismatchSource {store : Store Row Data} {script : Script} {version : Version}
    (failed : apply scheme store script = .error (.checksumMismatch version)) : version = scheme.version script ∧
      ∃ row ∈ store.rows, scheme.rowVersion row = version ∧ scheme.rowChecksum row ≠ scheme.checksum script := by
  unfold apply at failed
  cases found : listed scheme store.rows script with
  | some row =>
    simp only [found] at failed
    split at failed
    · rename_i differs
      cases Failure.checksumMismatch.inj (Except.error.inj failed)
      exact ⟨rfl,row,List.mem_of_find?_eq_some found,by simpa using List.find?_some found,differs⟩
    · contradiction
  | none =>
    simp only [found] at failed
    split at failed <;> simp at failed

section Turns
variable {all : List Script} {start : Data} {system : System Script Version Row Data} {id : Nat} {done rest : List Script}
  {script : Script}

theorem Sound.turns (sound : Sound scheme start system)
    (here : system.sessions id = some (.running done (script :: rest))) :
    Sound scheme start (turn scheme system id done script rest) := by
  unfold turn
  split
  · rename_i store' ok
    exact sound.applies here (appliedSource ok)
  · rename_i failure failed
    refine ⟨sound.rows,sound.once,sound.built,updatedSessions (fun session same => ?_) sound.sessions⟩
    cases Option.some.inj same
    refine ⟨sound.sessions id _ here,fun version met => ?_⟩
    rw [met] at failed
    obtain ⟨same,row,mem,taken,differs⟩ := mismatchSource failed
    exact ⟨same,row,mem,taken.trans same,differs⟩

theorem stepSound {start : Data} {system : System Script Version Row Data} (sound : Sound scheme start system)
    (event : Event Script Data) : Sound scheme start (step scheme system event) := by
  cases event with
  | start id scripts =>
    refine ⟨sound.rows,sound.once,sound.built,updatedSessions (fun session same => ?_) sound.sessions⟩
    cases Option.some.inj same
    exact fun script mem => absurd mem List.not_mem_nil
  | turn id =>
    simp only [step]
    split
    · rename_i done script rest here
      exact sound.turns here
    · exact sound
  | kill id =>
    refine ⟨sound.rows,sound.once,sound.built,updatedSessions (fun session same => ?_) sound.sessions⟩
    contradiction
  | other change =>
    refine ⟨sound.rows,sound.once,sound.built.other change,fun id session here => ?_⟩
    exact (sound.sessions id session here).grows (List.Subset.refl _)

theorem runSound {start : Data} (events : List (Event Script Data)) : ∀ {system : System Script Version Row Data},
    Sound scheme start system → Sound scheme start (run scheme system events) := by
  induction events with
  | nil => exact fun sound => sound
  | cons event events ih => exact fun sound => ih (stepSound sound event)

theorem Released.turns (distinct : (all.map scheme.version).Nodup) (sound : Sound scheme start system)
    (released : Released all system) (here : system.sessions id = some (.running done (script :: rest))) :
    Released all (turn scheme system id done script rest) := by
  unfold turn
  split
  · rename_i store' ok
    exact released.applies distinct sound here (appliedSource ok)
  · rename_i failure failed
    obtain ⟨listed,past⟩ := released.sessions id _ here
    refine ⟨released.executed,updatedSessions (fun session same => ?_) released.sessions⟩
    cases Option.some.inj same
    refine ⟨past,?_⟩
    cases failure with
    | database => rfl
    | checksumMismatch version =>
      obtain ⟨same,row,mem,taken,differs⟩ := mismatchSource failed
      obtain ⟨_,rfl⟩ := rowScript distinct sound released (listed.subset (by simp)) mem (taken.trans same)
      exact absurd (scheme.checksumKept script) differs

theorem stepReleased (distinct : (all.map scheme.version).Nodup) (sound : Sound scheme start system)
    (released : Released all system) (event : Event Script Data)
    (beginning : ∀ id scripts, event = .start id scripts → scripts <+: all) :
    Released all (step scheme system event) := by
  cases event with
  | start id scripts =>
    refine ⟨released.executed,updatedSessions (fun session same => ?_) released.sessions⟩
    cases Option.some.inj same
    exact ⟨beginning id scripts rfl,List.nil_prefix⟩
  | turn id =>
    simp only [step]
    split
    · rename_i done script rest here
      exact released.turns distinct sound here
    · exact released
  | kill id =>
    refine ⟨released.executed,updatedSessions (fun session same => ?_) released.sessions⟩
    contradiction
  | other change => exact ⟨released.executed,released.sessions⟩

end Turns

theorem runReleased {all : List Script} (distinct : (all.map scheme.version).Nodup) {start : Data}
    (events : List (Event Script Data)) : ∀ {system : System Script Version Row Data}, Beginnings all events →
      Sound scheme start system → Released all system → Released all (run scheme system events) := by
  induction events with
  | nil => exact fun _ _ released => released
  | cons event events ih =>
    intro system beginnings sound released
    have now : ∀ id scripts, event = .start id scripts → scripts <+: all :=
      fun id scripts same => beginnings id scripts (same ▸ List.mem_cons_self)
    exact ih (fun id scripts mem => beginnings id scripts (List.mem_cons_of_mem _ mem)) (stepSound sound event)
      (stepReleased distinct sound released event now)

theorem stoppedTurns {system : System Script Version Row Data} {id : Nat} {done rest : List Script} {script : Script}
    {failure : Failure Version} (here : system.sessions id = some (.stopped done script rest failure)) (turns : Nat) :
    run scheme system (List.replicate turns (.turn id)) = system := by
  induction turns with
  | zero => rfl
  | succ turns ih =>
    have idle : step scheme system (.turn id) = system := by simp only [step,here]
    rw [List.replicate_succ,run,List.foldl_cons,idle]
    exact ih

theorem turnsAlone (rest : List Script) : ∀ {system : System Script Version Row Data} {id : Nat} {done : List Script},
    system.sessions id = some (.running done rest) →
    let after := run scheme system (List.replicate rest.length (.turn id))
    after.store = (applyAll scheme rest system.store).1 ∧
    ((applyAll scheme rest system.store).2 = .ok () ↔ after.sessions id = some (.running (done ++ rest) [])) := by
  induction rest with
  | nil =>
    intro system id done here
    exact ⟨rfl,iff_of_true rfl (by simpa [run] using here)⟩
  | cons script rest ih =>
    intro system id done here
    have first : step scheme system (.turn id) = turn scheme system id done script rest := by simp only [step,here]
    rw [List.length_cons,List.replicate_succ,run,List.foldl_cons,first]
    cases applied : apply scheme system.store script with
    | ok store =>
      have next : (turn scheme system id done script rest).sessions id = some (.running (done ++ [script]) rest) := by
        simp [turn,applied]
      have same : (turn scheme system id done script rest).store = store := by simp [turn,applied]
      obtain ⟨stored,through⟩ := ih next
      rw [same,List.append_assoc] at through
      rw [same] at stored
      rw [applyAll,applied]
      exact ⟨stored,through⟩
    | error failure =>
      have stops : (turn scheme system id done script rest).sessions id = some (.stopped done script rest failure) := by
        simp [turn,applied]
      have same : (turn scheme system id done script rest).store = system.store := by simp [turn,applied]
      have idle := @stoppedTurns _ _ _ _ _ _ _ scheme _ _ _ _ _ _ stops rest.length
      rw [run] at idle
      rw [applyAll,applied]
      intro after
      rw [show after = _ from idle,stops]
      exact ⟨same,by simp⟩

theorem loopReleased {all listed : List Script} (distinct : (all.map scheme.version).Nodup) {start : Data}
    {system : System Script Version Row Data} (sound : Sound scheme start system) (released : Released all system)
    (beginning : listed <+: all) {store : Store Row Data} (through : applyAll scheme listed system.store = (store,.ok ())) :
    ∃ executed, listed <+: executed ∧ store.rows = executed.map scheme.row := by
  let events : List (Event Script Data) := .start 0 listed :: List.replicate listed.length (.turn 0)
  have beginnings : Beginnings all events := by
    intro id scripts mem
    rcases List.mem_cons.mp mem with same | turns
    · cases same
      exact beginning
    · exact absurd (List.eq_of_mem_replicate turns) (by simp)
  have here : (step scheme system (.start 0 listed)).sessions 0 = some (.running [] listed) := by simp [step]
  obtain ⟨stored,done⟩ := @turnsAlone _ _ _ _ _ _ _ scheme listed _ _ _ here
  have same : applyAll scheme listed (step scheme system (.start 0 listed)).store = (store,.ok ()) := through
  rw [same] at stored done
  have after := runReleased distinct events beginnings sound released
  have rows := (runSound events sound).rows
  rw [show (run scheme system events).store = store from stored] at rows
  exact ⟨_,(after.sessions 0 _ (done.mp rfl)).2,rows⟩

end Runs

end CloudberryEtl.VersionedScripts
