import CloudberryEtl.LoginLimiter

/-! Concurrent logins over the failure table of `api::auth`: the check, the verification and the record of its verdict are
separate critical sections, and the requests interleave between them. The log is a history. -/
namespace CloudberryEtl.LoginRuns
open HashTable LoginLimiter

inductive Phase where
  | verifying | refused | accepted
  deriving DecidableEq, Repr

structure Flight (Address : Type) where
  address : Address
  phase : Phase
  deriving DecidableEq, Repr

inductive Mark where
  | wrongPassword | cleared
  deriving DecidableEq, Repr

structure Entry (Address : Type) where
  now : Instant
  address : Address
  mark : Mark
  deriving DecidableEq, Repr

/- The next step of the request at a position: its verdict, which is arbitrary, or its record, where the eviction would meet
a key first. A check begins a request. -/
inductive Action (Address : Type) where
  | check (address : Address)
  | verify (position : Nat) (accepted : Bool)
  | settle (position : Nat) (first : Option Address)
  deriving DecidableEq, Repr

structure Event (Address : Type) where
  now : Instant
  action : Action Address
  deriving DecidableEq, Repr

structure State (Address : Type) [DecidableEq Address] where
  now : Instant
  failures : Failures Address
  flights : List (Flight Address)
  log : List (Entry Address)

variable {Address : Type} [DecidableEq Address]

def State.new : State Address := ⟨0,.empty,[],[]⟩

def State.check (state : State Address) (now : Instant) (address : Address) : State Address :=
  let check := isRateLimited state.failures address now
  {state with
    now := now
    failures := check.2
    flights := if check.1 then state.flights else state.flights ++ [⟨address,.verifying⟩]}

def State.verify (state : State Address) (now : Instant) (position : Nat) (accepted : Bool) : Option (State Address) :=
  match state.flights[position]? with
  | some ⟨address,.verifying⟩ => some {state with
      now := now
      flights := state.flights.set position ⟨address,if accepted then .accepted else .refused⟩
      log := if accepted then state.log else state.log ++ [⟨now,address,.wrongPassword⟩]}
  | _ => none

def State.settle (state : State Address) (now : Instant) (position : Nat) (first : Option Address) :
    Option (State Address) :=
  match state.flights[position]? with
  | some ⟨address,.refused⟩ => some {state with
      now := now
      failures := registerFailure state.failures address first now
      flights := state.flights.eraseIdx position}
  | some ⟨address,.accepted⟩ => some {state with
      now := now
      failures := clearFailures state.failures address
      flights := state.flights.eraseIdx position
      log := state.log ++ [⟨now,address,.cleared⟩]}
  | _ => none

def step (state : State Address) (event : Event Address) : Option (State Address) :=
  if event.now < state.now then none
  else match event.action with
    | .check address => some (state.check event.now address)
    | .verify position accepted => state.verify event.now position accepted
    | .settle position first => state.settle event.now position first

section Steps

inductive Stepped (state : State Address) (now : Instant) : Action Address → State Address → Prop where
  | limited {address} (limited : (isRateLimited state.failures address now).1 = true) :
      Stepped state now (.check address) {state with now := now, failures := (isRateLimited state.failures address now).2}
  | admitted {address} (admitted : (isRateLimited state.failures address now).1 = false) :
      Stepped state now (.check address) {state with
        now := now
        failures := (isRateLimited state.failures address now).2
        flights := state.flights ++ [⟨address,.verifying⟩]}
  | confirmed {before behind address position} (flight : state.flights = before ++ ⟨address,.verifying⟩ :: behind) :
      Stepped state now (.verify position true) {state with now := now, flights := before ++ ⟨address,.accepted⟩ :: behind}
  | wrong {before behind address position} (flight : state.flights = before ++ ⟨address,.verifying⟩ :: behind) :
      Stepped state now (.verify position false) {state with
        now := now
        flights := before ++ ⟨address,.refused⟩ :: behind
        log := state.log ++ [⟨now,address,.wrongPassword⟩]}
  | registered {before behind address position first} (at' : state.flights[position]? = some ⟨address,.refused⟩)
      (flight : state.flights = before ++ ⟨address,.refused⟩ :: behind) :
      Stepped state now (.settle position first) {state with
        now := now
        failures := registerFailure state.failures address first now
        flights := before ++ behind}
  | cleared {before behind address position first} (flight : state.flights = before ++ ⟨address,.accepted⟩ :: behind) :
      Stepped state now (.settle position first) {state with
        now := now
        failures := clearFailures state.failures address
        flights := before ++ behind
        log := state.log ++ [⟨now,address,.cleared⟩]}

theorem splitAt {α : Type} {items : List α} {position : Nat} {item : α} (found : items[position]? = some item) :
    items = items.take position ++ item :: items.drop (position + 1) := by
  obtain ⟨below,same⟩ := List.getElem?_eq_some_iff.mp found
  rw [← same,List.getElem_cons_drop,List.take_append_drop]

theorem stepCases {state after : State Address} {event : Event Address} (moved : step state event = some after) :
    state.now ≤ event.now ∧ Stepped state event.now event.action after := by
  unfold step at moved
  split at moved <;> try contradiction
  next later =>
  refine ⟨Nat.not_lt.mp later,?_⟩
  split at moved
  next address action =>
    rw [action]
    cases Option.some.inj moved
    unfold State.check
    cases verdict : (isRateLimited state.failures address event.now).1 with
    | true => simpa [verdict] using Stepped.limited verdict
    | false => simpa [verdict] using Stepped.admitted verdict
  next position accepted action =>
    rw [action]
    unfold State.verify at moved
    split at moved <;> try contradiction
    next address found =>
      cases Option.some.inj moved
      have below := (List.getElem?_eq_some_iff.mp found).1
      rw [List.set_eq_take_append_cons_drop,if_pos below]
      cases accepted with
      | true => exact .confirmed (splitAt found)
      | false => exact .wrong (splitAt found)
  next position first action =>
    rw [action]
    unfold State.settle at moved
    split at moved <;> try contradiction
    next address found =>
      cases Option.some.inj moved
      rw [List.eraseIdx_eq_take_drop_succ]
      exact .registered found (splitAt found)
    next address found =>
      cases Option.some.inj moved
      rw [List.eraseIdx_eq_take_drop_succ]
      exact .cleared (splitAt found)

end Steps

section Conditions
variable (address : Address)

def inFlight (state : State Address) : Nat := state.flights.countP (fun flight => flight.address = address)

def inPhase (phase : Phase) (state : State Address) : Nat :=
  state.flights.countP (fun flight => flight.address = address ∧ flight.phase = phase)

/- A check of the address counts its requests in flight as failures to come. -/
def Spaced (state : State Address) (event : Event Address) : Prop :=
  event.action = .check address → (isRateLimited state.failures address event.now).1 = false →
    (recent event.now (state.failures.value address)).length + inFlight address state < maxLoginFailures

def Undisturbed (state : State Address) (event : Event Address) : Prop :=
  ∀ position other, event.action = .settle position (some address) →
    state.flights[position]? = some ⟨other,.refused⟩ → other ∉ state.failures.keys →
    state.failures.keys.card < maxFailureAddresses

def Sole (event : Event Address) : Prop := ∀ other, event.action = .check other → other = address

inductive Run (condition : State Address → Event Address → Prop) : State Address → Prop where
  | new : Run condition .new
  | step {state event after} (before : Run condition state) (meets : condition state event)
      (moved : step state event = some after) : Run condition after

theorem Run.imp {condition other : State Address → Event Address → Prop} {state : State Address}
    (weaker : ∀ state event, Run condition state → condition state event → other state event)
    (run : Run condition state) : Run other state := by
  induction run with
  | new => exact .new
  | step before meets moved ih => exact .step ih (weaker _ _ before meets) moved

end Conditions

section Windows
variable (address : Address) (start : Instant)

def InWindow (now : Instant) : Prop := start ≤ now ∧ now ≤ start + loginWindow

instance (now : Instant) : Decidable (InWindow start now) := by unfold InWindow; infer_instance

def NoSuccess (log : List (Entry Address)) : Prop :=
  ∀ entry ∈ log, entry.address = address → entry.mark = .cleared → ¬ InWindow start entry.now

def wrongPasswords (log : List (Entry Address)) : Nat :=
  log.countP (fun entry => entry.address = address ∧ entry.mark = .wrongPassword ∧ InWindow start entry.now)

def Limited (state : State Address) : Prop :=
  ∀ start, NoSuccess address start state.log → wrongPasswords address start state.log ≤ maxLoginFailures

def keptSince (failures : Failures Address) : Nat := (failures.value address).countP (fun instant => start ≤ instant)

variable {address start}

theorem inFlightSplit (address : Address) (state : State Address) : inFlight address state =
    inPhase address .verifying state + inPhase address .refused state + inPhase address .accepted state := by
  unfold inFlight inPhase
  induction state.flights with
  | nil => rfl
  | cons flight flights ih =>
    simp only [List.countP_cons,ih]
    rcases flight with ⟨owner,phase⟩
    by_cases same : owner = address
    · cases phase <;> simp [same] <;> omega
    · simp [same]

theorem inWindowRecent {now instant : Instant} (live : now ≤ start + loginWindow) (since : start ≤ instant) :
    now - instant ≤ loginWindow :=
  (Nat.sub_le_sub_left since now).trans (Nat.sub_le_iff_le_add'.mpr live)

theorem keptRecent {now : Instant} (attempts : List Instant) (live : now ≤ start + loginWindow) :
    (recent now attempts).countP (fun instant => start ≤ instant) = attempts.countP (fun instant => start ≤ instant) := by
  rw [recent,List.countP_filter]
  refine List.countP_congr ?_
  intro instant _
  simp only [Bool.and_eq_true,decide_eq_true_eq]
  exact ⟨And.left,fun since => ⟨since,inWindowRecent live since⟩⟩

theorem keptChecked {failures : Failures Address} {now : Instant} (other : Address) (live : now ≤ start + loginWindow) :
    keptSince address start (isRateLimited failures other now).2 = keptSince address start failures := by
  unfold keptSince
  rw [checkedValue]
  exact keptRecent _ live

theorem keptWithin (address : Address) (failures : Failures Address) {now : Instant} (live : now ≤ start + loginWindow) :
    keptSince address start failures ≤ (recent now (failures.value address)).length := by
  unfold keptSince
  rw [← keptRecent _ live]
  exact List.countP_le_length

theorem wrongNone (address : Address) {log : List (Entry Address)} (before : ∀ entry ∈ log, entry.now < start) :
    wrongPasswords address start log = 0 := by
  refine List.countP_eq_zero.mpr ?_
  intro entry mem
  have early := before entry mem
  simp only [decide_eq_true_eq,not_and]
  exact fun _ _ inside => absurd early (Nat.not_lt.mpr inside.1)

omit [DecidableEq Address] in
theorem noSuccessBefore {log : List (Entry Address)} {entry : Entry Address}
    (none' : NoSuccess address start (log ++ [entry])) : NoSuccess address start log :=
  fun other mem => none' other (List.mem_append_left _ mem)

theorem wrongAppended (log : List (Entry Address)) (entry : Entry Address) :
    wrongPasswords address start (log ++ [entry]) = wrongPasswords address start log +
      if entry.address = address ∧ entry.mark = .wrongPassword ∧ InWindow start entry.now then 1 else 0 := by
  simp [wrongPasswords,List.countP_append,List.countP_singleton]

theorem inPhaseMoved (address : Address) {state after : State Address} {before behind : List (Flight Address)} {other : Address}
    {phase next : Phase} (flight : state.flights = before ++ ⟨other,phase⟩ :: behind)
    (moved : after.flights = before ++ ⟨other,next⟩ :: behind) (counted : Phase) :
    inPhase address counted after + (if other = address ∧ phase = counted then 1 else 0) =
      inPhase address counted state + if other = address ∧ next = counted then 1 else 0 := by
  simp only [inPhase,flight,moved,List.countP_append,List.countP_cons,decide_eq_true_eq]
  omega

theorem inPhaseLeft (address : Address) {state after : State Address} {before behind : List (Flight Address)} {other : Address}
    {phase : Phase} (flight : state.flights = before ++ ⟨other,phase⟩ :: behind) (left : after.flights = before ++ behind)
    (counted : Phase) : inPhase address counted after + (if other = address ∧ phase = counted then 1 else 0) =
      inPhase address counted state := by
  simp only [inPhase,flight,left,List.countP_append,List.countP_cons,decide_eq_true_eq]
  omega

theorem inPhaseJoined (address : Address) {state after : State Address} {other : Address}
    (joined : after.flights = state.flights ++ [⟨other,.verifying⟩]) (counted : Phase) :
    inPhase address counted after =
      inPhase address counted state + if other = address ∧ .verifying = counted then 1 else 0 := by
  simp [inPhase,joined,List.countP_append,List.countP_singleton]

structure Counted (address : Address) (start : Instant) (state : State Address) : Prop where
  flights : inFlight address state ≤ maxLoginFailures
  logged : ∀ entry ∈ state.log, entry.now ≤ state.now
  bounded : NoSuccess address start state.log → wrongPasswords address start state.log ≤ maxLoginFailures
  verifying : NoSuccess address start state.log → state.now ≤ start + loginWindow →
    wrongPasswords address start state.log + inPhase address .verifying state ≤ maxLoginFailures
  kept : NoSuccess address start state.log → state.now ≤ start + loginWindow →
    wrongPasswords address start state.log ≤ keptSince address start state.failures + inPhase address .refused state

theorem countedNew : Counted address start .new := by
  refine ⟨?_,?_,?_,?_,?_⟩ <;> simp [State.new,inFlight,inPhase,wrongPasswords]

variable {state after : State Address} {now : Instant}

def Logs (state after : State Address) (now : Instant) : Prop :=
  after.log = state.log ∨ ∃ entry, after.log = state.log ++ [entry] ∧ entry.now = now

theorem logsBefore (logs : Logs state after now) (none' : NoSuccess address start after.log) :
    NoSuccess address start state.log := by
  rcases logs with same | ⟨entry,same,_⟩
  · rwa [same] at none'
  · rw [same] at none'
    exact noSuccessBefore none'

theorem logsLogged (logs : Logs state after now) (later : state.now ≤ now)
    (logged : ∀ entry ∈ state.log, entry.now ≤ state.now) : ∀ entry ∈ after.log, entry.now ≤ now := by
  intro entry mem
  rcases logs with same | ⟨last,same,here⟩
  · rw [same] at mem
    exact (logged entry mem).trans later
  · rw [same] at mem
    rcases List.mem_append.mp mem with mem | mem
    · exact (logged entry mem).trans later
    · rw [List.mem_singleton.mp mem]
      exact here.le

theorem logsClosed (logs : Logs state after now) (closed : ¬ now ≤ start + loginWindow) :
    wrongPasswords address start after.log = wrongPasswords address start state.log := by
  rcases logs with same | ⟨entry,same,here⟩
  · rw [same]
  · rw [same,wrongAppended,if_neg]
    · rfl
    · intro inside
      exact closed (here ▸ inside.2.2.2)

theorem countedStep (counted : Counted address start state) (later : state.now ≤ now) (at' : after.now = now)
    (logs : Logs state after now) (flights : inFlight address after ≤ maxLoginFailures)
    (open' : start ≤ now → now ≤ start + loginWindow → NoSuccess address start after.log →
      wrongPasswords address start after.log + inPhase address .verifying after ≤ maxLoginFailures ∧
      wrongPasswords address start after.log ≤ keptSince address start after.failures + inPhase address .refused after) :
    Counted address start after := by
  -- It is enough to count while the window is open: before it there are no wrong passwords in it, and after it no
  -- more.
  have logged := logsLogged logs later counted.logged
  have live (none' : NoSuccess address start after.log) (still : now ≤ start + loginWindow) :
      wrongPasswords address start after.log + inPhase address .verifying after ≤ maxLoginFailures ∧
      wrongPasswords address start after.log ≤ keptSince address start after.failures + inPhase address .refused after := by
    rcases Nat.lt_or_ge now start with early | begun
    · have none := wrongNone address (fun entry mem => Nat.lt_of_le_of_lt (logged entry mem) early)
      have sum := inFlightSplit address after
      rw [none]
      omega
    · exact open' begun still none'
  refine ⟨flights,at' ▸ logged,?_,fun none' still => (live none' (at' ▸ still)).1,
    fun none' still => (live none' (at' ▸ still)).2⟩
  intro none'
  by_cases still : now ≤ start + loginWindow
  · have both := (live none' still).1
    omega
  · rw [logsClosed logs still]
    exact counted.bounded (logsBefore logs none')

theorem registeredOwn (failures : Failures Address) (first : Option Address) (now : Instant) :
    (registerFailure failures address first now).value address = failures.value address ++ [now] := by
  have own : (failures.evict maxFailureAddresses address first).value address = failures.value address := by
    unfold Table.evict
    split
    next full =>
      cases first with
      | none => rfl
      | some oldest =>
        by_cases same : address = oldest
        · simp only [Table.removeValue,same,Function.update_self]
          exact (failures.absent oldest (same ▸ full.2)).symm
        · simp only [Table.removeValue,Function.update_of_ne same]
    next => rfl
  simp only [registerFailure,Table.insertValue,Function.update_self,own]

theorem registeredOther {failures : Failures Address} {other : Address} {first : Option Address} (now : Instant)
    (apart : other ≠ address)
    (stays : first = some address → other ∉ failures.keys → failures.keys.card < maxFailureAddresses) :
    (registerFailure failures other first now).value address = failures.value address := by
  have kept : (failures.evict maxFailureAddresses other first).value address = failures.value address := by
    unfold Table.evict
    split
    next full =>
      cases first with
      | none => rfl
      | some oldest =>
        have different : address ≠ oldest := fun same => absurd (stays (same ▸ rfl) full.2) (Nat.not_lt.mpr full.1)
        simp only [Table.removeValue,Function.update_of_ne different]
    next => rfl
  simp only [registerFailure,Table.insertValue,Function.update_of_ne apart.symm,kept]

theorem admittedCounted {other : Address} (counted : Counted address start state) (later : state.now ≤ now)
    (room : other = address →
      (recent now (state.failures.value address)).length + inFlight address state < maxLoginFailures)
    (at' : after.now = now) (failures : after.failures = (isRateLimited state.failures other now).2)
    (joined : after.flights = state.flights ++ [⟨other,.verifying⟩]) (log : after.log = state.log) :
    Counted address start after := by
  have before := inFlightSplit address state
  have sum := inFlightSplit address after
  have verifying := inPhaseJoined address joined .verifying
  have refused := inPhaseJoined address joined .refused
  have accepted := inPhaseJoined address joined .accepted
  simp only [reduceCtorEq,and_false,if_false,Nat.add_zero,and_true] at verifying refused accepted
  have within := counted.flights
  refine countedStep counted later at' (.inl log) ?_ ?_
  · split at verifying
    next same =>
      have here := room same
      omega
    next => omega
  · intro _ still none'
    rw [log] at none' ⊢
    have open' := counted.verifying none' (later.trans still)
    have kept := counted.kept none' (later.trans still)
    have since := keptWithin address state.failures still
    rw [failures,keptChecked _ still]
    split at verifying
    next same =>
      have here := room same
      omega
    next => omega

theorem verifiedCounted {before behind : List (Flight Address)} {other : Address} (verdict : Bool)
    (counted : Counted address start state) (later : state.now ≤ now)
    (flight : state.flights = before ++ ⟨other,.verifying⟩ :: behind) (at' : after.now = now)
    (failures : after.failures = state.failures)
    (moved : after.flights = before ++ ⟨other,if verdict then .accepted else .refused⟩ :: behind)
    (log : after.log = if verdict then state.log else state.log ++ [⟨now,other,.wrongPassword⟩]) :
    Counted address start after := by
  have total := inFlightSplit address state
  have sum := inFlightSplit address after
  have verifying := inPhaseMoved address flight moved .verifying
  have refused := inPhaseMoved address flight moved .refused
  have accepted := inPhaseMoved address flight moved .accepted
  have within := counted.flights
  have logs : Logs state after now := by
    cases verdict with
    | true => exact .inl log
    | false => exact .inr ⟨_,log,rfl⟩
  have same : inFlight address after = inFlight address state := by
    cases verdict <;> simp at verifying refused accepted <;> omega
  refine countedStep counted later at' logs (same ▸ within) ?_
  intro begun still none'
  have none'' := logsBefore logs none'
  have open' := counted.verifying none'' (later.trans still)
  have kept := counted.kept none'' (later.trans still)
  rw [failures,log]
  cases verdict with
  | true =>
    simp at verifying refused ⊢
    omega
  | false =>
    have inside : InWindow start now := ⟨begun,still⟩
    simp [wrongAppended,inside] at verifying refused ⊢
    omega

theorem registeredCounted {before behind : List (Flight Address)} {other : Address} {first : Option Address}
    (counted : Counted address start state) (later : state.now ≤ now)
    (flight : state.flights = before ++ ⟨other,.refused⟩ :: behind) (at' : after.now = now)
    (stays : first = some address → other ∉ state.failures.keys → state.failures.keys.card < maxFailureAddresses)
    (failures : after.failures = registerFailure state.failures other first now)
    (left : after.flights = before ++ behind) (log : after.log = state.log) : Counted address start after := by
  have total := inFlightSplit address state
  have sum := inFlightSplit address after
  have verifying := inPhaseLeft address flight left .verifying
  have refused := inPhaseLeft address flight left .refused
  have accepted := inPhaseLeft address flight left .accepted
  simp only [reduceCtorEq,and_false,if_false,Nat.add_zero,and_true] at verifying refused accepted
  have within := counted.flights
  refine countedStep counted later at' (.inl log) (by omega) ?_
  intro begun still none'
  rw [log] at none' ⊢
  have open' := counted.verifying none' (later.trans still)
  have kept := counted.kept none' (later.trans still)
  refine ⟨by omega,?_⟩
  unfold keptSince at kept ⊢
  rw [failures]
  by_cases same : other = address
  · subst same
    rw [registeredOwn,List.countP_append,List.countP_singleton]
    simp [begun] at refused ⊢
    omega
  · rw [registeredOther now same stays]
    simp [same] at refused
    omega

theorem clearedCounted {before behind : List (Flight Address)} {other : Address}
    (counted : Counted address start state) (later : state.now ≤ now)
    (flight : state.flights = before ++ ⟨other,.accepted⟩ :: behind) (at' : after.now = now)
    (failures : after.failures = clearFailures state.failures other) (left : after.flights = before ++ behind)
    (log : after.log = state.log ++ [⟨now,other,.cleared⟩]) : Counted address start after := by
  have total := inFlightSplit address state
  have sum := inFlightSplit address after
  have verifying := inPhaseLeft address flight left .verifying
  have refused := inPhaseLeft address flight left .refused
  have accepted := inPhaseLeft address flight left .accepted
  simp only [reduceCtorEq,and_false,if_false,Nat.add_zero,and_true] at verifying refused accepted
  have within := counted.flights
  have logs : Logs state after now := .inr ⟨_,log,rfl⟩
  refine countedStep counted later at' logs (by omega) ?_
  intro begun still none'
  have apart : other ≠ address := by
    intro same
    exact none' ⟨now,other,.cleared⟩ (by simp [log]) same rfl ⟨begun,still⟩
  have none'' := logsBefore logs none'
  have open' := counted.verifying none'' (later.trans still)
  have kept := counted.kept none'' (later.trans still)
  rw [log,wrongAppended,failures]
  simp only [keptSince,clearFailures,Table.removeValue,Function.update_of_ne apart.symm,reduceCtorEq,false_and,and_false,
    if_false] at kept ⊢
  exact ⟨by omega,by omega⟩

theorem countedKept {event : Event Address} (counted : Counted address start state)
    (spaced : Spaced address state event) (undisturbed : Undisturbed address state event)
    (moved : step state event = some after) : Counted address start after := by
  obtain ⟨later,stepped⟩ := stepCases moved
  generalize act : event.action = action at stepped
  cases stepped with
  | limited limited =>
    refine countedStep counted later rfl (.inl rfl) counted.flights ?_
    intro _ still none'
    rw [keptChecked _ still]
    exact ⟨counted.verifying none' (later.trans still),counted.kept none' (later.trans still)⟩
  | admitted admitted =>
    exact admittedCounted counted later (fun same => spaced (same ▸ act) (same ▸ admitted)) rfl rfl rfl rfl
  | confirmed flight => exact verifiedCounted true counted later flight rfl rfl rfl rfl
  | wrong flight => exact verifiedCounted false counted later flight rfl rfl rfl rfl
  | registered at' flight =>
    exact registeredCounted counted later flight rfl (fun first missing => undisturbed _ _ (first ▸ act) at' missing)
      rfl rfl rfl
  | cleared flight => exact clearedCounted counted later flight rfl rfl rfl rfl

end Windows

section Runs
variable {address : Address} {state after : State Address}

theorem runCounted (start : Instant)
    (run : Run (fun state event => Spaced address state event ∧ Undisturbed address state event) state) :
    Counted address start state := by
  induction run with
  | new => exact countedNew
  | step before meets moved ih => exact countedKept ih meets.1 meets.2 moved

theorem idleSpaced {event : Event Address} (idle : inFlight address state = 0) : Spaced address state event := by
  intro _ admitted
  rw [idle]
  simpa [isRateLimited] using admitted

structure Alone (address : Address) (state : State Address) : Prop where
  keys : state.failures.keys ⊆ {address}
  owners : ∀ owner ∈ state.flights.map Flight.address, owner = address

theorem registeredKeys (failures : Failures Address) (other : Address) (first : Option Address) (now : Instant) :
    (registerFailure failures other first now).keys ⊆ insert other failures.keys := by
  have evicted : (failures.evict maxFailureAddresses other first).keys ⊆ failures.keys := by
    unfold Table.evict
    split
    next =>
      cases first with
      | none => exact Finset.Subset.refl _
      | some oldest => exact Finset.erase_subset _ _
    next => exact Finset.Subset.refl _
  exact Finset.insert_subset_insert _ evicted

theorem checkedInside (failures : Failures Address) (other : Address) (now : Instant) :
    (isRateLimited failures other now).2.keys ⊆ insert other failures.keys := by
  rw [checkedKeys]
  exact Finset.insert_subset_insert _ (Finset.filter_subset _ _)

theorem aloneKept {event : Event Address} (alone : Alone address state) (sole : Sole address event)
    (moved : step state event = some after) : Alone address after := by
  obtain ⟨_,stepped⟩ := stepCases moved
  generalize act : event.action = action at stepped
  have inserted : insert address state.failures.keys ⊆ {address} :=
    Finset.insert_subset (Finset.mem_singleton_self _) alone.keys
  have owners := alone.owners
  cases stepped with
  | limited limited =>
    refine ⟨(checkedInside _ _ _).trans ?_,owners⟩
    rw [sole _ act]
    exact inserted
  | admitted admitted =>
    refine ⟨(checkedInside _ _ _).trans ?_,?_⟩
    · rw [sole _ act]
      exact inserted
    · intro owner mem
      rw [List.map_append,List.mem_append] at mem
      rcases mem with mem | mem
      · exact owners owner mem
      · exact (List.mem_singleton.mp mem).trans (sole _ act)
  | confirmed flight | wrong flight =>
    rw [flight,List.map_append,List.map_cons] at owners
    exact ⟨alone.keys,by rwa [List.map_append,List.map_cons]⟩
  | @registered before behind other _ _ at' flight =>
    rw [flight,List.map_append,List.map_cons] at owners
    have own : other = address := owners other (List.mem_append_right _ List.mem_cons_self)
    refine ⟨(registeredKeys _ _ _ _).trans ?_,fun owner mem => owners owner ?_⟩
    · rw [own]
      exact inserted
    · simp only [List.map_append,List.mem_append,List.mem_cons] at mem ⊢
      tauto
  | cleared flight =>
    rw [flight,List.map_append,List.map_cons] at owners
    refine ⟨(Finset.erase_subset _ _).trans alone.keys,fun owner mem => owners owner ?_⟩
    simp only [List.map_append,List.mem_append,List.mem_cons] at mem ⊢
    tauto

theorem runAlone {condition : State Address → Event Address → Prop}
    (run : Run (fun state event => Sole address event ∧ condition state event) state) : Alone address state := by
  induction run with
  | new => exact ⟨Finset.empty_subset _,by simp [State.new]⟩
  | step before meets moved ih => exact aloneKept ih meets.1 moved

theorem aloneUndisturbed (alone : Alone address state) (event : Event Address) : Undisturbed address state event := by
  intro _ _ _ _ _
  have few := Finset.card_le_card alone.keys
  rw [Finset.card_singleton] at few
  exact few.trans_lt (by decide)

theorem limitedOfCounted (counted : ∀ start, Counted address start state) : Limited address state :=
  fun start none' => (counted start).bounded none'

theorem sequentialLimited
    (run : Run (fun state event => Sole address event ∧ (event.action = .check address → inFlight address state = 0)) state) :
    Limited address state := by
  refine limitedOfCounted fun start => runCounted start (run.imp ?_)
  intro state event before meets
  refine ⟨?_,aloneUndisturbed (runAlone before) event⟩
  intro act
  exact idleSpaced (meets.2 act) act

/-- In every run in which an address alone logs in and each of its checks counts its requests in flight as failures, every
window without a success holds at most five wrong passwords of the address. Among other addresses this is so as long
as their registrations do not evict the address. -/
theorem wrongPasswordsLimited :
    (∀ (address : Address) state, Run (fun state event => Sole address event ∧ Spaced address state event) state →
      Limited address state) ∧
    ∀ (address : Address) state, Run (fun state event => Spaced address state event ∧ Undisturbed address state event) state →
      Limited address state := by
  constructor
  · intro address state run
    refine limitedOfCounted fun start => runCounted start (run.imp ?_)
    intro state event before meets
    exact ⟨meets.2,aloneUndisturbed (runAlone before) event⟩
  · intro address state run
    exact limitedOfCounted fun start => runCounted start run

end Runs

section Samples

def runAll (events : List (Event Address)) (state : State Address) : Option (State Address) := events.foldlM step state

def Along (condition : State Address → Event Address → Prop) : State Address → List (Event Address) → Prop
  | _,[] => True
  | state,event :: events => condition state event ∧ ∀ after, step state event = some after → Along condition after events

instance (condition : State Address → Event Address → Prop) [∀ state event, Decidable (condition state event)] :
    ∀ state events, Decidable (Along condition state events)
  | _,[] => isTrue trivial
  | state,event :: events =>
    match moved : step state event with
    | none => decidable_of_iff (condition state event) (by simp [Along,moved])
    | some after =>
      have : Decidable (Along condition after events) := instDecidableAlong condition after events
      decidable_of_iff (condition state event ∧ Along condition after events) (by simp [Along,moved])

instance (address : Address) (state : State Address) (event : Event Address) : Decidable (Spaced address state event) := by
  unfold Spaced
  infer_instance

theorem runAllRun {condition : State Address → Event Address → Prop} {events : List (Event Address)} :
    ∀ {state after}, Run condition state → Along condition state events → runAll events state = some after →
      Run condition after := by
  induction events with
  | nil =>
    intro state after run _ moved
    cases Option.some.inj moved
    exact run
  | cons event events ih =>
    intro state after run along moved
    obtain ⟨middle,first,rest⟩ := Option.bind_eq_some_iff.mp moved
    exact ih (.step run along.1 first) (along.2 middle first) rest

theorem alongBoth {condition other : State Address → Event Address → Prop} {events : List (Event Address)}
    (meets : ∀ state, ∀ event ∈ events, condition state event) : ∀ {state}, Along other state events →
    Along (fun state event => condition state event ∧ other state event) state events := by
  induction events with
  | nil => exact fun _ => trivial
  | cons event events ih =>
    intro state along
    exact ⟨⟨meets state event (by simp),along.1⟩,fun after moved =>
      ih (fun state other mem => meets state other (by simp [mem])) (along.2 after moved)⟩

def sixAtOnce : List (Event Nat) :=
  (List.range 6).map (fun _ => ⟨0,.check 1⟩) ++ (List.range 6).map (fun position => ⟨0,.verify position false⟩)

theorem sixWrongPasswords : (runAll sixAtOnce .new).map (fun state => wrongPasswords 1 0 state.log) = some 6 ∧
    ¬ ∀ (address : Nat) state, Run (fun _ event => Sole address event) state → Limited address state := by
  have six : (runAll sixAtOnce .new).map (fun state => wrongPasswords 1 0 state.log) = some 6 := by decide +kernel
  have quiet : (runAll sixAtOnce .new).all (fun state => state.log.all (fun entry => entry.mark == .wrongPassword)) := by
    decide +kernel
  refine ⟨six,?_⟩
  intro limited
  obtain ⟨state,ended,count⟩ := Option.map_eq_some_iff.mp six
  have sole : ∀ state : State Nat, ∀ event ∈ sixAtOnce, Sole 1 event := by
    intro _ event mem other act
    rcases List.mem_append.mp mem with mem | mem
    · obtain ⟨_,_,rfl⟩ := List.mem_map.mp mem
      exact (Action.check.inj act).symm
    · obtain ⟨_,_,rfl⟩ := List.mem_map.mp mem
      cases act
  rw [ended] at quiet
  have none' : NoSuccess 1 0 state.log := by
    intro entry mem _ cleared
    have wrong := List.all_eq_true.mp quiet entry mem
    rw [cleared] at wrong
    exact absurd wrong (by decide)
  have along : Along (fun _ event => Sole 1 event ∧ True) .new sixAtOnce := alongBoth sole (by decide +kernel)
  have ran := (runAllRun .new along ended).imp fun _ _ _ meets => meets.1
  have within := limited 1 state ran 0 none'
  rw [count] at within
  exact absurd within (by decide)

/- Five requests overlap, some of them with the record of an earlier one; a sixth is refused, and a seventh is let in when
the first failure is out of the window. -/
def overlapping : List (Event Nat) :=
  [⟨0,.check 1⟩,⟨0,.check 1⟩,⟨1,.verify 1 false⟩,⟨1,.check 1⟩,⟨2,.settle 1 none⟩,⟨2,.check 1⟩,⟨3,.check 1⟩,
    ⟨3,.verify 0 false⟩,⟨3,.verify 1 false⟩,⟨3,.verify 2 false⟩,⟨3,.verify 3 false⟩,
    ⟨4,.settle 3 none⟩,⟨4,.settle 0 none⟩,⟨4,.settle 1 none⟩,⟨4,.settle 0 none⟩,
    ⟨5,.check 1⟩,⟨3 + loginWindow,.check 1⟩,⟨3 + loginWindow,.verify 0 false⟩]

theorem overlappingLimited : ∃ state, runAll overlapping .new = some state ∧ wrongPasswords 1 0 state.log = 5 ∧
    wrongPasswords 1 3 state.log = 5 ∧ Limited 1 state := by
  obtain ⟨state,ended⟩ : ∃ state, runAll overlapping .new = some state := Option.isSome_iff_exists.mp (by decide +kernel)
  have counts : (runAll overlapping .new).map (fun state => (wrongPasswords 1 0 state.log,wrongPasswords 1 3 state.log)) =
      some (5,5) := by decide +kernel
  rw [ended] at counts
  obtain ⟨first,later⟩ := Prod.mk.inj (Option.some.inj counts)
  have sole : ∀ state : State Nat, ∀ event ∈ overlapping, Sole 1 event := by
    intro _ event mem other act
    have checks : ∀ event ∈ overlapping, event.action = .check 1 ∨ ∀ other, event.action ≠ .check other := by
      simp [overlapping]
    rcases checks event mem with own | none'
    · exact (Action.check.inj (own.symm.trans act)).symm
    · exact absurd act (none' other)
  have spaced : Along (Spaced 1) .new overlapping := by decide +kernel
  exact ⟨state,ended,first,later,wrongPasswordsLimited.1 1 state (runAllRun .new (alongBoth sole spaced) ended)⟩

end Samples

end CloudberryEtl.LoginRuns
