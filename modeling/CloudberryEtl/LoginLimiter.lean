import CloudberryEtl.HashTable

/-! The failure table and the session table of `api::auth`. An `Instant` is a number of nanoseconds on the monotonic clock;
`duration_since` of a later instant is zero. The key that the iteration of a hash map meets first is arbitrary. -/
namespace CloudberryEtl.LoginLimiter
open HashTable

abbrev Instant := Nat

def loginWindow : Nat := 60 * 10 ^ 9
def maxLoginFailures : Nat := 5
def maxFailureAddresses : Nat := 10000
def maxSessions : Nat := 10000

section Limiter
variable {Address : Type} [DecidableEq Address]

abbrev Failures (Address : Type) [DecidableEq Address] := Table Address (List Instant)

def recent (now : Instant) (attempts : List Instant) : List Instant :=
  attempts.filter (fun instant => now - instant ≤ loginWindow)

def pruned (failures : Failures Address) (now : Instant) : Failures Address :=
  failures.retain (recent now) (fun attempts => !attempts.isEmpty)

def isRateLimited (failures : Failures Address) (address : Address) (now : Instant) : Bool × Failures Address :=
  let failures := (pruned failures now).orDefault address
  (maxLoginFailures ≤ (failures.value address).length,failures)

def registerFailure (failures : Failures Address) (address : Address) (first : Option Address) (now : Instant) :
    Failures Address :=
  let failures := failures.evict maxFailureAddresses address first
  failures.insert address (failures.value address ++ [now])

def clearFailures (failures : Failures Address) (address : Address) : Failures Address := failures.remove address

@[simp] theorem prunedValue (failures : Failures Address) (now : Instant) (address : Address) :
    (pruned failures now).value address = recent now (failures.value address) :=
  Table.retainValue rfl (fun _ dropped => List.isEmpty_iff.mp (by simpa using dropped)) address

theorem memPruned {failures : Failures Address} {now : Instant} {address : Address} :
    address ∈ (pruned failures now).keys ↔ address ∈ failures.keys ∧ recent now (failures.value address) ≠ [] := by
  rw [pruned,Table.memRetain]
  simp

theorem recentPresent {failures : Failures Address} {now : Instant} {address : Address}
    (some' : recent now (failures.value address) ≠ []) : address ∈ failures.keys := by
  by_contra missing
  rw [failures.absent address missing] at some'
  exact some' rfl

end Limiter

section Requests
variable {Address : Type} [DecidableEq Address]

inductive Response where
  | tooManyRequests | unauthorized | session
  deriving DecidableEq, Repr

/- One login request that runs to its end: its clock readings, the verdict of `verify`, and the key that the eviction
would meet first. -/
structure Attempt (Address : Type) where
  address : Address
  checkedAt : Instant
  accepted : Bool
  settledAt : Instant
  first : Option Address

def login (failures : Failures Address) (attempt : Attempt Address) : Response × Failures Address :=
  let check := isRateLimited failures attempt.address attempt.checkedAt
  if check.1 then (.tooManyRequests,check.2)
  else if attempt.accepted then (.session,clearFailures check.2 attempt.address)
  else (.unauthorized,registerFailure check.2 attempt.address attempt.first attempt.settledAt)

def serve (attempts : List (Attempt Address)) (failures : Failures Address) : Failures Address :=
  attempts.foldl (fun failures attempt => (login failures attempt).2) failures

def recentOthers (failures : Failures Address) (address : Address) (now : Instant) : Finset Address :=
  failures.keys.filter (fun other => other ≠ address ∧ recent now (failures.value other) ≠ [])

theorem checkedKeys (failures : Failures Address) (address : Address) (now : Instant) :
    (isRateLimited failures address now).2.keys = insert address (recentOthers failures address now) := by
  ext other
  simp only [isRateLimited,Table.orDefaultKeys,Finset.mem_insert,memPruned,recentOthers,Finset.mem_filter]
  tauto

theorem checkedValue (failures : Failures Address) (address : Address) (now : Instant) (other : Address) :
    (isRateLimited failures address now).2.value other = recent now (failures.value other) :=
  prunedValue failures now other

theorem recentOthersApart (failures : Failures Address) (address : Address) (now : Instant) :
    address ∉ recentOthers failures address now := by
  simp [recentOthers]

theorem recentOthersInside (failures : Failures Address) (address : Address) (now : Instant) :
    recentOthers failures address now ⊆ failures.keys.erase address := by
  intro other mem
  obtain ⟨present,apart,_⟩ := Finset.mem_filter.mp mem
  exact Finset.mem_erase.mpr ⟨apart,present⟩

theorem neverEvicts (failures : Failures Address) (address : Address) (first : Option Address) (checked now : Instant) :
    registerFailure (isRateLimited failures address checked).2 address first now =
      (isRateLimited failures address checked).2.insert address (recent checked (failures.value address) ++ [now]) := by
  -- The check has just inserted the address, so the registration takes it for one that is present.
  have present : address ∈ (isRateLimited failures address checked).2.keys := by
    rw [checkedKeys]
    exact Finset.mem_insert_self _ _
  rw [registerFailure,Table.evictPresent present,checkedValue]

theorem limitedPresent {failures : Failures Address} {address : Address} {now : Instant}
    (limited : (isRateLimited failures address now).1 = true) : address ∈ failures.keys := by
  have some' : recent now (failures.value address) ≠ [] := by
    intro none'
    simp [isRateLimited,none',maxLoginFailures] at limited
  exact recentPresent some'

/- Room for the failure that the request is about to leave. -/
def Roomy (failures : Failures Address) (attempt : Attempt Address) : Prop :=
  attempt.accepted = false →
    (recentOthers failures attempt.address attempt.checkedAt).card < maxFailureAddresses

theorem loginWithinIff {failures : Failures Address} (attempt : Attempt Address)
    (within : failures.keys.card ≤ maxFailureAddresses) :
    (login failures attempt).2.keys.card ≤ maxFailureAddresses ↔ Roomy failures attempt := by
  have inside := Finset.card_le_card (recentOthersInside failures attempt.address attempt.checkedAt)
  have apart := recentOthersApart failures attempt.address attempt.checkedAt
  have keys := checkedKeys failures attempt.address attempt.checkedAt
  cases limited : (isRateLimited failures attempt.address attempt.checkedAt).1 with
  | true =>
    have present := limitedPresent limited
    rw [Finset.card_erase_of_mem present] at inside
    have positive := Finset.card_pos.mpr ⟨_,present⟩
    simp only [login,limited,if_true]
    rw [keys,Finset.card_insert_of_notMem apart]
    exact ⟨fun _ _ => by omega,fun _ => by omega⟩
  | false =>
    cases verdict : attempt.accepted with
    | true =>
      have smaller := Finset.card_erase_le (s := failures.keys) (a := attempt.address)
      simp only [login,limited,verdict,if_true,Bool.false_eq_true,if_false]
      rw [clearFailures,Table.removeKeys,keys,Finset.erase_insert apart]
      exact ⟨fun _ refused => by simp [verdict] at refused,fun _ => by omega⟩
    | false =>
      simp only [login,limited,verdict,Bool.false_eq_true,if_false]
      rw [neverEvicts,Table.insertKeys,keys,Finset.insert_idem,Finset.card_insert_of_notMem apart]
      simp [Roomy,verdict]

theorem serveSnoc (attempts : List (Attempt Address)) (attempt : Attempt Address) (failures : Failures Address) :
    serve (attempts ++ [attempt]) failures = (login (serve attempts failures) attempt).2 := by
  simp [serve]

/-- The failure table stays within its bound after every request of a run exactly when every request with wrong
credentials finds fewer than that many other addresses with a failure in the window before it. -/
theorem tableBoundedIff (attempts : List (Attempt Address)) :
    (∀ done rest, attempts = done ++ rest → (serve done .empty).keys.card ≤ maxFailureAddresses) ↔
    ∀ done attempt rest, attempts = done ++ attempt :: rest → Roomy (serve done .empty) attempt := by
  constructor
  · intro bounded done attempt rest same
    have before := bounded done (attempt :: rest) same
    have after := bounded (done ++ [attempt]) rest (by simp [same])
    rw [serveSnoc] at after
    exact (loginWithinIff attempt before).mp after
  · intro roomy done
    induction done using List.reverseRecOn with
    | nil => exact fun rest _ => Nat.zero_le _
    | append_singleton done attempt ih =>
      intro rest same
      have split : attempts = done ++ attempt :: rest := by simpa using same
      rw [serveSnoc]
      exact (loginWithinIff attempt (ih (attempt :: rest) split)).mpr (roomy done attempt rest split)

def distinctFailures (count : Nat) : List (Attempt Nat) := (List.range count).map (fun address => ⟨address,0,false,0,some 0⟩)

theorem distinctTable (count : Nat) : (serve (distinctFailures count) .empty).keys = Finset.range count ∧
    ∀ address < count, (serve (distinctFailures count) .empty).value address = [0] := by
  induction count with
  | zero => exact ⟨rfl,by simp⟩
  | succ count ih =>
    obtain ⟨keys,values⟩ := ih
    have next : distinctFailures (count + 1) = distinctFailures count ++ [⟨count,0,false,0,some 0⟩] := by
      simp [distinctFailures,List.range_succ]
    rw [next,serveSnoc]
    generalize serve (distinctFailures count) .empty = failures at keys values
    have fresh : failures.value count = [] := failures.absent count (by simp [keys])
    have unlimited : (isRateLimited failures count 0).1 = false := by
      simp [isRateLimited,fresh,recent,maxLoginFailures]
    have refused : (login failures ⟨count,0,false,0,some 0⟩).2 = (isRateLimited failures count 0).2.insert count [0] := by
      simp [login,unlimited,neverEvicts,fresh,recent]
    have others : recentOthers failures count 0 = Finset.range count := by
      ext other
      simp only [recentOthers,keys,Finset.mem_filter,Finset.mem_range]
      refine ⟨And.left,fun below => ⟨below,by omega,?_⟩⟩
      simp [values other below,recent]
    rw [refused]
    constructor
    · rw [Table.insertKeys,checkedKeys,others,Finset.insert_idem,Finset.range_add_one]
    · intro address below
      rw [Table.insertValue]
      by_cases same : address = count
      · rw [same,Function.update_self]
      · rw [Function.update_of_ne same,checkedValue,values address (by omega)]
        rfl

theorem manyAddressesKept : (serve (distinctFailures 10001) .empty).keys.card = 10001 ∧
    ¬ ∀ attempts : List (Attempt Nat), (serve attempts .empty).keys.card ≤ maxFailureAddresses := by
  have size : (serve (distinctFailures 10001) .empty).keys.card = 10001 := by
    rw [(distinctTable 10001).1,Finset.card_range]
  refine ⟨size,?_⟩
  intro bounded
  have within := bounded (distinctFailures 10001)
  rw [size] at within
  exact absurd within (by decide)

end Requests

section Sessions
variable {Token : Type} [DecidableEq Token]

structure Session where
  csrfToken : String
  expiresAt : Instant
  deriving DecidableEq, Repr, Inhabited

abbrev SessionTable (Token : Type) [DecidableEq Token] := Table Token Session

def unexpired (sessions : SessionTable Token) (now : Instant) : SessionTable Token :=
  sessions.retain id (fun session => now < session.expiresAt)

/- A full table loses the session that its iteration meets first, whether or not the token is new. -/
def createSession (sessions : SessionTable Token) (token : Token) (session : Session) (first : Option Token)
    (now : Instant) : SessionTable Token :=
  let sessions := unexpired sessions now
  let sessions := if maxSessions ≤ sessions.keys.card then first.elim sessions sessions.remove else sessions
  sessions.insert token session

def authenticate (sessions : SessionTable Token) (token : Token) (now : Instant) : Option Session × SessionTable Token :=
  let sessions := unexpired sessions now
  (if token ∈ sessions.keys then some (sessions.value token) else none,sessions)

def revoke (sessions : SessionTable Token) (token : Token) : SessionTable Token := sessions.remove token

inductive SessionRun : SessionTable Token → Prop where
  | new : SessionRun .empty
  | create {sessions first} (token : Token) (session : Session) (now : Instant) (before : SessionRun sessions)
      (iterates : ∀ oldest, first = some oldest → oldest ∈ (unexpired sessions now).keys)
      (found : first = none → (unexpired sessions now).keys = ∅) :
      SessionRun (createSession sessions token session first now)
  | authenticate {sessions} (token : Token) (now : Instant) (before : SessionRun sessions) :
      SessionRun (LoginLimiter.authenticate sessions token now).2
  | revoke {sessions} (token : Token) (before : SessionRun sessions) : SessionRun (LoginLimiter.revoke sessions token)

theorem unexpiredFewer (sessions : SessionTable Token) (now : Instant) :
    (unexpired sessions now).keys.card ≤ sessions.keys.card :=
  Finset.card_le_card (Finset.filter_subset _ _)

theorem createWithin {sessions : SessionTable Token} {first : Option Token} {now : Instant} (token : Token)
    (session : Session) (within : sessions.keys.card ≤ maxSessions)
    (iterates : ∀ oldest, first = some oldest → oldest ∈ (unexpired sessions now).keys)
    (found : first = none → (unexpired sessions now).keys = ∅) :
    (createSession sessions token session first now).keys.card ≤ maxSessions := by
  have left := (unexpiredFewer sessions now).trans within
  rw [createSession,Table.insertKeys]
  refine (Finset.card_insert_le token _).trans ?_
  split
  next full =>
    cases first with
    | none =>
      rw [found rfl,Finset.card_empty] at full
      exact absurd full (by decide)
    | some oldest =>
      have present := iterates oldest rfl
      have positive := Finset.card_pos.mpr ⟨oldest,present⟩
      rw [Option.elim,Table.removeKeys,Finset.card_erase_of_mem present]
      omega
  next roomy => omega

/-- Sessions are inserted in one place, which makes room first, so their table never grows past its bound. -/
theorem sessionsBounded {sessions : SessionTable Token} (run : SessionRun sessions) :
    sessions.keys.card ≤ maxSessions := by
  induction run with
  | new => exact Nat.zero_le _
  | create token session now before iterates found ih => exact createWithin token session ih iterates found
  | authenticate token now before ih => exact (unexpiredFewer _ now).trans ih
  | revoke token before ih => exact (Finset.card_erase_le).trans ih

end Sessions

end CloudberryEtl.LoginLimiter
