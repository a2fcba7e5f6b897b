import CloudberryEtl.Wire

/-! What the assembler makes of a stream: the accepted messages fall into blocks from a BEGIN to its COMMIT, every block
gives one transaction, and what follows the last block is either idle or an open transaction. -/
namespace CloudberryEtl.Assembly
open Change Result Wire

structure Fed where
  events : List AssembledEvent
  assembler : TransactionAssembler
  accepted : List DecodedMessage

def feedFrom (fed : Fed) : List DecodedMessage → Fed
  | [] => fed
  | message :: rest =>
    match fed.assembler.push message with
    | .error _ => fed
    | .ok (event,assembler) => feedFrom ⟨fed.events ++ event.toList,assembler,fed.accepted ++ [message]⟩ rest

def feed (assembler : TransactionAssembler) (messages : List DecodedMessage) : Fed := feedFrom ⟨[],assembler,[]⟩ messages

def committed? : AssembledEvent → Option CommittedTransaction
  | .transaction committed => some committed
  | .keepalive .. => none

def isBracket : DecodedMessage → Bool
  | .begin' .. | .commit .. => true
  | _ => false

def Idle (messages : List DecodedMessage) : Prop :=
  ∀ message ∈ messages, isBracket message = false ∧ message.toTransactionChange = none

def repeatedAt (changes : List TransactionChange) (index : Nat) : TransactionChange → Bool
  | .ddl message => .ddl message ∈ changes.take index
  | _ => false

/- The changes without the DDL messages that are equal to an earlier one. -/
def firstChanges (changes : List TransactionChange) : List TransactionChange :=
  (changes.zipIdx.filter (fun (change,index) => !repeatedAt changes index change)).map Prod.fst

structure Opening where
  idle : List DecodedMessage
  finalLsn : PgLsn
  timestamp : Int
  xid : Nat
  body : List DecodedMessage
  quiet : Idle idle
  inner : ∀ message ∈ body, isBracket message = false

def Opening.messages (opening : Opening) : List DecodedMessage :=
  opening.idle ++ .begin' opening.finalLsn opening.timestamp opening.xid :: opening.body

def Opening.changes (opening : Opening) : List TransactionChange :=
  firstChanges (opening.body.filterMap DecodedMessage.toTransactionChange)

structure Block where
  opening : Opening
  commitLsn : PgLsn
  endLsn : PgLsn
  commitTime : Int

def Block.messages (block : Block) : List DecodedMessage :=
  block.opening.messages ++ [.commit block.commitLsn block.endLsn block.commitTime 0]

def Block.transaction (identity : SourceNodeIdentity) (block : Block) : CommittedTransaction :=
  ⟨⟨block.opening.xid,block.commitTime,identity.position block.endLsn,block.opening.changes⟩,block.commitLsn⟩

inductive Rest where
  | idle (messages : List DecodedMessage) (quiet : Idle messages)
  | opened (opening : Opening)

def Rest.messages : Rest → List DecodedMessage
  | .idle messages _ => messages
  | .opened opening => opening.messages

def bytesOf (changes : List TransactionChange) : Nat := min (changes.map transactionChangeBytes).sum usizeMax

def Rest.pending : Rest → Option PendingTransaction
  | .idle _ _ => none
  | .opened opening => some ⟨opening.xid,opening.finalLsn,opening.timestamp,opening.changes,bytesOf opening.changes⟩

/-- The pending transaction that a first error leaves: a COMMIT refused for the LSN or the time of its own transaction
has taken it, every other error leaves what was held. -/
inductive Leaves (held : Option PendingTransaction) : DecodedMessage → SourceError → Option PendingTransaction → Prop where
  | taken {commitLsn endLsn timestamp flags xid error} (opened : held.isSome)
      (refused : error = .beginsAfterCommit xid ∨ error = .commitTimePrecedesBegin xid) :
      Leaves held (.commit commitLsn endLsn timestamp flags) error none
  | kept {message error} (apart : ∀ xid, error ≠ .beginsAfterCommit xid ∧ error ≠ .commitTimePrecedesBegin xid) :
      Leaves held message error held

structure Reads (identity : SourceNodeIdentity) (limits : TransactionLimits) (fed : Fed) (blocks : List Block)
    (rest : Rest) : Prop where
  sameIdentity : fed.assembler.identity = identity
  sameLimits : fed.assembler.limits = limits
  accepted : fed.accepted = blocks.flatMap Block.messages ++ rest.messages
  emitted : fed.events.filterMap committed? = blocks.map (Block.transaction identity)
  pending : fed.assembler.pending = rest.pending
  last : fed.assembler.lastCommitLsn = blocks.getLast?.map Block.endLsn
  ordered : blocks.Pairwise (fun a b => a.endLsn ≤ b.endLsn)
  bounded : ∀ pending, fed.assembler.pending = some pending →
    pending.changes.length ≤ limits.maxChanges ∧ pending.bufferedBytes ≤ limits.maxBytes

theorem firstChangesSnoc (changes : List TransactionChange) (change : TransactionChange) :
    firstChanges (changes ++ [change]) =
      firstChanges changes ++ if repeatedAt changes changes.length change then [] else [change] := by
  have before : changes.zipIdx.filter (fun (other,index) => !repeatedAt (changes ++ [change]) index other) =
      changes.zipIdx.filter (fun (other,index) => !repeatedAt changes index other) := by
    refine List.filter_congr ?_
    intro ⟨other,index⟩ mem
    have bound := List.snd_lt_of_mem_zipIdx mem
    have same : (changes ++ [change]).take index = changes.take index := by
      rw [List.take_append_of_le_length]
      simp only at bound
      omega
    cases other <;> simp [repeatedAt,same]
  have here : repeatedAt (changes ++ [change]) changes.length change = repeatedAt changes changes.length change := by
    cases change <;> simp [repeatedAt]
  unfold firstChanges
  rw [List.zipIdx_append,List.filter_append,List.map_append,before]
  refine congrArg (_ ++ ·) ?_
  cases repeated : repeatedAt changes changes.length change <;> simp [here,repeated]

theorem memFirstChanges (changes : List TransactionChange) (message : DdlMessage) :
    .ddl message ∈ firstChanges changes ↔ .ddl message ∈ changes := by
  induction changes using List.reverseRecOn with
  | nil => simp [firstChanges]
  | append_singleton changes change ih =>
    rw [firstChangesSnoc,List.mem_append,List.mem_append,ih]
    cases change with
    | ddl other =>
      by_cases known : .ddl other ∈ changes
      · simp only [repeatedAt,List.take_length,known,decide_true,if_true,List.not_mem_nil,or_false]
        constructor
        · exact .inl
        · intro here
          rcases here with before | same
          · exact before
          · rw [List.mem_singleton.mp same]
            exact known
      · simp [repeatedAt,known]
    | row change => simp [repeatedAt]
    | truncate => simp [repeatedAt]

theorem firstChangesSubset (changes : List TransactionChange) : firstChanges changes ⊆ changes := by
  intro change mem
  obtain ⟨⟨_,index⟩,kept,rfl⟩ := List.mem_map.mp mem
  exact List.fst_mem_of_mem_zipIdx (List.mem_of_mem_filter kept)

theorem repeatedKept (pending : PendingTransaction) (changes : List TransactionChange) (change : TransactionChange)
    (kept : pending.changes = firstChanges changes) :
    TransactionAssembler.repeatedDdl pending change = repeatedAt changes changes.length change := by
  cases change <;> simp [TransactionAssembler.repeatedDdl,repeatedAt,kept,memFirstChanges]

theorem bytesSnoc (changes : List TransactionChange) (change : TransactionChange) :
    saturatingAdd (bytesOf changes) (transactionChangeBytes change) = bytesOf (changes ++ [change]) := by
  simp only [saturatingAdd,bytesOf,List.map_append,List.sum_append,List.map_cons,List.map_nil,List.sum_singleton]
  omega

def Opening.extend (opening : Opening) (message : DecodedMessage) (inner : isBracket message = false) : Opening :=
  {opening with
    body := opening.body ++ [message]
    inner := by
      intro other mem
      rcases List.mem_append.mp mem with before | here
      · exact opening.inner other before
      · exact List.mem_singleton.mp here ▸ inner}

theorem extendMessages (opening : Opening) (message : DecodedMessage) (inner : isBracket message = false) :
    (opening.extend message inner).messages = opening.messages ++ [message] := by
  simp [Opening.messages,Opening.extend]

theorem extendQuiet (opening : Opening) (message : DecodedMessage) (inner : isBracket message = false)
    (quiet : message.toTransactionChange = none) : (opening.extend message inner).changes = opening.changes := by
  simp [Opening.changes,Opening.extend,quiet]

theorem extendChange (opening : Opening) (message : DecodedMessage) (inner : isBracket message = false) {change}
    (given : message.toTransactionChange = some change) : (opening.extend message inner).changes =
      opening.changes ++ if repeatedAt (opening.body.filterMap DecodedMessage.toTransactionChange)
        (opening.body.filterMap DecodedMessage.toTransactionChange).length change then [] else [change] := by
  simp only [Opening.changes,Opening.extend,List.filterMap_append,List.filterMap_cons,given,List.filterMap_nil,
    firstChangesSnoc]

theorem acceptedRelation {assembler next : TransactionAssembler} {relation}
    (ok : assembler.acceptRelation relation = .ok next) :
    next = TransactionAssembler.acceptRelation.accept assembler relation := by
  obtain ⟨_,ok⟩ := iteOk.mp ok
  split at ok
  · exact (Except.ok.inj (iteOk.mp ok).2).symm
  · exact (Except.ok.inj ok).symm

section Steps
variable {identity : SourceNodeIdentity} {limits : TransactionLimits} {fed : Fed} {blocks : List Block} {rest : Rest}
  (reads : Reads identity limits fed blocks rest)
include reads

theorem quietReads {message : DecodedMessage} {event : Option AssembledEvent} {assembler : TransactionAssembler} (inner : isBracket message = false)
    (quiet : message.toTransactionChange = none) (events : event.toList.filterMap committed? = [])
    (sameIdentity : assembler.identity = fed.assembler.identity) (sameLimits : assembler.limits = fed.assembler.limits)
    (pending : assembler.pending = fed.assembler.pending)
    (last : assembler.lastCommitLsn = fed.assembler.lastCommitLsn) :
    ∃ rest, Reads identity limits ⟨fed.events ++ event.toList,assembler,fed.accepted ++ [message]⟩ blocks rest := by
  have emitted : (fed.events ++ event.toList).filterMap committed? = blocks.map (Block.transaction identity) := by
    rw [List.filterMap_append,events,List.append_nil,reads.emitted]
  cases rest with
  | idle messages idle =>
    have longer : Idle (messages ++ [message]) := by
      intro other mem
      rcases List.mem_append.mp mem with before | here
      · exact idle other before
      · rw [List.mem_singleton.mp here]
        exact ⟨inner,quiet⟩
    exact ⟨.idle (messages ++ [message]) longer,sameIdentity.trans reads.sameIdentity,sameLimits.trans reads.sameLimits,
      by simp [reads.accepted,Rest.messages],emitted,pending.trans reads.pending,last.trans reads.last,reads.ordered,
      fun held same => reads.bounded held (pending ▸ same)⟩
  | opened opening =>
    refine ⟨.opened (opening.extend message inner),sameIdentity.trans reads.sameIdentity,
      sameLimits.trans reads.sameLimits,?_,emitted,?_,last.trans reads.last,reads.ordered,
      fun held same => reads.bounded held (pending ▸ same)⟩
    · simp [reads.accepted,Rest.messages,extendMessages]
    · rw [pending,reads.pending,Rest.pending,Rest.pending,extendQuiet opening message inner quiet]
      rfl

theorem beginReads {finalLsn timestamp xid assembler}
    (ok : fed.assembler.begin' finalLsn timestamp xid = .ok assembler) :
    ∃ rest, Reads identity limits ⟨fed.events,assembler,fed.accepted ++ [.begin' finalLsn timestamp xid]⟩ blocks rest := by
  obtain ⟨closed,ok⟩ := iteOk.mp ok
  have opened : assembler = TransactionAssembler.begin'.opened finalLsn timestamp xid fed.assembler := by
    split at ok
    · exact (Except.ok.inj (iteOk.mp ok).2).symm
    · exact (Except.ok.inj ok).symm
  cases rest with
  | opened opening => simp [reads.pending,Rest.pending] at closed
  | idle messages idle =>
    subst opened
    refine ⟨.opened ⟨messages,finalLsn,timestamp,xid,[],idle,by simp⟩,reads.sameIdentity,reads.sameLimits,?_,
      reads.emitted,?_,reads.last,reads.ordered,?_⟩
    · simp [reads.accepted,Rest.messages,Opening.messages]
    · simp [TransactionAssembler.begin'.opened,Rest.pending,Opening.changes,firstChanges,bytesOf]
    · intro held same
      cases Option.some.inj same
      simp

theorem bufferReads {message : DecodedMessage} {change assembler} (inner : isBracket message = false)
    (given : message.toTransactionChange = some change) (ok : fed.assembler.buffer change = .ok assembler) :
    ∃ rest, Reads identity limits ⟨fed.events,assembler,fed.accepted ++ [message]⟩ blocks rest := by
  cases rest with
  | idle messages idle =>
    simp only [TransactionAssembler.buffer,reads.pending,Rest.pending] at ok
    contradiction
  | opened opening =>
    have held := reads.bounded _ reads.pending
    simp only [TransactionAssembler.buffer,reads.pending,Rest.pending] at ok held
    obtain ⟨_,_,ok⟩ := bindOk.mp ok
    have grown := extendChange opening message inner given
    have same := repeatedKept ⟨opening.xid,opening.finalLsn,opening.timestamp,opening.changes,bytesOf opening.changes⟩
      (opening.body.filterMap DecodedMessage.toTransactionChange) change rfl
    rw [same] at ok
    split at ok
    next repeated =>
      cases Except.ok.inj ok
      rw [if_pos repeated,List.append_nil] at grown
      refine ⟨.opened (opening.extend message inner),reads.sameIdentity,reads.sameLimits,?_,reads.emitted,?_,reads.last,
        reads.ordered,reads.bounded⟩
      · simp [reads.accepted,Rest.messages,extendMessages]
      · rw [reads.pending,Rest.pending,Rest.pending,grown]
        rfl
    next fresh =>
      obtain ⟨few,ok⟩ := iteOk.mp ok
      obtain ⟨small,ok⟩ := iteOk.mp ok
      cases Except.ok.inj ok
      rw [if_neg fresh] at grown
      rw [reads.sameLimits] at few small
      refine ⟨.opened (opening.extend message inner),reads.sameIdentity,reads.sameLimits,?_,reads.emitted,?_,reads.last,
        reads.ordered,?_⟩
      · simp [reads.accepted,Rest.messages,extendMessages]
      · rw [Rest.pending,grown,bytesSnoc]
        rfl
      · intro pending here
        cases Option.some.inj here
        constructor
        · rw [List.length_append,List.length_singleton]
          omega
        · exact Nat.le_of_not_lt small

theorem endsBehind {endLsn block} (behind : fed.assembler.behindLast endLsn = .ok ()) (mem : block ∈ blocks) :
    block.endLsn ≤ endLsn := by
  have ordered := reads.ordered
  have last := reads.last
  unfold TransactionAssembler.behindLast at behind
  induction blocks using List.reverseRecOn with
  | nil => contradiction
  | append_singleton earlier final _ =>
    simp only [List.getLast?_append,List.getLast?_singleton,Option.some_or,Option.map_some] at last
    rw [last] at behind
    have final_le : final.endLsn ≤ endLsn := Nat.le_of_not_lt (iteOk.mp behind).1
    rcases List.mem_append.mp mem with before | here
    · exact Nat.le_trans ((List.pairwise_append.mp ordered).2.2 block before final (by simp)) final_le
    · exact List.mem_singleton.mp here ▸ final_le

theorem commitReads {commitLsn endLsn timestamp flags committed assembler}
    (ok : fed.assembler.commit commitLsn endLsn timestamp flags = .ok (committed,assembler)) :
    ∃ blocks rest, Reads identity limits
      ⟨fed.events ++ [.transaction committed],assembler,fed.accepted ++ [.commit commitLsn endLsn timestamp flags]⟩
      blocks rest := by
  obtain ⟨plain,ok⟩ := iteOk.mp ok
  obtain ⟨_,ok⟩ := iteOk.mp ok
  obtain ⟨_,behind,ok⟩ := bindOk.mp ok
  cases rest with
  | idle messages idle =>
    simp only [reads.pending,Rest.pending] at ok
    contradiction
  | opened opening =>
    simp only [reads.pending,Rest.pending] at ok
    obtain ⟨_,ok⟩ := iteOk.mp ok
    obtain ⟨_,ok⟩ := iteOk.mp ok
    obtain ⟨rfl,rfl⟩ := Prod.mk.inj (Except.ok.inj ok)
    have noFlags : flags = 0 := not_not.mp plain
    subst noFlags
    refine ⟨blocks ++ [⟨opening,commitLsn,endLsn,timestamp⟩],.idle [] (by simp [Idle]),reads.sameIdentity,
      reads.sameLimits,?_,?_,rfl,by simp,?_,by simp⟩
    · simp [reads.accepted,Rest.messages,Block.messages]
    · simp [reads.emitted,committed?,Block.transaction,reads.sameIdentity]
    · refine List.pairwise_append.mpr ⟨reads.ordered,List.pairwise_singleton _ _,?_⟩
      intro block mem next here
      rw [List.mem_singleton.mp here]
      exact endsBehind reads behind mem

theorem pushReads {message event assembler} (ok : fed.assembler.push message = .ok (event,assembler)) :
    ∃ blocks rest,
      Reads identity limits ⟨fed.events ++ event.toList,assembler,fed.accepted ++ [message]⟩ blocks rest := by
  cases message with
  | keepalive walEnd timestampMicros replyRequested =>
    obtain ⟨rfl,rfl⟩ := Prod.mk.inj (Except.ok.inj ok)
    exact ⟨blocks,quietReads reads rfl rfl rfl rfl rfl rfl rfl⟩
  | type typeEvent =>
    obtain ⟨rfl,rfl⟩ := Prod.mk.inj (Except.ok.inj ok)
    exact ⟨blocks,quietReads reads rfl rfl rfl rfl rfl rfl rfl⟩
  | relation relation =>
    obtain ⟨next,accepted,ok⟩ := bindOk.mp ok
    obtain ⟨rfl,rfl⟩ := Prod.mk.inj (Except.ok.inj ok)
    obtain rfl := acceptedRelation accepted
    exact ⟨blocks,quietReads reads rfl rfl rfl rfl rfl rfl rfl⟩
  | begin' finalLsn timestamp xid =>
    obtain ⟨next,opened,ok⟩ := bindOk.mp ok
    obtain ⟨rfl,rfl⟩ := Prod.mk.inj (Except.ok.inj ok)
    simpa using ⟨blocks,beginReads reads opened⟩
  | commit commitLsn endLsn timestamp flags =>
    obtain ⟨⟨committed,next⟩,closed,ok⟩ := bindOk.mp ok
    obtain ⟨rfl,rfl⟩ := Prod.mk.inj (Except.ok.inj ok)
    exact commitReads reads closed
  | insert | update | delete | truncate | ddl =>
    obtain ⟨next,buffered,ok⟩ := bindOk.mp ok
    obtain ⟨rfl,rfl⟩ := Prod.mk.inj (Except.ok.inj ok)
    simpa using ⟨blocks,bufferReads reads rfl rfl buffered⟩

end Steps

theorem feedFromReads {identity limits} (messages : List DecodedMessage) : ∀ {fed blocks rest},
    Reads identity limits fed blocks rest → ∃ blocks rest, Reads identity limits (feedFrom fed messages) blocks rest := by
  induction messages with
  | nil =>
    intro fed blocks rest reads
    exact ⟨blocks,rest,reads⟩
  | cons message messages ih =>
    intro fed blocks rest reads
    unfold feedFrom
    split
    · exact ⟨blocks,rest,reads⟩
    next event assembler ok =>
      obtain ⟨blocks,rest,reads⟩ := pushReads reads ok
      exact ih reads

theorem feedFromStops (messages : List DecodedMessage) : ∀ fed, ∃ refused,
    fed.accepted ++ messages = (feedFrom fed messages).accepted ++ refused ∧
      ∀ message, refused.head? = some message → ∃ error, (feedFrom fed messages).assembler.push message = .error error := by
  induction messages with
  | nil =>
    intro fed
    exact ⟨[],rfl,by simp⟩
  | cons message messages ih =>
    intro fed
    unfold feedFrom
    split
    next error failed =>
      refine ⟨message :: messages,rfl,?_⟩
      intro other here
      cases Option.some.inj here
      exact ⟨error,failed⟩
    next event assembler ok =>
      obtain ⟨refused,split,stops⟩ := ih ⟨fed.events ++ event.toList,assembler,fed.accepted ++ [message]⟩
      exact ⟨refused,by simpa using split,stops⟩

theorem startReads {identity limits start} (made : TransactionAssembler.withLimits identity limits = .ok start) :
    Reads identity limits ⟨[],start,[]⟩ [] (.idle [] (by simp [Idle])) := by
  cases Except.ok.inj (iteOk.mp made).2
  exact ⟨rfl,rfl,rfl,rfl,rfl,rfl,.nil,by simp⟩

theorem summedBytes {identity limits fed blocks rest} (reads : Reads identity limits fed blocks rest) {pending}
    (here : fed.assembler.pending = some pending) : pending.bufferedBytes = bytesOf pending.changes := by
  rw [reads.pending] at here
  cases rest with
  | idle messages quiet => contradiction
  | opened opening =>
    cases Option.some.inj here
    rfl

section Refusals
variable {assembler left : TransactionAssembler} {error : SourceError}

theorem relationRefused {relation} (failed : assembler.acceptRelation relation = .error (error,left)) :
    left = assembler ∧ ∀ xid, error ≠ .beginsAfterCommit xid ∧ error ≠ .commitTimePrecedesBegin xid := by
  unfold TransactionAssembler.acceptRelation at failed
  split at failed
  · cases failed
    simp
  · split at failed <;> try contradiction
    split at failed <;> try contradiction
    cases failed
    simp

theorem beginRefused {finalLsn timestamp xid} (failed : assembler.begin' finalLsn timestamp xid = .error (error,left)) :
    left = assembler ∧ ∀ xid, error ≠ .beginsAfterCommit xid ∧ error ≠ .commitTimePrecedesBegin xid := by
  unfold TransactionAssembler.begin' at failed
  split at failed
  · cases failed
    simp
  · split at failed <;> try contradiction
    split at failed <;> try contradiction
    cases failed
    simp

theorem bufferRefused {change} (failed : assembler.buffer change = .error (error,left)) :
    left = assembler ∧ ∀ xid, error ≠ .beginsAfterCommit xid ∧ error ≠ .commitTimePrecedesBegin xid := by
  unfold TransactionAssembler.buffer at failed
  split at failed
  · cases failed
    simp
  · rcases bindError failed with stale | ⟨_,_,failed⟩
    · unfold TransactionAssembler.generationCurrent at stale
      split at stale <;> try contradiction
      split at stale <;> try contradiction
      cases stale
      simp
    · split at failed <;> try contradiction
      split at failed
      · cases failed
        simp
      · simp only at failed
        split at failed <;> try contradiction
        cases failed
        simp

theorem commitRefused {commitLsn endLsn timestamp flags}
    (failed : assembler.commit commitLsn endLsn timestamp flags = .error (error,left)) :
    ∃ pending, left = {assembler with pending := pending} ∧
      Leaves assembler.pending (.commit commitLsn endLsn timestamp flags) error pending := by
  unfold TransactionAssembler.commit at failed
  split at failed
  · cases failed
    exact ⟨_,rfl,.kept (by simp)⟩
  split at failed
  · cases failed
    exact ⟨_,rfl,.kept (by simp)⟩
  rcases bindError failed with behind | ⟨_,_,failed⟩
  · unfold TransactionAssembler.behindLast at behind
    split at behind <;> try contradiction
    split at behind <;> try contradiction
    cases behind
    exact ⟨_,rfl,.kept (by simp)⟩
  cases held : assembler.pending with
  | none =>
    simp only [held] at failed
    cases failed
    exact ⟨_,by rw [← held],.kept (by simp)⟩
  | some pending =>
    simp only [held] at failed
    split at failed
    · cases failed
      exact ⟨none,rfl,.taken rfl (.inl rfl)⟩
    · split at failed <;> try contradiction
      cases failed
      exact ⟨none,rfl,.taken rfl (.inr rfl)⟩

theorem pushRefused {message} (failed : assembler.push message = .error (error,left)) :
    ∃ pending, left = {assembler with pending := pending} ∧ Leaves assembler.pending message error pending := by
  cases message with
  | keepalive => contradiction
  | type => contradiction
  | relation relation =>
    rcases bindError failed with failed | ⟨_,_,failed⟩
    · obtain ⟨rfl,apart⟩ := relationRefused failed
      exact ⟨_,rfl,.kept apart⟩
    · contradiction
  | begin' finalLsn timestamp xid =>
    rcases bindError failed with failed | ⟨_,_,failed⟩
    · obtain ⟨rfl,apart⟩ := beginRefused failed
      exact ⟨_,rfl,.kept apart⟩
    · contradiction
  | commit commitLsn endLsn timestamp flags =>
    rcases bindError failed with failed | ⟨_,_,failed⟩
    · exact commitRefused failed
    · contradiction
  | insert | update | delete | truncate | ddl =>
    rcases bindError failed with failed | ⟨_,_,failed⟩
    · obtain ⟨rfl,apart⟩ := bufferRefused failed
      exact ⟨_,rfl,.kept apart⟩
    · contradiction

theorem finishClosed : assembler.finish = .ok () ↔ assembler.pending = none := by
  unfold TransactionAssembler.finish
  cases assembler.pending <;> simp

end Refusals

theorem finishIdle {identity limits fed blocks rest} (reads : Reads identity limits fed blocks rest) :
    fed.assembler.finish = .ok () ↔ ∃ messages quiet, rest = .idle messages quiet := by
  rw [finishClosed,reads.pending]
  cases rest with
  | idle messages quiet => simpa [Rest.pending] using quiet
  | opened opening => simp [Rest.pending]

/-- For every stream: what was accepted is a sequence of blocks and a rest, the transactions are those of the blocks, end
LSNs do not decrease, what is held belongs to the rest and keeps both limits, a type or keepalive message leaves the
state, and `finish` succeeds exactly when the rest has no open BEGIN. The first error changes nothing, save that a COMMIT
may have taken its transaction, and `finish` then succeeds exactly when none is held. -/
theorem assembledExactly {identity : SourceNodeIdentity} {limits : TransactionLimits} {start : TransactionAssembler}
    (made : TransactionAssembler.withLimits identity limits = .ok start) (messages : List DecodedMessage) :
    ∃ (blocks : List Block) (rest : Rest) (refused : List DecodedMessage),
      messages = (feed start messages).accepted ++ refused ∧
      (∀ message, refused.head? = some message → ∃ error left pending,
        (feed start messages).assembler.push message = .error (error,left) ∧
        left = {(feed start messages).assembler with pending := pending} ∧ Leaves rest.pending message error pending ∧
        (left.finish = .ok () ↔ pending = none)) ∧
      (feed start messages).accepted = blocks.flatMap Block.messages ++ rest.messages ∧
      (feed start messages).events.filterMap committed? = blocks.map (Block.transaction identity) ∧
      blocks.Pairwise (fun a b => a.endLsn ≤ b.endLsn) ∧
      (feed start messages).assembler.pending = rest.pending ∧
      (∀ pending, (feed start messages).assembler.pending = some pending →
        pending.changes.length ≤ limits.maxChanges ∧ pending.bufferedBytes ≤ limits.maxBytes ∧
        (limits.maxBytes < usizeMax → (pending.changes.map transactionChangeBytes).sum ≤ limits.maxBytes)) ∧
      (∀ event, (feed start messages).assembler.push (.type event) = .ok (none,(feed start messages).assembler)) ∧
      (∀ walEnd timestampMicros replyRequested,
        (feed start messages).assembler.push (.keepalive walEnd timestampMicros replyRequested) =
          .ok (some (.keepalive walEnd timestampMicros replyRequested),(feed start messages).assembler)) ∧
      ((feed start messages).assembler.finish = .ok () ↔ ∃ idle quiet, rest = .idle idle quiet) := by
  obtain ⟨blocks,rest,reads⟩ := feedFromReads messages (startReads made)
  obtain ⟨refused,split,stops⟩ := feedFromStops messages ⟨[],start,[]⟩
  refine ⟨blocks,rest,refused,split,?_,reads.accepted,reads.emitted,reads.ordered,reads.pending,?_,
    fun _ => rfl,fun _ _ _ => rfl,finishIdle reads⟩
  · intro message first
    obtain ⟨⟨error,left⟩,failed⟩ := stops message first
    obtain ⟨pending,rfl,leaves⟩ := pushRefused failed
    exact ⟨error,_,pending,failed,rfl,reads.pending ▸ leaves,finishClosed⟩
  intro pending here
  obtain ⟨few,small⟩ := reads.bounded pending here
  refine ⟨few,small,?_⟩
  intro below
  have counted := summedBytes reads here
  rw [counted,bytesOf] at small
  omega

def sampleNode : SourceNodeIdentity := ⟨1,7,1⟩

def sampleDdl : DdlMessage := ⟨1,"ALTER TABLE",[42],["public"],"abc"⟩

def sampleStream : List DecodedMessage :=
  [.relation ⟨42,"public","items",1,.default,[]⟩,.begin' 10 1 11,.insert 42 1 ⟨[.text [49]]⟩,.ddl sampleDdl,
   .keepalive 12 1 true,.ddl sampleDdl,.commit 20 21 2 0,.begin' 22 3 12]

theorem sampleAssembled : ∃ (start : TransactionAssembler) (blocks : List Block),
    (feed start sampleStream).accepted = sampleStream ∧ blocks.map (Block.transaction sampleNode) =
      [⟨⟨11,2,sampleNode.position 21,[.row ⟨42,1,.insert ⟨[.text [49]]⟩⟩,.ddl sampleDdl]⟩,20⟩] ∧
    (feed start sampleStream).assembler.finish ≠ .ok () := by
  obtain ⟨blocks,rest,refused,_,_,_,emitted,_⟩ :=
    @assembledExactly sampleNode ⟨10,100⟩ ⟨sampleNode,⟨10,100⟩,none,none,fun _ => none⟩ rfl sampleStream
  exact ⟨⟨sampleNode,⟨10,100⟩,none,none,fun _ => none⟩,blocks,by decide,emitted.symm.trans (by decide),by decide⟩

end CloudberryEtl.Assembly
