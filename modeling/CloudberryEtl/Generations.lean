import CloudberryEtl.Decoder
import CloudberryEtl.Assembly

/-! What the generations of a stream say. The generation of a row message is the number of shapes that its relation has
shown up to there, neighbours that are equal counted once, and the assembler has the generations of the decoder. -/
namespace CloudberryEtl.Generations
open Change Result Wire Decoder Assembly Adapter Batch

structure Streamed where
  decoder : TransactionDecoder
  assembler : TransactionAssembler
  decoded : List DecodedMessage
  events : List AssembledEvent

def streamFrom (libraries : Libraries) (streamed : Streamed) : List ReplicationMessage → Streamed
  | [] => streamed
  | message :: rest =>
    match receive libraries streamed.decoder message with
    | .error _ => streamed
    | .ok (decoded,decoder) =>
      match streamed.assembler.push decoded with
      | .error _ => streamed
      | .ok (event,assembler) =>
        streamFrom libraries ⟨decoder,assembler,streamed.decoded ++ [decoded],streamed.events ++ event.toList⟩ rest

def stream (libraries : Libraries) (assembler : TransactionAssembler) (messages : List ReplicationMessage) : Streamed :=
  streamFrom libraries ⟨.new,assembler,[],[]⟩ messages

def relationEvents (relationId : Nat) (decoded : List DecodedMessage) : List RelationEvent :=
  (decoded.filterMap relationEvent?).filter (fun event => event.relationId = relationId)

def Follows (previous event : RelationEvent) : Prop :=
  event.generation = if shapeOf previous = shapeOf event then previous.generation else previous.generation + 1

structure Kept (streamed : Streamed) : Prop where
  relations : ∀ relationId, streamed.decoder.relations relationId = (relationEvents relationId streamed.decoded).getLast?
  generations : ∀ relationId, streamed.assembler.relationGenerations relationId =
    (streamed.decoder.relations relationId).map RelationEvent.generation
  first : ∀ relationId event, (relationEvents relationId streamed.decoded).head? = some event → event.generation = 1
  chain : ∀ relationId, (relationEvents relationId streamed.decoded).IsChain Follows
  rows : ∀ before message after, streamed.decoded = before ++ message :: after → ∀ relationId generation,
    rowKey? message = some (relationId,generation) →
      ∃ current, (relationEvents relationId before).getLast? = some current ∧ current.generation = generation

theorem relationEventsAppend (relationId : Nat) (before after : List DecodedMessage) :
    relationEvents relationId (before ++ after) = relationEvents relationId before ++ relationEvents relationId after := by
  simp [relationEvents]

theorem relationEventsQuiet {relationId : Nat} {message : DecodedMessage} (quiet : relationEvent? message = none) :
    relationEvents relationId [message] = [] := by
  simp [relationEvents,quiet]

theorem relationEventsRelation (relationId : Nat) (event : RelationEvent) :
    relationEvents relationId [.relation event] = if event.relationId = relationId then [event] else [] := by
  by_cases same : event.relationId = relationId <;> simp [relationEvents,relationEvent?,same]

theorem rowKeyNoRelation {message key} (row : rowKey? message = some key) : relationEvent? message = none := by
  cases message <;> first | rfl | contradiction

theorem rowChangeKey {message change} (given : message.toTransactionChange = some (.row change)) :
    rowKey? message = some (changeKey change) := by
  cases message <;> simp only [DecodedMessage.toTransactionChange,Option.some.injEq,TransactionChange.row.injEq,
    reduceCtorEq] at given
  all_goals
    subst given
    rfl

theorem chainGeneration (later : List RelationEvent) : ∀ {current latest}, (current :: later).IsChain Follows →
    (current :: later).getLast? = some latest →
      current.generation ≤ latest.generation ∧
        (current.generation = latest.generation ↔ ∀ event ∈ later, shapeOf event = shapeOf current) := by
  induction later with
  | nil =>
    intro current latest _ last
    cases Option.some.inj last
    simp
  | cons event later ih =>
    intro current latest chain last
    obtain ⟨follows,chain⟩ := List.isChain_cons_cons.mp chain
    obtain ⟨grown,stays⟩ := ih chain (by simpa using last)
    unfold Follows at follows
    rw [List.forall_mem_cons]
    split at follows
    next same =>
      rw [follows] at grown stays
      refine ⟨grown,stays.trans ?_⟩
      simp [same]
    next other =>
      constructor
      · omega
      · constructor
        · intro equal
          omega
        · intro ⟨same,_⟩
          exact absurd same.symm other

theorem generationsOrdered (events : List RelationEvent) (chain : events.IsChain Follows) :
    events.Pairwise (fun a b => a.generation ≤ b.generation) := by
  refine List.isChain_iff_pairwise.mp (chain.imp ?_)
  intro previous event follows
  rw [follows]
  split <;> omega

theorem bufferGenerations {assembler next : TransactionAssembler} {change} (ok : assembler.buffer change = .ok next) :
    next.relationGenerations = assembler.relationGenerations := by
  unfold TransactionAssembler.buffer at ok
  split at ok
  · contradiction
  obtain ⟨_,_,ok⟩ := bindOk.mp ok
  split at ok
  · exact Except.ok.inj ok ▸ rfl
  · obtain ⟨_,ok⟩ := iteOk.mp ok
    obtain ⟨_,ok⟩ := iteOk.mp ok
    exact Except.ok.inj ok ▸ rfl

theorem pushGenerations {message event} {assembler next : TransactionAssembler} (quiet : relationEvent? message = none)
    (ok : assembler.push message = .ok (event,next)) : next.relationGenerations = assembler.relationGenerations := by
  cases message with
  | relation => contradiction
  | keepalive =>
    obtain ⟨_,rfl⟩ := Prod.mk.inj (Except.ok.inj ok)
    rfl
  | type =>
    obtain ⟨_,rfl⟩ := Prod.mk.inj (Except.ok.inj ok)
    rfl
  | begin' =>
    obtain ⟨opened,begun,ok⟩ := bindOk.mp ok
    obtain ⟨_,rfl⟩ := Prod.mk.inj (Except.ok.inj ok)
    obtain ⟨_,begun⟩ := iteOk.mp begun
    split at begun
    · exact Except.ok.inj (iteOk.mp begun).2 ▸ rfl
    · exact Except.ok.inj begun ▸ rfl
  | commit =>
    obtain ⟨_,closed,ok⟩ := bindOk.mp ok
    obtain ⟨_,rfl⟩ := Prod.mk.inj (Except.ok.inj ok)
    obtain ⟨_,closed⟩ := iteOk.mp closed
    obtain ⟨_,closed⟩ := iteOk.mp closed
    obtain ⟨_,_,closed⟩ := bindOk.mp closed
    split at closed
    · contradiction
    · obtain ⟨_,closed⟩ := iteOk.mp closed
      obtain ⟨_,closed⟩ := iteOk.mp closed
      exact Except.ok.inj closed ▸ rfl
  | insert | update | delete | truncate | ddl =>
    obtain ⟨_,buffered,ok⟩ := bindOk.mp ok
    obtain ⟨_,rfl⟩ := Prod.mk.inj (Except.ok.inj ok)
    exact bufferGenerations buffered

section Step
variable {streamed : Streamed} (kept : Kept streamed)
include kept

theorem rowsSnoc {message : DecodedMessage}
    (here : ∀ relationId generation, rowKey? message = some (relationId,generation) →
      ∃ current, (relationEvents relationId streamed.decoded).getLast? = some current ∧ current.generation = generation) :
    ∀ before other after, streamed.decoded ++ [message] = before ++ other :: after → ∀ relationId generation,
      rowKey? other = some (relationId,generation) →
        ∃ current, (relationEvents relationId before).getLast? = some current ∧ current.generation = generation := by
  intro before other after split relationId generation row
  cases after using List.reverseRecOn with
  | nil =>
    obtain ⟨rfl,same⟩ := List.append_inj' split rfl
    cases List.singleton_inj.mp same
    exact here relationId generation row
  | append_singleton after last _ =>
    rw [← List.cons_append,← List.append_assoc] at split
    obtain ⟨earlier,_⟩ := List.append_inj' split rfl
    exact kept.rows before other after earlier relationId generation row

theorem quietKept {message event assembler decoder} (quiet : relationEvent? message = none)
    (relations : decoder.relations = streamed.decoder.relations)
    (generations : assembler.relationGenerations = streamed.assembler.relationGenerations)
    (here : ∀ relationId generation, rowKey? message = some (relationId,generation) →
      ∃ current, (relationEvents relationId streamed.decoded).getLast? = some current ∧ current.generation = generation) :
    Kept ⟨decoder,assembler,streamed.decoded ++ [message],streamed.events ++ event⟩ := by
  have same (relationId : Nat) :
      relationEvents relationId (streamed.decoded ++ [message]) = relationEvents relationId streamed.decoded := by
    rw [relationEventsAppend,relationEventsQuiet quiet,List.append_nil]
  constructor
  · intro relationId
    rw [relations,same]
    exact kept.relations relationId
  · intro relationId
    rw [relations,generations]
    exact kept.generations relationId
  · intro relationId
    rw [same]
    exact kept.first relationId
  · intro relationId
    rw [same]
    exact kept.chain relationId
  · exact rowsSnoc kept here

theorem relationKept {event emitted assembler decoder} (registered : Registered streamed.decoder event decoder)
    (accepted : assembler = TransactionAssembler.acceptRelation.accept streamed.assembler event) :
    Kept ⟨decoder,assembler,streamed.decoded ++ [.relation event],streamed.events ++ emitted⟩ := by
  have grown (relationId : Nat) : relationEvents relationId (streamed.decoded ++ [.relation event]) =
      relationEvents relationId streamed.decoded ++ if event.relationId = relationId then [event] else [] := by
    rw [relationEventsAppend,relationEventsRelation]
  have counted := registered.generation
  rw [kept.relations event.relationId] at counted
  constructor
  · intro relationId
    rw [registered.relations,grown]
    by_cases same : event.relationId = relationId
    · subst same
      simp
    · rw [if_neg same,List.append_nil,Function.update_of_ne (Ne.symm same)]
      exact kept.relations relationId
  · intro relationId
    rw [registered.relations,accepted]
    by_cases same : event.relationId = relationId
    · subst same
      simp [TransactionAssembler.acceptRelation.accept]
    · simp only [TransactionAssembler.acceptRelation.accept,Function.update_of_ne (Ne.symm same)]
      exact kept.generations relationId
  · intro relationId head here
    rw [grown] at here
    by_cases same : event.relationId = relationId
    · subst same
      rw [if_pos rfl] at here
      cases held : relationEvents event.relationId streamed.decoded with
      | nil =>
        rw [held] at here counted
        cases Option.some.inj here
        exact counted
      | cons earlier rest =>
        rw [held] at here
        exact kept.first event.relationId head (by rw [held]; exact here)
    · rw [if_neg same,List.append_nil] at here
      exact kept.first relationId head here
  · intro relationId
    rw [grown]
    by_cases same : event.relationId = relationId
    · subst same
      rw [if_pos rfl]
      refine List.isChain_append.mpr ⟨kept.chain _,List.isChain_singleton _,?_⟩
      intro previous last next here
      cases Option.some.inj here
      rw [last] at counted
      exact counted
    · rw [if_neg same,List.append_nil]
      exact kept.chain relationId
  · refine rowsSnoc kept ?_
    intro _ _ row
    contradiction

theorem lastGeneration {relationId latest}
    (last : (relationEvents relationId streamed.decoded).getLast? = some latest) :
    ∃ first, (relationEvents relationId streamed.decoded).head? = some first ∧ 1 ≤ latest.generation ∧
      (latest.generation = 1 → ∀ event ∈ relationEvents relationId streamed.decoded, shapeOf event = shapeOf first) := by
  have one := kept.first relationId
  have chain := kept.chain relationId
  cases events : relationEvents relationId streamed.decoded with
  | nil =>
    rw [events] at last
    contradiction
  | cons first later =>
    rw [events] at last one chain
    have started := one first rfl
    obtain ⟨grown,stays⟩ := chainGeneration later chain last
    refine ⟨first,rfl,by omega,?_⟩
    intro single event mem
    rcases List.mem_cons.mp mem with rfl | mem
    · rfl
    · exact stays.mp (by omega) event mem

theorem relationAccepted {event decoder} (registered : Registered streamed.decoder event decoder) :
    streamed.assembler.acceptRelation event =
      .ok (TransactionAssembler.acceptRelation.accept streamed.assembler event) := by
  have counted := registered.generation
  unfold TransactionAssembler.acceptRelation
  rw [kept.generations]
  cases held : streamed.decoder.relations event.relationId with
  | none =>
    rw [held] at counted
    rw [if_neg (by rw [counted]; omega)]
    rfl
  | some previous =>
    rw [held] at counted
    rw [kept.relations] at held
    obtain ⟨_,_,positive,_⟩ := lastGeneration kept held
    have grown : previous.generation ≤ event.generation := by
      rw [counted]
      split <;> omega
    rw [if_neg (by omega)]
    simp only [Option.map_some]
    rw [if_neg (by omega)]

theorem rowCurrent {decoded decoder change} (effect : Effect streamed.decoder decoded decoder)
    (given : decoded.toTransactionChange = some change) : streamed.assembler.generationCurrent change = .ok () := by
  cases change with
  | row change =>
    have row := rowChangeKey given
    cases effect with
    | registered event same _ =>
      subst same
      contradiction
    | row relationId relation key held _ =>
      obtain ⟨rfl,current⟩ := Prod.mk.inj (Option.some.inj (row.symm.trans key))
      simp [TransactionAssembler.generationCurrent,kept.generations,held,current]
    | other noRow _ _ => exact absurd (noRow.symm.trans row) (by simp)
  | truncate => rfl
  | ddl => rfl

theorem pushKept {decoded decoder event assembler} (effect : Effect streamed.decoder decoded decoder)
    (ok : streamed.assembler.push decoded = .ok (event,assembler)) :
    Kept ⟨decoder,assembler,streamed.decoded ++ [decoded],streamed.events ++ event.toList⟩ := by
  cases effect with
  | registered relation same registered =>
    subst same
    obtain ⟨next,accepted,ok⟩ := bindOk.mp ok
    obtain ⟨rfl,rfl⟩ := Prod.mk.inj (Except.ok.inj ok)
    exact relationKept kept registered (acceptedRelation accepted)
  | row relationId relation key held same =>
    refine quietKept kept (rowKeyNoRelation key) same (pushGenerations (rowKeyNoRelation key) ok) ?_
    intro otherId generation row
    obtain ⟨rfl,rfl⟩ := Prod.mk.inj (Option.some.inj (key.symm.trans row))
    exact ⟨relation,kept.relations relationId ▸ held,rfl⟩
  | other noRow noRelation same =>
    refine quietKept kept noRelation same (pushGenerations noRelation ok) ?_
    intro _ _ row
    exact absurd (noRow.symm.trans row) (by simp)

end Step

section History
variable {streamed : Streamed} (kept : Kept streamed)
include kept

theorem relationCounted {before event after} (split : streamed.decoded = before ++ .relation event :: after) :
    match (relationEvents event.relationId before).getLast? with
    | none => event.generation = 1
    | some previous => Follows previous event := by
  have events : relationEvents event.relationId streamed.decoded =
      relationEvents event.relationId before ++ event :: relationEvents event.relationId after := by
    rw [split,List.append_cons,relationEventsAppend,relationEventsAppend,relationEventsRelation]
    simp
  cases last : (relationEvents event.relationId before).getLast? with
  | none =>
    rw [List.getLast?_eq_none_iff.mp last] at events
    exact kept.first event.relationId event (by rw [events]; rfl)
  | some previous =>
    have chain := events ▸ kept.chain event.relationId
    exact (List.isChain_append.mp chain).2.2 previous last event rfl

theorem rowsCompared {before first between second after relationId firstGeneration secondGeneration}
    (split : streamed.decoded = before ++ first :: between ++ second :: after)
    (firstRow : rowKey? first = some (relationId,firstGeneration))
    (secondRow : rowKey? second = some (relationId,secondGeneration)) :
    ∃ current, (relationEvents relationId before).getLast? = some current ∧ current.generation = firstGeneration ∧
      (firstGeneration = secondGeneration ↔
        ∀ event ∈ relationEvents relationId between, shapeOf event = shapeOf current) := by
  obtain ⟨current,last,rfl⟩ := kept.rows before first (between ++ second :: after) (by simpa using split) relationId
    firstGeneration firstRow
  obtain ⟨latest,latestLast,rfl⟩ := kept.rows (before ++ first :: between) second after split relationId
    secondGeneration secondRow
  refine ⟨current,last,rfl,?_⟩
  obtain ⟨earlier,known⟩ := List.getLast?_eq_some_iff.mp last
  have inner : relationEvents relationId (before ++ first :: between) =
      earlier ++ current :: relationEvents relationId between := by
    rw [List.append_cons,relationEventsAppend,relationEventsAppend,relationEventsQuiet (rowKeyNoRelation firstRow),known]
    simp
  have chain := kept.chain relationId
  rw [split,relationEventsAppend,inner] at chain
  rw [inner] at latestLast
  refine (chainGeneration _ (List.isChain_append.mp (List.isChain_append.mp chain).1).2.1 ?_).2
  simpa using latestLast

theorem firstShape {before message after relationId} (split : streamed.decoded = before ++ message :: after)
    (row : rowKey? message = some (relationId,1)) :
    ∃ first current, (relationEvents relationId streamed.decoded).head? = some first ∧
      (relationEvents relationId before).getLast? = some current ∧ shapeOf current = shapeOf first := by
  obtain ⟨current,last,one⟩ := kept.rows before message after split relationId 1 row
  have events := relationEventsAppend relationId before (message :: after)
  rw [← split] at events
  have chain := kept.chain relationId
  have started := kept.first relationId
  rw [events] at chain started ⊢
  cases known : relationEvents relationId before with
  | nil =>
    rw [known] at last
    contradiction
  | cons first later =>
    rw [known] at last chain started
    refine ⟨first,current,rfl,last,?_⟩
    have stays := (chainGeneration later (List.isChain_append.mp chain).1 last).2.mp (by rw [one]; exact started first rfl)
    rcases List.mem_cons.mp (List.mem_of_getLast? last) with rfl | mem
    · rfl
    · exact stays current mem

end History

theorem startKept {identity limits start} (made : TransactionAssembler.withLimits identity limits = .ok start) :
    Kept ⟨.new,start,[],[]⟩ := by
  cases Except.ok.inj (iteOk.mp made).2
  exact ⟨fun _ => rfl,fun _ => rfl,by simp [relationEvents],by simp [relationEvents],by simp⟩

theorem streamFromKept (libraries : Libraries) {identity limits} (messages : List ReplicationMessage) :
    ∀ {streamed blocks rest}, Kept streamed →
      Reads identity limits ⟨streamed.events,streamed.assembler,streamed.decoded⟩ blocks rest →
      ∃ result blocks rest, streamFrom libraries streamed messages = result ∧ Kept result ∧
        Reads identity limits ⟨result.events,result.assembler,result.decoded⟩ blocks rest := by
  induction messages with
  | nil =>
    intro streamed blocks rest kept reads
    exact ⟨streamed,blocks,rest,rfl,kept,reads⟩
  | cons message messages ih =>
    intro streamed blocks rest kept reads
    unfold streamFrom
    split
    · exact ⟨streamed,blocks,rest,rfl,kept,reads⟩
    next decoded decoder received =>
      split
      · exact ⟨streamed,blocks,rest,rfl,kept,reads⟩
      next event assembler ok =>
        obtain ⟨blocks,rest,reads⟩ := pushReads reads ok
        exact ih (pushKept kept (receiveEffect received) ok) reads

theorem emittedDecoded {identity limits fed blocks rest} (reads : Reads identity limits fed blocks rest) {committed change}
    (emitted : .transaction committed ∈ fed.events) (mem : change ∈ committed.transaction.changes) :
    ∃ message ∈ fed.accepted, message.toTransactionChange = some change := by
  have collected : committed ∈ fed.events.filterMap committed? := List.mem_filterMap.mpr ⟨_,emitted,rfl⟩
  rw [reads.emitted] at collected
  obtain ⟨block,held,rfl⟩ := List.mem_map.mp collected
  obtain ⟨message,inside,given⟩ := List.mem_filterMap.mp (firstChangesSubset _ mem)
  refine ⟨message,?_,given⟩
  rw [reads.accepted]
  refine List.mem_append_left _ (List.mem_flatMap.mpr ⟨block,held,?_⟩)
  simp [Block.messages,Opening.messages,inside]

theorem groupMember {batch group change} (grouped : group ∈ groupChanges (rowChanges batch)) (mem : change ∈ group.2) :
    changeKey change = group.1 ∧ ∃ transaction ∈ batch.transactions, .row change ∈ transaction.changes := by
  obtain ⟨key,_,rfl⟩ := List.mem_map.mp grouped
  obtain ⟨mem,same⟩ := List.mem_filter.mp mem
  obtain ⟨transaction,held,mem⟩ := List.mem_flatMap.mp mem
  obtain ⟨other,mem,row⟩ := List.mem_filterMap.mp mem
  refine ⟨of_decide_eq_true same,transaction,held,?_⟩
  cases other with
  | row other =>
    cases Option.some.inj row
    exact mem
  | truncate => contradiction
  | ddl => contradiction

/-- For every stream: the decoder and the assembler keep one generation for each relation, which starts at 1, stays with
an equal shape and grows by one with another; two rows carry the same generation exactly when every relation message
between them has the shape of the first; whatever the decoder makes of a further message passes the assembler's checks
of generations; and a binding of generation 1 is given only rows that were read under the first shape. -/
theorem generationsIdentifyShapes {identity : SourceNodeIdentity} {limits : TransactionLimits}
    {start : TransactionAssembler} (made : TransactionAssembler.withLimits identity limits = .ok start)
    (libraries : Libraries) (messages : List ReplicationMessage) {streamed : Streamed}
    (run : stream libraries start messages = streamed) :
    (∀ relationId, streamed.decoder.relations relationId = (relationEvents relationId streamed.decoded).getLast? ∧
      streamed.assembler.relationGenerations relationId =
        (relationEvents relationId streamed.decoded).getLast?.map RelationEvent.generation) ∧
    (∀ before event after, streamed.decoded = before ++ .relation event :: after →
      match (relationEvents event.relationId before).getLast? with
      | none => event.generation = 1
      | some previous => event.generation =
          if shapeOf previous = shapeOf event then previous.generation else previous.generation + 1) ∧
    (∀ relationId,
      (relationEvents relationId streamed.decoded).Pairwise (fun a b => a.generation ≤ b.generation)) ∧
    (∀ before first between second after,
      streamed.decoded = before ++ first :: between ++ second :: after → ∀ relationId firstGeneration secondGeneration,
      rowKey? first = some (relationId,firstGeneration) → rowKey? second = some (relationId,secondGeneration) →
      ∃ current, (relationEvents relationId before).getLast? = some current ∧ current.generation = firstGeneration ∧
        (firstGeneration = secondGeneration ↔
          ∀ event ∈ relationEvents relationId between, shapeOf event = shapeOf current)) ∧
    (∀ message decoded decoder, receive libraries streamed.decoder message = .ok (decoded,decoder) →
      (∀ change, decoded.toTransactionChange = some change → streamed.assembler.generationCurrent change = .ok ()) ∧
      (∀ event, decoded = .relation event → ∃ next, streamed.assembler.acceptRelation event = .ok next)) ∧
    (∀ (batch : TransactionBatch) (registry : TableBindingRegistry) binding group change,
      (∀ transaction ∈ batch.transactions, ∃ committed, .transaction committed ∈ streamed.events ∧
        committed.transaction = transaction) →
      group ∈ groupChanges (rowChanges batch) → registry.get group.1.1 group.1.2 = some binding →
      binding.schema.generation = 1 → change ∈ group.2 →
      (∃ message ∈ streamed.decoded, message.toTransactionChange = some (.row change)) ∧
      ∀ before message after, streamed.decoded = before ++ message :: after →
        message.toTransactionChange = some (.row change) →
        ∃ first current, (relationEvents change.relationId streamed.decoded).head? = some first ∧
          (relationEvents change.relationId before).getLast? = some current ∧ shapeOf current = shapeOf first) := by
  obtain ⟨_,blocks,rest,rfl,kept,reads⟩ := streamFromKept libraries messages (startKept made) (startReads made)
  change streamFrom _ _ _ = _ at run
  rw [run] at kept reads
  refine ⟨?_,?_,?_,?_,?_,?_⟩
  · intro relationId
    exact ⟨kept.relations relationId,kept.relations relationId ▸ kept.generations relationId⟩
  · exact fun _ _ _ split => relationCounted kept split
  · exact fun relationId => generationsOrdered _ (kept.chain relationId)
  · exact fun _ _ _ _ _ split _ _ _ first second => rowsCompared kept split first second
  · intro message decoded decoder received
    constructor
    · exact fun _ given => rowCurrent kept (receiveEffect received) given
    · intro event same
      cases receiveEffect received with
      | registered other here registered =>
        cases DecodedMessage.relation.inj (here.symm.trans same)
        exact ⟨_,relationAccepted kept registered⟩
      | row _ _ key _ _ =>
        subst same
        contradiction
      | other _ noRelation _ =>
        subst same
        contradiction
  · intro batch registry binding group change taken grouped bound one mem
    obtain ⟨key,transaction,held,row⟩ := groupMember grouped mem
    obtain ⟨committed,emitted,rfl⟩ := taken transaction held
    refine ⟨emittedDecoded reads emitted row,?_⟩
    intro before message after split given
    have single : change.generation = 1 := by
      have found := List.find?_some bound
      have same : binding.key = (group.1.1,group.1.2) := of_decide_eq_true found
      exact (congrArg Prod.snd key).trans ((congrArg Prod.snd same).symm.trans one)
    exact firstShape kept split (single ▸ rowChangeKey given)

def sampleBody (name : String) : RelationBody := ⟨42,some "public",some name,.default,[⟨1,some "id",23,-1⟩]⟩

def sampleMessages : List ReplicationMessage :=
  [.xLogData (.relation (sampleBody "a")),.xLogData (.begin' 10 1 11),.xLogData (.relation (sampleBody "a")),
   .xLogData (.insert 42 [.text [49]]),.xLogData (.relation (sampleBody "b")),.xLogData (.insert 42 [.text [50]]),
   .primaryKeepAlive 12 1 0,.xLogData (.relation (sampleBody "a")),.xLogData (.insert 42 [.text [51]]),
   .xLogData (.commit 0 20 21 2)]

theorem sampleGenerations : ∃ streamed, stream ⟨fun _ => true,fun _ => none⟩
      ⟨sampleNode,⟨10,100⟩,none,none,fun _ => none⟩ sampleMessages = streamed ∧
    streamed.decoded.filterMap rowKey? = [(42,1),(42,2),(42,3)] ∧
    (relationEvents 42 streamed.decoded).map RelationEvent.generation = [1,1,2,3] ∧
    (relationEvents 42 streamed.decoded).Pairwise (fun a b => a.generation ≤ b.generation) := by
  have kept := @generationsIdentifyShapes sampleNode ⟨10,100⟩ ⟨sampleNode,⟨10,100⟩,none,none,fun _ => none⟩ rfl
    ⟨fun _ => true,fun _ => none⟩ sampleMessages _ rfl
  exact ⟨_,rfl,by decide,by decide,kept.2.2.1 42⟩

end CloudberryEtl.Generations
