import CloudberryEtl.PipelineStore

/-! Histories of the calls on the pipeline rows. One inversion rule says what a call does; from it no counter of a
pipeline goes back, a refused put changes nothing, a recorded revision stays, and a rebuild ends by its completion only. -/
namespace CloudberryEtl.PipelineStore
open KeyedTable TargetStore Planning Result

section Rows

def Puts (row : PipelineDefinition) (rows rows' : List PipelineDefinition) : Prop :=
  ∀ id, lookup PipelineDefinition.id rows' id = if id = row.id then some row else lookup PipelineDefinition.id rows id

theorem putsReplace {rows : List PipelineDefinition} {row stored : PipelineDefinition}
    (found : lookup PipelineDefinition.id rows row.id = some stored) : Puts row rows (replaceRow rows row) := by
  intro id
  have sameKey : ∀ other ∈ rows, (if other.id = row.id then row else other).id = other.id := by
    intro other _
    split
    next same => exact same.symm
    next => rfl
  rw [replaceRow,lookupMapSameKey sameKey]
  split
  next same =>
    rw [same,found,Option.map_some,if_pos (lookupKey found)]
  next apart =>
    cases here : lookup PipelineDefinition.id rows id with
    | none => rfl
    | some other =>
      have key : other.id = id := lookupKey here
      rw [Option.map_some,if_neg (fun same => apart (key.symm.trans same))]

theorem putsAppend {rows : List PipelineDefinition} {row : PipelineDefinition}
    (fresh : lookup PipelineDefinition.id rows row.id = none) : Puts row rows (rows ++ [row]) := by
  intro id
  rw [lookupAppend]
  split
  next same => rw [same,fresh]; simp [lookup]
  next apart =>
    have other : row.id ≠ id := fun same => apart same.symm
    simp [lookup,other]

structure Supersedes (row : PipelineDefinition) (rows rows' : List PipelineDefinition) : Prop where
  puts : Puts row rows rows'
  newer : ∀ stored, lookup PipelineDefinition.id rows row.id = some stored →
    stored.configRevision < row.configRevision ∧ stored.snapshotGeneration < row.snapshotGeneration

end Rows

section Invariant

def RevisionsBounded (store : ControlStore) : Prop := ∀ revision ∈ store.configRevisions,
  ∃ row, store.pipeline revision.pipelineId = some row ∧ revision.revision ≤ row.configRevision

structure Sound (store : ControlStore) : Prop where
  revisions : RevisionsBounded store
  generations : ∀ operation ∈ store.operations, ∀ own, operation.generation? = some own → inBigint own
  positive : ∀ id row, store.pipeline id = some row → 0 < row.snapshotGeneration

theorem emptySound (sources targets : List Uuid) : Sound (.empty sources targets) :=
  ⟨by simp [RevisionsBounded,ControlStore.empty],by simp [ControlStore.empty],
    by simp [ControlStore.pipeline,ControlStore.empty,lookup]⟩

end Invariant

section Outcomes

structure Carries (pipeline row : PipelineDefinition) : Prop where
  id : row.id = pipeline.id
  configRevision : row.configRevision = pipeline.configRevision
  snapshotGeneration : row.snapshotGeneration = pipeline.snapshotGeneration
  positive : 0 < row.snapshotGeneration

def recordedRevision (pipeline : PipelineDefinition) (now : Nat) : ConfigRevision :=
  ⟨pipeline.id,pipeline.configRevision,definitionJson pipeline,now⟩

def NoRebuild (store : ControlStore) (operationId pipelineId : Uuid) : Prop := ∀ stored,
  store.pipeline pipelineId = some stored → 2 ^ 63 ≤ stored.snapshotGeneration + 1 ∨ (store.operation operationId).isSome

inductive Outcome (store : ControlStore) (call : Call) : ControlStore → Response → Prop where
  | recorded {pipeline row pipelines} (asked : call.request = .putPipeline pipeline) (carries : Carries pipeline row)
      (supersedes : Supersedes row store.pipelines pipelines)
      (fresh : ∀ revision ∈ store.configRevisions, revision.key ≠ (recordedRevision pipeline call.now).key) :
      Outcome store call {store with
        pipelines := pipelines
        configRevisions := store.configRevisions ++ [recordedRevision pipeline call.now]} (.put (.ok ()))
  | refused {pipeline error} (asked : call.request = .putPipeline pipeline) :
      Outcome store call store (.put (.error error))
  | desired {pipelineId desiredRunning stored row} (asked : call.request = .setDesiredRunning pipelineId desiredRunning)
      (found : store.pipeline pipelineId = some stored)
      (made : row = {stored with desiredRunning := desiredRunning, updatedAt := call.now}) :
      Outcome store call {store with pipelines := replaceRow store.pipelines row} (.desired (.ok (some row)))
  | desiredNothing {pipelineId desiredRunning answer} (asked : call.request = .setDesiredRunning pipelineId desiredRunning) :
      Outcome store call store (.desired answer)
  | rebuilt {operationId pipelineId stored row} (asked : call.request = .requestRebuild operationId pipelineId)
      (found : store.pipeline pipelineId = some stored) (room : stored.snapshotGeneration + 1 < 2 ^ 63)
      (fresh : store.operation operationId = none)
      (made : row = {stored with snapshotGeneration := stored.snapshotGeneration + 1, updatedAt := call.now}) :
      Outcome store call {store with
        pipelines := replaceRow store.pipelines row
        operations := store.operations ++ [rebuildOperation row operationId call.now]
        auditLog := store.auditLog ++ [rebuildAudit row operationId]} (.rebuild (.ok (some ⟨row,operationId⟩)))
  | rebuiltNothing {operationId pipelineId answer} (asked : call.request = .requestRebuild operationId pipelineId)
      (nothing : ∀ request, answer ≠ .ok (some request)) (cause : NoRebuild store operationId pipelineId) :
      Outcome store call store (.rebuild answer)
  | completed {pipelineId generation entries count} (asked : call.request = .completeRebuilds pipelineId generation) :
      Outcome store call {store with
        operations := store.operations.map (fun operation =>
          if completes pipelineId generation operation then completeOperation call.now generation operation else operation)
        auditLog := entries} (.completed (.ok count))

variable {store : ControlStore} {call : Call}

theorem changedSource {now pipeline pipelines returned}
    (ok : changed store now pipeline = .ok (pipelines,returned)) :
    (returned = none ∧ pipelines = store.pipelines) ∨
      ∃ row, returned = some row ∧ Carries pipeline row ∧ Supersedes row store.pipelines pipelines := by
  unfold changed at ok
  obtain ⟨checked,ok⟩ := iteOk.mp ok
  have positive : 0 < pipeline.snapshotGeneration := by omega
  split at ok
  next absent =>
    obtain ⟨_,_,ok⟩ := bindOk.mp ok
    cases Except.ok.inj ok
    refine .inr ⟨pipeline,rfl,⟨rfl,rfl,rfl,positive⟩,putsAppend absent,?_⟩
    intro stored found
    rw [show lookup PipelineDefinition.id store.pipelines pipeline.id = none from absent] at found
    contradiction
  next stored found =>
    have key : stored.id = pipeline.id := lookupKey found
    split at ok
    next newer =>
      obtain ⟨_,_,ok⟩ := bindOk.mp ok
      cases Except.ok.inj ok
      have here : lookup PipelineDefinition.id store.pipelines stored.id = some stored := key ▸ found
      refine .inr ⟨_,rfl,⟨key,rfl,rfl,positive⟩,putsReplace here,?_⟩
      intro other same
      cases Option.some.inj (here.symm.trans same)
      exact newer
    next =>
      cases Except.ok.inj ok
      exact .inl ⟨rfl,rfl⟩

theorem putFresh (sound : Sound store) {pipeline row pipelines now} (carries : Carries pipeline row)
    (supersedes : Supersedes row store.pipelines pipelines) :
    ∀ revision ∈ store.configRevisions, revision.key ≠ (recordedRevision pipeline now).key := by
  -- A revision that a put newly reaches is above every recorded one, so the second insert never meets a conflict.
  intro revision mem same
  obtain ⟨samePipeline,sameRevision⟩ := Prod.mk.inj same
  obtain ⟨stored,found,bounded⟩ := sound.revisions revision mem
  have samePipeline : revision.pipelineId = row.id := samePipeline.trans carries.id.symm
  have newer := (supersedes.newer stored (samePipeline ▸ found)).1
  have sameRevision : revision.revision = row.configRevision := sameRevision.trans carries.configRevision.symm
  omega

theorem putOutcome (sound : Sound store) {pipeline} (asked : call.request = .putPipeline pipeline) :
    Outcome store call (putPipeline store call.now pipeline).1 (.put (putPipeline store call.now pipeline).2) := by
  unfold putPipeline
  split
  next error failed => exact .refused asked
  next after affected ok =>
    obtain ⟨⟨pipelines,returned⟩,written,ok⟩ := bindOk.mp ok
    rcases changedSource written with ⟨rfl,rfl⟩ | ⟨row,rfl,carries,supersedes⟩
    · cases Except.ok.inj ok
      exact .refused asked
    · have fresh := @putFresh store sound pipeline row pipelines call.now carries supersedes
      have revision : (⟨row.id,row.configRevision,definitionJson pipeline,call.now⟩ : ConfigRevision) =
          recordedRevision pipeline call.now := by
        rw [recordedRevision,carries.id,carries.configRevision]
      have apart : ¬ store.configRevisions.any (fun other => other.key = (recordedRevision pipeline call.now).key) := by
        simpa using fresh
      simp only [revision,if_neg apart] at ok
      cases Except.ok.inj ok
      exact .recorded asked carries supersedes fresh

theorem rebuildOutcome {operationId pipelineId} (asked : call.request = .requestRebuild operationId pipelineId) :
    Outcome store call (requestPipelineRebuild store call.now operationId pipelineId).1
      (.rebuild (requestPipelineRebuild store call.now operationId pipelineId).2) := by
  unfold requestPipelineRebuild
  split
  next absent => exact .rebuiltNothing asked (by simp) (by simp [NoRebuild,absent])
  next stored found =>
    split
    next full =>
      refine .rebuiltNothing asked (by simp) ?_
      intro other same
      cases Option.some.inj (found.symm.trans same)
      exact .inl full
    next room =>
      split
      next taken => exact .rebuiltNothing asked (by simp) (by simp [NoRebuild,taken])
      next fresh => exact .rebuilt asked found (by omega) (by simpa using fresh) rfl

theorem completionOutcome (sound : Sound store) {pipelineId generation}
    (asked : call.request = .completeRebuilds pipelineId generation) :
    Outcome store call (completePipelineRebuilds store call.now pipelineId generation).1
      (.completed (completePipelineRebuilds store call.now pipelineId generation).2) := by
  unfold completePipelineRebuilds
  split
  next uncastable =>
    obtain ⟨operation,mem,outside⟩ := List.any_eq_true.mp uncastable
    obtain ⟨_,outside⟩ := Bool.and_eq_true_iff.mp outside
    obtain ⟨own,has,outside⟩ := (Option.any_eq_true ..).mp outside
    exact absurd (sound.generations operation mem own has) (of_decide_eq_true outside)
  next => exact .completed asked

theorem runOutcome (sound : Sound store) : Outcome store call (call.after store) (call.response store) := by
  cases asked : call.request with
  | putPipeline pipeline => simpa [Call.after,Call.response,Call.run,asked] using putOutcome sound asked
  | setDesiredRunning pipelineId desiredRunning =>
    unfold Call.after Call.response Call.run
    simp only [asked,setPipelineDesiredRunning]
    split
    next => exact .desiredNothing asked
    next stored found => exact .desired asked found rfl
  | requestRebuild operationId pipelineId =>
    simpa [Call.after,Call.response,Call.run,asked] using @rebuildOutcome store call _ _ asked
  | completeRebuilds pipelineId generation =>
    simpa [Call.after,Call.response,Call.run,asked] using completionOutcome sound asked

end Outcomes

section Steps
variable {store after : ControlStore} {call : Call} {response : Response}

def Advanced (store after : ControlStore) : Prop := ∀ id row, store.pipeline id = some row →
  ∃ row', after.pipeline id = some row' ∧ row.configRevision ≤ row'.configRevision ∧
    row.snapshotGeneration ≤ row'.snapshotGeneration

theorem advancedSame (same : after.pipelines = store.pipelines) : Advanced store after := by
  intro id row found
  exact ⟨row,by rwa [ControlStore.pipeline,same],le_rfl,le_rfl⟩

theorem Advanced.trans {final : ControlStore} (first : Advanced store after) (second : Advanced after final) :
    Advanced store final := by
  intro id row found
  obtain ⟨middle,found,revision,generation⟩ := first id row found
  obtain ⟨last,found,revision',generation'⟩ := second id middle found
  exact ⟨last,found,revision.trans revision',generation.trans generation'⟩

theorem putsAdvanced {row} (puts : Puts row store.pipelines after.pipelines)
    (grows : ∀ stored, store.pipeline row.id = some stored →
      stored.configRevision ≤ row.configRevision ∧ stored.snapshotGeneration ≤ row.snapshotGeneration) :
    Advanced store after := by
  intro id stored found
  by_cases here : id = row.id
  · have grown := grows stored (here ▸ found)
    exact ⟨row,by rw [ControlStore.pipeline,puts,if_pos here],grown.1,grown.2⟩
  · exact ⟨stored,by rw [ControlStore.pipeline,puts,if_neg here]; exact found,le_rfl,le_rfl⟩

theorem replacePuts {stored row : PipelineDefinition} {id} (found : store.pipeline id = some stored)
    (key : row.id = stored.id) : row.id = id ∧ Puts row store.pipelines (replaceRow store.pipelines row) := by
  have same : stored.id = id := lookupKey found
  have here : lookup PipelineDefinition.id store.pipelines row.id = some stored := by
    rw [key,same]
    exact found
  exact ⟨key.trans same,putsReplace here⟩

theorem replaceAdvanced {stored row : PipelineDefinition} {id} (found : store.pipeline id = some stored)
    (key : row.id = stored.id) (revision : stored.configRevision ≤ row.configRevision)
    (generation : stored.snapshotGeneration ≤ row.snapshotGeneration)
    (replaced : after.pipelines = replaceRow store.pipelines row) : Advanced store after := by
  obtain ⟨here,puts⟩ := replacePuts found key
  refine putsAdvanced (replaced ▸ puts) ?_
  intro other same
  rw [here,found] at same
  cases Option.some.inj same
  exact ⟨revision,generation⟩

theorem Outcome.advanced (outcome : Outcome store call after response) : Advanced store after := by
  cases outcome with
  | recorded asked carries supersedes fresh =>
    refine putsAdvanced supersedes.puts ?_
    intro stored found
    have newer := supersedes.newer stored found
    exact ⟨newer.1.le,newer.2.le⟩
  | refused asked => exact advancedSame rfl
  | desired asked found made => exact replaceAdvanced found (by rw [made]) (by rw [made]) (by rw [made]) rfl
  | desiredNothing asked => exact advancedSame rfl
  | rebuilt asked found room fresh made =>
    exact replaceAdvanced found (by rw [made]) (by rw [made]) (by rw [made]; simp) rfl
  | rebuiltNothing asked nothing cause => exact advancedSame rfl
  | completed asked => exact advancedSame rfl

theorem Outcome.revisions (outcome : Outcome store call after response) : ∃ more,
    after.configRevisions = store.configRevisions ++ more ∧
    (∀ revision ∈ more, ∀ older ∈ store.configRevisions, older.key ≠ revision.key) ∧
    ∀ revision ∈ more, ∃ row, after.pipeline revision.pipelineId = some row ∧ revision.revision ≤ row.configRevision := by
  cases outcome with
  | @recorded pipeline row pipelines asked carries supersedes fresh =>
    refine ⟨_,rfl,?_,?_⟩
    · intro revision mem
      cases List.mem_singleton.mp mem
      exact fresh
    · intro revision mem
      cases List.mem_singleton.mp mem
      exact ⟨row,(supersedes.puts _).trans (if_pos carries.id.symm),carries.configRevision.ge⟩
  | refused asked => exact ⟨[],by simp⟩
  | desired asked found made => exact ⟨[],by simp⟩
  | desiredNothing asked => exact ⟨[],by simp⟩
  | rebuilt asked found room fresh made => exact ⟨[],by simp⟩
  | rebuiltNothing asked nothing cause => exact ⟨[],by simp⟩
  | completed asked => exact ⟨[],by simp⟩

def Call.touch (call : Call) (operation : OperationRecord) : OperationRecord :=
  match call.request with
  | .completeRebuilds pipelineId generation =>
    if completes pipelineId generation operation then completeOperation call.now generation operation else operation
  | _ => operation

theorem touchId (call : Call) (operation : OperationRecord) : (call.touch operation).id = operation.id := by
  unfold Call.touch
  split
  · split <;> rfl
  · rfl

theorem touchOther (other : ∀ pipelineId generation, call.request ≠ .completeRebuilds pipelineId generation) :
    store.operations.map call.touch = store.operations := by
  have same : call.touch = id := by
    funext operation
    unfold Call.touch
    split
    next pipelineId generation asked => exact absurd asked (other pipelineId generation)
    next => rfl
  rw [same,List.map_id]

theorem Outcome.operations (outcome : Outcome store call after response) :
    (after.operations = store.operations.map call.touch ∧ ∀ request, response ≠ .rebuild (.ok (some request))) ∨
    ∃ request : RebuildRequest, response = .rebuild (.ok (some request)) ∧
      store.operation request.operationId = none ∧
      after.operations = store.operations ++ [rebuildOperation request.pipeline request.operationId call.now] := by
  cases outcome with
  | recorded asked carries supersedes fresh => exact .inl ⟨(touchOther (by simp [asked])).symm,by simp⟩
  | refused asked => exact .inl ⟨(touchOther (by simp [asked])).symm,by simp⟩
  | desired asked found made => exact .inl ⟨(touchOther (by simp [asked])).symm,by simp⟩
  | desiredNothing asked => exact .inl ⟨(touchOther (by simp [asked])).symm,by simp⟩
  | rebuilt asked found room fresh made =>
    refine .inr ⟨_,rfl,?_,rfl⟩
    exact fresh
  | rebuiltNothing asked nothing cause =>
    refine .inl ⟨(touchOther (by simp [asked])).symm,?_⟩
    intro request same
    exact nothing request (Response.rebuild.inj same)
  | completed asked =>
    refine .inl ⟨?_,by simp⟩
    refine List.map_congr_left ?_
    intro operation _
    simp only [Call.touch,asked]

theorem Outcome.rebuild (outcome : Outcome store call after response) {request}
    (answered : response = .rebuild (.ok (some request))) : ∃ operationId pipelineId stored,
    call.request = .requestRebuild operationId pipelineId ∧ store.pipeline pipelineId = some stored ∧
    request = ⟨{stored with snapshotGeneration := stored.snapshotGeneration + 1, updatedAt := call.now},operationId⟩ ∧
    after.pipeline pipelineId = some request.pipeline ∧ request.pipeline.snapshotGeneration < 2 ^ 63 := by
  cases outcome with
  | @rebuilt operationId pipelineId stored row asked found room fresh made =>
    cases answered
    obtain ⟨key,puts⟩ := replacePuts found (show row.id = stored.id by rw [made])
    refine ⟨operationId,pipelineId,stored,asked,found,by rw [made],?_,by rw [made]; exact room⟩
    exact (puts pipelineId).trans (if_pos key.symm)
  | rebuiltNothing asked nothing cause => exact absurd (Response.rebuild.inj answered) (nothing request)
  | recorded asked carries supersedes fresh => contradiction
  | refused asked => contradiction
  | desired asked found made => contradiction
  | desiredNothing asked => contradiction
  | completed asked => contradiction

theorem Outcome.rebuildAsked (outcome : Outcome store call after response) {operationId pipelineId}
    (asked : call.request = .requestRebuild operationId pipelineId) :
    (∃ request, response = .rebuild (.ok (some request))) ∨ after = store ∧ NoRebuild store operationId pipelineId := by
  cases outcome with
  | rebuilt other found room fresh made => exact .inl ⟨_,rfl⟩
  | rebuiltNothing other nothing cause =>
    cases asked.symm.trans other
    exact .inr ⟨rfl,cause⟩
  | recorded other carries supersedes fresh => exact absurd (asked.symm.trans other) (by simp)
  | refused other => exact absurd (asked.symm.trans other) (by simp)
  | desired other found made => exact absurd (asked.symm.trans other) (by simp)
  | desiredNothing other => exact absurd (asked.symm.trans other) (by simp)
  | completed other => exact absurd (asked.symm.trans other) (by simp)

theorem Outcome.put (outcome : Outcome store call after response) {pipeline} (asked : call.request = .putPipeline pipeline) :
    (response ≠ .put (.ok ()) ∧ after = store) ∨
    (response = .put (.ok ()) ∧
      after.configRevisions = store.configRevisions ++ [recordedRevision pipeline call.now] ∧
      (∀ revision ∈ store.configRevisions, revision.key ≠ (recordedRevision pipeline call.now).key) ∧
      (∃ row, after.pipeline pipeline.id = some row ∧ Carries pipeline row) ∧
      ∀ stored, store.pipeline pipeline.id = some stored →
        stored.configRevision < pipeline.configRevision ∧ stored.snapshotGeneration < pipeline.snapshotGeneration) := by
  cases outcome with
  | @recorded put row pipelines other carries supersedes fresh =>
    cases Request.putPipeline.inj (asked.symm.trans other)
    refine .inr ⟨rfl,rfl,fresh,⟨row,(supersedes.puts _).trans (if_pos carries.id.symm),carries⟩,?_⟩
    intro stored found
    have newer := supersedes.newer stored (carries.id ▸ found)
    rwa [carries.configRevision,carries.snapshotGeneration] at newer
  | refused other => exact .inl ⟨by simp,rfl⟩
  | desired other found made => exact absurd (asked.symm.trans other) (by simp)
  | desiredNothing other => exact absurd (asked.symm.trans other) (by simp)
  | rebuilt other found room fresh made => exact absurd (asked.symm.trans other) (by simp)
  | rebuiltNothing other nothing cause => exact absurd (asked.symm.trans other) (by simp)
  | completed other => exact absurd (asked.symm.trans other) (by simp)

theorem Outcome.positive (outcome : Outcome store call after response)
    (positive : ∀ id row, store.pipeline id = some row → 0 < row.snapshotGeneration) :
    ∀ id row, after.pipeline id = some row → 0 < row.snapshotGeneration := by
  have puts {row} (puts : Puts row store.pipelines after.pipelines) (here : 0 < row.snapshotGeneration) :
      ∀ id row, after.pipeline id = some row → 0 < row.snapshotGeneration := by
    intro id other found
    rw [ControlStore.pipeline,puts id] at found
    split at found
    · exact Option.some.inj found ▸ here
    · exact positive id other found
  cases outcome with
  | recorded asked carries supersedes fresh => exact puts supersedes.puts carries.positive
  | refused asked => exact positive
  | desired asked found made =>
    have before := positive _ _ found
    exact puts (replacePuts found (by rw [made])).2 (by rw [made]; exact before)
  | desiredNothing asked => exact positive
  | rebuilt asked found room fresh made =>
    have before := positive _ _ found
    exact puts (replacePuts found (by rw [made])).2 (by rw [made]; exact Int.lt_add_one_of_le before.le)
  | rebuiltNothing asked nothing cause => exact positive
  | completed asked => exact positive

theorem lookupConcat {left right : List (String × Json)} {name : String} (absent : right.lookup name = none) :
    (left.filter (fun field => (right.lookup field.1).isNone) ++ right).lookup name = left.lookup name := by
  induction left with
  | nil => exact absent
  | cons field rest ih =>
    cases here : name == field.1 with
    | true =>
      have kept : (right.lookup field.1).isNone := by rw [← eq_of_beq here,absent]; rfl
      rw [List.filter_cons,if_pos kept,List.cons_append,List.lookup_cons,List.lookup_cons,here]
    | false =>
      rw [List.filter_cons,List.lookup_cons,here,← ih]
      split
      · rw [List.cons_append,List.lookup_cons,here]
      · rfl

theorem touchGeneration (call : Call) (operation : OperationRecord) :
    (call.touch operation).generation? = operation.generation? := by
  unfold Call.touch
  split
  next pipelineId generation _ =>
    split
    next completed =>
      have number := (Bool.and_eq_true_iff.mp completed).2
      unfold OperationRecord.generation? at number ⊢
      cases detail : operation.detail with
      | obj fields =>
        have same := @lookupConcat fields [("completed_snapshot_generation",.num generation)] "snapshot_generation" (by rfl)
        simp only [completeOperation,detail,concat,field?,same]
      | null => simp [detail,field?] at number
      | bool value => simp [detail,field?] at number
      | num value => simp [detail,field?] at number
      | str value => simp [detail,field?] at number
      | arr values => simp [detail,field?] at number
    next => rfl
  next => rfl

theorem Outcome.sound (outcome : Outcome store call after response) (sound : Sound store) : Sound after := by
  refine ⟨?_,?_,outcome.positive sound.positive⟩
  · obtain ⟨more,same,_,bounded⟩ := outcome.revisions
    intro revision mem
    rcases List.mem_append.mp (same ▸ mem) with mem | mem
    · obtain ⟨row,found,below⟩ := sound.revisions revision mem
      obtain ⟨row',found',grown,_⟩ := outcome.advanced _ row found
      exact ⟨row',found',below.trans grown⟩
    · exact bounded revision mem
  · intro operation mem own has
    rcases outcome.operations with ⟨same,_⟩ | ⟨request,answered,_,same⟩
    · obtain ⟨before,held,rfl⟩ := List.mem_map.mp (same ▸ mem)
      exact sound.generations before held own (touchGeneration call before ▸ has)
    · rcases List.mem_append.mp (same ▸ mem) with mem | mem
      · exact sound.generations operation mem own has
      · obtain ⟨_,_,stored,_,found,made,_,room⟩ := outcome.rebuild answered
        cases List.mem_singleton.mp mem
        have generation : own = request.pipeline.snapshotGeneration := by
          simpa [rebuildOperation,OperationRecord.generation?,rebuildDetail,field?] using has.symm
        have before := sound.positive _ _ found
        have here : request.pipeline.snapshotGeneration = stored.snapshotGeneration + 1 := by rw [made]
        exact ⟨by omega,by omega⟩

end Steps

section Tracking
variable {store after : ControlStore} {call : Call} {response : Response}

def completing (request : RebuildRequest) (call : Call) : Bool :=
  match call.request with
  | .completeRebuilds pipelineId generation =>
    pipelineId = request.pipeline.id && request.pipeline.snapshotGeneration ≤ generation
  | _ => false

def Tracked (request : RebuildRequest) (done : Bool) (operation : OperationRecord) : Prop :=
  operation.pipelineId = some request.pipeline.id ∧ operation.operationType = "rebuild" ∧
    operation.generation? = some request.pipeline.snapshotGeneration ∧
    operation.state = if done then "completed" else "requested"

theorem rebuildTracked (request : RebuildRequest) (now : Nat) :
    Tracked request false (rebuildOperation request.pipeline request.operationId now) := ⟨rfl,rfl,rfl,rfl⟩

theorem touchTracked {request done operation} (tracked : Tracked request done operation) (call : Call) :
    Tracked request (done || completing request call) (call.touch operation) := by
  obtain ⟨pipeline,type,generation,state⟩ := tracked
  have kept := (touchGeneration call operation).trans generation
  unfold Call.touch completing at *
  split
  next pipelineId reached asked =>
    simp only [asked] at kept
    have reach : completes pipelineId reached operation =
        (!done && (pipelineId = request.pipeline.id && request.pipeline.snapshotGeneration ≤ reached)) := by
      have sides : (request.pipeline.id = pipelineId) = (pipelineId = request.pipeline.id) := propext eq_comm
      cases done <;> simp [completes,isRequestedRebuild,pipeline,type,generation,state,sides]
    split at kept
    next completed =>
      rw [if_pos completed]
      rw [reach] at completed
      refine ⟨pipeline,type,kept,?_⟩
      simp [completeOperation,(Bool.and_eq_true_iff.mp completed).2]
    next waits =>
      rw [if_neg waits]
      rw [reach] at waits
      refine ⟨pipeline,type,kept,?_⟩
      rw [state]
      cases done with
      | true => rfl
      | false => simpa using waits
  next => exact ⟨pipeline,type,generation,by simpa using state⟩

theorem Outcome.operationAt (outcome : Outcome store call after response) {id operation}
    (found : store.operation id = some operation) : after.operation id = some (call.touch operation) := by
  have touched : lookup OperationRecord.id (store.operations.map call.touch) id = some (call.touch operation) := by
    rw [lookupMapSameKey (fun operation _ => touchId call operation)]
    exact congrArg (Option.map call.touch) found
  rcases outcome.operations with ⟨same,_⟩ | ⟨request,answered,_,same⟩
  · rw [ControlStore.operation,same,touched]
  · obtain ⟨operationId,pipelineId,stored,asked,_⟩ := outcome.rebuild answered
    rw [touchOther (by simp [asked])] at touched
    rw [ControlStore.operation,same,lookupAppend,touched]
    rfl

theorem Outcome.completedBy (outcome : Outcome store call after response) {id operation done}
    (found : store.operation id = some operation) (open' : operation.state ≠ "completed")
    (later : after.operation id = some done) (closed : done.state = "completed") :
    ∃ pipelineId generation own, call.request = .completeRebuilds pipelineId generation ∧
      operation.pipelineId = some pipelineId ∧ operation.generation? = some own ∧ own ≤ generation := by
  have touched := Option.some.inj ((outcome.operationAt found).symm.trans later)
  rw [← touched] at closed
  unfold Call.touch at closed
  split at closed
  next pipelineId generation asked =>
    split at closed
    next completed =>
      obtain ⟨requested,reached⟩ := Bool.and_eq_true_iff.mp completed
      obtain ⟨own,has,below⟩ := (Option.any_eq_true ..).mp reached
      obtain ⟨named,_⟩ := Bool.and_eq_true_iff.mp requested
      obtain ⟨named,_⟩ := Bool.and_eq_true_iff.mp named
      exact ⟨pipelineId,generation,own,asked,of_decide_eq_true named,has,of_decide_eq_true below⟩
    next => exact absurd closed open'
  next => exact absurd closed open'

end Tracking

section Histories
variable {store : ControlStore}

theorem historyAppend (store : ControlStore) (past later : List Call) :
    history store (past ++ later) = history (history store past) later := List.foldl_append

theorem historySound (sound : Sound store) (calls : List Call) : Sound (history store calls) := by
  induction calls generalizing store with
  | nil => exact sound
  | cons call rest ih => exact ih ((runOutcome sound).sound sound)

theorem historyAdvanced (sound : Sound store) (calls : List Call) : Advanced store (history store calls) := by
  induction calls generalizing store with
  | nil => exact advancedSame rfl
  | cons call rest ih =>
    have outcome := @runOutcome store call sound
    exact outcome.advanced.trans (ih (outcome.sound sound))

theorem revisionAdded {revisions : List ConfigRevision} {revision : ConfigRevision}
    (fresh : ∀ other ∈ revisions, other.key ≠ revision.key) :
    (revisions ++ [revision]).filter (fun other => other.key = revision.key) = [revision] := by
  have others : revisions.filter (fun other => other.key = revision.key) = [] := by
    rw [List.filter_eq_nil_iff]
    intro other mem equal
    exact fresh other mem (of_decide_eq_true equal)
  rw [List.filter_append,others,List.nil_append]
  simp

theorem historyRevision (sound : Sound store) (calls : List Call) {revision : ConfigRevision}
    (only : store.configRevisions.filter (fun other => other.key = revision.key) = [revision]) :
    (history store calls).configRevisions.filter (fun other => other.key = revision.key) = [revision] := by
  induction calls generalizing store with
  | nil => exact only
  | cons call rest ih =>
    have outcome := @runOutcome store call sound
    obtain ⟨more,same,apart,_⟩ := outcome.revisions
    have held : revision ∈ store.configRevisions := (List.mem_filter.mp (only ▸ List.mem_singleton_self revision)).1
    have others : more.filter (fun other => other.key = revision.key) = [] := by
      rw [List.filter_eq_nil_iff]
      intro other mem equal
      exact apart other mem revision held (of_decide_eq_true equal).symm
    exact ih (outcome.sound sound) (by rw [same,List.filter_append,only,others,List.append_nil])

theorem historyTracked (sound : Sound store) (calls : List Call) {request done operation}
    (found : store.operation request.operationId = some operation) (tracked : Tracked request done operation) :
    ∃ last, (history store calls).operation request.operationId = some last ∧
      Tracked request (done || calls.any (completing request)) last := by
  induction calls generalizing store done operation with
  | nil => exact ⟨operation,found,by simpa using tracked⟩
  | cons call rest ih =>
    have outcome := @runOutcome store call sound
    obtain ⟨last,here,state⟩ := ih (outcome.sound sound) (outcome.operationAt found) (touchTracked tracked call)
    exact ⟨last,here,by rw [List.any_cons,← Bool.or_assoc]; exact state⟩

theorem historyOrigin (sound : Sound store) (none' : store.operations = []) (past : List Call) :
    ∀ operation ∈ (history store past).operations, ∃ before rebuild rest request, past = before ++ rebuild :: rest ∧
      rebuild.response (history store before) = .rebuild (.ok (some request)) ∧ operation.id = request.operationId := by
  induction past using List.reverseRecOn with
  | nil =>
    intro operation mem
    rw [show (history store []).operations = [] from none'] at mem
    contradiction
  | append_singleton past call ih =>
    intro operation mem
    have outcome := @runOutcome (history store past) call (historySound sound past)
    rw [show history store (past ++ [call]) = call.after (history store past) from historyAppend store past [call]] at mem
    have older {earlier : OperationRecord} (held : earlier ∈ (history store past).operations) :
        ∃ before rebuild rest request, past ++ [call] = before ++ rebuild :: rest ∧
          rebuild.response (history store before) = .rebuild (.ok (some request)) ∧ earlier.id = request.operationId := by
      obtain ⟨before,rebuild,rest,request,rfl,answered,same⟩ := ih earlier held
      exact ⟨before,rebuild,rest ++ [call],request,by simp,answered,same⟩
    rcases outcome.operations with ⟨same,_⟩ | ⟨request,answered,_,same⟩
    · obtain ⟨earlier,held,rfl⟩ := List.mem_map.mp (same ▸ mem)
      rw [touchId]
      exact older held
    · rcases List.mem_append.mp (same ▸ mem) with mem | mem
      · exact older mem
      · exact ⟨past,call,[],request,rfl,answered,by rw [List.mem_singleton.mp mem]; rfl⟩

/- A put after a rebuild leaves at least its generation; one whose generation was computed as the next one of a state
read before the rebuild is refused. -/
theorem stalePut (sound : Sound store) {first second third : List Call} {rebuild call : Call} {request pipeline}
    (answered : rebuild.response (history store (first ++ second)) = .rebuild (.ok (some request)))
    (asked : call.request = .putPipeline pipeline) (same : pipeline.id = request.pipeline.id) :
    let before := history store (first ++ (second ++ rebuild :: third))
    (∃ row, before.pipeline pipeline.id = some row ∧ request.pipeline.snapshotGeneration ≤ row.snapshotGeneration) ∧
    ∀ seen, (history store first).pipeline pipeline.id = some seen →
      pipeline.snapshotGeneration ≤ seen.snapshotGeneration + 1 →
      call.response before ≠ .put (.ok ()) ∧ call.after before = before := by
  intro before
  have rebuilding := historySound sound (first ++ second)
  have outcome := @runOutcome (history store (first ++ second)) rebuild rebuilding
  obtain ⟨operationId,pipelineId,stored,_,found,made,current,_⟩ := outcome.rebuild answered
  have stem : stored.id = pipelineId := lookupKey found
  have here : pipelineId = pipeline.id := by rw [same,made]; exact stem.symm
  rw [here] at found current
  have split : before = history (rebuild.after (history store (first ++ second))) third := by
    show history store (first ++ (second ++ rebuild :: third)) = _
    rw [← List.append_assoc,historyAppend]
    rfl
  obtain ⟨row,live,_,grown⟩ := historyAdvanced (outcome.sound rebuilding) third pipeline.id request.pipeline current
  rw [← split] at live
  refine ⟨⟨row,live,grown⟩,?_⟩
  intro seen read next
  obtain ⟨later,foundLater,_,older⟩ := historyAdvanced (historySound sound first) second pipeline.id seen read
  rw [← historyAppend,found] at foundLater
  cases Option.some.inj foundLater
  have raised : request.pipeline.snapshotGeneration = stored.snapshotGeneration + 1 := by rw [made]
  rcases (runOutcome (historySound sound _)).put asked with refused | ⟨_,_,_,_,newer⟩
  · exact refused
  · have above := (newer row live).2
    omega

theorem rebuildKept (sound : Sound store) {before rest : List Call} {rebuild : Call} {request}
    (answered : rebuild.response (history store before) = .rebuild (.ok (some request))) :
    ∃ operation, (history store (before ++ rebuild :: rest)).operation request.operationId = some operation ∧
      operation.pipelineId = some request.pipeline.id ∧
      operation.generation? = some request.pipeline.snapshotGeneration ∧
      operation.state = if rest.any (completing request) then "completed" else "requested" := by
  have older := historySound sound before
  have rebuilding := @runOutcome (history store before) rebuild older
  rcases rebuilding.operations with ⟨_,none'⟩ | ⟨other,same,free,added⟩
  · exact absurd answered (none' request)
  · have equal : other = request := by simpa using same.symm.trans answered
    rw [equal] at free added
    have here : (rebuild.after (history store before)).operation request.operationId =
        some (rebuildOperation request.pipeline request.operationId rebuild.now) := by
      rw [ControlStore.operation,added,lookupAppend,show lookup OperationRecord.id _ request.operationId = none from free]
      simp [lookup,rebuildOperation]
    obtain ⟨last,found,pipeline,_,generation,state⟩ :=
      historyTracked (rebuilding.sound older) rest here (rebuildTracked request rebuild.now)
    have whole : history store (before ++ rebuild :: rest) = history (rebuild.after (history store before)) rest := by
      rw [historyAppend]
      rfl
    rw [← whole] at found
    exact ⟨last,found,pipeline,generation,by simpa using state⟩

end Histories

/-- In every history of calls, with arguments computed from whatever state: the counters of a pipeline never decrease and
a rebuild raises the generation; a put that answers `StaleRevision` changes neither table, and the definition of one that
succeeds stays the only one of its revision; no put undoes the generation of a rebuild, least of all one computed from an
older state; and an operation is completed exactly by the completions that reach its generation. -/
theorem countersAndRebuildsKept (sources targets : List Uuid) (past : List Call) (call : Call) (later : List Call) :
    let start := ControlStore.empty sources targets
    let store := history start past
    let after := call.after store
    let final := history after later
    (Advanced store after ∧ Advanced after final) ∧
    (∀ operationId pipelineId, call.request = .requestRebuild operationId pipelineId →
      (∃ request stored, call.response store = .rebuild (.ok (some request)) ∧ store.pipeline pipelineId = some stored ∧
        after.pipeline pipelineId = some request.pipeline ∧
        request.pipeline.snapshotGeneration = stored.snapshotGeneration + 1) ∨
      after = store ∧ NoRebuild store operationId pipelineId) ∧
    RevisionsBounded after ∧
    (∀ pipeline, call.request = .putPipeline pipeline →
      (call.response store = .put (.error .staleRevision) →
        after.pipelines = store.pipelines ∧ after.configRevisions = store.configRevisions) ∧
      (call.response store = .put (.ok ()) →
        final.configRevisions.filter (fun revision => revision.key = (pipeline.id,pipeline.configRevision)) =
          [⟨pipeline.id,pipeline.configRevision,definitionJson pipeline,call.now⟩])) ∧
    (∀ first second rebuild third request pipeline, past = first ++ (second ++ rebuild :: third) →
      rebuild.response (history start (first ++ second)) = .rebuild (.ok (some request)) →
      call.request = .putPipeline pipeline → pipeline.id = request.pipeline.id →
      (∃ row, final.pipeline pipeline.id = some row ∧
        request.pipeline.snapshotGeneration ≤ row.snapshotGeneration) ∧
      ∀ seen, (history start first).pipeline pipeline.id = some seen →
        pipeline.snapshotGeneration ≤ seen.snapshotGeneration + 1 →
        call.response store ≠ .put (.ok ()) ∧ after = store) ∧
    (∀ id operation done, store.operation id = some operation → operation.state ≠ "completed" →
      after.operation id = some done → done.state = "completed" →
      ∃ pipelineId generation own, call.request = .completeRebuilds pipelineId generation ∧
        operation.pipelineId = some pipelineId ∧ operation.generation? = some own ∧ own ≤ generation) ∧
    (∀ operation ∈ store.operations, ∃ before rebuild rest request, past = before ++ rebuild :: rest ∧
      rebuild.response (history start before) = .rebuild (.ok (some request)) ∧
      operation.id = request.operationId) ∧
    ∀ before rebuild rest request, past = before ++ rebuild :: rest →
      rebuild.response (history start before) = .rebuild (.ok (some request)) →
      ∃ operation, store.operation request.operationId = some operation ∧
        operation.pipelineId = some request.pipeline.id ∧
        operation.generation? = some request.pipeline.snapshotGeneration ∧
        operation.state = if rest.any (completing request) then "completed" else "requested" := by
  intro start store after final
  have begun : Sound start := emptySound sources targets
  have sound : Sound store := historySound begun past
  have outcome : Outcome store call after (call.response store) := runOutcome sound
  have next : Sound after := outcome.sound sound
  have grown : Advanced after final := historyAdvanced next later
  refine ⟨⟨outcome.advanced,grown⟩,?_,next.revisions,?_,?_,?_,historyOrigin begun rfl past,?_⟩
  · intro operationId pipelineId asked
    rcases outcome.rebuildAsked asked with ⟨request,answered⟩ | refused
    · obtain ⟨_,_,stored,asked',found,made,current,_⟩ := outcome.rebuild answered
      cases asked.symm.trans asked'
      exact .inl ⟨request,stored,answered,found,current,by rw [made]⟩
    · exact .inr refused
  · intro pipeline asked
    rcases outcome.put asked with ⟨failed,same⟩ | ⟨ok,recorded,fresh,_⟩
    · exact ⟨fun _ => ⟨congrArg ControlStore.pipelines same,congrArg ControlStore.configRevisions same⟩,
        fun ok => absurd ok failed⟩
    · refine ⟨fun stale => absurd (ok.symm.trans stale) (by simp),?_⟩
      intro _
      exact historyRevision next later (recorded ▸ revisionAdded fresh)
  · intro first second rebuild third request pipeline split answered asked same
    obtain ⟨⟨row,live,above⟩,refused⟩ := @stalePut start begun first second third rebuild call request pipeline
      answered asked same
    rw [← split] at live refused
    obtain ⟨row',live',_,raised⟩ := (outcome.advanced.trans grown) pipeline.id row live
    exact ⟨⟨row',live',above.trans raised⟩,refused⟩
  · intro id operation done found open' later closed
    exact outcome.completedBy found open' later closed
  · intro before rebuild rest request split answered
    rw [show store = history start (before ++ rebuild :: rest) from congrArg (history start) split]
    exact rebuildKept begun answered

def ordersPipeline : PipelineDefinition := ⟨7,"orders",1,2,false,1,1,.obj [],10,10⟩

def created : Call := ⟨10,.putPipeline ordersPipeline⟩

def rebuilt : Call := ⟨11,.requestRebuild 40 7⟩

def stale : Call := ⟨12,.putPipeline {ordersPipeline with configRevision := 2, snapshotGeneration := 2}⟩

def completion : Call := ⟨13,.completeRebuilds 7 2⟩

def rebuiltRequest : RebuildRequest := ⟨{ordersPipeline with snapshotGeneration := 2, updatedAt := 11},40⟩

theorem stalePutRefused : stale.response (history (.empty [1] [2]) [created,rebuilt]) = .put (.error .staleRevision) ∧
    stale.after (history (.empty [1] [2]) [created,rebuilt]) = history (.empty [1] [2]) [created,rebuilt] ∧
    ∃ operation, (history (.empty [1] [2]) [created,rebuilt,completion]).operation 40 = some operation ∧
      operation.state = "completed" := by
  have answered : rebuilt.response (history (.empty [1] [2]) [created]) = .rebuild (.ok (some rebuiltRequest)) := by rfl
  obtain ⟨_,_,_,_,refused,_⟩ := countersAndRebuildsKept [1] [2] [created,rebuilt] stale []
  obtain ⟨_,refused⟩ := refused [created] [] rebuilt [] rebuiltRequest _ rfl answered rfl rfl
  obtain ⟨_,_,_,_,_,_,_,kept⟩ := countersAndRebuildsKept [1] [2] [created,rebuilt,completion] stale []
  obtain ⟨operation,found,_,_,state⟩ := kept [created] rebuilt [completion] rebuiltRequest rfl answered
  exact ⟨by rfl,(refused ordersPipeline rfl (by decide)).2,operation,found,state⟩

end CloudberryEtl.PipelineStore
