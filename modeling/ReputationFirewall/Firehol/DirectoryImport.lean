import ReputationFirewall.Firehol.EntryOrigins
import ReputationFirewall.Firehol.Import
import ReputationFirewall.Firehol.MaximalBlocks
import ReputationFirewall.Firehol.RuleBlocks

set_option autoImplicit false

namespace ReputationFirewall.Firehol

open BigEndian KeyedStore NetAddr Runs Text

section Model

def Storage.cached : Storage → Bool
  | .memory => false
  | .database .. => true

structure ImportSetup where
  sizeInBytes : List Put → Nat
  storage : Storage
  orders : IndexOrders
  cpus : Option Nat

def ImportSetup.options (setup : ImportSetup) : ImportOptions := ⟨setup.storage.cached, setup.storage.spool, setup.cpus⟩

def Pipeline.taken {workers : Nat} (state : Pipeline workers) : Action workers → List (List FireholEntry)
  | .receive _ _ => state.channel.head?.toList
  | _ => []

def Pipeline.stepReceiving (config : ImportConfig) (state : Pipeline config.workers × List (List FireholEntry))
    (action : Action config.workers) : Option (Pipeline config.workers × List (List FireholEntry)) :=
  (Pipeline.step config state.1 action).map fun next => (next, state.2 ++ state.1.taken action)

def ImportedDataSet.empty : ImportedDataSet where
  entries := []
  storedEntries := none
  counts := ⟨0, 0, 0, 0⟩
  registry := .new

-- The registry is built behind the scope of the workers. `finishImport` has the faults of the database there.
def buildImport {workers : Nat} (setup : ImportSetup) (execution : Execution) (state : Pipeline workers)
    (batches : List (List FireholEntry)) : Option (Except FireholParseError ImportedDataSet) :=
  match finishImport setup.options execution state with
  | none => none
  | some (.error error) => some (.error error)
  | some (.ok _) =>
      importBatches setup.sizeInBytes setup.storage setup.orders state.metadata state.shared.nextMetadataId batches

def parseDirectory (context : ImportContext) (setup : ImportSetup) (directory : Directory) (execution : Execution) :
    Option (Except FireholParseError ImportedDataSet) :=
  match if setup.storage.cached then execution.generationFault else none with
  | some error => some (.error (.cache error))
  | none =>
      if directory.isDir then
        match discoverFiles directory with
        | .error error => some (.error error)
        | .ok files =>
            if files = [] then some (.ok .empty)
            else if sortsBySize files execution.order then
              let config := setup.options.config context execution.order
              (runSome (Pipeline.stepReceiving config) (.start, []) (execution.schedule config.workers)).bind
                fun (state, batches) =>
                  match state.scopeResult with
                  | none => none
                  | some (.error error) => some (.error error)
                  | some (.ok ()) => buildImport setup execution state batches
            else none
      else some (.error (.invalidDirectory directory.path))

end Model

section Receiving

theorem numberBatches_concat (sequence : Nat) (batches : List (List FireholEntry)) (batch : List FireholEntry) :
    numberBatches sequence (batches ++ [batch]) = numberBatches sequence batches ++
      [batch.mapIdx fun offset entry =>
        { entry with ruleId := BitVec.ofNat 32 (sequence + batches.flatten.length + offset + 1) }] := by
  induction batches generalizing sequence with
  | nil => simp [numberBatches]
  | cons first rest ih => simp [numberBatches, ih, Nat.add_assoc]

theorem assignIds_eq {sequence : Nat} {batch entries : List FireholEntry}
    (assigned : assignIds sequence batch = some entries) :
    entries = batch.mapIdx fun offset entry => { entry with ruleId := BitVec.ofNat 32 (sequence + offset + 1) } := by
  unfold assignIds at assigned
  split_ifs at assigned
  exact (Option.some.inj assigned).symm

variable {config : ImportConfig} {state next : Pipeline config.workers} {action : Action config.workers}

theorem healthyStep_of_action (stepped : Pipeline.step config state action = some next) (healthy : next.Healthy) :
    ∃ published, Pipeline.HealthyStep config state next published ∧
      (published = none ∧ state.taken action = [] ∨
        ∃ batch entries, published = some entries ∧ state.taken action = [batch] ∧
          assignIds state.sequence batch = some entries) := by
  cases action with
  | worker index =>
      obtain ⟨move, moved, rfl⟩ := Option.map_eq_some_iff.mp stepped
      exact ⟨none, .worker moved (by simpa using healthy.2 index), Or.inl ⟨rfl, rfl⟩⟩
  | panic index =>
      simp only [Pipeline.step] at stepped
      split_ifs at stepped
      cases stepped
      simpa [Worker.healthy] using Pipeline.healthy_worker healthy
  | receive commits fault =>
      simp only [Pipeline.step] at stepped
      split at stepped
      · next batch rest receiving channel =>
        cases stepped
        cases assigned : assignIds state.sequence batch with
        | none => simp [Pipeline.receive, assigned, Pipeline.stop, Pipeline.Healthy, Pipeline.failure] at healthy
        | some entries =>
            cases written : if config.cached then fault else none with
            | some error =>
                simp [Pipeline.receive, assigned, written, Pipeline.stop, Pipeline.Healthy, Pipeline.failure] at healthy
            | none =>
                refine ⟨some entries, ?_, Or.inr ⟨batch, entries, rfl, by simp [Pipeline.taken, channel], assigned⟩⟩
                simpa [Pipeline.receive, assigned, written] using
                  Pipeline.HealthyStep.publish commits receiving channel assigned
      · cases stepped
  | close fault =>
      simp only [Pipeline.step] at stepped
      split_ifs at stepped with closing
      cases stepped
      cases written : if config.cached then fault else none with
      | some error => simp [Pipeline.close, written, Pipeline.stop, Pipeline.Healthy, Pipeline.failure] at healthy
      | none =>
          refine ⟨none, ?_, Or.inl ⟨rfl, rfl⟩⟩
          simpa [Pipeline.close, written] using Pipeline.HealthyStep.close closing.2.1 closing.2.2
  | dropReceiver =>
      simp only [Pipeline.step] at stepped
      split at stepped
      · next failure stopping =>
        cases stepped
        obtain rfl : failure = none := healthy.1
        exact ⟨none, .dropReceiver stopping, Or.inl ⟨rfl, rfl⟩⟩
      · cases stepped

structure Receives (state : Pipeline config.workers) (batches : List (List FireholEntry)) : Prop where
  conserves : state.Conserves config (numberBatches 0 batches)
  nonempty : ∀ batch ∈ batches, batch ≠ []
  refines : ∃ schedule current, RefinesCalls state (numberBatches 0 batches) current
    (run (ParseCalls.stepOf config) (.start 1) schedule)

theorem Receives.step {batches : List (List FireholEntry)} (receives : Receives state batches)
    (stepped : Pipeline.step config state action = some next) (healthy : next.Healthy) :
    Receives next (batches ++ state.taken action) := by
  obtain ⟨conserves, nonempty, schedule, current, refines⟩ := receives
  obtain ⟨published, healthyStep, taken⟩ := healthyStep_of_action stepped healthy
  obtain ⟨more, working, kept⟩ := refines.step conserves healthyStep
  rw [← run_append] at kept
  have conserved := conserves.step healthyStep
  rcases taken with ⟨rfl, quiet⟩ | ⟨batch, entries, rfl, received, assigned⟩
  · rw [Option.toList_none, List.append_nil] at kept conserved
    rw [quiet, List.append_nil]
    exact ⟨conserved, nonempty, _, _, kept⟩
  · have numbered : numberBatches 0 (batches ++ [batch]) = numberBatches 0 batches ++ [entries] := by
      rw [numberBatches_concat, assignIds_eq assigned, conserves.sequence, numberBatches_length, Nat.zero_add]
    rw [Option.toList_some, ← numbered] at kept conserved
    rw [received]
    refine ⟨conserved, ?_, _, _, kept⟩
    simp only [List.mem_append, List.mem_singleton]
    rintro other (before | rfl)
    · exact nonempty other before
    · intro empty
      have blank := conserved.nonempty [] (by simp [numberBatches_concat, empty])
      exact blank rfl

theorem run_receives {actions : List (Action config.workers)} {batches : List (List FireholEntry)}
    (reached : runSome (Pipeline.stepReceiving config) (.start, []) actions = some (state, batches))
    (healthy : state.Healthy) : Receives state batches := by
  refine @runSome_invariant _ _ _ (fun pair => pair.1.Healthy → Receives pair.1 pair.2) _ _ ?_ ?_ _ reached healthy
  · intro _
    exact ⟨Pipeline.conserves_start config, by simp, [], _, start_refines⟩
  · intro pair action after kept stepped sound
    obtain ⟨next, moved, rfl⟩ := Option.map_eq_some_iff.mp stepped
    exact (kept (Pipeline.healthy_before (Pipeline.step_stepped moved) sound)).step moved sound

end Receiving

section Targets

variable {context : ImportContext} {line token : List Char} {targets : List FireholIpTarget}

theorem FireholIpTarget.Normal.canonical {target : FireholIpTarget} (normal : target.Normal) : target.Canonical := by
  cases target with
  | exactV4 | exactV6 => trivial
  | cidrV4 | cidrV6 => exact normal.2

theorem tokenTargets_canonical (parsed : tokenTargets context token = some targets) :
    ∀ target ∈ targets, target.Canonical := by
  obtain ⟨single, found, chosen⟩ := Option.bind_eq_some_iff.mp parsed
  split_ifs at chosen
  · unfold parseIpOrCidrWithIgnore at chosen
    split_ifs at chosen
    · split at chosen
      · cases chosen
        exact fun target member => (ipv4Family_describes.mem_networkTargets target |>.mp member).normal.canonical
      · cases chosen
        exact fun target member => (ipv6Family_describes.mem_networkTargets target |>.mp member).normal.canonical
      · cases chosen
    · split at chosen
      · next addr _ =>
        split_ifs at chosen <;> cases chosen
        · simp
        · cases addr <;> simp [addressTarget, FireholIpTarget.Canonical]
      · cases chosen
  · cases chosen
    simpa using parseIpOrCidr_canonical found

theorem lineTargets_canonical (parsed : lineTargets context line = some targets) :
    ∀ target ∈ targets, target.Canonical := by
  unfold lineTargets at parsed
  split at parsed
  · exact tokenTargets_canonical parsed
  · cases parsed
    simp

theorem lineTargets_of_covers {ip : IpAddr} (covers : LineCovers context.grammar line ip) :
    ∃ targets, lineTargets context line = some targets := by
  obtain ⟨token, kind, listed⟩ := covers
  rw [lineTargets, kind, ← Option.isSome_iff_exists]
  dsimp only
  rw [tokenTargets_isSome, parseIpOrCidr_eq]
  unfold TokenCovers at listed
  split_ifs at listed ⊢ with slash
  · obtain ⟨net, read, _⟩ := listed
    simp [read]
  · simp [listed]

end Targets

section Outcome

variable {context : ImportContext} {setup : ImportSetup} {directory : Directory} {execution : Execution}
  {imported : ImportedDataSet}

structure Built (context : ImportContext) (setup : ImportSetup) (execution : Execution)
    (state : Pipeline (setup.options.config context execution.order).workers)
    (batches : List (List FireholEntry)) (imported : ImportedDataSet) : Prop where
  ran : runSome (Pipeline.stepReceiving (setup.options.config context execution.order)) (.start, [])
    (execution.schedule (setup.options.config context execution.order).workers) = some (state, batches)
  joined : state.scopeResult = some (.ok ())
  finished : ∃ dataset, finishImport setup.options execution state = some (.ok dataset)
  done : importBatches setup.sizeInBytes setup.storage setup.orders state.metadata state.shared.nextMetadataId batches =
    some (.ok imported)

theorem parseDirectory_ok (done : parseDirectory context setup directory execution = some (.ok imported)) :
    ∃ files, discoverFiles directory = .ok files ∧
      (files = [] ∧ imported = .empty ∨
        sortsBySize files execution.order = true ∧ ∃ state batches, Built context setup execution state batches imported) := by
  unfold parseDirectory at done
  split at done
  · simp at done
  split_ifs at done
  · cases discovered : discoverFiles directory with
    | error error => simp [discovered] at done
    | ok files =>
        refine ⟨files, rfl, ?_⟩
        simp only [discovered] at done
        split_ifs at done with absent sorted
        · simp only [Option.some.injEq, Except.ok.injEq] at done
          exact Or.inl ⟨absent, done.symm⟩
        · obtain ⟨⟨state, batches⟩, ran, result⟩ := Option.bind_eq_some_iff.mp done
          refine Or.inr ⟨sorted, state, batches, ?_⟩
          dsimp only at result
          split at result
          · simp at result
          · simp at result
          · next joined =>
            unfold buildImport at result
            split at result
            · simp at result
            · simp at result
            · next dataset finished => exact ⟨ran, joined, ⟨dataset, finished⟩, result⟩
  · simp at done

theorem mem_importedEntries {batches : List (List FireholEntry)} {source : FireholEntry}
    (member : source ∈ batches.flatten) :
    ∃ entry ∈ importedEntries batches, entry.target = source.target ∧ entry.metadataId = source.metadataId := by
  have sent : ∀ sequence, ∃ entry ∈ (numberBatches sequence batches).flatten,
      entry.target = source.target ∧ entry.metadataId = source.metadataId := by
    induction batches with
    | nil => simp at member
    | cons batch rest ih =>
        intro sequence
        rw [numberBatches, List.flatten_cons]
        rw [List.flatten_cons, List.mem_append] at member
        rcases member with first | later
        · obtain ⟨offset, inside, rfl⟩ := List.mem_iff_getElem.mp first
          exact ⟨_, List.mem_append_left _ (List.mem_mapIdx.mpr ⟨offset, inside, rfl⟩), rfl, rfl⟩
        · obtain ⟨entry, own, same⟩ := ih later (sequence + batch.length)
          exact ⟨entry, List.mem_append_right _ own, same⟩
  exact sent 0

structure ImportedFrom (context : ImportContext) (files : List SourceFile) (metadata : List FireholMetadata)
    (nextMetadataId : BitVec 32) (batches : List (List FireholEntry)) : Prop where
  nonempty : ∀ batch ∈ batches, batch ≠ []
  numbering : Numbering metadata nextMetadataId
  origins : ∀ entry ∈ importedEntries batches, ∃ file ∈ files, ∃ position,
    FromLine context metadata file position entry
  complete : ∀ file ∈ files, ∀ position line targets target, file.textLines[position]? = some line →
    lineTargets context line = some targets → target ∈ targets →
      ∃ entry ∈ importedEntries batches, entry.target = target ∧ FromLine context metadata file position entry

theorem run_importedFrom {config : ImportConfig} (positive : 0 < config.workers)
    (few : numbersNeeded config.files + 1 < 2 ^ 32) {actions : List (Action config.workers)}
    {state : Pipeline config.workers} {batches : List (List FireholEntry)}
    (ran : runSome (Pipeline.stepReceiving config) (.start, []) actions = some (state, batches))
    (joined : state.scopeResult = some (.ok ())) :
    ImportedFrom config.context config.files state.metadata state.shared.nextMetadataId batches := by
  obtain ⟨conserves, nonempty, schedule, current, refines⟩ := run_receives ran (Pipeline.scopeResult_ok joined).2.1
  have completes := refines.completes conserves positive joined
  exact ⟨nonempty, completes.numbering few, completes.origins.1, completes.origins.2⟩

section Facts

variable {files : List SourceFile} {metadata : List FireholMetadata} {nextMetadataId : BitVec 32}
  {batches : List (List FireholEntry)} (sound : ImportedFrom context files metadata nextMetadataId batches)

include sound

theorem ImportedFrom.range : ∀ entry ∈ batches.flatten, entry.target.PrefixInRange := by
  intro source member
  obtain ⟨entry, own, target, _⟩ := mem_importedEntries member
  obtain ⟨_, _, _, origin⟩ := sound.origins entry own
  obtain ⟨line, targets, _, parsed, inside⟩ := origin.line
  exact target ▸ lineTargets_range parsed _ inside

theorem ImportedFrom.canonical : ∀ entry ∈ batches.flatten, entry.target.Canonical := by
  intro source member
  obtain ⟨entry, own, target, _⟩ := mem_importedEntries member
  obtain ⟨_, _, _, origin⟩ := sound.origins entry own
  obtain ⟨line, targets, _, parsed, inside⟩ := origin.line
  exact target ▸ lineTargets_canonical parsed _ inside

theorem ImportedFrom.registered : ∀ entry ∈ batches.flatten, Registered metadata nextMetadataId entry := by
  intro source member
  obtain ⟨entry, own, _, number⟩ := mem_importedEntries member
  obtain ⟨_, _, _, origin⟩ := sound.origins entry own
  obtain ⟨record, known, id, _⟩ := origin.record
  rw [number] at id
  exact ⟨List.mem_map.mpr ⟨record, known, id⟩, id ▸ sound.numbering.below record known⟩

theorem ImportedFrom.source_of {file : SourceFile} {position : Nat} {entry : FireholEntry}
    (origin : FromLine context metadata file position entry) :
    sourceIn (metadataTable metadata) entry = (file.name, BitVec.ofNat 32 (position + 1)) ∧
      categoryIn (metadataTable metadata) entry.metadataId = categoryOf (file.textLines.take position) := by
  obtain ⟨record, known, id, name, category⟩ := origin.record
  have found : (metadataTable metadata).lookup entry.metadataId = some record := by
    refine lookup_insertAll_nodup ∅ ?_ (List.mem_map.mpr ⟨record, known, Prod.ext id rfl⟩)
    rw [List.map_map]
    exact sound.numbering.distinct
  simp [sourceIn, fileIn, categoryIn, found, name, category, origin.number]

theorem ImportedFrom.imports (setup : ImportSetup) (small : batches.flatten.length < 2 ^ 32) :
    ∃ imported, importBatches setup.sizeInBytes setup.storage setup.orders metadata nextMetadataId batches =
        some (.ok imported) ∧ imported.visitEntries = .ok (importedEntries batches) := by
  cases setup.storage with
  | memory => exact ⟨_, importBatches_memory setup.sizeInBytes setup.orders metadata nextMetadataId small, rfl⟩
  | database archive limit spool =>
      obtain ⟨spooled, database, done, visited, _⟩ := importBatches_database setup.sizeInBytes setup.orders metadata
        nextMetadataId archive limit spool sound.nonempty sound.range sound.registered small
      exact ⟨_, done, visited⟩

end Facts

end Outcome

section Refinement

variable {context : ImportContext} {setup : ImportSetup} {directory : Directory} {execution : Execution}

theorem runSome_receiving {config : ImportConfig} (state : Pipeline config.workers)
    (batches : List (List FireholEntry)) (actions : List (Action config.workers)) :
    (runSome (Pipeline.stepReceiving config) (state, batches) actions).map Prod.fst =
      runSome (Pipeline.step config) state actions := by
  induction actions generalizing state batches with
  | nil => rfl
  | cons action rest ih =>
      simp only [runSome, List.foldlM_cons, Pipeline.stepReceiving] at ih ⊢
      cases Pipeline.step config state action with
      | none => rfl
      | some next => exact ih next _

def Directory.Numberable (directory : Directory) : Prop :=
  ∀ files, discoverFiles directory = .ok files → numbersNeeded files + 1 < 2 ^ 32

theorem numbersNeeded_sorted {files order : List SourceFile} (sorted : sortsBySize files order = true) :
    numbersNeeded order = numbersNeeded files :=
  ((List.isPerm_iff.mp (Bool.and_eq_true_iff.mp sorted).1).map _).sum_eq

theorem build_finished (few : numbersNeeded execution.order + 1 < 2 ^ 32)
    {state : Pipeline (setup.options.config context execution.order).workers} {batches : List (List FireholEntry)}
    {actions : List (Action (setup.options.config context execution.order).workers)}
    (ran : runSome (Pipeline.stepReceiving (setup.options.config context execution.order)) (.start, []) actions =
      some (state, batches))
    (joined : state.scopeResult = some (.ok ())) {dataset : FireholDataSet}
    (finished : finishImport setup.options execution state = some (.ok dataset)) :
    ∃ imported, importBatches setup.sizeInBytes setup.storage setup.orders state.metadata state.shared.nextMetadataId
        batches = some (.ok imported) ∧ imported.visitEntries = dataset.visitEntries := by
  have sound := run_importedFrom (config_positive setup.options context execution.order) few ran joined
  have conserves := (run_receives ran (Pipeline.scopeResult_ok joined).2.1).conserves
  have bounded := conserves.bounded
  rw [conserves.sequence, numberBatches_length] at bounded
  obtain ⟨imported, done, visited⟩ := sound.imports setup bounded
  obtain ⟨rfl, entries, scanned⟩ := finishImport_ok finished
  refine ⟨imported, done, ?_⟩
  rw [visited, scanned, dataset_entries conserves joined scanned]
  rfl

structure BuiltFrom (context : ImportContext) (setup : ImportSetup) (directory : Directory) (execution : Execution)
    (state : Pipeline (setup.options.config context execution.order).workers) (batches : List (List FireholEntry))
    (imported : ImportedDataSet) : Prop where
  sound : ImportedFrom context execution.order state.metadata state.shared.nextMetadataId batches
  small : batches.flatten.length < 2 ^ 32
  completes : ∃ schedule, Completes state (importedEntries batches)
    (run (ParseCalls.stepOf (setup.options.config context execution.order)) (.start 1) schedule)
  visited : imported.visitEntries = .ok (importedEntries batches)
  listed : ∀ file, file ∈ execution.order ↔ ∃ entry, directory.Lists entry ∧ entry.sourceFile = file

theorem Built.builtFrom {state : Pipeline (setup.options.config context execution.order).workers}
    {batches : List (List FireholEntry)} {imported : ImportedDataSet}
    (built : Built context setup execution state batches imported) (numberable : directory.Numberable)
    {files : List SourceFile} (discovered : discoverFiles directory = .ok files)
    (sorted : sortsBySize files execution.order = true) :
    BuiltFrom context setup directory execution state batches imported := by
  have few : numbersNeeded execution.order + 1 < 2 ^ 32 := by
    rw [numbersNeeded_sorted sorted]
    exact numberable files discovered
  have positive := config_positive setup.options context execution.order
  have sound := run_importedFrom positive few built.ran built.joined
  obtain ⟨conserves, _, schedule, current, refines⟩ :=
    run_receives built.ran (Pipeline.scopeResult_ok built.joined).2.1
  have small := conserves.bounded
  rw [conserves.sequence, numberBatches_length] at small
  refine ⟨sound, small, ⟨schedule, refines.completes conserves positive built.joined⟩, ?_, fun file => ?_⟩
  · obtain ⟨other, again, visited⟩ := sound.imports setup small
    obtain rfl : other = imported := Except.ok.inj (Option.some.inj (again.symm.trans built.done))
    exact visited
  · exact (sortsBySize_mem sorted file).trans (discoverFiles_mem discovered file)

theorem directory_import_outcome (numberable : directory.Numberable) :
    match parseDirectoryImpl context setup.options directory execution with
    | none => parseDirectory context setup directory execution = none
    | some (.error error) => parseDirectory context setup directory execution = some (.error error)
    | some (.ok dataset) => ∃ imported, parseDirectory context setup directory execution = some (.ok imported) ∧
        imported.visitEntries = dataset.visitEntries := by
  have cached : setup.options.cached = setup.storage.cached := rfl
  unfold parseDirectoryImpl parseDirectory
  rw [cached]
  cases if setup.storage.cached = true then execution.generationFault else none with
  | some error => rfl
  | none =>
      dsimp only
      split_ifs with isDir
      · cases discovered : discoverFiles directory with
        | error error => rfl
        | ok files =>
            dsimp only
            split_ifs with absent sorted
            · exact ⟨.empty, rfl, rfl⟩
            · rw [← runSome_receiving .start []]
              cases ran : runSome (Pipeline.stepReceiving (setup.options.config context execution.order)) (.start, [])
                  (execution.schedule (setup.options.config context execution.order).workers) with
              | none => rfl
              | some reached =>
                  obtain ⟨state, batches⟩ := reached
                  simp only [Option.map_some, Option.bind_some]
                  cases joined : state.scopeResult with
                  | none => rfl
                  | some result =>
                      cases result with
                      | error error => rfl
                      | ok _ =>
                          dsimp only [buildImport]
                          cases finished : finishImport setup.options execution state with
                          | none => rfl
                          | some result =>
                              cases result with
                              | error error => rfl
                              | ok dataset =>
                                  refine build_finished ?_ ran joined finished
                                  rw [numbersNeeded_sorted sorted]
                                  exact numberable files discovered
            · rfl
      · rfl

noncomputable def smallSetup (storage : Storage) : ImportSetup :=
  ⟨fun _ => 0, storage, ⟨.arbitrary _, .arbitrary _⟩, some 1⟩

theorem smallDirectory_numberable : smallDirectory.Numberable := by
  intro files discovered
  have found : discoverFiles smallDirectory = .ok quietExecution.order := rfl
  cases found.symm.trans discovered
  decide +kernel

theorem smallDirectory_outcome : ∃ imported,
    parseDirectory ignoringContext (smallSetup (.database .counting 0 true)) smallDirectory quietExecution =
      some (.ok imported) := by
  have returned : ((parseDirectoryImpl ignoringContext (smallSetup (.database .counting 0 true)).options
      smallDirectory quietExecution).bind Except.toOption).isSome = true := by decide +kernel
  have outcome := @directory_import_outcome ignoringContext (smallSetup (.database .counting 0 true)) _ quietExecution
    smallDirectory_numberable
  split at outcome
  · next unfinished => simp [unfinished] at returned
  · next error failed => simp [failed, Except.toOption] at returned
  · obtain ⟨imported, done, _⟩ := outcome
    exact ⟨imported, done⟩

end Refinement

section Lines

variable {context : ImportContext} {setup : ImportSetup} {directory : Directory} {execution : Execution}
  {imported : ImportedDataSet}

structure Directory.ListsAt (directory : Directory) (context : ImportContext) (ip : IpAddr) (file : SourceFile)
    (position : Nat) : Prop where
  found : ∃ entry, directory.Lists entry ∧ entry.sourceFile = file
  line : ∃ line, file.textLines[position]? = some line ∧ LineCovers context.grammar line ip
  kept : ip ∉ context.ignoreIps

-- The probes of the database can miss a network around an IPv6 address.
def Storage.FindsAll : Storage → IpAddr → Prop
  | .database .., .v6 _ => False
  | _, _ => True

section Coverage

variable {files : List SourceFile} {metadata : List FireholMetadata} {nextMetadataId : BitVec 32}
  {batches : List (List FireholEntry)} (sound : ImportedFrom context files metadata nextMetadataId batches)
  (listed : ∀ file, file ∈ files ↔ ∃ entry, directory.Lists entry ∧ entry.sourceFile = file)

include listed

theorem FromLine.listsAt {file : SourceFile} (member : file ∈ files) {position : Nat} {entry : FireholEntry}
    (origin : FromLine context metadata file position entry) {ip : IpAddr} (covers : entry.target.Covers ip) :
    directory.ListsAt context ip file position := by
  obtain ⟨line, targets, here, parsed, inside⟩ := origin.line
  obtain ⟨own, kept⟩ := (lineTargets_covers parsed ip).mp ⟨entry.target, inside, covers⟩
  exact ⟨(listed file).mp member, ⟨line, here, own⟩, kept⟩

include sound

theorem ImportedFrom.of_listsAt {ip : IpAddr} {file : SourceFile} {position : Nat}
    (lists : directory.ListsAt context ip file position) :
    ∃ entry ∈ importedEntries batches, entry.target.Covers ip ∧ FromLine context metadata file position entry := by
  obtain ⟨line, here, own⟩ := lists.line
  obtain ⟨targets, parsed⟩ := lineTargets_of_covers own
  obtain ⟨target, inside, covers⟩ := (lineTargets_covers parsed ip).mpr ⟨own, lists.kept⟩
  obtain ⟨entry, member, rfl, origin⟩ :=
    sound.complete file ((listed file).mpr lists.found) position line targets target here parsed inside
  exact ⟨entry, member, covers, origin⟩

end Coverage

theorem ImportedFrom.mem_lookup {files : List SourceFile} {metadata : List FireholMetadata}
    {nextMetadataId : BitVec 32} {batches : List (List FireholEntry)}
    (sound : ImportedFrom context files metadata nextMetadataId batches)
    (done : importBatches setup.sizeInBytes setup.storage setup.orders metadata nextMetadataId batches =
      some (.ok imported)) (ip : IpAddr) :
    (∀ block ∈ imported.registry.lookupIp ip, ∃ entry ∈ importedEntries batches, entry.target.Covers ip ∧
      targetContext (metadataTable metadata) (importedEntries batches) entry.target = block) ∧
    (setup.storage.FindsAll ip → ∀ entry ∈ importedEntries batches, entry.target.Covers ip →
      targetContext (metadataTable metadata) (importedEntries batches) entry.target ∈ imported.registry.lookupIp ip) := by
  cases stored : setup.storage with
  | memory =>
      rw [stored] at done
      have found := mem_lookupIp_inMemory sound.nonempty sound.range sound.registered done ip
      exact ⟨fun block => (found block).mp, fun _ entry member covers => (found _).mpr ⟨entry, member, covers, rfl⟩⟩
  | database archive limit spool =>
      rw [stored] at done
      have found := mem_lookupIp_database sound.nonempty sound.range sound.canonical sound.registered done ip
      constructor
      · intro block member
        obtain ⟨entry, own, probed, same⟩ := (found block).mp member
        exact ⟨entry, own, probed.1, same⟩
      · intro findsAll entry member covers
        refine (found _).mpr ⟨entry, member, ⟨covers, ?_⟩, rfl⟩
        cases ip with
        | v4 => cases entry.target <;> simp [FireholIpTarget.Missed]
        | v6 => exact findsAll.elim

theorem lookup_names_listing_lines (numberable : directory.Numberable)
    (done : parseDirectory context setup directory execution = some (.ok imported)) (ip : IpAddr) :
    (∀ block ∈ imported.registry.lookupIp ip,
      (∀ source ∈ block.sources, ∃ file position, directory.ListsAt context ip file position ∧
        source = (file.name, BitVec.ofNat 32 (position + 1))) ∧
      (∀ category ∈ block.categories, ∃ file position, directory.ListsAt context ip file position ∧
        category = categoryOf (file.textLines.take position))) ∧
    (setup.storage.FindsAll ip → ∀ file position, directory.ListsAt context ip file position →
      ∃ block ∈ imported.registry.lookupIp ip, (file.name, BitVec.ofNat 32 (position + 1)) ∈ block.sources ∧
        categoryOf (file.textLines.take position) ∈ block.categories) := by
  obtain ⟨files, discovered, ⟨rfl, rfl⟩ | ⟨sorted, state, batches, built⟩⟩ := parseDirectory_ok done
  · -- Without files there are no lines.
    constructor
    · intro block member
      cases ip <;> simp [ImportedDataSet.empty, FireholMetadataRegistry.lookupIp, FireholMetadataRegistry.lookupIpV4,
        FireholMetadataRegistry.lookupIpV6, FireholMetadataRegistry.new] at member
    · intro _ file position lists
      have member := (discoverFiles_mem discovered file).mpr lists.found
      simp at member
  · have facts := built.builtFrom numberable discovered sorted
    have sound := facts.sound
    have listed := facts.listed
    obtain ⟨only, all⟩ := sound.mem_lookup built.done ip
    constructor
    · intro block member
      obtain ⟨entry, _, covers, rfl⟩ := only block member
      constructor
      · intro source named
        obtain ⟨other, own, target, same⟩ := (mem_targetContext_sources entry.target source).mp named
        obtain ⟨file, inside, position, origin⟩ := sound.origins other own
        exact ⟨file, position, origin.listsAt listed inside (target ▸ covers), same ▸ (sound.source_of origin).1⟩
      · intro category named
        obtain ⟨other, own, target, same⟩ := (mem_targetContext_categories entry.target category).mp named
        obtain ⟨file, inside, position, origin⟩ := sound.origins other own
        exact ⟨file, position, origin.listsAt listed inside (target ▸ covers), same ▸ (sound.source_of origin).2⟩
    · intro findsAll file position lists
      obtain ⟨entry, member, covers, origin⟩ := sound.of_listsAt listed lists
      obtain ⟨source, category⟩ := sound.source_of origin
      refine ⟨_, all findsAll entry member covers, ?_, ?_⟩
      · exact (mem_targetContext_sources entry.target _).mpr ⟨entry, member, rfl, source⟩
      · exact (mem_targetContext_categories entry.target _).mpr ⟨entry, member, rfl, category⟩

theorem imported_entries_listed (numberable : directory.Numberable)
    (done : parseDirectory context setup directory execution = some (.ok imported)) :
    ∃ entries, imported.visitEntries = .ok entries ∧ ∀ entry ∈ entries, entry.target.PrefixInRange ∧
      ∀ ip, entry.target.Covers ip → ∃ file position, directory.ListsAt context ip file position := by
  obtain ⟨files, discovered, ⟨_, rfl⟩ | ⟨sorted, state, batches, built⟩⟩ := parseDirectory_ok done
  · exact ⟨[], rfl, by simp⟩
  · obtain ⟨sound, _, _, visited, listed⟩ := built.builtFrom numberable discovered sorted
    refine ⟨importedEntries batches, visited, fun entry member => ?_⟩
    obtain ⟨file, inside, position, origin⟩ := sound.origins entry member
    obtain ⟨line, targets, _, parsed, own⟩ := origin.line
    exact ⟨lineTargets_range parsed _ own, fun ip covers => ⟨file, position, origin.listsAt listed inside covers⟩⟩

theorem returned_ok {ε α : Type} {result : Option (Except ε α)}
    (returned : (result.bind Except.toOption).isSome = true) : ∃ value, result = some (.ok value) := by
  obtain ⟨value, found⟩ := Option.isSome_iff_exists.mp returned
  obtain ⟨ended, rfl, succeeded⟩ := Option.bind_eq_some_iff.mp found
  cases ended with
  | error error => simp [Except.toOption] at succeeded
  | ok value => exact ⟨value, rfl⟩

def smallFile : SourceFile := quietExecution.order.head (by decide)

theorem smallFile_lists : smallDirectory.ListsAt ignoringContext (.v4 (ipv4Octets 10 0 0 1)) smallFile 0 where
  found := ⟨_, ⟨_, rfl, List.mem_singleton_self _, by decide +kernel⟩, rfl⟩
  line := by
    refine ⟨"10.0.0.0/30".toList, by decide +kernel, "10.0.0.0/30".toList, by decide +kernel, ?_⟩
    have covers : SamePrefix 30 (ipv4Octets 10 0 0 0) (ipv4Octets 10 0 0 1) := by decide
    rw [TokenCovers, if_pos (by decide)]
    exact ⟨.v4 ⟨ipv4Octets 10 0 0 0, 30, by decide⟩, by decide +kernel, covers⟩
  kept := by decide +kernel

-- The first address of the network is listed, the second one is ignored.
theorem smallDirectory_lookup : ∃ imported,
    parseDirectory ignoringContext (smallSetup .memory) smallDirectory quietExecution = some (.ok imported) ∧
      (∃ block ∈ imported.registry.lookupIp (.v4 (ipv4Octets 10 0 0 1)), ("a.netset".toList, 1) ∈ block.sources) ∧
      ∀ block ∈ imported.registry.lookupIp (.v4 (ipv4Octets 10 0 0 2)), block.sources = [] := by
  have returned : ((parseDirectory ignoringContext (smallSetup .memory) smallDirectory quietExecution).bind
      Except.toOption).isSome = true := by decide +kernel
  obtain ⟨imported, parsed⟩ := returned_ok returned
  have listed := (lookup_names_listing_lines smallDirectory_numberable parsed (.v4 (ipv4Octets 10 0 0 1))).2
  have ignored := (lookup_names_listing_lines smallDirectory_numberable parsed (.v4 (ipv4Octets 10 0 0 2))).1
  refine ⟨imported, parsed, ?_, fun block member => List.eq_nil_iff_forall_not_mem.mpr fun source own => ?_⟩
  · obtain ⟨block, member, named, _⟩ := listed trivial smallFile 0 smallFile_lists
    have name : smallFile.name = "a.netset".toList := by decide +kernel
    rw [name] at named
    exact ⟨block, member, named⟩
  · obtain ⟨file, position, lists, _⟩ := (ignored block member).1 source own
    exact lists.kept (by decide)

end Lines

end ReputationFirewall.Firehol
