import ReputationFirewall.Firehol.Completeness

set_option autoImplicit false

namespace ReputationFirewall.Firehol

open KeyedStore NetAddr Text

section Discovery

structure DirEntry where
  name : List UInt8
  isFile : Bool
  size : Option Nat
  source : FileSource
  deriving DecidableEq

-- The listing is missing when the directory cannot be read, an entry when reading it fails.
structure Directory where
  path : List UInt8
  isDir : Bool
  listing : Option (List (Option DirEntry))

-- A name that starts with its only dot has no extension.
def extension (name : List UInt8) : Option (List UInt8) :=
  if name = [46, 46] ∨ (name.rdropWhile (· ≠ 46)).length ≤ 1 then none
  else some (name.rtakeWhile (· ≠ 46))

def DirEntry.isBlocklist (entry : DirEntry) : Bool :=
  entry.isFile &&
    match (extension entry.name).bind decodeUtf8 with
    | some ext => ext = "ipset".toList ∨ ext = "netset".toList
    | none => false

def DirEntry.sourceFile (entry : DirEntry) : SourceFile := ⟨entry.name, entry.size.getD 0, entry.source⟩

def collectFiles (path : List UInt8) : List (Option DirEntry) → Except FireholParseError (List SourceFile)
  | [] => .ok []
  | none :: _ => .error (.io path)
  | some entry :: rest =>
      match collectFiles path rest with
      | .error error => .error error
      | .ok files => .ok (if entry.isBlocklist then entry.sourceFile :: files else files)

def discoverFiles (directory : Directory) : Except FireholParseError (List SourceFile) :=
  match directory.listing with
  | none => .error (.io directory.path)
  | some entries => collectFiles directory.path entries

def Directory.Lists (directory : Directory) (entry : DirEntry) : Prop :=
  ∃ entries, directory.listing = some entries ∧ some entry ∈ entries ∧ entry.isBlocklist = true

theorem collectFiles_mem {path : List UInt8} {entries : List (Option DirEntry)} {files : List SourceFile}
    (collected : collectFiles path entries = .ok files) (file : SourceFile) :
    file ∈ files ↔ ∃ entry, some entry ∈ entries ∧ entry.isBlocklist = true ∧ entry.sourceFile = file := by
  induction entries generalizing files with
  | nil =>
      cases collected
      simp
  | cons head rest ih =>
      cases head with
      | none => simp [collectFiles] at collected
      | some entry =>
          cases later : collectFiles path rest with
          | error error => simp [collectFiles, later] at collected
          | ok found =>
              simp only [collectFiles, later, Except.ok.injEq] at collected
              subst collected
              by_cases blocklist : entry.isBlocklist
              · simp [blocklist, ih later, or_and_right, exists_or, @eq_comm _ file]
              · simp [blocklist, ih later, or_and_right, exists_or]

theorem discoverFiles_mem {directory : Directory} {files : List SourceFile}
    (discovered : discoverFiles directory = .ok files) (file : SourceFile) :
    file ∈ files ↔ ∃ entry, directory.Lists entry ∧ entry.sourceFile = file := by
  unfold discoverFiles at discovered
  split at discovered
  · simp at discovered
  · next entries listing =>
    rw [collectFiles_mem discovered file]
    simp [Directory.Lists, listing, and_assoc]

end Discovery

section Importing

structure ImportOptions where
  cached : Bool
  spool : Bool
  cpus : Option Nat

-- Everything that the environment decides in one import.
structure Execution where
  generationFault : Option FirewallError
  order : List SourceFile
  schedule : (workers : Nat) → List (Action workers)
  registerFault : Option FirewallError
  scanError : Option (List Char)
  contextFault : Option FirewallError

-- Files of one size come in any order.
def sortsBySize (files order : List SourceFile) : Bool :=
  order.isPerm files && decide (order.Pairwise fun left right => right.size ≤ left.size)

def ImportOptions.config (options : ImportOptions) (context : ImportContext) (files : List SourceFile) :
    ImportConfig where
  context := context
  files := files
  workers := max (min (options.cpus.getD 4) files.length) 1
  cached := options.cached
  spool := options.spool

def ImportOptions.dataset {workers : Nat} (options : ImportOptions) (execution : Execution)
    (state : Pipeline workers) : FireholDataSet where
  entries := state.allEntries
  storedEntries := if options.spool && options.cached then
    some ⟨state.writer.stored, execution.scanError⟩ else none

-- Counting an entry beyond the last metadata number panics.
def finishImport {workers : Nat} (options : ImportOptions) (execution : Execution)
    (state : Pipeline workers) : Option (Except FireholParseError FireholDataSet) :=
  match if options.cached then execution.registerFault else none with
  | some error => some (.error (.cache error))
  | none =>
      match (options.dataset execution state).visitEntries with
      | .error error => some (.error (.cache error))
      | .ok entries =>
          if options.cached && entries.any (fun entry => state.shared.nextMetadataId ≤ entry.metadataId) then
            none
          else
            match if options.cached then execution.contextFault else none with
            | some error => some (.error (.cache error))
            | none => some (.ok (options.dataset execution state))

def parseDirectoryImpl (context : ImportContext) (options : ImportOptions) (directory : Directory)
    (execution : Execution) : Option (Except FireholParseError FireholDataSet) :=
  match if options.cached then execution.generationFault else none with
  | some error => some (.error (.cache error))
  | none =>
      if directory.isDir then
        match discoverFiles directory with
        | .error error => some (.error error)
        | .ok files =>
            if files = [] then some (.ok ⟨[], none⟩)
            else if sortsBySize files execution.order then
              let config := options.config context execution.order
              (Runs.runSome (Pipeline.step config) .start (execution.schedule config.workers)).bind fun state =>
                match state.scopeResult with
                | none => none
                | some (.error error) => some (.error error)
                | some (.ok ()) => finishImport options execution state
            else none
      else some (.error (.invalidDirectory directory.path))

end Importing

section Results

variable {context : ImportContext} {options : ImportOptions} {execution : Execution}

theorem finishImport_ok {workers : Nat} {state : Pipeline workers} {dataset : FireholDataSet}
    (finished : finishImport options execution state = some (.ok dataset)) :
    dataset = options.dataset execution state ∧ ∃ entries, dataset.visitEntries = .ok entries := by
  unfold finishImport at finished
  split at finished
  · simp at finished
  · split at finished
    · simp at finished
    · next entries visited =>
      split at finished
      · simp at finished
      · split at finished
        · simp at finished
        · obtain rfl : options.dataset execution state = dataset := by simpa using finished
          exact ⟨rfl, entries, visited⟩

theorem config_positive (options : ImportOptions) (context : ImportContext) (files : List SourceFile) :
    0 < (options.config context files).workers := by
  simp [ImportOptions.config]

theorem dataset_entries {files : List SourceFile}
    {state : Pipeline (options.config context files).workers} {blocks : List (List FireholEntry)}
    (conserves : state.Conserves (options.config context files) blocks)
    (joined : state.scopeResult = some (.ok ())) {entries : List FireholEntry}
    (visited : (options.dataset execution state).visitEntries = .ok entries) :
    entries = blocks.flatten := by
  have scanned := conserves.visitEntries (config_positive options context files) joined
  cases mode : options.spool && options.cached with
  | false =>
      simp only [Pipeline.dataset, ImportOptions.config, mode] at scanned
      simp only [ImportOptions.dataset, mode] at visited
      exact Except.ok.inj (visited.symm.trans scanned)
  | true =>
      simp only [Pipeline.dataset, ImportOptions.config, mode] at scanned
      cases scan : execution.scanError with
      | none =>
          simp only [ImportOptions.dataset, mode, scan] at visited
          exact Except.ok.inj (visited.symm.trans scanned)
      | some reason =>
          simp only [ImportOptions.dataset, mode, if_true, FireholDataSet.visitEntries, scan] at visited
          split at visited <;> simp at visited

def Directory.Covers (directory : Directory) (grammar : IpnetGrammar) (ip : IpAddr) : Prop :=
  ∃ entry, directory.Lists entry ∧ FileCovers grammar entry.source.content ip

theorem sortsBySize_mem {files order : List SourceFile} (sorted : sortsBySize files order = true)
    (file : SourceFile) : file ∈ order ↔ file ∈ files := by
  obtain ⟨permuted, _⟩ := Bool.and_eq_true_iff.mp sorted
  exact (List.isPerm_iff.mp permuted).mem_iff

theorem discovered_covers {directory : Directory} {files : List SourceFile}
    (discovered : discoverFiles directory = .ok files) (grammar : IpnetGrammar) (ip : IpAddr) :
    directory.Covers grammar ip ↔ ∃ file ∈ files, FileCovers grammar file.source.content ip := by
  simp only [discoverFiles_mem discovered, Directory.Covers]
  constructor
  · rintro ⟨entry, lists, covers⟩
    exact ⟨entry.sourceFile, ⟨entry, lists, rfl⟩, covers⟩
  · rintro ⟨_, ⟨entry, lists, rfl⟩, covers⟩
    exact ⟨entry, lists, covers⟩

theorem imported_covers_iff {directory : Directory} {dataset : FireholDataSet}
    (imported : parseDirectoryImpl context options directory execution = some (.ok dataset)) :
    ∃ entries, dataset.visitEntries = .ok entries ∧ ∀ ip,
      (∃ entry ∈ entries, entry.target.Covers ip) ↔
        directory.Covers context.grammar ip ∧ ip ∉ context.ignoreIps := by
  unfold parseDirectoryImpl at imported
  split at imported
  · simp at imported
  split at imported
  · cases discovered : discoverFiles directory with
    | error error => simp [discovered] at imported
    | ok files =>
        simp only [discovered] at imported
        split at imported
        · next empty =>
          subst empty
          obtain rfl : ⟨[], none⟩ = dataset := by simpa using imported
          refine ⟨[], rfl, fun ip => ?_⟩
          simp [discovered_covers discovered]
        split at imported
        · next sorted =>
          obtain ⟨state, reached, result⟩ := Option.bind_eq_some_iff.mp imported
          split at result
          · simp at result
          · simp at result
          · next joined =>
            obtain ⟨rfl, entries, visited⟩ := finishImport_ok result
            refine ⟨entries, visited, fun ip => ?_⟩
            obtain ⟨blocks, conserves⟩ :=
              Pipeline.run_conserves reached (Pipeline.scopeResult_ok joined).2.1
            have complete := conserves.complete (config_positive options context execution.order) joined
            rw [dataset_entries conserves joined visited, published_covers complete,
              discovered_covers discovered]
            simp [ImportOptions.config, sortsBySize_mem sorted]
        · simp at imported
  · simp at imported

-- The directory holds the file `a.netset` with the only line `10.0.0.0/30`.
def smallDirectory : Directory where
  path := []
  isDir := true
  listing := some [some
    { name := [97, 46, 110, 101, 116, 115, 101, 116], isFile := true, size := some 12
      source := ⟨true, [49, 48, 46, 48, 46, 48, 46, 48, 47, 51, 48, 10], []⟩ }]

def ignoringContext : ImportContext := ⟨.documented, fun _ => none, [.v4 #v[10, 0, 0, 2]]⟩

def quietExecution : Execution where
  generationFault := none
  order := [⟨[97, 46, 110, 101, 116, 115, 101, 116], 12,
    ⟨true, [49, 48, 46, 48, 46, 48, 46, 48, 47, 51, 48, 10], []⟩⟩]
  schedule
    | 0 => []
    | _ + 1 => List.replicate 10 (.worker 0) ++ [.receive false none, .close none, .dropReceiver]
  registerFault := none
  scanError := none
  contextFault := none

theorem smallDirectory_imported : ∃ dataset,
    parseDirectoryImpl ignoringContext ⟨true, true, some 1⟩ smallDirectory quietExecution =
      some (.ok dataset) ∧
    ∃ entries, dataset.visitEntries = .ok entries ∧ ∀ ip,
      (∃ entry ∈ entries, entry.target.Covers ip) ↔
        smallDirectory.Covers IpnetGrammar.documented ip ∧ ip ∉ [IpAddr.v4 #v[10, 0, 0, 2]] := by
  have returned : ((parseDirectoryImpl ignoringContext ⟨true, true, some 1⟩ smallDirectory
      quietExecution).bind Except.toOption).isSome = true := by decide +kernel
  obtain ⟨dataset, found⟩ := Option.isSome_iff_exists.mp returned
  obtain ⟨result, imported, succeeded⟩ := Option.bind_eq_some_iff.mp found
  cases result with
  | error error => simp [Except.toOption] at succeeded
  | ok other =>
      obtain rfl : other = dataset := Option.some.inj succeeded
      exact ⟨other, imported, imported_covers_iff imported⟩

end Results

end ReputationFirewall.Firehol
