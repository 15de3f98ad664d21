import ReputationFirewall.Firehol.FileParser
import ReputationFirewall.Firehol.Spool
import ReputationFirewall.Shared.Runs

set_option autoImplicit false

namespace ReputationFirewall.Firehol

open BigEndian KeyedStore NetAddr Text

def workerBatchSize : Nat := 32768

structure SourceFile where
  path : List UInt8
  size : Nat
  source : FileSource
  deriving DecidableEq

structure ImportConfig where
  context : ImportContext
  files : List SourceFile
  workers : Nat
  cached : Bool
  spool : Bool

section Workers

structure Shared where
  fileIndex : Nat
  abort : Bool
  nextMetadataId : BitVec 32
  deriving DecidableEq

structure FileProgress where
  file : SourceFile
  state : FileState
  lines : List (List Char)
  lineNumber : Nat
  bytes : Option Nat
  pending : List FireholEntry
  deriving DecidableEq

inductive WorkerPhase where
  | checking
  | taking
  | opening (file : SourceFile)
  | parsing (progress : FileProgress)
  | draining
  | finished
  | failed (error : FireholParseError)
  | panicked
  deriving DecidableEq

structure WorkerOutput where
  metadata : List FireholMetadata
  files : Nat
  bytes : Nat
  deriving DecidableEq

structure Worker where
  phase : WorkerPhase
  buffer : List FireholEntry
  output : WorkerOutput
  deriving DecidableEq

def Worker.start : Worker := ⟨.checking, [], ⟨[], 0, 0⟩⟩

inductive Port where
  | room
  | full
  | disconnected
  deriving DecidableEq

structure WorkerMove where
  shared : Shared
  worker : Worker
  sent : Option (List FireholEntry)
  deriving DecidableEq

def writerStopped : FireholParseError := .workerPanic "import writer stopped".toList

namespace Worker

def fail (worker : Worker) (shared : Shared) (error : FireholParseError) : WorkerMove :=
  ⟨{ shared with abort := true }, { worker with phase := .failed error }, none⟩

def endFile (worker : Worker) (shared : Shared) (progress : FileProgress) : WorkerMove :=
  match progress.bytes with
  | none => worker.fail shared (.io progress.file.path)
  | some bytes =>
      let metadata := if progress.state.hasEmitted then [] else [progress.state.active]
      ⟨shared, { worker with
        phase := .checking
        output := ⟨worker.output.metadata ++ metadata, worker.output.files + 1,
          worker.output.bytes + bytes⟩ }, none⟩

def nextLine (worker : Worker) (context : ImportContext) (shared : Shared) (progress : FileProgress)
    (line : List Char) (rest : List (List Char)) : WorkerMove :=
  match visitLine context progress.file.path progress.state shared.nextMetadataId progress.lineNumber
      line with
  | .error error => worker.fail shared error
  | .ok result =>
      ⟨{ shared with nextMetadataId := result.nextMetadataId }, { worker with
        phase := .parsing { progress with
          state := result.state, lines := rest, lineNumber := progress.lineNumber + 1
          pending := result.entries }
        output := { worker.output with metadata := worker.output.metadata ++ result.emitted } }, none⟩

def parse (worker : Worker) (context : ImportContext) (port : Port) (shared : Shared)
    (progress : FileProgress) : Option WorkerMove :=
  if workerBatchSize ≤ worker.buffer.length then
    match port with
    | .room => some ⟨shared, { worker with buffer := [] }, some worker.buffer⟩
    | .full => none
    | .disconnected => some (worker.fail shared writerStopped)
  else match progress.pending with
    | entry :: pending => some ⟨shared, { worker with
        phase := .parsing { progress with pending }, buffer := worker.buffer ++ [entry] }, none⟩
    | [] => match progress.lines with
      | line :: rest => some (worker.nextLine context shared progress line rest)
      | [] => some (worker.endFile shared progress)

-- The last flush leaves the abort flag alone.
def drain (worker : Worker) (port : Port) (shared : Shared) : Option WorkerMove :=
  if worker.buffer = [] then some ⟨shared, { worker with phase := .finished }, none⟩
  else match port with
    | .room => some ⟨shared, { worker with phase := .finished, buffer := [] }, some worker.buffer⟩
    | .full => none
    | .disconnected => some ⟨shared, { worker with phase := .failed writerStopped }, none⟩

def openFile (worker : Worker) (shared : Shared) (file : SourceFile) : WorkerMove :=
  let fileName := (decodeUtf8 file.path).getD "unknown".toList
  let visit := visitFileLines file.source
  ⟨{ shared with nextMetadataId := shared.nextMetadataId + 1 }, { worker with
    phase := .parsing
      { file, state := ⟨.new fileName shared.nextMetadataId, false⟩, lines := visit.lines
        lineNumber := 1, bytes := visit.bytes, pending := [] } }, none⟩

def takeFile (worker : Worker) (files : List SourceFile) (shared : Shared) : WorkerMove :=
  ⟨{ shared with fileIndex := shared.fileIndex + 1 }, { worker with
    phase := match files[shared.fileIndex]? with
      | some file => .opening file
      | none => .draining }, none⟩

def step (worker : Worker) (config : ImportConfig) (port : Port) (shared : Shared) : Option WorkerMove :=
  match worker.phase with
  | .checking => some ⟨shared, { worker with phase := if shared.abort then .draining else .taking }, none⟩
  | .taking => some (worker.takeFile config.files shared)
  | .opening file => some (worker.openFile shared file)
  | .parsing progress => worker.parse config.context port shared progress
  | .draining => worker.drain port shared
  | .finished | .failed _ | .panicked => none

def ended (worker : Worker) : Bool :=
  match worker.phase with
  | .finished | .failed _ | .panicked => true
  | _ => false

end Worker

end Workers

section Consumer

inductive ConsumerPhase where
  | receiving
  | stopping (failure : Option FireholParseError)
  | joining (failure : Option FireholParseError)
  deriving DecidableEq

structure Pipeline (workers : Nat) where
  shared : Shared
  workers : Fin workers → Worker
  channel : List (List FireholEntry)
  consumer : ConsumerPhase
  sequence : Nat
  allEntries : List FireholEntry
  writer : BulkWriter

def ruleIdOverflow : FireholParseError := .workerPanic "FireHOL rule ID overflow".toList

def assignIds (sequence : Nat) (batch : List FireholEntry) : Option (List FireholEntry) :=
  if batch = [] ∨ sequence + batch.length < 2 ^ 32 then
    some (batch.mapIdx fun offset entry =>
      { entry with ruleId := BitVec.ofNat 32 (sequence + offset + 1) })
  else none

inductive Action (workers : Nat) where
  | worker (index : Fin workers)
  | panic (index : Fin workers)
  | receive (commits : Bool) (fault : Option FirewallError)
  | close (fault : Option FirewallError)
  | dropReceiver
  deriving DecidableEq

namespace Pipeline

variable {workers : Nat}

def start : Pipeline workers where
  shared := ⟨0, false, 1⟩
  workers := fun _ => .start
  channel := []
  consumer := .receiving
  sequence := 0
  allEntries := []
  writer := .new

def port (state : Pipeline workers) : Port :=
  match state.consumer with
  | .joining _ => .disconnected
  | _ => if state.channel.length < workers then .room else .full

def setWorker (state : Pipeline workers) (index : Fin workers) (worker : Worker) : Pipeline workers :=
  { state with workers := Function.update state.workers index worker }

def moveWorker (state : Pipeline workers) (index : Fin workers) (move : WorkerMove) : Pipeline workers :=
  { state.setWorker index move.worker with
    shared := move.shared, channel := state.channel ++ move.sent.toList }

def stop (state : Pipeline workers) (error : FireholParseError) : Pipeline workers :=
  { state with consumer := .stopping (some error), shared := { state.shared with abort := true } }

def publish (config : ImportConfig) (state : Pipeline workers) (commits : Bool)
    (entries : List FireholEntry) : Pipeline workers :=
  { state with
    writer := if config.cached then state.writer.entries entries state.sequence config.spool commits
      else state.writer
    sequence := state.sequence + entries.length
    allEntries := if config.spool && config.cached then state.allEntries
      else state.allEntries ++ entries }

def receive (config : ImportConfig) (state : Pipeline workers) (commits : Bool)
    (fault : Option FirewallError) (batch : List FireholEntry) : Pipeline workers :=
  match assignIds state.sequence batch with
  | none => state.stop ruleIdOverflow
  | some entries =>
      match if config.cached then fault else none with
      | some error => state.stop (.cache error)
      | none => state.publish config commits entries

-- The channel is disconnected once every worker has ended.
def close (config : ImportConfig) (state : Pipeline workers) (fault : Option FirewallError) :
    Pipeline workers :=
  match if config.cached then fault else none with
  | some error => state.stop (.cache error)
  | none => { state with
      consumer := .stopping none
      writer := if config.cached then state.writer.commit else state.writer }

def allEnded (state : Pipeline workers) : Prop := ∀ index, (state.workers index).ended = true

instance (state : Pipeline workers) : Decidable state.allEnded :=
  inferInstanceAs (Decidable (∀ index, (state.workers index).ended = true))

def step (config : ImportConfig) (state : Pipeline config.workers) (action : Action config.workers) :
    Option (Pipeline config.workers) :=
  match action with
  | .worker index =>
      ((state.workers index).step config state.port state.shared).map (state.moveWorker index)
  | .panic index =>
      if (state.workers index).ended then none
      else some (state.setWorker index { state.workers index with phase := .panicked })
  | .receive commits fault =>
      match state.consumer, state.channel with
      | .receiving, batch :: rest => some (receive config { state with channel := rest } commits fault batch)
      | _, _ => none
  | .close fault =>
      if state.consumer = .receiving ∧ state.channel = [] ∧ state.allEnded then
        some (close config state fault)
      else none
  | .dropReceiver =>
      match state.consumer with
      | .stopping failure => some { state with consumer := .joining failure, channel := [] }
      | _ => none

def workerFailure (worker : Worker) : Option FireholParseError :=
  match worker.phase with
  | .failed error => some error
  | .panicked => some (.workerPanic "Any \x7b .. \x7d".toList)
  | _ => none

def scopeResult (state : Pipeline workers) : Option (Except FireholParseError Unit) :=
  match state.consumer with
  | .joining failure =>
      if state.allEnded then
        match failure.or ((List.ofFn state.workers).findSome? workerFailure) with
        | some error => some (.error error)
        | none => some (.ok ())
      else none
  | _ => none

end Pipeline

end Consumer

end ReputationFirewall.Firehol
