import ReputationFirewall.Maps.SyncRuns
import ReputationFirewall.Rules.Loader
import ReputationFirewall.Shared.Runs
import ReputationFirewall.Shared.Scans

set_option autoImplicit false

namespace ReputationFirewall.HotReload

open KeyedStore Maps NetAddr Rules Runs Scans

section Model

structure FileMetadata where
  modified : Option Nat
  len : Nat

structure DiskFile where
  content : FileContent
  metadata : Option FileMetadata

structure Fingerprint (Path : Type) where
  path : Path
  modified : Option Nat
  len : Nat
  deriving DecidableEq

structure Watcher (Path Dir : Type) where
  rules : List Path
  fileName : Path → List Char
  parent : Path → Dir
  ipNetFromStr : List Char → Option IpNet

inductive Phase (Path : Type) where
  | loading (files : List RuleFile)
  | registering (count : Nat)
  | baselining (seen : List (Fingerprint Path))
  | idle
  | draining
  | comparing (seen : List (Fingerprint Path))
  | reloading (files : List RuleFile)

-- `firstRead`, `installed` and `reloaded` are ghost: the files of the initial load, those behind the
-- rules in the maps, and whether a change has been detected.
structure State (Path Dir : Type) where
  disk : Path → DiskFile
  phase : Phase Path
  watched : List Dir
  inFlight : Nat
  queued : Nat
  lastFingerprint : List (Fingerprint Path)
  manager : MapManager
  firstRead : List RuleFile
  installed : List RuleFile
  reloaded : Bool

inductive Action (Path : Type) where
  | advance (hashing : Hashing)
  | write (path : Path) (file : DiskFile) (furtherEvents : Nat)
  | other (events : Nat)
  | deliver

variable {Path Dir : Type}

def channelCapacity : Nat := 32

def fingerprintOf (path : Path) (file : DiskFile) : Fingerprint Path :=
  ⟨path, file.metadata.bind FileMetadata.modified, (file.metadata.map FileMetadata.len).getD 0⟩

def State.start (disk : Path → DiskFile) : State Path Dir where
  disk := disk
  phase := .loading []
  watched := []
  inFlight := 0
  queued := 0
  lastFingerprint := []
  manager := .new
  firstRead := []
  installed := []
  reloaded := false

namespace State

variable (watcher : Watcher Path Dir) (state : State Path Dir)

def fingerprint (path : Path) : Fingerprint Path := fingerprintOf path (state.disk path)

def ruleFile (path : Path) : RuleFile := ⟨watcher.fileName path, (state.disk path).content⟩

def install (hashing : Hashing) (files : List RuleFile) : State Path Dir :=
  match loadFromPathsWithMeta watcher.ipNetFromStr files with
  | .error _ => state
  | .ok (rules, _) =>
      { state with manager := (syncRules hashing allSucceed state.manager rules).1, installed := files }

end State

namespace State

variable [DecidableEq Path] [DecidableEq Dir] (watcher : Watcher Path Dir) (state : State Path Dir)

def advance (hashing : Hashing) : State Path Dir :=
  match state.phase with
  | .loading files =>
      match watcher.rules[files.length]? with
      | some path =>
          let files := files ++ [state.ruleFile watcher path]
          { state with phase := .loading files, firstRead := files }
      | none => { state.install watcher hashing files with phase := .registering 0 }
  | .registering count =>
      match watcher.rules[count]? with
      | some path => { state with phase := .registering (count + 1), watched := state.watched ++ [watcher.parent path] }
      | none => { state with phase := .baselining [] }
  | .baselining seen =>
      match watcher.rules[seen.length]? with
      | some path => { state with phase := .baselining (seen ++ [state.fingerprint path]) }
      | none => { state with phase := .idle, lastFingerprint := seen }
  | .idle =>
      match state.queued with
      | 0 => state
      | rest + 1 => { state with phase := .draining, queued := rest }
  | .draining =>
      match state.queued with
      | 0 => { state with phase := .comparing [] }
      | rest + 1 => { state with queued := rest }
  | .comparing seen =>
      match watcher.rules[seen.length]? with
      | some path => { state with phase := .comparing (seen ++ [state.fingerprint path]) }
      | none =>
          if seen = state.lastFingerprint then { state with phase := .idle }
          else { state with phase := .reloading [], lastFingerprint := seen, reloaded := true }
  | .reloading files =>
      match watcher.rules[files.length]? with
      | some path => { state with phase := .reloading (files ++ [state.ruleFile watcher path]) }
      | none => { state.install watcher hashing files with phase := .idle }

-- A write in a watched directory is reported, by one event or more.
def write (path : Path) (file : DiskFile) (furtherEvents : Nat) : State Path Dir :=
  { state with
    disk := Function.update state.disk path file
    inFlight := if watcher.parent path ∈ state.watched then state.inFlight + furtherEvents + 1 else state.inFlight }

-- The sender blocks while the channel is full.
def deliver : State Path Dir :=
  if 0 < state.inFlight ∧ state.queued < channelCapacity then
    { state with inFlight := state.inFlight - 1, queued := state.queued + 1 }
  else state

def step : Action Path → State Path Dir
  | .advance hashing => state.advance watcher hashing
  | .write path file furtherEvents => state.write watcher path file furtherEvents
  | .other events => { state with inFlight := state.inFlight + events }
  | .deliver => state.deliver

end State

end Model

section Specification

variable {Path Dir : Type} (watcher : Watcher Path Dir)

def Phase.reading : Phase Path → Option (List RuleFile)
  | .loading files | .reloading files => some files
  | .registering _ | .baselining _ | .idle | .draining | .comparing _ => none

instance decidableLoaded (result : Except FirewallError (ParsedRuleSet × Store (BitVec 32) StaticRuleInfo)) :
    Decidable (∃ loaded, result = .ok loaded) :=
  match result with
  | .ok loaded => isTrue ⟨loaded, rfl⟩
  | .error _ => isFalse nofun

namespace State

variable (state : State Path Dir)

structure Quiescent : Prop where
  idle : state.phase = .idle
  inFlight : state.inFlight = 0
  queued : state.queued = 0

def currentFiles : List RuleFile := watcher.rules.map (state.ruleFile watcher)

def Serves (files : List RuleFile) : Prop :=
  ∃ rules staticMeta, loadFromPathsWithMeta watcher.ipNetFromStr files = .ok (rules, staticMeta) ∧
    ∀ kind key, (state.manager.slot kind).map.lookup key = rules.finalValue kind key

def LoadsSucceed : Prop :=
  ∀ files ∈ state.phase.reading, files.length = watcher.rules.length →
    ∃ result, loadFromPathsWithMeta watcher.ipNetFromStr files = .ok result

instance : Decidable (state.LoadsSucceed watcher) :=
  inferInstanceAs (Decidable (∀ files ∈ state.phase.reading, _))

end State

def SameRules (first second : List RuleFile) : Prop :=
  ∃ rules staticMeta otherRules otherMeta,
    loadFromPathsWithMeta watcher.ipNetFromStr first = .ok (rules, staticMeta) ∧
      loadFromPathsWithMeta watcher.ipNetFromStr second = .ok (otherRules, otherMeta) ∧
      ∀ kind key, rules.finalValue kind key = otherRules.finalValue kind key

def Phase.baselined (total : Nat) : Phase Path → Nat
  | .loading _ | .registering _ => 0
  | .baselining seen => seen.length
  | .idle | .draining | .comparing _ | .reloading _ => total

variable [DecidableEq Path] [DecidableEq Dir] (disk : Path → DiskFile)

def pastFingerprints (path : Path) (actions : List (Action Path)) : List (Fingerprint Path) :=
  fingerprintOf path (disk path) :: actions.filterMap fun action =>
    match action with
    | .write written file _ => if written = path then some (fingerprintOf path file) else none
    | .advance _ | .other _ | .deliver => none

def FreshWrites (actions : List (Action Path)) : Prop :=
  ∀ path ∈ watcher.rules, (pastFingerprints disk path actions).Nodup

def LateWrite (actions : List (Action Path)) : Prop :=
  ∃ before path file furtherEvents, before ++ [.write path file furtherEvents] <+: actions ∧
    path ∈ watcher.rules.take ((run (State.step watcher) (.start disk) before).phase.baselined watcher.rules.length)

end Specification

section Invariant

variable {Path Dir : Type}

namespace State

variable (state : State Path Dir)

-- The latest scan made under the watch, complete or not. While events are drained there is none.
def tracked : List (Fingerprint Path) :=
  match state.phase with
  | .baselining seen | .comparing seen => seen
  | .idle | .reloading _ => state.lastFingerprint
  | .loading _ | .registering _ | .draining => []

def baseline : List (Fingerprint Path) :=
  match state.phase with
  | .loading _ | .registering _ => []
  | .baselining seen => seen
  | .idle | .draining | .comparing _ | .reloading _ => state.lastFingerprint

def progress : Nat :=
  match state.phase with
  | .loading files | .reloading files => files.length
  | .registering count => count
  | .baselining seen | .comparing seen => seen.length
  | .idle | .draining => 0

def watchCount (total : Nat) : Nat :=
  match state.phase with
  | .loading _ => 0
  | .registering count => count
  | .baselining _ | .idle | .draining | .comparing _ | .reloading _ => total

def Faithful (watcher : Watcher Path Dir) (files : List RuleFile) : Prop :=
  Reads (watcher.rules.zip state.lastFingerprint)
    (fun entry file => entry.2 = state.fingerprint entry.1 → file = state.ruleFile watcher entry.1) files

def Explained (watcher : Watcher Path Dir) : Prop :=
  match state.phase with
  | .loading files => state.firstRead = files ∧ state.reloaded = false
  | .reloading files => state.reloaded = true ∧ state.Faithful watcher files
  | .registering _ | .baselining _ => state.installed = state.firstRead ∧ state.reloaded = false
  | .idle | .draining | .comparing _ =>
      (state.reloaded = false → state.installed = state.firstRead) ∧
        (state.reloaded = true → state.Faithful watcher state.installed ∧ state.installed.length = watcher.rules.length)

def Started : Prop := ∀ files, state.phase ≠ .loading files

end State

variable (watcher : Watcher Path Dir) (past : Path → List (Fingerprint Path)) (late : Prop)

structure Recorded (state : State Path Dir) : Prop where
  disk : ∀ path, state.fingerprint path ∈ past path
  tracked : Reads watcher.rules (fun path fingerprint => fingerprint ∈ past path) state.tracked
  last : Reads watcher.rules (fun path fingerprint => fingerprint ∈ past path) state.lastFingerprint
  sized : state.baseline.length = state.phase.baselined watcher.rules.length
  bounded : state.progress ≤ watcher.rules.length
  watching : ∀ path ∈ watcher.rules.take (state.watchCount watcher.rules.length), watcher.parent path ∈ state.watched

structure Judged (state : State Path Dir) : Prop where
  announced : Current watcher.rules state.fingerprint state.tracked ∨ 0 < state.inFlight + state.queued
  quiet : ¬ late → Current watcher.rules state.fingerprint state.tracked ∧
    Current watcher.rules state.fingerprint state.baseline ∧ state.reloaded = false
  late : late → state.reloaded = false → ¬ Current watcher.rules state.fingerprint state.baseline

structure Served (state : State Path Dir) : Prop where
  explained : state.Explained watcher
  serves : state.Started → state.Serves watcher state.installed
  unowned : ∀ kind, (state.manager.slot kind).firehol = ∅

structure Consistent (state : State Path Dir) : Prop where
  recorded : Recorded watcher past state
  judged : Judged watcher late state
  served : Served watcher state

end Invariant

section Advance

variable {Path Dir : Type} [DecidableEq Path] {watcher : Watcher Path Dir}
  {past : Path → List (Fingerprint Path)} {late : Prop}

theorem syncRules_serves {manager : MapManager} (unowned : ∀ kind, (manager.slot kind).firehol = ∅) (hashing : Hashing)
    (rules : ParsedRuleSet) (kind : MapKind) (key : kind.Key) :
    ((syncRules hashing allSucceed manager rules).1.slot kind).map.lookup key = rules.finalValue kind key := by
  by_cases listed : key ∈ rules.keys kind
  · exact syncRules_lookup_listed hashing manager rules kind key listed
  · rw [syncRules_lookup_kept _ _ _ _ _ _ (mt (installs_allSucceed hashing rules kind key).mp listed), unowned,
      (finalValue_unlisted rules kind key).mpr listed]
    rfl

omit [DecidableEq Path] in
theorem Served.install {state : State Path Dir} (served : Served watcher state) (hashing : Hashing)
    {files : List RuleFile} {result : ParsedRuleSet × Store (BitVec 32) StaticRuleInfo}
    (loaded : loadFromPathsWithMeta watcher.ipNetFromStr files = .ok result) :
    (state.install watcher hashing files).Serves watcher files ∧
      ∀ kind, ((state.install watcher hashing files).manager.slot kind).firehol = ∅ := by
  simp only [State.install, State.Serves, loaded]
  refine ⟨⟨_, _, rfl, syncRules_serves served.unowned hashing _⟩, fun kind => ?_⟩
  rw [syncRules_firehol, served.unowned]

namespace Consistent

variable {state : State Path Dir} (consistent : Consistent watcher past late state) (hashing : Hashing)

include consistent

theorem load {files : List RuleFile} (phase : state.phase = .loading files) (loads : state.LoadsSucceed watcher) :
    Consistent watcher past late (state.advance watcher hashing) := by
  obtain ⟨disk, _, watched, inFlight, queued, last, manager, firstRead, installed, reloaded⟩ := state
  cases phase
  obtain ⟨recorded, judged, served⟩ := consistent
  have bounded : files.length ≤ watcher.rules.length := recorded.bounded
  simp only [State.advance]
  cases next : watcher.rules[files.length]? with
  | some path =>
      have inside := (List.getElem?_eq_some_iff.mp next).1
      refine ⟨⟨recorded.disk, recorded.tracked, recorded.last, rfl, ?_, recorded.watching⟩,
        ⟨judged.announced, judged.quiet, judged.late⟩,
        ⟨⟨rfl, served.explained.2⟩, fun started => absurd rfl (started _), served.unowned⟩⟩
      simp only [State.progress, List.length_append, List.length_singleton]
      omega
  | none =>
      rw [List.getElem?_eq_none_iff] at next
      obtain ⟨result, loaded⟩ := loads files rfl (by omega)
      obtain ⟨serves, unowned⟩ := served.install hashing loaded
      simp only [State.install, loaded] at serves unowned ⊢
      exact ⟨⟨recorded.disk, recorded.tracked, recorded.last, rfl, Nat.zero_le _, recorded.watching⟩,
        ⟨judged.announced, judged.quiet, judged.late⟩,
        ⟨⟨served.explained.1.symm, served.explained.2⟩, fun _ => serves, unowned⟩⟩

theorem register {count : Nat} (phase : state.phase = .registering count) :
    Consistent watcher past late (state.advance watcher hashing) := by
  obtain ⟨disk, _, watched, inFlight, queued, last, manager, firstRead, installed, reloaded⟩ := state
  cases phase
  obtain ⟨recorded, judged, served⟩ := consistent
  have watching : ∀ path ∈ watcher.rules.take count, watcher.parent path ∈ watched := recorded.watching
  have serves := served.serves nofun
  simp only [State.advance]
  cases next : watcher.rules[count]? with
  | some path =>
      have inside := (List.getElem?_eq_some_iff.mp next).1
      refine ⟨⟨recorded.disk, recorded.tracked, recorded.last, rfl, inside, ?_⟩,
        ⟨judged.announced, judged.quiet, judged.late⟩, ⟨served.explained, fun _ => serves, served.unowned⟩⟩
      simp only [State.watchCount, List.take_add_one, next, Option.toList_some, List.mem_append, List.mem_singleton]
      intro other listed
      cases listed with
      | inl earlier => exact Or.inl (watching other earlier)
      | inr same => exact Or.inr (congrArg watcher.parent same)
  | none =>
      rw [List.getElem?_eq_none_iff] at next
      refine ⟨⟨recorded.disk, reads_nil, recorded.last, rfl, Nat.zero_le _, ?_⟩,
        ⟨judged.announced, judged.quiet, judged.late⟩, ⟨served.explained, fun _ => serves, served.unowned⟩⟩
      simp only [State.watchCount, List.take_length]
      rwa [List.take_of_length_le next] at watching

theorem takeBaseline {seen : List (Fingerprint Path)} (phase : state.phase = .baselining seen) :
    Consistent watcher past late (state.advance watcher hashing) := by
  obtain ⟨disk, _, watched, inFlight, queued, last, manager, firstRead, installed, reloaded⟩ := state
  cases phase
  obtain ⟨recorded, judged, served⟩ := consistent
  have bounded : seen.length ≤ watcher.rules.length := recorded.bounded
  have serves := served.serves nofun
  simp only [State.advance]
  cases next : watcher.rules[seen.length]? with
  | some path =>
      have inside := (List.getElem?_eq_some_iff.mp next).1
      have reads := (reads_concat next).mpr ⟨recorded.tracked, recorded.disk path⟩
      refine ⟨⟨recorded.disk, reads, recorded.last, rfl, ?_, recorded.watching⟩, ⟨?_, ?_, ?_⟩,
        ⟨served.explained, fun _ => serves, served.unowned⟩⟩
      · simp only [State.progress, List.length_append, List.length_singleton]
        omega
      · exact judged.announced.imp_left (current_concat next).mpr
      · intro quiet
        obtain ⟨tracked, baseline, unchanged⟩ := judged.quiet quiet
        exact ⟨(current_concat next).mpr tracked, (current_concat next).mpr baseline, unchanged⟩
      · intro written unchanged
        exact mt (current_concat next).mp (judged.late written unchanged)
  | none =>
      rw [List.getElem?_eq_none_iff] at next
      exact ⟨⟨recorded.disk, recorded.tracked, recorded.tracked, Nat.le_antisymm bounded next, Nat.zero_le _,
          recorded.watching⟩, ⟨judged.announced, judged.quiet, judged.late⟩,
        ⟨⟨fun _ => served.explained.1, fun changed => absurd (served.explained.2.symm.trans changed) nofun⟩,
          fun _ => serves, served.unowned⟩⟩

theorem receive (phase : state.phase = .idle) : Consistent watcher past late (state.advance watcher hashing) := by
  obtain ⟨disk, _, watched, inFlight, queued, last, manager, firstRead, installed, reloaded⟩ := state
  cases phase
  simp only [State.advance]
  cases queued with
  | zero => exact consistent
  | succ rest =>
      obtain ⟨recorded, judged, served⟩ := consistent
      exact ⟨⟨recorded.disk, reads_nil, recorded.last, recorded.sized, Nat.zero_le _, recorded.watching⟩,
        ⟨Or.inl reads_nil, fun quiet => ⟨reads_nil, (judged.quiet quiet).2⟩, judged.late⟩,
        ⟨served.explained, fun _ => served.serves nofun, served.unowned⟩⟩

theorem drain (phase : state.phase = .draining) : Consistent watcher past late (state.advance watcher hashing) := by
  obtain ⟨disk, _, watched, inFlight, queued, last, manager, firstRead, installed, reloaded⟩ := state
  cases phase
  obtain ⟨recorded, judged, served⟩ := consistent
  simp only [State.advance]
  cases queued <;>
    exact ⟨⟨recorded.disk, reads_nil, recorded.last, recorded.sized, Nat.zero_le _, recorded.watching⟩,
      ⟨Or.inl reads_nil, judged.quiet, judged.late⟩,
      ⟨served.explained, fun _ => served.serves nofun, served.unowned⟩⟩

theorem compare {seen : List (Fingerprint Path)} (phase : state.phase = .comparing seen) :
    Consistent watcher past late (state.advance watcher hashing) := by
  obtain ⟨disk, _, watched, inFlight, queued, last, manager, firstRead, installed, reloaded⟩ := state
  cases phase
  obtain ⟨recorded, judged, served⟩ := consistent
  have bounded : seen.length ≤ watcher.rules.length := recorded.bounded
  have sized : last.length = watcher.rules.length := recorded.sized
  have serves := served.serves nofun
  simp only [State.advance]
  cases next : watcher.rules[seen.length]? with
  | some path =>
      have inside := (List.getElem?_eq_some_iff.mp next).1
      have reads := (reads_concat next).mpr ⟨recorded.tracked, recorded.disk path⟩
      refine ⟨⟨recorded.disk, reads, recorded.last, sized, ?_, recorded.watching⟩,
        ⟨judged.announced.imp_left (current_concat next).mpr, fun quiet => ?_, judged.late⟩,
        ⟨served.explained, fun _ => serves, served.unowned⟩⟩
      · simp only [State.progress, List.length_append, List.length_singleton]
        omega
      · obtain ⟨tracked, baseline⟩ := judged.quiet quiet
        exact ⟨(current_concat next).mpr tracked, baseline⟩
  | none =>
      rw [List.getElem?_eq_none_iff] at next
      have complete : seen.length = watcher.rules.length := Nat.le_antisymm bounded next
      dsimp only
      split_ifs with same
      · subst same
        exact ⟨⟨recorded.disk, recorded.tracked, recorded.last, sized, Nat.zero_le _, recorded.watching⟩,
          ⟨judged.announced, judged.quiet, judged.late⟩, ⟨served.explained, fun _ => serves, served.unowned⟩⟩
      · refine ⟨⟨recorded.disk, recorded.tracked, recorded.tracked, complete, Nat.zero_le _, recorded.watching⟩,
          ⟨judged.announced, fun quiet => ?_, fun _ unchanged => absurd unchanged nofun⟩,
          ⟨⟨rfl, reads_nil⟩, fun _ => serves, served.unowned⟩⟩
        -- Two complete scans that are both current are the same.
        obtain ⟨tracked, baseline, _⟩ := judged.quiet quiet
        exact absurd ((Current.eq_map tracked complete).trans (Current.eq_map baseline sized).symm) same

theorem reload {files : List RuleFile} (phase : state.phase = .reloading files) (loads : state.LoadsSucceed watcher) :
    Consistent watcher past late (state.advance watcher hashing) := by
  obtain ⟨disk, _, watched, inFlight, queued, last, manager, firstRead, installed, reloaded⟩ := state
  cases phase
  obtain ⟨recorded, judged, served⟩ := consistent
  have bounded : files.length ≤ watcher.rules.length := recorded.bounded
  have sized : last.length = watcher.rules.length := recorded.sized
  obtain ⟨changed, faithful⟩ := served.explained
  simp only [State.advance]
  cases next : watcher.rules[files.length]? with
  | some path =>
      have inside := (List.getElem?_eq_some_iff.mp next).1
      obtain ⟨fingerprint, recordedAs⟩ : ∃ fingerprint, last[files.length]? = some fingerprint :=
        ⟨_, List.getElem?_eq_getElem (by omega)⟩
      have position : (watcher.rules.zip last)[files.length]? = some (path, fingerprint) :=
        List.getElem?_zip_eq_some.mpr ⟨next, recordedAs⟩
      refine ⟨⟨recorded.disk, recorded.tracked, recorded.last, sized, ?_, recorded.watching⟩,
        ⟨judged.announced, judged.quiet, judged.late⟩,
        ⟨⟨changed, (reads_concat position).mpr ⟨faithful, fun _ => rfl⟩⟩, fun _ => served.serves nofun, served.unowned⟩⟩
      simp only [State.progress, List.length_append, List.length_singleton]
      omega
  | none =>
      rw [List.getElem?_eq_none_iff] at next
      have complete : files.length = watcher.rules.length := Nat.le_antisymm bounded next
      obtain ⟨result, loaded⟩ := loads files rfl complete
      obtain ⟨serves, unowned⟩ := served.install hashing loaded
      simp only [State.install, loaded] at serves unowned ⊢
      exact ⟨⟨recorded.disk, recorded.tracked, recorded.last, sized, Nat.zero_le _, recorded.watching⟩,
        ⟨judged.announced, judged.quiet, judged.late⟩,
        ⟨⟨fun unchanged => absurd (changed.symm.trans unchanged) nofun, fun _ => ⟨faithful, complete⟩⟩,
          fun _ => serves, unowned⟩⟩

theorem advance (loads : state.LoadsSucceed watcher) :
    Consistent watcher past late (state.advance watcher hashing) := by
  cases phase : state.phase with
  | loading files => exact consistent.load hashing phase loads
  | registering count => exact consistent.register hashing phase
  | baselining seen => exact consistent.takeBaseline hashing phase
  | idle => exact consistent.receive hashing phase
  | draining => exact consistent.drain hashing phase
  | comparing seen => exact consistent.compare hashing phase
  | reloading files => exact consistent.reload hashing phase loads

end Consistent

end Advance

section Events

variable {Path Dir : Type} {watcher : Watcher Path Dir} {past : Path → List (Fingerprint Path)} {late : Prop}
  {state : State Path Dir}

theorem Consistent.events (consistent : Consistent watcher past late state) {inFlight queued : Nat}
    (kept : state.inFlight + state.queued ≤ inFlight + queued) :
    Consistent watcher past late { state with inFlight, queued } := by
  obtain ⟨recorded, judged, served⟩ := consistent
  exact ⟨⟨recorded.disk, recorded.tracked, recorded.last, recorded.sized, recorded.bounded, recorded.watching⟩,
    ⟨judged.announced.imp_right fun pending => Nat.lt_of_lt_of_le pending kept, judged.quiet, judged.late⟩,
    ⟨served.explained, served.serves, served.unowned⟩⟩

theorem Consistent.deliver (consistent : Consistent watcher past late state) :
    Consistent watcher past late state.deliver := by
  unfold State.deliver
  split_ifs with possible
  · exact consistent.events (by omega)
  · exact consistent

theorem mem_take_of_tracked {path : Path} (read : path ∈ watcher.rules.take state.tracked.length) :
    path ∈ watcher.rules.take (state.watchCount watcher.rules.length) ∧
      path ∈ watcher.rules.take (state.phase.baselined watcher.rules.length) := by
  have listed : path ∈ watcher.rules.take watcher.rules.length := by
    rw [List.take_length]
    exact List.mem_of_mem_take read
  obtain ⟨disk, phase, watched, inFlight, queued, last, manager, firstRead, installed, reloaded⟩ := state
  cases phase with
  | loading | registering => exact absurd read List.not_mem_nil
  | baselining seen => exact ⟨listed, read⟩
  | idle | draining | comparing | reloading => exact ⟨listed, listed⟩

theorem Recorded.baseline (recorded : Recorded watcher past state) :
    Reads watcher.rules (fun path fingerprint => fingerprint ∈ past path) state.baseline := by
  obtain ⟨disk, phase, watched, inFlight, queued, last, manager, firstRead, installed, reloaded⟩ := state
  cases phase with
  | loading | registering => exact reads_nil
  | baselining seen => exact recorded.tracked
  | idle | draining | comparing | reloading => exact recorded.last

end Events

section Writes

variable {Path Dir : Type} [DecidableEq Path] [DecidableEq Dir] {watcher : Watcher Path Dir}
  {past : Path → List (Fingerprint Path)} {late : Prop} {state : State Path Dir} {path : Path} {file : DiskFile}

theorem fingerprint_write (furtherEvents : Nat) : (state.write watcher path file furtherEvents).fingerprint =
    Function.update state.fingerprint path (fingerprintOf path file) := by
  funext other
  by_cases same : other = path
  · subst same
    simp [State.fingerprint, State.write]
  · simp [State.fingerprint, State.write, same]

def NewFingerprint (watcher : Watcher Path Dir) (past : Path → List (Fingerprint Path)) (path : Path)
    (file : DiskFile) : Prop :=
  path ∈ watcher.rules → fingerprintOf path file ∉ past path

theorem current_write_iff (fresh : NewFingerprint watcher past path file) {seen : List (Fingerprint Path)}
    (reads : Reads watcher.rules (fun path fingerprint => fingerprint ∈ past path) seen) (furtherEvents : Nat) :
    Current watcher.rules (state.write watcher path file furtherEvents).fingerprint seen ↔
      Current watcher.rules state.fingerprint seen ∧ path ∉ watcher.rules.take seen.length := by
  rw [fingerprint_write, current_update_iff]
  intro index other value position read same equal
  subst same
  subst equal
  exact fresh (List.mem_of_getElem? position) (reads index other _ position read)

theorem State.Faithful.write {files : List RuleFile} (faithful : state.Faithful watcher files)
    (fresh : NewFingerprint watcher past path file)
    (reads : Reads watcher.rules (fun path fingerprint => fingerprint ∈ past path) state.lastFingerprint)
    (furtherEvents : Nat) : (state.write watcher path file furtherEvents).Faithful watcher files := by
  intro index entry loaded position read recordedAs
  obtain ⟨listed, held⟩ := List.getElem?_zip_eq_some.mp position
  rw [fingerprint_write] at recordedAs
  by_cases same : entry.1 = path
  · rw [same, Function.update_self] at recordedAs
    have known := reads index entry.1 entry.2 listed held
    rw [same, recordedAs] at known
    exact absurd known (fresh (same ▸ List.mem_of_getElem? listed))
  · rw [Function.update_of_ne same] at recordedAs
    rw [faithful index entry loaded position read recordedAs]
    simp [State.ruleFile, State.write, same]

theorem State.Explained.write (explained : state.Explained watcher) (fresh : NewFingerprint watcher past path file)
    (reads : Reads watcher.rules (fun path fingerprint => fingerprint ∈ past path) state.lastFingerprint)
    (furtherEvents : Nat) : (state.write watcher path file furtherEvents).Explained watcher := by
  obtain ⟨disk, phase, watched, inFlight, queued, last, manager, firstRead, installed, reloaded⟩ := state
  cases phase with
  | loading | registering | baselining => exact explained
  | idle | draining | comparing =>
      refine ⟨explained.1, fun changed => ?_⟩
      obtain ⟨faithful, complete⟩ := explained.2 changed
      exact ⟨faithful.write fresh reads furtherEvents, complete⟩
  | reloading files => exact ⟨explained.1, explained.2.write fresh reads furtherEvents⟩

theorem Consistent.write (consistent : Consistent watcher past late state)
    (fresh : NewFingerprint watcher past path file) (furtherEvents : Nat) {longer : Path → List (Fingerprint Path)}
    (grows : ∀ path, past path ⊆ longer path) (own : fingerprintOf path file ∈ longer path) {later : Prop}
    (late_iff : later ↔ late ∨ path ∈ watcher.rules.take (state.phase.baselined watcher.rules.length)) :
    Consistent watcher longer later (state.write watcher path file furtherEvents) := by
  obtain ⟨recorded, judged, served⟩ := consistent
  have current {seen : List (Fingerprint Path)}
      (reads : Reads watcher.rules (fun path fingerprint => fingerprint ∈ past path) seen) :=
    @current_write_iff _ _ _ _ _ _ state _ _ fresh seen reads furtherEvents
  refine ⟨⟨?_, ?_, ?_, recorded.sized, recorded.bounded, recorded.watching⟩, ⟨?_, ?_, ?_⟩, ⟨?_, ?_, served.unowned⟩⟩
  · intro other
    rw [fingerprint_write]
    by_cases same : other = path
    · subst same
      rwa [Function.update_self]
    · rw [Function.update_of_ne same]
      exact grows other (recorded.disk other)
  · exact recorded.tracked.imp fun other value => @grows other value
  · exact recorded.last.imp fun other value => @grows other value
  · by_cases read : path ∈ watcher.rules.take state.tracked.length
    · have reported := recorded.watching path (mem_take_of_tracked read).1
      right
      simp only [State.write, if_pos reported]
      omega
    · refine judged.announced.imp (fun kept => (current recorded.tracked).mpr ⟨kept, read⟩) fun pending => ?_
      simp only [State.write]
      split_ifs <;> omega
  · intro quiet
    rw [late_iff, not_or] at quiet
    obtain ⟨tracked, baseline, unchanged⟩ := judged.quiet quiet.1
    refine ⟨(current recorded.tracked).mpr ⟨tracked, fun read => quiet.2 (mem_take_of_tracked read).2⟩,
      (current recorded.baseline).mpr ⟨baseline, ?_⟩, unchanged⟩
    rw [recorded.sized]
    exact quiet.2
  · intro written unchanged kept
    obtain ⟨baseline, unread⟩ := (current recorded.baseline).mp kept
    rw [recorded.sized] at unread
    cases late_iff.mp written with
    | inl before => exact judged.late before unchanged baseline
    | inr read => exact unread read
  · exact served.explained.write fresh recorded.last furtherEvents
  · exact served.serves

end Writes

section Histories

variable {Path Dir : Type} [DecidableEq Path] [DecidableEq Dir] {watcher : Watcher Path Dir} {disk : Path → DiskFile}
  {actions : List (Action Path)}

theorem start_consistent : Consistent watcher (fun path => pastFingerprints disk path []) (LateWrite watcher disk [])
    (State.start disk) := by
  have none : ¬ LateWrite watcher disk [] := by
    intro written
    obtain ⟨before, path, file, furtherEvents, within, _⟩ := written
    simp at within
  refine ⟨⟨fun path => List.mem_singleton_self _, reads_nil, reads_nil, rfl, Nat.zero_le _, ?_⟩,
    ⟨Or.inl reads_nil, fun _ => ⟨reads_nil, reads_nil, rfl⟩, fun written => absurd written none⟩,
    ⟨⟨rfl, rfl⟩, fun started => absurd rfl (started []), ?_⟩⟩
  · intro path listed
    exact absurd listed List.not_mem_nil
  · intro kind
    cases kind <;> rfl

theorem lateWrite_concat (action : Action Path) :
    LateWrite watcher disk (actions ++ [action]) ↔ LateWrite watcher disk actions ∨
      ∃ path file furtherEvents, action = .write path file furtherEvents ∧ path ∈ watcher.rules.take
        ((run (State.step watcher) (.start disk) actions).phase.baselined watcher.rules.length) := by
  constructor
  · rintro ⟨before, path, file, furtherEvents, within, read⟩
    cases List.prefix_concat_iff.mp within with
    | inl same =>
        obtain ⟨rfl, rfl⟩ := List.append_singleton_inj.mp same
        exact Or.inr ⟨path, file, furtherEvents, rfl, read⟩
    | inr earlier => exact Or.inl ⟨before, path, file, furtherEvents, earlier, read⟩
  · rintro (⟨before, path, file, furtherEvents, within, read⟩ | ⟨path, file, furtherEvents, rfl, read⟩)
    · exact ⟨before, path, file, furtherEvents, within.trans (List.prefix_append _ _), read⟩
    · exact ⟨actions, path, file, furtherEvents, List.prefix_refl _, read⟩

omit [DecidableEq Dir] in
theorem FreshWrites.before {action : Action Path} (fresh : FreshWrites watcher disk (actions ++ [action])) :
    FreshWrites watcher disk actions := by
  intro path listed
  have distinct := fresh path listed
  rw [pastFingerprints, List.filterMap_append, ← List.cons_append] at distinct
  exact (List.nodup_append.mp distinct).1

theorem pastFingerprints_write (path other : Path) (file : DiskFile) (furtherEvents : Nat) :
    pastFingerprints disk other (actions ++ [.write path file furtherEvents]) =
      pastFingerprints disk other actions ++ if path = other then [fingerprintOf other file] else [] := by
  rw [pastFingerprints, List.filterMap_append, ← List.cons_append, ← pastFingerprints]
  congr 1
  by_cases same : path = other <;> simp [same]

omit [DecidableEq Dir] in
theorem FreshWrites.last {path : Path} {file : DiskFile} {furtherEvents : Nat}
    (fresh : FreshWrites watcher disk (actions ++ [.write path file furtherEvents])) :
    NewFingerprint watcher (fun path => pastFingerprints disk path actions) path file := by
  intro listed known
  have distinct := fresh path listed
  rw [pastFingerprints_write, if_pos rfl] at distinct
  exact (List.nodup_append.mp distinct).2.2 _ known _ (List.mem_singleton_self _) rfl

theorem consistent_unwritten {action : Action Path} {state : State Path Dir}
    (harmless : ∀ path file furtherEvents, action ≠ .write path file furtherEvents)
    (consistent : Consistent watcher (fun path => pastFingerprints disk path actions) (LateWrite watcher disk actions) state) :
    Consistent watcher (fun path => pastFingerprints disk path (actions ++ [action]))
      (LateWrite watcher disk (actions ++ [action])) state := by
  have late : LateWrite watcher disk (actions ++ [action]) = LateWrite watcher disk actions := by
    apply propext
    rw [lateWrite_concat]
    simp [harmless]
  have past (path : Path) : pastFingerprints disk path (actions ++ [action]) = pastFingerprints disk path actions := by
    cases action with
    | write path file furtherEvents => exact absurd rfl (harmless path file furtherEvents)
    | advance | other | deliver => simp [pastFingerprints]
  simp only [late, past]
  exact consistent

theorem consistent_run (fresh : FreshWrites watcher disk actions)
    (loads : HoldsThroughout (State.step watcher) (.start disk) (State.LoadsSucceed watcher) actions) :
    Consistent watcher (fun path => pastFingerprints disk path actions) (LateWrite watcher disk actions)
      (run (State.step watcher) (.start disk) actions) := by
  induction actions using List.reverseRecOn with
  | nil => exact start_consistent
  | append_singleton actions action ih =>
      rw [holdsThroughout_concat] at loads
      have before := ih fresh.before loads.1
      have ready := loads.1 actions (List.prefix_refl _)
      rw [run_concat]
      cases action with
      | write path file furtherEvents =>
          refine before.write fresh.last furtherEvents ?_ ?_ ?_
          · intro other
            rw [pastFingerprints_write]
            exact List.subset_append_left _ _
          · rw [pastFingerprints_write, if_pos rfl]
            exact List.mem_append_right _ (List.mem_singleton_self _)
          · rw [lateWrite_concat]
            simp
      | advance hashing => exact consistent_unwritten nofun (before.advance hashing ready)
      | other events => exact consistent_unwritten nofun (before.events (by omega))
      | deliver => exact consistent_unwritten nofun before.deliver

omit [DecidableEq Path] [DecidableEq Dir] in
theorem State.Faithful.eq_currentFiles {state : State Path Dir} {files : List RuleFile}
    (faithful : state.Faithful watcher files) (current : Current watcher.rules state.fingerprint state.lastFingerprint)
    (sized : state.lastFingerprint.length = watcher.rules.length) (complete : files.length = watcher.rules.length) :
    files = state.currentFiles watcher := by
  refine Current.eq_map (fun index path file position read => ?_) complete
  have inside := (List.getElem?_eq_some_iff.mp position).1
  obtain ⟨fingerprint, held⟩ : ∃ fingerprint, state.lastFingerprint[index]? = some fingerprint :=
    ⟨_, List.getElem?_eq_getElem (by omega)⟩
  exact faithful index (path, fingerprint) file (List.getElem?_zip_eq_some.mpr ⟨position, held⟩) read
    (current index path fingerprint position held)

omit [DecidableEq Path] [DecidableEq Dir] in
theorem State.Serves.serves_iff {state : State Path Dir} {files : List RuleFile} (serves : state.Serves watcher files)
    (others : List RuleFile) : state.Serves watcher others ↔ SameRules watcher files others := by
  obtain ⟨rules, staticMeta, loaded, held⟩ := serves
  constructor
  · intro served
    obtain ⟨otherRules, otherMeta, otherLoaded, otherHeld⟩ := served
    exact ⟨rules, staticMeta, otherRules, otherMeta, loaded, otherLoaded,
      fun kind key => (held kind key).symm.trans (otherHeld kind key)⟩
  · intro same
    obtain ⟨firstRules, firstMeta, otherRules, otherMeta, firstLoaded, otherLoaded, equal⟩ := same
    cases loaded.symm.trans firstLoaded
    exact ⟨otherRules, otherMeta, otherLoaded, fun kind key => (held kind key).trans (equal kind key)⟩

omit [DecidableEq Path] [DecidableEq Dir] in
theorem Consistent.serves_iff {past : Path → List (Fingerprint Path)} {late : Prop} {state : State Path Dir}
    (consistent : Consistent watcher past late state) (quiescent : state.Quiescent) :
    state.Serves watcher (state.currentFiles watcher) ↔
      late ∨ SameRules watcher state.firstRead (state.currentFiles watcher) := by
  obtain ⟨disk, phase, watched, inFlight, queued, last, manager, firstRead, installed, reloaded⟩ := state
  obtain ⟨rfl, rfl, rfl⟩ := quiescent
  obtain ⟨recorded, judged, served⟩ := consistent
  have current := judged.announced.resolve_right (Nat.lt_irrefl 0)
  have serves := served.serves nofun
  cases reloaded with
  | false =>
      have punctual : ¬ late := fun written => judged.late written rfl current
      have first : installed = firstRead := served.explained.1 rfl
      subst first
      rw [serves.serves_iff, or_iff_right punctual]
  | true =>
      obtain ⟨faithful, complete⟩ := served.explained.2 rfl
      have written : late := by
        by_contra quiet
        exact absurd (judged.quiet quiet).2.2 nofun
      have files := faithful.eq_currentFiles current recorded.sized complete
      exact iff_of_true (files ▸ serves) (Or.inl written)

theorem idle_serves_current_iff (watcher : Watcher Path Dir) (disk : Path → DiskFile) (actions : List (Action Path))
    (fresh : FreshWrites watcher disk actions)
    (loads : HoldsThroughout (State.step watcher) (.start disk) (State.LoadsSucceed watcher) actions)
    (quiescent : (run (State.step watcher) (.start disk) actions).Quiescent) :
    (run (State.step watcher) (.start disk) actions).Serves watcher
        ((run (State.step watcher) (.start disk) actions).currentFiles watcher) ↔
      LateWrite watcher disk actions ∨ SameRules watcher (run (State.step watcher) (.start disk) actions).firstRead
        ((run (State.step watcher) (.start disk) actions).currentFiles watcher) :=
  (consistent_run fresh loads).serves_iff quiescent

end Histories

section LostWrite

def oneRuleFile : Watcher Unit Unit := ⟨[()], fun _ => "blocklist.txt".toList, fun _ => (), fun _ => none⟩

def hostListed : DiskFile := ⟨.bytes [0x31, 0x2E, 0x32, 0x2E, 0x33, 0x2E, 0x34, 0x0A], some ⟨some 1, 8⟩⟩

def emptied : DiskFile := ⟨.bytes [], some ⟨some 2, 0⟩⟩

noncomputable def advances (count : Nat) : List (Action Unit) := .replicate count (.advance .arbitrary)

noncomputable def emptiedWhenIdle : List (Action Unit) :=
  advances 6 ++ [.write () emptied 0, .deliver] ++ advances 6

noncomputable def emptiedUnderWatch : List (Action Unit) :=
  advances 4 ++ [.write () emptied 0, .deliver] ++ advances 6

theorem emptied_once {actions : List (Action Unit)}
    (distinct : (pastFingerprints (fun _ => hostListed) () actions).Nodup) :
    FreshWrites oneRuleFile (fun _ => hostListed) actions :=
  fun _ _ => distinct

theorem loads_of_inits {actions : List (Action Unit)}
    (loads : ∀ done ∈ actions.inits,
      (run (State.step oneRuleFile) (.start fun _ => hostListed) done).LoadsSucceed oneRuleFile) :
    HoldsThroughout (State.step oneRuleFile) (.start fun _ => hostListed) (State.LoadsSucceed oneRuleFile) actions :=
  fun done within => loads done ((List.mem_inits done actions).mpr within)

theorem not_sameRules_unlisted {file : DiskFile} {result : ParsedRuleSet × Store (BitVec 32) StaticRuleInfo}
    (loaded : loadFromPathsWithMeta (fun _ => none) [⟨"blocklist.txt".toList, file.content⟩] = .ok result)
    (unlisted : result.1.finalValue .ipv4Exact (ipv4Octets 1 2 3 4) = none) :
    ¬ SameRules oneRuleFile [⟨"blocklist.txt".toList, hostListed.content⟩] [⟨"blocklist.txt".toList, file.content⟩] := by
  intro same
  obtain ⟨rules, staticMeta, otherRules, otherMeta, first, second, equal⟩ := same
  cases first
  cases loaded.symm.trans second
  exact absurd ((equal .ipv4Exact (ipv4Octets 1 2 3 4)).trans unlisted) (by decide +kernel)

theorem emptied_when_idle_reloaded :
    (run (State.step oneRuleFile) (.start fun _ => hostListed) emptiedWhenIdle).Serves oneRuleFile
      ((run (State.step oneRuleFile) (.start fun _ => hostListed) emptiedWhenIdle).currentFiles oneRuleFile) := by
  refine (idle_serves_current_iff oneRuleFile (fun _ => hostListed) emptiedWhenIdle (emptied_once (by decide +kernel))
    (loads_of_inits (by decide +kernel)) ⟨rfl, rfl, rfl⟩).mpr (Or.inl ?_)
  exact ⟨advances 6, (), emptied, 0, ⟨.deliver :: advances 6, rfl⟩, List.mem_singleton_self ()⟩

theorem emptied_under_watch_lost :
    FreshWrites oneRuleFile (fun _ => hostListed) emptiedUnderWatch ∧
      HoldsThroughout (State.step oneRuleFile) (.start fun _ => hostListed) (State.LoadsSucceed oneRuleFile)
        emptiedUnderWatch ∧
      (run (State.step oneRuleFile) (.start fun _ => hostListed) emptiedUnderWatch).Quiescent ∧
      ¬ (run (State.step oneRuleFile) (.start fun _ => hostListed) emptiedUnderWatch).Serves oneRuleFile
        ((run (State.step oneRuleFile) (.start fun _ => hostListed) emptiedUnderWatch).currentFiles oneRuleFile) := by
  have fresh : FreshWrites oneRuleFile (fun _ => hostListed) emptiedUnderWatch := emptied_once (by decide +kernel)
  have loads : HoldsThroughout (State.step oneRuleFile) (.start fun _ => hostListed) (State.LoadsSucceed oneRuleFile)
      emptiedUnderWatch := loads_of_inits (by decide +kernel)
  refine ⟨fresh, loads, ⟨rfl, rfl, rfl⟩, ?_⟩
  have serves := (consistent_run fresh loads).served.serves nofun
  rw [serves.serves_iff]
  exact not_sameRules_unlisted rfl (by decide +kernel)

-- The same length and modification time as at the beginning, with another host.
def otherHost : DiskFile := ⟨.bytes [0x35, 0x2E, 0x36, 0x2E, 0x37, 0x2E, 0x38, 0x0A], some ⟨some 1, 8⟩⟩

noncomputable def emptiedAndRestored : List (Action Unit) :=
  advances 6 ++ [.write () emptied 0, .write () otherHost 0, .deliver, .deliver] ++ advances 5

theorem restored_fingerprint_lost :
    (pastFingerprints (fun _ => hostListed) () emptiedAndRestored).IsChain (· ≠ ·) ∧
      LateWrite oneRuleFile (fun _ => hostListed) emptiedAndRestored ∧
      (run (State.step oneRuleFile) (.start fun _ => hostListed) emptiedAndRestored).Quiescent ∧
      ¬ (run (State.step oneRuleFile) (.start fun _ => hostListed) emptiedAndRestored).Serves oneRuleFile
        ((run (State.step oneRuleFile) (.start fun _ => hostListed) emptiedAndRestored).currentFiles oneRuleFile) := by
  have fresh : FreshWrites oneRuleFile (fun _ => hostListed) (advances 6) := emptied_once (by decide +kernel)
  have loads : HoldsThroughout (State.step oneRuleFile) (.start fun _ => hostListed) (State.LoadsSucceed oneRuleFile)
      (advances 6) := loads_of_inits (by decide +kernel)
  refine ⟨by decide +kernel, ⟨advances 6, (), emptied, 0, ⟨_, rfl⟩, List.mem_singleton_self ()⟩, ⟨rfl, rfl, rfl⟩, ?_⟩
  have serves : (run (State.step oneRuleFile) (.start fun _ => hostListed) emptiedAndRestored).Serves oneRuleFile _ :=
    (consistent_run fresh loads).served.serves nofun
  rw [serves.serves_iff]
  exact not_sameRules_unlisted rfl (by decide +kernel)

end LostWrite

end ReputationFirewall.HotReload
