import ReputationFirewall.Firehol.CallRefinement

set_option autoImplicit false

namespace ReputationFirewall.Firehol

open BigEndian Interleaving Runs Text

section Allocations

variable {context : ImportContext} {file : SourceFile}

-- A call takes a number when it opens its file, and at most one for a line.
def FileCall.progress (file : SourceFile) : FileCall → Nat
  | .opening => 0
  | .reading _ lineNumber _ => lineNumber
  | .returned .. => 1 + (visitFileLines file.source).lines.length

theorem FileCall.Follows.progress_le {call : FileCall} (follows : call.Follows context file) :
    call.progress file ≤ 1 + (visitFileLines file.source).lines.length := by
  cases call with
  | opening => exact Nat.zero_le _
  | reading parsed lineNumber rest =>
      obtain ⟨counter, done, split, number, _⟩ := follows
      rw [progress, number, split, List.length_append]
      omega
  | returned => exact le_rfl

theorem FileCall.Follows.step_progress {call : FileCall} (follows : call.Follows context file) (next : BitVec 32) :
    call.progress file + (if (call.step context file next).2 = next then 0 else 1) ≤
      (call.step context file next).1.progress file := by
  have bounded := follows.progress_le
  cases call with
  | opening =>
      rw [progress, Nat.zero_add]
      exact ite_le_one (Nat.zero_le 1) le_rfl
  | returned => simp [FileCall.step]
  | reading parsed lineNumber lines =>
      cases lines with
      | nil =>
          rw [FileCall.step]
          cases (visitFileLines file.source).bytes <;> simpa [progress] using bounded
      | cons line rest =>
          rw [FileCall.step]
          cases visitLine context file.path parsed.state next lineNumber line with
          | ok result =>
              simp only [progress]
              split_ifs <;> omega
          | error error => simpa [progress] using bounded

variable {n : Nat} {files : Fin n → SourceFile}

theorem allocations_le_progress (first : BitVec 32) (schedule : List (Fin n)) :
    countSteps (ParseCalls.step context files) (Allocates context files) (.start first) schedule ≤
      ∑ index, ((run (ParseCalls.step context files) (.start first) schedule).calls index).progress (files index) := by
  induction schedule using List.reverseRecOn with
  | nil => exact Nat.zero_le _
  | append_singleton schedule index ih =>
      rw [countSteps_concat, run_concat]
      have follows := @run_follows context n files first schedule index
      generalize run (ParseCalls.step context files) (.start first) schedule = state at ih follows ⊢
      have moved := follows.step_progress state.nextMetadataId
      have sum := sum_update_part (fun index (call : FileCall) => call.progress (files index)) state.calls index
        ((state.calls index).step context (files index) state.nextMetadataId).1
      dsimp only [ParseCalls.step] at sum ⊢
      by_cases allocates : Allocates context files state index
      · have taken : ((state.calls index).step context (files index) state.nextMetadataId).2 ≠ state.nextMetadataId :=
          allocates
        rw [if_neg taken] at moved
        rw [if_pos allocates]
        omega
      · rw [if_neg allocates]
        omega

def numbersNeeded (files : List SourceFile) : Nat :=
  (files.map fun file => 1 + (visitFileLines file.source).lines.length).sum

theorem allocations_le (config : ImportConfig) (first : BitVec 32) (schedule : List (Fin config.files.length)) :
    countSteps (ParseCalls.stepOf config) (Allocates config.context config.files.get) (.start first) schedule ≤
      numbersNeeded config.files := by
  have each : numbersNeeded config.files =
      ∑ index : Fin config.files.length, (1 + (visitFileLines (config.files.get index).source).lines.length) := by
    simp [numbersNeeded, ← Fin.sum_univ_fun_getElem]
  rw [each]
  exact (allocations_le_progress first schedule).trans
    (Finset.sum_le_sum fun index _ => (run_follows first schedule index).progress_le)

theorem Fresh.below {count : Nat} {state : ParseCalls n} (fresh : Fresh 1 count state) (small : count + 1 < 2 ^ 32) :
    ∀ record ∈ state.pushed, record.id ≠ 0 ∧ record.id < state.nextMetadataId := by
  intro record member
  obtain ⟨index, _, pushed⟩ := List.mem_flatMap.mp member
  obtain ⟨earlier, before, value⟩ := fresh.taken index record.id
    ((state.calls index).pushed_sublist.subset (List.mem_map_of_mem pushed))
  have number : record.id.toNat = 1 + earlier := by
    rw [value, BitVec.toNat_add, BitVec.toNat_ofNat, Nat.mod_eq_of_lt (show earlier < 2 ^ 32 by omega)]
    exact Nat.mod_eq_of_lt (by simp; omega)
  have next : state.nextMetadataId.toNat = 1 + count := by
    rw [fresh.next, BitVec.toNat_add, BitVec.toNat_ofNat, Nat.mod_eq_of_lt (show count < 2 ^ 32 by omega)]
    exact Nat.mod_eq_of_lt (by simp; omega)
  refine ⟨fun zero => ?_, ?_⟩
  · rw [zero] at number
    exact absurd number (by simp; omega)
  · rw [BitVec.lt_def]
    omega

end Allocations

section Origins

def SourceFile.name (file : SourceFile) : List Char := (decodeUtf8 file.path).getD "unknown".toList

def SourceFile.textLines (file : SourceFile) : List (List Char) :=
  ((decodeUtf8 file.source.content).map (splitTerminator '\n')).getD []

variable (context : ImportContext) (metadata : List FireholMetadata)

structure FromLine (file : SourceFile) (position : Nat) (entry : FireholEntry) : Prop where
  line : ∃ line targets, file.textLines[position]? = some line ∧ lineTargets context line = some targets ∧
    entry.target ∈ targets
  number : entry.line = BitVec.ofNat 32 (position + 1)
  record : ∃ record ∈ metadata,
    Describes file.name (categoryOf (file.textLines.take position)) entry.metadataId record

variable {context metadata}

theorem mem_entriesOf (lines : List (List Char)) (ids : List (BitVec 32)) (entry : FireholEntry) :
    entry ∈ entriesOf context lines ids ↔ ∃ position line id targets target, lines[position]? = some line ∧
      ids[position]? = some id ∧ lineTargets context line = some targets ∧ target ∈ targets ∧
        entry = { target, ruleId := 0, metadataId := id, line := BitVec.ofNat 32 (position + 1) } := by
  simp only [entriesOf, List.mem_flatMap, List.mem_map, Prod.exists, List.mk_mem_zipIdx_iff_le_and_getElem?_sub,
    List.getElem?_zip_eq_some]
  constructor
  · rintro ⟨line, id, number, ⟨counted, here, there⟩, target, member, rfl⟩
    cases parsed : lineTargets context line with
    | none => simp [parsed] at member
    | some targets =>
        refine ⟨number - 1, line, id, targets, target, here, there, parsed, by simpa [parsed] using member, ?_⟩
        rw [Nat.sub_add_cancel counted]
  · rintro ⟨position, line, id, targets, target, here, there, parsed, member, rfl⟩
    exact ⟨line, id, position + 1, ⟨Nat.le_add_left 1 position, by simpa using here, by simpa using there⟩, target,
      by simpa [parsed] using member, rfl⟩

theorem classifyLine_of_targets {line : List Char} {targets : List FireholIpTarget} {target : FireholIpTarget}
    (parsed : lineTargets context line = some targets) (member : target ∈ targets) :
    ∃ token, classifyLine line = .target token := by
  cases kind : classifyLine line with
  | target token => exact ⟨token, rfl⟩
  | blank => simp_all [lineTargets]
  | comment => simp_all [lineTargets]

theorem parsed_origins {counter : Nat → BitVec 32} {file : SourceFile} {metadata : List FireholMetadata}
    {entries : List FireholEntry} {bytes : Nat}
    (parsed : parseSingleFile context counter file = .ok (metadata, entries, bytes)) :
    (∀ entry ∈ entries, ∃ position, FromLine context metadata file position entry) ∧
      ∀ position line targets target, file.textLines[position]? = some line →
        lineTargets context line = some targets → target ∈ targets →
          ∃ entry ∈ entries, entry.target = target ∧ FromLine context metadata file position entry := by
  obtain ⟨text, ids, decoded, aligned, rfl, records⟩ := parseSingleFile_attributed parsed
  have lines : file.textLines = splitTerminator '\n' text := by simp [SourceFile.textLines, decoded]
  rw [← lines] at aligned records ⊢
  constructor
  · intro entry member
    obtain ⟨position, line, id, targets, target, here, there, found, inside, rfl⟩ := (mem_entriesOf _ ids entry).mp member
    obtain ⟨token, kind⟩ := classifyLine_of_targets found inside
    exact ⟨position, ⟨line, targets, here, found, inside⟩, rfl, records position line token id here kind there⟩
  · intro position line targets target here found inside
    obtain ⟨token, kind⟩ := classifyLine_of_targets found inside
    obtain ⟨id, there⟩ : ∃ id, ids[position]? = some id :=
      ⟨_, List.getElem?_eq_getElem (aligned ▸ (List.getElem?_eq_some_iff.mp here).1)⟩
    refine ⟨_, (mem_entriesOf _ ids _).mpr ⟨position, line, id, targets, target, here, there, found, inside, rfl⟩, rfl, ?_⟩
    exact ⟨⟨line, targets, here, found, inside⟩, rfl, records position line token id here kind there⟩

end Origins

section Imports

variable {config : ImportConfig} {final : Pipeline config.workers} {entries : List FireholEntry}
  {schedule : List (Fin config.files.length)}

theorem FromLine.mono {context : ImportContext} {metadata more : List FireholMetadata} {file : SourceFile}
    {position : Nat} {entry other : FireholEntry} (origin : FromLine context metadata file position entry)
    (known : ∀ record ∈ metadata, record ∈ more) (same : other.unnumbered = entry.unnumbered) :
    FromLine context more file position other := by
  obtain ⟨target, _, id, line⟩ := other
  simp only [FireholEntry.unnumbered, FireholEntry.mk.injEq, true_and] at same
  obtain ⟨rfl, rfl, rfl⟩ := same
  obtain ⟨record, member, describes⟩ := origin.record
  exact ⟨origin.line, origin.number, record, known record member, describes⟩

structure Numbering (metadata : List FireholMetadata) (nextMetadataId : BitVec 32) : Prop where
  distinct : (metadata.map FireholMetadata.id).Nodup
  positive : ∀ record ∈ metadata, record.id ≠ 0
  below : ∀ record ∈ metadata, record.id < nextMetadataId

theorem Completes.numbering (completes : Completes final entries (run (ParseCalls.stepOf config) (.start 1) schedule))
    (few : numbersNeeded config.files + 1 < 2 ^ 32) : Numbering final.metadata final.shared.nextMetadataId := by
  have count : countSteps (ParseCalls.step config.context config.files.get)
      (Allocates config.context config.files.get) (.start 1) schedule ≤ numbersNeeded config.files :=
    allocations_le config 1 schedule
  have fresh := run_fresh 1 schedule (count.trans_lt (by omega))
  have same : final.metadata.Perm (run (ParseCalls.stepOf config) (.start 1) schedule).pushed :=
    Multiset.coe_eq_coe.mp completes.records
  have below := fresh.below (by omega)
  rw [← completes.counter]
  refine ⟨?_, fun record member => (below record (same.subset member)).1,
    fun record member => (below record (same.subset member)).2⟩
  exact ((same.map FireholMetadata.id).nodup_iff).mpr fresh.pushed_nodup

theorem Completes.parsed (completes : Completes final entries (run (ParseCalls.stepOf config) (.start 1) schedule))
    (index : Fin config.files.length) :
    ∃ counter bytes, parseSingleFile config.context counter (config.files.get index) =
      .ok (((run (ParseCalls.stepOf config) (.start 1) schedule).calls index).pushed,
        ((run (ParseCalls.stepOf config) (.start 1) schedule).calls index).entries, bytes) := by
  obtain ⟨metadata, own, bytes, returned⟩ := completes.returned index
  have follows := @run_follows config.context _ config.files.get 1 schedule index
  change ((run (ParseCalls.stepOf config) (.start 1) schedule).calls index).Follows _ _ at follows
  rw [returned] at follows
  obtain ⟨counter, result⟩ := follows
  rw [returned]
  exact ⟨counter, bytes, result⟩

theorem Completes.origins (completes : Completes final entries (run (ParseCalls.stepOf config) (.start 1) schedule)) :
    (∀ entry ∈ entries, ∃ file ∈ config.files, ∃ position,
      FromLine config.context final.metadata file position entry) ∧
    ∀ file ∈ config.files, ∀ position line targets target, file.textLines[position]? = some line →
      lineTargets config.context line = some targets → target ∈ targets →
        ∃ entry ∈ entries, entry.target = target ∧ FromLine config.context final.metadata file position entry := by
  have parsed := completes.parsed
  generalize run (ParseCalls.stepOf config) (.start 1) schedule = calls at completes parsed
  have known : ∀ index, ∀ record ∈ (calls.calls index).pushed, record ∈ final.metadata := by
    intro index record member
    rw [← Multiset.mem_coe, completes.records, Multiset.mem_coe]
    exact List.mem_flatMap.mpr ⟨index, List.mem_finRange index, member⟩
  constructor
  · intro entry member
    have listed : entry.unnumbered ∈ contents entries := Multiset.mem_coe.mpr (List.mem_map_of_mem member)
    rw [completes.entries, Multiset.mem_sum] at listed
    obtain ⟨index, _, own⟩ := listed
    obtain ⟨source, inside, same⟩ := List.mem_map.mp (Multiset.mem_coe.mp own)
    obtain ⟨counter, bytes, result⟩ := parsed index
    obtain ⟨position, origin⟩ := (parsed_origins result).1 source inside
    exact ⟨_, List.get_mem _ index, position, origin.mono (known index) same.symm⟩
  · intro file member position line targets target here found inside
    obtain ⟨index, rfl⟩ := List.get_of_mem member
    obtain ⟨counter, bytes, result⟩ := parsed index
    obtain ⟨source, read, rfl, origin⟩ := (parsed_origins result).2 position line targets target here found inside
    have listed : source.unnumbered ∈ contents entries := by
      rw [completes.entries, Multiset.mem_sum]
      exact ⟨index, Finset.mem_univ index, Multiset.mem_coe.mpr (List.mem_map_of_mem read)⟩
    obtain ⟨entry, published, same⟩ := List.mem_map.mp (Multiset.mem_coe.mp listed)
    refine ⟨entry, published, ?_, origin.mono (known index) same⟩
    exact (congrArg FireholEntry.target same :)

end Imports

end ReputationFirewall.Firehol
