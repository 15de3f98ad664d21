import ReputationFirewall.Firehol.Registry

set_option autoImplicit false

namespace ReputationFirewall.Firehol

open BigEndian Collect KeyedStore

section Contributions

abbrev LightMetadata := Store (BitVec 32) (FireholCategory × List Char)

def targetPart (pair : List UInt8 × List UInt8) : List UInt8 := pair.1.take (pair.1.length - 8)

def addContribution (light : LightMetadata) (context : RuleBlockContext) (pair : List UInt8 × List UInt8) :
    RuleBlockContext :=
  match light.lookup (readNumber32 (pair.2.take 4)) with
  | none => context
  | some (category, file) =>
      (context.addSource file (readNumber32 (pair.2.drop 4))).addCategory category

structure ValidContribution (light : LightMetadata) (pair : List UInt8 × List UInt8) : Prop where
  sized : pair.2.length = 8
  target : isTargetKey (targetPart pair) = true
  known : (light.lookup (readNumber32 (pair.2.take 4))).isSome

theorem targetPart_contribution (target : FireholIpTarget) (sequence : Nat) (bytes : List UInt8) :
    targetPart (contributionKey target sequence, bytes) = target.contextKey := by
  simp [targetPart, contributionKey]

theorem readNumber32_toBeBytes (number : BitVec 32) :
    readNumber32 (toBeBytes number : Octets 4).toList = number := by
  have bytes := @fromBeBytes_toBeBytes 4 number
  exact bytes

theorem encode_contribution (entry : FireholEntry) :
    entry.encode.toList.drop 22 =
      (toBeBytes entry.metadataId : Octets 4).toList ++ (toBeBytes entry.line : Octets 4).toList := by
  unfold FireholEntry.encode
  rw [Vector.toList_append, Vector.toList_append, Vector.toList_append, List.append_assoc]
  exact List.drop_left' (by simp)

theorem contribution_metadataId (entry : FireholEntry) :
    readNumber32 ((entry.encode.toList.drop 22).take 4) = entry.metadataId := by
  rw [encode_contribution, List.take_left' (by simp), readNumber32_toBeBytes]

theorem contribution_line (entry : FireholEntry) :
    readNumber32 ((entry.encode.toList.drop 22).drop 4) = entry.line := by
  rw [encode_contribution, List.drop_left' (by simp), readNumber32_toBeBytes]

theorem mem_contributions {sequence : Nat} {entries : List FireholEntry} {pair : List UInt8 × List UInt8}
    (listed : pair ∈ contributions sequence entries) :
    ∃ number entry, entry ∈ entries ∧ sequence ≤ number ∧ number < sequence + entries.length ∧
      pair = (contributionKey entry.target number, entry.encode.toList.drop 22) := by
  induction entries generalizing sequence with
  | nil => simp [contributions] at listed
  | cons first rest ih =>
      rcases List.mem_cons.mp listed with rfl | later
      · exact ⟨sequence, first, List.mem_cons_self, le_rfl, by simp, rfl⟩
      · obtain ⟨number, entry, member, above, below, rfl⟩ := ih later
        refine ⟨number, entry, List.mem_cons_of_mem _ member, by omega, ?_, rfl⟩
        rw [List.length_cons]
        omega

theorem contributionKey_lt {first second : Nat} (ordered : first < second) (small : second < 2 ^ 64)
    (target : FireholIpTarget) :
    contributionKey target first ≤ contributionKey target second ∧
      contributionKey target first ≠ contributionKey target second := by
  have less := spoolKey_lt ordered small
  constructor
  · apply List.append_left_le
    exact Bytewise.toBeBytes_le (by simpa [spoolKey] using BitVec.le_of_lt less)
  · intro same
    have keys := Vector.toList_inj.mp (List.append_cancel_left same)
    exact BitVec.lt_irrefl _ (keys ▸ less)

theorem contributions_pairwise {sequence : Nat} {entries : List FireholEntry}
    (small : sequence + entries.length ≤ 2 ^ 64) :
    (contributions sequence entries).Pairwise fun first second =>
      targetPart first = targetPart second → first.1 ≤ second.1 ∧ first.1 ≠ second.1 := by
  induction entries generalizing sequence with
  | nil => exact List.Pairwise.nil
  | cons entry rest ih =>
      rw [List.length_cons] at small
      rw [contributions, List.pairwise_cons]
      refine ⟨?_, ih (by omega)⟩
      intro pair listed same
      obtain ⟨number, other, _, above, below, rfl⟩ := mem_contributions listed
      rw [targetPart_contribution, targetPart_contribution] at same
      have less := contributionKey_lt (show sequence < number by omega) (by omega) other.target
      simpa only [contributionKey, same] using less

theorem contributions_nodup {sequence : Nat} {entries : List FireholEntry}
    (small : sequence + entries.length ≤ 2 ^ 64) :
    ((contributions sequence entries).map Prod.fst).Nodup := by
  rw [List.Nodup, List.pairwise_map]
  apply (contributions_pairwise small).imp
  intro first second ordered same
  exact (ordered (by rw [targetPart, targetPart, same])).2 same

theorem contributions_sorted {sequence : Nat} {entries : List FireholEntry}
    (small : sequence + entries.length ≤ 2 ^ 64) (key : List UInt8) :
    ((contributions sequence entries).filter fun pair => targetPart pair = key).Pairwise fun first second =>
      Bytewise.le first.1 second.1 = true := by
  apply ((contributions_pairwise small).filter _).imp_of_mem
  intro first second inside listed ordered
  have own : targetPart first = key := by simpa using (List.mem_filter.mp inside).2
  have other : targetPart second = key := by simpa using (List.mem_filter.mp listed).2
  exact decide_eq_true (ordered (own.trans other.symm)).1

end Contributions

section Scanning

variable (sizeInBytes : List Put → Nat) (light : LightMetadata)

def contextOf (pairs : List (List UInt8 × List UInt8)) : RuleBlockContext :=
  pairs.foldl (addContribution light) .default

def contextPuts (archive : Archive) (chunks : List (List UInt8 × List (List UInt8 × List UInt8))) : List Put :=
  chunks.map fun chunk => .context chunk.1 (archive.serialize (contextOf light chunk.2))

@[simp] theorem put_archive (writer : ColumnWriter) (put : Put) :
    (writer.put sizeInBytes put).database.archive = writer.database.archive := by
  unfold ColumnWriter.put ColumnWriter.commitFull ColumnWriter.commit
  split_ifs
  · simp [Database.writeAll_eq]
  · rfl

variable {light}

theorem visit_valid {pair : List UInt8 × List UInt8} (valid : ValidContribution light pair)
    (scan : ContextScan) :
    scan.visit sizeInBytes light pair =
      .ok { scan.enter sizeInBytes (targetPart pair) with
        context := addContribution light (scan.enter sizeInBytes (targetPart pair)).context pair } := by
  obtain ⟨found, known⟩ := Option.isSome_iff_exists.mp valid.known
  have target := valid.target
  unfold targetPart at target ⊢
  simp [ContextScan.visit, addContribution, valid.sized, target, known]

theorem scan_chunks {pairs : List (List UInt8 × List UInt8)}
    (valid : ∀ pair ∈ pairs, ValidContribution light pair) {scan : ContextScan} (inside : scan.current ≠ [])
    {run : List (List UInt8 × List UInt8)} (some : run ≠ [])
    (same : ∀ pair ∈ run, targetPart pair = scan.current) (context : scan.context = contextOf light run) :
    ∃ last, pairs.foldlM (ContextScan.visit sizeInBytes light) scan = .ok last ∧
      (last.emit sizeInBytes).settled = scan.writer.settled.writeAll
        (contextPuts light scan.writer.database.archive (chunkBy targetPart (run ++ pairs))) := by
  induction pairs generalizing scan run with
  | nil =>
      have chunks : chunkBy targetPart (run ++ []) = [(scan.current, run)] :=
        chunkBy_append some same (by simp)
      refine ⟨scan, rfl, ?_⟩
      rw [chunks, ContextScan.emit, if_neg inside, ColumnWriter.settled_put, context]
      rfl
  | cons pair rest ih =>
      have first := valid pair List.mem_cons_self
      have later := fun other member => valid other (List.mem_cons_of_mem pair member)
      rw [List.foldlM_cons, visit_valid sizeInBytes first]
      by_cases stays : scan.current = targetPart pair
      · have entered : scan.enter sizeInBytes (targetPart pair) = scan := if_pos stays
        have longer := @ih later { scan with context := addContribution light scan.context pair } inside
          (run ++ [pair]) (by simp)
          (by
            intro other member
            rcases List.mem_append.mp member with before | last
            · exact same other before
            · rw [List.mem_singleton.mp last, stays])
          (by simp [contextOf, context])
        rw [List.append_assoc] at longer
        rw [entered]
        exact longer
      · have entered : scan.enter sizeInBytes (targetPart pair) =
            ⟨targetPart pair, .default, scan.emit sizeInBytes⟩ := if_neg stays
        have ends : chunkBy targetPart (run ++ pair :: rest) =
            (scan.current, run) :: chunkBy targetPart (pair :: rest) :=
          chunkBy_append some same (by
            intro other head
            obtain rfl := Option.some.inj head
            exact Ne.symm stays)
        have filled : targetPart pair ≠ [] := by
          intro empty
          have target := first.target
          rw [empty] at target
          exact absurd target (by decide)
        obtain ⟨last, reached, written⟩ := @ih later
          ⟨targetPart pair, addContribution light .default pair, scan.emit sizeInBytes⟩ filled
          [pair] (by simp) (by simp) rfl
        rw [entered]
        refine ⟨last, reached, ?_⟩
        have archive : (scan.emit sizeInBytes).database.archive = scan.writer.database.archive := by
          rw [ContextScan.emit, if_neg inside, put_archive]
        have emitted : (scan.emit sizeInBytes).settled = scan.writer.settled.write
            (.context scan.current (scan.writer.database.archive.serialize (contextOf light run))) := by
          rw [ContextScan.emit, if_neg inside, ColumnWriter.settled_put, context]
        rw [written, archive, emitted, ends]
        rfl

theorem scan_all {pairs : List (List UInt8 × List UInt8)}
    (valid : ∀ pair ∈ pairs, ValidContribution light pair) (writer : ColumnWriter) :
    ∃ last, pairs.foldlM (ContextScan.visit sizeInBytes light) ⟨[], .default, writer⟩ = .ok last ∧
      (last.emit sizeInBytes).settled = writer.settled.writeAll
        (contextPuts light writer.database.archive (chunkBy targetPart pairs)) := by
  cases pairs with
  | nil => exact ⟨_, rfl, rfl⟩
  | cons pair rest =>
      have first := valid pair List.mem_cons_self
      have filled : targetPart pair ≠ [] := by
        intro empty
        have target := first.target
        rw [empty] at target
        exact absurd target (by decide)
      have entered : (⟨[], .default, writer⟩ : ContextScan).enter sizeInBytes (targetPart pair) =
          ⟨targetPart pair, .default, writer⟩ := if_neg filled.symm
      rw [List.foldlM_cons, visit_valid sizeInBytes first, entered]
      exact @scan_chunks sizeInBytes light rest (fun other member => valid other (List.mem_cons_of_mem _ member))
        ⟨targetPart pair, addContribution light .default pair, writer⟩ filled [pair] (by simp) (by simp) rfl

end Scanning

section Contexts

def addEntry (light : LightMetadata) (context : RuleBlockContext) (entry : FireholEntry) : RuleBlockContext :=
  match light.lookup entry.metadataId with
  | none => context
  | some (category, file) => (context.addSource file entry.line).addCategory category

def keyContext (light : LightMetadata) (entries : List FireholEntry) (key : List UInt8) : RuleBlockContext :=
  (entries.filter fun entry => entry.target.contextKey = key).foldl (addEntry light) .default

variable (sizeInBytes : List Put → Nat) {light : LightMetadata} {entries : List FireholEntry}

theorem addContribution_entry (context : RuleBlockContext) (key : List UInt8) (entry : FireholEntry) :
    addContribution light context (key, entry.encode.toList.drop 22) = addEntry light context entry := by
  unfold addContribution addEntry
  rw [contribution_metadataId, contribution_line]

theorem contributions_fold (sequence : Nat) (key : List UInt8) (context : RuleBlockContext) :
    ((contributions sequence entries).filter fun pair => targetPart pair = key).foldl (addContribution light)
        context =
      (entries.filter fun entry => entry.target.contextKey = key).foldl (addEntry light) context := by
  induction entries generalizing sequence context with
  | nil => rfl
  | cons entry rest ih =>
      have target := targetPart_contribution entry.target sequence (entry.encode.toList.drop 22)
      rw [contributions]
      by_cases same : entry.target.contextKey = key
      · rw [List.filter_cons_of_pos (by simpa [target] using same), List.foldl_cons, addContribution_entry, ih,
          List.filter_cons_of_pos (by simpa using same), List.foldl_cons]
      · rw [List.filter_cons_of_neg (by simpa [target] using same), ih,
          List.filter_cons_of_neg (by simpa using same)]

theorem contribution_valid (known : ∀ entry ∈ entries, (light.lookup entry.metadataId).isSome)
    {sequence : Nat} {pair : List UInt8 × List UInt8} (listed : pair ∈ contributions sequence entries) :
    ValidContribution light pair := by
  obtain ⟨number, entry, member, _, _, rfl⟩ := mem_contributions listed
  refine ⟨by simp, ?_, ?_⟩
  · rw [targetPart_contribution]
    exact contextKey_isTargetKey entry.target
  · rw [contribution_metadataId]
    exact known entry member

theorem contributions_contiguous (small : entries.length ≤ 2 ^ 64) :
    Contiguous targetPart (orderedPairs Bytewise.le (insertAll ∅ (contributions 0 entries))) := by
  intro first middle last sub same
  have distinct := contributions_nodup (show 0 + entries.length ≤ 2 ^ 64 by omega)
  have listed : ∀ pair ∈ [first, middle, last], pair ∈ contributions 0 entries :=
    fun pair member => (orderedPairs_perm Bytewise.le distinct).mem_iff.mp (sub.subset member)
  obtain ⟨_, front, _, _, _, rfl⟩ := mem_contributions (listed first (by simp))
  obtain ⟨_, between, _, _, _, rfl⟩ := mem_contributions (listed middle (by simp))
  obtain ⟨_, back, _, _, _, rfl⟩ := mem_contributions (listed last (by simp))
  simp only [targetPart_contribution] at same ⊢
  have ordered := (orderedPairs_sorted _ Bytewise.le_trans Bytewise.le_total _).sublist sub
  simp only [List.pairwise_cons, List.mem_cons, List.not_mem_nil, or_false, forall_eq_or_imp, forall_eq,
    decide_eq_true_eq] at ordered
  have shared : front.target.contextKey.IsPrefix (contributionKey between.target _) :=
    Bytewise.prefix_between ordered.1.1 (by simpa only [contributionKey, same] using ordered.2.1)
  rcases List.prefix_or_prefix_of_prefix shared (List.prefix_append _ _) with shorter | longer
  · exact (contextKey_starts shorter).symm
  · exact contextKey_starts longer

theorem contributions_targets (sequence : Nat) :
    (contributions sequence entries).map targetPart = entries.map fun entry => entry.target.contextKey := by
  induction entries generalizing sequence with
  | nil => rfl
  | cons entry rest ih => rw [contributions, List.map_cons, targetPart_contribution, ih, List.map_cons]

theorem contextPuts_contexts (archive : Archive)
    (chunks : List (List UInt8 × List (List UInt8 × List UInt8))) :
    (contextPuts light archive chunks).filterMap Put.context? =
      chunks.map fun chunk => (chunk.1, archive.serialize (contextOf light chunk.2)) := by
  rw [contextPuts, List.filterMap_map]
  exact congrFun List.filterMap_eq_map chunks

theorem getRuleContext_chunks (small : entries.length ≤ 2 ^ 64) {database : Database}
    (fresh : database.ruleContext = ∅) (key : List UInt8) :
    (database.writeAll (contextPuts light database.archive
        (chunkBy targetPart (orderedPairs Bytewise.le (insertAll ∅ (contributions 0 entries)))))).getRuleContext key =
      if key ∈ entries.map (fun entry => entry.target.contextKey) then some (keyContext light entries key)
      else none := by
  have distinct := contributions_nodup (show 0 + entries.length ≤ 2 ^ 64 by omega)
  have sorted := contributions_sorted (show 0 + entries.length ≤ 2 ^ 64 by omega) key
  have scanned := orderedPairs_filter _ Bytewise.le_trans Bytewise.le_total Bytewise.le_antisymm distinct _ sorted
  obtain ⟨keys, chunks⟩ := chunkBy_contiguous (contributions_contiguous small)
  have written : key ∈ (chunkBy targetPart
      (orderedPairs Bytewise.le (insertAll ∅ (contributions 0 entries)))).map Prod.fst ↔
      key ∈ entries.map fun entry => entry.target.contextKey := by
    rw [chunkBy_keys, ((orderedPairs_perm Bytewise.le distinct).map targetPart).mem_iff, contributions_targets]
  rw [Database.getRuleContext, Database.writeAll_eq, fresh, contextPuts_contexts]
  dsimp only
  split_ifs with listed
  · obtain ⟨chunk, member, rfl⟩ := List.mem_map.mp (written.mpr listed)
    have found := lookup_insertAll_nodup ∅ (by rwa [List.map_map])
      (List.mem_map_of_mem (f := fun chunk : List UInt8 × List (List UInt8 × List UInt8) =>
        (chunk.1, database.archive.serialize (contextOf light chunk.2))) member)
    rw [found, chunks chunk member, scanned, contextOf, contributions_fold]
    exact database.archive.deserialize_serialize _
  · have absent := fun inside => listed (written.mp inside)
    rw [lookup_insertAll_absent _ _ _ (by rwa [List.map_map])]
    rfl

theorem buildOrderedContexts_ok (small : entries.length ≤ 2 ^ 64)
    (known : ∀ entry ∈ entries, (light.lookup entry.metadataId).isSome) {writer : ColumnWriter}
    (flushed : writer.batch = []) (stored : writer.database.contributions = insertAll ∅ (contributions 0 entries))
    (fresh : writer.database.ruleContext = ∅) :
    ∃ result, buildOrderedContexts sizeInBytes light writer = .ok result ∧
      ∀ key, result.settled.getRuleContext key =
        if key ∈ entries.map (fun entry => entry.target.contextKey) then some (keyContext light entries key)
        else none := by
  have distinct := contributions_nodup (show 0 + entries.length ≤ 2 ^ 64 by omega)
  have valid : ∀ pair ∈ orderedPairs Bytewise.le writer.database.contributions, ValidContribution light pair := by
    intro pair member
    rw [stored] at member
    exact contribution_valid known ((orderedPairs_perm _ distinct).mem_iff.mp member)
  obtain ⟨last, reached, written⟩ := scan_all sizeInBytes valid writer
  have settled : writer.settled = writer.database := by
    rw [ColumnWriter.settled, flushed]
    rfl
  refine ⟨last.emit sizeInBytes, by rw [buildOrderedContexts, reached]; rfl, fun key => ?_⟩
  rw [written, settled, stored]
  exact getRuleContext_chunks small fresh key

end Contexts

end ReputationFirewall.Firehol
