import ReputationFirewall.Firehol.Entry

set_option autoImplicit false

namespace ReputationFirewall.Firehol

open BigEndian KeyedStore

section Writing

structure BulkWriter where
  batch : List (Octets 8 × List UInt8)
  stored : Store (Octets 8) (List UInt8)

def encodeBlock (entries : List FireholEntry) : List UInt8 :=
  entries.flatMap fun entry => entry.encode.toList

namespace BulkWriter

def new : BulkWriter := ⟨[], ∅⟩

def commit (writer : BulkWriter) : BulkWriter := ⟨[], insertAll writer.stored writer.batch⟩

-- `commits` says whether the batch has reached the byte limit.
def entries (writer : BulkWriter) (entries : List FireholEntry) (sequence : Nat) (spool commits : Bool) :
    BulkWriter :=
  let key : Octets 8 := toBeBytes (BitVec.ofNat 64 sequence)
  let batch := if spool then writer.batch ++ [(key, encodeBlock entries)] else writer.batch
  if commits then commit { writer with batch } else { writer with batch }

end BulkWriter

def spoolKey (sequence : Nat) : Octets 8 := toBeBytes (BitVec.ofNat 64 sequence)

def keyedBlocks : Nat → List (List FireholEntry) → List (Octets 8 × List UInt8)
  | _, [] => []
  | sequence, block :: rest =>
      (spoolKey sequence, encodeBlock block) :: keyedBlocks (sequence + block.length) rest

def Spooled (writer : BulkWriter) (puts : List (Octets 8 × List UInt8)) : Prop :=
  ∃ committed, puts = committed ++ writer.batch ∧ writer.stored = insertAll ∅ committed

theorem keyedBlocks_concat (sequence : Nat) (blocks : List (List FireholEntry)) (block : List FireholEntry) :
    keyedBlocks sequence (blocks ++ [block]) =
      keyedBlocks sequence blocks ++ [(spoolKey (sequence + blocks.flatten.length), encodeBlock block)] := by
  induction blocks generalizing sequence with
  | nil => simp [keyedBlocks]
  | cons first rest ih => simp [keyedBlocks, ih, Nat.add_assoc]

theorem Spooled.commit {writer : BulkWriter} {puts : List (Octets 8 × List UInt8)}
    (spooled : Spooled writer puts) : Spooled writer.commit puts := by
  obtain ⟨committed, all, stored⟩ := spooled
  refine ⟨puts, by simp [BulkWriter.commit], ?_⟩
  simp [BulkWriter.commit, stored, all, insertAll, List.foldl_append]

theorem Spooled.entries {writer : BulkWriter} {puts : List (Octets 8 × List UInt8)}
    (spooled : Spooled writer puts) (entries : List FireholEntry) (sequence : Nat) (commits : Bool) :
    Spooled (writer.entries entries sequence true commits)
      (puts ++ [(spoolKey sequence, encodeBlock entries)]) := by
  obtain ⟨committed, all, stored⟩ := spooled
  have queued : Spooled { writer with batch := writer.batch ++ [(spoolKey sequence, encodeBlock entries)] }
      (puts ++ [(spoolKey sequence, encodeBlock entries)]) :=
    ⟨committed, by simp [all], stored⟩
  cases commits
  · exact queued
  · exact queued.commit

end Writing

section RoundTrip

theorem decode_fields (entry : FireholEntry) :
    slice entry.encode 18 4 (by decide) = (toBeBytes entry.ruleId : Octets 4) ∧
      slice entry.encode 22 4 (by decide) = (toBeBytes entry.metadataId : Octets 4) ∧
      slice entry.encode 26 4 (by decide) = (toBeBytes entry.line : Octets 4) := by
  unfold FireholEntry.encode
  refine ⟨?_, ?_, ?_⟩
  · exact (slice_append_left _ _ (by decide) (by decide)).trans
      ((slice_append_left _ _ (by decide) (by decide)).trans
        ((slice_append_right 0 _ _ (by decide) (by decide)).trans (slice_whole _ _)))
  · exact (slice_append_left _ _ (by decide) (by decide)).trans
      ((slice_append_right 0 _ _ (by decide) (by decide)).trans (slice_whole _ _))
  · exact (slice_append_right 0 _ _ (by decide) (by decide)).trans (slice_whole _ _)

theorem decode_target (entry : FireholEntry) {start size : Nat} (inside : start + size ≤ 18) :
    slice entry.encode start size (by omega) = slice entry.target.encode start size inside := by
  unfold FireholEntry.encode
  exact (slice_append_left _ _ (by omega) (by omega)).trans
    ((slice_append_left _ _ (by omega) (by omega)).trans (slice_append_left _ _ (by omega) (by omega)))

theorem decode_byte (entry : FireholEntry) (index : Fin 18) :
    entry.encode.get ⟨index.val, by omega⟩ = entry.target.encode.get index := by
  unfold FireholEntry.encode
  exact (Vector.getElem_append_left (by omega)).trans
    ((Vector.getElem_append_left (by omega)).trans (Vector.getElem_append_left index.isLt))

theorem ofList_toList {n : Nat} (bytes : Octets n) :
    (⟨bytes.toList.toArray, by simp⟩ : Octets n) = bytes := by
  obtain ⟨⟨list⟩, size⟩ := bytes
  rfl

theorem decode_header (kind size : UInt8) (field : Octets 16) :
    ((#v[kind, size] : Octets 2) ++ field).get 0 = kind ∧
      ((#v[kind, size] : Octets 2) ++ field).get 1 = size ∧
      slice ((#v[kind, size] : Octets 2) ++ field) 2 16 (by decide) = field ∧
      slice ((#v[kind, size] : Octets 2) ++ field) 2 4 (by decide) = slice field 0 4 (by decide) := by
  refine ⟨?_, ?_, ?_, ?_⟩
  · exact Vector.getElem_append_left (by decide)
  · exact Vector.getElem_append_left (by decide)
  · exact (slice_append_right 0 _ _ (by decide) (by decide)).trans (slice_whole _ _)
  · exact slice_append_right 0 _ _ (by decide) (by decide)

theorem slice_paddedAddr (addr : Octets 4) : slice (paddedAddr addr) 0 4 (by decide) = addr :=
  (slice_append_left _ _ (by decide) (by decide)).trans (slice_whole _ _)

theorem decode_encode {entry : FireholEntry} (range : entry.target.PrefixInRange) :
    FireholEntry.decode entry.encode.toList = .ok entry := by
  have sized : entry.encode.toList.length = 30 := by simp
  have record : (⟨entry.encode.toList.toArray, by simp⟩ : Octets 30) = entry.encode := ofList_toList _
  obtain ⟨ruleId, metadataId, line⟩ := decode_fields entry
  have kind : entry.encode.get 0 = entry.target.encode.get 0 := decode_byte entry 0
  have size : entry.encode.get 1 = entry.target.encode.get 1 := decode_byte entry 1
  have ipv4 : slice entry.encode 2 4 (by decide) = slice entry.target.encode 2 4 (by decide) :=
    decode_target entry (by decide)
  have ipv6 : slice entry.encode 2 16 (by decide) = slice entry.target.encode 2 16 (by decide) :=
    decode_target entry (by decide)
  simp only [FireholEntry.decode, sized, dif_pos, record, ruleId, metadataId, line, kind, size, ipv4, ipv6,
    fromBeBytes_toBeBytes]
  obtain ⟨target, id, metadata, number⟩ := entry
  cases target with
  | exactV4 addr =>
      obtain ⟨tag, _, _, field⟩ := decode_header 1 0 (paddedAddr addr)
      simp only [FireholIpTarget.encode, tag, field, slice_paddedAddr, if_true]
  | exactV6 addr =>
      obtain ⟨tag, _, field, _⟩ := decode_header 2 0 addr
      simp only [FireholIpTarget.encode, tag, field]
      rfl
  | cidrV4 prefixLen addr =>
      have short : prefixLen ≤ 32 := range
      have byte : (UInt8.ofNat prefixLen).toNat = prefixLen :=
        UInt8.toNat_ofNat_of_lt' (lt_of_le_of_lt short (by decide))
      obtain ⟨tag, size, _, field⟩ := decode_header 3 (UInt8.ofNat prefixLen) (paddedAddr addr)
      simp only [FireholIpTarget.encode, tag, size, field, slice_paddedAddr, byte, short, and_true, if_true]
      rfl
  | cidrV6 prefixLen addr =>
      have short : prefixLen ≤ 128 := range
      have byte : (UInt8.ofNat prefixLen).toNat = prefixLen :=
        UInt8.toNat_ofNat_of_lt' (lt_of_le_of_lt short (by decide))
      obtain ⟨tag, size, field, _⟩ := decode_header 4 (UInt8.ofNat prefixLen) addr
      simp only [FireholIpTarget.encode, tag, size, field, byte, short, and_true, if_true]
      rfl

theorem asChunks_flatten {α : Type} (size : Nat) (chunks : List (List α))
    (sized : ∀ chunk ∈ chunks, chunk.length = size) :
    asChunks size chunks.length chunks.flatten = chunks := by
  induction chunks with
  | nil => rfl
  | cons chunk rest ih =>
      have length := sized chunk (by simp)
      simp only [List.length_cons, List.flatten_cons, asChunks]
      rw [List.take_left' length, List.drop_left' length, ih fun other member => sized other (by simp [member])]

theorem encodeBlock_length (block : List FireholEntry) : (encodeBlock block).length = block.length * 30 := by
  induction block with
  | nil => rfl
  | cons entry rest ih =>
      simp only [encodeBlock, List.flatMap_cons, List.length_append, List.length_cons] at ih ⊢
      rw [ih, Vector.length_toList]
      omega

theorem mapM_ok {α β ε : Type} {read : α → Except ε β} {inputs : List α} {outputs : List β}
    (each : List.Forall₂ (fun input output => read input = .ok output) inputs outputs) :
    inputs.mapM read = .ok outputs := by
  induction each with
  | nil => rfl
  | cons first _ ih =>
      rw [List.mapM_cons, first, ih]
      rfl

theorem decodeBlock_encodeBlock {block : List FireholEntry} (some : block ≠ [])
    (range : ∀ entry ∈ block, entry.target.PrefixInRange) :
    decodeBlock (encodeBlock block) = .ok block := by
  have length := encodeBlock_length block
  have positive : 0 < block.length := List.length_pos_iff.mpr some
  have valid : ¬ (encodeBlock block = [] ∨ (encodeBlock block).length % 30 ≠ 0) := by
    rw [← List.length_eq_zero_iff]
    omega
  have chunks : asChunks 30 block.length (encodeBlock block) = block.map fun entry => entry.encode.toList := by
    have flat := asChunks_flatten 30 (block.map fun entry => entry.encode.toList) (by simp)
    rwa [List.length_map, ← List.flatMap_def] at flat
  rw [decodeBlock, if_neg valid, length, Nat.mul_div_cancel _ (by decide), chunks]
  apply mapM_ok
  rw [List.forall₂_map_left_iff, List.forall₂_same]
  exact fun entry member => decode_encode (range entry member)

theorem keyedBlocks_values (sequence : Nat) (blocks : List (List FireholEntry)) :
    (keyedBlocks sequence blocks).map Prod.snd = blocks.map encodeBlock := by
  induction blocks generalizing sequence with
  | nil => rfl
  | cons block rest ih => simp [keyedBlocks, ih]

theorem keyedBlocks_above {sequence : Nat} {blocks : List (List FireholEntry)}
    {put : Octets 8 × List UInt8} (listed : put ∈ keyedBlocks sequence blocks) :
    ∃ number, put.1 = spoolKey number ∧ sequence ≤ number ∧ number ≤ sequence + blocks.flatten.length := by
  induction blocks generalizing sequence with
  | nil => simp [keyedBlocks] at listed
  | cons block rest ih =>
      rcases List.mem_cons.mp listed with rfl | later
      · exact ⟨sequence, rfl, le_rfl, by omega⟩
      · obtain ⟨number, key, above, below⟩ := ih later
        refine ⟨number, key, by omega, ?_⟩
        simp only [List.flatten_cons, List.length_append]
        omega

theorem spoolKey_lt {first second : Nat} (ordered : first < second) (small : second < 2 ^ 64) :
    fromBeBytes (spoolKey first) < fromBeBytes (spoolKey second) := by
  simp only [spoolKey, fromBeBytes_toBeBytes, BitVec.lt_def, BitVec.toNat_ofNat]
  rw [Nat.mod_eq_of_lt (by omega), Nat.mod_eq_of_lt (by omega)]
  exact ordered

theorem keyedBlocks_sorted {sequence : Nat} {blocks : List (List FireholEntry)}
    (nonempty : ∀ block ∈ blocks, block ≠ []) (small : sequence + blocks.flatten.length < 2 ^ 64) :
    ((keyedBlocks sequence blocks).map Prod.fst).Pairwise fun first second =>
      fromBeBytes first < fromBeBytes second := by
  induction blocks generalizing sequence with
  | nil => simp [keyedBlocks]
  | cons block rest ih =>
      have some : 0 < block.length := List.length_pos_iff.mpr (nonempty block (by simp))
      simp only [List.flatten_cons, List.length_append] at small
      rw [keyedBlocks, List.map_cons, List.pairwise_cons]
      refine ⟨?_, ih (fun other member => nonempty other (by simp [member])) (by omega)⟩
      intro key listed
      obtain ⟨put, member, rfl⟩ := List.mem_map.mp listed
      obtain ⟨number, same, above, below⟩ := keyedBlocks_above member
      rw [same]
      exact spoolKey_lt (by omega) (by omega)

theorem visitEntries_spooled {blocks : List (List FireholEntry)} (nonempty : ∀ block ∈ blocks, block ≠ [])
    (small : blocks.flatten.length < 2 ^ 64)
    (range : ∀ entry ∈ blocks.flatten, entry.target.PrefixInRange) (entries : List FireholEntry) :
    FireholDataSet.visitEntries
      ⟨entries, some ⟨insertAll ∅ (keyedBlocks 0 blocks), none⟩⟩ = .ok blocks.flatten := by
  have sorted := @keyedBlocks_sorted 0 blocks nonempty (by omega)
  have values : CacheRocksDb.values ⟨insertAll ∅ (keyedBlocks 0 blocks), none⟩ = blocks.map encodeBlock := by
    rw [← keyedBlocks_values 0 blocks]
    apply orderedValues_insertAll
    · intro a b c first second
      simp only [decide_eq_true_eq] at first second ⊢
      exact BitVec.le_trans first second
    · intro a b
      simpa using BitVec.le_total _ _
    · intro a b first second
      simp only [decide_eq_true_eq] at first second
      exact fromBeBytes_injective (BitVec.le_antisymm first second)
    · exact sorted.imp fun smaller same => absurd (same ▸ smaller) (BitVec.lt_irrefl _)
    · exact sorted.imp fun smaller => decide_eq_true (BitVec.le_of_lt smaller)
  have decoded : (blocks.map encodeBlock).mapM decodeBlock = .ok blocks := by
    apply mapM_ok
    rw [List.forall₂_map_left_iff, List.forall₂_same]
    exact fun block member => decodeBlock_encodeBlock (nonempty block member) fun entry inside =>
      range entry (List.mem_flatten.mpr ⟨block, member, inside⟩)
  simp [FireholDataSet.visitEntries, values, decoded]

end RoundTrip

end ReputationFirewall.Firehol
