import ReputationFirewall.Firehol.RuleInfo
import ReputationFirewall.Rules.Provenance

set_option autoImplicit false

namespace ReputationFirewall

open Firehol KeyedStore NetAddr Rules

section Ranges

variable {batches : List (List FireholEntry)}

theorem mem_importedIds (small : batches.flatten.length < 2 ^ 32) (id : BitVec 32) :
    (∃ entry ∈ importedEntries batches, entry.ruleId = id) ↔ 1 ≤ id.toNat ∧ id.toNat ≤ batches.flatten.length := by
  have ids := importedEntries_ids small
  rw [importedEntries, numberBatches_length] at ids
  have listed : id.toNat ∈ List.range' 1 batches.flatten.length ↔
      ∃ entry ∈ importedEntries batches, entry.ruleId = id := by
    rw [← ids, List.mem_map]
    simp only [BitVec.toNat_inj]
    rfl
  rw [← listed, List.mem_range'_1]
  omega

def RangesApart (first feedEntries staticLines : Nat) : Prop :=
  feedEntries = 0 ∨ staticLines = 0 ∨ feedEntries < 2 ^ 28 ∧ staticLines ≤ 2 ^ 32 - 2 ^ 28 + first

-- Static ids begin with the first that a feed must not reach. Their counter is not checked: after
-- 2^32 - 2^28 lines it is back at zero.
theorem rangesApart_iff {first feedEntries staticLines : Nat} (lowest : first ≤ 1) :
    RangesApart first feedEntries staticLines ↔ ∀ offset < staticLines,
      ¬ (feedEntries ≠ 0 ∧ first ≤ (2 ^ 28 + offset) % 2 ^ 32 ∧ (2 ^ 28 + offset) % 2 ^ 32 ≤ feedEntries) := by
  unfold RangesApart
  constructor
  · intro apart offset within
    omega
  · intro apart
    have base := apart 0
    have wrapped := apart (2 ^ 32 - 2 ^ 28 + first)
    omega

end Ranges

section Collisions

variable {ipNetFromStr : List Char → Option IpNet} {files : List RuleFile} {rules : ParsedRuleSet}
  {staticMeta : Store (BitVec 32) StaticRuleInfo} {batches : List (List FireholEntry)}

theorem static_apart_iff (loaded : loadFromPathsWithMeta ipNetFromStr files = .ok (rules, staticMeta)) {first : Nat}
    (lowest : first ≤ 1) {feedEntries : Nat} {used : BitVec 32 → Prop}
    (range : ∀ id, used id ↔ feedEntries ≠ 0 ∧ first ≤ id.toNat ∧ id.toNat ≤ feedEntries) :
    (∀ id ∈ staticMeta, ¬ used id) ↔ RangesApart first feedEntries (acceptedLines ipNetFromStr files) := by
  rw [rangesApart_iff lowest]
  constructor
  · intro apart offset within
    rw [← staticId_toNat, ← range]
    exact apart _ ((mem_staticMeta loaded _).mpr ⟨offset, within, rfl⟩)
  · intro apart id static
    obtain ⟨offset, within, rfl⟩ := (mem_staticMeta loaded _).mp static
    rw [range, staticId_toNat]
    exact apart offset within

theorem ids_apart_iff (small : batches.flatten.length < 2 ^ 32)
    (loaded : loadFromPathsWithMeta ipNetFromStr files = .ok (rules, staticMeta)) :
    (∀ id ∈ staticMeta, ¬ ∃ entry ∈ importedEntries batches, entry.ruleId = id) ↔
      RangesApart 1 batches.flatten.length (acceptedLines ipNetFromStr files) := by
  refine static_apart_iff loaded le_rfl fun id => ?_
  rw [mem_importedIds small]
  omega

variable {sizeInBytes : List Put → Nat} {orders : IndexOrders} {metadata : List FireholMetadata}
  {nextMetadataId : BitVec 32} {imported : ImportedDataSet} {storage : Storage}

-- In memory the slot of the id zero is there as soon as a rule has one.
def firstResolved : Storage → Nat
  | .memory => 0
  | .database _ _ _ => 1

theorem resolveRule_iff (nonempty : ∀ batch ∈ batches, batch ≠ [])
    (range : ∀ entry ∈ batches.flatten, entry.target.PrefixInRange)
    (registered : ∀ entry ∈ batches.flatten, Registered metadata nextMetadataId entry)
    (numbered : ∀ record ∈ metadata, record.id ≠ 0)
    (done : importBatches sizeInBytes storage orders metadata nextMetadataId batches = some (.ok imported))
    (id : BitVec 32) :
    (imported.registry.resolveRule id).isSome = true ↔
      batches.flatten.length ≠ 0 ∧ firstResolved storage ≤ id.toNat ∧ id.toNat ≤ batches.flatten.length := by
  have resolves := imported_rules nonempty range registered numbered done
  have ids := mem_importedIds (imported_small nonempty done) id
  by_cases zero : id = 0
  · subst zero
    rw [imported_zero nonempty range registered done, ← List.length_pos_iff, importedEntries, numberBatches_length]
    cases storage <;> simp [firstResolved, Nat.pos_iff_ne_zero]
  · have positive : id.toNat ≠ 0 := fun none => zero (BitVec.eq_of_toNat_eq none)
    have first : firstResolved storage ≤ id.toNat := by
      cases storage <;> simp only [firstResolved] <;> omega
    by_cases used : ∃ entry ∈ importedEntries batches, entry.ruleId = id
    · obtain ⟨entry, member, rfl⟩ := used
      obtain ⟨block, found⟩ := resolves.known entry member
      have bounds := ids.mp ⟨entry, member, rfl⟩
      simp only [found, Option.isSome_some, true_iff]
      omega
    · have missing := resolves.unknown id zero fun entry member same => used ⟨entry, member, same⟩
      rw [ids] at used
      simp only [missing, Option.isSome_none, Bool.false_eq_true, false_iff]
      omega

theorem rule_namespaces_apart_iff (nonempty : ∀ batch ∈ batches, batch ≠ [])
    (range : ∀ entry ∈ batches.flatten, entry.target.PrefixInRange)
    (registered : ∀ entry ∈ batches.flatten, Registered metadata nextMetadataId entry)
    (numbered : ∀ record ∈ metadata, record.id ≠ 0)
    (done : importBatches sizeInBytes storage orders metadata nextMetadataId batches = some (.ok imported))
    (loaded : loadFromPathsWithMeta ipNetFromStr files = .ok (rules, staticMeta)) :
    ((∀ entry ∈ importedEntries batches, entry.ruleId ∉ staticMeta) ∧
        ∀ id ∈ staticMeta, imported.registry.resolveRule id = none ∧ imported.registry.resolveRuleBlock id = none) ↔
      RangesApart (firstResolved storage) batches.flatten.length (acceptedLines ipNetFromStr files) := by
  have blocks := imported_resolves nonempty range registered numbered done
  have known := imported_rules nonempty range registered numbered done
  have lowest : firstResolved storage ≤ 1 := by cases storage <;> simp [firstResolved]
  rw [← static_apart_iff loaded lowest (resolveRule_iff nonempty range registered numbered done)]
  constructor
  · intro apart id static
    simp [(apart.2 id static).1]
  · intro unresolved
    -- Every id of the feeds resolves.
    have apart : ∀ entry ∈ importedEntries batches, entry.ruleId ∉ staticMeta := by
      intro entry member static
      obtain ⟨block, found⟩ := known.known entry member
      exact unresolved _ static (by simp [found])
    refine ⟨apart, fun id static => ⟨by simpa using unresolved id static, ?_⟩⟩
    exact blocks.unknown id fun entry member same => apart entry member (same ▸ static)

def repeatedHost (count size : Nat) : List (List FireholEntry) :=
  List.replicate count (List.replicate size ⟨.exactV4 (ipv4Octets 198 51 100 7), 0, 1, 1⟩)

theorem repeatedHost_length (count size : Nat) : (repeatedHost count size).flatten.length = count * size := by
  simp [repeatedHost]

theorem mem_repeatedHost {count size : Nat} {entry : FireholEntry} (member : entry ∈ (repeatedHost count size).flatten) :
    entry = ⟨.exactV4 (ipv4Octets 198 51 100 7), 0, 1, 1⟩ := by
  obtain ⟨batch, listed, inside⟩ := List.mem_flatten.mp member
  rw [List.eq_of_mem_replicate listed] at inside
  exact List.eq_of_mem_replicate inside

def hostRuleFile : RuleFile := ⟨"blocklist.txt".toList, .bytes [0x31, 0x2E, 0x32, 0x2E, 0x33, 0x2E, 0x34, 0x0A]⟩

theorem hostRuleFile_loads : ∃ rules staticMeta,
    loadFromPathsWithMeta (fun _ => none) [hostRuleFile] = .ok (rules, staticMeta) :=
  ⟨_, _, rfl⟩

theorem hostRuleFile_accepted : acceptedLines (fun _ => none) [hostRuleFile] = 1 := by decide

section Repeated

variable {count size : Nat}

theorem repeatedHost_nonempty (filled : 0 < size) : ∀ batch ∈ repeatedHost count size, batch ≠ [] := by
  intro batch listed
  rw [List.eq_of_mem_replicate listed, Ne, List.replicate_eq_nil_iff]
  omega

theorem repeatedHost_range : ∀ entry ∈ (repeatedHost count size).flatten, entry.target.PrefixInRange := by
  intro entry member
  rw [mem_repeatedHost member]
  trivial

theorem repeatedHost_registered : ∀ entry ∈ (repeatedHost count size).flatten,
    Registered [.new "feed.netset".toList 1] 2 entry := by
  intro entry member
  rw [mem_repeatedHost member]
  decide

theorem repeatedHost_numbered : ∀ record ∈ [FireholMetadata.new "feed.netset".toList 1], record.id ≠ 0 := by decide

theorem repeatedHost_collides (filled : 0 < size) (small : count * size < 2 ^ 32) (reaches : 2 ^ 28 ≤ count * size) :
    ∃ imported rules staticMeta,
      importBatches List.length .memory ⟨.arbitrary _, .arbitrary _⟩ [.new "feed.netset".toList 1] 2
          (repeatedHost count size) = some (.ok imported) ∧
        loadFromPathsWithMeta (fun _ => none) [hostRuleFile] = .ok (rules, staticMeta) ∧
        ∃ id ∈ staticMeta, (imported.registry.resolveRuleBlock id).isSome = true := by
  rw [← repeatedHost_length] at small reaches
  obtain ⟨rules, staticMeta, loaded⟩ := hostRuleFile_loads
  have imported := importBatches_memory List.length ⟨.arbitrary _, .arbitrary _⟩ [.new "feed.netset".toList 1] 2 small
  have resolves := imported_resolves (repeatedHost_nonempty filled) repeatedHost_range repeatedHost_registered
    repeatedHost_numbered imported
  have together : ¬ RangesApart 1 (repeatedHost count size).flatten.length
      (acceptedLines (fun _ => none) [hostRuleFile]) := by
    rw [hostRuleFile_accepted, RangesApart]
    omega
  rw [← ids_apart_iff small loaded] at together
  push Not at together
  obtain ⟨id, static, entry, member, rfl⟩ := together
  refine ⟨_, rules, staticMeta, imported, loaded, entry.ruleId, static, ?_⟩
  rw [resolves.known entry member]
  rfl

end Repeated

theorem one_host_apart :
    ∃ imported rules staticMeta,
      importBatches List.length .memory ⟨.arbitrary _, .arbitrary _⟩ [.new "feed.netset".toList 1] 2
          (repeatedHost 1 1) = some (.ok imported) ∧
        loadFromPathsWithMeta (fun _ => none) [hostRuleFile] = .ok (rules, staticMeta) ∧
        ∀ id ∈ staticMeta, imported.registry.resolveRule id = none ∧ imported.registry.resolveRuleBlock id = none := by
  obtain ⟨rules, staticMeta, loaded⟩ := hostRuleFile_loads
  have imported := importBatches_memory List.length ⟨.arbitrary _, .arbitrary _⟩ [.new "feed.netset".toList 1] 2
    (show (repeatedHost 1 1).flatten.length < 2 ^ 32 by decide)
  refine ⟨_, rules, staticMeta, imported, loaded, ((rule_namespaces_apart_iff (repeatedHost_nonempty Nat.one_pos)
    repeatedHost_range repeatedHost_registered repeatedHost_numbered imported loaded).mpr ?_).2⟩
  exact Or.inr (Or.inr ⟨by decide, by rw [hostRuleFile_accepted]; decide⟩)

theorem full_feed_collides :
    ∃ imported rules staticMeta,
      importBatches List.length .memory ⟨.arbitrary _, .arbitrary _⟩ [.new "feed.netset".toList 1] 2
          (repeatedHost 8192 32768) = some (.ok imported) ∧
        loadFromPathsWithMeta (fun _ => none) [hostRuleFile] = .ok (rules, staticMeta) ∧
        ∃ id ∈ staticMeta, (imported.registry.resolveRuleBlock id).isSome = true :=
  repeatedHost_collides (by decide) (by decide) (by decide)

end Collisions

end ReputationFirewall
