import ReputationFirewall.Firehol.SpooledImport
import ReputationFirewall.Firehol.Targets

set_option autoImplicit false

namespace ReputationFirewall.Firehol

open BigEndian Collect KeyedStore NetAddr

section Masks

theorem maskBitsV4_eq (prefixLen : Fin 33) :
    maskBitsV4 (UInt8.ofNat prefixLen) = Prefix.mask (8 * 4) prefixLen := by
  revert prefixLen
  decide

theorem prefixContainsV4_iff {prefixLen : Nat} (range : prefixLen ≤ 32) (net ip : Octets 4) :
    prefixContainsV4 (UInt8.ofNat prefixLen) net ip = true ↔ SamePrefix prefixLen net ip := by
  have bits := maskBitsV4_eq ⟨prefixLen, by omega⟩
  simp only [prefixContainsV4, bits, beq_iff_eq]
  exact Prefix.network_eq_iff prefixLen (fromBeBytes net) (fromBeBytes ip)

theorem maskV4_eq {prefixLen : Nat} (range : prefixLen ≤ 32) (ip : Octets 4) :
    maskV4 (UInt8.ofNat prefixLen) ip = networkOf prefixLen ip := by
  have bits := maskBitsV4_eq ⟨prefixLen, by omega⟩
  simp only [maskV4, bits]
  rfl

theorem remainderMask_eq {bits : Nat} (some : 0 < bits) (few : bits < 8) : remainderMask bits = octetMask bits := by
  have each : ∀ bits : Fin 8, 0 < bits.val → remainderMask bits = octetMask bits := by decide
  exact each ⟨bits, few⟩ some

theorem toNat_prefix {prefixLen : Nat} (range : prefixLen ≤ 128) : (UInt8.ofNat prefixLen).toNat = prefixLen :=
  UInt8.toNat_ofNat_of_lt' (lt_of_le_of_lt range (by decide))

theorem prefixContainsV6_iff {prefixLen : Nat} (range : prefixLen ≤ 128) (net ip : Octets 16) :
    prefixContainsV6 (UInt8.ofNat prefixLen) net ip = true ↔ SamePrefix prefixLen net ip := by
  rw [samePrefix_iff_octets]
  simp only [prefixContainsV6, toNat_prefix range, Bool.and_eq_true, List.all_eq_true, List.mem_range, beq_iff_eq]
  constructor
  · rintro ⟨full, last⟩ i
    rcases Nat.lt_trichotomy i.val (prefixLen / 8) with before | here | behind
    · have same : net.get i = ip.get i := by
        have octets := full i.val before
        rw [Vector.getElem?_eq_getElem i.isLt, Vector.getElem?_eq_getElem i.isLt] at octets
        exact Option.some.inj octets
      rw [same]
    · have bits : prefixLen - 8 * i.val = prefixLen % 8 := by omega
      have octet : (⟨prefixLen / 8, here ▸ i.isLt⟩ : Fin 16) = i := Fin.ext here.symm
      rw [dif_pos (here ▸ i.isLt), octet] at last
      rcases Nat.eq_zero_or_pos (prefixLen % 8) with zero | some
      · simp only [bits, zero, and_octetMask_zero]
      · rw [bits, ← remainderMask_eq some (Nat.mod_lt _ (by decide))]
        simpa [Nat.ne_of_gt some] using last
    · have none : prefixLen - 8 * i.val = 0 := by omega
      simp only [none, and_octetMask_zero]
  · intro same
    constructor
    · intro i before
      have inside : i < 16 := by omega
      have octets := same ⟨i, inside⟩
      rw [and_octetMask_full (by simp only; omega), and_octetMask_full (by simp only; omega)] at octets
      rw [Vector.getElem?_eq_getElem inside, Vector.getElem?_eq_getElem inside]
      exact congrArg some octets
    · split_ifs with inside
      · have octet := same ⟨prefixLen / 8, inside⟩
        have bits : prefixLen - 8 * (prefixLen / 8) = prefixLen % 8 := by omega
        rcases Nat.eq_zero_or_pos (prefixLen % 8) with zero | some
        · simp [zero]
        · rw [bits, ← remainderMask_eq some (Nat.mod_lt _ (by decide))] at octet
          simp [octet]
      · rfl

def MissedByProbe (prefixLen : Nat) (ip : Octets 16) : Prop :=
  prefixLen % 8 = 0 ∧ ∃ inside : prefixLen / 8 < 16, ip.get ⟨prefixLen / 8, inside⟩ ≠ 0

instance (prefixLen : Nat) (ip : Octets 16) : Decidable (MissedByProbe prefixLen ip) :=
  inferInstanceAs (Decidable (_ ∧ _))

theorem maskV6_octet {prefixLen : Nat} (range : prefixLen ≤ 128) (ip : Octets 16) (i : Fin 16) :
    (maskV6 (UInt8.ofNat prefixLen) ip).get i =
      if i.val = prefixLen / 8 ∧ prefixLen % 8 = 0 then ip.get i else (networkOf prefixLen ip).get i := by
  rw [networkOf_octet]
  simp only [maskV6, toNat_prefix range]
  by_cases partly : prefixLen / 8 < 16
  · rw [if_pos partly, ofFn_get]
    rcases Nat.lt_trichotomy i.val (prefixLen / 8) with before | here | behind
    · rw [if_pos before, if_neg (by omega), and_octetMask_full (by omega)]
    · have bits : prefixLen - 8 * i.val = prefixLen % 8 := by omega
      rw [if_neg (by omega), if_pos here, bits]
      rcases Nat.eq_zero_or_pos (prefixLen % 8) with zero | some
      · simp [zero, here]
      · rw [if_pos some, if_neg (by omega), remainderMask_eq some (Nat.mod_lt _ (by decide))]
    · have none : prefixLen - 8 * i.val = 0 := by omega
      rw [if_neg (by omega), if_neg (by omega), if_neg (by omega), none, and_octetMask_zero]
  · rw [if_neg partly, if_neg (by omega), and_octetMask_full (by omega)]

theorem eq_maskV6_iff {prefixLen : Nat} (range : prefixLen ≤ 128) {net : Octets 16}
    (canonical : networkOf prefixLen net = net) (ip : Octets 16) :
    net = maskV6 (UInt8.ofNat prefixLen) ip ↔ SamePrefix prefixLen net ip ∧ ¬ MissedByProbe prefixLen ip := by
  have masked : ¬ MissedByProbe prefixLen ip → maskV6 (UInt8.ofNat prefixLen) ip = networkOf prefixLen ip := by
    intro hit
    apply octets_ext
    intro i
    rw [maskV6_octet range]
    split_ifs with ends
    · have zero : ip.get i = 0 := by
        by_contra other
        have octet : (⟨prefixLen / 8, ends.1 ▸ i.isLt⟩ : Fin 16) = i := Fin.ext ends.1.symm
        exact hit ⟨ends.2, ends.1 ▸ i.isLt, by rwa [octet]⟩
      have none : prefixLen - 8 * i.val = 0 := by omega
      rw [networkOf_octet, none, and_octetMask_zero, zero]
    · rfl
  rw [samePrefix_iff_networkOf, canonical]
  constructor
  · intro same
    have hit : ¬ MissedByProbe prefixLen ip := by
      rintro ⟨ends, inside, other⟩
      have none : prefixLen - 8 * (prefixLen / 8) = 0 := by omega
      have octet := congrArg (fun addr => addr.get ⟨prefixLen / 8, inside⟩) same
      rw [maskV6_octet range, if_pos ⟨rfl, ends⟩, ← canonical, networkOf_octet, none, and_octetMask_zero] at octet
      exact other octet.symm
    exact ⟨same.trans (masked hit), hit⟩
  · rintro ⟨same, hit⟩
    exact same.trans (masked hit).symm

end Masks

section Contexts

variable (table : Store (BitVec 32) FireholMetadata)

def sourceIn (entry : FireholEntry) : List Char × BitVec 32 := (fileIn table entry.metadataId, entry.line)

def entrySources (entries : List FireholEntry) : List (List Char × BitVec 32) := entries.map (sourceIn table)

def entryCategories (entries : List FireholEntry) : List FireholCategory :=
  entries.map fun entry => categoryIn table entry.metadataId

def targetContext (entries : List FireholEntry) (target : FireholIpTarget) : RuleBlockContext :=
  let own := entries.filter fun entry => entry.target = target
  .ofSources (pushAll [] (entrySources table own)) (pushAll [] (entryCategories table own))

variable {metadata : List FireholMetadata} {nextMetadataId : BitVec 32} {entries : List FireholEntry}

theorem collect_entries {table : Store (BitVec 32) FireholMetadata}
    {add : RuleBlockContext → FireholEntry → RuleBlockContext}
    (each : ∀ entry ∈ entries, ∀ files labels, add (.ofSources files labels) entry =
      .ofSources (pushNew files (sourceIn table entry)) (pushNew labels (categoryIn table entry.metadataId)))
    (files : List (List Char × BitVec 32)) (labels : List FireholCategory) :
    entries.foldl add (.ofSources files labels) =
      .ofSources (pushAll files (entrySources table entries)) (pushAll labels (entryCategories table entries)) := by
  induction entries generalizing files labels with
  | nil => rfl
  | cons entry rest ih =>
      rw [List.foldl_cons, each entry List.mem_cons_self,
        ih fun other member => each other (List.mem_cons_of_mem _ member)]
      rfl

theorem filter_contextKey (range : ∀ entry ∈ entries, entry.target.PrefixInRange) {target : FireholIpTarget}
    (own : target.PrefixInRange) :
    entries.filter (fun entry => entry.target.contextKey = target.contextKey) =
      entries.filter fun entry => entry.target = target := by
  apply List.filter_congr
  intro entry member
  exact decide_eq_decide.mpr
    ⟨contextKey_injective (range entry member) own, congrArg FireholIpTarget.contextKey⟩

theorem addEntry_all
    (known : ∀ entry ∈ entries, ∃ record, (metadataTable metadata).lookup entry.metadataId = some record)
    (files : List (List Char × BitVec 32)) (labels : List FireholCategory) :
    entries.foldl (addEntry (lightTable metadata)) (.ofSources files labels) =
      .ofSources (pushAll files (entrySources (metadataTable metadata) entries))
        (pushAll labels (entryCategories (metadataTable metadata) entries)) := by
  apply collect_entries
  intro entry member files labels
  obtain ⟨record, found⟩ := known entry member
  have light := lookup_lightTable metadata entry.metadataId
  rw [found] at light
  rw [addEntry, light]
  simp [RuleBlockContext.ofSources_addSource, sourceIn, fileIn, categoryIn, found]

theorem keyContext_eq
    (known : ∀ entry ∈ entries, ∃ record, (metadataTable metadata).lookup entry.metadataId = some record)
    (range : ∀ entry ∈ entries, entry.target.PrefixInRange) {target : FireholIpTarget}
    (own : target.PrefixInRange) :
    keyContext (lightTable metadata) entries target.contextKey =
      targetContext (metadataTable metadata) entries target := by
  rw [keyContext, filter_contextKey range own]
  exact addEntry_all (fun entry member => known entry (List.mem_of_mem_filter member)) [] []

theorem mem_contextKeys (range : ∀ entry ∈ entries, entry.target.PrefixInRange) {target : FireholIpTarget}
    (own : target.PrefixInRange) :
    target.contextKey ∈ entries.map (fun entry => entry.target.contextKey) ↔
      ∃ entry ∈ entries, entry.target = target := by
  rw [List.mem_map]
  constructor
  · rintro ⟨entry, member, same⟩
    exact ⟨entry, member, contextKey_injective (range entry member) own same⟩
  · rintro ⟨entry, member, rfl⟩
    exact ⟨entry, member, rfl⟩

theorem HoldsContexts.get_iff {database : Database} (holds : HoldsContexts metadata entries database)
    (registered : ∀ entry ∈ entries, Registered metadata nextMetadataId entry)
    (range : ∀ entry ∈ entries, entry.target.PrefixInRange) {target : FireholIpTarget}
    (own : target.PrefixInRange) (context : RuleBlockContext) :
    database.getRuleContext target.contextKey = some context ↔
      (∃ entry ∈ entries, entry.target = target) ∧
        targetContext (metadataTable metadata) entries target = context := by
  rw [holds, keyContext_eq (fun entry member => (registered entry member).lookup) range own,
    Option.ite_none_right_eq_some, Option.some.injEq, mem_contextKeys range own]

end Contexts

section Probes

def FireholIpTarget.Probed : FireholIpTarget → IpAddr → Prop
  | .exactV4 addr, .v4 ip => addr = ip
  | .exactV6 addr, .v6 ip => addr = ip
  | .cidrV4 prefixLen net, .v4 ip => net = maskV4 (UInt8.ofNat prefixLen) ip
  | .cidrV6 prefixLen net, .v6 ip => net = maskV6 (UInt8.ofNat prefixLen) ip
  | _, _ => False

def FireholIpTarget.Missed : FireholIpTarget → IpAddr → Prop
  | .cidrV6 prefixLen _, .v6 ip => MissedByProbe prefixLen ip
  | _, _ => False

theorem probed_iff {target : FireholIpTarget} (range : target.PrefixInRange) (canonical : target.Canonical)
    (ip : IpAddr) : target.Probed ip ↔ target.Covers ip ∧ ¬ target.Missed ip := by
  cases target with
  | exactV4 addr => cases ip <;> simp [FireholIpTarget.Probed, FireholIpTarget.Covers, FireholIpTarget.Missed, eq_comm]
  | exactV6 addr => cases ip <;> simp [FireholIpTarget.Probed, FireholIpTarget.Covers, FireholIpTarget.Missed, eq_comm]
  | cidrV4 prefixLen net =>
      cases ip with
      | v4 ip =>
          have network : networkOf prefixLen net = net := canonical
          simp only [FireholIpTarget.Probed, FireholIpTarget.Covers, FireholIpTarget.Missed, not_false_eq_true,
            and_true, maskV4_eq range, samePrefix_iff_networkOf, network]
      | v6 ip => simp [FireholIpTarget.Probed, FireholIpTarget.Covers]
  | cidrV6 prefixLen net =>
      cases ip with
      | v4 ip => simp [FireholIpTarget.Probed, FireholIpTarget.Covers]
      | v6 ip => exact eq_maskV6_iff range canonical ip

variable {metadata : List FireholMetadata} {nextMetadataId : BitVec 32} {entries : List FireholEntry}
  {database : Database}

theorem mem_prefixesDown (longest : Nat) (prefixLen : UInt8) :
    prefixLen ∈ FireholMetadataRegistry.prefixesDown longest ↔
      ∃ length ≤ longest, UInt8.ofNat length = prefixLen := by
  simp [FireholMetadataRegistry.prefixesDown]

theorem mem_probes {n : Nat} (family : Family n) (mask : UInt8 → Octets n → Octets n)
    (holds : HoldsContexts metadata entries database)
    (registered : ∀ entry ∈ entries, Registered metadata nextMetadataId entry)
    (range : ∀ entry ∈ entries, entry.target.PrefixInRange) {key : UInt8 → Octets n → List UInt8}
    (keys : ∀ prefixLen net, key (UInt8.ofNat prefixLen) net = (family.cidr prefixLen net).contextKey)
    (ip : Octets n) (context : RuleBlockContext) :
    context ∈ (database.getRuleContext (family.exact ip).contextKey).toList ++
        (FireholMetadataRegistry.prefixesDown (8 * n)).filterMap
          (fun prefixLen => database.getRuleContext (key prefixLen (mask prefixLen ip))) ↔
      ∃ entry ∈ entries, (entry.target = family.exact ip ∨ ∃ prefixLen ≤ 8 * n,
          entry.target = family.cidr prefixLen (mask (UInt8.ofNat prefixLen) ip)) ∧
        targetContext (metadataTable metadata) entries entry.target = context := by
  simp only [List.mem_append, Option.mem_toList, List.mem_filterMap, mem_prefixesDown,
    holds.get_iff registered range (family.range_exact ip)]
  constructor
  · rintro (⟨⟨entry, member, target⟩, found⟩ | ⟨_, ⟨prefixLen, bounded, rfl⟩, found⟩)
    · exact ⟨entry, member, Or.inl target, by rw [target, found]⟩
    · rw [keys, holds.get_iff registered range (family.range_cidr _ _ bounded)] at found
      obtain ⟨⟨entry, member, target⟩, found⟩ := found
      exact ⟨entry, member, Or.inr ⟨prefixLen, bounded, target⟩, by rw [target, found]⟩
  · rintro ⟨entry, member, target | ⟨prefixLen, bounded, target⟩, found⟩
    · exact Or.inl ⟨⟨entry, member, target⟩, target ▸ found⟩
    · refine Or.inr ⟨_, ⟨prefixLen, bounded, rfl⟩, ?_⟩
      rw [keys, holds.get_iff registered range (family.range_cidr _ _ bounded)]
      exact ⟨⟨entry, member, target⟩, target ▸ found⟩

theorem mem_lookupIp_cached (holds : HoldsContexts metadata entries database)
    (registered : ∀ entry ∈ entries, Registered metadata nextMetadataId entry)
    (range : ∀ entry ∈ entries, entry.target.PrefixInRange) (ip : IpAddr) (context : RuleBlockContext) :
    context ∈ (cachedRegistry metadata nextMetadataId entries database).lookupIp ip ↔
      ∃ entry ∈ entries, entry.target.Probed ip ∧
        targetContext (metadataTable metadata) entries entry.target = context := by
  cases ip with
  | v4 ip =>
      have found := mem_probes ipv4Family maskV4 holds registered range
        (show ∀ prefixLen net, ctxKeyV4Lpm (UInt8.ofNat prefixLen) net = _ from fun _ _ => rfl) ip context
      refine found.trans (exists_congr fun entry => and_congr_right fun member => and_congr_left' ?_)
      have bounded := range entry member
      cases target : entry.target <;> simp_all [FireholIpTarget.Probed, ipv4Family, FireholIpTarget.PrefixInRange]
  | v6 ip =>
      have found := mem_probes ipv6Family maskV6 holds registered range
        (show ∀ prefixLen net, ctxKeyV6Lpm (UInt8.ofNat prefixLen) net = _ from fun _ _ => rfl) ip context
      refine found.trans (exists_congr fun entry => and_congr_right fun member => and_congr_left' ?_)
      have bounded := range entry member
      cases target : entry.target <;> simp_all [FireholIpTarget.Probed, ipv6Family, FireholIpTarget.PrefixInRange]

end Probes

section MemoryIndex

abbrev TargetGroup := FireholIpTarget × RuleBlockContext

def exactAddrV4 : FireholIpTarget → Option (Octets 4)
  | .exactV4 addr => some addr
  | _ => none

def exactAddrV6 : FireholIpTarget → Option (Octets 16)
  | .exactV6 addr => some addr
  | _ => none

def networkV4 : FireholIpTarget → Option (Nat × Octets 4)
  | .cidrV4 prefixLen net => some (prefixLen, net)
  | _ => none

def networkV6 : FireholIpTarget → Option (Nat × Octets 16)
  | .cidrV6 prefixLen net => some (prefixLen, net)
  | _ => none

section Groups

variable {α : Type} (pick : FireholIpTarget → Option α) (groups : List TargetGroup)

def pickGroups : List (α × RuleBlockContext) :=
  groups.filterMap fun group => (pick group.1).map fun picked => (picked, group.2)

variable {pick groups}

theorem mem_pickGroups {make : α → FireholIpTarget} (picks : ∀ target value, pick target = some value ↔ target = make value)
    (value : α) (context : RuleBlockContext) :
    (value, context) ∈ pickGroups pick groups ↔ (make value, context) ∈ groups := by
  simp only [pickGroups, List.mem_filterMap, Option.map_eq_some_iff, picks, Prod.mk.injEq]
  constructor
  · rintro ⟨⟨_, _⟩, member, _, rfl, rfl, rfl⟩
    exact member
  · intro member
    exact ⟨_, member, value, rfl, rfl, rfl⟩

theorem lookup_pickGroups [DecidableEq α] {make : α → FireholIpTarget}
    (picks : ∀ target value, pick target = some value ↔ target = make value)
    {contextOf : FireholIpTarget → RuleBlockContext}
    (functional : ∀ group ∈ groups, group.2 = contextOf group.1) (value : α) (context : RuleBlockContext) :
    (insertAll ∅ (pickGroups pick groups)).lookup value = some context ↔ (make value, context) ∈ groups := by
  have values : ∀ entry ∈ pickGroups pick groups, entry.2 = (contextOf ∘ make) entry.1 :=
    fun entry listed => functional _ ((mem_pickGroups picks entry.1 entry.2).mp listed)
  rw [lookup_insertAll_iff values, mem_pickGroups picks]

end Groups

def indexedNetworks {n : Nat} (networks : List ((Nat × Octets n) × RuleBlockContext)) :
    List (UInt8 × Octets n × RuleBlockContext) :=
  networks.map fun network => (UInt8.ofNat network.1.1, network.1.2, network.2)

def FireholMetadataRegistry.indexGroups (registry : FireholMetadataRegistry) (groups : List TargetGroup) :
    FireholMetadataRegistry :=
  groups.foldl (fun registry group => registry.indexTarget group.1 group.2) registry

theorem indexGroups_eq (registry : FireholMetadataRegistry) (groups : List TargetGroup) :
    registry.indexGroups groups =
      { registry with
        ipIndexV4Exact := insertAll registry.ipIndexV4Exact (pickGroups exactAddrV4 groups)
        ipIndexV6Exact := insertAll registry.ipIndexV6Exact (pickGroups exactAddrV6 groups)
        ipIndexV4Lpm := registry.ipIndexV4Lpm ++ indexedNetworks (pickGroups networkV4 groups)
        ipIndexV6Lpm := registry.ipIndexV6Lpm ++ indexedNetworks (pickGroups networkV6 groups) } := by
  induction groups generalizing registry with
  | nil => simp [FireholMetadataRegistry.indexGroups, insertAll, pickGroups, indexedNetworks]
  | cons group rest ih =>
      obtain ⟨target, context⟩ := group
      change (registry.indexTarget target context).indexGroups rest = _
      rw [ih]
      cases target <;>
        simp [FireholMetadataRegistry.indexTarget, pickGroups, indexedNetworks, exactAddrV4, exactAddrV6,
          networkV4, networkV6, insertAll]

theorem mem_index {n : Nat} {groups : List TargetGroup} {contextOf : FireholIpTarget → RuleBlockContext}
    (functional : ∀ group ∈ groups, group.2 = contextOf group.1)
    (range : ∀ group ∈ groups, group.1.PrefixInRange)
    {exactOf : Octets n → FireholIpTarget} {exactAddr : FireholIpTarget → Option (Octets n)}
    (exacts : ∀ target addr, exactAddr target = some addr ↔ target = exactOf addr)
    {cidrOf : Nat × Octets n → FireholIpTarget} {network : FireholIpTarget → Option (Nat × Octets n)}
    (cidrs : ∀ target net, network target = some net ↔ target = cidrOf net)
    {contains : UInt8 → Octets n → Octets n → Bool} {ip : Octets n}
    (tests : ∀ net, (cidrOf net).PrefixInRange →
      (contains (UInt8.ofNat net.1) net.2 ip = true ↔ SamePrefix net.1 net.2 ip))
    {addr : IpAddr} (covers : ∀ target : FireholIpTarget, target.Covers addr ↔
      target = exactOf ip ∨ ∃ net, target = cidrOf net ∧ SamePrefix net.1 net.2 ip)
    (context : RuleBlockContext) :
    context ∈ ((insertAll ∅ (pickGroups exactAddr groups)).lookup ip).toList ++
        (indexedNetworks (pickGroups network groups)).filterMap (fun (prefixLen, net, context) =>
          if contains prefixLen net ip then some context else none) ↔
      ∃ target, (target, context) ∈ groups ∧ target.Covers addr := by
  simp only [List.mem_append, Option.mem_toList, lookup_pickGroups exacts functional, indexedNetworks,
    List.filterMap_map, List.mem_filterMap, Function.comp_apply, Option.ite_none_right_eq_some, Option.some.injEq, covers]
  constructor
  · rintro (member | ⟨⟨net, own⟩, listed, inside, rfl⟩)
    · exact ⟨_, member, Or.inl rfl⟩
    · have member := (mem_pickGroups cidrs net own).mp listed
      exact ⟨_, member, Or.inr ⟨net, rfl, (tests net (range _ member)).mp inside⟩⟩
  · rintro ⟨_, member, rfl | ⟨net, rfl, inside⟩⟩
    · exact Or.inl member
    · exact Or.inr ⟨(net, context), (mem_pickGroups cidrs net context).mpr member,
        (tests net (range _ member)).mpr inside, rfl⟩

theorem mem_lookupIp_indexed {registry : FireholMetadataRegistry} (memory : registry.cache = none)
    {groups : List TargetGroup} {contextOf : FireholIpTarget → RuleBlockContext}
    (functional : ∀ group ∈ groups, group.2 = contextOf group.1)
    (range : ∀ group ∈ groups, group.1.PrefixInRange) (ip : IpAddr) (context : RuleBlockContext) :
    context ∈ (registry.clearIpIndex.indexGroups groups).lookupIp ip ↔
      ∃ target, (target, context) ∈ groups ∧ target.Covers ip := by
  rw [indexGroups_eq]
  cases ip with
  | v4 ip =>
      simp only [FireholMetadataRegistry.lookupIp, FireholMetadataRegistry.lookupIpV4,
        FireholMetadataRegistry.clearIpIndex, memory, List.nil_append]
      have exacts : ∀ target addr, exactAddrV4 target = some addr ↔ target = .exactV4 addr := by
        intro target addr
        cases target <;> simp [exactAddrV4]
      have cidrs : ∀ target (net : Nat × Octets 4), networkV4 target = some net ↔ target = .cidrV4 net.1 net.2 := by
        intro target net
        cases target <;> simp [networkV4, Prod.ext_iff]
      refine mem_index functional range exacts cidrs (fun net bounded => prefixContainsV4_iff bounded net.2 ip)
        (fun target => ?_) context
      cases target <;> simp [FireholIpTarget.Covers, eq_comm]
  | v6 ip =>
      simp only [FireholMetadataRegistry.lookupIp, FireholMetadataRegistry.lookupIpV6,
        FireholMetadataRegistry.clearIpIndex, memory, List.nil_append]
      have exacts : ∀ target addr, exactAddrV6 target = some addr ↔ target = .exactV6 addr := by
        intro target addr
        cases target <;> simp [exactAddrV6]
      have cidrs : ∀ target (net : Nat × Octets 16), networkV6 target = some net ↔ target = .cidrV6 net.1 net.2 := by
        intro target net
        cases target <;> simp [networkV6, Prod.ext_iff]
      refine mem_index functional range exacts cidrs (fun net bounded => prefixContainsV6_iff bounded net.2 ip)
        (fun target => ?_) context
      cases target <;> simp [FireholIpTarget.Covers, eq_comm]

variable {registry : FireholMetadataRegistry} {entries : List FireholEntry}

theorem knownEntries_map {β : Type} {ofKnown : FireholEntry × FireholMetadata → β} {ofEntry : FireholEntry → β}
    (agree : ∀ entry record, registry.metadataById.lookup entry.metadataId = some record →
      ofKnown (entry, record) = ofEntry entry)
    (known : ∀ entry ∈ entries, ∃ record, registry.metadataById.lookup entry.metadataId = some record)
    (target : FireholIpTarget) :
    ((registry.knownEntries entries).filter fun entry => entry.1.target = target).map ofKnown =
      (entries.filter fun entry => entry.target = target).map ofEntry := by
  induction entries with
  | nil => rfl
  | cons entry rest ih =>
      obtain ⟨record, found⟩ := known entry List.mem_cons_self
      have later := ih fun other member => known other (List.mem_cons_of_mem _ member)
      have first : registry.knownEntries (entry :: rest) = (entry, record) :: registry.knownEntries rest := by
        simp [FireholMetadataRegistry.knownEntries, found]
      rw [first]
      by_cases same : entry.target = target
      · rw [List.filter_cons_of_pos (by simpa using same), List.filter_cons_of_pos (by simpa using same),
          List.map_cons, List.map_cons, later, agree entry record found]
      · rw [List.filter_cons_of_neg (by simpa using same), List.filter_cons_of_neg (by simpa using same), later]

theorem knownEntries_targets
    (known : ∀ entry ∈ entries, ∃ record, registry.metadataById.lookup entry.metadataId = some record)
    (target : FireholIpTarget) :
    target ∈ (registry.knownEntries entries).map (fun entry => entry.1.target) ↔
      ∃ entry ∈ entries, entry.target = target := by
  simp only [FireholMetadataRegistry.knownEntries, List.mem_map, List.mem_filterMap, Option.map_eq_some_iff]
  constructor
  · rintro ⟨_, ⟨entry, member, _, _, rfl⟩, rfl⟩
    exact ⟨entry, member, rfl⟩
  · rintro ⟨entry, member, rfl⟩
    obtain ⟨record, found⟩ := known entry member
    exact ⟨(entry, record), ⟨entry, member, record, found, rfl⟩, rfl⟩

variable (known : ∀ entry ∈ entries, ∃ record, registry.metadataById.lookup entry.metadataId = some record)

include known

theorem lookup_filesByTarget (target : FireholIpTarget) :
    (registry.filesByTarget entries).lookup target =
      if ∃ entry ∈ entries, entry.target = target then
        some (pushAll [] (entrySources registry.metadataById (entries.filter fun entry => entry.target = target)))
      else none := by
  have sources := @knownEntries_map registry entries _ (fun entry => (entry.2.fileName, entry.1.line))
    (sourceIn registry.metadataById) (fun entry record found => by simp [sourceIn, fileIn, found]) known target
  rw [FireholMetadataRegistry.filesByTarget, lookup_accumulate, entrySources, ← sources, pushAll, List.foldl_map]
  simp only [knownEntries_targets known, AList.lookup_empty, Option.getD_none]

theorem lookup_catsByTarget (target : FireholIpTarget) :
    (registry.catsByTarget entries).lookup target =
      if ∃ entry ∈ entries, entry.target = target then
        some (pushAll [] (entryCategories registry.metadataById (entries.filter fun entry => entry.target = target)))
      else none := by
  have labels := @knownEntries_map registry entries _ (fun entry => entry.2.category)
    (fun entry => categoryIn registry.metadataById entry.metadataId)
    (fun entry record found => by simp [categoryIn, found]) known target
  rw [FireholMetadataRegistry.catsByTarget, lookup_accumulate, entryCategories, ← labels, pushAll, List.foldl_map]
  simp only [knownEntries_targets known, AList.lookup_empty, Option.getD_none]

theorem buildIpIndex_groups (order : HashOrder FireholIpTarget) :
    ∃ groups : List TargetGroup,
      registry.buildIpIndex order entries = registry.clearIpIndex.indexGroups groups ∧
      (groups.map Prod.fst).Nodup ∧ ∀ target context, (target, context) ∈ groups ↔
        (∃ entry ∈ entries, entry.target = target) ∧
          context = targetContext registry.metadataById entries target := by
  refine ⟨(order.iterate (registry.filesByTarget entries)).map fun group =>
    (group.1, .ofSources group.2 (((registry.catsByTarget entries).lookup group.1).getD [])), ?_, ?_, ?_⟩
  · rw [FireholMetadataRegistry.buildIpIndex, FireholMetadataRegistry.indexGroups, List.foldl_map]
  · rw [List.map_map]
    exact order.iterate_nodup _
  · intro target context
    simp only [List.mem_map, Prod.exists, HashOrder.mem_iterate, Prod.mk.injEq]
    constructor
    · rintro ⟨_, files, found, rfl, rfl⟩
      rw [lookup_filesByTarget known, Option.ite_none_right_eq_some] at found
      obtain ⟨listed, files⟩ := found
      obtain rfl := Option.some.inj files
      refine ⟨listed, ?_⟩
      rw [lookup_catsByTarget known, if_pos listed]
      rfl
    · rintro ⟨listed, rfl⟩
      have files := lookup_filesByTarget known target
      rw [if_pos listed] at files
      refine ⟨target, _, files, rfl, ?_⟩
      rw [lookup_catsByTarget known, if_pos listed]
      rfl

theorem mem_lookupIp_memory (order : HashOrder FireholIpTarget) (memory : registry.cache = none)
    (range : ∀ entry ∈ entries, entry.target.PrefixInRange) (ip : IpAddr) (context : RuleBlockContext) :
    context ∈ (registry.buildIpIndex order entries).lookupIp ip ↔
      ∃ entry ∈ entries, entry.target.Covers ip ∧
        targetContext registry.metadataById entries entry.target = context := by
  obtain ⟨groups, built, _, listed⟩ := buildIpIndex_groups known order
  have functional : ∀ group ∈ groups, group.2 = targetContext registry.metadataById entries group.1 :=
    fun group member => ((listed group.1 group.2).mp member).2
  have bounded : ∀ group ∈ groups, group.1.PrefixInRange := by
    intro group member
    obtain ⟨entry, inside, target⟩ := ((listed group.1 group.2).mp member).1
    exact target ▸ range entry inside
  rw [built, mem_lookupIp_indexed memory functional bounded]
  simp only [listed]
  constructor
  · rintro ⟨_, ⟨⟨entry, member, rfl⟩, rfl⟩, covers⟩
    exact ⟨entry, member, covers, rfl⟩
  · rintro ⟨entry, member, covers, rfl⟩
    exact ⟨entry.target, ⟨⟨entry, member, rfl⟩, rfl⟩, covers⟩

end MemoryIndex

section Imports

variable {sizeInBytes : List Put → Nat} {orders : IndexOrders} {metadata : List FireholMetadata}
  {nextMetadataId : BitVec 32} {batches : List (List FireholEntry)} {imported : ImportedDataSet}

theorem imported_small (nonempty : ∀ batch ∈ batches, batch ≠ []) {storage : Storage}
    (done : importBatches sizeInBytes storage orders metadata nextMetadataId batches = some (.ok imported)) :
    batches.flatten.length < 2 ^ 32 := by
  by_contra large
  rw [importBatches_overflow sizeInBytes orders metadata nextMetadataId nonempty (by omega)] at done
  simp at done

theorem importBatches_succeeds (sizeInBytes : List Put → Nat) (orders : IndexOrders) (storage : Storage)
    (nonempty : ∀ batch ∈ batches, batch ≠ [])
    (range : ∀ entry ∈ batches.flatten, entry.target.PrefixInRange)
    (registered : ∀ entry ∈ batches.flatten, Registered metadata nextMetadataId entry)
    (small : batches.flatten.length < 2 ^ 32) :
    ∃ imported, importBatches sizeInBytes storage orders metadata nextMetadataId batches = some (.ok imported) := by
  cases storage with
  | memory => exact ⟨_, importBatches_memory sizeInBytes orders metadata nextMetadataId small⟩
  | database archive limit spool =>
      obtain ⟨_, _, result, _, _⟩ := importBatches_database sizeInBytes orders metadata nextMetadataId archive
        limit spool nonempty range registered small
      exact ⟨_, result⟩

theorem imported_database {archive : Archive} {limit : Nat} {spool : Bool}
    (nonempty : ∀ batch ∈ batches, batch ≠ [])
    (range : ∀ entry ∈ batches.flatten, entry.target.PrefixInRange)
    (registered : ∀ entry ∈ batches.flatten, Registered metadata nextMetadataId entry)
    (done : importBatches sizeInBytes (.database archive limit spool) orders metadata nextMetadataId batches =
      some (.ok imported)) :
    ∃ database, imported.registry = cachedRegistry metadata nextMetadataId (importedEntries batches) database ∧
      HoldsContexts metadata (importedEntries batches) database := by
  obtain ⟨dataset, database, result, _, holds⟩ := importBatches_database sizeInBytes orders metadata
    nextMetadataId archive limit spool nonempty range registered (imported_small nonempty done)
  rw [result] at done
  obtain rfl := Except.ok.inj (Option.some.inj done)
  exact ⟨database, rfl, holds⟩

theorem imported_memory (nonempty : ∀ batch ∈ batches, batch ≠ [])
    (registered : ∀ entry ∈ batches.flatten, Registered metadata nextMetadataId entry)
    (done : importBatches sizeInBytes .memory orders metadata nextMetadataId batches = some (.ok imported)) :
    imported.registry = ((memoryRules metadata (importedEntries batches)).buildRuleBlockIndex orders.blocks
      (importedEntries batches)).buildIpIndex orders.addresses (importedEntries batches) := by
  rw [importBatches_memory sizeInBytes orders metadata nextMetadataId (imported_small nonempty done)] at done
  obtain rfl := Except.ok.inj (Option.some.inj done)
  simp only [buildMemory, registerParsed_memory (importedEntries_registered metadata nextMetadataId registered)]

theorem mem_lookupIp_database {archive : Archive} {limit : Nat} {spool : Bool}
    (nonempty : ∀ batch ∈ batches, batch ≠ [])
    (range : ∀ entry ∈ batches.flatten, entry.target.PrefixInRange)
    (canonical : ∀ entry ∈ batches.flatten, entry.target.Canonical)
    (registered : ∀ entry ∈ batches.flatten, Registered metadata nextMetadataId entry)
    (done : importBatches sizeInBytes (.database archive limit spool) orders metadata nextMetadataId batches =
      some (.ok imported)) (ip : IpAddr) (context : RuleBlockContext) :
    context ∈ imported.registry.lookupIp ip ↔
      ∃ entry ∈ importedEntries batches, (entry.target.Covers ip ∧ ¬ entry.target.Missed ip) ∧
        targetContext (metadataTable metadata) (importedEntries batches) entry.target = context := by
  obtain ⟨database, registry, holds⟩ := imported_database nonempty range registered done
  have bounded := importedEntries_range range
  rw [registry, mem_lookupIp_cached holds (importedEntries_registered metadata nextMetadataId registered) bounded]
  refine exists_congr fun entry => and_congr_right fun member => and_congr_left' ?_
  obtain ⟨source, inside, target, _, _⟩ := mem_numberBatches member
  exact probed_iff (bounded entry member) (target ▸ canonical source inside) ip

theorem mem_lookupIp_inMemory (nonempty : ∀ batch ∈ batches, batch ≠ [])
    (range : ∀ entry ∈ batches.flatten, entry.target.PrefixInRange)
    (registered : ∀ entry ∈ batches.flatten, Registered metadata nextMetadataId entry)
    (done : importBatches sizeInBytes .memory orders metadata nextMetadataId batches = some (.ok imported))
    (ip : IpAddr) (context : RuleBlockContext) :
    context ∈ imported.registry.lookupIp ip ↔
      ∃ entry ∈ importedEntries batches, entry.target.Covers ip ∧
        targetContext (metadataTable metadata) (importedEntries batches) entry.target = context := by
  have tables := FireholMetadataRegistry.buildRuleBlockIndex_tables orders.blocks
    (memoryRules metadata (importedEntries batches)) (importedEntries batches)
  have table : ((memoryRules metadata (importedEntries batches)).buildRuleBlockIndex orders.blocks
      (importedEntries batches)).metadataById = metadataTable metadata := tables.metadata
  rw [imported_memory nonempty registered done, mem_lookupIp_memory _ orders.addresses tables.cache
    (importedEntries_range range), table]
  intro entry member
  rw [table]
  exact (importedEntries_registered metadata nextMetadataId registered entry member).lookup

end Imports

section Attribution

def FireholMetadataRegistry.contextsAt (registry : FireholMetadataRegistry) (ip : IpAddr) :
    Set RuleBlockContext := { context | context ∈ registry.lookupIp ip }

def coveringContexts (metadata : List FireholMetadata) (entries : List FireholEntry) (ip : IpAddr) :
    Set RuleBlockContext :=
  { context | ∃ entry ∈ entries, entry.target.Covers ip ∧
      targetContext (metadataTable metadata) entries entry.target = context }

def MissesNothing (metadata : List FireholMetadata) (entries : List FireholEntry) (ip : IpAddr) : Prop :=
  ∀ entry ∈ entries, entry.target.Covers ip → entry.target.Missed ip →
    ∃ other ∈ entries, other.target.Covers ip ∧ ¬ other.target.Missed ip ∧
      targetContext (metadataTable metadata) entries other.target =
        targetContext (metadataTable metadata) entries entry.target

variable {sizeInBytes : List Put → Nat} {orders : IndexOrders} {metadata : List FireholMetadata}
  {nextMetadataId : BitVec 32} {batches : List (List FireholEntry)}

theorem lookupIpV6_exact_iff {archive : Archive} {limit : Nat} {spool : Bool} {cached memory : ImportedDataSet}
    (nonempty : ∀ batch ∈ batches, batch ≠ [])
    (range : ∀ entry ∈ batches.flatten, entry.target.PrefixInRange)
    (canonical : ∀ entry ∈ batches.flatten, entry.target.Canonical)
    (registered : ∀ entry ∈ batches.flatten, Registered metadata nextMetadataId entry)
    (overDatabase : importBatches sizeInBytes (.database archive limit spool) orders metadata nextMetadataId
      batches = some (.ok cached))
    (inMemory : importBatches sizeInBytes .memory orders metadata nextMetadataId batches = some (.ok memory))
    (ip : Octets 16) :
    (cached.registry.contextsAt (.v6 ip) = memory.registry.contextsAt (.v6 ip) ∧
        memory.registry.contextsAt (.v6 ip) = coveringContexts metadata (importedEntries batches) (.v6 ip)) ↔
      MissesNothing metadata (importedEntries batches) (.v6 ip) := by
  have found := mem_lookupIp_database nonempty range canonical registered overDatabase (.v6 ip)
  have exact : memory.registry.contextsAt (.v6 ip) =
      coveringContexts metadata (importedEntries batches) (.v6 ip) :=
    Set.ext (mem_lookupIp_inMemory nonempty range registered inMemory (.v6 ip))
  rw [exact, and_iff_left rfl]
  constructor
  · intro same entry member covers missed
    have listed : targetContext (metadataTable metadata) (importedEntries batches) entry.target ∈
        cached.registry.contextsAt (.v6 ip) := by
      rw [same]
      exact ⟨entry, member, covers, rfl⟩
    obtain ⟨other, inside, ⟨contains, hit⟩, equal⟩ := (found _).mp listed
    exact ⟨other, inside, contains, hit, equal⟩
  · intro complete
    apply Set.ext
    intro context
    refine (found context).trans ⟨?_, ?_⟩
    · intro hit
      obtain ⟨entry, member, probed, equal⟩ := hit
      exact ⟨entry, member, probed.1, equal⟩
    · intro listed
      obtain ⟨entry, member, covers, equal⟩ := listed
      by_cases missed : entry.target.Missed (.v6 ip)
      · obtain ⟨other, inside, contains, hit, same⟩ := complete entry member covers missed
        exact ⟨other, inside, ⟨contains, hit⟩, same.trans equal⟩
      · exact ⟨entry, member, ⟨covers, missed⟩, equal⟩

def documentationFeed : List FireholMetadata := [.new "documentation.netset".toList 1]

def documentationBatches : List (List FireholEntry) :=
  [[⟨.cidrV6 32 #v[32, 1, 13, 184, 0, 0, 0, 0, 0, 0, 0, 0, 0, 0, 0, 0], 0, 1, 1⟩]]

def documentationHost (octet : UInt8) : Octets 16 := #v[32, 1, 13, 184, octet, 0, 0, 0, 0, 0, 0, 0, 0, 0, 0, 1]

theorem documentation_valid :
    (∀ batch ∈ documentationBatches, batch ≠ []) ∧
      (∀ entry ∈ documentationBatches.flatten, entry.target.PrefixInRange) ∧
      (∀ entry ∈ documentationBatches.flatten, entry.target.Canonical) ∧
      ∀ entry ∈ documentationBatches.flatten, Registered documentationFeed 2 entry := by
  refine ⟨by decide, by simp [documentationBatches, FireholIpTarget.PrefixInRange], ?_, by decide⟩
  simp only [documentationBatches, List.flatten_cons, List.flatten_nil, List.append_nil, List.mem_singleton,
    forall_eq]
  change networkOf 32 _ = _
  decide

theorem documentation_imported (sizeInBytes : List Put → Nat) (orders : IndexOrders) (storage : Storage) :
    ∃ imported, importBatches sizeInBytes storage orders documentationFeed 2 documentationBatches =
      some (.ok imported) := by
  obtain ⟨nonempty, range, _, registered⟩ := documentation_valid
  exact importBatches_succeeds sizeInBytes orders storage nonempty range registered (by decide)

theorem documentation_host_missed :
    ∃ cached memory,
      importBatches List.length (.database .counting 0 true) ⟨.arbitrary _, .arbitrary _⟩ documentationFeed 2
          documentationBatches = some (.ok cached) ∧
        importBatches List.length .memory ⟨.arbitrary _, .arbitrary _⟩ documentationFeed 2 documentationBatches =
          some (.ok memory) ∧
        cached.registry.lookupIpV6 (documentationHost 1) = [] ∧
        ∃ context ∈ memory.registry.lookupIpV6 (documentationHost 1),
          context.files = ["documentation.netset".toList] := by
  obtain ⟨nonempty, range, canonical, registered⟩ := documentation_valid
  obtain ⟨cached, overDatabase⟩ := documentation_imported List.length ⟨.arbitrary _, .arbitrary _⟩
    (.database .counting 0 true)
  obtain ⟨memory, inMemory⟩ := documentation_imported List.length ⟨.arbitrary _, .arbitrary _⟩ .memory
  refine ⟨cached, memory, overDatabase, inMemory, ?_, ?_⟩
  · rw [List.eq_nil_iff_forall_not_mem]
    intro context listed
    obtain ⟨entry, member, ⟨_, hit⟩, _⟩ := (mem_lookupIp_database nonempty range canonical registered overDatabase
      (.v6 (documentationHost 1)) context).mp listed
    obtain rfl := List.mem_singleton.mp member
    exact hit (show MissedByProbe 32 (documentationHost 1) by decide)
  · refine ⟨_, (mem_lookupIp_inMemory nonempty range registered inMemory (.v6 (documentationHost 1)) _).mpr
      ⟨_, List.mem_singleton.mpr rfl, ?_, rfl⟩, rfl⟩
    exact (show SamePrefix 32 _ (documentationHost 1) by decide)

theorem documentation_host_found :
    ∃ cached memory,
      importBatches List.length (.database .counting 0 true) ⟨.arbitrary _, .arbitrary _⟩ documentationFeed 2
          documentationBatches = some (.ok cached) ∧
        importBatches List.length .memory ⟨.arbitrary _, .arbitrary _⟩ documentationFeed 2 documentationBatches =
          some (.ok memory) ∧
        cached.registry.contextsAt (.v6 (documentationHost 0)) =
          memory.registry.contextsAt (.v6 (documentationHost 0)) := by
  obtain ⟨nonempty, range, canonical, registered⟩ := documentation_valid
  obtain ⟨cached, overDatabase⟩ := documentation_imported List.length ⟨.arbitrary _, .arbitrary _⟩
    (.database .counting 0 true)
  obtain ⟨memory, inMemory⟩ := documentation_imported List.length ⟨.arbitrary _, .arbitrary _⟩ .memory
  refine ⟨cached, memory, overDatabase, inMemory, ?_⟩
  refine ((lookupIpV6_exact_iff nonempty range canonical registered overDatabase inMemory
    (documentationHost 0)).mpr ?_).1
  intro entry member _ missed
  obtain rfl := List.mem_singleton.mp member
  exact absurd (show MissedByProbe 32 (documentationHost 0) from missed) (by decide)

end Attribution

end ReputationFirewall.Firehol
