import ReputationFirewall.Firehol.ContextStore

set_option autoImplicit false

namespace ReputationFirewall.Firehol

open BigEndian Collect KeyedStore NetAddr

section Masks

def maskBitsV4 (prefixLen : UInt8) : BitVec (8 * 4) :=
  if prefixLen = 0 then 0
  else if 32 ≤ prefixLen then BitVec.allOnes _
  else BitVec.allOnes _ <<< (32 - prefixLen.toNat)

def prefixContainsV4 (prefixLen : UInt8) (net ip : Octets 4) : Bool :=
  fromBeBytes net &&& maskBitsV4 prefixLen == fromBeBytes ip &&& maskBitsV4 prefixLen

def maskV4 (prefixLen : UInt8) (ip : Octets 4) : Octets 4 :=
  toBeBytes (fromBeBytes ip &&& maskBitsV4 prefixLen)

def remainderMask (rem : Nat) : UInt8 := 255 <<< UInt8.ofNat (8 - rem)

def prefixContainsV6 (prefixLen : UInt8) (net ip : Octets 16) : Bool :=
  let fullBytes := prefixLen.toNat / 8
  let remBits := prefixLen.toNat % 8
  (List.range fullBytes).all (fun i => net[i]? == ip[i]?) &&
    if bounded : fullBytes < 16 then
      decide (remBits = 0) ||
        net.get ⟨fullBytes, bounded⟩ &&& remainderMask remBits ==
          ip.get ⟨fullBytes, bounded⟩ &&& remainderMask remBits
    else true

-- The octet at `full` is masked only when some of its bits remain, and those behind it are cleared.
def maskV6 (prefixLen : UInt8) (ip : Octets 16) : Octets 16 :=
  let full := prefixLen.toNat / 8
  let rem := prefixLen.toNat % 8
  if full < 16 then
    Vector.ofFn fun i =>
      if i.val < full then ip.get i
      else if i.val = full then if 0 < rem then ip.get i &&& remainderMask rem else ip.get i
      else 0
  else ip

end Masks

section Registry

structure FireholRuleInfo where
  ruleId : BitVec 32
  metadataId : BitVec 32
  category : FireholCategory
  line : BitVec 32
  deriving DecidableEq

structure RuleBlockEntry where
  metadataId : BitVec 32
  category : FireholCategory
  line : BitVec 32
  block : Option RuleBlockContext
  deriving DecidableEq

def RuleBlockEntry.placeholder : RuleBlockEntry := ⟨0, .other, 0, none⟩

structure FireholMetadataRegistry where
  cache : Option Database
  metadataLight : Store (BitVec 32) (FireholCategory × List Char)
  metadataById : Store (BitVec 32) FireholMetadata
  rules : List RuleBlockEntry
  rulesCache : List (BitVec 32 × BitVec 32)
  ruleCount : Nat
  categoryCounts : Store FireholCategory Nat
  blocklistCounts : Store (List Char) Nat
  ipIndexV4Exact : Store (Octets 4) RuleBlockContext
  ipIndexV6Exact : Store (Octets 16) RuleBlockContext
  ipIndexV4Lpm : List (UInt8 × Octets 4 × RuleBlockContext)
  ipIndexV6Lpm : List (UInt8 × Octets 16 × RuleBlockContext)

namespace FireholMetadataRegistry

def new : FireholMetadataRegistry :=
  { cache := none, metadataLight := ∅, metadataById := ∅, rules := [], rulesCache := [], ruleCount := 0
    categoryCounts := ∅, blocklistCounts := ∅, ipIndexV4Exact := ∅, ipIndexV6Exact := ∅
    ipIndexV4Lpm := [], ipIndexV6Lpm := [] }

def withCache (cache : Database) : FireholMetadataRegistry := { new with cache := some cache }

variable (registry : FireholMetadataRegistry)

def fileNameFor (metadataId : BitVec 32) : Option (List Char) :=
  if registry.cache.isSome then (registry.metadataLight.lookup metadataId).map Prod.snd
  else (registry.metadataById.lookup metadataId).map FireholMetadata.fileName

def categoryFor (metadataId : BitVec 32) : Option FireholCategory :=
  if registry.cache.isSome then (registry.metadataLight.lookup metadataId).map Prod.fst
  else (registry.metadataById.lookup metadataId).map FireholMetadata.category

-- The verbose metadata that goes to the database is not read back by what is modelled here.
def tryRegisterMetadata (metadata : FireholMetadata) : FireholMetadataRegistry :=
  if registry.cache.isSome then
    { registry with
      metadataLight := registry.metadataLight.insert metadata.id (metadata.category, metadata.fileName) }
  else { registry with metadataById := registry.metadataById.insert metadata.id metadata }

def registerRule (rule : FireholRuleInfo) : FireholMetadataRegistry :=
  let counted := { registry with
    categoryCounts := bump registry.categoryCounts rule.category 1
    blocklistCounts := match registry.fileNameFor rule.metadataId with
      | some name => bump registry.blocklistCounts name 1
      | none => registry.blocklistCounts
    ruleCount := registry.ruleCount + 1 }
  if registry.cache.isSome then
    { counted with
      rulesCache := putAt (0, 0) registry.rulesCache rule.ruleId.toNat (rule.metadataId, rule.line) }
  else
    { counted with
      rules := putAt .placeholder registry.rules rule.ruleId.toNat
        ⟨rule.metadataId, rule.category, rule.line, none⟩ }

def registerCachedEntry (entry : FireholEntry) : FireholMetadataRegistry :=
  { registry with
    rulesCache := putAt (0, 0) registry.rulesCache entry.ruleId.toNat (entry.metadataId, entry.line)
    ruleCount := registry.ruleCount + 1 }

def countCachedMetadata (id : BitVec 32) (count : Nat) : FireholMetadataRegistry :=
  match registry.metadataLight.lookup id with
  | some (category, file) =>
      { registry with
        categoryCounts := bump registry.categoryCounts category count
        blocklistCounts := bump registry.blocklistCounts file count }
  | none => registry

def isEmpty : Bool := registry.ruleCount = 0

def resolveRuleBlock (ruleId : BitVec 32) : Option RuleBlockContext :=
  if registry.cache.isSome then
    (registry.rulesCache[ruleId.toNat]?).bind fun (metadataId, line) =>
      if metadataId = 0 then none
      else (registry.fileNameFor metadataId).map fun fileName =>
        ⟨[fileName], [line], [(registry.categoryFor metadataId).getD .other]⟩
  else
    (registry.rules[ruleId.toNat]?).bind fun entry =>
      match entry.block with
      | some block => some block
      | none => (registry.metadataById.lookup entry.metadataId).map fun metadata =>
          ⟨[metadata.fileName], [entry.line], [entry.category]⟩

end FireholMetadataRegistry

end Registry

section Indexing

namespace FireholMetadataRegistry

variable (order : HashOrder FireholIpTarget) (registry : FireholMetadataRegistry)

def addRule (context : RuleBlockContext) (ruleId : BitVec 32) : RuleBlockContext :=
  match registry.rules[ruleId.toNat]? with
  | none => context
  | some entry =>
      let context := match registry.metadataById.lookup entry.metadataId with
        | some metadata => context.addSource metadata.fileName entry.line
        | none => context
      context.addCategory entry.category

def setBlock (context : RuleBlockContext) (rules : List RuleBlockEntry) (ruleId : BitVec 32) :
    List RuleBlockEntry :=
  rules.modify ruleId.toNat fun entry => { entry with block := some context }

-- A target with a single rule keeps no shared context.
def shareBlock (ruleIds : List (BitVec 32)) : FireholMetadataRegistry :=
  if ruleIds.length ≤ 1 then registry
  else { registry with
    rules := ruleIds.foldl (setBlock (ruleIds.foldl registry.addRule .default)) registry.rules }

def rulesByTarget (entries : List FireholEntry) : Store FireholIpTarget (List (BitVec 32)) :=
  accumulate [] (fun ids entry => ids ++ [entry.ruleId]) FireholEntry.target ∅ entries

def buildRuleBlockIndex (entries : List FireholEntry) : FireholMetadataRegistry :=
  if registry.cache.isSome then registry
  else (order.iterate (rulesByTarget entries)).foldl (fun shared group => shared.shareBlock group.2) registry

def indexTarget (target : FireholIpTarget) (context : RuleBlockContext) : FireholMetadataRegistry :=
  match target with
  | .exactV4 octets => { registry with ipIndexV4Exact := registry.ipIndexV4Exact.insert octets context }
  | .exactV6 octets => { registry with ipIndexV6Exact := registry.ipIndexV6Exact.insert octets context }
  | .cidrV4 prefixLen net => { registry with
      ipIndexV4Lpm := registry.ipIndexV4Lpm ++ [(UInt8.ofNat prefixLen, net, context)] }
  | .cidrV6 prefixLen net => { registry with
      ipIndexV6Lpm := registry.ipIndexV6Lpm ++ [(UInt8.ofNat prefixLen, net, context)] }

def knownEntries (entries : List FireholEntry) : List (FireholEntry × FireholMetadata) :=
  entries.filterMap fun entry =>
    (registry.metadataById.lookup entry.metadataId).map fun metadata => (entry, metadata)

def filesByTarget (entries : List FireholEntry) : Store FireholIpTarget (List (List Char × BitVec 32)) :=
  accumulate [] (fun files entry => pushNew files (entry.2.fileName, entry.1.line))
    (fun entry => entry.1.target) ∅ (registry.knownEntries entries)

def catsByTarget (entries : List FireholEntry) : Store FireholIpTarget (List FireholCategory) :=
  accumulate [] (fun cats entry => pushNew cats entry.2.category) (fun entry => entry.1.target) ∅
    (registry.knownEntries entries)

def clearIpIndex : FireholMetadataRegistry :=
  { registry with ipIndexV4Exact := ∅, ipIndexV6Exact := ∅, ipIndexV4Lpm := [], ipIndexV6Lpm := [] }

-- The import builds this index only in memory.
def buildIpIndex (entries : List FireholEntry) : FireholMetadataRegistry :=
  (order.iterate (registry.filesByTarget entries)).foldl (fun indexed group =>
      indexed.indexTarget group.1
        (.ofSources group.2 (((registry.catsByTarget entries).lookup group.1).getD [])))
    registry.clearIpIndex

def prefixesDown (longest : Nat) : List UInt8 := (List.range (longest + 1)).reverse.map UInt8.ofNat

def lookupIpV4 (ip : Octets 4) : List RuleBlockContext :=
  match registry.cache with
  | some cache =>
      (cache.getRuleContext (ctxKeyV4Exact ip)).toList ++
        (prefixesDown 32).filterMap fun prefixLen =>
          cache.getRuleContext (ctxKeyV4Lpm prefixLen (maskV4 prefixLen ip))
  | none =>
      (registry.ipIndexV4Exact.lookup ip).toList ++
        registry.ipIndexV4Lpm.filterMap fun (prefixLen, net, context) =>
          if prefixContainsV4 prefixLen net ip then some context else none

def lookupIpV6 (ip : Octets 16) : List RuleBlockContext :=
  match registry.cache with
  | some cache =>
      (cache.getRuleContext (ctxKeyV6Exact ip)).toList ++
        (prefixesDown 128).filterMap fun prefixLen =>
          cache.getRuleContext (ctxKeyV6Lpm prefixLen (maskV6 prefixLen ip))
  | none =>
      (registry.ipIndexV6Exact.lookup ip).toList ++
        registry.ipIndexV6Lpm.filterMap fun (prefixLen, net, context) =>
          if prefixContainsV6 prefixLen net ip then some context else none

def lookupIp : IpAddr → List RuleBlockContext
  | .v4 ip => registry.lookupIpV4 ip
  | .v6 ip => registry.lookupIpV6 ip

end FireholMetadataRegistry

end Indexing

section OrderedContexts

structure ContextScan where
  current : List UInt8
  context : RuleBlockContext
  writer : ColumnWriter

variable (sizeInBytes : List Put → Nat) (light : Store (BitVec 32) (FireholCategory × List Char))

def ContextScan.emit (scan : ContextScan) : ColumnWriter :=
  if scan.current = [] then scan.writer
  else scan.writer.put sizeInBytes
    (.context scan.current (scan.writer.database.archive.serialize scan.context))

def ContextScan.enter (scan : ContextScan) (target : List UInt8) : ContextScan :=
  if scan.current = target then scan else ⟨target, .default, scan.emit sizeInBytes⟩

def readNumber32 (bytes : List UInt8) : BitVec 32 := BitVec.ofNat 32 (value bytes)

def ContextScan.visit (scan : ContextScan) (pair : List UInt8 × List UInt8) :
    Except FirewallError ContextScan :=
  let target := pair.1.take (pair.1.length - 8)
  if pair.2.length ≠ 8 ∨ isTargetKey target = false then
    .error (.cache "Invalid FireHOL contribution".toList)
  else
    let scan := scan.enter sizeInBytes target
    match light.lookup (readNumber32 (pair.2.take 4)) with
    | none => .error (.cache "Unknown FireHOL metadata ID".toList)
    | some (category, file) =>
        .ok { scan with
          context := (scan.context.addSource file (readNumber32 (pair.2.drop 4))).addCategory category }

def buildOrderedContexts (writer : ColumnWriter) : Except FirewallError ColumnWriter :=
  ((orderedPairs Bytewise.le writer.database.contributions).foldlM
    (ContextScan.visit sizeInBytes light) ⟨[], .default, writer⟩).map (ContextScan.emit sizeInBytes)

end OrderedContexts

end ReputationFirewall.Firehol
