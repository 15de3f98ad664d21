import ReputationFirewall.Firehol.FileParser
import ReputationFirewall.Firehol.Spool
import ReputationFirewall.Shared.Bytewise
import ReputationFirewall.Shared.Collect

set_option autoImplicit false

namespace ReputationFirewall.Firehol

open BigEndian Collect KeyedStore

section Contexts

-- The files are parallel to the lines.
structure RuleBlockContext where
  files : List (List Char)
  lines : List (BitVec 32)
  categories : List FireholCategory
  deriving DecidableEq

namespace RuleBlockContext

def default : RuleBlockContext := ⟨[], [], []⟩

def addSource (context : RuleBlockContext) (file : List Char) (line : BitVec 32) : RuleBlockContext :=
  if (file, line) ∈ context.files.zip context.lines then context
  else { context with files := context.files ++ [file], lines := context.lines ++ [line] }

def addCategory (context : RuleBlockContext) (category : FireholCategory) : RuleBlockContext :=
  { context with categories := pushNew context.categories category }

def ofSources (sources : List (List Char × BitVec 32)) (categories : List FireholCategory) :
    RuleBlockContext :=
  ⟨sources.map Prod.fst, sources.map Prod.snd, categories⟩

theorem ofSources_addSource (sources : List (List Char × BitVec 32)) (categories : List FireholCategory)
    (file : List Char) (line : BitVec 32) :
    (ofSources sources categories).addSource file line =
      ofSources (pushNew sources (file, line)) categories := by
  have zipped : (sources.map Prod.fst).zip (sources.map Prod.snd) = sources := by
    rw [List.zip_map', List.map_id'']
    simp
  unfold addSource pushNew ofSources
  rw [zipped]
  split_ifs <;> simp

@[simp] theorem ofSources_addCategory (sources : List (List Char × BitVec 32))
    (categories : List FireholCategory) (category : FireholCategory) :
    (ofSources sources categories).addCategory category =
      ofSources sources (pushNew categories category) := rfl

end RuleBlockContext

end Contexts

section Keys

def ctxKeyV4Exact (octets : Octets 4) : List UInt8 := 1 :: octets.toList
def ctxKeyV6Exact (octets : Octets 16) : List UInt8 := 2 :: octets.toList
def ctxKeyV4Lpm (prefixLen : UInt8) (net : Octets 4) : List UInt8 := 3 :: prefixLen :: net.toList
def ctxKeyV6Lpm (prefixLen : UInt8) (net : Octets 16) : List UInt8 := 4 :: prefixLen :: net.toList

def FireholIpTarget.contextKey : FireholIpTarget → List UInt8
  | .exactV4 addr => ctxKeyV4Exact addr
  | .exactV6 addr => ctxKeyV6Exact addr
  | .cidrV4 prefixLen addr => ctxKeyV4Lpm (UInt8.ofNat prefixLen) addr
  | .cidrV6 prefixLen addr => ctxKeyV6Lpm (UInt8.ofNat prefixLen) addr

def isTargetKey (key : List UInt8) : Bool :=
  (key.head?, key.length) ∈ [(some 1, 5), (some 2, 17), (some 3, 6), (some 4, 18)]

theorem contextKey_isTargetKey (target : FireholIpTarget) : isTargetKey target.contextKey = true := by
  cases target <;>
    simp [FireholIpTarget.contextKey, ctxKeyV4Exact, ctxKeyV6Exact, ctxKeyV4Lpm, ctxKeyV6Lpm, isTargetKey]

theorem contextKey_starts {first second : FireholIpTarget}
    (front : first.contextKey.IsPrefix second.contextKey) : first.contextKey = second.contextKey := by
  apply front.eq_of_length
  cases first <;> cases second <;>
    simp_all [FireholIpTarget.contextKey, ctxKeyV4Exact, ctxKeyV6Exact, ctxKeyV4Lpm, ctxKeyV6Lpm,
      List.cons_prefix_cons]

theorem contextKey_injective {first second : FireholIpTarget} (range : first.PrefixInRange)
    (other : second.PrefixInRange) (same : first.contextKey = second.contextKey) : first = second := by
  have byte {left right : Nat} (small : left ≤ 128) (below : right ≤ 128)
      (equal : UInt8.ofNat left = UInt8.ofNat right) : left = right := by
    have values := congrArg UInt8.toNat equal
    rw [UInt8.toNat_ofNat', UInt8.toNat_ofNat'] at values
    omega
  cases first <;> cases second <;>
    simp only [FireholIpTarget.contextKey, ctxKeyV4Exact, ctxKeyV6Exact, ctxKeyV4Lpm, ctxKeyV6Lpm,
      List.cons.injEq, FireholIpTarget.PrefixInRange, Vector.toList_inj, reduceCtorEq] at same range other ⊢
  all_goals grind

end Keys

section Database

structure Archive where
  serialize : RuleBlockContext → List UInt8
  deserialize : List UInt8 → Option RuleBlockContext
  deserialize_serialize : ∀ context, deserialize (serialize context) = some context

theorem contexts_countable : Countable RuleBlockContext := by
  have character : Function.Injective Char.toNat := fun _ _ same => Char.toNat_inj.mp same
  have number : Function.Injective (@BitVec.toNat 32) := fun _ _ same => BitVec.eq_of_toNat_eq same
  have category : Function.Injective FireholCategory.ctorIdx := by
    intro first second same
    cases first <;> cases second <;> first | rfl | cases same
  have fields : Function.Injective fun context : RuleBlockContext =>
      (context.files, context.lines, context.categories) := by
    intro first second same
    cases first
    cases second
    simpa using same
  have characters := character.countable
  have numbers := number.countable
  have categories := category.countable
  exact fields.countable

-- One way to archive contexts: as the unary numbers of an enumeration.
noncomputable def Archive.counting : Archive :=
  have := contexts_countable
  have encodable := Encodable.ofCountable RuleBlockContext
  { serialize := fun context => List.replicate (encodable.encode context) 0
    deserialize := fun bytes => encodable.decode bytes.length
    deserialize_serialize := by simp }

structure Database where
  archive : Archive
  entries : Store (Octets 8) (List UInt8)
  contributions : Store (List UInt8) (List UInt8)
  ruleContext : Store (List UInt8) (List UInt8)

inductive Put where
  | block (key : Octets 8) (value : List UInt8)
  | contribution (key value : List UInt8)
  | context (key value : List UInt8)

def Put.block? : Put → Option (Octets 8 × List UInt8)
  | .block key value => some (key, value)
  | _ => none

def Put.contribution? : Put → Option (List UInt8 × List UInt8)
  | .contribution key value => some (key, value)
  | _ => none

def Put.context? : Put → Option (List UInt8 × List UInt8)
  | .context key value => some (key, value)
  | _ => none

namespace Database

def new (archive : Archive) : Database := ⟨archive, ∅, ∅, ∅⟩

def write (database : Database) : Put → Database
  | .block key value => { database with entries := database.entries.insert key value }
  | .contribution key value => { database with contributions := database.contributions.insert key value }
  | .context key value => { database with ruleContext := database.ruleContext.insert key value }

def writeAll (database : Database) (puts : List Put) : Database := puts.foldl write database

-- An archive that cannot be read counts as missing for a lookup.
def getRuleContext (database : Database) (key : List UInt8) : Option RuleBlockContext :=
  (database.ruleContext.lookup key).bind database.archive.deserialize

theorem writeAll_append (database : Database) (first second : List Put) :
    database.writeAll (first ++ second) = (database.writeAll first).writeAll second :=
  List.foldl_append

theorem writeAll_eq (database : Database) (puts : List Put) :
    database.writeAll puts =
      { archive := database.archive
        entries := insertAll database.entries (puts.filterMap Put.block?)
        contributions := insertAll database.contributions (puts.filterMap Put.contribution?)
        ruleContext := insertAll database.ruleContext (puts.filterMap Put.context?) } := by
  induction puts generalizing database with
  | nil => rfl
  | cons put rest ih =>
      change (database.write put).writeAll rest = _
      rw [ih]
      cases put <;> rfl

end Database

end Database

section Writer

def maxImportBatchBytes : Nat := 300 * 1024 * 1024

structure ColumnWriter where
  limit : Nat
  batch : List Put
  database : Database

def contributionKey (target : FireholIpTarget) (sequence : Nat) : List UInt8 :=
  target.contextKey ++ (spoolKey sequence).toList

def contributions : Nat → List FireholEntry → List (List UInt8 × List UInt8)
  | _, [] => []
  | sequence, entry :: rest =>
      (contributionKey entry.target sequence, entry.encode.toList.drop 22) ::
        contributions (sequence + 1) rest

def blockPuts (entries : List FireholEntry) (sequence : Nat) (spool : Bool) : List Put :=
  (contributions sequence entries).map (fun pair => .contribution pair.1 pair.2) ++
    if spool then [.block (spoolKey sequence) (encodeBlock entries)] else []

namespace ColumnWriter

variable (sizeInBytes : List Put → Nat)

def new (database : Database) (limit : Nat) : ColumnWriter :=
  ⟨max (1024 * 1024) (min limit maxImportBatchBytes), [], database⟩

def commit (writer : ColumnWriter) : ColumnWriter :=
  { writer with batch := [], database := writer.database.writeAll writer.batch }

def commitFull (writer : ColumnWriter) : ColumnWriter :=
  if writer.limit ≤ sizeInBytes writer.batch then writer.commit else writer

def put (writer : ColumnWriter) (put : Put) : ColumnWriter :=
  commitFull sizeInBytes { writer with batch := writer.batch ++ [put] }

def entries (writer : ColumnWriter) (entries : List FireholEntry) (sequence : Nat) (spool : Bool) :
    ColumnWriter :=
  commitFull sizeInBytes { writer with batch := writer.batch ++ blockPuts entries sequence spool }

def settled (writer : ColumnWriter) : Database := writer.database.writeAll writer.batch

@[simp] theorem settled_new (database : Database) (limit : Nat) :
    (new database limit).settled = database := rfl

@[simp] theorem settled_commit (writer : ColumnWriter) : writer.commit.settled = writer.settled := rfl

@[simp] theorem commit_database (writer : ColumnWriter) : writer.commit.database = writer.settled := rfl

@[simp] theorem settled_commitFull (writer : ColumnWriter) :
    (writer.commitFull sizeInBytes).settled = writer.settled := by
  unfold commitFull
  split_ifs <;> rfl

theorem settled_put (writer : ColumnWriter) (put : Put) :
    (writer.put sizeInBytes put).settled = writer.settled.write put := by
  rw [ColumnWriter.put, settled_commitFull, settled, Database.writeAll_append]
  rfl

theorem settled_entries (writer : ColumnWriter) (entries : List FireholEntry) (sequence : Nat)
    (spool : Bool) :
    (writer.entries sizeInBytes entries sequence spool).settled =
      writer.settled.writeAll (blockPuts entries sequence spool) := by
  rw [ColumnWriter.entries, settled_commitFull, settled, Database.writeAll_append]
  rfl

end ColumnWriter

end Writer

end ReputationFirewall.Firehol
