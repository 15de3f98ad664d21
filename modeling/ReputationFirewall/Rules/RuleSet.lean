import ReputationFirewall.Common
import ReputationFirewall.Shared.KeyedStore

set_option autoImplicit false

namespace ReputationFirewall

open BigEndian KeyedStore

-- Rule ids of static rules start here; FireHOL ids are dense from one.
def staticRuleBase : BitVec 32 := 1 <<< 28

structure ParsedRuleSet where
  exactV4 : Store (Octets 4) RuleValue
  exactV6 : Store (Octets 16) RuleValue
  lpmV4 : List (Nat × Octets 4 × RuleValue)
  lpmV6 : List (Nat × Octets 16 × RuleValue)
  totalRules : Nat
  skippedRules : Nat

def ParsedRuleSet.new : ParsedRuleSet :=
  { exactV4 := ∅, exactV6 := ∅, lpmV4 := [], lpmV6 := [], totalRules := 0, skippedRules := 0 }

def ParsedRuleSet.count (rules : ParsedRuleSet) : Nat :=
  rules.exactV4.entries.length + rules.exactV6.entries.length +
    rules.lpmV4.length + rules.lpmV6.length

-- The two hash maps of `other` are consumed in some order; the networks are appended as they are.
def ParsedRuleSet.merge (orderV4 : HashOrder (Octets 4)) (orderV6 : HashOrder (Octets 16))
    (rules other : ParsedRuleSet) : ParsedRuleSet :=
  let merged : ParsedRuleSet :=
    { rules with
      exactV4 := insertAll rules.exactV4 (orderV4.iterate other.exactV4)
      exactV6 := insertAll rules.exactV6 (orderV6.iterate other.exactV6)
      lpmV4 := rules.lpmV4 ++ other.lpmV4
      lpmV6 := rules.lpmV6 ++ other.lpmV6 }
  { merged with totalRules := merged.count, skippedRules := rules.skippedRules + other.skippedRules }

inductive MapKind where
  | ipv4Exact
  | ipv6Exact
  | ipv4Lpm
  | ipv6Lpm
  deriving DecidableEq

def MapKind.isExact : MapKind → Bool
  | .ipv4Exact | .ipv6Exact => true
  | .ipv4Lpm | .ipv6Lpm => false

@[reducible] def MapKind.Key : MapKind → Type
  | .ipv4Exact => Octets 4
  | .ipv6Exact => Octets 16
  | .ipv4Lpm => Nat × Octets 4
  | .ipv6Lpm => Nat × Octets 16

instance (kind : MapKind) : DecidableEq kind.Key :=
  match kind with
  | .ipv4Exact => inferInstanceAs (DecidableEq (Octets 4))
  | .ipv6Exact => inferInstanceAs (DecidableEq (Octets 16))
  | .ipv4Lpm => inferInstanceAs (DecidableEq (Nat × Octets 4))
  | .ipv6Lpm => inferInstanceAs (DecidableEq (Nat × Octets 16))

namespace ParsedRuleSet

def entries (rules : ParsedRuleSet) :
    (kind : MapKind) → HashOrder kind.Key → List (kind.Key × RuleValue)
  | .ipv4Exact, order => order.iterate rules.exactV4
  | .ipv6Exact, order => order.iterate rules.exactV6
  | .ipv4Lpm, _ => rules.lpmV4.map fun (prefixLen, addr, value) => ((prefixLen, addr), value)
  | .ipv6Lpm, _ => rules.lpmV6.map fun (prefixLen, addr, value) => ((prefixLen, addr), value)

def Assigns (rules : ParsedRuleSet) :
    (kind : MapKind) → kind.Key → RuleValue → Prop
  | .ipv4Exact, key, value => rules.exactV4.lookup key = some value
  | .ipv6Exact, key, value => rules.exactV6.lookup key = some value
  | .ipv4Lpm, key, value => (key.1, key.2, value) ∈ rules.lpmV4
  | .ipv6Lpm, key, value => (key.1, key.2, value) ∈ rules.lpmV6

def listedKeys (rules : ParsedRuleSet) : (kind : MapKind) → List kind.Key
  | .ipv4Exact => rules.exactV4.keys
  | .ipv6Exact => rules.exactV6.keys
  | .ipv4Lpm => rules.lpmV4.map fun (prefixLen, addr, _) => (prefixLen, addr)
  | .ipv6Lpm => rules.lpmV6.map fun (prefixLen, addr, _) => (prefixLen, addr)

def keys (rules : ParsedRuleSet) : (kind : MapKind) → Finset kind.Key
  | .ipv4Exact => keySet rules.exactV4
  | .ipv6Exact => keySet rules.exactV6
  | .ipv4Lpm => (rules.lpmV4.map fun (prefixLen, addr, _) => (prefixLen, addr)).toFinset
  | .ipv6Lpm => (rules.lpmV6.map fun (prefixLen, addr, _) => (prefixLen, addr)).toFinset

def finalValue (rules : ParsedRuleSet) : (kind : MapKind) → kind.Key → Option RuleValue
  | .ipv4Exact, key => rules.exactV4.lookup key
  | .ipv6Exact, key => rules.exactV6.lookup key
  | .ipv4Lpm, key =>
      lastValue key (rules.lpmV4.map fun (prefixLen, addr, value) => ((prefixLen, addr), value))
  | .ipv6Lpm, key =>
      lastValue key (rules.lpmV6.map fun (prefixLen, addr, value) => ((prefixLen, addr), value))

theorem listedKeys_toFinset (rules : ParsedRuleSet) (kind : MapKind) :
    (rules.listedKeys kind).toFinset = rules.keys kind := by
  cases kind <;> rfl

theorem lastValue_entries (rules : ParsedRuleSet) (kind : MapKind) (order : HashOrder kind.Key)
    (key : kind.Key) : lastValue key (rules.entries kind order) = rules.finalValue kind key := by
  cases kind with
  | ipv4Exact => exact order.lastValue_iterate rules.exactV4 key
  | ipv6Exact => exact order.lastValue_iterate rules.exactV6 key
  | ipv4Lpm => rfl
  | ipv6Lpm => rfl

theorem mem_entries (rules : ParsedRuleSet) (kind : MapKind) (order : HashOrder kind.Key)
    (key : kind.Key) (value : RuleValue) :
    (key, value) ∈ rules.entries kind order ↔ rules.Assigns kind key value := by
  cases kind with
  | ipv4Exact => exact order.mem_iterate rules.exactV4 key value
  | ipv6Exact => exact order.mem_iterate rules.exactV6 key value
  | ipv4Lpm => simp [entries, Assigns, Prod.ext_iff]
  | ipv6Lpm => simp [entries, Assigns, Prod.ext_iff]

theorem mem_keys (rules : ParsedRuleSet) (kind : MapKind) (key : kind.Key) :
    key ∈ rules.keys kind ↔ ∃ value, rules.Assigns kind key value := by
  cases kind with
  | ipv4Exact => simp [keys, Assigns, ← AList.lookup_isSome, Option.isSome_iff_exists]
  | ipv6Exact => simp [keys, Assigns, ← AList.lookup_isSome, Option.isSome_iff_exists]
  | ipv4Lpm => simp [keys, Assigns, Prod.ext_iff]
  | ipv6Lpm => simp [keys, Assigns, Prod.ext_iff]

theorem mem_entries_keys (rules : ParsedRuleSet) (kind : MapKind) (order : HashOrder kind.Key)
    (key : kind.Key) :
    key ∈ (rules.entries kind order).map Prod.fst ↔ key ∈ rules.keys kind := by
  simp [mem_keys, ← mem_entries rules kind order]

end ParsedRuleSet

end ReputationFirewall
