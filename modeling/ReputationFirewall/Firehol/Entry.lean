import ReputationFirewall.Common
import ReputationFirewall.Shared.KeyedStore
import ReputationFirewall.Shared.NetAddr

set_option autoImplicit false

namespace ReputationFirewall.Firehol

open BigEndian KeyedStore NetAddr

inductive FireholIpTarget where
  | exactV4 (addr : Octets 4)
  | exactV6 (addr : Octets 16)
  | cidrV4 (prefixLen : Nat) (addr : Octets 4)
  | cidrV6 (prefixLen : Nat) (addr : Octets 16)
  deriving DecidableEq

def FireholIpTarget.containsIp : FireholIpTarget → IpAddr → Bool
  | .exactV4 addr, .v4 ip => addr == ip
  | .exactV6 addr, .v6 ip => addr == ip
  | .cidrV4 prefixLen addr, .v4 ip => Prefix.network prefixLen (fromBeBytes ip) == fromBeBytes addr
  | .cidrV6 prefixLen addr, .v6 ip => Prefix.network prefixLen (fromBeBytes ip) == fromBeBytes addr
  | _, _ => false

structure FireholEntry where
  target : FireholIpTarget
  ruleId : BitVec 32
  metadataId : BitVec 32
  line : BitVec 32
  deriving DecidableEq

section Records

def paddedAddr (addr : Octets 4) : Octets 16 := addr ++ (Vector.replicate 12 0 : Octets 12)

def FireholIpTarget.encode : FireholIpTarget → Octets 18
  | .exactV4 addr => (#v[1, 0] : Octets 2) ++ paddedAddr addr
  | .exactV6 addr => (#v[2, 0] : Octets 2) ++ addr
  | .cidrV4 prefixLen addr => (#v[3, UInt8.ofNat prefixLen] : Octets 2) ++ paddedAddr addr
  | .cidrV6 prefixLen addr => (#v[4, UInt8.ofNat prefixLen] : Octets 2) ++ addr

def FireholEntry.encode (entry : FireholEntry) : Octets 30 :=
  entry.target.encode ++ (toBeBytes entry.ruleId : Octets 4) ++
    (toBeBytes entry.metadataId : Octets 4) ++ (toBeBytes entry.line : Octets 4)

def FireholEntry.decode (bytes : List UInt8) : Except FirewallError FireholEntry :=
  if sized : bytes.length = 30 then
    let record : Octets 30 := ⟨bytes.toArray, by simp [sized]⟩
    let ipv4 : Octets 4 := slice record 2 4 (by decide)
    let ipv6 : Octets 16 := slice record 2 16 (by decide)
    let size := (record.get 1).toNat
    let target : Option FireholIpTarget :=
      if record.get 0 = 1 then some (.exactV4 ipv4)
      else if record.get 0 = 2 then some (.exactV6 ipv6)
      else if record.get 0 = 3 ∧ size ≤ 32 then some (.cidrV4 size ipv4)
      else if record.get 0 = 4 ∧ size ≤ 128 then some (.cidrV6 size ipv6)
      else none
    match target with
    | some target =>
        .ok { target
              ruleId := fromBeBytes (slice record 18 4 (by decide))
              metadataId := fromBeBytes (slice record 22 4 (by decide))
              line := fromBeBytes (slice record 26 4 (by decide)) }
    | none => .error (.cache "Invalid FireHOL entry target".toList)
  else .error (.cache "Invalid FireHOL entry length".toList)

def FireholIpTarget.PrefixInRange : FireholIpTarget → Prop
  | .cidrV4 prefixLen _ => prefixLen ≤ 32
  | .cidrV6 prefixLen _ => prefixLen ≤ 128
  | _ => True

end Records

section DataSets

-- The column family of spooled blocks; a failing scan stops with an error after its last block.
structure CacheRocksDb where
  entries : Store (Octets 8) (List UInt8)
  scanError : Option (List Char)

def CacheRocksDb.values (cache : CacheRocksDb) : List (List UInt8) :=
  orderedValues (fun left right => fromBeBytes left ≤ fromBeBytes right) cache.entries

def asChunks {α : Type} (size : Nat) : (count : Nat) → List α → List (List α)
  | 0, _ => []
  | count + 1, items => items.take size :: asChunks size count (items.drop size)

def decodeBlock (bytes : List UInt8) : Except FirewallError (List FireholEntry) :=
  if bytes = [] ∨ bytes.length % 30 ≠ 0 then .error (.cache "Invalid FireHOL spool block".toList)
  else (asChunks 30 (bytes.length / 30) bytes).mapM FireholEntry.decode

structure FireholDataSet where
  entries : List FireholEntry
  storedEntries : Option CacheRocksDb

def FireholDataSet.visitEntries (dataset : FireholDataSet) : Except FirewallError (List FireholEntry) :=
  match dataset.storedEntries with
  | none => .ok dataset.entries
  | some cache =>
      match cache.values.mapM decodeBlock with
      | .error error => .error error
      | .ok blocks =>
          match cache.scanError with
          | none => .ok blocks.flatten
          | some reason => .error (.cache ("RocksDB scan failed: ".toList ++ reason))

end DataSets

section Coverage

def FireholIpTarget.Covers : FireholIpTarget → IpAddr → Prop
  | .exactV4 addr, .v4 ip => ip = addr
  | .exactV6 addr, .v6 ip => ip = addr
  | .cidrV4 prefixLen addr, .v4 ip => SamePrefix prefixLen addr ip
  | .cidrV6 prefixLen addr, .v6 ip => SamePrefix prefixLen addr ip
  | _, _ => False

end Coverage

end ReputationFirewall.Firehol
