import ReputationFirewall.Shared.BigEndian
import ReputationFirewall.Shared.Prefix
import ReputationFirewall.Shared.Text

set_option autoImplicit false

namespace NetAddr

open BigEndian Text

inductive IpAddr where
  | v4 (octets : Octets 4)
  | v6 (octets : Octets 16)
  deriving DecidableEq

/-- A network of `n`-byte addresses; host bits of `addr` may be set. -/
structure Net (n : Nat) where
  addr : Octets n
  prefixLen : Nat
  bounded : prefixLen ≤ 8 * n
  deriving DecidableEq

abbrev Ipv4Net := Net 4
abbrev Ipv6Net := Net 16

inductive IpNet where
  | v4 (net : Ipv4Net)
  | v6 (net : Ipv6Net)
  deriving DecidableEq

section Networks

variable {n : Nat}

/-- The two addresses share their first `prefixLen` bits. -/
def SamePrefix (prefixLen : Nat) (left right : Octets n) : Prop :=
  Prefix.Agree prefixLen (fromBeBytes left) (fromBeBytes right)

instance (prefixLen : Nat) (left right : Octets n) : Decidable (SamePrefix prefixLen left right) :=
  inferInstanceAs (Decidable (Prefix.Agree _ _ _))

def networkOf (prefixLen : Nat) (addr : Octets n) : Octets n :=
  toBeBytes (Prefix.network prefixLen (fromBeBytes addr))

def Net.network (net : Net n) : Octets n := networkOf net.prefixLen net.addr

def Net.contains (net : Net n) (addr : Octets n) : Bool := decide (SamePrefix net.prefixLen net.addr addr)

@[simp] theorem Net.contains_iff (net : Net n) (addr : Octets n) :
    net.contains addr = true ↔ SamePrefix net.prefixLen net.addr addr := decide_eq_true_iff

theorem samePrefix_networkOf (prefixLen : Nat) (net addr : Octets n) :
    SamePrefix prefixLen (networkOf prefixLen net) addr ↔ SamePrefix prefixLen net addr := by
  have masked := Prefix.agree_network prefixLen (fromBeBytes net)
  simp only [SamePrefix, networkOf, fromBeBytes_toBeBytes]
  exact ⟨(Prefix.agree_comm.mp masked).trans, masked.trans⟩

theorem samePrefix_full {prefixLen : Nat} (full : 8 * n ≤ prefixLen) (left right : Octets n) :
    SamePrefix prefixLen left right ↔ left = right := by
  rw [SamePrefix, Prefix.agree_full full]
  exact ⟨fromBeBytes_injective, congrArg _⟩

theorem networkOf_full {prefixLen : Nat} (full : 8 * n ≤ prefixLen) (addr : Octets n) :
    networkOf prefixLen addr = addr :=
  (samePrefix_full full _ _).mp ((samePrefix_networkOf prefixLen addr addr).mpr (Prefix.agree_refl _ _))

theorem samePrefix_overlap_iff (left right : Nat) (first second : Octets n) :
    (∃ addr, SamePrefix left first addr ∧ SamePrefix right second addr) ↔
      SamePrefix (min left right) first second := by
  rw [SamePrefix, ← Prefix.overlap_iff]
  constructor
  · intro meet
    obtain ⟨addr, inFirst, inSecond⟩ := meet
    exact ⟨fromBeBytes addr, inFirst, inSecond⟩
  · intro meet
    obtain ⟨addr, inFirst, inSecond⟩ := meet
    refine ⟨toBeBytes addr, ?_, ?_⟩ <;> simpa [SamePrefix]

/-- The addresses of a network. -/
def IpNet.Covers : IpNet → IpAddr → Prop
  | .v4 net, .v4 addr => SamePrefix net.prefixLen net.addr addr
  | .v6 net, .v6 addr => SamePrefix net.prefixLen net.addr addr
  | _, _ => False

end Networks

section Octetwise

variable {n : Nat}

def octetMask (bits : Nat) : UInt8 := ⟨Prefix.mask 8 bits⟩

theorem mask_bit (w length bit : Nat) :
    (Prefix.mask w length).getLsbD bit = (decide (w - length ≤ bit) && decide (bit < w)) := by
  simp only [Prefix.mask, BitVec.getLsbD_shiftLeft, BitVec.getLsbD_allOnes]
  rw [Bool.eq_iff_iff]
  simp only [Bool.and_eq_true, Bool.not_eq_true', decide_eq_true_eq, decide_eq_false_iff_not]
  omega

theorem and_octetMask_full {bits : Nat} (full : 8 ≤ bits) (octet : UInt8) : octet &&& octetMask bits = octet := by
  apply UInt8.toBitVec_inj.mp
  rw [UInt8.toBitVec_and, octetMask, Prefix.mask, Nat.sub_eq_zero_of_le full, BitVec.shiftLeft_zero,
    BitVec.and_allOnes]

@[simp] theorem and_octetMask_zero (octet : UInt8) : octet &&& octetMask 0 = 0 := by
  rw [show octetMask 0 = 0 by decide, UInt8.and_zero]

theorem ofFn_get (octets : Fin n → UInt8) (i : Fin n) : (Vector.ofFn octets : Octets n).get i = octets i :=
  Vector.getElem_ofFn i.isLt

theorem toBeBytes_bit (number : BitVec (8 * n)) (i : Fin n) {bit : Nat} (inside : bit < 8) :
    ((toBeBytes number : Octets n).get i).toBitVec.getLsbD bit =
      number.getLsbD (8 * (n - 1 - i.val) + bit) := by
  have octet : ((toBeBytes number : Octets n).get i).toBitVec.toNat =
      number.toNat / 256 ^ (n - 1 - i.val) % 256 := by
    simp only [toBeBytes, ofFn_get, UInt8.toNat_toBitVec, UInt8.toNat_ofNat']
  rw [← BitVec.testBit_toNat, ← BitVec.testBit_toNat, octet, pow_bits,
    show 256 = 2 ^ 8 by rfl, Nat.testBit_mod_two_pow, Nat.testBit_div_two_pow]
  simp [inside, Nat.add_comm]

theorem networkOf_octet (prefixLen : Nat) (addr : Octets n) (i : Fin n) :
    (networkOf prefixLen addr).get i = addr.get i &&& octetMask (prefixLen - 8 * i.val) := by
  apply UInt8.toBitVec_inj.mp
  apply BitVec.eq_of_getLsbD_eq
  intro bit inside
  rw [networkOf, toBeBytes_bit _ _ inside, Prefix.network, BitVec.getLsbD_and, UInt8.toBitVec_and,
    BitVec.getLsbD_and, ← toBeBytes_bit _ i inside, toBeBytes_fromBeBytes, mask_bit, octetMask, mask_bit]
  have fits := i.isLt
  congr 1
  rw [Bool.eq_iff_iff]
  simp only [Bool.and_eq_true, decide_eq_true_eq]
  omega

theorem octets_ext {left right : Octets n} (same : ∀ i : Fin n, left.get i = right.get i) : left = right :=
  Vector.ext fun i inside => same ⟨i, inside⟩

theorem samePrefix_iff_networkOf (prefixLen : Nat) (left right : Octets n) :
    SamePrefix prefixLen left right ↔ networkOf prefixLen left = networkOf prefixLen right := by
  rw [SamePrefix, ← Prefix.network_eq_iff]
  constructor
  · intro same
    rw [networkOf, networkOf, same]
  · intro same
    simpa [networkOf] using congrArg fromBeBytes same

theorem samePrefix_iff_octets (prefixLen : Nat) (left right : Octets n) :
    SamePrefix prefixLen left right ↔ ∀ i : Fin n,
      left.get i &&& octetMask (prefixLen - 8 * i.val) = right.get i &&& octetMask (prefixLen - 8 * i.val) := by
  rw [samePrefix_iff_networkOf]
  constructor
  · intro same i
    rw [← networkOf_octet, ← networkOf_octet, same]
  · intro same
    apply octets_ext
    intro i
    rw [networkOf_octet, networkOf_octet, same i]

end Octetwise

section Ipv4Blocks

theorem octets4_eq (ip : Octets 4) : ip = #v[ip.get 0, ip.get 1, ip.get 2, ip.get 3] := by
  apply Vector.ext
  intro i inside
  obtain rfl | rfl | rfl | rfl : i = 0 ∨ i = 1 ∨ i = 2 ∨ i = 3 := by omega
  all_goals rfl

theorem value_ipv4 (a b c d : UInt8) :
    value (#v[a, b, c, d] : Octets 4).toList =
      ((a.toNat * 256 + b.toNat) * 256 + c.toNat) * 256 + d.toNat := by
  simp [value]

theorem inFirstOctet_iff (a b c d : UInt8) (ip : Octets 4) :
    SamePrefix 8 #v[a, b, c, d] ip ↔ ip.get 0 = a := by
  have bounds := And.intro (ip.get 1).toNat_lt (And.intro (ip.get 2).toNat_lt (ip.get 3).toNat_lt)
  have own := And.intro b.toNat_lt (And.intro c.toNat_lt d.toNat_lt)
  conv_lhs => rw [octets4_eq ip]
  rw [SamePrefix, Prefix.agree_iff_div, fromBeBytes_toNat, fromBeBytes_toNat, value_ipv4, value_ipv4,
    ← UInt8.toNat_inj]
  omega

theorem inBlock_iff {bits : Nat} (few : bits ≤ 8) (a b c d : UInt8) (ip : Octets 4) :
    SamePrefix (16 + bits) #v[a, b, c, d] ip ↔ ip.get 0 = a ∧ ip.get 1 = b ∧
      (ip.get 2).toNat / 2 ^ (8 - bits) = c.toNat / 2 ^ (8 - bits) := by
  have bounds := And.intro (ip.get 0).toNat_lt (And.intro (ip.get 1).toNat_lt
    (And.intro (ip.get 2).toNat_lt (ip.get 3).toNat_lt))
  have own := And.intro a.toNat_lt (And.intro b.toNat_lt (And.intro c.toNat_lt d.toNat_lt))
  conv_lhs => rw [octets4_eq ip]
  rw [SamePrefix, Prefix.agree_iff_div, fromBeBytes_toNat, fromBeBytes_toNat, value_ipv4, value_ipv4,
    ← UInt8.toNat_inj, ← UInt8.toNat_inj]
  interval_cases bits <;> omega

theorem isHost_iff (a b c d : UInt8) (ip : Octets 4) :
    SamePrefix 32 #v[a, b, c, d] ip ↔ ip.get 0 = a ∧ ip.get 1 = b ∧ ip.get 2 = c ∧ ip.get 3 = d := by
  rw [samePrefix_full (by decide)]
  constructor
  · intro same
    subst same
    exact ⟨rfl, rfl, rfl, rfl⟩
  · intro same
    rw [octets4_eq ip, same.1, same.2.1, same.2.2.1, same.2.2.2]

theorem and_mask_eq_iff (bits : Nat) {mask value : UInt8} (same : mask.toBitVec = Prefix.mask 8 bits)
    (aligned : value &&& mask = value) (byte : UInt8) :
    byte &&& mask = value ↔ byte.toNat / 2 ^ (8 - bits) = value.toNat / 2 ^ (8 - bits) := by
  have agree := Prefix.network_eq_iff bits byte.toBitVec value.toBitVec
  rw [Prefix.agree_iff_div, Prefix.network, Prefix.network, ← same, ← UInt8.toBitVec_and,
    ← UInt8.toBitVec_and, aligned, UInt8.toBitVec_inj] at agree
  exact agree

end Ipv4Blocks

section Grammar

def readOctet (allowZeroPrefix : Bool) : Reader UInt8 := fun text =>
  (readNumber 10 3 256 allowZeroPrefix text).map fun (number, rest) => (UInt8.ofNat number, rest)

def readDotOctet (allowZeroPrefix : Bool) : Reader UInt8 := fun text =>
  (readGivenChar '.' text).bind fun (_, rest) => readOctet allowZeroPrefix rest

def ipv4Octets (first second third fourth : UInt8) : Octets 4 := #v[first, second, third, fourth]

def readIpv4Addr (allowZeroPrefix : Bool) : Reader (Octets 4) := fun text => do
  let (first, text) ← readOctet allowZeroPrefix text
  let (second, text) ← readDotOctet allowZeroPrefix text
  let (third, text) ← readDotOctet allowZeroPrefix text
  let (fourth, text) ← readDotOctet allowZeroPrefix text
  some (ipv4Octets first second third fourth, text)

def readSeparator {α : Type} (separator : Char) (index : Nat) (inner : Reader α) : Reader α := fun text =>
  if index = 0 then inner text
  else (readGivenChar separator text).bind fun (_, rest) => inner rest

/-- Colon-separated groups up to a number of slots, possibly ending in an IPv4 address that takes two of
them; says whether it does. -/
def readGroups : (slots index : Nat) → List Char → List Nat × Bool × List Char
  | 0, _, text => ([], false, text)
  | slots + 1, index, text =>
      match if 0 < slots then readSeparator ':' index (readIpv4Addr false) text else none with
      | some (addr, rest) =>
          ([(addr.get 0).toNat * 256 + (addr.get 1).toNat,
            (addr.get 2).toNat * 256 + (addr.get 3).toNat], true, rest)
      | none =>
          match readSeparator ':' index (readNumber 16 4 65536 true) text with
          | some (group, rest) =>
              let (groups, embedded, rest) := readGroups slots (index + 1) rest
              (group :: groups, embedded, rest)
          | none => ([], false, text)

def groupOctets (groups : List Nat) : Octets 16 :=
  Vector.ofFn fun i => UInt8.ofNat (groups.getD (i.val / 2) 0 / 256 ^ (1 - i.val % 2))

def readIpv6Addr : Reader (Octets 16) := fun text =>
  let (head, embedded, text) := readGroups 8 0 text
  if head.length = 8 then some (groupOctets head, text)
  else if embedded then none
  else do
    let (_, text) ← readGivenChar ':' text
    let (_, text) ← readGivenChar ':' text
    let (tail, _, text) := readGroups (8 - (head.length + 1)) 0 text
    some (groupOctets (head ++ List.replicate (8 - head.length - tail.length) 0 ++ tail), text)

def readIpAddr : Reader IpAddr := fun text =>
  match readIpv4Addr false text with
  | some (addr, rest) => some (.v4 addr, rest)
  | none => (readIpv6Addr text).map fun (addr, rest) => (.v6 addr, rest)

def IpAddr.fromStr (text : List Char) : Option IpAddr := readToEnd readIpAddr text

def Ipv6Addr.fromStr (text : List Char) : Option (Octets 16) := readToEnd readIpv6Addr text

def DottedDecimal (c : Char) : Prop := c = '.' ∨ (toDigit 10 c).isSome

theorem readOctet_consumed {allowZeroPrefix : Bool} {octet : UInt8} {text rest : List Char}
    (read : readOctet allowZeroPrefix text = some (octet, rest)) : Consumed DottedDecimal text rest := by
  simp only [readOctet, Option.map_eq_some_iff, Prod.mk.injEq, Prod.exists] at read
  obtain ⟨number, tail, digits, _, rfl⟩ := read
  exact (readNumber_consumed digits).mono fun c digit => Or.inr digit

theorem readDotOctet_consumed {allowZeroPrefix : Bool} {octet : UInt8} {text rest : List Char}
    (read : readDotOctet allowZeroPrefix text = some (octet, rest)) : Consumed DottedDecimal text rest := by
  simp only [readDotOctet, Option.bind_eq_some_iff, Prod.exists, readGivenChar_eq_some] at read
  obtain ⟨_, tail, rfl, octetRead⟩ := read
  have dot : Consumed DottedDecimal ('.' :: tail) tail := ⟨['.'], rfl, by simp [DottedDecimal]⟩
  exact dot.trans (readOctet_consumed octetRead)

theorem readIpv4Addr_consumed {allowZeroPrefix : Bool} {addr : Octets 4} {text rest : List Char}
    (read : readIpv4Addr allowZeroPrefix text = some (addr, rest)) : Consumed DottedDecimal text rest := by
  simp only [readIpv4Addr, Option.bind_eq_bind, Option.bind_eq_some_iff, Option.some.injEq,
    Prod.mk.injEq, Prod.exists] at read
  obtain ⟨_, _, first, _, _, second, _, _, third, _, _, fourth, _, rfl⟩ := read
  exact (((readOctet_consumed first).trans (readDotOctet_consumed second)).trans
    (readDotOctet_consumed third)).trans (readDotOctet_consumed fourth)

def AddressText (c : Char) : Prop := c = ':' ∨ DottedDecimal c ∨ (toDigit 16 c).isSome

theorem readColon_consumed {text rest : List Char} {done : Unit}
    (read : readGivenChar ':' text = some (done, rest)) : Consumed AddressText text rest := by
  obtain rfl := (readGivenChar_eq_some _ _ _ _).mp read
  exact ⟨[':'], rfl, by simp [AddressText]⟩

theorem readSeparator_consumed {α : Type} {index : Nat} {inner : Reader α} {value : α} {text rest : List Char}
    (within : ∀ text, inner text = some (value, rest) → Consumed AddressText text rest)
    (read : readSeparator ':' index inner text = some (value, rest)) : Consumed AddressText text rest := by
  unfold readSeparator at read
  split_ifs at read
  · exact within text read
  · simp only [Option.bind_eq_some_iff, Prod.exists] at read
    obtain ⟨_, tail, colon, item⟩ := read
    exact (readColon_consumed colon).trans (within tail item)

theorem readEmbedded_consumed {addr : Octets 4} {text rest : List Char}
    (read : readIpv4Addr false text = some (addr, rest)) : Consumed AddressText text rest :=
  (readIpv4Addr_consumed read).mono fun _ dotted => Or.inr (Or.inl dotted)

theorem readGroup_consumed {group : Nat} {text rest : List Char}
    (read : readNumber 16 4 65536 true text = some (group, rest)) : Consumed AddressText text rest :=
  (readNumber_consumed read).mono fun _ digit => Or.inr (Or.inr digit)

theorem readGroups_consumed (slots index : Nat) (text : List Char) :
    Consumed AddressText text (readGroups slots index text).2.2 := by
  induction slots generalizing index text with
  | zero => exact Consumed.refl _ text
  | succ slots ih =>
      rw [readGroups]
      split
      · next addr rest embedded =>
        split_ifs at embedded
        exact readSeparator_consumed (fun _ => readEmbedded_consumed) embedded
      · split
        · next group rest read =>
          exact (readSeparator_consumed (fun _ => readGroup_consumed) read).trans (ih (index + 1) rest)
        · exact Consumed.refl _ text

theorem readGroups_colon {slots index : Nat} {text : List Char} (later : index ≠ 0)
    (some : (readGroups slots index text).1 ≠ []) : ':' ∈ text := by
  have separated {α : Type} {inner : Reader α} {value : α} {rest : List Char}
      (read : readSeparator ':' index inner text = Option.some (value, rest)) : ':' ∈ text := by
    simp only [readSeparator, later, if_false, Option.bind_eq_some_iff, Prod.exists,
      readGivenChar_eq_some] at read
    obtain ⟨_, tail, rfl, _⟩ := read
    exact List.mem_cons_self
  cases slots with
  | zero => simp [readGroups] at some
  | succ slots =>
      rw [readGroups] at some
      split at some
      · next embedded =>
        split_ifs at embedded
        exact separated embedded
      · split at some
        · next read => exact separated read
        · simp at some

theorem readGroups_eight {text : List Char} (full : (readGroups 8 0 text).1.length = 8) :
    ':' ∈ text := by
  rw [readGroups] at full
  split at full
  · simp at full
  · split at full
    · next group rest read =>
      have more : (readGroups 7 1 rest).1 ≠ [] := by
        intro empty
        simp [empty] at full
      have within := readSeparator_consumed (fun _ => readGroup_consumed) read
      exact within.suffix.subset (readGroups_colon (by decide) more)
    · simp at full

theorem readIpv6Addr_colon {addr : Octets 16} {text rest : List Char}
    (read : readIpv6Addr text = some (addr, rest)) : ':' ∈ text := by
  unfold readIpv6Addr at read
  by_cases full : (readGroups 8 0 text).1.length = 8
  · exact readGroups_eight full
  · simp only [full, if_false] at read
    split_ifs at read
    simp only [Option.bind_eq_bind, Option.bind_eq_some_iff, Prod.exists, readGivenChar_eq_some] at read
    obtain ⟨_, tail, colon, _⟩ := read
    exact (readGroups_consumed 8 0 text).suffix.subset (colon ▸ List.mem_cons_self)

theorem readIpv6Addr_consumed {addr : Octets 16} {text rest : List Char}
    (read : readIpv6Addr text = some (addr, rest)) : Consumed AddressText text rest := by
  unfold readIpv6Addr at read
  have front := readGroups_consumed 8 0 text
  by_cases full : (readGroups 8 0 text).1.length = 8
  · simp only [full, if_true, Option.some.injEq, Prod.mk.injEq] at read
    exact read.2 ▸ front
  · simp only [full, if_false] at read
    split_ifs at read
    simp only [Option.bind_eq_bind, Option.bind_eq_some_iff, Prod.exists, Option.some.injEq,
      Prod.mk.injEq] at read
    obtain ⟨_, afterOne, one, _, afterTwo, two, _, rfl⟩ := read
    have colons := (readColon_consumed one).trans (readColon_consumed two)
    exact front.trans (colons.trans (readGroups_consumed _ 0 afterTwo))

-- A text that starts with a dotted address is no IPv6 address: it would have to be one group pair.
theorem readIpv6Addr_of_ipv4 {addr : Octets 4} {text rest : List Char}
    (read : readIpv4Addr false text = some (addr, rest)) : readIpv6Addr text = none := by
  simp [readIpv6Addr, readGroups, readSeparator, read]

theorem not_dottedDecimal_colon : ¬ DottedDecimal ':' := by
  simp [DottedDecimal, toDigit]

theorem not_dottedDecimal_slash : ¬ DottedDecimal '/' := by
  simp [DottedDecimal, toDigit]

theorem not_addressText_slash : ¬ AddressText '/' := by
  simp [AddressText, DottedDecimal, toDigit]

theorem ipAddr_fromStr_ipv6 {text : List Char} (colon : ':' ∈ text) :
    IpAddr.fromStr text = (Ipv6Addr.fromStr text).map .v6 := by
  cases read : readIpv4Addr false text with
  | none =>
      rcases six : readIpv6Addr text with _ | ⟨addr, _ | ⟨c, rest⟩⟩ <;>
        simp [IpAddr.fromStr, Ipv6Addr.fromStr, readToEnd, readIpAddr, read, six]
  | some found =>
      obtain ⟨addr, rest⟩ := found
      have more : rest ≠ [] := by
        intro empty
        subst empty
        exact (readIpv4Addr_consumed read).not_mem not_dottedDecimal_colon colon
      simp [IpAddr.fromStr, Ipv6Addr.fromStr, readToEnd, readIpAddr, read,
        readIpv6Addr_of_ipv4 read, more]

theorem ipAddr_fromStr_ipv4 {text : List Char} (plain : ':' ∉ text) :
    IpAddr.fromStr text = (readToEnd (readIpv4Addr false) text).map .v4 := by
  cases read : readIpv4Addr false text with
  | none =>
      have noSix : readIpv6Addr text = none :=
        Option.eq_none_iff_forall_ne_some.mpr fun found six => plain (readIpv6Addr_colon six)
      simp [IpAddr.fromStr, readToEnd, readIpAddr, read, noSix]
  | some found =>
      obtain ⟨addr, rest⟩ := found
      cases rest <;> simp [IpAddr.fromStr, readToEnd, readIpAddr, read]

theorem ipAddr_fromStr_slash {text : List Char} (slash : '/' ∈ text) : IpAddr.fromStr text = none := by
  refine Option.eq_none_iff_forall_ne_some.mpr fun addr read => ?_
  rw [IpAddr.fromStr, readToEnd_eq_some, readIpAddr] at read
  split at read
  · next four =>
    cases read
    exact (readIpv4Addr_consumed four).not_mem not_dottedDecimal_slash slash
  · obtain ⟨⟨_, rest⟩, six, same⟩ := Option.map_eq_some_iff.mp read
    cases same
    exact (readIpv6Addr_consumed six).not_mem not_addressText_slash slash

end Grammar

section Ipnet

def readIpv4Net : Reader Ipv4Net := fun text => do
  let (addr, text) ← readIpv4Addr true text
  let (_, text) ← readGivenChar '/' text
  let (prefixLen, text) ← readNumber 10 2 33 true text
  if bounded : prefixLen ≤ 8 * 4 then some (⟨addr, prefixLen, bounded⟩, text) else none

def readIpv6Net : Reader Ipv6Net := fun text => do
  let (addr, text) ← readIpv6Addr text
  let (_, text) ← readGivenChar '/' text
  let (prefixLen, text) ← readNumber 10 3 129 true text
  if bounded : prefixLen ≤ 8 * 16 then some (⟨addr, prefixLen, bounded⟩, text) else none

/-- The parsers of the `ipnet` crate, by their documented grammar: an IPv4 network is a dotted address,
whose octets may be zero-padded, a slash and a prefix length; a text with a colon can only be an IPv6
network. -/
structure IpnetGrammar where
  ipNet : List Char → Option IpNet
  ipv6Net : List Char → Option Ipv6Net
  ipv4_text : ∀ text, ':' ∉ text → ipNet text = (readToEnd readIpv4Net text).map .v4
  ipv6_text : ∀ text, ':' ∈ text → ipNet text = (ipv6Net text).map .v6

def IpnetGrammar.documented : IpnetGrammar where
  ipNet text :=
    if ':' ∈ text then (readToEnd readIpv6Net text).map .v6 else (readToEnd readIpv4Net text).map .v4
  ipv6Net := readToEnd readIpv6Net
  ipv4_text _ plain := if_neg plain
  ipv6_text _ colon := if_pos colon

-- The text of a network has a slash; for IPv4 the grammar says so already.
def IpnetGrammar.RequiresSlash (grammar : IpnetGrammar) : Prop :=
  ∀ text, '/' ∉ text → grammar.ipv6Net text = none

theorem IpnetGrammar.documented_requiresSlash : IpnetGrammar.documented.RequiresSlash := by
  intro text plain
  refine Option.eq_none_iff_forall_ne_some.mpr fun net read => plain ?_
  obtain read := (readToEnd_eq_some _ _ _).mp read
  simp only [readIpv6Net, Option.bind_eq_bind, Option.bind_eq_some_iff, Prod.exists,
    readGivenChar_eq_some] at read
  obtain ⟨addr, rest, head, _, tail, slash, _⟩ := read
  exact (readIpv6Addr_consumed head).suffix.subset (slash ▸ List.mem_cons_self)

end Ipnet

end NetAddr
