import ReputationFirewall.Firehol.Entry

set_option autoImplicit false

namespace ReputationFirewall.Firehol

open BigEndian NetAddr Text

section Families

structure Family (n : Nat) where
  ip : Octets n → IpAddr
  address : IpAddr → Option (Octets n)
  exact : Octets n → FireholIpTarget
  cidr : Nat → Octets n → FireholIpTarget
  address_eq_some : ∀ addr octets, address addr = some octets ↔ addr = ip octets
  covers_exact : ∀ octets addr, (exact octets).Covers addr ↔ addr = ip octets
  covers_cidr : ∀ prefixLen octets addr, (cidr prefixLen octets).Covers addr ↔
    ∃ own, addr = ip own ∧ SamePrefix prefixLen octets own
  range_exact : ∀ octets, (exact octets).PrefixInRange
  range_cidr : ∀ prefixLen octets, prefixLen ≤ 8 * n → (cidr prefixLen octets).PrefixInRange

def ipv4Family : Family 4 where
  ip := .v4
  address
    | .v4 octets => some octets
    | .v6 _ => none
  exact := .exactV4
  cidr := .cidrV4
  address_eq_some addr octets := by cases addr <;> simp
  covers_exact octets addr := by cases addr <;> simp [FireholIpTarget.Covers]
  covers_cidr prefixLen octets addr := by cases addr <;> simp [FireholIpTarget.Covers]
  range_exact _ := trivial
  range_cidr _ _ bounded := bounded

def ipv6Family : Family 16 where
  ip := .v6
  address
    | .v4 _ => none
    | .v6 octets => some octets
  exact := .exactV6
  cidr := .cidrV6
  address_eq_some addr octets := by cases addr <;> simp
  covers_exact octets addr := by cases addr <;> simp [FireholIpTarget.Covers]
  covers_cidr prefixLen octets addr := by cases addr <;> simp [FireholIpTarget.Covers]
  range_exact _ := trivial
  range_cidr _ _ bounded := bounded

variable {n : Nat}

def Family.target (family : Family n) (net : Net n) : FireholIpTarget :=
  if net.prefixLen = 8 * n then family.exact net.addr else family.cidr net.prefixLen net.network

theorem Family.covers_target (family : Family n) (net : Net n) (addr : IpAddr) :
    (family.target net).Covers addr ↔
      ∃ own, addr = family.ip own ∧ SamePrefix net.prefixLen net.addr own := by
  unfold Family.target
  split_ifs with full
  · simp [family.covers_exact, samePrefix_full (Nat.le_of_eq full.symm)]
  · simp [family.covers_cidr, Net.network, samePrefix_networkOf]

theorem Family.range_target (family : Family n) (net : Net n) : (family.target net).PrefixInRange := by
  unfold Family.target
  split_ifs
  · exact family.range_exact net.addr
  · exact family.range_cidr net.prefixLen net.network net.bounded

def networkTarget : IpNet → FireholIpTarget
  | .v4 net => ipv4Family.target net
  | .v6 net => ipv6Family.target net

def addressTarget : IpAddr → FireholIpTarget
  | .v4 octets => .exactV4 octets
  | .v6 octets => .exactV6 octets

end Families

section Parsers

-- A character outside ASCII fails every test that the source makes on the bytes of a token.
def scanDigits (count value : Nat) : List Char → Option (Nat × Nat × List Char)
  | [] => some (count, value, [])
  | c :: rest =>
      match toDigit 10 c with
      | none => some (count, value, c :: rest)
      | some digit =>
          if 3 < count + 1 ∨ 255 < value * 10 + digit then none
          else scanDigits (count + 1) (value * 10 + digit) rest

def scanOctet (text : List Char) : Option (UInt8 × Bool × List Char) :=
  (scanDigits 0 0 text).bind fun (count, value, rest) =>
    if count = 0 then none
    else some (UInt8.ofNat value, decide (1 < count) && text.head? == some '0', rest)

def scanDotOctet (text : List Char) : Option (UInt8 × Bool × List Char) :=
  (readGivenChar '.' text).bind fun (_, rest) => scanOctet rest

def scanIpv4 (text : List Char) : Option (Octets 4 × Bool × List Char) := do
  let (first, padFirst, text) ← scanOctet text
  let (second, padSecond, text) ← scanDotOctet text
  let (third, padThird, text) ← scanDotOctet text
  let (fourth, padFourth, text) ← scanDotOctet text
  some (ipv4Octets first second third fourth, padFirst || padSecond || padThird || padFourth, text)

def scanPrefix (suffix : List Char) : Option Nat :=
  suffix.foldlM (fun number c => (toDigit 10 c).map (number * 10 + ·)) 0

def ipv4Suffix (octets : Octets 4) (padded : Bool) : List Char → Option FireholIpTarget
  | [] => if padded then none else some (.exactV4 octets)
  | c :: suffix =>
      if c ≠ '/' then none
      else if suffix = [] ∨ 2 < suffix.length then none
      else (scanPrefix suffix).bind fun prefixLen =>
        if prefixLen = 32 then some (.exactV4 octets)
        else if prefixLen ≤ 31 then some (.cidrV4 prefixLen (networkOf prefixLen octets))
        else none

def parseIpv4Target (text : List Char) : Option FireholIpTarget :=
  (scanIpv4 text).bind fun (octets, padded, rest) => ipv4Suffix octets padded rest

def parseIpOrCidr (grammar : IpnetGrammar) (token : List Char) : Option FireholIpTarget :=
  if ':' ∉ token then parseIpv4Target token
  else if '/' ∈ token then
    (grammar.ipv6Net token).map fun net =>
      if net.prefixLen = 128 then .exactV6 net.addr else .cidrV6 net.prefixLen net.network
  else (Ipv6Addr.fromStr token).map .exactV6

end Parsers

section Agreement

theorem le_foldl_digits (digits : List Nat) (value : Nat) :
    value ≤ digits.foldl (fun number digit => number * 10 + digit) value := by
  induction digits generalizing value with
  | nil => exact le_rfl
  | cons digit rest ih => exact le_trans (by omega) (ih (value * 10 + digit))

theorem scanDigits_eq (text : List Char) {count value : Nat} (few : count ≤ 3) (small : value ≤ 255) :
    scanDigits count value text =
      if 3 < count + (spanDigits 10 text).1.length ∨
          255 < (spanDigits 10 text).1.foldl (fun number digit => number * 10 + digit) value then none
      else some (count + (spanDigits 10 text).1.length,
        (spanDigits 10 text).1.foldl (fun number digit => number * 10 + digit) value,
        (spanDigits 10 text).2) := by
  induction text generalizing count value with
  | nil => simp [scanDigits, spanDigits, few, small]
  | cons c rest ih =>
      cases digit : toDigit 10 c with
      | none => simp [scanDigits, spanDigits, digit, few, small]
      | some number =>
          have grows := le_foldl_digits (spanDigits 10 rest).1 (value * 10 + number)
          simp only [scanDigits, spanDigits, digit, List.length_cons, List.foldl_cons]
          split_ifs with early total total
          · rfl
          · omega
          · rw [ih (by omega) (by omega), if_pos (by omega)]
          · rw [ih (by omega) (by omega), if_neg (by omega)]
            congr 2
            omega

theorem toDigit_eq_zero (c : Char) : toDigit 10 c = some 0 ↔ c = '0' := by
  constructor
  · intro zero
    have code : '0' ≤ c ∧ c.toNat ≤ 48 := by
      simp only [toDigit, Char.reduceToNat] at zero
      split_ifs at zero with decimal <;> simp at zero
      exact ⟨decimal.1, by omega⟩
    have lower : 48 ≤ c.toNat := code.1
    exact Char.toNat_inj.mp (show c.toNat = 48 by omega)
  · intro same
    subst same
    rfl

theorem spanDigits_head (text : List Char) :
    ((spanDigits 10 text).1.head? == some 0) = (text.head? == some '0') := by
  cases text with
  | nil => rfl
  | cons c rest =>
      have zero := toDigit_eq_zero c
      cases digit : toDigit 10 c with
      | none =>
          have other : c ≠ '0' := fun same => by simp [digit] at zero; exact zero same
          simp [spanDigits, digit, other]
      | some number =>
          rw [digit, Option.some.injEq] at zero
          by_cases same : c = '0' <;> simp_all [spanDigits]

theorem scanOctet_eq (text : List Char) :
    scanOctet text =
      if (spanDigits 10 text).1.length = 0 ∨ 3 < (spanDigits 10 text).1.length ∨
          255 < ofDigits 10 (spanDigits 10 text).1 then none
      else some (UInt8.ofNat (ofDigits 10 (spanDigits 10 text).1),
        decide (1 < (spanDigits 10 text).1.length) && text.head? == some '0', (spanDigits 10 text).2) := by
  have digits := scanDigits_eq text (Nat.zero_le 3) (Nat.zero_le 255)
  simp only [Nat.zero_add] at digits
  rw [scanOctet, digits]
  by_cases empty : (spanDigits 10 text).1.length = 0
  · simp [List.length_eq_zero_iff.mp empty]
  · by_cases refused : 3 < (spanDigits 10 text).1.length ∨ 255 < ofDigits 10 (spanDigits 10 text).1
    · simp only [empty, false_or, if_pos refused]
      rw [if_pos (by simpa [ofDigits] using refused), Option.bind_none]
    · simp only [empty, false_or, if_neg refused]
      rw [if_neg (by simpa [ofDigits] using refused)]
      simp [empty, ofDigits]

theorem readOctet_eq (allowZeroPrefix : Bool) (text : List Char) :
    readOctet allowZeroPrefix text = (scanOctet text).bind fun (octet, padded, rest) =>
      if padded && !allowZeroPrefix then none else some (octet, rest) := by
  rw [scanOctet_eq]
  simp only [readOctet, readNumber, spanDigits_head]
  by_cases empty : (spanDigits 10 text).1.length = 0
  · simp [empty]
  · by_cases long : 3 < (spanDigits 10 text).1.length
    · simp [long]
    · by_cases large : 255 < ofDigits 10 (spanDigits 10 text).1
      · have limit : ¬ ofDigits 10 (spanDigits 10 text).1 < 256 := by omega
        simp [empty, long, large, limit]
      · have limit : ofDigits 10 (spanDigits 10 text).1 < 256 := by omega
        cases allowZeroPrefix <;> cases text.head? == some '0' <;>
          by_cases several : 1 < (spanDigits 10 text).1.length <;>
          simp [empty, long, large, limit, several]

theorem readDotOctet_eq (allowZeroPrefix : Bool) (text : List Char) :
    readDotOctet allowZeroPrefix text = (scanDotOctet text).bind fun (octet, padded, rest) =>
      if padded && !allowZeroPrefix then none else some (octet, rest) := by
  cases dot : readGivenChar '.' text <;> simp [readDotOctet, scanDotOctet, dot, readOctet_eq]

-- A refusal commutes with the scans behind it, so the four of an address are one at its end.
theorem accepted_bind {α β : Type} (refused : Bool) (value : α) (next : α → Option β) :
    (if refused then none else some value).bind next = if refused then none else next value := by
  cases refused <;> rfl

theorem refused_bind {α β : Type} (refused : Bool) (scanned : Option α) (next : α → Option β) :
    (if refused then none else scanned.bind next) =
      scanned.bind fun value => if refused then none else next value := by
  cases refused <;> simp

theorem refused_or {α : Type} (first second : Bool) (value : Option α) :
    (if first then none else if second then none else value) = if first || second then none else value := by
  cases first <;> rfl

theorem readIpv4Addr_eq (allowZeroPrefix : Bool) (text : List Char) :
    readIpv4Addr allowZeroPrefix text = (scanIpv4 text).bind fun (octets, padded, rest) =>
      if padded && !allowZeroPrefix then none else some (octets, rest) := by
  simp only [readIpv4Addr, scanIpv4, readOctet_eq, readDotOctet_eq, Option.bind_eq_bind, Option.bind_assoc,
    accepted_bind, refused_bind, refused_or, Option.bind_some, Bool.and_or_distrib_right, Bool.or_assoc]

theorem spanDigits_length (text : List Char) :
    (spanDigits 10 text).1.length + (spanDigits 10 text).2.length = text.length := by
  induction text with
  | nil => rfl
  | cons c rest ih =>
      cases digit : toDigit 10 c with
      | none => simp [spanDigits, digit]
      | some number =>
          simp only [spanDigits, digit, List.length_cons]
          omega

theorem foldlM_digits (suffix : List Char) (number : Nat) :
    suffix.foldlM (fun number c => (toDigit 10 c).map (number * 10 + ·)) number =
      if (spanDigits 10 suffix).2 = [] then
        some ((spanDigits 10 suffix).1.foldl (fun number digit => number * 10 + digit) number)
      else none := by
  induction suffix generalizing number with
  | nil => simp [spanDigits]
  | cons c rest ih => cases digit : toDigit 10 c <;> simp [spanDigits, digit, ih]

theorem ipv4Suffix_slash (octets : Octets 4) (padded : Bool) (suffix : List Char) :
    ipv4Suffix octets padded ('/' :: suffix) =
      (readToEnd (readNumber 10 2 33 true) suffix).map fun prefixLen =>
        if prefixLen = 32 then .exactV4 octets else .cidrV4 prefixLen (networkOf prefixLen octets) := by
  have length := spanDigits_length suffix
  have folded := foldlM_digits suffix 0
  by_cases partly : (spanDigits 10 suffix).2 = []
  · simp only [partly, List.length_nil, Nat.add_zero, if_true] at length folded
    by_cases refused : suffix = [] ∨ 2 < suffix.length
    · have digits : (spanDigits 10 suffix).1.length = 0 ∨ 2 < (spanDigits 10 suffix).1.length := by
        rwa [length, List.length_eq_zero_iff]
      simp only [ipv4Suffix, if_pos refused, readToEnd, readNumber, if_pos digits]
      simp
    · have digits : ¬ ((spanDigits 10 suffix).1.length = 0 ∨ 2 < (spanDigits 10 suffix).1.length) := by
        rwa [length, List.length_eq_zero_iff]
      simp only [ipv4Suffix, if_neg refused, readToEnd, readNumber, if_neg digits, scanPrefix, folded,
        partly, ofDigits]
      generalize (spanDigits 10 suffix).1.foldl (fun number digit => number * 10 + digit) 0 = number
      by_cases full : number = 32
      · simp [full]
      · by_cases proper : number ≤ 31
        · simp [full, proper, show number < 33 by omega]
        · simp [full, proper, show ¬ number < 33 by omega]
  · have unread : readToEnd (readNumber 10 2 33 true) suffix = none := by
      refine Option.eq_none_iff_forall_ne_some.mpr fun number read => partly ?_
      exact (readNumber_eq_some ((readToEnd_eq_some _ _ _).mp read)).2.1.symm
    rw [if_neg partly] at folded
    simp [ipv4Suffix, unread, scanPrefix, folded]

theorem parseIpv4Target_eq (text : List Char) :
    parseIpv4Target text =
      ((readToEnd readIpv4Net text).map ipv4Family.target).or
        ((readToEnd (readIpv4Addr false) text).map .exactV4) := by
  rcases scanned : scanIpv4 text with _ | ⟨octets, padded, rest⟩
  · simp [parseIpv4Target, readToEnd, readIpv4Net, readIpv4Addr_eq, scanned]
  cases rest with
  | nil =>
      cases padded <;>
        simp [parseIpv4Target, ipv4Suffix, readToEnd, readIpv4Net, readIpv4Addr_eq, scanned, readGivenChar]
  | cons c suffix =>
      have strict : readToEnd (readIpv4Addr false) text = none := by
        cases padded <;> simp [readToEnd, readIpv4Addr_eq, scanned]
      by_cases slash : c = '/'
      · subst slash
        simp only [parseIpv4Target, scanned, Option.bind_some, ipv4Suffix_slash, strict, Option.map_none,
          Option.or_none]
        rcases number : readNumber 10 2 33 true suffix with _ | ⟨prefixLen, rest⟩
        · simp [readToEnd, readIpv4Net, readIpv4Addr_eq, scanned, readGivenChar, number]
        · have bounded : prefixLen ≤ 32 := by
            have := (readNumber_eq_some number).2.2
            omega
          cases rest <;>
            simp [readToEnd, readIpv4Net, readIpv4Addr_eq, scanned, readGivenChar, number, bounded,
              Family.target, ipv4Family, Net.network]
      · simp [parseIpv4Target, ipv4Suffix, readToEnd, readIpv4Net, readIpv4Addr_eq, scanned, readGivenChar,
          slash]

theorem readToEnd_readIpv4Net_slash {text : List Char} (plain : '/' ∉ text) :
    readToEnd readIpv4Net text = none := by
  refine Option.eq_none_iff_forall_ne_some.mpr fun net read => plain ?_
  rw [readToEnd_eq_some] at read
  simp only [readIpv4Net, Option.bind_eq_bind, Option.bind_eq_some_iff, Prod.exists,
    readGivenChar_eq_some] at read
  obtain ⟨addr, rest, head, _, tail, slash, _⟩ := read
  exact (readIpv4Addr_consumed head).suffix.subset (slash ▸ List.mem_cons_self)

theorem readToEnd_readIpv4Addr_slash {text : List Char} (slash : '/' ∈ text) :
    readToEnd (readIpv4Addr false) text = none := by
  refine Option.eq_none_iff_forall_ne_some.mpr fun addr read => ?_
  rw [readToEnd_eq_some] at read
  exact (readIpv4Addr_consumed read).not_mem not_dottedDecimal_slash slash

theorem parseIpOrCidr_eq (grammar : IpnetGrammar) (token : List Char) :
    parseIpOrCidr grammar token =
      if '/' ∈ token then (grammar.ipNet token).map networkTarget
      else (IpAddr.fromStr token).map addressTarget := by
  by_cases colon : ':' ∈ token
  · by_cases slash : '/' ∈ token
    · simp [parseIpOrCidr, colon, slash, grammar.ipv6_text]
      rfl
    · simp [parseIpOrCidr, colon, slash, ipAddr_fromStr_ipv6]
      rfl
  · by_cases slash : '/' ∈ token
    · simp [parseIpOrCidr, colon, slash, grammar.ipv4_text, parseIpv4Target_eq,
        readToEnd_readIpv4Addr_slash]
      rfl
    · simp [parseIpOrCidr, colon, slash, ipAddr_fromStr_ipv4, parseIpv4Target_eq,
        readToEnd_readIpv4Net_slash]
      rfl

end Agreement

section Coverage

def TokenCovers (grammar : IpnetGrammar) (token : List Char) (ip : IpAddr) : Prop :=
  if '/' ∈ token then ∃ net, grammar.ipNet token = some net ∧ net.Covers ip
  else IpAddr.fromStr token = some ip

theorem networkTarget_covers (net : IpNet) (ip : IpAddr) : (networkTarget net).Covers ip ↔ net.Covers ip := by
  cases net with
  | v4 net =>
      rw [networkTarget, Family.covers_target]
      cases ip <;> simp [ipv4Family, IpNet.Covers]
  | v6 net =>
      rw [networkTarget, Family.covers_target]
      cases ip <;> simp [ipv6Family, IpNet.Covers]

theorem addressTarget_covers (addr ip : IpAddr) : (addressTarget addr).Covers ip ↔ addr = ip := by
  cases addr <;> cases ip <;> simp [addressTarget, FireholIpTarget.Covers, eq_comm]

theorem parseIpOrCidr_covers {grammar : IpnetGrammar} {token : List Char} {single : FireholIpTarget}
    (parsed : parseIpOrCidr grammar token = some single) (ip : IpAddr) :
    single.Covers ip ↔ TokenCovers grammar token ip := by
  rw [parseIpOrCidr_eq] at parsed
  by_cases slash : '/' ∈ token
  · simp only [slash, if_true, Option.map_eq_some_iff] at parsed
    obtain ⟨net, read, rfl⟩ := parsed
    simp [TokenCovers, slash, read, networkTarget_covers]
  · simp only [slash, if_false, Option.map_eq_some_iff] at parsed
    obtain ⟨addr, read, rfl⟩ := parsed
    simp [TokenCovers, slash, read, addressTarget_covers]

def FireholIpTarget.Canonical : FireholIpTarget → Prop
  | .cidrV4 prefixLen addr => networkOf prefixLen addr = addr
  | .cidrV6 prefixLen addr => networkOf prefixLen addr = addr
  | _ => True

theorem networkOf_eq_iff {n : Nat} {prefixLen : Nat} {addr : Octets n}
    (canonical : networkOf prefixLen addr = addr) (ip : Octets n) :
    Prefix.network prefixLen (fromBeBytes ip) = fromBeBytes addr ↔ SamePrefix prefixLen addr ip := by
  have own : Prefix.network prefixLen (fromBeBytes addr) = fromBeBytes addr := by
    rw [← congrArg fromBeBytes canonical, networkOf, fromBeBytes_toBeBytes, Prefix.network_idem]
  nth_rewrite 1 [← own]
  rw [Prefix.network_eq_iff, Prefix.agree_comm, SamePrefix]

theorem containsIp_iff {target : FireholIpTarget} (canonical : target.Canonical) (ip : IpAddr) :
    target.containsIp ip = true ↔ target.Covers ip := by
  cases target <;> cases ip <;>
    simp only [FireholIpTarget.containsIp, FireholIpTarget.Covers, beq_iff_eq, Bool.false_eq_true] <;>
    first
      | exact eq_comm
      | exact networkOf_eq_iff canonical _

theorem networkOf_idem {n : Nat} (prefixLen : Nat) (addr : Octets n) :
    networkOf prefixLen (networkOf prefixLen addr) = networkOf prefixLen addr := by
  simp [networkOf, Prefix.network_idem]

theorem networkTarget_canonical (net : IpNet) : (networkTarget net).Canonical := by
  cases net <;> simp only [networkTarget, Family.target, ipv4Family, ipv6Family] <;> split_ifs <;>
    first
      | exact trivial
      | exact networkOf_idem _ _

theorem parseIpOrCidr_canonical {grammar : IpnetGrammar} {token : List Char} {single : FireholIpTarget}
    (parsed : parseIpOrCidr grammar token = some single) : single.Canonical := by
  rw [parseIpOrCidr_eq] at parsed
  split_ifs at parsed <;> rw [Option.map_eq_some_iff] at parsed
  · obtain ⟨net, _, rfl⟩ := parsed
    exact networkTarget_canonical net
  · obtain ⟨addr, _, rfl⟩ := parsed
    cases addr <;> exact trivial

theorem addressTarget_range (addr : IpAddr) : (addressTarget addr).PrefixInRange := by
  cases addr <;> exact trivial

theorem parseIpOrCidr_range {grammar : IpnetGrammar} {token : List Char} {single : FireholIpTarget}
    (parsed : parseIpOrCidr grammar token = some single) : single.PrefixInRange := by
  rw [parseIpOrCidr_eq] at parsed
  split_ifs at parsed <;> rw [Option.map_eq_some_iff] at parsed
  · obtain ⟨net, _, rfl⟩ := parsed
    cases net with
    | v4 net => exact ipv4Family.range_target net
    | v6 net => exact ipv6Family.range_target net
  · obtain ⟨addr, _, rfl⟩ := parsed
    exact addressTarget_range addr

end Coverage

end ReputationFirewall.Firehol
