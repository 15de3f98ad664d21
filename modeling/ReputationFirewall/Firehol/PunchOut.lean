import ReputationFirewall.Firehol.Targets

set_option autoImplicit false

namespace ReputationFirewall.Firehol

open BigEndian NetAddr Text

section Exclusion

variable {n : Nat}

def splitAround (target : Octets n) (current : Net n) : List (Net n) :=
  if shorter : current.prefixLen < 8 * n then
    let half0 : Net n := ⟨current.network, current.prefixLen + 1, shorter⟩
    let half1 : Net n :=
      ⟨toBeBytes (Prefix.upperHalf current.prefixLen (fromBeBytes current.addr)),
        current.prefixLen + 1, shorter⟩
    if half0.contains target then half1 :: splitAround target half0
    else half0 :: splitAround target half1
  else []
termination_by 8 * n - current.prefixLen

def excludeFromCidr (net : Net n) (target : Octets n) : List (Net n) :=
  if net.contains target then splitAround target net else [net]

def excludeV4FromCidr (net : Ipv4Net) (target : Octets 4) : List Ipv4Net := excludeFromCidr net target

def excludeV6FromCidr (net : Ipv6Net) (target : Octets 16) : List Ipv6Net := excludeFromCidr net target

theorem contains_halves {net : Net n} (shorter : net.prefixLen < 8 * n) (addr : Octets n) :
    net.contains addr = true ↔
      (⟨net.network, net.prefixLen + 1, shorter⟩ : Net n).contains addr = true ∨
        (⟨toBeBytes (Prefix.upperHalf net.prefixLen (fromBeBytes net.addr)),
          net.prefixLen + 1, shorter⟩ : Net n).contains addr = true := by
  have halves := Prefix.agree_iff_halves shorter (fromBeBytes net.addr) (fromBeBytes addr)
  simpa [SamePrefix, Net.network, networkOf] using halves

theorem contains_disjoint {net : Net n} (shorter : net.prefixLen < 8 * n) (addr : Octets n)
    (lower : (⟨net.network, net.prefixLen + 1, shorter⟩ : Net n).contains addr = true) :
    (⟨toBeBytes (Prefix.upperHalf net.prefixLen (fromBeBytes net.addr)),
      net.prefixLen + 1, shorter⟩ : Net n).contains addr = false := by
  have apart := Prefix.halves_disjoint shorter (fromBeBytes net.addr) (fromBeBytes addr)
    (by simpa [SamePrefix, Net.network, networkOf] using lower)
  simpa [Net.contains, SamePrefix] using apart

-- What is kept and what is still to be split always make up the network.
theorem splitAround_covers (target : Octets n) (current : Net n)
    (inside : current.contains target = true) (addr : Octets n) :
    (∃ sub ∈ splitAround target current, sub.contains addr = true) ↔
      current.contains addr = true ∧ addr ≠ target := by
  fun_induction splitAround target current with
  | case1 current shorter half0 half1 lower ih =>
      have apart : half1.contains target = false := contains_disjoint shorter target lower
      have halves : current.contains addr = true ↔ half0.contains addr = true ∨ half1.contains addr = true :=
        contains_halves shorter addr
      simp only [List.mem_cons, exists_eq_or_imp, ih lower, halves]
      grind
  | case2 current shorter half0 half1 upper ih =>
      have halves (addr : Octets n) : current.contains addr = true ↔
          half0.contains addr = true ∨ half1.contains addr = true := contains_halves shorter addr
      have right : half1.contains target = true := ((halves target).mp inside).resolve_left upper
      simp only [List.mem_cons, exists_eq_or_imp, ih right, halves]
      grind
  | case3 current full =>
      have whole : 8 * n ≤ current.prefixLen := Nat.le_of_not_lt full
      simp only [Net.contains_iff, samePrefix_full whole] at inside ⊢
      grind

theorem excludeFromCidr_covers (net : Net n) (target addr : Octets n) :
    (∃ sub ∈ excludeFromCidr net target, sub.contains addr = true) ↔
      net.contains addr = true ∧ addr ≠ target := by
  by_cases inside : net.contains target = true
  · simpa [excludeFromCidr, inside] using splitAround_covers target net inside addr
  · simp only [excludeFromCidr, inside]
    grind

end Exclusion

section Ignoring

variable {n : Nat}

def punchStep (family : Family n) (net : Net n) (state : Bool × List (Net n)) (ignored : IpAddr) :
    Bool × List (Net n) :=
  match family.address ignored with
  | some octets =>
      if net.contains octets then (true, state.2.flatMap (excludeFromCidr · octets)) else state
  | none => state

def punchOut (family : Family n) (net : Net n) (ignoreIps : List IpAddr) : Bool × List (Net n) :=
  ignoreIps.foldl (punchStep family net) (false, [net])

def networkTargets (family : Family n) (net : Net n) (ignoreIps : List IpAddr) : List FireholIpTarget :=
  if net.prefixLen = 8 * n then
    if family.ip net.addr ∈ ignoreIps then [] else [family.exact net.addr]
  else if (punchOut family net ignoreIps).1 then (punchOut family net ignoreIps).2.map family.target
  else [family.cidr net.prefixLen net.network]

def parseIpOrCidrWithIgnore (grammar : IpnetGrammar) (ignoreIps : List IpAddr) (token : List Char) :
    Option (List FireholIpTarget) :=
  if '/' ∈ token then
    match grammar.ipNet token with
    | some (.v4 net) => some (networkTargets ipv4Family net ignoreIps)
    | some (.v6 net) => some (networkTargets ipv6Family net ignoreIps)
    | none => none
  else
    match IpAddr.fromStr token with
    | some addr => if addr ∈ ignoreIps then some [] else some [addressTarget addr]
    | none => none

theorem Family.ip_injective (family : Family n) {left right : Octets n}
    (same : family.ip left = family.ip right) : left = right := by
  have first := (family.address_eq_some (family.ip left) left).mpr rfl
  have second := (family.address_eq_some (family.ip left) right).mpr same
  exact Option.some.inj (first.symm.trans second)

theorem punchOut_concat (family : Family n) (net : Net n) (earlier : List IpAddr) (ignored : IpAddr) :
    punchOut family net (earlier ++ [ignored]) = punchStep family net (punchOut family net earlier) ignored := by
  simp [punchOut, List.foldl_append]

theorem punchStep_cases (family : Family n) (net : Net n) (state : Bool × List (Net n)) (ignored : IpAddr) :
    (∃ octets, ignored = family.ip octets ∧ net.contains octets = true ∧
        punchStep family net state ignored = (true, state.2.flatMap (excludeFromCidr · octets))) ∨
      (∀ octets, net.contains octets = true → family.ip octets ≠ ignored) ∧
        punchStep family net state ignored = state := by
  have known := family.address_eq_some ignored
  cases address : family.address ignored with
  | none =>
      refine Or.inr ⟨fun octets _ same => ?_, by simp [punchStep, address]⟩
      simpa [address] using (known octets).mpr same.symm
  | some octets =>
      have own := (known octets).mp address
      by_cases inside : net.contains octets = true
      · exact Or.inl ⟨octets, own, inside, by simp [punchStep, address, inside]⟩
      · refine Or.inr ⟨fun other within same => ?_, by simp [punchStep, address, inside]⟩
        exact inside (family.ip_injective (same.trans own) ▸ within)

theorem punchStep_covers (family : Family n) (net : Net n) (state : Bool × List (Net n))
    (ignored : IpAddr) (within : ∀ sub ∈ state.2, ∀ addr, sub.contains addr = true → net.contains addr = true)
    (addr : Octets n) :
    (∃ sub ∈ (punchStep family net state ignored).2, sub.contains addr = true) ↔
      (∃ sub ∈ state.2, sub.contains addr = true) ∧ family.ip addr ≠ ignored := by
  obtain ⟨octets, rfl, inside, stepped⟩ | ⟨foreign, stepped⟩ := punchStep_cases family net state ignored
  · have same : family.ip addr = family.ip octets ↔ addr = octets :=
      ⟨family.ip_injective, congrArg _⟩
    have excluded := fun sub => excludeFromCidr_covers sub octets addr
    simp only [stepped, List.mem_flatMap, ne_eq, same]
    constructor
    · intro covered
      obtain ⟨piece, ⟨sub, member, part⟩, inPiece⟩ := covered
      obtain ⟨inSub, other⟩ := (excluded sub).mp ⟨piece, part, inPiece⟩
      exact ⟨⟨sub, member, inSub⟩, other⟩
    · intro covered
      obtain ⟨⟨sub, member, inSub⟩, other⟩ := covered
      obtain ⟨piece, part, inPiece⟩ := (excluded sub).mpr ⟨inSub, other⟩
      exact ⟨piece, ⟨sub, member, part⟩, inPiece⟩
  · rw [stepped]
    constructor
    · intro covered
      obtain ⟨sub, member, inSub⟩ := covered
      exact ⟨⟨sub, member, inSub⟩, foreign addr (within sub member addr inSub)⟩
    · exact fun covered => covered.1

theorem punchOut_covers (family : Family n) (net : Net n) (ignoreIps : List IpAddr) (addr : Octets n) :
    (∃ sub ∈ (punchOut family net ignoreIps).2, sub.contains addr = true) ↔
      net.contains addr = true ∧ family.ip addr ∉ ignoreIps := by
  induction ignoreIps using List.reverseRecOn generalizing addr with
  | nil => simp [punchOut]
  | append_singleton earlier ignored ih =>
      have within : ∀ sub ∈ (punchOut family net earlier).2, ∀ addr,
          sub.contains addr = true → net.contains addr = true :=
        fun sub member addr covered => ((ih addr).mp ⟨sub, member, covered⟩).1
      rw [punchOut_concat, punchStep_covers family net _ ignored within, ih]
      simp [and_assoc]

theorem punchOut_matched (family : Family n) (net : Net n) (ignoreIps : List IpAddr) :
    (punchOut family net ignoreIps).1 = true ↔
      ∃ octets, family.ip octets ∈ ignoreIps ∧ net.contains octets = true := by
  induction ignoreIps using List.reverseRecOn with
  | nil => simp [punchOut]
  | append_singleton earlier ignored ih =>
      rw [punchOut_concat]
      obtain ⟨octets, rfl, inside, stepped⟩ | ⟨foreign, stepped⟩ :=
        punchStep_cases family net (punchOut family net earlier) ignored
      · simp only [stepped, true_iff]
        exact ⟨octets, by simp, inside⟩
      · rw [stepped, ih]
        refine exists_congr fun octets => and_congr_left fun inside => ?_
        simp [foreign octets inside]

theorem networkTargets_covers (family : Family n) (net : Net n) (ignoreIps : List IpAddr) (ip : IpAddr) :
    (∃ target ∈ networkTargets family net ignoreIps, target.Covers ip) ↔
      (∃ own, ip = family.ip own ∧ SamePrefix net.prefixLen net.addr own) ∧ ip ∉ ignoreIps := by
  unfold networkTargets
  split_ifs with full ignored matched
  · have own : ∀ addr, SamePrefix net.prefixLen net.addr addr ↔ net.addr = addr :=
      samePrefix_full (Nat.le_of_eq full.symm) net.addr
    simp only [own]
    grind
  · have own : ∀ addr, SamePrefix net.prefixLen net.addr addr ↔ net.addr = addr :=
      samePrefix_full (Nat.le_of_eq full.symm) net.addr
    simp only [own, List.mem_singleton, exists_eq_left, family.covers_exact]
    grind
  · have covers := punchOut_covers family net ignoreIps
    simp only [Net.contains_iff] at covers
    simp only [List.mem_map, exists_exists_and_eq_and, family.covers_target]
    constructor
    · intro covered
      obtain ⟨sub, member, own, rfl, inside⟩ := covered
      obtain ⟨inNet, kept⟩ := (covers own).mp ⟨sub, member, inside⟩
      exact ⟨⟨own, rfl, inNet⟩, kept⟩
    · intro covered
      obtain ⟨⟨own, rfl, inNet⟩, kept⟩ := covered
      obtain ⟨sub, member, inside⟩ := (covers own).mpr ⟨inNet, kept⟩
      exact ⟨sub, member, own, rfl, inside⟩
  · have none := punchOut_matched family net ignoreIps
    simp only [List.mem_singleton, exists_eq_left, family.covers_cidr, Net.network, samePrefix_networkOf]
    simp only [Net.contains_iff] at none
    grind

theorem parseIpOrCidrWithIgnore_covers {grammar : IpnetGrammar} {ignoreIps : List IpAddr}
    {token : List Char} {targets : List FireholIpTarget}
    (parsed : parseIpOrCidrWithIgnore grammar ignoreIps token = some targets) (ip : IpAddr) :
    (∃ target ∈ targets, target.Covers ip) ↔ TokenCovers grammar token ip ∧ ip ∉ ignoreIps := by
  by_cases slash : '/' ∈ token
  · cases network : grammar.ipNet token with
    | none => simp [parseIpOrCidrWithIgnore, slash, network] at parsed
    | some net =>
        simp only [TokenCovers, slash, if_true, network, Option.some.injEq, exists_eq_left']
        cases net with
        | v4 net =>
            obtain rfl : networkTargets ipv4Family net ignoreIps = targets := by
              simpa [parseIpOrCidrWithIgnore, slash, network] using parsed
            rw [networkTargets_covers]
            cases ip <;> simp [ipv4Family, IpNet.Covers]
        | v6 net =>
            obtain rfl : networkTargets ipv6Family net ignoreIps = targets := by
              simpa [parseIpOrCidrWithIgnore, slash, network] using parsed
            rw [networkTargets_covers]
            cases ip <;> simp [ipv6Family, IpNet.Covers]
  · cases single : IpAddr.fromStr token with
    | none => simp [parseIpOrCidrWithIgnore, slash, single] at parsed
    | some addr =>
        simp only [TokenCovers, slash, if_false, single, Option.some.injEq]
        simp only [parseIpOrCidrWithIgnore, slash, if_false, single] at parsed
        split_ifs at parsed with ignored
        · cases parsed
          grind
        · cases parsed
          simp only [List.mem_singleton, exists_eq_left, addressTarget_covers]
          grind

theorem networkTargets_range (family : Family n) (net : Net n) (ignoreIps : List IpAddr) :
    ∀ target ∈ networkTargets family net ignoreIps, target.PrefixInRange := by
  unfold networkTargets
  split_ifs
  · simp
  · simpa using family.range_exact net.addr
  · simpa using fun sub _ => family.range_target sub
  · simpa using family.range_cidr net.prefixLen net.network net.bounded

theorem parseIpOrCidrWithIgnore_range {grammar : IpnetGrammar} {ignoreIps : List IpAddr}
    {token : List Char} {targets : List FireholIpTarget}
    (parsed : parseIpOrCidrWithIgnore grammar ignoreIps token = some targets) :
    ∀ target ∈ targets, target.PrefixInRange := by
  unfold parseIpOrCidrWithIgnore at parsed
  split_ifs at parsed
  · split at parsed
    · next net _ =>
      cases parsed
      exact networkTargets_range ipv4Family net ignoreIps
    · next net _ =>
      cases parsed
      exact networkTargets_range ipv6Family net ignoreIps
    · simp at parsed
  · split at parsed
    · next addr _ =>
      split_ifs at parsed <;> cases parsed
      · simp
      · simpa using addressTarget_range addr
    · simp at parsed

theorem parseIpOrCidrWithIgnore_isSome (grammar : IpnetGrammar) (ignoreIps : List IpAddr)
    (token : List Char) :
    (parseIpOrCidrWithIgnore grammar ignoreIps token).isSome = (parseIpOrCidr grammar token).isSome := by
  rw [parseIpOrCidr_eq, parseIpOrCidrWithIgnore]
  split_ifs
  · rcases grammar.ipNet token with _ | _ | _ <;> rfl
  · rcases IpAddr.fromStr token with _ | addr
    · rfl
    · by_cases ignored : addr ∈ ignoreIps <;> simp [ignored]

end Ignoring

end ReputationFirewall.Firehol
