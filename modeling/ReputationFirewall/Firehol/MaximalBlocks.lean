import ReputationFirewall.Firehol.PunchOut

set_option autoImplicit false

namespace ReputationFirewall.Firehol

open BigEndian NetAddr

section Specification

def FireholIpTarget.Normal : FireholIpTarget → Prop
  | .cidrV4 prefixLen net => prefixLen < 32 ∧ networkOf prefixLen net = net
  | .cidrV6 prefixLen net => prefixLen < 128 ∧ networkOf prefixLen net = net
  | .exactV4 _ | .exactV6 _ => True

variable (net : IpNet) (ignoreIps : List IpAddr)

structure CleanBlock (target : FireholIpTarget) : Prop where
  normal : target.Normal
  within : ∀ ip, target.Covers ip → net.Covers ip
  clean : ∀ ip, target.Covers ip → ip ∉ ignoreIps

structure MaximalBlock (target : FireholIpTarget) : Prop extends CleanBlock net ignoreIps target where
  maximal : ∀ other, CleanBlock net ignoreIps other → (∀ ip, target.Covers ip → other.Covers ip) → other = target

end Specification

section Splitting

variable {n : Nat}

def Net.LargestIn (block : Net n) (set : Set (BitVec (8 * n))) : Prop :=
  Prefix.Largest block.prefixLen (fromBeBytes block.addr) set

def Net.Apart (left right : Net n) : Prop := ∀ addr, left.contains addr = true → right.contains addr = false

variable {target : Octets n} {set : Set (BitVec (8 * n))}

-- The half without the target cannot be widened, since the other half has it.
theorem largest_half {current half : Net n} (inside : current.contains target = true)
    (within : ∀ addr, half.contains addr = true → current.contains addr = true)
    (apart : half.contains target = false) (length : half.prefixLen = current.prefixLen + 1)
    (holds : ∀ addr, current.contains addr = true → addr ≠ target → fromBeBytes addr ∈ set)
    (gone : fromBeBytes target ∉ set) : Net.LargestIn half set where
  inside := by
    intro other own
    have member : half.contains (toBeBytes other) = true := by simpa [SamePrefix] using own
    have different : toBeBytes other ≠ target := by
      intro same
      rw [same, apart] at member
      exact Bool.false_ne_true member
    simpa using holds _ (within _ member) different
  largest := by
    intro shorter less wider
    have own : SamePrefix current.prefixLen current.addr half.addr := by
      simpa using within half.addr (by simp [SamePrefix])
    have other : SamePrefix current.prefixLen current.addr target := by simpa using inside
    exact gone (wider _ (((Prefix.agree_comm.mp own).trans other).mono (by omega)))

theorem splitAround_largest (current : Net n) (inside : current.contains target = true)
    (holds : ∀ addr, current.contains addr = true → addr ≠ target → fromBeBytes addr ∈ set)
    (gone : fromBeBytes target ∉ set) : ∀ sub ∈ splitAround target current, Net.LargestIn sub set := by
  fun_induction splitAround target current with
  | case1 current shorter half0 half1 lower ih =>
      have halves (addr : Octets n) : current.contains addr = true ↔
          half0.contains addr = true ∨ half1.contains addr = true := contains_halves shorter addr
      intro sub member
      cases member with
      | head =>
          exact largest_half inside (fun addr own => (halves addr).mpr (Or.inr own))
            (contains_disjoint shorter target lower) rfl holds gone
      | tail _ member => exact ih lower (fun addr own => holds addr ((halves addr).mpr (Or.inl own))) sub member
  | case2 current shorter half0 half1 upper ih =>
      have halves (addr : Octets n) : current.contains addr = true ↔
          half0.contains addr = true ∨ half1.contains addr = true := contains_halves shorter addr
      have right : half1.contains target = true := ((halves target).mp inside).resolve_left upper
      intro sub member
      cases member with
      | head =>
          exact largest_half inside (fun addr own => (halves addr).mpr (Or.inl own))
            (Bool.eq_false_of_not_eq_true upper) rfl holds gone
      | tail _ member => exact ih right (fun addr own => holds addr ((halves addr).mpr (Or.inr own))) sub member
  | case3 => simp

theorem splitAround_apart (current : Net n) (inside : current.contains target = true) :
    (splitAround target current).Pairwise Net.Apart := by
  fun_induction splitAround target current with
  | case1 current shorter half0 half1 lower ih =>
      refine List.pairwise_cons.mpr ⟨fun sub member addr own => ?_, ih lower⟩
      by_contra part
      have first := (splitAround_covers target half0 lower addr).mp ⟨sub, member, by simpa using part⟩
      rw [contains_disjoint shorter addr first.1] at own
      exact absurd own Bool.false_ne_true
  | case2 current shorter half0 half1 upper ih =>
      have right : half1.contains target = true :=
        ((contains_halves shorter target).mp inside).resolve_left upper
      refine List.pairwise_cons.mpr ⟨fun sub member addr own => ?_, ih right⟩
      by_contra part
      have second := (splitAround_covers target half1 right addr).mp ⟨sub, member, by simpa using part⟩
      rw [contains_disjoint shorter addr own] at second
      exact absurd second.1 Bool.false_ne_true
  | case3 => exact List.Pairwise.nil

end Splitting

section Pieces

variable {n : Nat} (family : Family n) (net : Net n)

def keptAddrs (ignoreIps : List IpAddr) : Set (BitVec (8 * n)) :=
  {addr | net.contains (toBeBytes addr) = true ∧ family.ip (toBeBytes addr) ∉ ignoreIps}

variable {family net} {ignoreIps : List IpAddr}

theorem mem_keptAddrs (addr : Octets n) :
    fromBeBytes addr ∈ keptAddrs family net ignoreIps ↔ net.contains addr = true ∧ family.ip addr ∉ ignoreIps := by
  simp [keptAddrs]

theorem inside_iff (block : Net n) :
    Prefix.Inside block.prefixLen (fromBeBytes block.addr) (keptAddrs family net ignoreIps) ↔
      ∀ addr, block.contains addr = true → net.contains addr = true ∧ family.ip addr ∉ ignoreIps := by
  constructor
  · intro inside addr own
    exact (mem_keptAddrs addr).mp (inside _ (by simpa [SamePrefix] using own))
  · intro kept other own
    exact kept (toBeBytes other) (by simpa [SamePrefix] using own)

theorem network_largest : Net.LargestIn net (keptAddrs family net []) where
  inside := (inside_iff net).mpr fun addr own => ⟨own, List.not_mem_nil⟩
  largest := by
    intro shorter less wider
    have within : ∀ addr, Prefix.Agree shorter (fromBeBytes net.addr) addr →
        Prefix.Agree net.prefixLen (fromBeBytes net.addr) addr := by
      intro addr own
      simpa [keptAddrs, SamePrefix] using wider addr own
    have longer := ((Prefix.agree_subset_iff net.bounded _ _).mp within).1
    omega

theorem keptAddrs_concat (ignored : IpAddr) :
    keptAddrs family net (ignoreIps ++ [ignored]) =
      keptAddrs family net ignoreIps ∩ {addr | family.ip (toBeBytes addr) ≠ ignored} := by
  ext addr
  simp [keptAddrs, and_assoc]

theorem excludeFromCidr_largest {earlier : Set (BitVec (8 * n))} {octets : Octets n} {block : Net n}
    (largest : Net.LargestIn block earlier) :
    ∀ sub ∈ excludeFromCidr block octets, Net.LargestIn sub (earlier ∩ {addr | toBeBytes addr ≠ octets}) := by
  unfold excludeFromCidr
  split_ifs with inside
  · refine splitAround_largest block inside ?_ (by simp)
    intro addr own different
    exact ⟨largest.inside _ (by simpa [SamePrefix] using own), by simpa using different⟩
  · intro sub member
    cases List.mem_singleton.mp member
    constructor
    · intro other own
      refine ⟨largest.inside other own, fun same => inside ?_⟩
      subst same
      simpa [SamePrefix] using own
    · intro shorter less wider
      exact largest.largest shorter less fun other own => (wider other own).1

theorem punchOut_largest : ∀ sub ∈ (punchOut family net ignoreIps).2,
    Net.LargestIn sub (keptAddrs family net ignoreIps) := by
  induction ignoreIps using List.reverseRecOn with
  | nil =>
      intro sub member
      cases List.mem_singleton.mp member
      exact network_largest
  | append_singleton earlier ignored ih =>
      rw [punchOut_concat, keptAddrs_concat]
      obtain ⟨octets, rfl, inside, stepped⟩ | ⟨foreign, stepped⟩ :=
        punchStep_cases family net (punchOut family net earlier) ignored
      · have same : {addr | family.ip (toBeBytes addr) ≠ family.ip octets} = {addr | toBeBytes addr ≠ octets} := by
          ext addr
          exact not_congr ⟨family.ip_injective, congrArg _⟩
        rw [stepped, same]
        intro sub member
        obtain ⟨block, listed, part⟩ := List.mem_flatMap.mp member
        exact excludeFromCidr_largest (ih block listed) sub part
      · have kept : keptAddrs family net earlier ∩ {addr | family.ip (toBeBytes addr) ≠ ignored} =
            keptAddrs family net earlier :=
          Set.inter_eq_left.mpr fun addr own => foreign _ own.1
        rw [stepped, kept]
        exact ih

theorem excludeFromCidr_apart (block : Net n) (octets : Octets n) :
    (excludeFromCidr block octets).Pairwise Net.Apart := by
  unfold excludeFromCidr
  split_ifs with inside
  · exact splitAround_apart block inside
  · exact List.pairwise_singleton _ _

theorem punchOut_apart : (punchOut family net ignoreIps).2.Pairwise Net.Apart := by
  induction ignoreIps using List.reverseRecOn with
  | nil => exact List.pairwise_singleton _ _
  | append_singleton earlier ignored ih =>
      rw [punchOut_concat]
      obtain ⟨octets, _, _, stepped⟩ | ⟨_, stepped⟩ :=
        punchStep_cases family net (punchOut family net earlier) ignored
      · rw [stepped]
        refine List.pairwise_flatMap.mpr ⟨fun block _ => excludeFromCidr_apart block octets, ih.imp ?_⟩
        -- Parts of two blocks meet only where the blocks do.
        intro left right apart part inLeft other inRight addr own
        by_contra shared
        have first := ((excludeFromCidr_covers left octets addr).mp ⟨part, inLeft, own⟩).1
        have second := ((excludeFromCidr_covers right octets addr).mp ⟨other, inRight, by simpa using shared⟩).1
        rw [apart addr first] at second
        exact Bool.false_ne_true second
      · rw [stepped]
        exact ih

theorem punchOut_unmatched (quiet : (punchOut family net ignoreIps).1 = false) :
    (punchOut family net ignoreIps).2 = [net] := by
  induction ignoreIps using List.reverseRecOn with
  | nil => rfl
  | append_singleton earlier ignored ih =>
      rw [punchOut_concat] at quiet ⊢
      obtain ⟨octets, _, _, stepped⟩ | ⟨_, stepped⟩ :=
        punchStep_cases family net (punchOut family net earlier) ignored
      · rw [stepped] at quiet
        exact absurd quiet nofun
      · rw [stepped] at quiet ⊢
        exact ih quiet

theorem networkTargets_eq :
    networkTargets family net ignoreIps = (punchOut family net ignoreIps).2.map family.target := by
  have alone (unmatched : (punchOut family net ignoreIps).1 = false) :
      (punchOut family net ignoreIps).2.map family.target = [family.target net] := by
    rw [punchOut_unmatched unmatched, List.map_singleton]
  unfold networkTargets
  split_ifs with full ignored matched
  · have none : (punchOut family net ignoreIps).2 = [] := by
      apply List.eq_nil_iff_forall_not_mem.mpr
      intro sub member
      have kept := (punchOut_covers family net ignoreIps sub.addr).mp ⟨sub, member, by simp [SamePrefix]⟩
      rw [Net.contains_iff, samePrefix_full (Nat.le_of_eq full.symm)] at kept
      exact kept.2 (kept.1 ▸ ignored)
    rw [none, List.map_nil]
  · rw [alone, Family.target, if_pos full]
    apply Bool.eq_false_of_not_eq_true
    rw [punchOut_matched]
    rintro ⟨octets, listed, inside⟩
    rw [Net.contains_iff, samePrefix_full (Nat.le_of_eq full.symm)] at inside
    exact ignored (inside ▸ listed)
  · rfl
  · rw [alone (Bool.eq_false_of_not_eq_true matched), Family.target, if_neg full]

end Pieces

section Targets

variable {n : Nat} {family : Family n} {net : Net n} {ignoreIps : List IpAddr}

theorem Family.covers_own (block : Net n) (own : Octets n) :
    (family.target block).Covers (family.ip own) ↔ block.contains own = true := by
  rw [family.covers_target, Net.contains_iff]
  constructor
  · rintro ⟨other, same, agree⟩
    cases family.ip_injective same
    exact agree
  · intro agree
    exact ⟨own, rfl, agree⟩

theorem Family.target_congr {left right : Net n} (length : left.prefixLen = right.prefixLen)
    (agree : SamePrefix left.prefixLen left.addr right.addr) : family.target left = family.target right := by
  unfold Family.target
  rw [← length]
  split_ifs with full
  · rw [(samePrefix_full (Nat.le_of_eq full.symm) _ _).mp agree]
  · rw [Net.network, Net.network, ← length, (samePrefix_iff_networkOf _ _ _).mp agree]

theorem networkTargets_nodup : (networkTargets family net ignoreIps).Nodup := by
  rw [networkTargets_eq]
  refine List.pairwise_map.mpr (punchOut_apart.imp ?_)
  intro left right apart same
  have own : left.contains left.addr = true := by simp [SamePrefix]
  have shared : right.contains left.addr = true := by
    rw [← family.covers_own, ← same, family.covers_own]
    exact own
  rw [apart left.addr own] at shared
  exact Bool.false_ne_true shared

theorem FireholIpTarget.covers_some (target : FireholIpTarget) : ∃ ip, target.Covers ip := by
  cases target with
  | exactV4 addr => exact ⟨.v4 addr, rfl⟩
  | exactV6 addr => exact ⟨.v6 addr, rfl⟩
  | cidrV4 prefixLen addr => exact ⟨.v4 addr, Prefix.agree_refl _ _⟩
  | cidrV6 prefixLen addr => exact ⟨.v6 addr, Prefix.agree_refl _ _⟩

structure Family.Describes (family : Family n) (wrap : Net n → IpNet) : Prop where
  covers : ∀ net own, (wrap net).Covers (family.ip own) ↔ net.contains own = true
  own : ∀ net ip, (wrap net).Covers ip → ∃ own, ip = family.ip own
  normal : ∀ block, (family.target block).Normal
  target : ∀ target own, target.Normal → target.Covers (family.ip own) → ∃ block, target = family.target block

theorem ipv4Family_describes : ipv4Family.Describes .v4 where
  covers net own := (Net.contains_iff net own).symm
  own := by
    intro net ip covers
    cases ip with
    | v4 own => exact ⟨own, rfl⟩
    | v6 => exact covers.elim
  normal := by
    intro block
    unfold Family.target
    split_ifs with full
    · exact trivial
    · exact ⟨Nat.lt_of_le_of_ne block.bounded full, networkOf_idem _ _⟩
  target := by
    intro target own normal covers
    cases target with
    | exactV4 addr => exact ⟨⟨addr, 32, Nat.le_refl _⟩, rfl⟩
    | cidrV4 prefixLen addr =>
        obtain ⟨short, canonical⟩ := normal
        refine ⟨⟨addr, prefixLen, short.le⟩, ?_⟩
        rw [Family.target, if_neg (Nat.ne_of_lt short)]
        exact congrArg (FireholIpTarget.cidrV4 prefixLen) canonical.symm
    | exactV6 | cidrV6 => exact covers.elim

theorem ipv6Family_describes : ipv6Family.Describes .v6 where
  covers net own := (Net.contains_iff net own).symm
  own := by
    intro net ip covers
    cases ip with
    | v6 own => exact ⟨own, rfl⟩
    | v4 => exact covers.elim
  normal := by
    intro block
    unfold Family.target
    split_ifs with full
    · exact trivial
    · exact ⟨Nat.lt_of_le_of_ne block.bounded full, networkOf_idem _ _⟩
  target := by
    intro target own normal covers
    cases target with
    | exactV6 addr => exact ⟨⟨addr, 128, Nat.le_refl _⟩, rfl⟩
    | cidrV6 prefixLen addr =>
        obtain ⟨short, canonical⟩ := normal
        refine ⟨⟨addr, prefixLen, short.le⟩, ?_⟩
        rw [Family.target, if_neg (Nat.ne_of_lt short)]
        exact congrArg (FireholIpTarget.cidrV6 prefixLen) canonical.symm
    | exactV4 | cidrV4 => exact covers.elim

variable {wrap : Net n → IpNet} (describes : family.Describes wrap)

include describes

theorem Family.Describes.clean_iff (target : FireholIpTarget) :
    CleanBlock (wrap net) ignoreIps target ↔ ∃ block, target = family.target block ∧
      Prefix.Inside block.prefixLen (fromBeBytes block.addr) (keptAddrs family net ignoreIps) := by
  constructor
  · intro block
    obtain ⟨ip, covered⟩ := target.covers_some
    obtain ⟨own, rfl⟩ := describes.own net ip (block.within ip covered)
    obtain ⟨part, rfl⟩ := describes.target target own block.normal covered
    refine ⟨part, rfl, (inside_iff part).mpr fun addr member => ?_⟩
    have covers := (family.covers_own part addr).mpr member
    exact ⟨(describes.covers net addr).mp (block.within _ covers), block.clean _ covers⟩
  · rintro ⟨part, rfl, inside⟩
    rw [inside_iff] at inside
    refine ⟨describes.normal part, fun ip covered => ?_, fun ip covered => ?_⟩
    · obtain ⟨own, rfl, agree⟩ := (family.covers_target part ip).mp covered
      exact (describes.covers net own).mpr (inside own (by simpa using agree)).1
    · obtain ⟨own, rfl, agree⟩ := (family.covers_target part ip).mp covered
      exact (inside own (by simpa using agree)).2

omit describes in
theorem Family.subset_iff (block other : Net n) :
    (∀ ip, (family.target block).Covers ip → (family.target other).Covers ip) ↔
      other.prefixLen ≤ block.prefixLen ∧ SamePrefix other.prefixLen other.addr block.addr := by
  rw [SamePrefix, ← Prefix.agree_subset_iff other.bounded]
  constructor
  · intro within addr own
    have covered := within (family.ip (toBeBytes addr))
      ((family.covers_own block _).mpr (by simpa [SamePrefix] using own))
    simpa [family.covers_own, SamePrefix] using covered
  · intro within ip covered
    obtain ⟨own, rfl, agree⟩ := (family.covers_target block ip).mp covered
    exact (family.covers_own other own).mpr ((Net.contains_iff _ _).mpr (within _ agree))

theorem Family.Describes.maximal_iff (target : FireholIpTarget) :
    MaximalBlock (wrap net) ignoreIps target ↔
      ∃ block, target = family.target block ∧ Net.LargestIn block (keptAddrs family net ignoreIps) := by
  constructor
  · intro maximal
    obtain ⟨block, rfl, inside⟩ := (describes.clean_iff target).mp maximal.toCleanBlock
    refine ⟨block, rfl, inside, ?_⟩
    intro shorter less wider
    let around : Net n := ⟨block.addr, shorter, less.le.trans block.bounded⟩
    have larger : ∀ ip, (family.target block).Covers ip → (family.target around).Covers ip :=
      (family.subset_iff block around).mpr ⟨less.le, Prefix.agree_refl _ _⟩
    have same := maximal.maximal _ ((describes.clean_iff _).mpr ⟨around, rfl, wider⟩) larger
    have smaller := ((family.subset_iff around block).mp fun ip covered => same ▸ covered).1
    exact absurd less (Nat.not_lt.mpr smaller)
  · rintro ⟨block, rfl, largest⟩
    refine ⟨(describes.clean_iff _).mpr ⟨block, rfl, largest.inside⟩, ?_⟩
    intro other clean larger
    obtain ⟨around, rfl, inside⟩ := (describes.clean_iff other).mp clean
    obtain ⟨shorter, agree⟩ := (family.subset_iff block around).mp larger
    cases Nat.lt_or_eq_of_le shorter with
    | inl less => exact absurd (inside.of_agree (Nat.le_refl _) agree) (largest.largest _ less)
    | inr same => exact family.target_congr same agree

theorem Family.Describes.mem_networkTargets (target : FireholIpTarget) :
    target ∈ networkTargets family net ignoreIps ↔ MaximalBlock (wrap net) ignoreIps target := by
  rw [describes.maximal_iff, networkTargets_eq, List.mem_map]
  constructor
  · rintro ⟨block, member, rfl⟩
    exact ⟨block, rfl, punchOut_largest block member⟩
  · rintro ⟨block, rfl, largest⟩
    -- The piece that has an address of the block is the block.
    have own := (inside_iff block).mp largest.inside block.addr (by simp [SamePrefix])
    obtain ⟨piece, member, shared⟩ := (punchOut_covers family net ignoreIps block.addr).mpr own
    have meet := (punchOut_largest piece member).eq_of_meet largest ((Net.contains_iff _ _).mp shared)
      (Prefix.agree_refl _ _)
    exact ⟨piece, member, family.target_congr meet.1 meet.2⟩

end Targets

section Results

variable {grammar : IpnetGrammar} {ignoreIps : List IpAddr} {token : List Char} {net : IpNet}

theorem MaximalBlock.congr {reordered : List IpAddr} (same : ∀ ip, ip ∈ reordered ↔ ip ∈ ignoreIps)
    (target : FireholIpTarget) : MaximalBlock net reordered target ↔ MaximalBlock net ignoreIps target := by
  have clean (other : FireholIpTarget) :
      CleanBlock net reordered other ↔ CleanBlock net ignoreIps other := by
    constructor
    · rintro ⟨normal, within, clean⟩
      exact ⟨normal, within, fun ip covered => mt (same ip).mpr (clean ip covered)⟩
    · rintro ⟨normal, within, clean⟩
      exact ⟨normal, within, fun ip covered => mt (same ip).mp (clean ip covered)⟩
  constructor
  · rintro ⟨block, maximal⟩
    exact ⟨(clean target).mp block, fun other inside => maximal other ((clean other).mpr inside)⟩
  · rintro ⟨block, maximal⟩
    exact ⟨(clean target).mpr block, fun other inside => maximal other ((clean other).mp inside)⟩

theorem networkToken_targets (slash : '/' ∈ token) (parsed : grammar.ipNet token = some net)
    (ignoreIps : List IpAddr) :
    ∃ targets, parseIpOrCidrWithIgnore grammar ignoreIps token = some targets ∧ targets.Nodup ∧
      ∀ target, target ∈ targets ↔ MaximalBlock net ignoreIps target := by
  unfold parseIpOrCidrWithIgnore
  rw [if_pos slash, parsed]
  cases net with
  | v4 net => exact ⟨_, rfl, networkTargets_nodup, ipv4Family_describes.mem_networkTargets⟩
  | v6 net => exact ⟨_, rfl, networkTargets_nodup, ipv6Family_describes.mem_networkTargets⟩

theorem parseIpOrCidrWithIgnore_maximal (grammar : IpnetGrammar) (ignoreIps : List IpAddr)
    (token : List Char) (net : IpNet) (slash : '/' ∈ token) (parsed : grammar.ipNet token = some net) :
    ∃ targets, parseIpOrCidrWithIgnore grammar ignoreIps token = some targets ∧ targets.Nodup ∧
      (∀ target, target ∈ targets ↔ MaximalBlock net ignoreIps target) ∧
      ((∀ ip, net.Covers ip → ip ∈ ignoreIps) → targets = []) ∧
      ∀ reordered, (∀ ip, ip ∈ reordered ↔ ip ∈ ignoreIps) →
        ∃ others, parseIpOrCidrWithIgnore grammar reordered token = some others ∧ others.Perm targets := by
  obtain ⟨targets, returned, nodup, members⟩ := networkToken_targets slash parsed ignoreIps
  refine ⟨targets, returned, nodup, members, ?_, ?_⟩
  · intro all
    apply List.eq_nil_iff_forall_not_mem.mpr
    intro target member
    have block := (members target).mp member
    obtain ⟨ip, covered⟩ := target.covers_some
    exact block.clean ip covered (all ip (block.within ip covered))
  · intro reordered same
    obtain ⟨others, again, distinct, blocks⟩ := networkToken_targets slash parsed reordered
    refine ⟨others, again, (List.perm_ext_iff_of_nodup distinct nodup).mpr fun target => ?_⟩
    rw [blocks, members, MaximalBlock.congr same]

theorem slash30_maximal :
    '/' ∈ "10.0.0.0/30".toList ∧
    IpnetGrammar.documented.ipNet "10.0.0.0/30".toList =
      some (.v4 ⟨ipv4Octets 10 0 0 0, 30, by decide⟩) ∧
    ∃ targets, parseIpOrCidrWithIgnore .documented [.v4 (ipv4Octets 10 0 0 2)] "10.0.0.0/30".toList =
      some targets ∧ targets.Nodup :=
  have slash : '/' ∈ "10.0.0.0/30".toList := by decide
  have parsed : IpnetGrammar.documented.ipNet "10.0.0.0/30".toList =
      some (.v4 ⟨ipv4Octets 10 0 0 0, 30, by decide⟩) := by decide +kernel
  have ⟨targets, returned, nodup, _⟩ := parseIpOrCidrWithIgnore_maximal .documented
    [.v4 (ipv4Octets 10 0 0 2)] _ _ slash parsed
  ⟨slash, parsed, targets, returned, nodup⟩

end Results

end ReputationFirewall.Firehol
