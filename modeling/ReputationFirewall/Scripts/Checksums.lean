import ReputationFirewall.Shared.OnesComplement
import ReputationFirewall.Shared.NetAddr
import ReputationFirewall.Scripts.Layout

set_option autoImplicit false

namespace ReputationFirewall.Scripts

open BigEndian Buffers OnesComplement

section Sums

theorem addU32_exact (sum word : BitVec 32) (room : sum.toNat + word.toNat < 2 ^ 32) :
    addU32 sum word = some (sum + word) ∧ (sum + word).toNat = sum.toNat + word.toNat :=
  ⟨if_pos room, (BitVec.toNat_add sum word).trans (Nat.mod_eq_of_lt room)⟩

theorem beWord_toNat (high low : UInt8) : (beWord high low).toNat = value [high, low] := by
  have small := value_pair_le high low
  have whole : (fromBeBytes (octetPair high low)).toNat = value [high, low] := fromBeBytes_toNat (octetPair high low)
  rw [beWord, BitVec.toNat_setWidth, whole, Nat.mod_eq_of_lt (by omega)]

theorem sumWords_exact (data : List UInt8) (sum : BitVec 32) (room : sum.toNat + (words data).sum < 2 ^ 32) :
    ∃ total, sumWords sum data = some total ∧ total.toNat = sum.toNat + (words data).sum := by
  fun_induction sumWords sum data with
  | case1 sum => exact ⟨sum, rfl, by simp [words]⟩
  | case2 sum last =>
      simp only [words, List.sum_cons, List.sum_nil, Nat.add_zero, ← beWord_toNat] at room ⊢
      exact ⟨_, addU32_exact sum (beWord last 0) room⟩
  | case3 sum high low rest ih =>
      simp only [words, List.sum_cons, ← beWord_toNat] at room ⊢
      obtain ⟨added, value⟩ := addU32_exact sum (beWord high low) (by omega)
      obtain ⟨total, summed, exact⟩ := ih (sum + beWord high low) (by omega)
      exact ⟨total, by rw [added, Option.bind_some, summed], by omega⟩

end Sums

section Carries

theorem carryRound_exact (sum : BitVec 32) :
    ∃ next, carryRound sum = some next ∧ next.toNat = sum.toNat % 65536 + sum.toNat / 65536 := by
  have small := sum.isLt
  have room : (sum &&& 0xffff).toNat + (sum >>> 16).toNat < 2 ^ 32 := by
    rw [lowHalf_toNat, highHalf_toNat]
    omega
  have added := (addU32_exact _ _ room).1
  exact ⟨_, added, carryRound_toNat added⟩

def carryRounds : Nat → BitVec 32 → Option (BitVec 32)
  | 0, sum => some sum
  | rounds + 1, sum => (carryRound sum).bind (carryRounds rounds)

def LoopEnds (sum : BitVec 32) : Prop :=
  ∃ rounds ≤ 2, ∃ last, carryRounds rounds sum = some last ∧ ¬0 < last >>> 16

theorem carryRounds_succ {sum next : BitVec 32} (round : carryRound sum = some next) (rounds : Nat) :
    carryRounds (rounds + 1) sum = carryRounds rounds next := by
  rw [carryRounds, round, Option.bind_some]

theorem loopEnds (sum : BitVec 32) : LoopEnds sum := by
  have small := sum.isLt
  obtain ⟨first, round, value⟩ := carryRound_exact sum
  obtain ⟨second, again, later⟩ := carryRound_exact first
  by_cases none : sum.toNat < 65536
  · exact ⟨0, by omega, sum, rfl, by rw [carries_iff]; omega⟩
  by_cases one : first.toNat < 65536
  · exact ⟨1, by omega, first, by rw [carryRounds_succ round, carryRounds], by rw [carries_iff]; omega⟩
  · refine ⟨2, le_refl 2, second, ?_, by rw [carries_iff]; omega⟩
    rw [carryRounds_succ round, carryRounds_succ again, carryRounds]

theorem foldCarries_folds (sum : BitVec 32) :
    ∃ kept, foldCarries sum = some kept ∧ Folds sum.toNat kept.toNat := by
  -- Each round with carries is followed by a smaller sum.
  induction size : sum.toNat using Nat.strong_induction_on generalizing sum with
  | _ total ih =>
      subst size
      rw [foldCarries_eq]
      by_cases carries : 0 < sum >>> 16
      · have large := (carries_iff sum).mp carries
        obtain ⟨next, round, value⟩ := carryRound_exact sum
        obtain ⟨kept, folded, folds⟩ := ih next.toNat (by omega) next rfl
        rw [value] at folds
        exact ⟨kept, by rw [if_pos carries, round, Option.bind_some, folded], folds.of_carry⟩
      · rw [carries_iff] at carries
        exact ⟨sum, by rw [if_neg (by rwa [carries_iff])], Folds.of_small (by omega)⟩

end Carries

section Complements

theorem complement_toNat (kept : BitVec 32) (small : kept.toNat ≤ 65535) :
    (~~~(kept.setWidth 16)).toNat = 65535 - kept.toNat := by
  rw [BitVec.toNat_not, BitVec.toNat_setWidth, Nat.mod_eq_of_lt (by omega)]

theorem loops_exact (data : List UInt8) (sum : BitVec 32) (room : sum.toNat + (words data).sum < 2 ^ 32) :
    ∃ total kept, sumWords sum data = some total ∧ foldCarries total = some kept ∧
      Folds (sum.toNat + (words data).sum) kept.toNat := by
  obtain ⟨total, summed, exact⟩ := sumWords_exact data sum room
  obtain ⟨kept, folded, folds⟩ := foldCarries_folds total
  exact ⟨total, kept, summed, folded, exact ▸ folds⟩

theorem internetChecksum_completes (data : List UInt8) (short : data.length ≤ 1500) :
    ∃ check, internetChecksum data = some check ∧ Folds ((words data).sum + check.toNat) 65535 := by
  have bound := words_sum_le data
  obtain ⟨total, kept, summed, folded, folds⟩ := loops_exact data 0 (by simp; omega)
  have completed := folds.complement
  rw [← complement_toNat kept folds.small] at completed
  refine ⟨~~~(kept.setWidth 16), ?_, by simpa using completed⟩
  simp only [internetChecksum, summed, folded, Option.bind_eq_bind, Option.bind_some, Option.pure_def]

def pseudoHeader (src dst : Octets 4) (proto : UInt8) (l4Len : BitVec 16) : List UInt8 :=
  src.toList ++ (dst.toList ++ ([0, proto] ++ u16Bytes l4Len))

theorem toList_four (octets : Octets 4) :
    octets.toList = [octets.get 0, octets.get 1, octets.get 2, octets.get 3] := by
  apply List.ext_getElem
  · simp
  · intro index inside _
    rw [Vector.length_toList] at inside
    interval_cases index <;> rfl

theorem words_pseudoHeader (src dst : Octets 4) (proto : UInt8) (l4Len : BitVec 16) :
    words (pseudoHeader src dst proto l4Len) =
      [value [src.get 0, src.get 1], value [src.get 2, src.get 3], value [dst.get 0, dst.get 1],
        value [dst.get 2, dst.get 3], proto.toNat, l4Len.toNat] := by
  have last : words (u16Bytes l4Len) = [l4Len.toNat] := words_toBeBytes l4Len
  have kind : value [0, proto] = proto.toNat := by simp [value]
  rw [pseudoHeader, toList_four src, toList_four dst]
  simp [words, last, kind]

theorem foldlM_addU32 (numbers : List (BitVec 32)) (sum : BitVec 32)
    (room : sum.toNat + (numbers.map BitVec.toNat).sum < 2 ^ 32) :
    ∃ total, numbers.foldlM addU32 sum = some total ∧ total.toNat = sum.toNat + (numbers.map BitVec.toNat).sum := by
  induction numbers generalizing sum with
  | nil => exact ⟨sum, rfl, by simp⟩
  | cons number rest ih =>
      rw [List.map_cons, List.sum_cons] at room ⊢
      obtain ⟨added, value⟩ := addU32_exact sum number (by omega)
      obtain ⟨total, summed, exact⟩ := ih (sum + number) (by omega)
      exact ⟨total, by rw [List.foldlM_cons, added, Option.bind_eq_bind, Option.bind_some, summed], by omega⟩

theorem pseudoHeaderSum_exact (src dst : Octets 4) (proto : UInt8) (l4Len : BitVec 16) :
    ∃ sum, pseudoHeaderSum src dst proto l4Len = some sum ∧
      sum.toNat = (words (pseudoHeader src dst proto l4Len)).sum := by
  let numbers : List (BitVec 32) :=
    [beWord (src.get 0) (src.get 1), beWord (src.get 2) (src.get 3), beWord (dst.get 0) (dst.get 1),
      beWord (dst.get 2) (dst.get 3), BitVec.ofNat 32 proto.toNat, l4Len.setWidth 32]
  have folded : pseudoHeaderSum src dst proto l4Len = numbers.foldlM addU32 0 := by
    simp only [pseudoHeaderSum, numbers, List.foldlM_cons, List.foldlM_nil, bind_pure]
  have values : numbers.map BitVec.toNat = words (pseudoHeader src dst proto l4Len) := by
    have protoSmall := proto.toNat_lt
    have lengthSmall := l4Len.isLt
    simp only [numbers, words_pseudoHeader, List.map_cons, List.map_nil, beWord_toNat, BitVec.toNat_ofNat,
      BitVec.toNat_setWidth]
    rw [Nat.mod_eq_of_lt (by omega), Nat.mod_eq_of_lt (by omega)]
  have bound := words_sum_le (pseudoHeader src dst proto l4Len)
  have length : (pseudoHeader src dst proto l4Len).length = 12 := by simp [pseudoHeader]
  obtain ⟨sum, summed, exact⟩ := foldlM_addU32 numbers 0 (by simp [values]; omega)
  exact ⟨sum, folded.trans summed, by simpa [values] using exact⟩

theorem l4Checksum_completes (src dst : Octets 4) (proto : UInt8) (data : List UInt8) (short : data.length ≤ 1500) :
    ∃ check, l4Checksum src dst proto data = some check ∧
      Folds ((words (pseudoHeader src dst proto (BitVec.ofNat 16 data.length))).sum + (words data).sum + check.toNat)
        65535 ∧
      (proto = ipprotoUdp → check ≠ 0) := by
  have length : (pseudoHeader src dst proto (BitVec.ofNat 16 data.length)).length = 12 := by simp [pseudoHeader]
  have bound := words_sum_le data
  have leadBound := words_sum_le (pseudoHeader src dst proto (BitVec.ofNat 16 data.length))
  obtain ⟨sum, led, start⟩ := pseudoHeaderSum_exact src dst proto (BitVec.ofNat 16 data.length)
  obtain ⟨total, kept, summed, folded, folds⟩ := loops_exact data sum (by omega)
  have completed := folds.complement
  rw [← complement_toNat kept folds.small] at completed
  simp only [l4Checksum, led, summed, folded, Option.bind_eq_bind, Option.bind_some, Option.pure_def, Option.some.injEq,
    exists_eq_left', ← start]
  by_cases zero : ~~~(kept.setWidth 16) = 0 ∧ proto = ipprotoUdp
  · -- The sum is all ones already, and all ones is stored in place of zero.
    rw [if_pos zero]
    rw [zero.1] at completed
    exact ⟨completed.complement_zero, fun _ => by decide⟩
  · rw [if_neg zero]
    exact ⟨completed, fun udp none => zero ⟨none, udp⟩⟩

end Complements

section Verification

theorem sum_words_segmentBytes (front back : List UInt8) (even : Even front.length) (check : BitVec 16) :
    (words (segmentBytes front back check)).sum = (words (segmentBytes front back 0)).sum + check.toNat := by
  have field (number : BitVec 16) : (words (segmentBytes front back number)).sum =
      (words front).sum + number.toNat + (words back).sum := by
    have own : words (u16Bytes number) = [number.toNat] := words_toBeBytes number
    rw [segmentBytes, words_append _ _ (by simpa [Nat.even_add] using even), words_append _ _ even, own]
    simp [Nat.add_assoc]
  have zero : BitVec.toNat (0 : BitVec 16) = 0 := rfl
  rw [field, field, zero]
  omega

theorem onesSum_completed {lead front back : List UInt8} {check : BitVec 16} (evenLead : Even lead.length)
    (even : Even front.length)
    (completes : Folds ((words lead).sum + (words (segmentBytes front back 0)).sum + check.toNat) 65535) :
    onesSum (words (lead ++ segmentBytes front back check)) = 65535 := by
  have folds := folds_onesSum _ (words_le (lead ++ segmentBytes front back check))
  rw [words_append _ _ evenLead, List.sum_append, sum_words_segmentBytes front back even check, ← Nat.add_assoc,
    ← words_append _ _ evenLead] at folds
  exact folds.unique completes

theorem onesSum_completed_alone {front back : List UInt8} {check : BitVec 16} (even : Even front.length)
    (completes : Folds ((words (segmentBytes front back 0)).sum + check.toNat) 65535) :
    onesSum (words (segmentBytes front back check)) = 65535 := by
  rw [← List.nil_append (segmentBytes front back check)]
  apply onesSum_completed (by simp) even
  simpa [words] using completes

theorem value_stored {front : List UInt8} {place : Nat} (begins : front.length = place) (back : List UInt8)
    (check : BitVec 16) : value (((segmentBytes front back check).drop place).take 2) = check.toNat := by
  have field : ((segmentBytes front back check).drop place).take 2 = u16Bytes check := by
    rw [segmentBytes, List.append_assoc, List.drop_left' begins, List.take_left' (length_u16Bytes check)]
  rw [field, u16Bytes, ← fromBeBytes_toNat, @fromBeBytes_toBeBytes 2 check]

namespace TestPacket

variable (packet : TestPacket)

def Verifies (segment : List UInt8) : Prop :=
  match packet.transport with
  | .tcpSyn .. =>
      onesSum (words (pseudoHeader packet.srcIp packet.dstIp ipprotoTcp (BitVec.ofNat 16 segment.length) ++ segment)) =
        0xFFFF
  | .udp .. =>
      onesSum (words (pseudoHeader packet.srcIp packet.dstIp ipprotoUdp (BitVec.ofNat 16 segment.length) ++ segment)) =
        0xFFFF ∧ value ((segment.drop 6).take 2) ≠ 0
  | .icmpEcho .. => onesSum (words segment) = 0xFFFF
  | .other _ => True

theorem header_verifies :
    ∃ check, internetChecksum (packet.header 0) = some check ∧ onesSum (words (packet.header check)) = 0xFFFF := by
  have length : (packet.header 0).length = 20 := length_headerBytes ..
  obtain ⟨check, summed, completes⟩ := internetChecksum_completes (packet.header 0) (by omega)
  refine ⟨check, summed, onesSum_completed_alone ?_ completes⟩
  rw [length_headerFront]
  decide

theorem segment_verifies (short : packet.totalLen ≤ 1500) :
    ∃ check, packet.segmentChecksum = some check ∧ packet.Verifies (packet.segment check) := by
  have size (check : BitVec 16) : (packet.segment check).length = (packet.segment 0).length := by
    rw [length_segment, length_segment]
  have fits : (packet.segment 0).length ≤ 1500 := by
    rw [length_segment]
    exact (Nat.le_add_left _ _).trans short
  have lead (proto : UInt8) (l4Len : BitVec 16) : Even (pseudoHeader packet.srcIp packet.dstIp proto l4Len).length := by
    simp [pseudoHeader]
    decide
  obtain ⟨transport, srcIp, dstIp, id, payload⟩ := packet
  cases transport with
  | tcpSyn srcPort dstPort seq =>
      obtain ⟨check, summed, completes, -⟩ := l4Checksum_completes srcIp dstIp ipprotoTcp _ fits
      refine ⟨check, summed, ?_⟩
      simp only [Verifies, size]
      exact onesSum_completed (lead _ _) (by simp; decide) completes
  | udp srcPort dstPort =>
      obtain ⟨check, summed, completes, stored⟩ := l4Checksum_completes srcIp dstIp ipprotoUdp _ fits
      refine ⟨check, summed, ?_⟩
      simp only [Verifies, size]
      refine ⟨onesSum_completed (lead _ _) (by simp; decide) completes, ?_⟩
      intro zero
      have begins := length_udpFront srcPort dstPort (BitVec.ofNat 16 (udpHeaderLen + payload.length))
      have field := value_stored begins payload check
      exact stored rfl (BitVec.eq_of_toNat_eq (field.symm.trans zero))
  | icmpEcho ident seq =>
      obtain ⟨check, summed, completes⟩ := internetChecksum_completes _ fits
      exact ⟨check, summed, onesSum_completed_alone (by decide) completes⟩
  | other proto => exact ⟨0, rfl, trivial⟩

end TestPacket

theorem checksums_verify (packet : TestPacket) (buf : List UInt8) (short : packet.totalLen ≤ 1500)
    (room : packet.totalLen ≤ buf.length) :
    (∃ bytes, packet.written buf = some bytes ∧ bytes.length = packet.totalLen ∧
      onesSum (words (bytes.take ipv4HeaderLen)) = 0xFFFF ∧ packet.Verifies (bytes.drop ipv4HeaderLen)) ∧
    ∀ sum, LoopEnds sum := by
  obtain ⟨headerCheck, headed, headerVerified⟩ := packet.header_verifies
  obtain ⟨check, summed, verified⟩ := packet.segment_verifies short
  have length : (packet.header headerCheck).length = ipv4HeaderLen := TestPacket.length_header _ _
  refine ⟨⟨_, TestPacket.written_eq short room summed headed, ?_, ?_, ?_⟩, loopEnds⟩
  · rw [List.length_append, length, packet.length_segment, TestPacket.totalLen]
  · rwa [List.take_left' length]
  · rwa [List.drop_left' length]

def oddUdpPacket : TestPacket where
  transport := .udp 49152 53
  srcIp := NetAddr.ipv4Octets 198 51 100 14
  dstIp := NetAddr.ipv4Octets 172 28 0 2
  id := 1
  payload := [0x44, 0x41, 0x54]

theorem odd_udp_packet_verifies :
    (∃ bytes, oddUdpPacket.written (List.replicate 64 0) = some bytes ∧ bytes.length = 31 ∧
      onesSum (words (bytes.take ipv4HeaderLen)) = 0xFFFF ∧ oddUdpPacket.Verifies (bytes.drop ipv4HeaderLen)) ∧
    ∀ sum, LoopEnds sum :=
  checksums_verify oddUdpPacket (List.replicate 64 0) (by decide) (by decide)

end Verification

end ReputationFirewall.Scripts
