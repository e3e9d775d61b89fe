import DpdkTools.Device.StalePackets
import DpdkTools.Net.Cksum

/-! The checksums of an echo reply (`device::process_rx_packets`).

The checksum of the message is brought up to date for the changed type alone. Of the header, the
addresses change places and the device's own comes in; its checksum is left as it was, unless the
first octet of the destination is 224. -/
namespace DpdkTools
open OnesComplement
set_option autoImplicit false

/-- An echo request that the device answers, behind a whole link header. -/
structure AnsweredEcho (env : RxEnv) (m : Mbuf) : Prop where
  link : sizeofEtherHdr ≤ m.l2Len
  ether : m.ethProto = etherTypeIpv4
  icmp : m.nextProtoId = ipprotoIcmp
  request : isEchoRequest env m = true

namespace AnsweredEcho
variable {env : RxEnv} {m : Mbuf}

theorem link_le (h : AnsweredEcho env m) : 14 ≤ m.l2Len := h.link

theorem fields (h : AnsweredEcho env m) :
    m.data (m.l2Len + m.ipv4HdrLen) = 8 ∧ m.data (m.l2Len + m.ipv4HdrLen + 1) = 0 ∧
      m.l2Len + m.ipv4HdrLen + 8 ≤ m.dataLen := by
  have hreq := h.request
  simp only [isEchoRequest, Bool.and_eq_true, beq_iff_eq, decide_eq_true_eq] at hreq
  exact ⟨hreq.1.1.1, hreq.1.1.2, hreq.2⟩

theorem processed (h : AnsweredEcho env m) (arp : ArpTable) (b : MbufPtr) :
    processRxPacket env arp b m = (echoReply env m, arp, true) := by
  have hfits := h.fields.2.2
  rw [processRxPacket, if_pos h.ether, if_neg (by omega), h.icmp, h.request]
  rfl

/-- With a header of no words the type would be the length, with one of two words the protocol
would be the code. -/
theorem hdrLen (h : AnsweredEcho env m) : m.ipv4HdrLen = 4 ∨ 12 ≤ m.ipv4HdrLen := by
  obtain ⟨htype, hcode, _⟩ := h.fields
  have hlen : m.ipv4HdrLen = (m.data m.l2Len).toNat % 16 * 4 := rfl
  have hzero : m.ipv4HdrLen ≠ 0 := by
    intro h0
    rw [h0, Nat.add_zero] at htype
    rw [htype] at hlen
    have h8 : (8 : UInt8).toNat = 8 := rfl
    omega
  have height : m.ipv4HdrLen ≠ 8 := by
    intro h8
    have hproto : m.data (m.l2Len + 9) = 1 := h.icmp
    rw [h8, hproto] at hcode
    exact absurd hcode (by decide)
  omega

end AnsweredEcho

/-! ## The checksum of the message -/

theorem foldCksum_of_lt (x : ℕ) (h : x < 2 ^ 16) : foldCksum x = x := by
  rw [foldCksum, Nat.mod_eq_of_lt h, Nat.div_eq_of_lt h, Nat.add_zero]

theorem echoCksum_toNat (cksum : Be16) : (echoCksum cksum).toNat = (cksum.toNat + 8) % 65535 := by
  have hlt : cksum.toNat < 2 ^ 16 := cksum.toNat_lt
  have htype : (rteBe16 0x0800).toNat = 8 := by decide
  have hreply : (rteBe16 0).toNat = 0 := by decide
  rw [echoCksum, UInt16.toNat_ofNat', htype, hreply]
  by_cases hcarry : cksum.toNat < 65527
  · have hfold : foldCksum ((0xffff - cksum.toNat) + (0xffff - 8) + 0) = 65527 - cksum.toNat := by
      unfold foldCksum
      omega
    rw [hfold, foldCksum_of_lt _ (by omega)]
    omega
  · rw [foldCksum_of_lt ((0xffff - cksum.toNat) + (0xffff - 8) + 0) (by omega),
      foldCksum_of_lt _ (by omega)]
    omega

/-! ## The sum over the message -/

/-- The message of a reply: type 0 and the new checksum, then what was there. -/
theorem sum_echoMessage (off n : ℕ) (a : Mbuf) (hn : 4 ≤ n) :
    sum a.data off n =
        word a.data off + word a.data (off + 2) + sum a.data (off + 4) (n - 4) ∧
      sum (echoMessage off a).data off n = (a.data (off + 1)).toNat * 256 +
        (word a.data (off + 2) + 8) % 65535 + sum a.data (off + 4) (n - 4) := by
  have hsplit : ∀ data : ℕ → UInt8, sum data off n =
      word data off + word data (off + 2) + sum data (off + 4) (n - 4) := by
    intro data
    have h := sum_split data off 2 (n - 4)
    rw [show 2 * 2 + (n - 4) = n by omega] at h
    rw [h]
    change word data off + (word data (off + 2) + 0) + _ = _
    rfl
  have hstored : (echoMessage off a).data = storeBe16 (storeBytes a.data off [0]) (off + 2)
      (echoCksum (loadBe16 (storeBytes a.data off [0]) (off + 2))) := rfl
  have hcksum : loadBe16 (storeBytes a.data off [0]) (off + 2) = loadBe16 a.data (off + 2) :=
    loadBe16_congr _ _ _ (storeBytes_outside _ _ _ _ (by simp)) (storeBytes_outside _ _ _ _ (by simp))
  have hfirst : word (echoMessage off a).data off = (a.data (off + 1)).toNat * 256 := by
    rw [word, hstored, storeBe16_outside _ _ _ _ (by omega), storeBe16_outside _ _ (off + 1) _ (by omega),
      storeBytes_outside a.data _ (off + 1) _ (by simp)]
    simp [storeBytes]
  have hnew : word (echoMessage off a).data (off + 2) = (word a.data (off + 2) + 8) % 65535 := by
    rw [hstored, word_storeBe16, hcksum, echoCksum_toNat, loadBe16_toNat]
  have hrest : sum (echoMessage off a).data (off + 4) (n - 4) = sum a.data (off + 4) (n - 4) :=
    sum_congr _ _ _ _ fun i hlo _ => echoMessage_outside off i a (Or.inr hlo)
  rw [hsplit a.data, hsplit (echoMessage off a).data, hfirst, hnew, hrest]
  exact ⟨rfl, rfl⟩

/-- The update takes a type of 8 out of the sum, whatever stood there, and the result must not be zero
throughout. -/
theorem echoMessage_verifies_iff (off n : ℕ) (a : Mbuf) (hn : 4 ≤ n) :
    Verifies (echoMessage off a).data off n ↔
      (sum a.data off n + 8) % 65535 = (a.data off).toNat ∧
        ¬ (a.data (off + 1) = 0 ∧ word a.data (off + 2) = 65527 ∧
          sum a.data (off + 4) (n - 4) = 0) := by
  obtain ⟨hsum, hreply⟩ := sum_echoMessage off n a hn
  have htype : (a.data off).toNat < 2 ^ 8 := (a.data off).toNat_lt
  have hcode : a.data (off + 1) = 0 ↔ (a.data (off + 1)).toNat = 0 := UInt8.toNat_inj.symm
  have hword : word a.data (off + 2) < 65536 := by
    rw [← loadBe16_toNat]
    exact UInt16.toNat_lt _
  have hfirst : word a.data off = (a.data off).toNat + (a.data (off + 1)).toNat * 256 := rfl
  rw [verifies_iff, hreply, hsum, hcode]
  omega

/-! ## A message inside of the header

A header of less than five words ends before its addresses do, and what the reply writes there
belongs to the message too. -/

/-- The source address of the reply. -/
def echoSource (env : RxEnv) (m : Mbuf) : Be32 :=
  if isMulticastIpv4Addr m.ipv4DstAddr then echoSrcAddr m.ipv4SrcAddr else env.config.ip4Addr

/-- The request with the addresses of the reply. -/
def readdressed (env : RxEnv) (m : Mbuf) : ℕ → UInt8 :=
  storeBe32 (storeBe32 m.data (m.l2Len + 16) m.ipv4SrcAddr) (m.l2Len + 12) (echoSource env m)

/-- The header checksum of the reply, for a header of one word. -/
def oneWordCksum (env : RxEnv) (m : Mbuf) : ℕ :=
  if isMulticastIpv4Addr m.ipv4DstAddr then
    if env.config.ipv4CksumOffload then 0 else 65535 - fold (sum m.data m.l2Len 4)
  else word m.data (m.l2Len + 10)

section Inside
variable (env : RxEnv) (m : Mbuf) (hmac : env.config.macAddr.length = 6)
include hmac

theorem echoAddresses_readdressed (h : AnsweredEcho env m) (i : ℕ) (hi : m.l2Len + 12 ≤ i) :
    (echoAddresses env m).data i = readdressed env m i := by
  have hbase := echoEther_outside env m hmac h.link_le i (by omega)
  rw [readdressed, echoSource]
  cases hm : isMulticastIpv4Addr m.ipv4DstAddr with
  | false =>
    rw [echoAddresses_own env m hm, if_neg Bool.false_ne_true]
    exact storeBe32_congr _ _ _ _ _ (storeBe32_congr _ _ _ _ _ hbase)
  | true =>
    have hmcast : echoMcastHeader env m i = storeBe32 (storeBe32 m.data (m.l2Len + 16) m.ipv4SrcAddr)
        (m.l2Len + 12) (echoSrcAddr m.ipv4SrcAddr) i := by
      rw [echoMcastHeader, storeBe16_outside _ _ _ _ (by omega)]
      exact storeBe32_congr _ _ _ _ _ (storeBe32_congr _ _ _ _ _ hbase)
    rw [if_pos rfl, ← hmcast]
    cases ho : env.config.ipv4CksumOffload with
    | true => rw [echoAddresses_offload env m hm ho]
    | false =>
      rw [echoAddresses_mcast env m hm ho]
      exact storeBe16_outside _ _ _ _ (by omega)

/-- The addresses of the reply: its source, and the source of the request as its destination. -/
theorem readdressed_loads (h : AnsweredEcho env m) :
    loadBe32 (echoAddresses env m).data (m.l2Len + 12) = echoSource env m ∧
      loadBe32 (echoAddresses env m).data (m.l2Len + 16) = m.ipv4SrcAddr := by
  have hdata := echoAddresses_readdressed env m hmac h
  constructor
  · rw [loadBe32_congr _ (readdressed env m) _ fun i _ => hdata _ (by omega)]
    exact loadBe32_storeBe32 _ _ _
  · rw [loadBe32_congr _ (storeBe32 m.data (m.l2Len + 16) m.ipv4SrcAddr) _ ?_, loadBe32_storeBe32]
    intro i _
    rw [hdata _ (by omega), readdressed, storeBe32_outside _ _ _ _ (by omega)]

theorem echoAddresses_oneWord (hck : IsIpv4Cksum env.rteIpv4Cksum) (h : AnsweredEcho env m)
    (hone : m.ipv4HdrLen = 4) :
    word (echoAddresses env m).data (m.l2Len + 10) = oneWordCksum env m := by
  rw [oneWordCksum]
  cases hm : isMulticastIpv4Addr m.ipv4DstAddr with
  | false =>
    rw [echoAddresses_own env m hm, if_neg Bool.false_ne_true, word, word]
    dsimp only
    rw [echoOwnHeader_outside env m hmac h.link_le _ (by omega) (by omega),
      echoOwnHeader_outside env m hmac h.link_le (m.l2Len + 10 + 1) (by omega) (by omega)]
  | true =>
    rw [if_pos rfl]
    cases ho : env.config.ipv4CksumOffload with
    | true =>
      rw [echoAddresses_offload env m hm ho, if_pos rfl]
      exact word_storeBe16 _ _ 0
    | false =>
      have hheader : sum (echoMcastHeader env m) m.l2Len 4 = sum m.data m.l2Len 4 :=
        sum_congr _ _ _ _ fun i hlo _ =>
          echoMcastHeader_outside env m hmac h.link_le i hlo (by omega)
      have hlen : (echoMcastHeader env m m.l2Len).toNat % 16 * 4 = 4 := by
        rw [echoMcastHeader_outside env m hmac h.link_le _ (Nat.le_refl _) (by omega)]
        exact hone
      rw [echoAddresses_mcast env m hm ho, if_neg Bool.false_ne_true]
      change word (storeBe16 (echoMcastHeader env m) (m.l2Len + 10) _) (m.l2Len + 10) = _
      rw [word_storeBe16, hck, hlen, hheader]

end Inside

/-- What the reply writes into the message keeps its sum. Behind a whole header it writes nothing
there. The message of a header of four words has the destination address in its front, that of three
words both addresses, that of one word the checksum and the addresses as far as it reaches. -/
def KeepsMessageSum (env : RxEnv) (m : Mbuf) (n : ℕ) : Prop :=
  20 ≤ m.ipv4HdrLen ∧ (∃ i, 4 ≤ i ∧ i < n ∧ m.data (m.l2Len + m.ipv4HdrLen + i) ≠ 0) ∨
    m.ipv4HdrLen = 16 ∧
      (addrSum m.ipv4SrcAddr + 8) % 65535 =
        (addrSum m.ipv4DstAddr + m.ipv4SrcAddr.toNat % 256) % 65535 ∧
      (m.ipv4SrcAddr.toNat / 256 ≠ 0xFFF700 ∨
        ∃ i, 4 ≤ i ∧ i < n ∧ m.data (m.l2Len + m.ipv4HdrLen + i) ≠ 0) ∨
    m.ipv4HdrLen = 12 ∧
      (addrSum (echoSource env m) + 8) % 65535 =
        (addrSum m.ipv4DstAddr + (echoSource env m).toNat % 256) % 65535 ∨
    m.ipv4HdrLen = 4 ∧
      (oneWordCksum env m + sum (readdressed env m) (m.l2Len + 12) (min (n - 8) 8)) % 65535 =
        (word m.data (m.l2Len + 10) + sum m.data (m.l2Len + 12) (min (n - 8) 8)) % 65535

section Message
variable (env : RxEnv) (m : Mbuf) (hmac : env.config.macAddr.length = 6) (h : AnsweredEcho env m)
  (n : ℕ) (hn : 8 ≤ n) (hver : Verifies m.data (m.l2Len + m.ipv4HdrLen) n)
include hmac h hn hver

theorem whole_header_iff (hhdr : 20 ≤ m.ipv4HdrLen) :
    Verifies (echoReply env m).data (m.l2Len + m.ipv4HdrLen) n ↔
      ∃ i, 4 ≤ i ∧ i < n ∧ m.data (m.l2Len + m.ipv4HdrLen + i) ≠ 0 := by
  obtain ⟨htype, hcode, _⟩ := h.fields
  have hkept : ∀ i, m.l2Len + m.ipv4HdrLen ≤ i → (echoAddresses env m).data i = m.data i :=
    fun i hi => echoAddresses_outside env m hmac h.link_le i (by omega) (by omega)
  have hsame : sum (echoAddresses env m).data (m.l2Len + m.ipv4HdrLen) n =
      sum m.data (m.l2Len + m.ipv4HdrLen) n :=
    sum_congr _ _ _ _ fun i hlo _ => hkept i hlo
  have hrest : sum (echoAddresses env m).data (m.l2Len + m.ipv4HdrLen + 4) (n - 4) =
      sum m.data (m.l2Len + m.ipv4HdrLen + 4) (n - 4) :=
    sum_congr _ _ _ _ fun i hlo _ => hkept i (by omega)
  obtain ⟨hsum, -⟩ := sum_echoMessage (m.l2Len + m.ipv4HdrLen) n (echoAddresses env m) (by omega)
  have hfirst : word (echoAddresses env m).data (m.l2Len + m.ipv4HdrLen) = 8 := by
    rw [word, hkept _ (Nat.le_refl _), hkept _ (by omega), htype, hcode]
    rfl
  have hword : word (echoAddresses env m).data (m.l2Len + m.ipv4HdrLen + 2) < 65536 := by
    rw [← loadBe16_toNat]
    exact UInt16.toNat_lt _
  have height : (8 : UInt8).toNat = 8 := rfl
  rw [verifies_iff, ← hsame] at hver
  rw [exists_nonzero_iff, echoReply_eq, echoMessage_verifies_iff _ _ _ (by omega),
    hkept _ (Nat.le_refl _), hkept _ (by omega), htype, hcode, hrest, height]
  rw [hrest, hfirst] at hsum
  simp only [true_and]
  omega

theorem four_words_iff (hfour : m.ipv4HdrLen = 16) :
    Verifies (echoReply env m).data (m.l2Len + m.ipv4HdrLen) n ↔
      (addrSum m.ipv4SrcAddr + 8) % 65535 =
          (addrSum m.ipv4DstAddr + m.ipv4SrcAddr.toNat % 256) % 65535 ∧
        (m.ipv4SrcAddr.toNat / 256 ≠ 0xFFF700 ∨
          ∃ i, 4 ≤ i ∧ i < n ∧ m.data (m.l2Len + m.ipv4HdrLen + i) ≠ 0) := by
  have hdata : ∀ i, m.l2Len + 16 ≤ i →
      (echoAddresses env m).data i = storeBe32 m.data (m.l2Len + 16) m.ipv4SrcAddr i := by
    intro i hi
    rw [echoAddresses_readdressed env m hmac h i (by omega), readdressed,
      storeBe32_outside _ _ _ _ (by omega)]
  have hsum : sum (echoAddresses env m).data (m.l2Len + 16) n + addrSum m.ipv4DstAddr =
      sum m.data (m.l2Len + 16) n + addrSum m.ipv4SrcAddr := by
    rw [sum_congr _ _ _ _ fun i hlo _ => hdata i hlo]
    exact sum_storeBe32 m.data (m.l2Len + 16) 0 n m.ipv4SrcAddr (by omega)
  have hrest : sum (echoAddresses env m).data (m.l2Len + 16 + 4) (n - 4) =
      sum m.data (m.l2Len + 16 + 4) (n - 4) := by
    apply sum_congr
    intro i hlo _
    rw [hdata i (by omega), storeBe32_outside _ _ _ _ (by omega)]
  have hsrc := loadBe32_toNat (echoAddresses env m).data (m.l2Len + 16)
  rw [(readdressed_loads env m hmac h).2, word] at hsrc
  have hfirst := ((echoAddresses env m).data (m.l2Len + 16)).toNat_lt
  have hsecond := ((echoAddresses env m).data (m.l2Len + 16 + 1)).toNat_lt
  rw [verifies_iff, hfour] at hver
  rw [hfour, exists_nonzero_iff, echoReply_eq, hfour, echoMessage_verifies_iff _ _ _ (by omega),
    hrest, ← UInt8.toNat_inj, show (0 : UInt8).toNat = 0 from rfl]
  omega

omit hver in
/-- Both addresses lie in front of the message: what the first one has been is in the second now. -/
theorem three_words_sum (hthree : m.ipv4HdrLen = 12) :
    sum (echoAddresses env m).data (m.l2Len + 12) n + addrSum m.ipv4DstAddr =
        sum m.data (m.l2Len + 12) n + addrSum (echoSource env m) ∧
      0 < sum (echoAddresses env m).data (m.l2Len + 12 + 4) (n - 4) := by
  obtain ⟨htype, -, -⟩ := h.fields
  rw [hthree] at htype
  constructor
  · have hdst : sum (storeBe32 m.data (m.l2Len + 16) m.ipv4SrcAddr) (m.l2Len + 12) n +
        addrSum m.ipv4DstAddr = sum m.data (m.l2Len + 12) n + addrSum m.ipv4SrcAddr :=
      sum_storeBe32 m.data (m.l2Len + 12) 2 n m.ipv4SrcAddr (by omega)
    have hsrc : sum (readdressed env m) (m.l2Len + 12) n +
        addrSum (loadBe32 (storeBe32 m.data (m.l2Len + 16) m.ipv4SrcAddr) (m.l2Len + 12)) =
          sum (storeBe32 m.data (m.l2Len + 16) m.ipv4SrcAddr) (m.l2Len + 12) n +
            addrSum (echoSource env m) :=
      sum_storeBe32 _ (m.l2Len + 12) 0 n (echoSource env m) (by omega)
    have hkept : loadBe32 (storeBe32 m.data (m.l2Len + 16) m.ipv4SrcAddr) (m.l2Len + 12) =
        m.ipv4SrcAddr :=
      loadBe32_congr _ _ _ fun i _ => storeBe32_outside _ _ _ _ (by omega)
    rw [sum_congr _ _ _ _ fun i hlo _ => echoAddresses_readdressed env m hmac h i hlo]
    rw [hkept] at hsrc
    omega
  · apply sum_pos _ _ _ (by omega)
    intro hzero
    have hreply := loadBe32_toNat (echoAddresses env m).data (m.l2Len + 12 + 4)
    have hrequest : m.ipv4SrcAddr.toNat = _ := loadBe32_toNat m.data (m.l2Len + 12)
    rw [(readdressed_loads env m hmac h).2, hrequest, word, htype] at hreply
    have hword : word (echoAddresses env m).data (m.l2Len + 12 + 4) =
        ((echoAddresses env m).data (m.l2Len + 12 + 4 + 1)).toNat * 256 := by
      rw [word, hzero]
      exact Nat.zero_add _
    have height : (8 : UInt8).toNat = 8 := rfl
    omega

theorem three_words_iff (hthree : m.ipv4HdrLen = 12) :
    Verifies (echoReply env m).data (m.l2Len + m.ipv4HdrLen) n ↔
      (addrSum (echoSource env m) + 8) % 65535 =
        (addrSum m.ipv4DstAddr + (echoSource env m).toNat % 256) % 65535 := by
  obtain ⟨hsum, hpos⟩ := three_words_sum env m hmac h n hn hthree
  have hsrc := loadBe32_toNat (echoAddresses env m).data (m.l2Len + 12)
  rw [(readdressed_loads env m hmac h).1, word] at hsrc
  have hfirst := ((echoAddresses env m).data (m.l2Len + 12)).toNat_lt
  rw [verifies_iff, hthree] at hver
  rw [echoReply_eq, hthree, echoMessage_verifies_iff _ _ _ (by omega)]
  omega

omit hver in
theorem one_word_sum (hck : IsIpv4Cksum env.rteIpv4Cksum) (hone : m.ipv4HdrLen = 4) :
    sum (echoAddresses env m).data (m.l2Len + 4) n + word m.data (m.l2Len + 10) +
        sum m.data (m.l2Len + 12) (min (n - 8) 8) =
      sum m.data (m.l2Len + 4) n + oneWordCksum env m +
        sum (readdressed env m) (m.l2Len + 12) (min (n - 8) 8) := by
  have hsplit : ∀ data : ℕ → UInt8, sum data (m.l2Len + 4) n =
      sum data (m.l2Len + 4) 6 + word data (m.l2Len + 10) + sum data (m.l2Len + 12) (min (n - 8) 8) +
        sum data (m.l2Len + 20) (n - 16) := by
    intro data
    have hfront := sum_around data (m.l2Len + 4) 3 n (by omega)
    by_cases hshort : n - 8 ≤ 8
    · rw [Nat.min_eq_left hshort, show n - 16 = 0 by omega]
      exact hfront
    · have hback := sum_split data (m.l2Len + 12) 4 (n - 16)
      rw [show 2 * 4 + (n - 16) = n - (2 * 3 + 2) by omega] at hback
      rw [Nat.min_eq_right (by omega)]
      rw [show m.l2Len + 4 + 2 * 3 + 2 = m.l2Len + 12 by omega, hback] at hfront
      rw [hfront]
      exact Eq.symm (Nat.add_assoc _ _ _)
  have hkept := fun i hlo hhi => echoAddresses_outside env m hmac h.link_le i hlo hhi
  have hfront : sum (echoAddresses env m).data (m.l2Len + 4) 6 = sum m.data (m.l2Len + 4) 6 :=
    sum_congr _ _ _ _ fun i hlo hhi => hkept i (by omega) (by omega)
  have hback : sum (echoAddresses env m).data (m.l2Len + 20) (n - 16) =
      sum m.data (m.l2Len + 20) (n - 16) :=
    sum_congr _ _ _ _ fun i hlo hhi => hkept i (by omega) (by omega)
  have hmiddle : sum (echoAddresses env m).data (m.l2Len + 12) (min (n - 8) 8) =
      sum (readdressed env m) (m.l2Len + 12) (min (n - 8) 8) :=
    sum_congr _ _ _ _ fun i hlo _ => echoAddresses_readdressed env m hmac h i hlo
  rw [hsplit (echoAddresses env m).data, hsplit m.data, hfront, hback, hmiddle,
    echoAddresses_oneWord env m hmac hck h hone]
  omega

theorem one_word_iff (hck : IsIpv4Cksum env.rteIpv4Cksum) (hone : m.ipv4HdrLen = 4) :
    Verifies (echoReply env m).data (m.l2Len + m.ipv4HdrLen) n ↔
      (oneWordCksum env m + sum (readdressed env m) (m.l2Len + 12) (min (n - 8) 8)) % 65535 =
        (word m.data (m.l2Len + 10) + sum m.data (m.l2Len + 12) (min (n - 8) 8)) % 65535 := by
  have hsum := one_word_sum env m hmac h n hn hck hone
  obtain ⟨htype, -, -⟩ := h.fields
  have hkept := fun i hlo hhi => echoAddresses_outside env m hmac h.link_le i hlo hhi
  -- the protocol is the second byte behind the message's checksum
  have hproto : sum (echoAddresses env m).data (m.l2Len + 4 + 4) (n - 4) ≠ 0 := by
    intro hzero
    have hbyte := (sum_eq_zero_iff _ _ _).mp hzero 1 (by omega)
    rw [hkept _ (by omega) (by omega)] at hbyte
    have hicmp : m.data (m.l2Len + 9) = 1 := h.icmp
    rw [show m.l2Len + 4 + 4 + 1 = m.l2Len + 9 by omega, hicmp] at hbyte
    exact absurd hbyte (by decide)
  have height : (8 : UInt8).toNat = 8 := rfl
  rw [verifies_iff, hone] at hver
  rw [hone] at htype
  rw [echoReply_eq, hone, echoMessage_verifies_iff _ _ _ (by omega),
    hkept _ (by omega) (by omega), htype, height]
  omega

/-- Behind a whole header the reply is zero throughout for a request that is all zeros behind its
checksum, and verifies for any other; in a shorter one it depends on what the reply writes there. -/
theorem message_verifies_iff (hck : IsIpv4Cksum env.rteIpv4Cksum) :
    Verifies (echoReply env m).data (m.l2Len + m.ipv4HdrLen) n ↔ KeepsMessageSum env m n := by
  have hwords : m.ipv4HdrLen = (m.data m.l2Len).toNat % 16 * 4 := rfl
  have hlen := h.hdrLen
  rw [KeepsMessageSum]
  by_cases hwhole : 20 ≤ m.ipv4HdrLen
  · rw [whole_header_iff env m hmac h n hn hver hwhole]
    simp [hwhole, show m.ipv4HdrLen ≠ 16 by omega, show m.ipv4HdrLen ≠ 12 by omega,
      show m.ipv4HdrLen ≠ 4 by omega]
  · rw [or_iff_right fun hw => hwhole hw.1]
    obtain hone | hthree | hfour : m.ipv4HdrLen = 4 ∨ m.ipv4HdrLen = 12 ∨ m.ipv4HdrLen = 16 := by
      omega
    · rw [one_word_iff env m hmac h n hn hver hck hone]
      simp [hone]
    · rw [three_words_iff env m hmac h n hn hver hthree]
      simp [hthree]
    · rw [four_words_iff env m hmac h n hn hver hfour]
      simp [hfour]

end Message

/-- For every echo request that the device answers, whatever length its header claims. -/
theorem echoReply_verifies_iff (env : RxEnv) (arp : ArpTable) (b : MbufPtr) (m : Mbuf) (n : ℕ)
    (hck : IsIpv4Cksum env.rteIpv4Cksum) (hmac : env.config.macAddr.length = 6)
    (h : AnsweredEcho env m) (hn : sizeofIcmpHdr ≤ n)
    (hver : Verifies m.data (m.l2Len + m.ipv4HdrLen) n) :
    Verifies (processRxPacket env arp b m).1.data (m.l2Len + m.ipv4HdrLen) n ↔
      KeepsMessageSum env m n := by
  rw [h.processed arp b]
  exact message_verifies_iff env m hmac h n hn hver hck

/-! ## Two requests -/

/-- A device with address 10.0.0.1 that answers pings and computes checksums itself. -/
def pingEnv : RxEnv where
  config := ⟨true, true, [2, 0, 0, 0, 0, 1], 0x0100000A, false⟩
  rteIpv4Cksum := headerCksum
  readClock := fun _ => 1
  enque := fun _ => true

/-- An untagged echo request from 10.0.0.2, with the checksum of its header, the destination and
the eight bytes of its message. -/
def echoRequest (cksum dst message : List UInt8) : Mbuf where
  data := fun i =>
    (List.replicate 12 (0 : UInt8) ++ [8, 0, 0x45, 0, 0, 28, 0, 0, 0, 0, 64, 1] ++ cksum ++
      [10, 0, 0, 2] ++ dst ++ message).getD i 0
  dataLen := 42
  l2Len := 14

def plainEcho : Mbuf := echoRequest [0x66, 0xdf] [10, 0, 0, 1] [8, 0, 0xf7, 0xfe, 0, 1, 0, 0]

/-- Identifier and sequence number 0, and no data. -/
def zeroEcho : Mbuf := echoRequest [0x66, 0xdf] [10, 0, 0, 1] [8, 0, 0xf7, 0xff, 0, 0, 0, 0]

theorem plainEcho_answered : AnsweredEcho pingEnv plainEcho := by
  refine ⟨?_, ?_, ?_, ?_⟩
  all_goals decide

theorem plainEcho_reply_verifies :
    Verifies plainEcho.data 34 8 ∧
      Verifies (processRxPacket pingEnv (fun _ => none) 0 plainEcho).1.data 34 8 :=
  ⟨by decide, (echoReply_verifies_iff pingEnv (fun _ => none) 0 plainEcho 8 isIpv4Cksum_headerCksum
    rfl plainEcho_answered (by decide) (by decide)).mpr (Or.inl ⟨by decide, 5, by decide⟩)⟩

theorem zeroEcho_reply_wrong :
    AnsweredEcho pingEnv zeroEcho ∧ zeroEcho.ipv4HdrLen = 20 ∧ Verifies zeroEcho.data 34 8 ∧
      ¬ Verifies (processRxPacket pingEnv (fun _ => none) 0 zeroEcho).1.data 34 8 := by
  refine ⟨⟨?_, ?_, ?_, ?_⟩, ?_, ?_, ?_⟩
  all_goals decide

/-! ## The checksum of the header -/

theorem echoMessage_fields (off : ℕ) (a : Mbuf) :
    (echoMessage off a).l2Len = a.l2Len ∧ (echoMessage off a).olFlags = a.olFlags :=
  ⟨rfl, rfl⟩

section Header
variable (env : RxEnv) (m : Mbuf)

theorem reply_header (hmac : env.config.macAddr.length = 6) (h : AnsweredEcho env m) :
    (echoReply env m).l2Len = m.l2Len ∧ (echoReply env m).olFlags = (echoAddresses env m).olFlags ∧
      (echoReply env m).ipv4HdrLen = m.ipv4HdrLen ∧
      (echoReply env m).ipv4Cksum = loadBe16 (echoAddresses env m).data (m.l2Len + 10) ∧
      sum (echoReply env m).data m.l2Len m.ipv4HdrLen =
        sum (echoAddresses env m).data m.l2Len m.ipv4HdrLen := by
  have hlen := h.hdrLen
  obtain ⟨hl2, hflags⟩ := echoMessage_fields (m.l2Len + m.ipv4HdrLen) (echoAddresses env m)
  have hdata := fun i => echoMessage_outside (m.l2Len + m.ipv4HdrLen) i (echoAddresses env m)
  rw [← echoReply_eq] at hl2 hflags hdata
  rw [(echoAddresses_lens env m).1] at hl2
  refine ⟨hl2, hflags, ?_, ?_, ?_⟩
  · rw [Mbuf.ipv4HdrLen, hl2, hdata _ (by omega),
      echoAddresses_outside env m hmac h.link_le _ (Nat.le_refl _) (by omega), Mbuf.ipv4HdrLen]
  · rw [Mbuf.ipv4Cksum, hl2]
    exact loadBe16_congr _ _ _ (hdata _ (by omega)) (hdata _ (by omega))
  · exact sum_congr _ _ _ _ fun i _ hhi => hdata i (by omega)

/-- The version and the length are never 0. -/
theorem header_sum_pos (h : AnsweredEcho env m) (data : ℕ → UInt8)
    (hfirst : data m.l2Len = m.data m.l2Len) : 0 < sum data m.l2Len m.ipv4HdrLen := by
  have hlen := h.hdrLen
  have hihl : m.ipv4HdrLen = (m.data m.l2Len).toNat % 16 * 4 := rfl
  apply sum_pos data m.l2Len m.ipv4HdrLen (by omega)
  intro hzero
  rw [← hfirst, hzero] at hihl
  have hihl' : m.ipv4HdrLen = 0 := hihl
  omega

variable (hmac : env.config.macAddr.length = 6)
include hmac

/-- A reply to 224.x.x.x: the checksum is computed afresh, or left to the NIC. -/
theorem mcast_reply_header (hck : IsIpv4Cksum env.rteIpv4Cksum) (h : AnsweredEcho env m)
    (hver : m.HeaderVerifies) (hm : isMulticastIpv4Addr m.ipv4DstAddr = true) :
    (echoReply env m).HeaderVerifies ∨ (echoReply env m).CksumOffloaded := by
  obtain ⟨hl2, hflags, hlen, hcksum, hsum⟩ := reply_header env m hmac h
  cases ho : env.config.ipv4CksumOffload with
  | true =>
    rw [echoAddresses_offload env m hm ho] at hflags hcksum
    have hbits : (echoReply env m).olFlags = txIpv4CksumFlags := hflags
    refine Or.inr ⟨?_, ?_, ?_⟩
    · rw [hbits]
      decide
    · rw [hbits]
      decide
    · rw [hcksum]
      exact loadBe16_storeBe16 _ _ 0
  | false =>
    refine Or.inl ?_
    rw [Mbuf.HeaderVerifies, hl2, hlen, verifies_iff, hsum, ← verifies_iff]
    rw [echoAddresses_mcast env m hm ho]
    change Verifies (storeBe16 (echoMcastHeader env m) (m.l2Len + 10) _) m.l2Len m.ipv4HdrLen
    have hfirst : echoMcastHeader env m m.l2Len = m.data m.l2Len :=
      echoMcastHeader_outside env m hmac h.link_le _ (Nat.le_refl _) (by omega)
    obtain hfour | htwelve := h.hdrLen
    · -- the header ends before its checksum
      have hsame : sum (storeBe16 (echoMcastHeader env m) (m.l2Len + 10)
          (env.rteIpv4Cksum (echoMcastHeader env m) m.l2Len)) m.l2Len m.ipv4HdrLen =
          sum m.data m.l2Len m.ipv4HdrLen := by
        apply sum_congr
        intro i hlo hhi
        rw [storeBe16_outside _ _ _ _ (by omega),
          echoMcastHeader_outside env m hmac h.link_le i hlo (by omega)]
      rw [verifies_iff, hsame, ← verifies_iff]
      exact hver
    · have hlen' : (echoMcastHeader env m m.l2Len).toNat % 16 * 4 = m.ipv4HdrLen := by
        rw [hfirst, Mbuf.ipv4HdrLen]
      exact header_filled hck _ _ _ hlen' htwelve (word_storeBe16 _ _ 0)

/-- The addresses of the request, as they are found while those of the reply are written. -/
theorem echoEther_dstAddr (hl2 : 14 ≤ m.l2Len) :
    loadBe32 (echoEther env m) (m.l2Len + 16) = m.ipv4DstAddr := by
  apply loadBe32_congr
  intro i _
  exact echoEther_outside env m hmac hl2 _ (by omega)

theorem storedDst_srcAddr (hl2 : 14 ≤ m.l2Len) :
    loadBe32 (storeBe32 (echoEther env m) (m.l2Len + 16) m.ipv4SrcAddr) (m.l2Len + 12) =
      m.ipv4SrcAddr := by
  apply loadBe32_congr
  intro i hi
  rw [storeBe32_outside _ _ _ _ (by omega)]
  exact echoEther_outside env m hmac hl2 _ (by omega)

/-- What the header of another reply sums to, by its length. -/
theorem own_header_sum (h : AnsweredEcho env m) :
    (m.ipv4HdrLen ≤ 12 → sum (echoOwnHeader env m) m.l2Len m.ipv4HdrLen =
        sum m.data m.l2Len m.ipv4HdrLen) ∧
      (m.ipv4HdrLen = 16 → sum (echoOwnHeader env m) m.l2Len m.ipv4HdrLen + addrSum m.ipv4SrcAddr =
        sum m.data m.l2Len m.ipv4HdrLen + addrSum env.config.ip4Addr) ∧
      (20 ≤ m.ipv4HdrLen → sum (echoOwnHeader env m) m.l2Len m.ipv4HdrLen + addrSum m.ipv4DstAddr =
        sum m.data m.l2Len m.ipv4HdrLen + addrSum env.config.ip4Addr) := by
  have hsum : sum (echoEther env m) m.l2Len m.ipv4HdrLen = sum m.data m.l2Len m.ipv4HdrLen :=
    sum_congr _ _ _ _ fun i hlo _ => echoEther_outside env m hmac h.link_le i hlo
  have hsrc := storedDst_srcAddr env m hmac h.link_le
  have hdst := echoEther_dstAddr env m hmac h.link_le
  refine ⟨?_, ?_, ?_⟩
  · intro hlen
    exact sum_congr _ _ _ _ fun i hlo hhi =>
      echoOwnHeader_outside env m hmac h.link_le i hlo (by omega)
  · intro hlen
    have hown := sum_storeBe32 (storeBe32 (echoEther env m) (m.l2Len + 16) m.ipv4SrcAddr) m.l2Len 6
      m.ipv4HdrLen env.config.ip4Addr (by omega)
    have hout : sum (storeBe32 (echoEther env m) (m.l2Len + 16) m.ipv4SrcAddr) m.l2Len m.ipv4HdrLen =
        sum (echoEther env m) m.l2Len m.ipv4HdrLen :=
      sum_storeBytes_outside _ _ _ _ _ (Or.inl (by omega))
    rw [hsrc, hout, hsum] at hown
    exact hown
  · intro hlen
    have hown := sum_storeBe32 (storeBe32 (echoEther env m) (m.l2Len + 16) m.ipv4SrcAddr) m.l2Len 6
      m.ipv4HdrLen env.config.ip4Addr (by omega)
    have hswap : sum (storeBe32 (echoEther env m) (m.l2Len + 16) m.ipv4SrcAddr) m.l2Len m.ipv4HdrLen +
        addrSum (loadBe32 (echoEther env m) (m.l2Len + 16)) =
        sum (echoEther env m) m.l2Len m.ipv4HdrLen + addrSum m.ipv4SrcAddr :=
      sum_storeBe32 (echoEther env m) m.l2Len 8 m.ipv4HdrLen m.ipv4SrcAddr (by omega)
    rw [hsrc] at hown
    rw [hdst, hsum] at hswap
    change sum (echoOwnHeader env m) m.l2Len m.ipv4HdrLen + _ = _ at hown
    omega

end Header

/-- The rewritten addresses sum to what was there. With a header of four words only the source lies
inside of it, with a shorter one neither does. -/
def KeepsHeaderSum (env : RxEnv) (m : Mbuf) : Prop :=
  m.ipv4HdrLen ≤ 12 ∨
    m.ipv4HdrLen = 16 ∧ addrSum env.config.ip4Addr % 65535 = addrSum m.ipv4SrcAddr % 65535 ∨
    20 ≤ m.ipv4HdrLen ∧ addrSum env.config.ip4Addr % 65535 = addrSum m.ipv4DstAddr % 65535

theorem own_reply_header (env : RxEnv) (m : Mbuf) (hmac : env.config.macAddr.length = 6)
    (h : AnsweredEcho env m) (hver : m.HeaderVerifies)
    (hm : isMulticastIpv4Addr m.ipv4DstAddr = false) :
    ((echoReply env m).HeaderVerifies ↔ KeepsHeaderSum env m) ∧
      ((echoReply env m).CksumOffloaded ↔ m.CksumOffloaded) := by
  obtain ⟨hl2, hflags, hlen, hcksum, hsum⟩ := reply_header env m hmac h
  rw [echoAddresses_own env m hm] at hflags hcksum hsum
  change _ = sum (echoOwnHeader env m) m.l2Len m.ipv4HdrLen at hsum
  have hpos := header_sum_pos env m h (echoOwnHeader env m)
    (echoOwnHeader_outside env m hmac h.link_le _ (Nat.le_refl _) (by omega))
  obtain ⟨hshort, hfour, hfive⟩ := own_header_sum env m hmac h
  have hwords : m.ipv4HdrLen = (m.data m.l2Len).toNat % 16 * 4 := rfl
  rw [Mbuf.HeaderVerifies, verifies_iff] at hver
  constructor
  · rw [Mbuf.HeaderVerifies, hl2, hlen, verifies_iff, hsum, KeepsHeaderSum]
    omega
  · have hsame : (echoReply env m).ipv4Cksum = m.ipv4Cksum := by
      rw [hcksum]
      exact loadBe16_congr _ _ _ (echoOwnHeader_outside env m hmac h.link_le _ (by omega) (by omega))
        (echoOwnHeader_outside env m hmac h.link_le _ (by omega) (by omega))
    rw [Mbuf.CksumOffloaded, Mbuf.CksumOffloaded, hflags, hsame]

/-- A ping to 239.1.1.1, which counts as no multicast. -/
def groupEcho : Mbuf := echoRequest [0x80, 0xdd] [239, 1, 1, 1] [8, 0, 0xf7, 0xfe, 0, 1, 0, 0]

end DpdkTools
