import Mazu.Tcp.Step

/-!
# Segments on the wire

A sender adds up the pseudo header, the header, the options and a payload whose sum it has from the
time the payload was queued. A receiver adds up the pseudo header and the whole segment. Both
represent the same sum, and the header field holds its complement.
-/

namespace Mazu.Tcp

open Net OnesSum List

variable (seg : TxSegment) (hostAddr peerAddr : Ipv4Addr) (hostPort peerPort : U16)
    (seqNum ackNum : U32) (flags : U8) (windowSize : U16)

/-- The header as `tcp_send_segment_noqueue_raw` fills it in last: the checksum goes where the bytes
16 and 17 were zero, low byte first. -/
def TxSegment.headerBytes : List U8 :=
  (tcpHeaderBytes seg.srcPort seg.destPort seg.seqNum seg.ackNum
      (tcpHdrLenNoOpt + seg.options.length / 4) seg.flags seg.windowSize).take 16
    ++ [seg.checksum.setWidth 8, (seg.checksum >>> 8).setWidth 8] ++ [0, 0]

/-- The bytes handed to the IP layer. -/
def TxSegment.bytes : List U8 := seg.headerBytes ++ seg.options ++ seg.payload

theorem tcpHeaderBytes_length (srcPort destPort : U16) (seqNum ackNum : U32) (headerLen : ℕ)
    (flags : U8) (windowSize : U16) :
    (tcpHeaderBytes srcPort destPort seqNum ackNum headerLen flags windowSize).length = 20 := rfl

theorem headerBytes_length : seg.headerBytes.length = 20 := rfl

theorem tcpPseudoHeaderBytes_length (src dest : Ipv4Addr) (n : ℕ) :
    (tcpPseudoHeaderBytes src dest n).length = 12 := rfl

/-! ## The sums -/

/-- A 16-bit word, low byte first. -/
theorem wordSum_word (x : U16) : wordSum [x.setWidth 8, (x >>> 8).setWidth 8] = x.toNat := by
  rw [wordSum, wordSum, BitVec.toNat_setWidth, BitVec.toNat_setWidth, BitVec.toNat_ushiftRight]
  omega

/-- The checksum field adds itself to the sum of the header. -/
theorem wordSum_headerBytes :
    wordSum seg.headerBytes = wordSum (tcpHeaderBytes seg.srcPort seg.destPort seg.seqNum seg.ackNum
      (tcpHdrLenNoOpt + seg.options.length / 4) seg.flags seg.windowSize) + seg.checksum.toNat := by
  generalize hhdr : tcpHeaderBytes seg.srcPort seg.destPort seg.seqNum seg.ackNum
    (tcpHdrLenNoOpt + seg.options.length / 4) seg.flags seg.windowSize = hdr
  have htake : (hdr.take 16).length = 16 := by
    rw [← hhdr]
    rfl
  have hzero : hdr = hdr.take 16 ++ [0, 0] ++ [0, 0] := by
    rw [← hhdr]
    rfl
  have hsum : wordSum hdr = wordSum (hdr.take 16) := by
    conv_lhs => rw [hzero]
    rw [wordSum_append _ _ (by simp [htake]), wordSum_append _ _ (by rw [htake])]
    rfl
  rw [TxSegment.headerBytes, hhdr, wordSum_append _ _ (by simp [htake]),
    wordSum_append _ _ (by rw [htake]), wordSum_word, hsum]
  rfl

/-- The protocol number makes every pseudo header count. -/
theorem wordSum_pseudoHeader_ne_zero (src dest : Ipv4Addr) (n : ℕ) :
    wordSum (tcpPseudoHeaderBytes src dest n) ≠ 0 := by
  have hproto : wordSum [0, 6] = 1536 := rfl
  rw [tcpPseudoHeaderBytes, wordSum_append _ _ (by simp [Ipv4Addr.bytes]),
    wordSum_append _ _ (by simp [Ipv4Addr.bytes])]
  omega

/-! ## The receiver -/

/-- **The check of a receiver.** A segment passes it when its checksum is the complement of a word
that represents the rest. -/
theorem tcpChecksumIsOk_of_represents {sum : U16} {n : ℕ} (hoptions : seg.options.length % 2 = 0)
    (hlen : seg.bytes.length ≤ 65535)
    (hsum : Represents sum (wordSum seg.payload + wordSum (tcpHeaderBytes seg.srcPort seg.destPort
      seg.seqNum seg.ackNum (tcpHdrLenNoOpt + seg.options.length / 4) seg.flags seg.windowSize) +
      wordSum (tcpPseudoHeaderBytes seg.srcAddr seg.destAddr n) + wordSum seg.options))
    (hn : n = seg.bytes.length) (hfield : seg.checksum = internetChecksumFinalize sum) :
    tcpChecksumIsOk seg.srcAddr seg.destAddr seg.bytes = true := by
  subst hn
  have hpseudo := internetChecksumIterate_represents (represents_zero)
    (tcpPseudoHeaderBytes seg.srcAddr seg.destAddr seg.bytes.length)
    (by rw [tcpPseudoHeaderBytes_length]; decide)
  have hwhole := internetChecksumIterate_represents hpseudo seg.bytes (by omega)
  have hbytes : wordSum seg.bytes = wordSum (tcpHeaderBytes seg.srcPort seg.destPort
      seg.seqNum seg.ackNum (tcpHdrLenNoOpt + seg.options.length / 4) seg.flags seg.windowSize)
      + seg.checksum.toNat + wordSum seg.options + wordSum seg.payload := by
    rw [TxSegment.bytes, wordSum_append _ _ (by
        rw [length_append, headerBytes_length, Nat.add_mod, hoptions]),
      wordSum_append _ _ (by rw [headerBytes_length]), wordSum_headerBytes]
  have hne := wordSum_pseudoHeader_ne_zero seg.srcAddr seg.destAddr seg.bytes.length
  rw [tcpChecksumIsOk, beq_iff_eq]
  refine hsum.complement (by omega) ?_
  have hcomp : (~~~sum).toNat = seg.checksum.toNat := by
    rw [hfield, internetChecksumFinalize]
  rw [hcomp, show ∀ p h q o k : ℕ, p + h + q + o + k = 0 + q + (h + k + o + p) by
    intros; omega, ← hbytes]
  exact hwhole

/-! ## The sender -/

/-- The segment that `tcp_send_segment_noqueue_raw` builds from three option blocks. -/
def builtSegment (payloadChecksum : U16) (payload mss ws ts : List U8) : TxSegment where
  srcAddr := hostAddr
  destAddr := peerAddr
  srcPort := hostPort
  destPort := peerPort
  seqNum := seqNum
  ackNum := ackNum
  flags := flags
  windowSize := windowSize
  checksum :=
    let hdr := tcpHeaderBytes hostPort peerPort seqNum ackNum
      (tcpHdrLenNoOpt + (mss ++ ws ++ ts).length / 4) flags windowSize
    let pseudo := tcpPseudoHeaderBytes hostAddr peerAddr
      (20 + (mss ++ ws ++ ts).length + payload.length)
    internetChecksumFinalize
      ([hdr, pseudo, mss, ws, ts].foldl internetChecksumIterate
        (internetChecksumAdd 0 payloadChecksum))
  options := mss ++ ws ++ ts
  payload := payload

theorem foldl_iterate_represents {sum : U16} {n : ℕ} (h : Represents sum n)
    (parts : List (List U8)) (hlen : ∀ part ∈ parts, part.length ≤ 131072) :
    Represents (parts.foldl internetChecksumIterate sum) (n + (parts.map wordSum).sum) := by
  induction parts generalizing sum n with
  | nil => exact h
  | cons part parts ih =>
    rw [map_cons, sum_cons, ← Nat.add_assoc]
    refine ih (internetChecksumIterate_represents h part (hlen part mem_cons_self)) ?_
    exact fun part' hm ↦ hlen part' (mem_cons_of_mem _ hm)

theorem builtSegment_bytes_length (cksum : U16) (payload mss ws ts : List U8) :
    (builtSegment hostAddr peerAddr hostPort peerPort seqNum ackNum flags windowSize cksum payload
      mss ws ts).bytes.length = 20 + (mss ++ ws ++ ts).length + payload.length := by
  rw [TxSegment.bytes, length_append, length_append]
  rfl

theorem builtSegment_ok {payload mss ws ts : List U8} (hm : mss.length % 2 = 0)
    (hw : ws.length % 2 = 0) (ht : ts.length % 2 = 0)
    (hlen : (builtSegment hostAddr peerAddr hostPort peerPort seqNum ackNum flags windowSize
      (internetChecksumIterate 0 payload) payload mss ws ts).bytes.length ≤ 65535) :
    tcpChecksumIsOk hostAddr peerAddr (builtSegment hostAddr peerAddr hostPort peerPort seqNum
      ackNum flags windowSize (internetChecksumIterate 0 payload) payload mss ws ts).bytes
      = true := by
  have htotal := hlen
  rw [builtSegment_bytes_length, length_append, length_append] at htotal
  have hpayload := internetChecksumAdd_zero_represents
    (internetChecksumIterate_represents (represents_zero) payload (by omega))
  have hsum := foldl_iterate_represents hpayload
    [tcpHeaderBytes hostPort peerPort seqNum ackNum
        (tcpHdrLenNoOpt + (mss ++ ws ++ ts).length / 4) flags windowSize,
      tcpPseudoHeaderBytes hostAddr peerAddr (20 + (mss ++ ws ++ ts).length + payload.length),
      mss, ws, ts] (by
    simp only [forall_mem_cons, tcpHeaderBytes_length, tcpPseudoHeaderBytes_length]
    refine ⟨by decide, by decide, by omega, by omega, by omega, fun _ h ↦ absurd h not_mem_nil⟩)
  refine tcpChecksumIsOk_of_represents (builtSegment hostAddr peerAddr hostPort peerPort seqNum
    ackNum flags windowSize _ payload mss ws ts) ?_ hlen ?_
    (builtSegment_bytes_length ..).symm rfl
  · show (mss ++ ws ++ ts).length % 2 = 0
    rw [length_append, length_append]
    omega
  · show Represents _ (wordSum payload + wordSum (tcpHeaderBytes hostPort peerPort seqNum ackNum
      (tcpHdrLenNoOpt + (mss ++ ws ++ ts).length / 4) flags windowSize)
      + wordSum (tcpPseudoHeaderBytes hostAddr peerAddr
        (20 + (mss ++ ws ++ ts).length + payload.length)) + wordSum (mss ++ ws ++ ts))
    rw [wordSum_append _ _ (by rw [length_append]; omega), wordSum_append _ _ hm]
    simp only [map_cons, sum_cons, Nat.zero_add,
      ← Nat.add_assoc] at hsum ⊢
    exact hsum

theorem tcpOptionWs_length (windowScale : U8) : (tcpOptionWs windowScale).length = 4 := rfl

theorem tcpOptionTs_length (tsval tsecr : U32) : (tcpOptionTs tsval tsecr).length = 12 := rfl

theorem ite_length_even (p : Prop) [Decidable p] {xs : List U8} (h : xs.length % 2 = 0) :
    (if p then xs else []).length % 2 = 0 := by
  split_ifs
  · exact h
  · rfl

/-- **A segment that is sent is accepted.** Whatever the addresses, ports, numbers, flags and
options, and whatever the payload, the segment that goes to the IP layer passes the check of its
receiver. Its length is one that the 16 bits of the pseudo header can say, which is more than any
send buffer holds. -/
theorem sent_checksum_ok (env : NetEnv) (g : Globals) (hostAddr peerAddr : Ipv4Addr)
    (hostPort peerPort : U16) (seqNum ackNum : U32) (windowSizeReal : ℕ) (windowScale : U8)
    (useWindowScale : Bool) (flags : U8) (payload : List U8) (tsRecent : U32)
    (useTimeStamps : Bool) (iface : Ipv4Addr) (hroute : env.routeAddr g.txTries = .ok iface) :
    ∃ seg, (tcpSendSegmentNoqueueRaw env g hostAddr peerAddr hostPort peerPort seqNum ackNum
        windowSizeReal windowScale useWindowScale flags (internetChecksumIterate 0 payload) payload
        tsRecent useTimeStamps).2.txLog = seg :: g.txLog ∧ seg.payload = payload ∧
      (seg.bytes.length ≤ 65535 → tcpChecksumIsOk hostAddr peerAddr seg.bytes = true) := by
  simp only [tcpSendSegmentNoqueueRaw, hroute]
  generalize (if iface = hostAddr then flags else tcpHdrFlagRst ||| tcpHdrFlagAck) = flags'
  refine ⟨builtSegment hostAddr peerAddr hostPort peerPort seqNum ackNum flags'
    (BitVec.ofNat 16 _) _
    payload (if hasFlag flags' tcpHdrFlagSyn = true then tcpOptionMss else [])
    (if _ = true then tcpOptionWs windowScale else [])
    (if useTimeStamps = true then tcpOptionTs _ tsRecent else []), rfl, rfl, ?_⟩
  exact builtSegment_ok hostAddr peerAddr hostPort peerPort seqNum ackNum flags' _
    (ite_length_even _ rfl) (ite_length_even _ (by rw [tcpOptionWs_length]))
    (ite_length_even _ (by rw [tcpOptionTs_length]))

/-- A SYN with all options and three bytes. -/
theorem sent_checksum_ok_three : ∃ seg, (tcpSendSegmentNoqueueRaw (.sending 7 hostA 0)
      (tcpInit 0).glob hostA peerA 80 5000 1 2 8192 0 true tcpHdrFlagSyn
      (internetChecksumIterate 0 [1, 2, 3]) [1, 2, 3] 9 true).2.txLog = [seg] ∧
    seg.bytes.length = 43 ∧ tcpChecksumIsOk hostA peerA seg.bytes = true := by
  obtain ⟨seg, hlog, -, hok⟩ := sent_checksum_ok (.sending 7 hostA 0) (tcpInit 0).glob hostA peerA 80
    5000 1 2 8192 0 true tcpHdrFlagSyn [1, 2, 3] 9 true hostA rfl
  have hlen : seg.bytes.length = 43 := by
    rw [← (List.cons.inj hlog).1]
    rfl
  exact ⟨seg, hlog, hlen, hok (by rw [hlen]; decide)⟩

end Mazu.Tcp
