import Mazu.Tcp.Poll

/-!
# Arriving segments and the state machine

The option parser, one handler per connection state, the dispatcher `tcp_handle_packet_locked`, and
`tcp_handle_packet`, which checks the raw bytes first. Every handler but the one for LISTEN works on
its own connection only and returns an `Outcome`.
-/

namespace Mazu.Tcp

open Net

/-! ## Options -/

variable (env : NetEnv) (s : TcpStack) (c : TcpConn) (g : Globals) (seg : Segment) (tsopt : TsOpt)

def tcpConnAcceptsSynOptions : Bool :=
  match c.state with
  | .listen | .synSent | .synRcvd => true
  | _ => false

/-- The first `n` blocks of a SACK option, eight bytes each. -/
def sackBlocks : ℕ → List U8 → List (U32 × U32)
  | n + 1, b0 :: b1 :: b2 :: b3 :: b4 :: b5 :: b6 :: b7 :: rest =>
    (u32OfBe b0 b1 b2 b3, u32OfBe b4 b5 b6 b7) :: sackBlocks n rest
  | _, _ => []

/-- The loop of `tcp_handle_options` over the bytes not read yet. Each trip takes at least one
byte, so the number of bytes is enough fuel. -/
def tcpHandleOptionsLoop (allowSynOptions : Bool) :
    ℕ → TcpConn → TsOpt → List U8 → TcpConn × TsOpt
  | 0, c, t, _ => (c, t)
  | _, c, t, [] => (c, t)
  | fuel + 1, c, t, kind :: rest =>
    if kind = 0 then (c, t)
    else if kind = 1 then tcpHandleOptionsLoop allowSynOptions fuel c t rest
    else if kind = 2 then
      match rest with
      | _ :: b2 :: b3 :: rest =>
        let mss := (u16OfBe b2 b3).toNat
        let c := if allowSynOptions then
            { c with mss := if mss = 0 then tcpConnDefaultMss else mss } else c
        tcpHandleOptionsLoop allowSynOptions fuel c t rest
      | _ => (c, t)
    else if kind = 3 then
      match rest with
      | _ :: b2 :: rest =>
        let c := if allowSynOptions ∧ b2 ≤ 14 then
            { c with sendWindowScale := b2, useWindowScale := true } else c
        tcpHandleOptionsLoop allowSynOptions fuel c t rest
      | _ => (c, t)
    else if kind = 8 then
      match rest with
      | _ :: b2 :: b3 :: b4 :: b5 :: b6 :: b7 :: b8 :: b9 :: rest =>
        let t := { t with
          haveTs := true, tsval := u32OfBe b2 b3 b4 b5, tsecr := u32OfBe b6 b7 b8 b9 }
        tcpHandleOptionsLoop allowSynOptions fuel c t rest
      | _ => (c, t)
    else if kind = 4 then
      match rest with
      | _ :: rest =>
        let t := if allowSynOptions then { t with haveSackPermitted := true } else t
        tcpHandleOptionsLoop allowSynOptions fuel c t rest
      | _ => (c, t)
    else if kind = 5 then
      match rest with
      | len :: rest =>
        if len < 2 ∨ len.toNat > rest.length + 2 then (c, t)
        else
          let t := { t with sackBlocks := sackBlocks (min ((len.toNat - 2) / 8) 3) rest }
          tcpHandleOptionsLoop allowSynOptions fuel c t (rest.drop (len.toNat - 2))
      | _ => (c, t)
    else
      match rest with
      | len :: rest =>
        if len < 2 then (c, t)
        else tcpHandleOptionsLoop allowSynOptions fuel c t (rest.drop (len.toNat - 2))
      | _ => (c, t)

def tcpHandleOptions (flags : U8) (opts : List U8) : TcpConn × TsOpt :=
  tcpHandleOptionsLoop (hasFlag flags tcpHdrFlagSyn && tcpConnAcceptsSynOptions c) opts.length c
    tsOptNone opts

/-- What the options of a segment may change: the MSS and the window scale, and only when the flags
and the state admit the options of a SYN. -/
def OptionsUpdate (allow : Bool) (c d : TcpConn) : Prop :=
  ∃ mss scale use, d = { c with mss := mss, sendWindowScale := scale, useWindowScale := use }
    ∧ (scale = c.sendWindowScale ∨ scale ≤ 14) ∧ (allow = false → d = c)

theorem OptionsUpdate.refl (allow : Bool) (c : TcpConn) : OptionsUpdate allow c c :=
  ⟨c.mss, c.sendWindowScale, c.useWindowScale, rfl, .inl rfl, fun _ ↦ rfl⟩

theorem OptionsUpdate.trans {allow : Bool} {c d e : TcpConn} (h : OptionsUpdate allow c d)
    (h' : OptionsUpdate allow d e) : OptionsUpdate allow c e := by
  obtain ⟨mss, scale, use, rfl, hs, hn⟩ := h
  obtain ⟨mss', scale', use', rfl, hs', hn'⟩ := h'
  refine ⟨mss', scale', use', rfl, ?_, fun ha ↦ (hn' ha).trans (hn ha)⟩
  rcases hs' with rfl | hs'
  · exact hs
  · exact .inr hs'

private theorem optionsUpdate_mss (allow : Bool) (c : TcpConn) (mss : ℕ) :
    OptionsUpdate allow c (if allow then { c with mss := mss } else c) := by
  cases allow with
  | false => exact OptionsUpdate.refl _ c
  | true =>
    exact ⟨mss, c.sendWindowScale, c.useWindowScale, rfl, .inl rfl, fun h ↦ by cases h⟩

private theorem optionsUpdate_scale (allow : Bool) (c : TcpConn) (scale : U8) :
    OptionsUpdate allow c (if allow ∧ scale ≤ 14 then
      { c with sendWindowScale := scale, useWindowScale := true } else c) := by
  by_cases h : allow ∧ scale ≤ 14
  · rw [if_pos h]
    exact ⟨c.mss, scale, true, rfl, .inr h.2, fun ha ↦ by simp [ha] at h⟩
  · rw [if_neg h]
    exact OptionsUpdate.refl _ c

theorem tcpHandleOptionsLoop_update (allow : Bool) (fuel : ℕ) (c : TcpConn) (t : TsOpt)
    (opts : List U8) : OptionsUpdate allow c (tcpHandleOptionsLoop allow fuel c t opts).1 := by
  fun_induction tcpHandleOptionsLoop allow fuel c t opts with
  -- the MSS and the window scale are the two options that write to the connection
  | case5 _ _ _ _ _ _ _ _ _ _ _ ih => exact (optionsUpdate_mss _ _ _).trans ih
  | case7 _ _ _ _ _ _ _ _ _ _ ih => exact (optionsUpdate_scale _ _ _).trans ih
  | _ => first | exact OptionsUpdate.refl _ _ | assumption

theorem tcpHandleOptions_update (flags : U8) (opts : List U8) :
    OptionsUpdate (hasFlag flags tcpHdrFlagSyn && tcpConnAcceptsSynOptions c) c
      (tcpHandleOptions c flags opts).1 :=
  tcpHandleOptionsLoop_update _ _ _ _ _

/-! ## The handlers -/

/-- Send an empty segment as the last act of a handler. -/
def replyEmpty (flags : U8) : Outcome :=
  let (res, c, g) := tcpSendSegmentEmpty env c g flags
  { res := res, conn := c, glob := g }

/-- Leave a connection as it is, successfully. -/
def keep : Outcome := { res := resultOk, conn := c, glob := g }

/-- Timestamps are used once the SYN of the peer carried one. -/
def negotiateTs : TcpConn :=
  if tsopt.haveTs then { c with useTimeStamps := true, tsRecent := tsopt.tsval } else c

/-- The end of `tcp_handle_receive_syn_sent`: a connection without a receive buffer is reset, any
other is ESTABLISHED and completes the handshake. -/
def tcpSynSentOpen : Outcome :=
  if g.recvBufAvail = 0 then
    let (_, c, g) := tcpSendSegmentEmpty env c g tcpHdrFlagRst
    { res := .error enomem, conn := { c with state := .reset }, glob := g }
  else
    let g := { g with recvBufAvail := g.recvBufAvail - 1 }
    let c := { c with
      recvBuf := recvBufNew, state := .established, internalTimeout := timeMsMax }
    { replyEmpty env c g tcpHdrFlagAck with established := true }

def tcpHandleReceiveSynSent : Outcome :=
  if seg.rst then keep { c with state := .reset } g
  else if !(seg.syn && seg.ack) then keep c g
  else if seg.ackNum ≠ c.iss + 1 then replyEmpty env c g tcpHdrFlagRst
  else
    let (c, g) := tcpConnUpdateSendState env c g seg tsopt
    tcpSynSentOpen env (negotiateTs { c with recvNext := seg.seqNum + 1 } tsopt) g

def tcpHandleReceiveSynRcvd : Outcome :=
  if seg.rst then { keep c g with freed := true }
  else if !seg.ack then keep c g
  else if seg.ackNum ≠ c.iss + 1 then keep c g
  else
    let c := { c with state := .established }
    let (c, g) := tcpConnUpdateSendState env c g seg tsopt
    if g.recvBufAvail = 0 then
      let (_, c, g) := tcpSendSegmentEmpty env c g tcpHdrFlagRst
      { res := .error enomem, conn := c, glob := g, freed := true, established := true }
    else
      let g := { g with recvBufAvail := g.recvBufAvail - 1 }
      { keep { c with recvBuf := recvBufNew } g with established := true }

def tcpHandleReceiveEstablished : Outcome :=
  if seg.rst then keep { c with state := .reset } g
  else
    let (c, g) := tcpConnUpdateSendState env c g seg tsopt
    let (nReceived, c) := tcpConnUpdateRecvState c seg tsopt
    if seg.fin then replyEmpty env { c with state := .closeWait } g tcpHdrFlagAck
    else if nReceived > 0 ∨ seg.payload.length > 0 then replyEmpty env c g tcpHdrFlagAck
    else keep c g

/-- The branch of the dispatcher for CLOSE_WAIT, which has no handler of its own. -/
def tcpHandleReceiveCloseWait : Outcome :=
  let (res, c, g) := tcpSendSegmentNoqueue env c g tcpHdrFlagAck c.sendNext 0 []
  { res := res, conn := c, glob := g }

def tcpHandleReceiveLastAck : Outcome :=
  if seg.ack || seg.rst then { keep c g with freed := true } else keep c g

def tcpHandleReceiveFinWait1 : Outcome :=
  if seg.rst then { keep c g with freed := true }
  else if seg.fin && seg.ack then
    let (c, g) := tcpConnSetInternalTimeout env { c with state := .timeWait } g
    let (c, g) := tcpConnUpdateSendState env c g seg tsopt
    let (_, c) := tcpConnUpdateRecvState c seg tsopt
    replyEmpty env c g tcpHdrFlagAck
  else if seg.fin then
    let (c, g) := tcpConnSetInternalTimeout env { c with state := .closing } g
    let (c, g) := tcpConnUpdateSendState env c g seg tsopt
    let (_, c) := tcpConnUpdateRecvState c seg tsopt
    replyEmpty env c g tcpHdrFlagAck
  else if seg.ack then
    let (c, g) := tcpConnSetInternalTimeout env { c with state := .finWait2 } g
    let (c, g) := tcpConnUpdateSendState env c g seg tsopt
    let (_, c) := tcpConnUpdateRecvState c seg tsopt
    keep c g
  else keep c g

def tcpHandleReceiveFinWait2 : Outcome :=
  if seg.rst then { keep c g with freed := true }
  else
    let (c, g) := tcpConnUpdateSendState env c g seg tsopt
    let (_, c) := tcpConnUpdateRecvState c seg tsopt
    if !seg.fin then keep c g
    else
      let (c, g) := tcpConnSetInternalTimeout env { c with state := .timeWait } g
      replyEmpty env c g tcpHdrFlagAck

def tcpHandleReceiveClosing : Outcome :=
  if seg.rst then { keep c g with freed := true }
  else if !seg.ack then keep c g
  else
    let (c, g) := tcpConnSetInternalTimeout env { c with state := .timeWait } g
    let (c, g) := tcpConnUpdateSendState env c g seg tsopt
    keep c g

def tcpHandleReceiveTimeWait : Outcome :=
  if seg.rst then { keep c g with freed := true }
  else
    let (c, g) := tcpConnUpdateSendState env c g seg tsopt
    let (_, c) := tcpConnUpdateRecvState c seg tsopt
    if !seg.fin then keep c g else replyEmpty env c g tcpHdrFlagAck

/-! ## The LISTEN state -/

/-- The slots whose connection satisfies a test, counted. -/
def TcpStack.countConns (p : TcpConn → Bool) : ℕ :=
  (List.finRange tcpConnMaxNum).countP fun i ↦ (s.connTable i).any p

def synRcvdFromPeer (peerAddr : Ipv4Addr) : ℕ :=
  s.countConns fun c ↦ c.peerAddr == peerAddr && c.state == .synRcvd

def totalConnsFromPeer (peerAddr : Ipv4Addr) : ℕ :=
  s.countConns fun c ↦ c.peerAddr == peerAddr && !tcpConnIsInternal c

/-- What `tcp_handle_receive_listen` sets in the connection it created. -/
def tcpListenChild (listenConn c : TcpConn) (l : ConnIdx) (peerAddr : Ipv4Addr) (seg : Segment) :
    TcpConn :=
  { c with
    listener := some l
    peerAddr := peerAddr
    peerPort := seg.srcPort
    recvNext := seg.seqNum + 1
    sendWindowScale := listenConn.sendWindowScale
    useWindowScale := listenConn.useWindowScale }

/-- Refuse a SYN with a reset: `SEQ = ACK_field` without ACK if the SYN carried one, else
`RST|ACK` for the sequence number the SYN consumed. -/
def tcpListenRefuse (listenConn : TcpConn) (peerAddr : Ipv4Addr) (seg : Segment)
    : Result × TcpStack :=
  let (res, g) := tcpSendSegmentNoqueueRaw env s.glob listenConn.hostAddr peerAddr
    listenConn.hostPort seg.srcPort (if seg.ack then seg.ackNum else 0)
    (if seg.ack then 0 else seg.seqNum + 1) 0 0 false
    (if seg.ack then tcpHdrFlagRst else tcpHdrFlagRst ||| tcpHdrFlagAck) 0 [] 0 false
  (res, { s with glob := g })

/-- The SYN-ACK of a new connection. -/
def tcpListenReply : Result × TcpConn × Globals :=
  let (c, g) := tcpConnSetInternalTimeout env c g
  tcpSendSegmentEmpty env (negotiateTs c tsopt) g (tcpHdrFlagSyn ||| tcpHdrFlagAck)

/-- A new connection in SYN_RCVD answers the SYN, so that the listener can stay in LISTEN. -/
def tcpListenAccept (l : ConnIdx) (listenConn : TcpConn) (peerAddr : Ipv4Addr) (seg : Segment)
    (tsopt : TsOpt) : Result × TcpStack :=
  match tcpConnAllocAndInit env s listenConn.hostAddr listenConn.hostPort listenConn.mss
      .synRcvd with
  | (none, s) => (resultOk, s)
  | (some i, s) =>
    match s.connTable i with
    | none => (resultOk, s)
    | some c =>
      let s := { s with acceptLinks := s.acceptLinks.add l i }
      let c := tcpListenChild listenConn c l peerAddr seg
      let s := tcpHashInsert s i c
      let (res, c, g) := tcpListenReply env c s.glob tsopt
      (res, { s.setConn i (some c) with glob := g })

def tcpHandleReceiveListen (l : ConnIdx) (listenConn : TcpConn) (peerAddr : Ipv4Addr)
    (seg : Segment) (tsopt : TsOpt) : Result × TcpStack :=
  if seg.rst then (resultOk, s)
  else if !seg.syn then (resultOk, s)
  else if synRcvdFromPeer s peerAddr ≥ tcpMaxSynRcvdPerIp then (resultOk, s)
  else if totalConnsFromPeer s peerAddr ≥ tcpMaxConnsPerIp then
    tcpListenRefuse env s listenConn peerAddr seg
  else tcpListenAccept env s l listenConn peerAddr seg tsopt

/-! ## The dispatcher -/

/-- No connection matches: answer with a reset. -/
def tcpRefuseUnknown (hostAddr peerAddr : Ipv4Addr) (seg : Segment) : Result × TcpStack :=
  if seg.ack then
    let (res, g) := tcpSendSegmentNoqueueRaw env s.glob hostAddr peerAddr seg.destPort seg.srcPort
      seg.ackNum 0 0 0 false tcpHdrFlagRst 0 [] 0 false
    (res, { s with glob := g })
  else
    let segLen := tcpSegmentAdvance seg.flags seg.payload
    let (res, g) := tcpSendSegmentNoqueueRaw env s.glob hostAddr peerAddr seg.destPort seg.srcPort
      0 (seg.seqNum + segLen) 0 0 false (tcpHdrFlagRst ||| tcpHdrFlagAck) 0 [] 0 false
    (res, { s with glob := g })

/-- What every segment does to its connection before the state is looked at. -/
def tcpConnNote : TcpConn :=
  { c with lastActivityMs := env.now, keepaliveProbes := 0 }

/-- The connection and the parsed options, before the state is looked at. -/
def tcpConnParse : TcpConn × TsOpt :=
  let c := tcpConnNote env c
  if seg.headerLen > tcpHdrLenNoOpt then tcpHandleOptions c seg.flags seg.options
  else (c, tsOptNone)

/-- Before the state is looked at, only the options and the time of activity are noted. -/
theorem tcpConnParse_eq :
    ∃ mss scale use, (tcpConnParse env c seg).1 = { tcpConnNote env c with
      mss := mss, sendWindowScale := scale, useWindowScale := use } := by
  simp only [tcpConnParse]
  split_ifs
  · obtain ⟨mss, scale, use, heq, -⟩ :=
      tcpHandleOptions_update _ seg.flags seg.options
    exact ⟨mss, scale, use, heq⟩
  · exact ⟨c.mss, c.sendWindowScale, c.useWindowScale, rfl⟩

/-- The handlers of the states other than LISTEN. -/
def tcpDispatch : Outcome :=
  match c.state with
  | .listen => keep c g
  | .synSent => tcpHandleReceiveSynSent env c g seg tsopt
  | .synRcvd => tcpHandleReceiveSynRcvd env c g seg tsopt
  | .established => tcpHandleReceiveEstablished env c g seg tsopt
  | .closeWait => tcpHandleReceiveCloseWait env c g
  | .lastAck => tcpHandleReceiveLastAck c g seg
  | .finWait1 => tcpHandleReceiveFinWait1 env c g seg tsopt
  | .finWait2 => tcpHandleReceiveFinWait2 env c g seg tsopt
  | .closing => tcpHandleReceiveClosing env c g seg tsopt
  | .timeWait => tcpHandleReceiveTimeWait env c g seg tsopt
  | .reset => keep c g

def tcpHandlePacketLocked (hostAddr peerAddr : Ipv4Addr) (seg : Segment) : Result × TcpStack :=
  match tcpLookupConn s hostAddr peerAddr seg.destPort seg.srcPort with
  | none => tcpRefuseUnknown env s hostAddr peerAddr seg
  | some i =>
    match s.connTable i with
    | none => (resultOk, s)
    | some c =>
      if seg.headerLen > tcpHdrLenNoOpt ∧ 20 + seg.optionsLen > seg.len then
        (resultOk, s.setConn i (some (tcpConnNote env c)))
      else
        let (c, tsopt) := tcpConnParse env c seg
        if c.state = .listen then
          tcpHandleReceiveListen env (s.setConn i (some c)) i c peerAddr seg tsopt
        else
          let o := tcpDispatch env c s.glob seg tsopt
          (o.res, settle s i o)

/-- A segment whose header is longer than itself is dropped before it gets here. -/
theorem options_fit : ¬(seg.headerLen > tcpHdrLenNoOpt ∧ 20 + seg.optionsLen > seg.len) := by
  have h := seg.header_le
  rintro ⟨hgt, hlen⟩
  simp only [Segment.optionsLen, Segment.len, tcpHdrLenNoOpt] at hgt hlen
  omega

/-! ## Raw bytes -/

/-- The header checks of `tcp_handle_packet`. That a segment has at most 65515 bytes is no check made
there: the IP layer cuts it out of a datagram whose 16-bit length counts a header of 20 bytes. -/
def parseSegment (bytes : List U8) : Option Segment :=
  match bytes with
  | p0 :: p1 :: p2 :: p3 :: s0 :: s1 :: s2 :: s3 :: a0 :: a1 :: a2 :: a3 :: off :: flags
      :: w0 :: w1 :: _ :: _ :: _ :: _ :: body =>
    if h : tcpHdrLenNoOpt ≤ off.toNat / 16 ∧ off.toNat / 16 * 4 ≤ 20 + body.length
        ∧ 20 + body.length ≤ 65515 then
      some
        { srcPort := u16OfBe p0 p1, destPort := u16OfBe p2 p3
          seqNum := u32OfBe s0 s1 s2 s3, ackNum := u32OfBe a0 a1 a2 a3
          headerLen := off.toNat / 16, flags := flags, windowSize := u16OfBe w0 w1, body := body
          headerLen_ge := h.1
          headerLen_lt := by have := off.isLt; omega
          header_le := h.2.1
          length_le := h.2.2 }
    else none
  | _ => none

def tcpChecksumIsOk (srcAddr destAddr : Ipv4Addr) (bytes : List U8) : Bool :=
  let checksum := internetChecksumIterate 0 (tcpPseudoHeaderBytes srcAddr destAddr bytes.length)
  internetChecksumFinalize (internetChecksumIterate checksum bytes) == 0

def tcpHandlePacket (srcAddr destAddr : Ipv4Addr) (bytes : List U8) : Result × TcpStack :=
  match parseSegment bytes with
  | none => (resultOk, s)
  | some seg =>
    if !tcpChecksumIsOk srcAddr destAddr bytes then (resultOk, s)
    -- a spoofed source
    else if srcAddr = ipv4AddrAny then (resultOk, s)
    else tcpHandlePacketLocked env s destAddr srcAddr seg

end Mazu.Tcp
