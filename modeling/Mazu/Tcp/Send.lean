import Mazu.Net.Checksum
import Mazu.Tcp.Update

/-!
# Transmission and the send queue

`tcp_send_segment_noqueue_raw` hands one segment to the IP layer, `tcp_send_segment_noqueue` does so
for a connection, and `tcp_send_segment` also keeps the segment in the send queue until it is
acknowledged. Pure acknowledgements go through the queue like data.
-/

namespace Mazu.Tcp

open Net

/-! ## Building a segment -/

def tcpOptionMss : List U8 := [2, 4] ++ be16 (BitVec.ofNat 16 tcpOptMssValue)

def tcpOptionWs (windowScale : U8) : List U8 := [3, 3, windowScale, 1]

def tcpOptionTs (tsval tsecr : U32) : List U8 := [8, 10] ++ be32 tsval ++ be32 tsecr ++ [1, 1]

/-- The fixed header, with the checksum field still zero. -/
def tcpHeaderBytes (srcPort destPort : U16) (seqNum ackNum : U32) (headerLen : ℕ) (flags : U8)
    (windowSize : U16) : List U8 :=
  be16 srcPort ++ be16 destPort ++ be32 seqNum ++ be32 ackNum
    ++ [BitVec.ofNat 8 (headerLen * 16), flags] ++ be16 windowSize ++ [0, 0] ++ [0, 0]

/-- `struct tcp_ip_pseudo_header`. -/
def tcpPseudoHeaderBytes (src dest : Ipv4Addr) (tcpLength : ℕ) : List U8 :=
  src.bytes ++ dest.bytes ++ [0, 6] ++ be16 (BitVec.ofNat 16 tcpLength)

variable (env : NetEnv) (c : TcpConn) (g : Globals) (flags : U8)

def tcpSendSegmentNoqueueRaw (hostAddr peerAddr : Ipv4Addr) (hostPort peerPort : U16)
    (seqNum ackNum : U32) (windowSizeReal : ℕ) (windowScale : U8) (useWindowScale : Bool)
    (flags : U8) (payloadChecksum : U16) (payload : List U8) (tsRecent : U32)
    (useTimeStamps : Bool) : Result × Globals :=
  let n := g.txTries
  let g := { g with txTries := n + 1 }
  match env.routeAddr n with
  | .error e => (.error e, g)
  | .ok iface =>
    -- a changed interface address forces a reset, without the options of a SYN
    let flags := if iface = hostAddr then flags else tcpHdrFlagRst ||| tcpHdrFlagAck
    let syn := hasFlag flags tcpHdrFlagSyn
    let mss := if syn then tcpOptionMss else []
    let ws := if syn && useWindowScale then tcpOptionWs windowScale else []
    let ts := if useTimeStamps then tcpOptionTs (env.now.setWidth 32) tsRecent else []
    let options := mss ++ ws ++ ts
    let windowSize := BitVec.ofNat 16 (windowSizeReal >>> windowScale.toNat)
    let hdr := tcpHeaderBytes hostPort peerPort seqNum ackNum (tcpHdrLenNoOpt + options.length / 4)
      flags windowSize
    let checksum := internetChecksumAdd 0 payloadChecksum
    let checksum := internetChecksumIterate checksum hdr
    let checksum := internetChecksumIterate checksum
      (tcpPseudoHeaderBytes hostAddr peerAddr (20 + options.length + payload.length))
    let checksum := internetChecksumIterate checksum mss
    let checksum := internetChecksumIterate checksum ws
    let checksum := internetChecksumIterate checksum ts
    let seg : TxSegment :=
      { srcAddr := hostAddr, destAddr := peerAddr, srcPort := hostPort, destPort := peerPort
        seqNum := seqNum, ackNum := ackNum, flags := flags, windowSize := windowSize
        checksum := internetChecksumFinalize checksum, options := options, payload := payload }
    (env.ipSend n, { g with txLog := seg :: g.txLog })

/-- The `n`-th transmission attempt succeeds. -/
def NetEnv.sendsAt (n : ℕ) : Bool := (env.routeAddr n).isOk && (env.ipSend n).isOk

/-- **A transmission** takes one answer of the environment and at most adds to what was sent. -/
theorem tcpSendSegmentNoqueueRaw_spec (hostAddr peerAddr : Ipv4Addr) (hostPort peerPort : U16)
    (seqNum ackNum : U32) (window : ℕ) (scale : U8) (useScale : Bool) (flags : U8) (cksum : U16)
    (payload : List U8) (tsRecent : U32) (useTs : Bool) :
    ∃ res log, tcpSendSegmentNoqueueRaw env g hostAddr peerAddr hostPort peerPort seqNum ackNum window
        scale useScale flags cksum payload tsRecent useTs =
      (res, { g with txTries := g.txTries + 1, txLog := log }) ∧
        Except.isOk res = env.sendsAt g.txTries := by
  simp only [tcpSendSegmentNoqueueRaw]
  cases hroute : env.routeAddr g.txTries with
  | error e | ok iface => exact ⟨_, _, rfl, by rw [NetEnv.sendsAt, hroute]; rfl⟩

/-! ## Sending for a connection -/

/-- The window update `tcp_send_segment_noqueue` makes before it sends. -/
def tcpConnOpenWindow : TcpConn :=
  if c.state ≠ .listen ∧ c.state ≠ .synSent ∧ c.state ≠ .synRcvd then
    let space := recvBufSpace c.recvBuf
    if (space : ℤ) - c.recvWindowSizeReal ≥ tcpOptMssValue then
      { c with recvWindowSizeReal := space }
    else c
  else c

def tcpSendSegmentNoqueue (seqNum : U32) (payloadChecksum : U16) (payload : List U8)
    : Result × TcpConn × Globals :=
  let c := tcpConnOpenWindow c
  let c := if hasFlag flags tcpHdrFlagAck then { c with lastAckSent := c.recvNext } else c
  let (res, g) := tcpSendSegmentNoqueueRaw env g c.hostAddr c.peerAddr c.hostPort c.peerPort seqNum
    c.recvNext c.recvWindowSizeReal 0 c.useWindowScale flags payloadChecksum payload c.tsRecent
    c.useTimeStamps
  (res, c, g)

/-- How far a segment advances `send_next`: its bytes, and one each for SYN and FIN. -/
def tcpSegmentAdvance (fragment : List U8) : U32 :=
  let advance := BitVec.ofNat 32 fragment.length
  let advance := if hasFlag flags tcpHdrFlagSyn then advance + 1 else advance
  if hasFlag flags tcpHdrFlagFin then advance + 1 else advance

/-- The queue entry for a segment sent now. -/
def tcpNewSbq (fragment : List U8) : SendBufQueue where
  seqNum := c.sendNext
  requiredAck := c.sendNext + tcpSegmentAdvance flags fragment
  flags := flags
  checksum := internetChecksumIterate 0 fragment
  payload := fragment
  nTransmissions := 1
  retryAfter := c.rto.setWidth 64
  lastTry := env.now

def tcpSendSegment (fragment : List U8) : Result × TcpConn × Globals :=
  if g.sbqAvail = 0 then (.error enomem, c, g)
  else
    let sbq := tcpNewSbq env c flags fragment
    let g := { g with sbqAvail := g.sbqAvail - 1 }
    let g := tcpTimerHint g (sbq.lastTry + sbq.retryAfter)
    let c := { c with sendNext := sbq.requiredAck, sendQueue := c.sendQueue ++ [sbq] }
    tcpSendSegmentNoqueue env c g sbq.flags sbq.seqNum sbq.checksum sbq.payload

def tcpSendSegmentEmpty : Result × TcpConn × Globals :=
  tcpSendSegment env c g flags []

/-- Every transmission goes through. -/
def NetEnv.Sends : Prop :=
  ∀ n, (∃ a, env.routeAddr n = .ok a) ∧ env.ipSend n = resultOk

theorem NetEnv.Sends.noqueue {env : NetEnv} (h : env.Sends) (c : TcpConn) (g : Globals)
    (flags : U8) (seqNum : U32) (cksum : U16) (payload : List U8) :
    (tcpSendSegmentNoqueue env c g flags seqNum cksum payload).1 = resultOk := by
  obtain ⟨⟨a, ha⟩, hsend⟩ := h g.txTries
  simp only [tcpSendSegmentNoqueue, tcpSendSegmentNoqueueRaw, ha]
  exact hsend

/-- A transmission takes no entry. -/
@[simp] theorem tcpSendSegmentNoqueue_sbqAvail (seqNum : U32) (cksum : U16) (payload : List U8) :
    (tcpSendSegmentNoqueue env c g flags seqNum cksum payload).2.2.sbqAvail = g.sbqAvail := by
  simp only [tcpSendSegmentNoqueue, tcpSendSegmentNoqueueRaw]
  split <;> rfl

end Mazu.Tcp
