import Mathlib.Data.List.FinRange
import Mazu.Lib.Links
import Mazu.Tcp.RecvBuf

/-!
# The data model of the TCP stack

The types of `kernel/net/tcp.c`: connections, their send queues, the connection table with its hash
buckets and timer heap, and the segments that arrive and leave.

A slot of the connection table is `none` when `is_used` is false, so that no field of a free slot
can be read. Pointers to connections are indices into the table. The pools of send and receive
buffers are the number of blocks left in them. Left out are the fields nothing here reads: the
statistics, the notification hooks, the magic number and the per-connection lock.

What the code calls outside this module comes in through `NetEnv`: the clock, which does not move
during one call, the outcome of each transmission attempt, and the random initial sequence number.
-/

namespace Mazu.Tcp

/-! ## Constants -/

def tcpMaxSynRcvdPerIp : ℕ := 16
def tcpMaxConnsPerIp : ℕ := 32
def tcpHashMask : U32 := 255
def tcpConnMaxNum : ℕ := 64
def tcpSbqNum : ℕ := 1024

def tcpHdrLenNoOpt : ℕ := 5
def tcpHdrFlagFin : U8 := 0x01
def tcpHdrFlagSyn : U8 := 0x02
def tcpHdrFlagRst : U8 := 0x04
def tcpHdrFlagAck : U8 := 0x10

def tcpOptMssValue : ℕ := 1460

def tcpConnDefaultMss : ℕ := 536
def tcpConnTimeWait : U64 := 1000
def tcpConnRtoMin : U32 := 200
def tcpConnRtoMax : U32 := 30000
def tcpConnInternalTimeout : U64 := 30000
def tcpConnSynRcvdTimeout : U64 := 4000
def tcpConnSynSentTimeout : U64 := 10000
def tcpConnKeepaliveIdleMs : U64 := 30000
def tcpConnKeepaliveIntvlMs : U64 := 10000
def tcpConnKeepaliveCnt : U32 := 8
def tcpConnPersistRtoMs : U64 := 200
def tcpConnDefaultRecvWindowSize : ℕ := tcpConnRecvBufSize / 2
def tcpConnInitialCwnd : ℕ := 10
def tcpConnDupackThresh : U32 := 3
def tcpCwndMax : U32 := 0x7FFFFFFF

/-! ## Segments -/

/-- `flags & f` as a truth value. -/
def hasFlag (flags f : U8) : Bool := (flags &&& f) != 0#8

/-- An arriving segment as `tcp_handle_packet` passes it on: the header fields, and the bytes after
the fixed header, which are the options followed by the payload. The proofs are the length checks
made before it is passed on, and the size of an IPv4 datagram. -/
structure Segment where
  srcPort : U16
  destPort : U16
  seqNum : U32
  ackNum : U32
  headerLen : ℕ
  flags : U8
  windowSize : U16
  body : List U8
  headerLen_ge : tcpHdrLenNoOpt ≤ headerLen
  headerLen_lt : headerLen < 16
  header_le : headerLen * 4 ≤ 20 + body.length
  length_le : 20 + body.length ≤ 65515

namespace Segment

variable (seg : Segment)

/-- The whole length of the segment, header included. -/
def len : ℕ := 20 + seg.body.length

def optionsLen : ℕ := (seg.headerLen - tcpHdrLenNoOpt) * 4

def options : List U8 := seg.body.take seg.optionsLen

def payload : List U8 := seg.body.drop seg.optionsLen

def fin : Bool := hasFlag seg.flags tcpHdrFlagFin

def syn : Bool := hasFlag seg.flags tcpHdrFlagSyn

def rst : Bool := hasFlag seg.flags tcpHdrFlagRst

def ack : Bool := hasFlag seg.flags tcpHdrFlagAck

end Segment

/-- A segment handed to the IP layer. Options are present as the flags and the connection ask. -/
structure TxSegment where
  srcAddr : Ipv4Addr
  destAddr : Ipv4Addr
  srcPort : U16
  destPort : U16
  seqNum : U32
  ackNum : U32
  flags : U8
  windowSize : U16
  /-- The header checksum, as the 16-bit word written to the wire. -/
  checksum : U16
  options : List U8
  payload : List U8

/-- `struct tsopt`: what the option parser hands to the state handlers. -/
structure TsOpt where
  haveTs : Bool
  tsval : U32
  tsecr : U32
  haveSackPermitted : Bool
  sackBlocks : List (U32 × U32)

def tsOptNone : TsOpt := ⟨false, 0, 0, false, []⟩

/-! ## Connections -/

/-- An index into the connection table: a `struct tcp_conn *`. -/
abbrev ConnIdx := Fin tcpConnMaxNum

/-- `enum tcp_conn_state`. -/
inductive TcpConnState
  | listen
  | established
  | closeWait
  | reset
  | synSent
  | synRcvd
  | lastAck
  | finWait1
  | finWait2
  | closing
  | timeWait
deriving DecidableEq, Repr

/-- `struct send_buf_queue`: a segment kept for retransmission. -/
structure SendBufQueue where
  seqNum : U32
  requiredAck : U32
  flags : U8
  checksum : U16
  payload : List U8
  nTransmissions : ℕ
  retryAfter : U64
  lastTry : U64

/-- `struct tcp_conn`. -/
structure TcpConn where
  mss : ℕ
  sendWindowReal : ℕ
  recvWindowSizeReal : ℕ
  internalTimeout : U64
  lastActivityMs : U64
  zeroWindowSinceMs : U64
  oooLen : ℕ
  listener : Option ConnIdx
  sendQueue : List SendBufQueue
  recvBuf : RecvBuf
  state : TcpConnState
  sendUnack : U32
  sendNext : U32
  iss : U32
  recvNext : U32
  tsRecent : U32
  lastAckSent : U32
  srtt : U32
  rttvar : U32
  rto : U32
  keepaliveProbes : U32
  oooSeqNum : U32
  cwnd : U32
  ssthresh : U32
  dupAckCount : U32
  hostPort : U16
  peerPort : U16
  useWindowScale : Bool
  sendWindowScale : U8
  useTimeStamps : Bool
  inFastRecovery : Bool
  acceptReady : U32
  hostAddr : Ipv4Addr
  peerAddr : Ipv4Addr
  oooBuf : List U8

/-- User-visible connections remain owned by the caller until `close`. -/
def tcpConnNeedsUserClose (c : TcpConn) : Bool :=
  c.state == .synSent || c.state == .established || c.state == .closeWait || c.state == .reset

def tcpConnIsInternal (c : TcpConn) : Bool :=
  c.state == .synRcvd || c.state == .lastAck || c.state == .finWait1 || c.state == .finWait2
    || c.state == .closing || c.state == .timeWait

/-! ## The module's state -/

/-- What the calls out of the module return. The `n`-th transmission attempt finds the interface
address `routeAddr n` and, if it gets as far as the IP layer, ends with `ipSend n`. -/
structure NetEnv where
  now : U64
  routeAddr : ℕ → Except Errno Ipv4Addr
  ipSend : ℕ → Result
  isn : U32

/-- The static variables other than the connection and hash tables: the cached timer, the buffer
pools, the ephemeral port counter, and what was handed to the IP layer (newest first). -/
structure Globals where
  nextTimerMs : U64
  sbqAvail : ℕ
  recvBufAvail : ℕ
  ephemeralPortNext : U16
  txTries : ℕ
  txLog : List TxSegment

/-- An entry of the timer heap. -/
structure TcpTimerEntry where
  fireMs : U64
  conn : ConnIdx

/-- The state of the TCP module. `generation` counts how often a slot was freed. -/
structure TcpStack where
  connTable : ConnIdx → Option TcpConn
  generation : ConnIdx → ℕ
  acceptLinks : Links ConnIdx
  hashTable : U32 → List ConnIdx
  hashSeed : U32
  timerHeap : ℕ → TcpTimerEntry
  timerHeapSize : ℕ
  glob : Globals

/-- The state `tcp_init` leaves behind. -/
def tcpInit (hashSeed : U32) : TcpStack where
  connTable := fun _ ↦ none
  generation := fun _ ↦ 0
  acceptLinks := Links.unlinked
  hashTable := fun _ ↦ []
  hashSeed := hashSeed
  timerHeap := fun _ ↦ ⟨0, ⟨0, by decide⟩⟩
  timerHeapSize := 0
  glob :=
    { nextTimerMs := timeMsMax
      sbqAvail := tcpSbqNum
      recvBufAvail := tcpConnMaxNum
      ephemeralPortNext := 49152
      txTries := 0
      txLog := [] }

/-- Overwrite one slot of the connection table. -/
def TcpStack.setConn (s : TcpStack) (i : ConnIdx) (c : Option TcpConn) : TcpStack :=
  { s with connTable := Function.update s.connTable i c }

/-- `tcp_timer_hint`: nudge the cached next timer if the deadline is earlier. -/
def tcpTimerHint (g : Globals) (deadlineMs : U64) : Globals :=
  if deadlineMs < g.nextTimerMs then { g with nextTimerMs := deadlineMs } else g

section

variable (g : Globals) (deadlineMs : U64)

@[simp] theorem tcpTimerHint_sbqAvail : (tcpTimerHint g deadlineMs).sbqAvail = g.sbqAvail := by
  rw [tcpTimerHint]
  split_ifs <;> rfl

@[simp] theorem tcpTimerHint_recvBufAvail :
    (tcpTimerHint g deadlineMs).recvBufAvail = g.recvBufAvail := by
  rw [tcpTimerHint]
  split_ifs <;> rfl

/-- Nothing but the cached timer changes. -/
theorem tcpTimerHint_eq : ∃ next, tcpTimerHint g deadlineMs = { g with nextTimerMs := next } := by
  rw [tcpTimerHint]
  split_ifs
  · exact ⟨deadlineMs, rfl⟩
  · exact ⟨g.nextTimerMs, rfl⟩

end

/-- What a routine working on one connection leaves behind: its result, the connection and the
globals. `freed` records that it ended in `tcp_free_conn`, `established` that it raised the
listener's `accept_ready`; both touch other parts of the stack, so its caller carries them out. -/
structure Outcome where
  res : Result
  conn : TcpConn
  glob : Globals
  freed : Bool := false
  established : Bool := false

section

variable (s : TcpStack) (i j : ConnIdx) (c : Option TcpConn)

@[simp] theorem setConn_connTable_self : (s.setConn i c).connTable i = c := by
  simp [TcpStack.setConn]

theorem setConn_connTable_of_ne {i j : ConnIdx} (h : j ≠ i) :
    (s.setConn i c).connTable j = s.connTable j := by
  simp [TcpStack.setConn, h]

@[simp] theorem setConn_glob : (s.setConn i c).glob = s.glob := rfl

@[simp] theorem setConn_hashTable : (s.setConn i c).hashTable = s.hashTable := rfl

@[simp] theorem setConn_hashSeed : (s.setConn i c).hashSeed = s.hashSeed := rfl

@[simp] theorem setConn_generation : (s.setConn i c).generation = s.generation := rfl

end

end Mazu.Tcp
