import Mazu.Tcp.Update

/-!
# The connection table

Allocation and release of connections, the hash buckets that hold the connected ones by 4-tuple,
and the lookup that finds the connection of an arriving segment.
-/

namespace Mazu.Tcp

open Function

/-! ## The hash table -/

/-- One byte of the Jenkins one-at-a-time hash. -/
def jenkinsMix (h : U32) (b : U8) : U32 :=
  let h := h + b.setWidth 32
  let h := h + (h <<< 10)
  h ^^^ (h >>> 6)

def tcpHash4tuple (hashSeed : U32) (hostAddr : Ipv4Addr) (hostPort : U16) (peerAddr : Ipv4Addr)
    (peerPort : U16) : U32 :=
  let key := hostAddr.bytes ++ [hostPort.setWidth 8, (hostPort >>> 8).setWidth 8]
    ++ peerAddr.bytes ++ [peerPort.setWidth 8, (peerPort >>> 8).setWidth 8]
  let h := key.foldl jenkinsMix hashSeed
  -- the final avalanche
  let h := h + (h <<< 3)
  let h := h ^^^ (h >>> 11)
  h + (h <<< 15)

def tcpHashBucket (hashSeed : U32) (hostAddr : Ipv4Addr) (hostPort : U16) (peerAddr : Ipv4Addr)
    (peerPort : U16) : U32 :=
  tcpHash4tuple hashSeed hostAddr hostPort peerAddr peerPort &&& tcpHashMask

variable (env : NetEnv) (s : TcpStack) (i : ConnIdx)

/-- Insert a connection at the head of the bucket of its 4-tuple. -/
def tcpHashInsert (c : TcpConn) : TcpStack :=
  let bucket := tcpHashBucket s.hashSeed c.hostAddr c.hostPort c.peerAddr c.peerPort
  { s with hashTable := update s.hashTable bucket (i :: s.hashTable bucket) }

/-- Unlink the node of a connection from whichever bucket holds it. -/
def tcpHashRemove : TcpStack :=
  { s with hashTable := fun b ↦ (s.hashTable b).filter (· ≠ i) }

/-! ## Release -/

/-- Change `accept_ready` of a connection, if the slot is in use. -/
def modifyAcceptReady (l : ConnIdx) (f : U32 → U32) : TcpStack :=
  match s.connTable l with
  | none => s
  | some lc => s.setConn l (some { lc with acceptReady := f lc.acceptReady })

/-- The ready child of a listener is taken off its count. -/
def dropAcceptReady (c : TcpConn) : TcpStack :=
  match c.listener with
  | none => s
  | some l =>
    if !s.acceptLinks.isEmpty i && tcpConnNeedsUserClose c then
      modifyAcceptReady s l fun n ↦ if n > 0 then n - 1 else n
    else s

def tcpFreeConn : TcpStack :=
  match s.connTable i with
  | none => s
  | some c =>
    let s := tcpHashRemove (dropAcceptReady s i c) i
    let g := s.glob
    { s with
      connTable := update s.connTable i none
      generation := update s.generation i (s.generation i + 1)
      acceptLinks := s.acceptLinks.delInit i
      glob :=
        { g with
          recvBufAvail := if c.recvBuf.len = 0 then g.recvBufAvail else g.recvBufAvail + 1
          sbqAvail := g.sbqAvail + c.sendQueue.length } }

/-- What the purge does with one slot. -/
def tcpPurgeSlot : TcpStack :=
  match s.connTable i with
  | none => s
  | some c =>
    if tcpConnIsInternal c ∧ env.now ≥ c.internalTimeout then tcpFreeConn s i
    else if c.state = .synSent ∧ env.now ≥ c.internalTimeout then
      -- the user holds the pointer, so the connection is reset and not freed
      s.setConn i (some { c with state := .reset })
    else s

def tcpPurgeOldConn : TcpStack :=
  (List.finRange tcpConnMaxNum).foldl (tcpPurgeSlot env) s

/-! ## Allocation -/

/-- The first free slot, after expired connections were purged. -/
def tcpAllocConn : Option ConnIdx × TcpStack :=
  let s := tcpPurgeOldConn env s
  ((List.finRange tcpConnMaxNum).find? fun i ↦ (s.connTable i).isNone, s)

/-- The fields `tcp_conn_alloc_and_init` sets. -/
def tcpConnInit (hostAddr : Ipv4Addr) (hostPort : U16) (mss : ℕ) (state : TcpConnState)
    : TcpConn where
  mss := mss
  sendWindowReal := 0
  recvWindowSizeReal := tcpConnDefaultRecvWindowSize
  internalTimeout := timeMsMax
  lastActivityMs := env.now
  zeroWindowSinceMs := 0
  oooLen := 0
  listener := none
  sendQueue := []
  recvBuf := recvBufNone
  state := state
  sendUnack := env.isn
  sendNext := env.isn
  iss := env.isn
  recvNext := 0
  tsRecent := 0
  lastAckSent := 0
  srtt := 0
  rttvar := 0
  rto := tcpConnRtoMin
  keepaliveProbes := 0
  oooSeqNum := 0
  cwnd := BitVec.ofNat 32 (tcpConnInitialCwnd * mss)
  ssthresh := 0xFFFFFFFF
  dupAckCount := 0
  hostPort := hostPort
  peerPort := 0
  useWindowScale := false
  sendWindowScale := 0
  useTimeStamps := false
  inFastRecovery := false
  acceptReady := 0
  hostAddr := hostAddr
  peerAddr := ipv4AddrAny
  oooBuf := []

def tcpConnAllocAndInit (hostAddr : Ipv4Addr) (hostPort : U16) (mss : ℕ) (state : TcpConnState)
    : Option ConnIdx × TcpStack :=
  match tcpAllocConn env s with
  | (none, s) => (none, s)
  | (some i, s) =>
    let s := s.setConn i (some (tcpConnInit env hostAddr hostPort mss state))
    (some i,
      { s with
        acceptLinks := s.acceptLinks.init i
        glob := tcpTimerHint s.glob (env.now + tcpConnKeepaliveIdleMs) })

/-- The slots whose connection satisfies a test, in table order. -/
def TcpStack.findConn (p : TcpConn → Bool) : Option ConnIdx :=
  (List.finRange tcpConnMaxNum).find? fun i ↦ (s.connTable i).any p

def portInUse (port : U16) : Bool :=
  (s.findConn fun c ↦ c.hostPort == port).isSome

/-- The search of `tcp_alloc_ephemeral_port`, one port a trip. `next` is the counter; the result
pairs the port found, zero when the search wraps round, with the counter left behind. -/
def ephemeralSearch (s : TcpStack) (start : U16) : ℕ → U16 → U16 × U16
  | 0, next => (0, next)
  | fuel + 1, next =>
    let port := next
    let next := if next + 1 < 49152 then 49152 else next + 1
    if !portInUse s port then (port, next)
    else if next = start then (0, next)
    else ephemeralSearch s start fuel next

/-- The counter visits each of the 16384 dynamic ports before it comes back to its start. -/
def tcpAllocEphemeralPort : U16 × TcpStack :=
  let (port, next) := ephemeralSearch s s.glob.ephemeralPortNext 16384 s.glob.ephemeralPortNext
  (port, { s with glob := { s.glob with ephemeralPortNext := next } })

/-! ## Lookup -/

/-- All four components agree. -/
def exactMatch (hostAddr peerAddr : Ipv4Addr) (hostPort peerPort : U16) (c : TcpConn) : Bool :=
  hostAddr == c.hostAddr && hostPort == c.hostPort && peerAddr == c.peerAddr
    && peerPort == c.peerPort

/-- The address and port of the host agree, and those of the peer agree or are a wildcard on either
side. -/
def wildcardMatch (hostAddr peerAddr : Ipv4Addr) (hostPort peerPort : U16) (c : TcpConn) : Bool :=
  hostAddr == c.hostAddr && hostPort == c.hostPort
    && (peerAddr == ipv4AddrAny || c.peerAddr == ipv4AddrAny || peerAddr == c.peerAddr)
    && (peerPort == 0 || c.peerPort == 0 || peerPort == c.peerPort)

/-- The walk along one hash chain. A node on a chain is followed without looking at `is_used`. -/
def hashChainFind (p : TcpConn → Bool) (chain : List ConnIdx) : Option ConnIdx :=
  chain.find? fun i ↦ (s.connTable i).any p

def tcpLookupConn (hostAddr peerAddr : Ipv4Addr) (hostPort peerPort : U16) : Option ConnIdx :=
  let bucket := tcpHashBucket s.hashSeed hostAddr hostPort peerAddr peerPort
  match hashChainFind s (exactMatch hostAddr peerAddr hostPort peerPort) (s.hashTable bucket) with
  | some i => some i
  | none =>
    match s.findConn (exactMatch hostAddr peerAddr hostPort peerPort) with
    | some i => some i
    | none => s.findConn (wildcardMatch hostAddr peerAddr hostPort peerPort)

/-! ## Relations along a purge -/

/-- A relation that holds across every way in which an expired connection is dealt with. -/
structure PurgeClosed (R : TcpStack → TcpStack → Prop) : Prop where
  refl (s : TcpStack) : R s s
  trans {s t u : TcpStack} : R s t → R t u → R s u
  expire {s : TcpStack} {i : ConnIdx} {c : TcpConn} (hc : s.connTable i = some c)
    (hint : tcpConnIsInternal c = true) : R s (tcpFreeConn s i)
  giveUp {s : TcpStack} {i : ConnIdx} {c : TcpConn} (hc : s.connTable i = some c)
    (hst : c.state = .synSent) : R s (s.setConn i (some { c with state := .reset }))

theorem PurgeClosed.purge {R : TcpStack → TcpStack → Prop} (h : PurgeClosed R) (env : NetEnv)
    (s : TcpStack) : R s (tcpPurgeOldConn env s) := by
  have hslot : ∀ s i, R s (tcpPurgeSlot env s i) := by
    intro s i
    rw [tcpPurgeSlot]
    cases hc : s.connTable i with
    | none => exact h.refl s
    | some c =>
      dsimp only
      split_ifs with hint hsyn
      · exact h.expire hc hint.1
      · exact h.giveUp hc hsyn.1
      · exact h.refl s
  rw [tcpPurgeOldConn]
  generalize List.finRange tcpConnMaxNum = slots
  induction slots generalizing s with
  | nil => exact h.refl s
  | cons i slots ih => exact h.trans (hslot s i) (ih _)

end Mazu.Tcp
