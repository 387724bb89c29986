import Mazu.Tcp.Receive

/-!
# The user interface

The calls a user of the TCP stack makes, and `tcp_pmtu_update`, which the ICMP layer calls. A user
holds a connection by its index. `tcp_conn_send` and `tcp_conn_recv` also report whether the peer
has closed the connection.
-/

namespace Mazu.Tcp

/-! ## Opening -/

variable (env : NetEnv) (s : TcpStack) (i : ConnIdx) (c : TcpConn)

/-- A listener already bound to the address and port is handed out again. -/
def tcpConnListen (addr : Ipv4Addr) (port : U16) : Option ConnIdx × TcpStack :=
  let found := (tcpLookupConn s addr ipv4AddrAny port 0).filter fun i ↦
    (s.connTable i).any fun c ↦ c.state == .listen
  match found with
  | some i => (some i, s)
  | none => tcpConnAllocAndInit env s addr port tcpConnDefaultMss .listen

/-- What `tcp_conn_connect` sets in the connection it created. -/
def tcpConnectInit (remoteAddr : Ipv4Addr) (remotePort : U16) : TcpConn :=
  { c with
    peerAddr := remoteAddr
    peerPort := remotePort
    useWindowScale := true
    internalTimeout := env.now + tcpConnSynSentTimeout }

/-- The SYN of an active open. A connection whose SYN could not be sent is freed again. -/
def tcpConnectStart (remoteAddr : Ipv4Addr) (remotePort : U16) : Option ConnIdx × TcpStack :=
  let c := tcpConnectInit env c remoteAddr remotePort
  let s := tcpHashInsert s i c
  let (res, c, g) := tcpSendSegmentEmpty env c s.glob tcpHdrFlagSyn
  let s := { s.setConn i (some c) with glob := g }
  match res with
  | .error _ => (none, tcpFreeConn (tcpHashRemove s i) i)
  | .ok _ => (some i, s)

def tcpConnConnect (remoteAddr : Ipv4Addr) (remotePort : U16) : Option ConnIdx × TcpStack :=
  let n := s.glob.txTries
  -- the question for the local address takes an answer of the environment, as a transmission does
  let s := { s with glob := { s.glob with txTries := n + 1 } }
  match env.routeAddr n with
  | .error _ => (none, s)
  | .ok localAddr =>
    let (localPort, s) := tcpAllocEphemeralPort s
    if localPort = 0 then (none, s)
    else
      match tcpConnAllocAndInit env s localAddr localPort tcpConnDefaultMss .synSent with
      | (none, s) => (none, s)
      | (some i, s) =>
        match s.connTable i with
        | none => (none, s)
        | some c => tcpConnectStart env s i c remoteAddr remotePort

/-- The head of the accept queue is handed out once its handshake is complete. -/
def tcpConnAccept (l : ConnIdx) : Option ConnIdx × TcpStack :=
  let i := s.acceptLinks.next l
  if i = l then (none, s)
  else if !(s.connTable i).any tcpConnNeedsUserClose then (none, s)
  else
    let s := { s with acceptLinks := s.acceptLinks.delInit i }
    (some i, modifyAcceptReady s l fun n ↦ if n > 0 then n - 1 else n)

/-! ## Sending and receiving -/

def tcpConnClosedByPeer (state : TcpConnState) : Bool := state == .closeWait || state == .reset

/-- What the smaller of the peer's window and the congestion window still admits. -/
def tcpSendWindowAvail : ℕ :=
  let inFlight := c.sendNext - c.sendUnack
  let rwnd : U32 :=
    if c.sendWindowReal > 0xFFFFFFFF then 0xFFFFFFFF else BitVec.ofNat 32 c.sendWindowReal
  let effWindow := if c.cwnd < rwnd then c.cwnd else rwnd
  if inFlight ≥ effWindow then 0 else (effWindow - inFlight).toNat

/-- The loop of `tcp_conn_send_locked`, with the bytes not sent yet and the number of those that
were. Each trip sends at least one byte, so the length of the payload is enough fuel. -/
def tcpConnSendLoop (env : NetEnv) (len : ℕ) :
    ℕ → TcpConn → Globals → List U8 → ℕ → Except Errno ℕ × TcpConn × Globals
  | 0, c, g, _, nSent => (.ok nSent, c, g)
  | _, c, g, [], nSent => (.ok nSent, c, g)
  | fuel + 1, c, g, rest, nSent =>
    if tcpSendWindowAvail c < min rest.length len then (.ok nSent, c, g)
    else
      let fragment := rest.take len
      match tcpSendSegment env c g tcpHdrFlagAck fragment with
      | (.error e, c, g) => (.error e, c, g)
      | (.ok _, c, g) =>
        tcpConnSendLoop env len fuel c g (rest.drop len) (nSent + fragment.length)

/-- `tcp_conn_send_locked`. The source subtracts the header size from the MTU as an unsigned number,
so the model is faithful from an MTU of 20 bytes on. -/
def tcpConnSendLocked (g : Globals) (payload : List U8) (ipMtu : ℕ)
    : Except Errno ℕ × TcpConn × Globals :=
  let len := min (min (ipMtu - 20) c.mss) payload.length
  if len = 0 then (.ok 0, c, g)
  else tcpConnSendLoop env len payload.length c g payload 0

/-- `tcp_conn_send` with the MTU of the route: the result and whether the peer closed. -/
def tcpConnSend (payload : List U8) (ipMtu : Except Errno ℕ) : Except Errno (ℕ × Bool) × TcpStack :=
  match s.connTable i, ipMtu with
  | none, _ => (.ok (0, false), s)
  | some _, .error e => (.error e, s)
  | some c, .ok ipMtu =>
    let (res, c', g) := tcpConnSendLocked env c s.glob payload ipMtu
    (res.map fun n ↦ (n, tcpConnClosedByPeer c.state), { s.setConn i (some c') with glob := g })

/-- `tcp_conn_recv`: the number of bytes read, whether the peer closed, and the filled buffer. -/
def tcpConnRecv (buf : ByteBuf) : ℕ × Bool × ByteBuf × TcpStack :=
  match s.connTable i with
  | none => (0, false, buf, s)
  | some c =>
    let closed := tcpConnClosedByPeer c.state
    if recvBufCount c.recvBuf = 0 then (0, closed, buf, s)
    else
      let (nRead, recvBuf, buf) := recvBufRead c.recvBuf buf
      (nRead, closed, buf, s.setConn i (some { c with recvBuf := recvBuf }))

/-! ## Closing -/

/-- Send our FIN in the given closing state. -/
def tcpConnSendFin (g : Globals) (state : TcpConnState) : Outcome :=
  let (c, g) := tcpConnSetInternalTimeout env { c with state := state } g
  replyEmpty env c g (tcpHdrFlagFin ||| tcpHdrFlagAck)

def tcpConnCloseLocked (g : Globals) : Outcome :=
  match c.state with
  | .listen | .synSent | .synRcvd | .reset => { keep c g with freed := true }
  | .established => tcpConnSendFin env c g .finWait1
  | .closeWait => tcpConnSendFin env c g .lastAck
  | _ => keep c g

def tcpConnClose : Result × TcpStack :=
  match s.connTable i with
  | none => (resultOk, s)
  | some c =>
    let o := tcpConnCloseLocked env c s.glob
    (o.res, settle s i o)

/-! ## Path MTU -/

/-- The MSS that a path MTU leaves room for. -/
def pmtuMss (newMtu : U16) : ℕ := if newMtu.toNat > 40 then newMtu.toNat - 40 else 1

/-- Every connection to the destination gets the smaller MSS. -/
def tcpPmtuUpdate (dest : Ipv4Addr) (newMtu : U16) : TcpStack :=
  { s with
    connTable := fun i ↦ (s.connTable i).map fun c ↦
      if c.peerAddr = dest ∧ c.mss > pmtuMss newMtu then { c with mss := pmtuMss newMtu } else c }

end Mazu.Tcp
