import Mazu.Lib.Heap
import Mazu.Lib.Loop
import Mazu.Tcp.Send
import Mazu.Tcp.Table

/-!
# The timer service

`tcp_conn_next_event_ms` computes when a connection needs service, the min-heap orders the
connections by it, and the loop of `tcp_poll_retransmit_locked` serves the root as long as it is
due. The two sides are separate in the source: one function says when, another does the work.
-/

namespace Mazu.Tcp

/-! ## Serving one connection -/

/-- The walk over the send queue in `tcp_poll_retransmit_conn`. Acknowledged entries at the front
are released; the first other entry is sent again if it is due, and the walk ends with it. -/
def tcpPollRetransmitQueue (env : NetEnv) (c : TcpConn) (g : Globals) :
    List SendBufQueue → Outcome
  | [] => { res := resultOk, conn := { c with sendQueue := [] }, glob := g }
  | sbq :: rest =>
    if sbq.nTransmissions > 8 then
      if tcpConnNeedsUserClose c then
        let c := { c with state := .reset, sendQueue := sbq :: rest }
        -- the result of the reset is ignored
        let (_, c, g) := tcpSendSegmentNoqueue env c g tcpHdrFlagRst sbq.seqNum sbq.checksum
          sbq.payload
        { res := resultOk, conn := c, glob := g }
      else
        { res := resultOk, conn := { c with sendQueue := sbq :: rest }, glob := g, freed := true }
    else if seqGeq c.sendUnack sbq.requiredAck then
      tcpPollRetransmitQueue env c { g with sbqAvail := g.sbqAvail + 1 } rest
    else if env.now ≥ sbq.lastTry + sbq.retryAfter then
      let c := { c with sendQueue := sbq :: rest }
      let (res, c, g) := tcpSendSegmentNoqueue env c g sbq.flags sbq.seqNum sbq.checksum sbq.payload
      match res with
      | .error e => { res := .error e, conn := c, glob := g }
      | .ok _ =>
        let sbq := { sbq with
          nTransmissions := sbq.nTransmissions + 1
          retryAfter := sbq.retryAfter * 2
          lastTry := env.now }
        let g := tcpTimerHint g (env.now + sbq.retryAfter)
        let c := { c with sendQueue := sbq :: rest }
        let c := if sbq.nTransmissions = 2 ∧ c.cwnd > tcpCcMss c then tcpCcRenoOnTimeout c else c
        { res := resultOk, conn := c, glob := g }
    else { res := resultOk, conn := { c with sendQueue := sbq :: rest }, glob := g }

variable (c : TcpConn) (s : TcpStack)

/-- The keep-alive interval in force: long before the first probe, short after it. -/
def keepaliveIdle : U64 :=
  if c.keepaliveProbes > 0 then tcpConnKeepaliveIntvlMs else tcpConnKeepaliveIdleMs

/-- The zero-window probe and the queue walk, which follow the keep-alive check. -/
def tcpPollPersist (env : NetEnv) (c : TcpConn) (g : Globals) : Outcome :=
  if c.state = .established ∧ c.zeroWindowSinceMs ≠ 0 ∧ c.sendWindowReal = 0
      ∧ env.now - c.zeroWindowSinceMs ≥ tcpConnPersistRtoMs then
    match c.sendQueue with
    | [] =>
      let c := { c with zeroWindowSinceMs := env.now }
      tcpPollRetransmitQueue env c g c.sendQueue
    | first :: _ =>
      let (res, c, g) := tcpSendSegmentNoqueue env c g first.flags first.seqNum first.checksum
        first.payload
      match res with
      | .error e => { res := .error e, conn := c, glob := g }
      | .ok _ =>
        let c := { c with zeroWindowSinceMs := env.now }
        tcpPollRetransmitQueue env c g c.sendQueue
  else tcpPollRetransmitQueue env c g c.sendQueue

def tcpPollRetransmitConn (env : NetEnv) (c : TcpConn) (g : Globals) : Outcome :=
  if c.state = .established ∧ env.now - c.lastActivityMs ≥ keepaliveIdle c then
    if c.keepaliveProbes ≥ tcpConnKeepaliveCnt then
      { res := resultOk, conn := { c with state := .reset }, glob := g }
    else
      let (res, c, g) := tcpSendSegmentNoqueue env c g tcpHdrFlagAck (c.sendNext - 1) 0 []
      match res with
      | .error e => { res := .error e, conn := c, glob := g }
      | .ok _ =>
        let c := { c with keepaliveProbes := c.keepaliveProbes + 1, lastActivityMs := env.now }
        tcpPollPersist env c g
  else tcpPollPersist env c g

/-! ## When a connection needs service -/

/-- `base + delta`, or `TIME_MS_MAX` when the sum wraps. -/
def fireTime (base delta : U64) : U64 := if base + delta < base then timeMsMax else base + delta

/-- The retransmission times of the entries that are not acknowledged. -/
def sbqFireTimes : List U64 :=
  (c.sendQueue.filter fun sbq ↦ !seqGeq c.sendUnack sbq.requiredAck).map
    fun sbq ↦ fireTime sbq.lastTry sbq.retryAfter

/-- The times of all timers of a connection. -/
def tcpConnTimers : List U64 :=
  let established :=
    if c.state = .established then
      fireTime c.lastActivityMs (keepaliveIdle c)
        :: if c.zeroWindowSinceMs ≠ 0 then [fireTime c.zeroWindowSinceMs tcpConnPersistRtoMs]
          else []
    else []
  c.internalTimeout :: established ++ sbqFireTimes c

/-- Each timer in turn replaces the running minimum when it is smaller. -/
def tcpConnNextEventMs : U64 :=
  (tcpConnTimers c).foldl (fun next t ↦ if t < next then t else next) timeMsMax

/-! ## The heap -/

/-- The entries of the connections with an armed timer, in table order. -/
def tcpTimerEntries : List TcpTimerEntry :=
  (List.finRange tcpConnMaxNum).filterMap fun i ↦
    match s.connTable i with
    | none => none
    | some c =>
      if c.state = .reset then none
      else
        let fire := tcpConnNextEventMs c
        if fire = timeMsMax then none else some ⟨fire, i⟩

def tcpHeapRebuild : TcpStack :=
  let entries := tcpTimerEntries s
  let size := entries.length
  let heap := Heap.heapify (fun e : TcpTimerEntry ↦ e.fireMs.toNat) size
    fun n ↦ entries.getD n (s.timerHeap n)
  { s with
    timerHeap := heap
    timerHeapSize := size
    glob := { s.glob with nextTimerMs := if size = 0 then timeMsMax else (heap 0).fireMs } }

/-! ## The service loop -/

/-- Carry out what a routine on connection `i` left to its caller. -/
def settle (i : ConnIdx) (o : Outcome) : TcpStack :=
  let s := { s.setConn i (some o.conn) with glob := o.glob }
  let s :=
    match o.established, o.conn.listener with
    | true, some l => modifyAcceptReady s l (· + 1)
    | _, _ => s
  if o.freed then tcpFreeConn s i else s

/-- One trip of the loop in `tcp_poll_retransmit_locked`, with the heap just rebuilt. -/
def tcpPollPass (env : NetEnv) (s : TcpStack) : (Result × TcpStack) ⊕ TcpStack :=
  if s.timerHeapSize = 0 then .inl (resultOk, s)
  else
    let root := s.timerHeap 0
    if root.fireMs > env.now then .inl (resultOk, s)
    else
      match s.connTable root.conn with
      | none => .inr (tcpHeapRebuild s)
      | some c =>
        if c.state = .reset then .inr (tcpHeapRebuild s)
        else if tcpConnIsInternal c ∧ env.now ≥ c.internalTimeout then
          .inr (tcpHeapRebuild (tcpFreeConn s root.conn))
        else if c.state = .synSent ∧ env.now ≥ c.internalTimeout then
          .inr (tcpHeapRebuild (s.setConn root.conn (some { c with state := .reset })))
        else
          let o := tcpPollRetransmitConn env c s.glob
          let s := tcpHeapRebuild (settle s root.conn o)
          match o.res with
          | .error e => .inl (.error e, s)
          | .ok _ => .inr s

/-- `tcp_poll_retransmit_locked` with at most `fuel` trips round its loop. -/
def tcpPollRetransmitLocked (env : NetEnv) (s : TcpStack) (fuel : ℕ) :
    Option (Result × TcpStack) :=
  Loop.run (tcpPollPass env) fuel (tcpHeapRebuild s)

/-- `tcp_poll_retransmit`: nothing to do while the cached deadline lies in the future. -/
def tcpPollRetransmit (env : NetEnv) (s : TcpStack) (fuel : ℕ) : Option (Result × TcpStack) :=
  let cached := s.glob.nextTimerMs
  if cached ≠ timeMsMax ∧ cached > env.now then some (resultOk, s)
  else tcpPollRetransmitLocked env s fuel

/-! ## Relations along a poll -/

/-- A relation that holds across every way through a trip of the loop. -/
structure PollClosed (env : NetEnv) (R : TcpStack → TcpStack → Prop) : Prop extends
    PurgeClosed R where
  rebuild (s : TcpStack) : R s (tcpHeapRebuild s)
  serve {s : TcpStack} {i : ConnIdx} {c : TcpConn} (hc : s.connTable i = some c)
    (hst : c.state ≠ .reset) : R s (settle s i (tcpPollRetransmitConn env c s.glob))

section

variable {env : NetEnv} {R : TcpStack → TcpStack → Prop}

/-- One trip of the service loop, whether it leaves the loop or not. -/
theorem PollClosed.pass (h : PollClosed env R) (s : TcpStack) :
    R s ((tcpPollPass env s).elim Prod.snd id) := by
  unfold tcpPollPass
  split_ifs
  · exact h.refl s
  dsimp only
  split_ifs
  · exact h.refl s
  cases hc : s.connTable (s.timerHeap 0).conn with
  | none => exact h.rebuild s
  | some c =>
    dsimp only
    split_ifs with hreset hint hsyn
    · exact h.rebuild s
    · exact h.trans (h.expire hc hint.1) (h.rebuild _)
    · exact h.trans (h.giveUp hc hsyn.1) (h.rebuild _)
    · have hserve := h.trans (h.serve hc hreset) (h.rebuild _)
      split <;> exact hserve

theorem PollClosed.poll (h : PollClosed env R) {s : TcpStack} {fuel : ℕ} {r : Result × TcpStack}
    (hr : tcpPollRetransmit env s fuel = some r) : R s r.2 := by
  simp only [tcpPollRetransmit] at hr
  split_ifs at hr
  · cases hr
    exact h.refl s
  · obtain ⟨t, hvisit, hleave⟩ := Loop.exists_visits_of_run hr
    have ht : R s t := by
      refine hvisit.invariant (h.rebuild s) ?_
      intro u u' hu hpass
      have hstep := h.pass u
      rw [hpass] at hstep
      exact h.trans hu hstep
    have hstep := h.pass t
    rw [hleave] at hstep
    exact h.trans ht hstep

end

end Mazu.Tcp
