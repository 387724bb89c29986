import Mazu.Tcp.AckQueue

/-!
# Loss recovery

What a connection does about segments that are not acknowledged: it sends them again, up to a limit
that brings it down, and adapts its congestion window to duplicate acknowledgements and timeouts.
-/

namespace Mazu.Tcp

/-! ## The retransmission limit -/

/-- The service of a connection that is not reset yet resets or frees it on account of an entry of
its queue. -/
def LimitEnds (env : NetEnv) (c : TcpConn) (g : Globals) : Prop :=
  c.state ≠ .reset ∧ ¬c.KeepaliveDead env.now ∧ ((tcpPollRetransmitConn env c g).freed = true ∨
    (tcpPollRetransmitConn env c g).conn.state = .reset)

/-- The walk over a queue stops at an entry sent too often, and at one that is not acknowledged. -/
def SendBufQueue.stops (unack : U32) (sbq : SendBufQueue) : Bool :=
  decide (sbq.nTransmissions > 8) || !seqGeq unack sbq.requiredAck

/-- The walk over the queue comes to an entry that exceeds the limit. -/
def TcpConn.Exceeds (c : TcpConn) (sbq : SendBufQueue) : Prop :=
  c.sendQueue.find? (·.stops c.sendUnack) = some sbq ∧ sbq.nTransmissions > 8

/-- An entry brings its connection down only while it is not acknowledged. -/
def LimitLaw (c : TcpConn) : Prop :=
  ∀ env g, LimitEnds env c g → ∃ sbq, c.Exceeds sbq ∧ seqGeq c.sendUnack sbq.requiredAck = false

instance (env : NetEnv) (c : TcpConn) (g : Globals) : Decidable (LimitEnds env c g) :=
  inferInstanceAs (Decidable (_ ∧ _))

section

variable {env : NetEnv} {c : TcpConn} {g : Globals} {o : Outcome}

theorem exists_exceeds_iff :
    (∃ sbq, c.Exceeds sbq) ↔ queueExhausted c.sendUnack c.sendQueue = true := by
  simp only [TcpConn.Exceeds]
  induction c.sendQueue with
  | nil => simp [queueExhausted]
  | cons x rest ih =>
    by_cases hn : x.nTransmissions > 8
    · simp [queueExhausted, SendBufQueue.stops, hn]
    · cases ha : seqGeq c.sendUnack x.requiredAck with
      | false => simp [queueExhausted, SendBufQueue.stops, ha]
      | true => simpa [queueExhausted, SendBufQueue.stops, hn, ha] using ih

/-- What ends a connection that keep-alive does not give up on, and what is sure to end it. -/
theorem Served.ends (h : Served env c g o) (hst : c.state ≠ .reset)
    (hdead : ¬c.KeepaliveDead env.now) :
    (o.freed = true ∨ o.conn.state = .reset → ∃ sbq, c.Exceeds sbq) ∧
      (env.Sends → (∃ sbq, c.Exceeds sbq) → o.freed = true ∨ o.conn.state = .reset) := by
  rw [exists_exceeds_iff]
  cases h with
  | dead hst hidle hcnt => exact absurd ⟨hst, hidle, hcnt⟩ hdead
  | failed _ hp hfail =>
    refine ⟨fun hends ↦ ?_, fun hsends ↦ absurd hsends hfail⟩
    rcases hends with hfree | hreset
    · cases hfree
    · exact absurd (hp.state.symm.trans hreset) hst
  | @walk d g' hp =>
    rcases (tcpPollRetransmitQueue_retransmits env d g' d.sendQueue).spec with
      ⟨hex, -, hend⟩ | ⟨hex, hfreed, hsame, -⟩ <;> rw [hp.sendQueue, hp.sendUnack] at hex
    · exact ⟨fun _ ↦ hex, fun _ _ ↦ hend⟩
    · simp [hex, hfreed, hsame.state, hp.state, hst]

end

/-- A byte is sent, and eight times again, and then its acknowledgement comes. -/
def lateAck : List (NetEnv × Event) :=
  activeHandshake ++ (.sending 1 hostA 0, .send ⟨0, zero_lt_tcpConnMaxNum⟩ [0] (.ok 1480)) ::
    [201, 601, 1401, 3001, 6201, 12601, 25401, 51001].map (fun now ↦
      (.sending now hostA 0, .poll 4)) ++
    [(.sending 51002 hostA 0, .packet hostA peerA (.bare 443 49152 5001 1002 tcpHdrFlagAck 1000))]

/-- A segment repeats the last ACK number while data is outstanding. -/
def RepeatsAck (c : TcpConn) (seg : Segment) : Prop :=
  seg.ack = true ∧ seg.ackNum = c.sendUnack ∧ c.sendUnack ≠ c.sendNext

/-- What else RFC 5681, which the source cites, asks of a duplicate acknowledgement. -/
def OnlyAcks (c : TcpConn) (seg : Segment) : Prop :=
  seg.payload = [] ∧ seg.syn = false ∧ seg.fin = false ∧
    seg.windowSize.toNat <<< c.sendWindowScale.toNat = c.sendWindowReal

/-- A duplicate acknowledgement is counted. -/
def Counts (c d : TcpConn) : Prop :=
  d.sendUnack = c.sendUnack ∧ d.dupAckCount = c.dupAckCount + 1

theorem Took.counts_iff {send recv : Bool} {c d : TcpConn} {seg : Segment}
    (h : Took send recv c seg d) : Counts c d ↔ send = true ∧ RepeatsAck c seg := by
  have hne : ackAcceptable c seg.ackNum = true → seg.ackNum ≠ c.sendUnack := by
    rintro ha heq
    simp [ackAcceptable, heq, seqGt] at ha
  rw [Counts, RepeatsAck, h.sendUnack, h.dupAcks, dupAcksAfter]
  grind

theorem updatesSend_of_none {st : TcpConnState} {seg : Segment} (h : transition st seg = none) :
    updatesSend st seg = false := by
  unfold transition at h
  split at h
  all_goals try split_ifs at h with hr
  all_goals cases h
  all_goals simp [updatesSend, hr]

/-- A byte is sent, and the peer, which has not received it, streams data. -/
def streaming : List (NetEnv × Event) :=
  activeHandshake ++ [(.sending 1 hostA 0, .send ⟨0, zero_lt_tcpConnMaxNum⟩ [0] (.ok 1480)),
    (.sending 2 hostA 0, .packet hostA peerA
      (.data 443 49152 5001 1001 tcpHdrFlagAck 1000 [0] (Nat.le_add_left 1 65494))),
    (.sending 3 hostA 0, .packet hostA peerA
      (.data 443 49152 5002 1001 tcpHdrFlagAck 1000 [0] (Nat.le_add_left 1 65494)))]

end Mazu.Tcp
