import Mazu.Tcp.Transition

/-!
# Segments of an attacker off the path

An attacker who knows the addresses and ports but none of the sequence numbers can send segments that
the lookup gives to the connection. No handler compares the sequence number of a segment with the
receive window before it looks at the flags, so what such a segment can do is decided by its flags
and its ACK number alone.
-/

namespace Mazu.Tcp

open Serial

/-- The sequence number lies outside `[recv_next, recv_next + window]`. -/
def OutsideWindow (c : TcpConn) (seg : Segment) : Prop :=
  c.recvWindowSizeReal < dist c.recvNext seg.seqNum

/-- The segment neither frees the connection nor changes its state. -/
def Unmoved (c : TcpConn) (after : Option TcpConn) : Prop :=
  ∃ d, after = some d ∧ d.state = c.state

/-- What a stack with a check of the sequence number promises: segments from outside the window, and
in SYN_SENT a RST that does not acknowledge our SYN, leave the connection where it is. -/
structure OffPathLaw (c : TcpConn) (seg : Segment) (after : Option TcpConn) : Prop where
  outside : c.state = .synRcvd ∨ c.state = .established ∨ c.state = .finWait1 →
    OutsideWindow c seg → Unmoved c after
  synSent : c.state = .synSent → seg.rst = true → ¬(seg.ack = true ∧ seg.ackNum = c.iss + 1) →
    Unmoved c after

/-- What this stack does, for every sequence number: a RST is obeyed, and without one the connection
stays where it is as long as the segment has none of the flags its state waits for. -/
structure OffPathEffect (c : TcpConn) (seg : Segment) (after : Option TcpConn) : Prop where
  synRcvd : c.state = .synRcvd → seg.rst = false → acksSyn c seg = false → Unmoved c after
  established : c.state = .established → seg.rst = false → seg.fin = false → Unmoved c after
  finWait1 : c.state = .finWait1 → seg.rst = false → seg.fin = false → seg.ack = false →
    Unmoved c after
  reset : c.state = .synSent ∨ c.state = .established → seg.rst = true →
    ∃ d, after = some d ∧ d.state = .reset
  freed : c.state = .synRcvd ∨ c.state = .finWait1 → seg.rst = true → after = none

section

variable {env : NetEnv} {s : TcpStack} {hostAddr peerAddr : Ipv4Addr} {seg : Segment} {i : ConnIdx}
  {c : TcpConn}

/-- The arrow of the diagram, for a connection that stays. -/
theorem packet_state_of_transition {st : TcpConnState}
    (hlook : tcpLookupConn s hostAddr peerAddr seg.destPort seg.srcPort = some i)
    (hc : s.connTable i = some c) (hsync : c.state.Synchronized)
    (htrans : transition c.state seg = some st) :
    ∃ d, (tcpHandlePacketLocked env s hostAddr peerAddr seg).2.connTable i = some d ∧
      d.state = st := by
  rcases tcpHandlePacketLocked_slot env hlook hc hsync
    with ⟨hnone, -⟩ | ⟨st', d, hsome, hd, hdst, -⟩
  · rw [htrans] at hnone
    cases hnone
  · cases htrans.symm.trans hsome
    exact ⟨d, hd, hdst⟩

/-- SYN_SENT takes any RST for a refusal. -/
theorem packet_reset_of_synSent
    (hlook : tcpLookupConn s hostAddr peerAddr seg.destPort seg.srcPort = some i)
    (hc : s.connTable i = some c) (hst : c.state = .synSent) (hr : seg.rst = true) :
    ∃ d, (tcpHandlePacketLocked env s hostAddr peerAddr seg).2.connTable i = some d ∧
      d.state = .reset := by
  obtain ⟨mss, scale, use, hparse⟩ := tcpConnParse_eq env c seg
  have hst' : (tcpConnParse env c seg).1.state = .synSent := by
    rw [hparse]
    exact hst
  rw [tcpHandlePacketLocked_eq hlook hc (by rw [hst']; decide), tcpDispatch, hst']
  simp only [tcpHandleReceiveSynSent, if_pos hr]
  obtain ⟨f, hslot⟩ := settle_self s i
    (keep { (tcpConnParse env c seg).1 with state := .reset } s.glob)
  exact ⟨_, hslot, rfl⟩

end

end Mazu.Tcp
