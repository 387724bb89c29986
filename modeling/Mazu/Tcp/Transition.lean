import Mazu.Tcp.Invariant
import Mazu.Tcp.RecvSide

/-!
# The state machine

`transition` is the state diagram of a connected socket as the handlers draw it: the state after a
segment, or nothing when the connection is freed, from the flags alone. The handlers refine it. Next
to it stand the states in which a segment's ACK number and its data are looked at.
-/

namespace Mazu.Tcp

variable {st : TcpConnState} {o : Outcome} {s : TcpStack} {hostAddr peerAddr : Ipv4Addr}
  {i : ConnIdx}

/-! ## The diagram -/

/-- The state after a segment; `none` when the connection is freed. -/
def transition (st : TcpConnState) (seg : Segment) : Option TcpConnState :=
  match st with
  | .established =>
    if seg.rst then some .reset else if seg.fin then some .closeWait else some .established
  | .closeWait => some .closeWait
  | .lastAck => if seg.ack || seg.rst then none else some .lastAck
  | .finWait1 =>
    if seg.rst then none
    else if seg.fin && seg.ack then some .timeWait
    else if seg.fin then some .closing
    else if seg.ack then some .finWait2
    else some .finWait1
  | .finWait2 => if seg.rst then none else if seg.fin then some .timeWait else some .finWait2
  | .closing => if seg.rst then none else if seg.ack then some .timeWait else some .closing
  | .timeWait => if seg.rst then none else some .timeWait
  | st => some st

/-- No arrow leads back into the handshake. -/
theorem transition_synchronized {st' : TcpConnState} {seg : Segment} (h : st.Synchronized)
    (htrans : transition st seg = some st') : st'.Synchronized := by
  obtain ⟨hlisten, hsent, hrcvd⟩ := h
  unfold transition at htrans
  split at htrans
  all_goals try split_ifs at htrans
  all_goals cases htrans
  all_goals first | decide | exact ⟨hlisten, hsent, hrcvd⟩

/-- The handler of the state passes the segment to `tcp_conn_update_send_state`. -/
def updatesSend (st : TcpConnState) (seg : Segment) : Bool :=
  match st with
  | .established | .finWait2 | .timeWait => !seg.rst
  | .finWait1 => !seg.rst && (seg.fin || seg.ack)
  | .closing => !seg.rst && seg.ack
  | _ => false

/-- The handler of the state passes the segment to `tcp_conn_update_recv_state`. -/
def updatesRecv (st : TcpConnState) (seg : Segment) : Bool :=
  match st with
  | .established | .finWait2 | .timeWait => !seg.rst
  | .finWait1 => !seg.rst && (seg.fin || seg.ack)
  | _ => false

/-! ## What a handler takes of a segment -/

/-- What a handler may take of a segment shows in these fields. -/
def TcpConn.sides (c : TcpConn) : U32 × U32 × U32 × RecvSide :=
  (c.sendUnack, c.dupAckCount, c.sendNext, c.recvSide)

/-- The connection `d` is `c` after a segment whose acknowledgement counts if `send` is set, and
whose data counts if `recv` is set. Replies and the state do not show here. -/
structure Took (send recv : Bool) (c : TcpConn) (seg : Segment) (d : TcpConn) : Prop where
  sendUnack : d.sendUnack =
    if send && seg.ack && ackAcceptable c seg.ackNum then seg.ackNum else c.sendUnack
  dupAcks : d.dupAckCount = if send && seg.ack then dupAcksAfter c seg.ackNum else c.dupAckCount
  sendNext : d.sendNext = c.sendNext
  recvSide : d.recvSide = if recv then (tcpConnTakeData c seg).recvSide else c.recvSide

section

variable {send recv : Bool} {c d e : TcpConn} {seg : Segment}

theorem sides_eq_iff : d.sides = c.sides ↔ d.sendUnack = c.sendUnack ∧
    d.dupAckCount = c.dupAckCount ∧ d.sendNext = c.sendNext ∧ d.recvSide = c.recvSide := by
  simp only [TcpConn.sides, Prod.mk.injEq]

/-- A handler that looked at neither. -/
theorem took_nothing (h : d.sides = c.sides) : Took false false c seg d := by
  obtain ⟨hunack, hdup, hnext, hrecv⟩ := sides_eq_iff.mp h
  exact ⟨hunack, hdup, hnext, hrecv⟩

theorem Took.congr (h : Took send recv c seg d) (he : e.sides = d.sides) :
    Took send recv c seg e := by
  obtain ⟨hunack, hdup, hnext, hrecv⟩ := sides_eq_iff.mp he
  exact ⟨hunack.trans h.sendUnack, hdup.trans h.dupAcks, hnext.trans h.sendNext,
    hrecv.trans h.recvSide⟩

/-- An acknowledgement at the end of a handler takes no sequence number. -/
theorem Took.reply (h : Took send recv c seg d) (env : NetEnv) (g : Globals) :
    Took send recv c seg (replyEmpty env d g tcpHdrFlagAck).conn := by
  show Took send recv c seg (tcpSendSegment env d g tcpHdrFlagAck []).2.1
  have hadv : (tcpNewSbq env d tcpHdrFlagAck []).requiredAck = d.sendNext := by
    simp [tcpNewSbq, advance_ack]
  rcases tcpSendSegment_conn env d g tcpHdrFlagAck [] with heq | ⟨window, ackSent, heq⟩
  · rw [heq]
    exact h
  · rw [heq]
    exact h.congr (sides_eq_iff.mpr ⟨rfl, rfl, hadv, rfl⟩)

theorem reply_state (env : NetEnv) (d : TcpConn) (g : Globals) (flags : U8) :
    (replyEmpty env d g flags).conn.state = d.state := by
  show (tcpSendSegment env d g flags []).2.1.state = d.state
  rcases tcpSendSegment_conn env d g flags [] with heq | ⟨window, ackSent, heq⟩
  · rw [heq]
  · rw [heq]

/-- A timeout is none of the fields that count. -/
theorem internalTimeout_fields (env : NetEnv) (d : TcpConn) (g : Globals) :
    (tcpConnSetInternalTimeout env d g).1.sides = d.sides ∧
      (tcpConnSetInternalTimeout env d g).1.state = d.state := ⟨rfl, rfl⟩

/-- The send side takes the acknowledgement. -/
theorem took_send (h : d.sides = c.sides) (env : NetEnv) (g : Globals) (seg : Segment)
    (tsopt : TsOpt) : Took true false c seg (tcpConnUpdateSendState env d g seg tsopt).1 := by
  obtain ⟨hunack, hdup, hnext, hrecv⟩ := sides_eq_iff.mp h
  obtain ⟨f, hf, htaken, -⟩ := tcpConnUpdateSendState_spec env d g seg tsopt
  have hacc : ackAcceptable d seg.ackNum = ackAcceptable c seg.ackNum := by
    rw [ackAcceptable, ackAcceptable, hunack, hnext]
  rw [hf]
  refine ⟨htaken.sendUnack.trans ?_, htaken.dupAcks.trans ?_, hnext, hrecv⟩
  · rw [hacc, hunack, Bool.true_and]
  · rw [dupAcksAfter, dupAcksAfter, hacc, hunack, hnext, hdup, Bool.true_and]

/-- Both sides take the segment, from a connection that differs from `c` in other fields. -/
theorem took_both (h : d.sides = c.sides) (env : NetEnv) (g : Globals) (seg : Segment)
    (tsopt : TsOpt) : Took true true c seg
      (tcpConnUpdateRecvState (tcpConnUpdateSendState env d g seg tsopt).1 seg tsopt).2 := by
  have hsend := took_send h env g seg tsopt
  have hside : (tcpConnUpdateRecvState (tcpConnUpdateSendState env d g seg tsopt).1 seg
      tsopt).2.recvSide = (tcpConnTakeData c seg).recvSide :=
    tcpConnUpdateRecvState_recvSide hsend.recvSide seg tsopt
  obtain ⟨f, hf⟩ := tcpConnUpdateRecvState_same
    (tcpConnUpdateSendState env d g seg tsopt).1 seg tsopt
  rw [hf] at hside ⊢
  exact ⟨hsend.sendUnack, hsend.dupAcks, hsend.sendNext, hside⟩

end

/-! ## The handlers refine the diagram -/

/-- An outcome agrees with the diagram, and took what the state lets it take. -/
structure Follows (c : TcpConn) (seg : Segment) (o : Outcome) : Prop where
  freed : o.freed = (transition c.state seg).isNone
  state : ∀ st, transition c.state seg = some st → o.conn.state = st
  took : o.freed = false → Took (updatesSend c.state seg) (updatesRecv c.state seg) c seg o.conn

/-- A handler that keeps the connection. -/
theorem follows_of_some {c : TcpConn} {seg : Segment} {st' : TcpConnState} {send recv : Bool}
    (h : c.state = st) (htrans : transition st seg = some st') (hsend : updatesSend st seg = send)
    (hrecv : updatesRecv st seg = recv) (hfreed : o.freed = false) (hstate : o.conn.state = st')
    (htook : Took send recv c seg o.conn) : Follows c seg o := by
  subst h
  refine ⟨by rw [hfreed, htrans]; rfl, fun st' h ↦ ?_, fun _ ↦ ?_⟩
  · rw [htrans] at h
    cases h
    exact hstate
  · rw [hsend, hrecv]
    exact htook

/-- A handler that frees it. -/
theorem follows_of_none {c : TcpConn} {seg : Segment} (h : c.state = st)
    (htrans : transition st seg = none) (hfreed : o.freed = true) : Follows c seg o := by
  subst h
  refine ⟨by rw [hfreed, htrans]; rfl, fun st h ↦ ?_, fun h ↦ ?_⟩
  · rw [htrans] at h
    cases h
  · rw [hfreed] at h
    cases h

section

variable (env : NetEnv) (c : TcpConn) (g : Globals) (seg : Segment) (tsopt : TsOpt)

theorem handleEstablished_follows (h : c.state = .established) :
    Follows c seg (tcpHandleReceiveEstablished env c g seg tsopt) := by
  simp only [tcpHandleReceiveEstablished]
  by_cases hr : seg.rst = true
  · rw [if_pos hr]
    have htrans : transition .established seg = some .reset := by simp [transition, hr]
    have hsend : updatesSend .established seg = false := by simp [updatesSend, hr]
    have hrecv : updatesRecv .established seg = false := by simp [updatesRecv, hr]
    exact follows_of_some h htrans hsend hrecv rfl rfl (took_nothing rfl)
  rw [if_neg hr]
  have hsend : updatesSend .established seg = true := by simp [updatesSend, hr]
  have hrecv : updatesRecv .established seg = true := by simp [updatesRecv, hr]
  have htook := took_both (c := c) rfl env g seg tsopt
  have hstate := (bothStates_state env c g seg tsopt).trans h
  by_cases hf : seg.fin = true
  · rw [if_pos hf]
    refine follows_of_some h (by simp [transition, hr, hf]) hsend hrecv rfl
      (reply_state env _ _ _) (Took.reply ?_ env _)
    exact htook.congr rfl
  have htrans : transition .established seg = some .established := by simp [transition, hr, hf]
  split_ifs
  · exact follows_of_some h htrans hsend hrecv rfl ((reply_state env _ _ _).trans hstate)
      (htook.reply env _)
  · exact follows_of_some h htrans hsend hrecv rfl hstate htook

theorem handleCloseWait_follows (h : c.state = .closeWait) :
    Follows c seg (tcpHandleReceiveCloseWait env c g) := by
  obtain ⟨window, ackSent, heq⟩ :=
    tcpSendSegmentNoqueue_conn env c g tcpHdrFlagAck c.sendNext 0 []
  have hconn : (tcpHandleReceiveCloseWait env c g).conn =
      { c with recvWindowSizeReal := window, lastAckSent := ackSent } := heq
  refine follows_of_some h rfl rfl rfl rfl ?_ ?_
  · rw [hconn]
    exact h
  · rw [hconn]
    exact took_nothing rfl

theorem handleLastAck_follows (h : c.state = .lastAck) :
    Follows c seg (tcpHandleReceiveLastAck c g seg) := by
  rw [tcpHandleReceiveLastAck]
  split_ifs with hf
  · exact follows_of_none h (by simp [transition, hf]) rfl
  · exact follows_of_some h (by simp [transition, hf]) rfl rfl rfl h (took_nothing rfl)

/-- FIN_WAIT_1 moves first and takes the segment in afterwards. -/
private theorem moveThenBoth_took (st : TcpConnState) :
    Took true true c seg (tcpConnUpdateRecvState (tcpConnUpdateSendState env
        (tcpConnSetInternalTimeout env { c with state := st } g).1
        (tcpConnSetInternalTimeout env { c with state := st } g).2 seg tsopt).1 seg tsopt).2 ∧
      (tcpConnUpdateRecvState (tcpConnUpdateSendState env
        (tcpConnSetInternalTimeout env { c with state := st } g).1
        (tcpConnSetInternalTimeout env { c with state := st } g).2 seg tsopt).1 seg tsopt).2.state
        = st := by
  obtain ⟨hsides, hstate⟩ := internalTimeout_fields env { c with state := st } g
  generalize tcpConnSetInternalTimeout env { c with state := st } g = moved at *
  exact ⟨took_both (c := c) hsides env _ seg tsopt,
    (bothStates_state env _ _ seg tsopt).trans hstate⟩

theorem handleFinWait1_follows (h : c.state = .finWait1) :
    Follows c seg (tcpHandleReceiveFinWait1 env c g seg tsopt) := by
  simp only [tcpHandleReceiveFinWait1]
  split_ifs with hr hfa hf ha
  · exact follows_of_none h (by simp [transition, hr]) rfl
  · obtain ⟨htook, hstate⟩ := moveThenBoth_took env c g seg tsopt .timeWait
    obtain ⟨hf, ha⟩ := Bool.and_eq_true_iff.mp hfa
    exact follows_of_some h (by simp [transition, hr, hf, ha])
      (by simp [updatesSend, hr, hf]) (by simp [updatesRecv, hr, hf]) rfl
      ((reply_state env _ _ _).trans hstate) (htook.reply env _)
  · obtain ⟨htook, hstate⟩ := moveThenBoth_took env c g seg tsopt .closing
    have ha : seg.ack = false := by simpa [hf] using hfa
    exact follows_of_some h (by simp [transition, hr, hf, ha])
      (by simp [updatesSend, hr, hf]) (by simp [updatesRecv, hr, hf]) rfl
      ((reply_state env _ _ _).trans hstate) (htook.reply env _)
  · obtain ⟨htook, hstate⟩ := moveThenBoth_took env c g seg tsopt .finWait2
    exact follows_of_some h (by simp [transition, hr, hf, ha])
      (by simp [updatesSend, hr, ha]) (by simp [updatesRecv, hr, ha]) rfl hstate htook
  · exact follows_of_some h (by simp [transition, hr, hf, ha])
      (by simp [updatesSend, hf, ha]) (by simp [updatesRecv, hf, ha]) rfl h
      (took_nothing rfl)

theorem handleFinWait2_follows (h : c.state = .finWait2) :
    Follows c seg (tcpHandleReceiveFinWait2 env c g seg tsopt) := by
  simp only [tcpHandleReceiveFinWait2]
  by_cases hr : seg.rst = true
  · rw [if_pos hr]
    exact follows_of_none h (by simp [transition, hr]) rfl
  rw [if_neg hr]
  have hsend : updatesSend .finWait2 seg = true := by simp [updatesSend, hr]
  have hrecv : updatesRecv .finWait2 seg = true := by simp [updatesRecv, hr]
  have htook := took_both (c := c) rfl env g seg tsopt
  have hstate := (bothStates_state env c g seg tsopt).trans h
  by_cases hf : seg.fin = true
  · rw [if_neg (by simp [hf])]
    have htrans : transition .finWait2 seg = some .timeWait := by simp [transition, hr, hf]
    generalize (tcpConnUpdateRecvState (tcpConnUpdateSendState env c g seg tsopt).1 seg tsopt).2
      = d at htook ⊢
    obtain ⟨hsides, hst⟩ := internalTimeout_fields env { d with state := .timeWait }
      (tcpConnUpdateSendState env c g seg tsopt).2
    exact follows_of_some h htrans hsend hrecv rfl ((reply_state env _ _ _).trans hst)
      ((htook.congr hsides).reply env _)
  · rw [if_pos (by simp [hf])]
    exact follows_of_some h (by simp [transition, hr, hf]) hsend hrecv rfl hstate htook

theorem handleClosing_follows (h : c.state = .closing) :
    Follows c seg (tcpHandleReceiveClosing env c g seg tsopt) := by
  simp only [tcpHandleReceiveClosing]
  have hrecv : updatesRecv .closing seg = false := rfl
  split_ifs with hr ha
  · exact follows_of_none h (by simp [transition, hr]) rfl
  · rw [Bool.not_eq_true'] at ha
    exact follows_of_some h (by simp [transition, hr, ha])
      (by simp [updatesSend, ha]) hrecv rfl h (took_nothing rfl)
  · rw [Bool.not_eq_true'] at ha
    have htrans : transition .closing seg = some .timeWait := by simp [transition, hr, ha]
    have hsend : updatesSend .closing seg = true := by simp [updatesSend, hr, ha]
    obtain ⟨hsides, hst⟩ := internalTimeout_fields env { c with state := .timeWait } g
    generalize tcpConnSetInternalTimeout env { c with state := .timeWait } g = moved at *
    exact follows_of_some h htrans hsend hrecv rfl ((sendState_state env _ _ seg tsopt).trans hst)
      (took_send (c := c) hsides env _ seg tsopt)

theorem handleTimeWait_follows (h : c.state = .timeWait) :
    Follows c seg (tcpHandleReceiveTimeWait env c g seg tsopt) := by
  simp only [tcpHandleReceiveTimeWait]
  by_cases hr : seg.rst = true
  · rw [if_pos hr]
    exact follows_of_none h (by simp [transition, hr]) rfl
  have hsend : updatesSend .timeWait seg = true := by simp [updatesSend, hr]
  have hrecv : updatesRecv .timeWait seg = true := by simp [updatesRecv, hr]
  have htrans : transition .timeWait seg = some .timeWait := by simp [transition, hr]
  have htook := took_both (c := c) rfl env g seg tsopt
  have hstate := (bothStates_state env c g seg tsopt).trans h
  split_ifs
  · exact follows_of_some h htrans hsend hrecv rfl hstate htook
  · exact follows_of_some h htrans hsend hrecv rfl ((reply_state env _ _ _).trans hstate)
      (htook.reply env _)

/-- **The dispatcher refines the diagram** on synchronized connections. -/
theorem tcpDispatch_follows (h : c.state.Synchronized) :
    Follows c seg (tcpDispatch env c g seg tsopt) := by
  obtain ⟨hlisten, hsent, hrcvd⟩ := h
  rw [tcpDispatch]
  cases hst : c.state with
  | listen => exact absurd hst hlisten
  | synSent => exact absurd hst hsent
  | synRcvd => exact absurd hst hrcvd
  | established => exact handleEstablished_follows env c g seg tsopt hst
  | closeWait => exact handleCloseWait_follows env c g seg hst
  | lastAck => exact handleLastAck_follows c g seg hst
  | finWait1 => exact handleFinWait1_follows env c g seg tsopt hst
  | finWait2 => exact handleFinWait2_follows env c g seg tsopt hst
  | closing => exact handleClosing_follows env c g seg tsopt hst
  | timeWait => exact handleTimeWait_follows env c g seg tsopt hst
  | reset =>
    exact follows_of_some hst rfl rfl rfl rfl hst (took_nothing rfl)

end

/-! ## The packet handler -/

/-- After the handshake the options of a segment change nothing. -/
theorem tcpConnParse_of_synchronized (env : NetEnv) {c : TcpConn} (h : c.state.Synchronized)
    (seg : Segment) : (tcpConnParse env c seg).1 = tcpConnNote env c := by
  obtain ⟨hlisten, hsent, hrcvd⟩ := h
  have hno : tcpConnAcceptsSynOptions (tcpConnNote env c) = false := by
    rw [tcpConnAcceptsSynOptions]
    split
    · exact absurd ‹_› hlisten
    · exact absurd ‹_› hsent
    · exact absurd ‹_› hrcvd
    · rfl
  simp only [tcpConnParse]
  split_ifs
  · obtain ⟨mss, scale, use, heq, -, hsame⟩ :=
      tcpHandleOptions_update _ seg.flags seg.options
    exact hsame (by rw [hno, Bool.and_false])
  · rfl

/-- Away from LISTEN, a segment is handled by the dispatcher and settled in its slot. -/
theorem tcpHandlePacketLocked_eq {env : NetEnv} {seg : Segment} {c : TcpConn}
    (hlook : tcpLookupConn s hostAddr peerAddr seg.destPort seg.srcPort = some i)
    (hc : s.connTable i = some c) (hst : (tcpConnParse env c seg).1.state ≠ .listen) :
    tcpHandlePacketLocked env s hostAddr peerAddr seg =
      ((tcpDispatch env (tcpConnParse env c seg).1 s.glob seg (tcpConnParse env c seg).2).res,
        settle s i
          (tcpDispatch env (tcpConnParse env c seg).1 s.glob seg (tcpConnParse env c seg).2)) := by
  unfold tcpHandlePacketLocked
  simp only [hlook, hc, if_neg (options_fit seg), if_neg hst]

/-- **A segment for a synchronized connection.** The slot is freed or holds the connection in the
state of the diagram, with what the state lets it take of the segment. -/
theorem tcpHandlePacketLocked_slot (env : NetEnv) {seg : Segment} {c : TcpConn}
    (hlook : tcpLookupConn s hostAddr peerAddr seg.destPort seg.srcPort = some i)
    (hc : s.connTable i = some c) (hsync : c.state.Synchronized) :
    (transition c.state seg = none ∧
        (tcpHandlePacketLocked env s hostAddr peerAddr seg).2.connTable i = none) ∨
      ∃ st d, transition c.state seg = some st ∧
        (tcpHandlePacketLocked env s hostAddr peerAddr seg).2.connTable i = some d ∧
        d.state = st ∧ Took (updatesSend c.state seg) (updatesRecv c.state seg) c seg d := by
  have hparse := tcpConnParse_of_synchronized env hsync seg
  have hsync' : (tcpConnNote env c).state.Synchronized := hsync
  have hfollows := tcpDispatch_follows env (tcpConnNote env c) s.glob seg
    (tcpConnParse env c seg).2 hsync'
  rw [tcpHandlePacketLocked_eq hlook hc (by rw [hparse]; exact hsync.1), hparse]
  generalize tcpDispatch env (tcpConnNote env c) s.glob seg (tcpConnParse env c seg).2 = o
    at hfollows
  have hfreed : o.freed = (transition c.state seg).isNone := hfollows.freed
  obtain ⟨f, hslot⟩ := settle_self s i o
  cases htrans : transition c.state seg with
  | none =>
    rw [htrans] at hfreed
    rw [hfreed] at hslot
    exact .inl ⟨rfl, hslot⟩
  | some st =>
    rw [htrans] at hfreed
    have htook := hfollows.took hfreed
    rw [hfreed] at hslot
    have hside : (tcpConnTakeData (tcpConnNote env c) seg).recvSide
        = (tcpConnTakeData c seg).recvSide :=
      tcpConnTakeData_congr (c := tcpConnNote env c) (d := c) rfl seg
    refine .inr ⟨st, _, rfl, hslot, hfollows.state st htrans, ?_⟩
    refine ⟨htook.sendUnack, htook.dupAcks, htook.sendNext, htook.recvSide.trans ?_⟩
    rw [hside]
    rfl

/-- The same, of a call. -/
theorem step_slot_of_segmentFor {env : NetEnv} {s' : TcpStack} {e : Event} {c : TcpConn}
    {seg : Segment} (h : step env s e = some s')
    (hseg : e.segmentFor s i = some seg) (hc : s.connTable i = some c)
    (hsync : c.state.Synchronized) :
    (transition c.state seg = none ∧ s'.connTable i = none) ∨
      ∃ st d, transition c.state seg = some st ∧ s'.connTable i = some d ∧ d.state = st ∧
        Took (updatesSend c.state seg) (updatesRecv c.state seg) c seg d := by
  obtain ⟨hostAddr, peerAddr, rfl, hlook⟩ := Event.exists_packet_of_segmentFor hseg
  cases h
  exact tcpHandlePacketLocked_slot env hlook hc hsync

/-! ## Before the handshake is over -/

/-- The segment acknowledges our SYN, and no RST overrides it. -/
def acksSyn (c : TcpConn) (seg : Segment) : Bool :=
  !seg.rst && seg.ack && seg.ackNum == c.iss + 1

/-- The receive side at the end of a passive open: a fresh buffer. -/
def opened (r : RecvSide) : RecvSide := { r with buf := recvBufNew }

/-- SYN_RCVD is left by the ACK of our SYN, to ESTABLISHED or, without a buffer, for good, and ends
on a RST. -/
theorem handleSynRcvd_cases (env : NetEnv) (c : TcpConn) (g : Globals) (seg : Segment)
    (tsopt : TsOpt) :
    let o := tcpHandleReceiveSynRcvd env c g seg tsopt
    (o.freed = true ∧ (seg.rst = true ∨ acksSyn c seg = true)) ∨
      (o.freed = false ∧ seg.rst = false ∧ acksSyn c seg = false ∧ o.conn = c) ∨
      (o.freed = false ∧ acksSyn c seg = true ∧ o.conn.state = .established ∧
        o.conn.recvSide = opened c.recvSide) := by
  simp only [tcpHandleReceiveSynRcvd]
  cases hr : seg.rst with
  | true => exact .inl ⟨rfl, .inl rfl⟩
  | false =>
    rw [if_neg Bool.false_ne_true]
    cases ha : seg.ack with
    | false => exact .inr (.inl ⟨rfl, rfl, by simp [acksSyn, ha], rfl⟩)
    | true =>
      rw [if_neg (by decide)]
      by_cases hn : seg.ackNum = c.iss + 1
      · rw [if_neg (not_not.mpr hn)]
        have hacks : acksSyn c seg = true := by simp [acksSyn, hr, ha, hn]
        obtain ⟨f, hf, -⟩ :=
          tcpConnUpdateSendState_spec env { c with state := .established } g seg tsopt
        split_ifs
        · exact .inl ⟨rfl, .inr hacks⟩
        · rw [hf]
          exact .inr (.inr ⟨rfl, hacks, rfl, rfl⟩)
      · rw [if_pos hn]
        exact .inr (.inl ⟨rfl, rfl, by rw [acksSyn, beq_eq_false_iff_ne.mpr hn, Bool.and_false], rfl⟩)

/-- **A segment for a connection in SYN_RCVD.** -/
theorem tcpHandlePacketLocked_synRcvd (env : NetEnv) {seg : Segment} {c : TcpConn}
    (hlook : tcpLookupConn s hostAddr peerAddr seg.destPort seg.srcPort = some i)
    (hc : s.connTable i = some c) (hst : c.state = .synRcvd) :
    let after := (tcpHandlePacketLocked env s hostAddr peerAddr seg).2.connTable i
    (after = none ∧ (seg.rst = true ∨ acksSyn c seg = true)) ∨
      ∃ d, after = some d ∧
        ((seg.rst = false ∧ acksSyn c seg = false ∧ d.state = .synRcvd ∧
            d.recvSide = c.recvSide) ∨
          (acksSyn c seg = true ∧ d.state = .established ∧ d.recvSide = opened c.recvSide)) := by
  obtain ⟨mss, scale, use, hparse⟩ := tcpConnParse_eq env c seg
  have hst' : (tcpConnParse env c seg).1.state = .synRcvd := by
    rw [hparse]
    exact hst
  have hacks : acksSyn (tcpConnParse env c seg).1 seg = acksSyn c seg := by rw [hparse]; rfl
  have hside : (tcpConnParse env c seg).1.recvSide = c.recvSide := by rw [hparse]; rfl
  have hcases := handleSynRcvd_cases env (tcpConnParse env c seg).1 s.glob seg
    (tcpConnParse env c seg).2
  intro after
  have hafter : after = (settle s i (tcpHandleReceiveSynRcvd env (tcpConnParse env c seg).1 s.glob
      seg (tcpConnParse env c seg).2)).connTable i := by
    show (tcpHandlePacketLocked env s hostAddr peerAddr seg).2.connTable i = _
    rw [tcpHandlePacketLocked_eq hlook hc (by rw [hst']; decide), tcpDispatch, hst']
  clear_value after
  subst hafter
  generalize tcpHandleReceiveSynRcvd env (tcpConnParse env c seg).1 s.glob seg
    (tcpConnParse env c seg).2 = o at hcases ⊢
  obtain ⟨f, hslot⟩ := settle_self s i o
  rw [hacks] at hcases
  rcases hcases with ⟨hfreed, hwhy⟩ | ⟨hfreed, hr, hno, hconn⟩ | ⟨hfreed, hyes, hest, hopen⟩
  · rw [hfreed] at hslot
    exact .inl ⟨hslot, hwhy⟩
  · rw [hfreed] at hslot
    refine .inr ⟨_, hslot, .inl ⟨hr, hno, ?_, ?_⟩⟩
    · rw [hconn]
      exact hst'
    · rw [hconn]
      exact hside
  · rw [hfreed] at hslot
    refine .inr ⟨_, hslot, .inr ⟨hyes, hest, ?_⟩⟩
    rw [← hside, ← hopen]
    rfl

end Mazu.Tcp
