import Mazu.Tcp.Transition

/-!
# Acknowledgements and resets

What an arriving ACK or RST has to achieve on a connection that was established: a new ACK is taken,
a RST ends the connection, and the states that wait for the ACK of our FIN are left only for it.
-/

namespace Mazu.Tcp

open Serial Option

/-! ## New acknowledgements and resets -/

/-- The law of ACK and RST: an ACK number in `(send_unack, send_next]` becomes `send_unack`, and a
RST leads to RESET, unless the connection is freed. -/
structure AckRstLaw (c : TcpConn) (seg : Segment) (after : Option TcpConn) : Prop where
  ack : seg.ack = true → seg.rst = false → 0 < dist c.sendUnack seg.ackNum →
    dist c.sendUnack seg.ackNum ≤ c.inFlight → ∀ d, after = some d → d.sendUnack = seg.ackNum
  rst : seg.rst = true → ∀ d, after = some d → d.state = .reset

/-- The states of a connection both ends know of, up to the last acknowledgement. -/
def TcpConnState.isConnected (st : TcpConnState) : Bool :=
  match st with
  | .established | .closeWait | .finWait1 | .finWait2 | .closing | .lastAck => true
  | _ => false

variable {st : TcpConnState}

theorem TcpConnState.synchronized_of_isConnected (h : st.isConnected = true) :
    st.Synchronized := by
  refine ⟨?_, ?_, ?_⟩
  · rintro rfl
    cases h
  · rintro rfl
    cases h
  · rintro rfl
    cases h

/-- Away from CLOSE_WAIT, the handler of a connected state looks at every ACK it survives. -/
theorem updatesSend_of_ack {seg : Segment} (hst : st.isConnected = true) (hcw : st ≠ .closeWait)
    (hack : seg.ack = true) (hrst : seg.rst = false) {st' : TcpConnState}
    (htrans : transition st seg = some st') : updatesSend st seg = true := by
  cases st with
  | established | finWait2 => simp [updatesSend, hrst]
  | finWait1 | closing => simp [updatesSend, hrst, hack]
  | lastAck => simp [transition, hack] at htrans
  | closeWait => exact absurd rfl hcw
  | listen | synSent | synRcvd | timeWait | reset => cases hst

/-- Away from CLOSE_WAIT, the handler of a connected state resets or frees. -/
theorem transition_of_rst {seg : Segment} (hst : st.isConnected = true) (hcw : st ≠ .closeWait)
    (hrst : seg.rst = true) {st' : TcpConnState}
    (htrans : transition st seg = some st') : st' = .reset := by
  cases st with
  | established =>
    rw [transition, if_pos hrst] at htrans
    exact (some.inj htrans).symm
  | finWait1 | finWait2 | closing | lastAck => simp [transition, hrst] at htrans
  | closeWait => exact absurd rfl hcw
  | listen | synSent | synRcvd | timeWait | reset => cases hst

section

variable {s : TcpStack} {hostAddr peerAddr : Ipv4Addr} {seg : Segment} {i : ConnIdx} {c : TcpConn}

/-- CLOSE_WAIT has no handler: it neither takes a new ACK nor ends on a RST. -/
theorem not_ackRstLaw (env : NetEnv)
    (hlook : tcpLookupConn s hostAddr peerAddr seg.destPort seg.srcPort = some i)
    (hc : s.connTable i = some c) (hcw : c.state = .closeWait)
    (hbad : seg.rst = true ∨ (seg.ack = true ∧ 0 < dist c.sendUnack seg.ackNum ∧
      dist c.sendUnack seg.ackNum ≤ c.inFlight)) :
    ¬ AckRstLaw c seg ((tcpHandlePacketLocked env s hostAddr peerAddr seg).2.connTable i) := by
  intro hlaw
  have htrans : transition c.state seg = some .closeWait := by rw [hcw]; rfl
  have hsync : c.state.Synchronized := by rw [hcw]; decide
  rcases tcpHandlePacketLocked_slot env hlook hc hsync
    with ⟨hnone, -⟩ | ⟨st, d, hsome, hd, hdst, htook⟩
  · rw [htrans] at hnone
    cases hnone
  rw [htrans] at hsome
  cases hsome
  have hunack : d.sendUnack = c.sendUnack := by
    rw [htook.sendUnack, hcw]
    rfl
  by_cases hr : seg.rst = true
  · have hreset := hlaw.rst hr d hd
    rw [hdst] at hreset
    cases hreset
  · rcases hbad with hr' | ⟨ha, hpos, hle⟩
    · exact hr hr'
    · have hnew := hlaw.ack ha (by simpa using hr) hpos hle d hd
      rw [← hnew, hunack, dist_self] at hpos
      exact Nat.lt_irrefl 0 hpos

/-- **When the law of ACK and RST holds.** Every connected state but CLOSE_WAIT obeys it for every
segment. -/
theorem ackRstLaw_iff (hs : Reachable s) (env : NetEnv)
    (hlook : tcpLookupConn s hostAddr peerAddr seg.destPort seg.srcPort = some i)
    (hc : s.connTable i = some c) (hst : c.state.isConnected = true) :
    AckRstLaw c seg ((tcpHandlePacketLocked env s hostAddr peerAddr seg).2.connTable i) ↔
      ¬(c.state = .closeWait ∧ (seg.rst = true ∨
        (seg.ack = true ∧ 0 < dist c.sendUnack seg.ackNum ∧
          dist c.sendUnack seg.ackNum ≤ c.inFlight))) := by
  have hflight := (hs.connInv i c hc).inFlight_lt
  have hslot := tcpHandlePacketLocked_slot env hlook hc
    (TcpConnState.synchronized_of_isConnected hst)
  constructor
  · rintro hlaw ⟨hcw, hbad⟩
    exact not_ackRstLaw env hlook hc hcw hbad hlaw
  · intro hok
    constructor
    · intro ha hr hpos hle d hd
      have hcw : c.state ≠ .closeWait := fun h ↦ hok ⟨h, .inr ⟨ha, hpos, hle⟩⟩
      rcases hslot with ⟨-, hnone⟩ | ⟨st, d', hsome, hd', -, htook⟩
      · rw [hnone] at hd
        cases hd
      · rw [hd'] at hd
        cases hd
        rw [htook.sendUnack, updatesSend_of_ack hst hcw ha hr hsome, ha,
          (ackAcceptable_iff hflight _).mpr ⟨hpos, hle⟩]
        rfl
    · intro hr d hd
      have hcw : c.state ≠ .closeWait := fun h ↦ hok ⟨h, .inl hr⟩
      rcases hslot with ⟨-, hnone⟩ | ⟨st, d', hsome, hd', hdst, -⟩
      · rw [hnone] at hd
        cases hd
      · rw [hd'] at hd
        cases hd
        rw [hdst, transition_of_rst hst hcw hr hsome]

end

/-- Three bytes of user data on the connection of slot 1. -/
def sendThree : NetEnv × Event :=
  (.sending 2 hostA 1000, .send ⟨1, by decide⟩ [1, 2, 3] (.ok 1500))

/-- The server has sent three bytes, and the peer acknowledges them. -/
theorem ackRstLaw_established :
    ∃ s c, Reachable s ∧ s.connTable ⟨1, by decide⟩ = some c ∧ c.state = .established ∧
      c.inFlight = 3 ∧ AckRstLaw c (.bare 5000 80 2 1004 tcpHdrFlagAck 1000)
        ((tcpHandlePacketLocked (.sending 3 hostA 1000) s hostA peerA
          (.bare 5000 80 2 1004 tcpHdrFlagAck 1000)).2.connTable ⟨1, by decide⟩) := by
  obtain ⟨s, c, hs, hc, hp⟩ := exists_conn_of_runCalls 0 (serverHandshake ++ [sendThree])
    ⟨1, by decide⟩ (fun s c ↦ decide (c.state = .established ∧ c.inFlight = 3 ∧
      tcpLookupConn s hostA peerA 80 5000 = some ⟨1, by decide⟩)) (by decide +kernel)
  obtain ⟨hst, hflight, hlook⟩ := of_decide_eq_true hp
  refine ⟨s, c, hs, hc, hst, hflight, (ackRstLaw_iff hs _ hlook hc (by rw [hst]; rfl)).mpr ?_⟩
  rintro ⟨hcw, -⟩
  rw [hst] at hcw
  cases hcw

/-- The server has sent three bytes and the peer has closed its side. Neither the ACK of the three
bytes nor a RST, both at `recv_next`, does anything in CLOSE_WAIT. -/
theorem not_ackRstLaw_closeWait :
    ∃ s c, Reachable s ∧ s.connTable ⟨1, by decide⟩ = some c ∧ c.state = .closeWait ∧
      c.recvNext = 3 ∧
      (¬ AckRstLaw c (.bare 5000 80 3 1004 tcpHdrFlagAck 1000)
        ((tcpHandlePacketLocked (.sending 4 hostA 1000) s hostA peerA
          (.bare 5000 80 3 1004 tcpHdrFlagAck 1000)).2.connTable ⟨1, by decide⟩)) ∧
      ¬ AckRstLaw c (.bare 5000 80 3 0 tcpHdrFlagRst 0)
        ((tcpHandlePacketLocked (.sending 4 hostA 1000) s hostA peerA
          (.bare 5000 80 3 0 tcpHdrFlagRst 0)).2.connTable ⟨1, by decide⟩) := by
  obtain ⟨s, c, hs, hc, hp⟩ := exists_conn_of_runCalls 0
    (serverHandshake ++ [sendThree, (.sending 3 hostA 1000, .packet hostA peerA
      (.bare 5000 80 2 1001 (tcpHdrFlagFin ||| tcpHdrFlagAck) 1000))]) ⟨1, by decide⟩
    (fun s c ↦ decide (c.state = .closeWait ∧ c.recvNext = 3 ∧
      tcpLookupConn s hostA peerA 80 5000 = some ⟨1, by decide⟩ ∧
      0 < dist c.sendUnack 1004 ∧ dist c.sendUnack 1004 ≤ c.inFlight)) (by decide +kernel)
  obtain ⟨hst, hnext, hlook, hnew⟩ := of_decide_eq_true hp
  refine ⟨s, c, hs, hc, hst, hnext, ?_, ?_⟩
  · exact not_ackRstLaw _ hlook hc hst (.inr ⟨rfl, hnew⟩)
  · exact not_ackRstLaw _ hlook hc hst (.inl rfl)

/-! ## The acknowledgement of our FIN -/

/-- `send_unack` after the acknowledgement of a segment was looked at. -/
def unackAfter (c : TcpConn) (seg : Segment) : U32 :=
  if seg.ack && ackAcceptable c seg.ackNum then seg.ackNum else c.sendUnack

/-- The moves of the closing handshake that wait for the ACK of our FIN are made only with everything
acknowledged. A connection in LAST_ACK is gone afterwards, so there the ACK itself has to say it. -/
structure FinAcked (s : TcpStack) (e : Event) (s' : TcpStack) (i : ConnIdx) (c : TcpConn) :
    Prop where
  finWait1 : c.state = .finWait1 → ∀ d, s'.connTable i = some d →
    d.state = .finWait2 ∨ d.state = .timeWait → d.sendUnack = d.sendNext
  closing : c.state = .closing → ∀ d, s'.connTable i = some d →
    d.state = .timeWait → d.sendUnack = d.sendNext
  lastAck : c.state = .lastAck → ∀ seg, e.segmentFor s i = some seg → seg.ack = true →
    seg.rst = false → s'.connTable i = none → unackAfter c seg = c.sendNext

/-- An ACK that arrives for a connection that waits for the ACK of its FIN finds everything
acknowledged, or acknowledges everything. -/
def AcksFin (s : TcpStack) (e : Event) : Prop :=
  ∀ i c seg, s.connTable i = some c → e.segmentFor s i = some seg →
    c.state = .finWait1 ∨ c.state = .closing ∨ c.state = .lastAck → seg.ack = true →
    seg.rst = false → c.sendUnack = c.sendNext ∨ seg.ackNum = c.sendNext

theorem unackAfter_eq_sendNext_iff {c : TcpConn} {seg : Segment} (hflight : c.inFlight < 2 ^ 31)
    (hack : seg.ack = true) : unackAfter c seg = c.sendNext ↔
      c.sendUnack = c.sendNext ∨ seg.ackNum = c.sendNext := by
  rw [unackAfter, hack]
  split_ifs with hacc
  · refine ⟨.inr, ?_⟩
    rintro (heq | heq)
    · -- nothing is in flight, so no ACK number is acceptable
      obtain ⟨hpos, hle⟩ := (ackAcceptable_iff hflight _).mp hacc
      rw [TcpConn.inFlight, heq, dist_self] at hle
      rw [heq] at hpos
      omega
    · exact heq
  · refine ⟨.inl, ?_⟩
    rintro (heq | heq)
    · exact heq
    · by_contra hne
      refine hacc ((ackAcceptable_iff hflight _).mpr ⟨?_, ?_⟩)
      · rw [heq]
        exact Nat.pos_of_ne_zero fun h0 ↦ hne (dist_eq_zero_iff.mp h0).symm
      · rw [heq]
        exact le_refl _

/-- From FIN_WAIT_1, only an ACK without RST leads into the two waiting states. -/
theorem transition_finWait1 {seg : Segment}
    (h : transition .finWait1 seg = some st) : (st = .finWait2 ∨ st = .timeWait) ↔
      (seg.ack = true ∧ seg.rst = false) := by
  cases hr : seg.rst <;> cases hf : seg.fin <;> cases ha : seg.ack <;>
    simp [transition, hr, hf, ha] at h <;> subst h <;> simp

theorem transition_closing {seg : Segment}
    (h : transition .closing seg = some st) : st = .timeWait ↔
      (seg.ack = true ∧ seg.rst = false) := by
  cases hr : seg.rst <;> cases ha : seg.ack <;> simp [transition, hr, ha] at h <;> subst h <;> simp

section

variable {env : NetEnv} {s s' : TcpStack} {e : Event} {i : ConnIdx} {c : TcpConn} {seg : Segment}

/-- A connection that waits for the ACK of its FIN moves on with everything acknowledged exactly when
the ACK that moves it on, or one before it, says so. -/
theorem unack_of_waits (hs : Reachable s) (h : step env s e = some s') (hc : s.connTable i = some c)
    (hst : c.state = .finWait1 ∨ c.state = .closing) (hseg : e.segmentFor s i = some seg)
    (hack : seg.ack = true) (hrst : seg.rst = false) :
    ∃ d, s'.connTable i = some d ∧ (d.state = .timeWait ∨ c.state = .finWait1 ∧ d.state = .finWait2) ∧
      (d.sendUnack = d.sendNext ↔ c.sendUnack = c.sendNext ∨ seg.ackNum = c.sendNext) := by
  have hflight := (hs.connInv i c hc).inFlight_lt
  have hsync : c.state.Synchronized := by rcases hst with hst | hst <;> rw [hst] <;> decide
  have hup : updatesSend c.state seg = true := by
    rcases hst with hst | hst <;> rw [hst] <;> simp [updatesSend, hack, hrst]
  rcases step_slot_of_segmentFor h hseg hc hsync with ⟨hnone, -⟩ | ⟨st, d, hsome, hd, hdst, htook⟩
  · rcases hst with hst | hst <;> rw [hst] at hnone <;> simp [transition, hack, hrst] at hnone
    split_ifs at hnone
  · refine ⟨d, hd, ?_, ?_⟩
    · rw [hdst]
      rcases hst with hst | hst <;> rw [hst] at hsome
      · exact ((transition_finWait1 hsome).mpr ⟨hack, hrst⟩).symm.imp id fun h ↦ ⟨hst, h⟩
      · exact .inl ((transition_closing hsome).mpr ⟨hack, hrst⟩)
    · have hunack : d.sendUnack = unackAfter c seg := by
        rw [htook.sendUnack, hup]
        rfl
      rw [hunack, htook.sendNext]
      exact unackAfter_eq_sendNext_iff hflight hack

/-- The moves out of FIN_WAIT_1 and CLOSING are the work of an ACK. -/
theorem exists_ack_of_waits (he : e.Allowed s) (h : step env s e = some s')
    (hc : s.connTable i = some c) {d : TcpConn} (hd : s'.connTable i = some d)
    (hst : c.state = .finWait1 ∧ (d.state = .finWait2 ∨ d.state = .timeWait) ∨
      c.state = .closing ∧ d.state = .timeWait) :
    ∃ seg, e.segmentFor s i = some seg ∧ seg.ack = true ∧ seg.rst = false := by
  have hwait : d.state = .finWait2 ∨ d.state = .timeWait :=
    hst.elim And.right fun h ↦ .inr h.2
  have hkept : d.state.Settled := by
    rcases hwait with hwait | hwait <;> rw [hwait] <;> decide
  cases hseg : e.segmentFor s i with
  | none =>
    obtain ⟨f, hev⟩ := step_evolves he h
    obtain ⟨c', hc', hsame⟩ := (hev.slots i).exists_state (Event.cause_ne_segment hseg)
      (fun c hc ↦ hc.2.not_settled hkept) hd hkept
    cases hc.symm.trans hc'
    -- no connection is in a state of its own and in one of the waiting states at once
    rcases hst with ⟨hcst, hdst | hdst⟩ | ⟨hcst, hdst⟩ <;> rw [hcst, hdst] at hsame <;> cases hsame
  | some seg =>
    refine ⟨seg, rfl, ?_⟩
    have hsync : c.state.Synchronized := by
      rcases hst with ⟨hst, -⟩ | ⟨hst, -⟩ <;> rw [hst] <;> decide
    rcases step_slot_of_segmentFor h hseg hc hsync with ⟨-, hnone⟩ | ⟨st, d', hsome, hd', hdst, -⟩
    · rw [hnone] at hd
      cases hd
    cases hd'.symm.trans hd
    rcases hst with ⟨hcst, hto⟩ | ⟨hcst, hto⟩ <;> rw [hcst] at hsome
    · exact (transition_finWait1 hsome).mp (hdst ▸ hto)
    · exact (transition_closing hsome).mp (hdst ▸ hto)

/-- One call keeps the closing handshake in order exactly when its ACK does. -/
theorem finAcked_step_iff (hs : Reachable s) (he : e.Allowed s) (h : step env s e = some s') :
    (∀ i c, s.connTable i = some c → FinAcked s e s' i c) ↔ AcksFin s e := by
  constructor
  · intro hlaw i c seg hc hseg hst hack hrst
    have hl := hlaw i c hc
    rcases hst with hst | hst | hst
    · obtain ⟨d, hd, hdst, hiff⟩ := unack_of_waits hs h hc (.inl hst) hseg hack hrst
      exact hiff.mp (hl.finWait1 hst d hd (hdst.symm.imp And.right id))
    · obtain ⟨d, hd, hdst, hiff⟩ := unack_of_waits hs h hc (.inr hst) hseg hack hrst
      rcases hdst with hdst | ⟨hcst, -⟩
      · exact hiff.mp (hl.closing hst d hd hdst)
      · rw [hst] at hcst
        cases hcst
    · have hflight := (hs.connInv i c hc).inFlight_lt
      have hsync : c.state.Synchronized := by rw [hst]; decide
      have htrans : transition c.state seg = none := by rw [hst]; simp [transition, hack]
      rcases step_slot_of_segmentFor h hseg hc hsync with ⟨-, hnone⟩ | ⟨st, d, hsome, -⟩
      · exact (unackAfter_eq_sendNext_iff hflight hack).mp
          (hl.lastAck hst seg hseg hack hrst hnone)
      · rw [htrans] at hsome
        cases hsome
  · intro hcond i c hc
    have hdone : ∀ d, s'.connTable i = some d →
        (c.state = .finWait1 ∧ (d.state = .finWait2 ∨ d.state = .timeWait) ∨
          c.state = .closing ∧ d.state = .timeWait) → d.sendUnack = d.sendNext := by
      intro d hd hst
      obtain ⟨seg, hseg, hack, hrst⟩ := exists_ack_of_waits he h hc hd hst
      have hwait := hst.imp And.left And.left
      obtain ⟨d', hd', -, hiff⟩ := unack_of_waits hs h hc hwait hseg hack hrst
      cases hd'.symm.trans hd
      exact hiff.mpr (hcond i c seg hc hseg (hwait.imp_right .inl) hack hrst)
    refine ⟨fun hst d hd hdst ↦ hdone d hd (.inl ⟨hst, hdst⟩),
      fun hst d hd hdst ↦ hdone d hd (.inr ⟨hst, hdst⟩), fun hst seg hseg hack hrst _ ↦ ?_⟩
    exact (unackAfter_eq_sendNext_iff (hs.connInv i c hc).inFlight_lt hack).mpr
      (hcond i c seg hc hseg (.inr (.inr hst)) hack hrst)

end

/-- **When the closing handshake waits for the ACK of our FIN.** The handlers look at the ACK flag and
not at the ACK number, so a run keeps to the order exactly when every ACK that arrives in
FIN_WAIT_1, CLOSING or LAST_ACK finds everything acknowledged or acknowledges everything. -/
theorem finAcked_iff {calls : List (TcpStack × Event × TcpStack)} {s : TcpStack}
    (hrun : Run calls s) :
    (∀ t e t', (t, e, t') ∈ calls → ∀ i c, t.connTable i = some c → FinAcked t e t' i c) ↔
      ∀ t e t', (t, e, t') ∈ calls → AcksFin t e := by
  refine forall₄_congr fun t e t' hm ↦ ?_
  obtain ⟨ht, he, env, hstep⟩ := hrun.of_mem hm
  exact finAcked_step_iff ht he hstep

/-- The condition, evaluated. -/
instance (s : TcpStack) (e : Event) : Decidable (AcksFin s e) :=
  decidable_of_iff
    ((List.finRange tcpConnMaxNum).all fun i ↦ (s.connTable i).all fun c : TcpConn ↦
      (e.segmentFor s i).all fun seg ↦ decide
        (c.state = .finWait1 ∨ c.state = .closing ∨ c.state = .lastAck → seg.ack = true →
          seg.rst = false → c.sendUnack = c.sendNext ∨ seg.ackNum = c.sendNext)) (by
    rw [List.all_eq_true]
    constructor
    · intro h i c seg hc hseg
      have hi := h i (List.mem_finRange i)
      rw [hc, all_some, hseg, all_some] at hi
      exact of_decide_eq_true hi
    · intro h i _
      rw [all_eq_true]
      intro c hc
      rw [all_eq_true]
      exact fun seg hseg ↦ decide_eq_true (h i c seg hc hseg))

/-- The server closes, and the peer acknowledges its FIN and then sends its own. -/
def orderlyClose : List (NetEnv × Event) :=
  serverHandshake ++ [(.sending 2 hostA 1000, .close ⟨1, by decide⟩),
    (.sending 3 hostA 1000, .packet hostA peerA (.bare 5000 80 2 1002 tcpHdrFlagAck 1000)),
    (.sending 4 hostA 1000, .packet hostA peerA
      (.bare 5000 80 2 1002 (tcpHdrFlagFin ||| tcpHdrFlagAck) 1000))]

theorem finAcked_orderly : ∃ calls s, Run calls s ∧
    (∃ t e t' c d, (t, e, t') ∈ calls ∧ t.connTable ⟨1, by decide⟩ = some c ∧
      t'.connTable ⟨1, by decide⟩ = some d ∧ c.state = .finWait1 ∧ d.state = .finWait2) ∧
    ∀ t e t', (t, e, t') ∈ calls → ∀ i c, t.connTable i = some c → FinAcked t e t' i c := by
  obtain ⟨calls, s, hrun, hp⟩ := exists_run_of_traceCalls 0 orderlyClose
    (fun r ↦ (r.1.all fun call ↦ decide (AcksFin call.1 call.2.1)) && r.1.any fun call ↦
      (call.1.connTable ⟨1, by decide⟩).any (fun c ↦ c.state == .finWait1) &&
        (call.2.2.connTable ⟨1, by decide⟩).any (fun d ↦ d.state == .finWait2)) (by decide +kernel)
  rw [Bool.and_eq_true, List.all_eq_true, List.any_eq_true] at hp
  obtain ⟨hall, ⟨t, e, t'⟩, hm, hmove⟩ := hp
  rw [Bool.and_eq_true, any_eq_true, any_eq_true] at hmove
  obtain ⟨⟨c, hc, hcst⟩, d, hd, hdst⟩ := hmove
  exact ⟨calls, s, hrun, ⟨t, e, t', c, d, hm, hc, hd, beq_iff_eq.mp hcst, beq_iff_eq.mp hdst⟩,
    (finAcked_iff hrun).mpr fun t e t' hm ↦ of_decide_eq_true (hall _ hm)⟩

/-- The server sends three bytes and closes, and a stale ACK of none of them arrives. -/
def staleAckClose : List (NetEnv × Event) :=
  serverHandshake ++ [sendThree, (.sending 3 hostA 1000, .close ⟨1, by decide⟩),
    (.sending 4 hostA 1000, .packet hostA peerA (.bare 5000 80 2 1001 tcpHdrFlagAck 1000))]

theorem not_finAcked_stale : ∃ calls s, Run calls s ∧ ∃ t e t' c,
    (t, e, t') ∈ calls ∧ t.connTable ⟨1, by decide⟩ = some c ∧
      ¬ FinAcked t e t' ⟨1, by decide⟩ c := by
  obtain ⟨calls, s, hrun, hp⟩ := exists_run_of_traceCalls 0 staleAckClose
    (fun r ↦ r.1.any fun call ↦
      (call.1.connTable ⟨1, by decide⟩).any (fun c ↦ c.state == .finWait1) &&
        (call.2.2.connTable ⟨1, by decide⟩).any fun d : TcpConn ↦
          decide (d.state = .finWait2 ∧ d.sendUnack ≠ d.sendNext)) (by decide +kernel)
  rw [List.any_eq_true] at hp
  obtain ⟨⟨t, e, t'⟩, hm, hmove⟩ := hp
  rw [Bool.and_eq_true, any_eq_true, any_eq_true] at hmove
  obtain ⟨⟨c, hc, hcst⟩, d, hd, hdst⟩ := hmove
  obtain ⟨hfw2, hne⟩ := of_decide_eq_true hdst
  exact ⟨calls, s, hrun, t, e, t', c, hm, hc, fun hlaw ↦
    hne (hlaw.finWait1 (beq_iff_eq.mp hcst) d hd (.inl hfw2))⟩

end Mazu.Tcp
