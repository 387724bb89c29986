import Mazu.Tcp.RecvSide
import Mazu.Tcp.Slots

/-!
# The invariant of a connection

What holds of every connection in every reachable state. The numbers in flight are the main point:
no window scale exceeds 14, so no window exceeds `65535 · 2¹⁴`, data is sent only within the window,
and our FIN adds one. Half the sequence space is `2³¹`, so the signed comparisons of sequence
numbers agree with the order of the numbers in flight.
-/

namespace Mazu.Tcp

open Serial List

/-- The largest window a segment can advertise. -/
def maxWindow : ℕ := 65535 * 2 ^ 14

/-- The states our FIN belongs to. -/
def TcpConnState.finSent : TcpConnState → Bool
  | .lastAck | .finWait1 | .finWait2 | .closing | .timeWait => true
  | _ => false

/-- The sequence numbers in flight. -/
def TcpConn.inFlight (c : TcpConn) : ℕ := dist c.sendUnack c.sendNext

/-- A queue entry was sent between one and nine times, and each time doubled its delay. -/
structure SendBufQueue.Ok (sbq : SendBufQueue) : Prop where
  pos : 1 ≤ sbq.nTransmissions
  le : sbq.nTransmissions ≤ 9
  retry_pos : 0 < sbq.retryAfter.toNat
  retry_le : sbq.retryAfter.toNat ≤ 30000 * 2 ^ (sbq.nTransmissions - 1)

/-- The receive side: a well-formed ring, and a slot that holds as many bytes as it says. -/
structure RecvOk (c : TcpConn) : Prop where
  buf : c.recvBuf.WF
  ooo : c.oooLen ≤ c.oooBuf.length ∧ c.oooLen ≤ 1500

structure ConnInv (c : TcpConn) : Prop where
  scale : c.sendWindowScale.toNat ≤ 14
  window : c.sendWindowReal ≤ maxWindow
  flight : c.inFlight ≤ maxWindow + (if c.state.finSent then 1 else 0)
  /-- Before the handshake is over no window is known and only our SYN is in flight. -/
  handshake : ¬ c.state.Synchronized → c.sendWindowReal = 0 ∧ c.sendUnack = c.iss ∧
    (c.sendNext = c.iss ∨ c.sendNext = c.iss + 1)
  rto_pos : 0 < c.rto.toNat
  rto_le : c.rto.toNat ≤ 30000
  persist : c.zeroWindowSinceMs ≠ 0 → c.sendWindowReal = 0
  queue : ∀ sbq ∈ c.sendQueue, sbq.Ok
  recv : RecvOk c

theorem maxWindow_eq : maxWindow = 1073725440 := by decide

/-- **Half the sequence space.** -/
theorem ConnInv.inFlight_lt {c : TcpConn} (h : ConnInv c) : c.inFlight < 2 ^ 31 := by
  have := h.flight
  rw [maxWindow_eq] at this
  split_ifs at this <;> omega

/-! ## Fresh connections -/

/-- A connection that has sent and received nothing. -/
theorem connInv_of_unsent {c : TcpConn} (hscale : c.sendWindowScale.toNat ≤ 14)
    (hwin : c.sendWindowReal = 0) (hunack : c.sendUnack = c.iss) (hnext : c.sendNext = c.iss)
    (hrto : c.rto = tcpConnRtoMin) (hqueue : c.sendQueue = []) (hbuf : c.recvBuf = recvBufNone)
    (hooo : c.oooLen = 0) : ConnInv c where
  scale := hscale
  window := by rw [hwin]; exact Nat.zero_le _
  flight := by
    rw [TcpConn.inFlight, hunack, hnext, dist_self]
    exact Nat.zero_le _
  handshake := fun _ ↦ ⟨hwin, hunack, .inl hnext⟩
  rto_pos := by rw [hrto]; decide
  rto_le := by rw [hrto]; decide
  persist := fun _ ↦ hwin
  queue := by
    rw [hqueue]
    intro sbq hsbq
    cases hsbq
  recv := ⟨by rw [hbuf]; exact recvBufNone_wf, by rw [hooo]; exact ⟨Nat.zero_le _, Nat.zero_le _⟩⟩

theorem fresh_connInv {c : TcpConn} (h : Fresh ConnInv c) : ConnInv c := by
  cases h with
  | listen env addr port => exact connInv_of_unsent (Nat.zero_le _) rfl rfl rfl rfl rfl rfl rfl
  | active env addr remoteAddr port remotePort =>
    exact connInv_of_unsent (Nat.zero_le _) rfl rfl rfl rfl rfl rfl rfl
  | passive env lc l peerAddr seg hp _ =>
    exact connInv_of_unsent hp.scale rfl rfl rfl rfl rfl rfl rfl

/-! ## Queue entries -/

theorem tcpNewSbq_ok {c : TcpConn} (h : ConnInv c) (env : NetEnv) (flags : U8)
    (fragment : List U8) : (tcpNewSbq env c flags fragment).Ok := by
  refine ⟨le_refl 1, by simp [tcpNewSbq], ?_, ?_⟩
  · exact h.rto_pos
  · exact h.rto_le

/-- The delay doubles at most nine times, so it does not wrap. -/
theorem SendBufQueue.Ok.again {sbq : SendBufQueue} (h : sbq.Ok) (hn : sbq.nTransmissions ≤ 8)
    (now : U64) :
    SendBufQueue.Ok { sbq with
      nTransmissions := sbq.nTransmissions + 1
      retryAfter := sbq.retryAfter * 2
      lastTry := now } := by
  have hpow : 2 ^ (sbq.nTransmissions - 1) ≤ 2 ^ 7 :=
    Nat.pow_le_pow_right (by decide) (by omega)
  have hle := h.retry_le
  have hpos := h.retry_pos
  have hdouble : (sbq.retryAfter * 2).toNat = sbq.retryAfter.toNat * 2 := by
    exact Nat.mod_eq_of_lt (by show sbq.retryAfter.toNat * 2 < 2 ^ 64; omega)
  refine ⟨by show 1 ≤ sbq.nTransmissions + 1; omega, by show sbq.nTransmissions + 1 ≤ 9; omega,
    by show 0 < (sbq.retryAfter * 2).toNat; omega, ?_⟩
  have hsucc : 2 ^ (sbq.nTransmissions + 1 - 1) = 2 ^ (sbq.nTransmissions - 1) * 2 := by
    rw [← pow_succ]
    congr 1
    have := h.pos
    omega
  rw [hdouble, hsucc]
  omega

theorem queue_append_ok {q : List SendBufQueue} {sbq : SendBufQueue} (hq : ∀ x ∈ q, x.Ok)
    (h : sbq.Ok) : ∀ x ∈ q ++ [sbq], x.Ok := by
  intro x hx
  rcases mem_append.mp hx with hx | hx
  · exact hq x hx
  · rw [mem_singleton.mp hx]
    exact h

/-! ## Sequence numbers in flight -/

/-- **Acceptable means in flight.** The two signed comparisons of an ACK number say exactly that it
lies in `(send_unack, send_next]`. -/
theorem ackAcceptable_iff {c : TcpConn} (h : c.inFlight < 2 ^ 31) (ackNum : U32) :
    ackAcceptable c ackNum = true ↔
      0 < dist c.sendUnack ackNum ∧ dist c.sendUnack ackNum ≤ c.inFlight := by
  rw [ackAcceptable, Bool.and_eq_true, seqGt, seqLe, decide_eq_true_iff, decide_eq_true_iff]
  exact window_iff h

/-- An acceptable ACK number leaves fewer numbers in flight. -/
theorem inFlight_of_acceptable {c : TcpConn} (h : c.inFlight < 2 ^ 31) {ackNum : U32}
    (ha : ackAcceptable c ackNum = true) : dist ackNum c.sendNext ≤ c.inFlight := by
  have hw := (ackAcceptable_iff h ackNum).mp ha
  rw [dist_of_mem hw.2]
  exact Nat.sub_le _ _

/-- Data within the window leaves no more in flight than the window admits. -/
theorem inFlight_of_avail {c : TcpConn} {n : ℕ} (h : n ≤ tcpSendWindowAvail c) (hn : 0 < n) :
    c.inFlight + n ≤ c.sendWindowReal := by
  have hd : (c.sendNext - c.sendUnack).toNat = c.inFlight := rfl
  have key : ∀ rwnd : U32, rwnd.toNat ≤ c.sendWindowReal →
      n ≤ (if c.sendNext - c.sendUnack ≥ (if c.cwnd < rwnd then c.cwnd else rwnd) then 0
        else ((if c.cwnd < rwnd then c.cwnd else rwnd) - (c.sendNext - c.sendUnack)).toNat) →
      c.inFlight + n ≤ c.sendWindowReal := by
    intro rwnd hrwnd havail
    have heff : (if c.cwnd < rwnd then c.cwnd else rwnd).toNat ≤ rwnd.toNat := by
      split_ifs with hlt
      · exact Nat.le_of_lt hlt
      · exact le_refl _
    generalize (if c.cwnd < rwnd then c.cwnd else rwnd) = eff at heff havail
    by_cases hge : c.sendNext - c.sendUnack ≥ eff
    · rw [if_pos hge] at havail
      omega
    · rw [if_neg hge] at havail
      have hlt : (c.sendNext - c.sendUnack).toNat < eff.toNat := by
        rw [ge_iff_le, BitVec.le_def] at hge
        omega
      rw [BitVec.toNat_sub_of_le (Nat.le_of_lt hlt)] at havail
      omega
  refine key _ ?_ h
  split_ifs with hbig
  · exact Nat.le_of_lt hbig
  · exact Nat.mod_le _ _

/-! ## The receive side -/

theorem tcpConnFlushOoo_ok {c : TcpConn} (h : RecvOk c) : RecvOk (tcpConnFlushOoo c) := by
  unfold tcpConnFlushOoo
  split_ifs with h0 h1 h2
  · have hne : c.oooBuf.take c.oooLen ≠ [] := by
      apply ne_nil_of_length_pos
      rw [length_take, Nat.min_eq_left h.ooo.1]
      exact h0
    rcases recvBufWrite_cases h.buf (.inl hne) with ⟨-, hw⟩ | ⟨-, buf, hw, hwf, -⟩
    · rw [hw]
      exact ⟨h.buf, Nat.zero_le _, Nat.zero_le _⟩
    · rw [hw]
      exact ⟨hwf, Nat.zero_le _, Nat.zero_le _⟩
  · exact ⟨h.buf, Nat.zero_le _, Nat.zero_le _⟩
  · exact h
  · exact h

theorem tcpConnTakeFin_ok {c : TcpConn} (h : RecvOk c) (seg : Segment) :
    RecvOk (tcpConnTakeFin c seg).2 := by
  unfold tcpConnTakeFin
  split_ifs
  · exact h
  · exact ⟨h.buf, h.ooo⟩
  · exact h

theorem tcpConnUpdateRecvState_ok {c : TcpConn} (h : RecvOk c) (seg : Segment) (tsopt : TsOpt) :
    RecvOk (tcpConnUpdateRecvState c seg tsopt).2 := by
  obtain ⟨d, hd, heq⟩ := tcpConnUpdateRecvState_takeData c seg tsopt
  rw [heq, tcpConnTakeData_eq]
  have hok : RecvOk d := by
    rcases hd with rfl | rfl
    · exact ⟨h.buf, h.ooo⟩
    · exact h
  split_ifs with h0 h1 h2
  · have hne : seg.payload ≠ [] := length_pos_iff.mp h0
    rcases recvBufWrite_cases hok.buf (.inl hne) with ⟨-, hw⟩ | ⟨-, buf, hw, hwf, -⟩
    · rw [hw]
      exact hok
    · rw [hw]
      have hdeliver : RecvOk (tcpConnDeliver d seg.payload buf) := ⟨hwf, hok.ooo⟩
      exact tcpConnTakeFin_ok (tcpConnFlushOoo_ok hdeliver) seg
  · exact ⟨hok.buf, le_refl _, h2.2.2.1⟩
  · exact hok
  · exact tcpConnTakeFin_ok hok seg

/-! ## Every update keeps the invariant -/

section

variable {c : TcpConn}

theorem ConnInv.flight_of_not_finSent (h : ConnInv c) (hf : c.state.finSent = false) :
    c.inFlight ≤ maxWindow := by
  have := h.flight
  rw [hf] at this
  simpa using this

theorem Moves.synchronized {st st' : TcpConnState} (h : Moves st st') : st'.Synchronized := by
  cases h <;> decide

theorem Moves.finSent {st st' : TcpConnState} (h : Moves st st') : st'.finSent = st.finSent := by
  cases h with
  | closeWait | closing | finWait2 => rfl
  | timeWait h => rcases h with rfl | rfl | rfl <;> rfl

theorem ConnInv.move (h : ConnInv c) {st : TcpConnState} (hfin : st.finSent = c.state.finSent)
    (hst : st.Synchronized) : ConnInv { c with state := st } where
  scale := h.scale
  window := h.window
  flight := by
    show c.inFlight ≤ maxWindow + (if st.finSent then 1 else 0)
    rw [hfin]
    exact h.flight
  handshake := absurd hst
  rto_pos := h.rto_pos
  rto_le := h.rto_le
  persist := h.persist
  queue := h.queue
  recv := ⟨h.recv.buf, h.recv.ooo⟩

/-- What an arriving segment acknowledges is no longer in flight. -/
theorem sendState_inFlight_le (h : ConnInv c) (env : NetEnv) (st : TcpConnState) (g : Globals)
    (seg : Segment) (tsopt : TsOpt) :
    (tcpConnUpdateSendState env { c with state := st } g seg tsopt).1.inFlight ≤ c.inFlight := by
  obtain ⟨f, hf, htaken, -⟩ := tcpConnUpdateSendState_spec env { c with state := st } g seg tsopt
  rw [hf]
  show dist f.sendUnack c.sendNext ≤ c.inFlight
  rw [htaken.sendUnack]
  split_ifs with ha
  · exact inFlight_of_acceptable h.inFlight_lt (Bool.and_eq_true_iff.mp ha).2
  · exact le_refl _

/-- The fields an arriving segment writes, in a state where windows are known. -/
theorem ConnInv.sendUpdate (h : ConnInv c) (env : NetEnv) (g : Globals) (seg : Segment)
    (tsopt : TsOpt) (st₀ st : TcpConnState) (hst : st.Synchronized)
    (hfin : c.state.finSent = st.finSent) (buf : RecvBuf) (hbuf : buf.WF) (recvNext : U32) :
    ConnInv { (tcpConnUpdateSendState env { c with state := st₀ } g seg tsopt).1 with
      state := st, recvBuf := buf, recvNext := recvNext } := by
  have hflight := sendState_inFlight_le h env st₀ g seg tsopt
  obtain ⟨f, hf, htaken, hwin, hzero⟩ :=
    tcpConnUpdateSendState_spec env { c with state := st₀ } g seg tsopt
  rw [hf] at hflight ⊢
  have hwle : f.sendWindowReal ≤ maxWindow := by
    rw [hwin, Nat.shiftLeft_eq]
    exact Nat.mul_le_mul (by omega) (Nat.pow_le_pow_right (by decide) h.scale)
  have hrtob : 0 < f.rto.toNat ∧ f.rto.toNat ≤ 30000 := by
    rcases htaken.rto with hr | ⟨hlo, hhi⟩
    · rw [hr]
      exact ⟨h.rto_pos, h.rto_le⟩
    · have hlo' : 200 ≤ f.rto.toNat := hlo
      exact ⟨by omega, hhi⟩
  exact {
    scale := h.scale
    window := hwle
    flight := by
      rw [← hfin]
      exact hflight.trans h.flight
    handshake := absurd hst
    rto_pos := hrtob.1
    rto_le := hrtob.2
    persist := hzero h.persist
    queue := h.queue
    recv := ⟨hbuf, h.recv.ooo⟩ }

/-- A queue entry that moves `send_next` by `n`. -/
theorem ConnInv.push (h : ConnInv c) {sbq : SendBufQueue} (hok : sbq.Ok) (n : ℕ)
    (st : TcpConnState)
    (hflight : c.inFlight + n ≤ maxWindow + (if st.finSent then 1 else 0))
    (hsync : ¬ st.Synchronized → c.sendWindowReal = 0 ∧ c.sendUnack = c.iss ∧
      (c.sendNext + BitVec.ofNat 32 n = c.iss ∨ c.sendNext + BitVec.ofNat 32 n = c.iss + 1)) :
    ConnInv { c with
      state := st
      sendNext := c.sendNext + BitVec.ofNat 32 n
      sendQueue := c.sendQueue ++ [sbq] } where
  scale := h.scale
  window := h.window
  flight := by
    show dist c.sendUnack (c.sendNext + BitVec.ofNat 32 n) ≤ _
    have hlt : dist c.sendUnack c.sendNext + n < 2 ^ 32 := by
      have hb : dist c.sendUnack c.sendNext + n ≤ maxWindow + (if st.finSent then 1 else 0) :=
        hflight
      rw [maxWindow_eq] at hb
      split_ifs at hb <;> omega
    rw [dist_add_right hlt]
    exact hflight
  handshake := hsync
  rto_pos := h.rto_pos
  rto_le := h.rto_le
  persist := h.persist
  queue := queue_append_ok h.queue hok
  recv := ⟨h.recv.buf, h.recv.ooo⟩

/-- Fields the invariant does not read. -/
theorem ConnInv.congr {d : TcpConn} (h : ConnInv c) (hrecv : RecvOk d)
    (hscale : d.sendWindowScale = c.sendWindowScale) (hwin : d.sendWindowReal = c.sendWindowReal)
    (hstate : d.state = c.state) (hunack : d.sendUnack = c.sendUnack)
    (hnext : d.sendNext = c.sendNext) (hiss : d.iss = c.iss) (hrto : d.rto = c.rto)
    (hzero : d.zeroWindowSinceMs = c.zeroWindowSinceMs) (hqueue : d.sendQueue = c.sendQueue) :
    ConnInv d where
  scale := hscale ▸ h.scale
  window := hwin ▸ h.window
  flight := by
    rw [TcpConn.inFlight, hunack, hnext, hstate]
    exact h.flight
  handshake := by
    rw [hstate, hwin, hunack, hnext, hiss]
    exact h.handshake
  rto_pos := hrto ▸ h.rto_pos
  rto_le := hrto ▸ h.rto_le
  persist := by
    rw [hzero, hwin]
    exact h.persist
  queue := hqueue ▸ h.queue
  recv := hrecv

/-- The queue may only lose entries or have one sent again. -/
theorem ConnInv.withQueue (h : ConnInv c) {q : List SendBufQueue} (hq : ∀ sbq ∈ q, sbq.Ok) :
    ConnInv { c with sendQueue := q } :=
  { h with queue := hq, recv := ⟨h.recv.buf, h.recv.ooo⟩ }

theorem finStates {st : TcpConnState}
    (h : (c.state = .established ∧ st = .finWait1) ∨ (c.state = .closeWait ∧ st = .lastAck)) :
    c.state.finSent = false ∧ st.finSent = true ∧ st.Synchronized := by
  rcases h with ⟨h, rfl⟩ | ⟨h, rfl⟩ <;> rw [h] <;> decide

/-- **Every update keeps the invariant.** -/
theorem micro_connInv {k : Cause} {c' : TcpConn} (h : ConnInv c) (hm : Micro k c c') : ConnInv c' := by
  cases hm with
  | inert _ mss window timeout activity probes ackSent tsRecent useTs ready =>
    exact h.congr ⟨h.recv.buf, h.recv.ooo⟩ rfl rfl rfl rfl rfl rfl rfl rfl rfl
  | options _ flags opts =>
    obtain ⟨mss, scale, use, heq, hs, -⟩ := tcpHandleOptions_update c flags opts
    rw [heq]
    have hscale : scale.toNat ≤ 14 := by
      rcases hs with rfl | hs
      · exact h.scale
      · exact hs
    exact { h with scale := hscale, recv := ⟨h.recv.buf, h.recv.ooo⟩ }
  | move _ hmove => exact h.move hmove.finSent hmove.synchronized
  | reset _ hst =>
    have hfin : TcpConnState.reset.finSent = c.state.finSent := by
      rcases hst with hs | hs | hs <;> rw [hs] <;> rfl
    exact h.move hfin (by decide)
  | sendState env _ g seg tsopt hsync =>
    have hup := h.sendUpdate env g seg tsopt c.state c.state hsync rfl c.recvBuf h.recv.buf
      c.recvNext
    obtain ⟨f, hf, -⟩ := tcpConnUpdateSendState_spec env c g seg tsopt
    rw [hf] at hup
    rw [hf]
    exact hup
  | recvState _ seg tsopt hsync =>
    have hrecv := tcpConnUpdateRecvState_ok h.recv seg tsopt
    obtain ⟨f, hf⟩ := tcpConnUpdateRecvState_same c seg tsopt
    rw [hf] at hrecv ⊢
    exact h.congr hrecv rfl rfl rfl rfl rfl rfl rfl rfl rfl
  | handshake env _ g seg tsopt st₀ st buf recvNext hstate hack hnum hst hbuf =>
    have hfin : c.state.finSent = st.finSent := by
      rcases hstate with hs | hs <;> rcases hst with rfl | rfl <;> rw [hs] <;> rfl
    have hsync : st.Synchronized := by rcases hst with rfl | rfl <;> decide
    have hwf : buf.WF := by
      rcases hbuf with rfl | rfl
      · exact recvBufNew_wf
      · exact h.recv.buf
    exact h.sendUpdate env g seg tsopt st₀ st hsync hfin buf hwf recvNext
  | queueEmpty env _ flags hadv =>
    exact h.withQueue (queue_append_ok h.queue (tcpNewSbq_ok h env flags []))
  | queueSyn env _ flags hstate hiss hadv =>
    have hns : ¬ c.state.Synchronized := by rcases hstate with hs | hs <;> rw [hs] <;> decide
    have hfin : c.state.finSent = false := by rcases hstate with hs | hs <;> rw [hs] <;> rfl
    obtain ⟨hwin, hunack, -⟩ := h.handshake hns
    refine h.push (tcpNewSbq_ok h env flags []) 1 c.state ?_ (fun _ ↦ ⟨hwin, hunack, .inr ?_⟩)
    · have hzero : c.inFlight = 0 := by rw [TcpConn.inFlight, hunack, hiss, dist_self]
      rw [hzero, hfin]
      decide
    · rw [hiss]
      rfl
  | queueData env _ fragment havail huser =>
    have hfin : c.state.finSent = false := by
      simp only [tcpConnNeedsUserClose, Bool.or_eq_true, beq_iff_eq] at huser
      rcases huser with ((hs | hs) | hs) | hs <;> rw [hs] <;> rfl
    refine h.push (tcpNewSbq_ok h env tcpHdrFlagAck fragment) fragment.length c.state ?_ ?_
    · rw [hfin]
      rcases Nat.eq_zero_or_pos fragment.length with hz | hpos
      · rw [hz]
        simpa using h.flight_of_not_finSent hfin
      · exact (inFlight_of_avail havail hpos).trans h.window
    · intro hns
      obtain ⟨hwin, hunack, hnext⟩ := h.handshake hns
      -- no window is known yet, so the fragment is empty
      have hz : fragment.length = 0 := by
        by_contra hne
        have := inFlight_of_avail havail (Nat.pos_of_ne_zero hne)
        omega
      rw [hz]
      exact ⟨hwin, hunack, by simpa using hnext⟩
  | queueFin env _ hst =>
    obtain ⟨hnf, hf, hsync⟩ := finStates hst
    refine h.push (tcpNewSbq_ok h env _ []) 1 _ ?_ (absurd hsync)
    rw [hf]
    exact Nat.add_le_add_right (h.flight_of_not_finSent hnf) 1
  | finUnsent _ hst =>
    obtain ⟨hnf, hf, hsync⟩ := finStates hst
    refine { h with flight := ?_, handshake := (absurd hsync),
                    recv := ⟨h.recv.buf, h.recv.ooo⟩ }
    exact (h.flight_of_not_finSent hnf).trans (Nat.le_add_right _ _)
  | release _ done rest hq =>
    exact h.withQueue fun sbq hs ↦ h.queue sbq (by rw [hq]; exact mem_append_right _ hs)
  | retransmit env _ sbq rest hq hn =>
    refine h.withQueue fun x hx ↦ ?_
    rcases mem_cons.mp hx with rfl | hx
    · exact (h.queue sbq (by rw [hq]; exact mem_cons_self)).again hn env.now
    · exact h.queue x (by rw [hq]; exact mem_cons_of_mem _ hx)
  | timeout => exact h.congr ⟨h.recv.buf, h.recv.ooo⟩ rfl rfl rfl rfl rfl rfl rfl rfl rfl
  | probe _ now hwin =>
    exact { h with persist := fun _ ↦ hwin, recv := ⟨h.recv.buf, h.recv.ooo⟩ }
  | read _ dest =>
    obtain ⟨bytes, buf', hread, hwf, -, -⟩ := recvBufRead_spec h.recv.buf dest
    rw [hread]
    exact h.congr ⟨hwf, h.recv.ooo⟩ rfl rfl rfl rfl rfl rfl rfl rfl rfl

end

/-- **The invariant holds in every reachable state.** -/
theorem Reachable.connInv {s : TcpStack} (h : Reachable s) : s.All ConnInv :=
  h.all (fun _ _ _ hc hm ↦ micro_connInv hc hm) fun _ hf ↦ fresh_connInv hf

/-- **Sequence numbers stay comparable.** No connection of a reachable state has half the sequence
space in flight or waits longer than thirty seconds, and no entry was sent more than nine times. -/
theorem flight_bounded {s : TcpStack} (h : Reachable s) {i : ConnIdx} {c : TcpConn}
    (hc : s.connTable i = some c) : c.inFlight < 2 ^ 31 ∧ 0 < c.rto.toNat ∧ c.rto.toNat ≤ 30000 ∧
      ∀ sbq ∈ c.sendQueue, 1 ≤ sbq.nTransmissions ∧ sbq.nTransmissions ≤ 9 := by
  have hinv := h.connInv i c hc
  exact ⟨hinv.inFlight_lt, hinv.rto_pos, hinv.rto_le, fun sbq hsbq ↦
    ⟨(hinv.queue sbq hsbq).pos, (hinv.queue sbq hsbq).le⟩⟩

/-- The SYN of a passive connection is in flight. -/
theorem flight_bounded_syn : ∃ s c, Reachable s ∧
    s.connTable ⟨1, one_lt_tcpConnMaxNum⟩ = some c ∧ c.inFlight = 1 ∧ c.inFlight < 2 ^ 31 := by
  obtain ⟨s, c, hs, hc, hp⟩ := exists_conn_of_runCalls 0 (serverHandshake.take 2) ⟨1, by decide⟩
    (fun _ c ↦ c.inFlight == 1) (by decide +kernel)
  exact ⟨s, c, hs, hc, beq_iff_eq.mp hp, (flight_bounded hs hc).1⟩

end Mazu.Tcp
