import Mazu.Tcp.Lookup
import Mazu.Tcp.Pool
import Mazu.Tcp.Stream

/-!
# Acknowledgements in the send queue

An acknowledgement without data goes through the send queue like everything else, and it needs no
acknowledgement itself, so the entry is done with at once. But it stays in the queue until the timer
service walks over it, and an entry that is done with arms no timer. A connection that only receives
is served when it is idle, and as long as data keeps coming it is not idle.
-/

namespace Mazu.Tcp

open Function List BitVec

/-! ## A poll that finds the connection due -/

/-- Every entry of the queue is acknowledged. -/
def TcpConn.AllAcked (c : TcpConn) : Prop :=
  ∀ sbq ∈ c.sendQueue, seqGeq c.sendUnack sbq.requiredAck = true

instance (c : TcpConn) : Decidable c.AllAcked := inferInstanceAs (Decidable (∀ _ ∈ _, _))

/-- The walk empties a queue in which everything is acknowledged, unless it resets the connection. -/
theorem Retransmits.emptied {env : NetEnv} {c : TcpConn} {g : Globals} {q : List SendBufQueue}
    {o : Outcome} (h : Retransmits env c g q o) (hst : c.state = .established)
    (hacked : ∀ sbq ∈ q, seqGeq c.sendUnack sbq.requiredAck = true) :
    o.freed = false ∧ (o.conn.sendQueue = [] ∨ o.conn.state = .reset) := by
  induction h with
  | done => exact ⟨rfl, .inl rfl⟩
  | giveUp _ _ hsent =>
    obtain ⟨⟨window, ackSent, rfl⟩, -, -⟩ := hsent
    exact ⟨rfl, .inr rfl⟩
  | free _ hu => exact absurd (by rw [tcpConnNeedsUserClose, hst]; rfl) hu
  | acked _ _ _ ih => exact ih fun x hx ↦ hacked x (mem_cons_of_mem _ hx)
  | failed _ ha | resent _ ha | wait _ ha => exact absurd (hacked _ mem_cons_self) ha

/-- A service call that returns no error does the same. -/
structure Emptied (o : Outcome) : Prop where
  freed : o.freed = false
  queue : o.res = resultOk → o.conn.sendQueue = [] ∨ o.conn.state = .reset

theorem tcpPollRetransmitConn_emptied (env : NetEnv) {c : TcpConn} (g : Globals)
    (hst : c.state = .established) (hacked : c.AllAcked) :
    Emptied (tcpPollRetransmitConn env c g) := by
  have hserved := tcpPollRetransmitConn_served env c g
  generalize tcpPollRetransmitConn env c g = o at hserved ⊢
  cases hserved with
  | dead => exact ⟨rfl, fun _ ↦ .inr rfl⟩
  | failed => exact ⟨rfl, fun h ↦ by cases h⟩
  | @walk d g' h =>
    rw [TcpConn.AllAcked, ← h.sendQueue, ← h.sendUnack] at hacked
    obtain ⟨hfreed, hqueue⟩ := (tcpPollRetransmitQueue_retransmits env d g' d.sendQueue).emptied
      (h.state.trans hst) hacked
    exact ⟨hfreed, fun _ ↦ hqueue⟩

section

variable {env : NetEnv} {s s' : TcpStack} {i : ConnIdx} {c : TcpConn}

/-- A pass that goes back to the head has served an established connection at the root. -/
theorem tcpPollPass_of_established (hc : s.connTable (s.timerHeap 0).conn = some c)
    (hst : c.state = .established) (h : tcpPollPass env s = .inr s') :
    (tcpPollRetransmitConn env c s.glob).res = resultOk ∧
      s' = tcpHeapRebuild
        (settle s (s.timerHeap 0).conn (tcpPollRetransmitConn env c s.glob)) := by
  have hr : c.state ≠ .reset := by rw [hst]; decide
  have hint : ¬(tcpConnIsInternal c = true ∧ env.now ≥ c.internalTimeout) := by
    rw [tcpConnIsInternal, hst]
    exact fun h ↦ absurd h.1 (by decide)
  have hsyn : ¬(c.state = .synSent ∧ env.now ≥ c.internalTimeout) := by
    rw [hst]
    exact fun h ↦ absurd h.1 (by decide)
  simp only [tcpPollPass, hc, if_neg hr, if_neg hsyn] at h
  split_ifs at h
  cases hres : (tcpPollRetransmitConn env c s.glob).res with
  | error e =>
    rw [hres] at h
    cases h
  | ok u =>
    rw [hres] at h
    cases h
    exact ⟨rfl, rfl⟩

/-- What the loop keeps of the connection: as long as it is established and holds entries, all of
them are acknowledged and it is due. -/
def Pending (now : U64) (i : ConnIdx) (s : TcpStack) : Prop :=
  ∀ c, s.connTable i = some c → c.state = .established →
    c.AllAcked ∧ (c.sendQueue = [] ∨ c.Due now)

theorem Pending.pass (hp : Pending env.now i s) (hfresh : HeapFresh s) (hinv : s.All ConnInv)
    (h : tcpPollPass env s = .inr s') : Pending env.now i s' := by
  intro d hd hdst
  have hev := (evolves_pollClosed (K := fun _ ↦ .other) (F := fun _ _ ↦ False) env).pass s
  rw [h] at hev
  obtain ⟨c, hc, hst⟩ := (hev.slots i).exists_state (fun hk ↦ by cases hk)
    (fun _ hf ↦ hf.elim) hd (.inl hdst)
  obtain ⟨hacked, hdue⟩ := hp c hc (hst.trans hdst)
  by_cases hi : i = (s.timerHeap 0).conn
  · subst hi
    obtain ⟨hres, rfl⟩ := tcpPollPass_of_established hc (hst.trans hdst) h
    obtain ⟨hfreed, hempty⟩ := tcpPollRetransmitConn_emptied env s.glob (hst.trans hdst) hacked
    obtain ⟨f, hslot⟩ := settle_self s (s.timerHeap 0).conn _
    rw [hfreed] at hslot
    cases hd.symm.trans hslot
    rcases hempty hres with hnil | hreset
    · refine ⟨fun sbq hsbq ↦ ?_, .inl hnil⟩
      have hmem : sbq ∈ (tcpPollRetransmitConn env c s.glob).conn.sendQueue := hsbq
      rw [hnil] at hmem
      cases hmem
    · cases hreset.symm.trans hdst
  · obtain ⟨_, -, -, hend, -⟩ := tcpPollPass_next hfresh hinv h
    obtain ⟨f, hslot⟩ := hend.others i hi
    rw [show s.connTable i = some c from hc] at hslot
    cases hd.symm.trans hslot
    exact ⟨hacked, hdue⟩

/-- **A poll that finds the connection due** empties its queue, or the connection is no longer
established. -/
theorem poll_empties {fuel : ℕ} {r : Result × TcpStack} (hs : Reachable s) (hsends : env.Sends)
    (hcache : s.glob.nextTimerMs = timeMsMax ∨ s.glob.nextTimerMs ≤ env.now)
    (hp : Pending env.now i s) (h : tcpPollRetransmit env s fuel = some r) {d : TcpConn}
    (hd : r.2.connTable i = some d) (hst : d.state = .established) : d.sendQueue = [] := by
  have hgate : ¬(s.glob.nextTimerMs ≠ timeMsMax ∧ s.glob.nextTimerMs > env.now) := by
    rintro ⟨hne, hgt⟩
    rcases hcache with hmax | hle
    · exact hne hmax
    · exact BitVec.not_le.mpr hgt hle
  simp only [tcpPollRetransmit, if_neg hgate] at h
  obtain ⟨t, hvisit, hleave⟩ := Loop.exists_visits_of_run h
  let Head u : Prop := HeapFresh u ∧ u.All ConnInv ∧ Pending env.now i u
  have hhead : Head (tcpHeapRebuild s) := ⟨⟨s, rfl⟩, hs.connInv, hp⟩
  obtain ⟨hfresh, hinv, hpend⟩ := hvisit.invariant hhead fun u u' hu hpass ↦ by
    obtain ⟨_, -, -, hend, hinv'⟩ := tcpPollPass_next hu.1 hu.2.1 hpass
    exact ⟨hend.fresh, hinv', hu.2.2.pass hu.1 hu.2.1 hpass⟩
  obtain ⟨hsame, hidle⟩ := tcpPollPass_last hfresh hinv hsends hleave
  rw [hsame] at hd
  exact (hpend d hd hst).2.resolve_right (hidle i d hd)

end

/-! ## A data segment -/

/-- In-order data for the established connection of a slot, which has room for it. -/
structure DataFor (s : TcpStack) (i : ConnIdx) (hostAddr peerAddr : Ipv4Addr) (seg : Segment)
    (c : TcpConn) : Prop where
  look : tcpLookupConn s hostAddr peerAddr seg.destPort seg.srcPort = some i
  conn : s.connTable i = some c
  established : c.state = .established
  plain : seg.rst = false ∧ seg.fin = false
  data : seg.payload ≠ []
  inOrder : seg.seqNum = c.recvNext
  fits : seg.payload.length ≤ recvBufSpace c.recvBuf

theorem tcpConnUpdateSendState_sbqAvail (env : NetEnv) (c : TcpConn) (g : Globals) (seg : Segment)
    (tsopt : TsOpt) : (tcpConnUpdateSendState env c g seg tsopt).2.sbqAvail = g.sbqAvail := by
  simp only [tcpConnUpdateSendState]
  generalize (if seg.ack = true then tcpConnTakeAck env c seg.ackNum tsopt else c) = d
  split_ifs
  · rfl
  · exact tcpTimerHint_sbqAvail _ _
  · rfl

/-- The entry of an acknowledgement asks for nothing that is not acknowledged. -/
theorem newSbq_ack_requiredAck (env : NetEnv) (x : TcpConn) :
    (tcpNewSbq env x tcpHdrFlagAck []).requiredAck = x.sendNext := by
  simp [tcpNewSbq, advance_ack]

/-- An acknowledgement takes an entry of the pool, and fails when there is none. -/
theorem sendAck_spec {env : NetEnv} (hsends : env.Sends) (x : TcpConn) (g : Globals) :
    (g.sbqAvail = 0 ∧ tcpSendSegmentEmpty env x g tcpHdrFlagAck = (.error enomem, x, g)) ∨
      g.sbqAvail ≠ 0 ∧ ∃ window ackSent g', g'.sbqAvail = g.sbqAvail - 1 ∧
        tcpSendSegmentEmpty env x g tcpHdrFlagAck = (resultOk, { x with
          sendQueue := x.sendQueue ++ [tcpNewSbq env x tcpHdrFlagAck []]
          recvWindowSizeReal := window, lastAckSent := ackSent }, g') := by
  by_cases hg : g.sbqAvail = 0
  · exact .inl ⟨hg, by simp [tcpSendSegmentEmpty, tcpSendSegment, hg]⟩
  · refine .inr ⟨hg, ?_⟩
    simp only [tcpSendSegmentEmpty, tcpSendSegment, if_neg hg, newSbq_ack_requiredAck]
    obtain ⟨window, ackSent, hconn⟩ := tcpSendSegmentNoqueue_conn env
      { x with sendQueue := x.sendQueue ++ [tcpNewSbq env x tcpHdrFlagAck []] }
      (tcpTimerHint { g with sbqAvail := g.sbqAvail - 1 }
        ((tcpNewSbq env x tcpHdrFlagAck []).lastTry + (tcpNewSbq env x tcpHdrFlagAck []).retryAfter))
      (tcpNewSbq env x tcpHdrFlagAck []).flags (tcpNewSbq env x tcpHdrFlagAck []).seqNum
      (tcpNewSbq env x tcpHdrFlagAck []).checksum (tcpNewSbq env x tcpHdrFlagAck []).payload
    refine ⟨window, ackSent, _, ?_, Prod.ext (hsends.noqueue _ _ _ _ _ _) (Prod.ext hconn rfl)⟩
    rw [tcpSendSegmentNoqueue_sbqAvail, tcpTimerHint_sbqAvail]

section

variable {env : NetEnv} {s : TcpStack} {i : ConnIdx} {hostAddr peerAddr : Ipv4Addr} {seg : Segment}
  {c : TcpConn}

/-- What the update of both sides and the acknowledgement leave of a connection. -/
def TcpConn.acked (c : TcpConn) (now : U64) (f : SendFields) (f' : RecvFields) (ackSent : U32)
    (sbq : SendBufQueue) : TcpConn :=
  { (TcpConn.withRecv (TcpConn.withSend
      { c with lastActivityMs := now, keepaliveProbes := 0 } f) f') with
    sendQueue := c.sendQueue ++ [sbq], lastAckSent := ackSent }

/-- **In-order data** is acknowledged with an entry of the pool; without one, the call fails. -/
theorem dataSegment_spec (hsends : env.Sends) (h : DataFor s i hostAddr peerAddr seg c) :
    (s.glob.sbqAvail = 0 ∧
        (tcpHandlePacketLocked env s hostAddr peerAddr seg).1 = .error enomem ∧
        (tcpHandlePacketLocked env s hostAddr peerAddr seg).2.glob.sbqAvail = 0 ∧
        (tcpHandlePacketLocked env s hostAddr peerAddr seg).2.queueLen i = s.queueLen i) ∨
      s.glob.sbqAvail ≠ 0 ∧
        (tcpHandlePacketLocked env s hostAddr peerAddr seg).1 = resultOk ∧
        (tcpHandlePacketLocked env s hostAddr peerAddr seg).2.glob.sbqAvail
          = s.glob.sbqAvail - 1 ∧
        ∃ f f' ackSent sbq,
          (tcpHandlePacketLocked env s hostAddr peerAddr seg).2.connTable
            = update s.connTable i (some (c.acked env.now f f' ackSent sbq)) ∧
          sbq.requiredAck = c.sendNext ∧
          f.sendUnack = (if seg.ack && ackAcceptable c seg.ackNum then seg.ackNum
            else c.sendUnack) ∧
          f.sendWindowReal = seg.windowSize.toNat <<< c.sendWindowScale.toNat ∧
          ((c.zeroWindowSinceMs ≠ 0 → c.sendWindowReal = 0) →
            f.zeroWindowSinceMs ≠ 0 → f.sendWindowReal = 0) := by
  have hsync : c.state.Synchronized := by rw [h.established]; decide
  have hst : (tcpConnNote env c).state = .established := h.established
  have hlen : seg.payload.length > 0 := length_pos_iff.mpr h.data
  have heq : tcpHandlePacketLocked env s hostAddr peerAddr seg =
      ((tcpHandleReceiveEstablished env (tcpConnNote env c) s.glob seg
        (tcpConnParse env c seg).2).res,
      settle s i (tcpHandleReceiveEstablished env (tcpConnNote env c) s.glob seg
        (tcpConnParse env c seg).2)) := by
    rw [tcpHandlePacketLocked_eq h.look h.conn (by
      rw [tcpConnParse_of_synchronized env hsync]; exact hsync.1),
      tcpConnParse_of_synchronized env hsync, tcpDispatch, hst]
  rw [heq]
  generalize (tcpConnParse env c seg).2 = tsopt
  obtain ⟨f, hf, htaken, hwin, hzero⟩ :=
    tcpConnUpdateSendState_spec env _ s.glob seg tsopt
  obtain ⟨f', hf'⟩ := tcpConnUpdateRecvState_same
    (tcpConnUpdateSendState env (tcpConnNote env c) s.glob seg tsopt).1 seg tsopt
  have hpool := tcpConnUpdateSendState_sbqAvail env (tcpConnNote env c) s.glob seg tsopt
  simp only [tcpHandleReceiveEstablished, h.plain.1, h.plain.2, if_false,
    if_pos (Or.inr hlen), hf', replyEmpty]
  rw [hf]
  generalize (tcpConnUpdateSendState env (tcpConnNote env c) s.glob seg tsopt).2 = g at hpool ⊢
  rcases sendAck_spec hsends (((tcpConnNote env c).withSend f).withRecv f') g
    with ⟨hg, hsend⟩ | ⟨hg, window, ackSent, g', hg', hsend⟩
  · refine Or.inl ⟨hpool.symm.trans hg, ?_⟩
    rw [hsend]
    refine ⟨rfl, hg, ?_⟩
    rw [queueLen_of_some h.conn]
    exact queueLen_of_some (c := ((tcpConnNote env c).withSend f).withRecv f')
      (setConn_connTable_self s i _)
  · refine Or.inr ⟨hpool ▸ hg, ?_⟩
    rw [hsend]
    exact ⟨rfl, hg'.trans (by rw [hpool]), f, { f' with recvWindowSizeReal := window }, ackSent, _,
      rfl, newSbq_ack_requiredAck env _, htaken.sendUnack, hwin, hzero⟩

end

/-! ## Runs that only receive -/

/-- The runs from `s` in which connection `i` receives in-order data, is read from, and polls run
between the segments, each meeting `Cond`. The flag says that a poll ran since the last segment, and
the list has what the calls with the segments returned, latest first. -/
inductive AckRun (i : ConnIdx) (Cond : NetEnv → TcpStack → Prop) (s : TcpStack) :
    Bool → List Result → TcpStack → Prop
  | start : AckRun i Cond s true [] s
  | poll {b : Bool} {res : List Result} {t t' : TcpStack} (h : AckRun i Cond s b res t)
      (env : NetEnv) (fuel : ℕ) (hcond : Cond env t) (hstep : step env t (.poll fuel) = some t') :
      AckRun i Cond s true res t'
  | read {b : Bool} {res : List Result} {t : TcpStack} (h : AckRun i Cond s b res t)
      (buf : ByteBuf) (huser : t.userHolds i = true) :
      AckRun i Cond s b res (tcpConnRecv t i buf).2.2.2
  | segment {res : List Result} {t : TcpStack} (h : AckRun i Cond s true res t) (env : NetEnv)
      (hsends : env.Sends) {hostAddr peerAddr : Ipv4Addr} {seg : Segment} {c : TcpConn}
      (hpeer : peerAddr ≠ ipv4AddrAny) (hdata : DataFor t i hostAddr peerAddr seg c) :
      AckRun i Cond s false ((tcpHandlePacketLocked env t hostAddr peerAddr seg).1 :: res)
        (tcpHandlePacketLocked env t hostAddr peerAddr seg).2

/-- The acknowledgements never hold more than `B` entries, so that none fails as long as the pool
has that many. -/
structure AckLaw (B : ℕ) (i : ConnIdx) (s : TcpStack) (res : List Result) (t : TcpStack) :
    Prop where
  bound : t.queueLen i ≤ s.queueLen i + B
  room : B ≤ s.glob.sbqAvail → .error enomem ∉ res

/-- The poll finds the connection due whenever it holds entries, and all of them are acknowledged;
the cached deadline lets the poll through, and every transmission goes through. -/
def AckServiced (i : ConnIdx) (env : NetEnv) (s : TcpStack) : Prop :=
  ∀ c, s.connTable i = some c → c.state = .established → c.sendQueue ≠ [] →
    c.AllAcked ∧ c.Due env.now ∧
      (s.glob.nextTimerMs = timeMsMax ∨ s.glob.nextTimerMs ≤ env.now) ∧ env.Sends

section

variable {env : NetEnv} {s t t' : TcpStack} {i : ConnIdx} {b : Bool} {res : List Result}

/-- A poll that meets the condition leaves nothing in the queue of an established connection. -/
theorem AckServiced.poll (hcond : AckServiced i env t) (ht : Reachable t) {fuel : ℕ}
    {r : Result × TcpStack} (h : tcpPollRetransmit env t fuel = some r) {d : TcpConn}
    (hd : r.2.connTable i = some d) (hst : d.state = .established) : r.2.queueLen i = 0 := by
  have hev := (evolves_pollClosed (K := fun _ ↦ .other) (F := fun _ _ ↦ False) env).poll h
  obtain ⟨c, hc, hcst⟩ := (hev.slots i).exists_state (fun hk ↦ by cases hk)
    (fun _ hf ↦ hf.elim) hd (.inl hst)
  by_cases hq : c.sendQueue = []
  · have hle := ((releases_pollClosed env i).poll h).queue
    rw [queueLen_of_some hc, hq] at hle
    exact Nat.le_zero.mp hle
  · obtain ⟨hacked, hdue, hcache, hsends⟩ := hcond c hc (hcst.trans hst) hq
    have hp : Pending env.now i t := by
      intro c' hc' _
      cases hc.symm.trans hc'
      exact ⟨hacked, .inr hdue⟩
    rw [queueLen_of_some hd, poll_empties ht hsends hcache hp h hd hst]
    rfl

theorem tcpConnRecv_queueLen (t : TcpStack) (i : ConnIdx) (buf : ByteBuf) :
    (tcpConnRecv t i buf).2.2.2.queueLen i = t.queueLen i ∧
      (tcpConnRecv t i buf).2.2.2.glob = t.glob ∧
      ∀ d, (tcpConnRecv t i buf).2.2.2.connTable i = some d →
        ∃ c, t.connTable i = some c ∧ d.state = c.state := by
  unfold tcpConnRecv
  cases h : t.connTable i with
  | none => exact ⟨rfl, rfl, fun d hd ↦ by rw [h] at hd; cases hd⟩
  | some c =>
    dsimp only
    split_ifs
    · exact ⟨rfl, rfl, fun d hd ↦ ⟨c, rfl, by cases h.symm.trans hd; rfl⟩⟩
    · refine ⟨?_, rfl, fun d hd ↦ ⟨c, rfl, ?_⟩⟩
      · rw [queueLen_of_some h]
        exact queueLen_of_some (c := { c with recvBuf := (recvBufRead c.recvBuf buf).2.1 })
          (setConn_connTable_self t i _)
      · cases hd.symm.trans (setConn_connTable_self t i _)
        rfl

/-- What holds along a run that only receives: one entry at most between a segment and the poll after
it, none at the next segment, and the pool has what the queue lost. -/
structure AckInv (i : ConnIdx) (s : TcpStack) (b : Bool) (res : List Result) (t : TcpStack) :
    Prop where
  reach : Reachable t
  queue : t.queueLen i ≤ s.queueLen i + 1
  polled : b = true → ∀ d, t.connTable i = some d → d.state = .established →
    t.queueLen i ≤ s.queueLen i
  pool : s.glob.sbqAvail + s.queueLen i ≤ t.glob.sbqAvail + t.queueLen i
  room : 1 ≤ s.glob.sbqAvail → .error enomem ∉ res

theorem AckRun.inv (hs : Reachable s) (h : AckRun i (AckServiced i) s b res t) :
    AckInv i s b res t := by
  induction h with
  | start =>
    exact ⟨hs, Nat.le_succ _, fun _ _ _ _ ↦ le_refl _, le_refl _, fun _ ↦ not_mem_nil⟩
  | @poll b res t t' _ env fuel hcond hstep ih =>
    obtain ⟨r, hr, rfl⟩ := Option.map_eq_some_iff.mp hstep
    have hrel := (releases_pollClosed env i).poll hr
    refine ⟨ih.reach.step env (.poll fuel) trivial hstep, hrel.queue.trans ih.queue,
      fun _ d hd hst ↦ ?_, ih.pool.trans hrel.pool, ih.room⟩
    rw [hcond.poll ih.reach hr hd hst]
    exact Nat.zero_le _
  | @read b res t _ buf huser ih =>
    obtain ⟨hlen, hglob, hconn⟩ := tcpConnRecv_queueLen t i buf
    refine ⟨ih.reach.step (.sending 0 ipv4AddrAny 0) (.recv i buf) huser rfl, hlen ▸ ih.queue, fun hb d hd hst ↦ ?_, ?_,
      ih.room⟩
    · obtain ⟨c, hc, hcst⟩ := hconn d hd
      rw [hlen]
      exact ih.polled hb c hc (hcst.symm.trans hst)
    · rw [hlen, hglob]
      exact ih.pool
  | @segment res t _ env hsends hostAddr peerAddr seg c hpeer hdata ih =>
    have hle := ih.polled rfl c hdata.conn hdata.established
    have hreach : Reachable (tcpHandlePacketLocked env t hostAddr peerAddr seg).2 :=
      ih.reach.step env (.packet hostAddr peerAddr seg) hpeer rfl
    have hpool := ih.pool
    rcases dataSegment_spec hsends hdata
      with ⟨hempty, hres, havail, hlen⟩ | ⟨hpos, hres, havail, f, f', ackSent, sbq, htable, -⟩
    · -- the pool was empty at the start already
      refine ⟨hreach, ?_, fun hb ↦ absurd hb Bool.false_ne_true, ?_, fun hroom ↦ ?_⟩
      · omega
      · omega
      · omega
    · have hlen : (tcpHandlePacketLocked env t hostAddr peerAddr seg).2.queueLen i
          = t.queueLen i + 1 := by
        rw [TcpStack.queueLen, htable, update_self, queueLen_of_some hdata.conn]
        exact length_append
      refine ⟨hreach, ?_, fun hb ↦ absurd hb Bool.false_ne_true, ?_, fun hroom hmem ↦ ?_⟩
      · omega
      · omega
      · rcases mem_cons.mp hmem with heq | hmem
        · rw [hres] at heq
          cases heq
        · exact ih.room hroom hmem

/-- **Receiving is bounded when the polls find it due.** In every run of in-order data segments with
polls between them, where each poll at which the connection holds entries finds them acknowledged,
the connection due, the cached deadline passed and the IP layer willing, the acknowledgements hold
one entry at most, and none fails for want of one. -/
theorem ackLaw_of_serviced (hs : Reachable s) (h : AckRun i (AckServiced i) s b res t) :
    AckLaw 1 i s res t :=
  ⟨(h.inv hs).queue, (h.inv hs).room⟩

end

/-- The peer accepts the active connection. -/
def activeHandshake : List (NetEnv × Event) :=
  activeOpen ++ [(.sending 1 hostA 1000,
    .packet hostA peerA (.bare 443 49152 5000 1001 (tcpHdrFlagSyn ||| tcpHdrFlagAck) 1000))]

/-- One byte a minute, with a poll before the next: the connection is idle long enough to be due. -/
theorem ackLaw_of_serviced_idle :
    ∃ s res t, Reachable s ∧ AckRun ⟨0, by decide⟩ (AckServiced ⟨0, by decide⟩) s true [res] t ∧
      AckLaw 1 ⟨0, by decide⟩ s [res] t := by
  let seg : Segment := .data 443 49152 5001 1001 tcpHdrFlagAck 1000 [0] (by decide)
  obtain ⟨s, c, hs, hc, hp⟩ := exists_conn_of_runCalls 0 activeHandshake ⟨0, by decide⟩
    (fun s c ↦
      let t := (tcpHandlePacketLocked (.sending 2 hostA 0) s hostA peerA seg).2
      decide (tcpLookupConn s hostA peerA 49152 443 = some ⟨0, by decide⟩ ∧
        c.state = .established ∧ c.recvNext = 5001 ∧ 1 ≤ recvBufSpace c.recvBuf) &&
      (t.connTable ⟨0, by decide⟩).all (fun d : TcpConn ↦ decide (d.AllAcked ∧ d.Due 60000)) &&
      decide (t.glob.nextTimerMs ≤ 60000) && (step (.sending 60000 hostA 0) t (.poll 4)).isSome)
    (by decide +kernel)
  simp only [Bool.and_eq_true, decide_eq_true_eq, Option.all_eq_true] at hp
  obtain ⟨⟨⟨⟨hlook, hst, hnext, hspace⟩, hdue⟩, htimer⟩, hpoll⟩ := hp
  obtain ⟨t, hpoll⟩ := Option.isSome_iff_exists.mp hpoll
  have hdata : DataFor s ⟨0, by decide⟩ hostA peerA seg c :=
    ⟨hlook, hc, hst, by decide, cons_ne_nil _ _, hnext.symm, hspace⟩
  have hstart : AckRun ⟨0, by decide⟩ (AckServiced ⟨0, by decide⟩) s true [] s := .start
  have hseg := hstart.segment (.sending 2 hostA 0) (fun _ ↦ ⟨⟨_, rfl⟩, rfl⟩) (by decide) hdata
  have hrun := hseg.poll (.sending 60000 hostA 0) 4 (fun d hd _ _ ↦
    ⟨(hdue d hd).1, (hdue d hd).2, .inr htimer, fun _ ↦ ⟨⟨_, rfl⟩, rfl⟩⟩) hpoll
  exact ⟨s, _, t, hs, hrun, ackLaw_of_serviced hs hrun⟩

/-! ## A connection that is never due -/

/-- A poll when nothing is due leaves the connections and the pool. -/
theorem poll_idle (env : NetEnv) {s : TcpStack} (hs : Reachable s)
    (hidle : ∀ i c, s.connTable i = some c → ¬c.Due env.now) :
    ∃ s', step env s (.poll 1) = some s' ∧ s'.connTable = s.connTable ∧
      s'.glob.sbqAvail = s.glob.sbqAvail := by
  by_cases hgate : s.glob.nextTimerMs ≠ timeMsMax ∧ s.glob.nextTimerMs > env.now
  · refine ⟨s, ?_, rfl, rfl⟩
    simp only [step, tcpPollRetransmit, if_pos hgate, Option.map_some]
  · refine ⟨tcpHeapRebuild s, ?_, rfl, rfl⟩
    have hpass : tcpPollPass env (tcpHeapRebuild s) = .inl (resultOk, tcpHeapRebuild s) := by
      rcases tcpPollPass_cases env ⟨s, rfl⟩ hs.connInv
        with ⟨hend, -⟩ | ⟨c, hc, hdue, -⟩
      · exact hend
      · exact absurd hdue (hidle _ c hc)
    simp only [step, tcpPollRetransmit, if_neg hgate, tcpPollRetransmitLocked,
      Loop.run_succ_of_inl hpass, Option.map_some]

/-- A connection alone in the table, with nothing in flight, room in its buffer for a byte per entry
left in the pool, and a clock that is far from its end. -/
structure Receiver (hostAddr peerAddr : Ipv4Addr) (hostPort peerPort : U16) (i : ConnIdx)
    (t : TcpStack) (c : TcpConn) : Prop where
  conn : t.connTable i = some c
  only : ∀ j, j ≠ i → t.connTable j = none
  ends : c.Connects hostAddr peerAddr hostPort peerPort
  established : c.state = .established
  timeout : c.internalTimeout = timeMsMax
  window : c.zeroWindowSinceMs = 0
  flight : c.sendUnack = c.sendNext
  acked : c.AllAcked
  early : c.oooLen = 0
  space : t.glob.sbqAvail < recvBufSpace c.recvBuf
  clock : c.lastActivityMs.toNat + 100 * (t.glob.sbqAvail + 2) < 2 ^ 63

/-- The next byte of the peer. -/
def TcpConn.nextByte (c : TcpConn) : Segment :=
  .data c.peerPort c.hostPort c.recvNext c.sendNext tcpHdrFlagAck 1000 [0] (by decide)

section

variable {hostAddr peerAddr : Ipv4Addr} {hostPort peerPort : U16} {i : ConnIdx} {t : TcpStack}
  {c : TcpConn}

theorem Receiver.dataFor (h : Receiver hostAddr peerAddr hostPort peerPort i t c)
    (ht : Reachable t) : DataFor t i hostAddr peerAddr c.nextByte c where
  look := by
    obtain ⟨-, hport, -, hpport⟩ := exactMatch_iff.mp h.ends.2
    show tcpLookupConn t hostAddr peerAddr c.hostPort c.peerPort = some i
    rw [hport, hpport]
    exact lookup_of_connects ht h.conn h.ends
  conn := h.conn
  established := h.established
  plain := by
    show hasFlag tcpHdrFlagAck tcpHdrFlagRst = false ∧ hasFlag tcpHdrFlagAck tcpHdrFlagFin = false
    decide
  data := cons_ne_nil _ _
  inOrder := rfl
  fits := Nat.succ_le_of_lt (Nat.lt_of_le_of_lt (Nat.zero_le _) h.space)

/-- Right after a segment the connection is not due. -/
theorem Receiver.idle (h : Receiver hostAddr peerAddr hostPort peerPort i t c)
    (hprobes : c.keepaliveProbes = 0) {now : U64} (hnow : now = c.lastActivityMs + 50) :
    ∀ j d, t.connTable j = some d → ¬d.Due now := by
  intro j d hd
  have hj : j = i := by
    by_contra hj
    rw [h.only j hj] at hd
    cases hd
  subst hj
  cases h.conn.symm.trans hd
  have hclock := h.clock
  have hmax : now ≠ timeMsMax := by
    rintro rfl
    have htime := congrArg BitVec.toNat hnow
    rw [timeMsMax, toNat_allOnes, toNat_add,
      show (50 : U64).toNat = 50 from rfl] at htime
    omega
  refine not_due_of_lt ((lt_nextEvent_iff c).mpr ⟨hmax, (forall_timers_iff c).mpr ⟨?_, ?_, ?_⟩⟩)
  · rw [h.timeout, ← BitVec.not_le, timeMsMax_le_iff]
    exact hmax
  · intro _
    refine ⟨lt_fireTime_of_sub_lt hmax ?_, absurd h.window⟩
    rw [hnow, BitVec.add_comm, BitVec.add_sub_cancel, keepaliveIdle, hprobes]
    decide
  · intro sbq hsbq hun
    rw [h.acked sbq hsbq] at hun
    cases hun

/-- The byte goes into the receive buffer, and nothing early is there to follow it. -/
theorem takeData_nextByte (hok : RecvOk c) (hspace : 0 < recvBufSpace c.recvBuf)
    (hearly : c.oooLen = 0) :
    recvBufSpace (tcpConnTakeData c c.nextByte).recvBuf = recvBufSpace c.recvBuf - 1 ∧
      (tcpConnTakeData c c.nextByte).oooLen = 0 := by
  obtain ⟨buf, htake, -, -, hleft⟩ := tcpConnTakeData_deliver hok
    (show c.nextByte.payload ≠ [] from cons_ne_nil _ _) rfl (Nat.succ_le_of_lt hspace)
  have hflush : tcpConnFlushOoo (tcpConnDeliver c c.nextByte.payload buf)
      = tcpConnDeliver c c.nextByte.payload buf := by
    rw [tcpConnFlushOoo, if_neg]
    exact Nat.not_lt.mpr hearly.le
  have hfin : c.nextByte.fin = false := show hasFlag tcpHdrFlagAck tcpHdrFlagFin = false by decide
  rw [htake, hflush, tcpConnTakeFin, if_neg (by rw [hfin]; exact Bool.false_ne_true)]
  exact ⟨hleft, hearly⟩

/-- A tenth of a second later there is time enough for one entry less. -/
theorem clock_step {last now : U64} {m n : ℕ} (hnow : now = last + 100) (hm : m + 1 = n)
    (h : last.toNat + 100 * (n + 2) < 2 ^ 63) : now.toNat + 100 * (m + 2) < 2 ^ 63 := by
  rw [hnow, toNat_add, show (100 : U64).toNat = 100 from rfl]
  omega

/-- One byte and a poll right after it: an entry more, and the connection is as before. -/
theorem Receiver.round (h : Receiver hostAddr peerAddr hostPort peerPort i t c)
    (ht : Reachable t) (hpeer : peerAddr ≠ ipv4AddrAny) (hpool : t.glob.sbqAvail ≠ 0)
    {s : TcpStack} {res : List Result} (hrun : AckRun i (fun _ _ ↦ True) s true res t) :
    ∃ t' c' res', AckRun i (fun _ _ ↦ True) s true res' t' ∧ Reachable t' ∧
      Receiver hostAddr peerAddr hostPort peerPort i t' c' ∧
      t'.glob.sbqAvail + 1 = t.glob.sbqAvail := by
  have hdata := h.dataFor ht
  obtain ⟨env, hsends, htime⟩ : ∃ env : NetEnv, env.Sends ∧ env.now = c.lastActivityMs + 100 :=
    ⟨.sending _ hostAddr 0, fun _ ↦ ⟨⟨_, rfl⟩, rfl⟩, rfl⟩
  have hseg := hrun.segment env hsends hpeer hdata
  have hreach : Reachable (tcpHandlePacketLocked env t hostAddr peerAddr c.nextByte).2 :=
    ht.step env (.packet hostAddr peerAddr c.nextByte) hpeer rfl
  have hslot := tcpHandlePacketLocked_slot env hdata.look hdata.conn
    (show c.state.Synchronized by rw [h.established]; decide)
  rcases dataSegment_spec hsends hdata
    with ⟨hzero, -⟩ | ⟨-, -, havail, f, f', ackSent, sbq, htable, hreq, hunack, hwin, hzero⟩
  · exact absurd hzero hpool
  generalize (tcpHandlePacketLocked env t hostAddr peerAddr c.nextByte).2 = u
    at hseg hreach hslot havail htable
  have havail' : u.glob.sbqAvail + 1 = t.glob.sbqAvail := by
    rw [havail, Nat.sub_add_cancel (Nat.pos_of_ne_zero hpool)]
  have hconn : u.connTable i = some (c.acked env.now f f' ackSent sbq) := by
    rw [htable, update_self]
  have hside : (c.acked env.now f f' ackSent sbq).recvSide
      = (tcpConnTakeData c c.nextByte).recvSide := by
    rcases hslot with ⟨htrans, -⟩ | ⟨st, d, -, hd, -, htook⟩
    · rw [h.established] at htrans
      simp [transition, hdata.plain] at htrans
    · cases hconn.symm.trans hd
      rw [htook.recvSide, h.established, updatesRecv, hdata.plain.1]
      rfl
  obtain ⟨hbuf, -, hooo, -⟩ := recvSide_eq_iff.mp hside
  obtain ⟨hspace, hearly⟩ := takeData_nextByte (ht.connInv i c h.conn).recv
    (Nat.lt_of_le_of_lt (Nat.zero_le _) h.space) h.early
  have hsame : f.sendUnack = c.sendUnack := by
    rw [hunack, h.flight]
    exact ite_self _
  have hrecv : Receiver hostAddr peerAddr hostPort peerPort i u
      (c.acked env.now f f' ackSent sbq) :=
    { conn := hconn
      only := fun j hj ↦ by rw [htable, update_of_ne hj, h.only j hj]
      ends := h.ends
      established := h.established
      timeout := h.timeout
      window := by
        -- the window that the byte advertises is open
        by_contra hne
        have hclosed := hzero (absurd h.window) hne
        rw [hwin, Nat.shiftLeft_eq] at hclosed
        rcases Nat.mul_eq_zero.mp hclosed with h0 | h0
        · cases h0
        · exact absurd h0 (Nat.two_pow_pos _).ne'
      flight := hsame.trans h.flight
      acked := by
        intro x hx
        show seqGeq f.sendUnack x.requiredAck = true
        rw [hsame]
        rcases mem_append.mp hx with hx | hx
        · exact h.acked x hx
        · rw [mem_singleton.mp hx, hreq, h.flight, seqGeq, sub_self]
          decide
      early := hooo.trans hearly
      space := by
        rw [hbuf, hspace]
        exact Nat.lt_sub_of_add_lt (havail' ▸ h.space)
      clock := clock_step htime havail' h.clock }
  obtain ⟨t', hpoll, htable', hsbq⟩ := poll_idle (.sending (env.now + 50) hostAddr 0) hreach
    (hrecv.idle rfl rfl)
  refine ⟨t', c.acked env.now f f' ackSent sbq, _, hseg.poll _ 1 trivial hpoll,
    hreach.step _ (.poll 1) trivial hpoll, ?_, by rw [hsbq, havail']⟩
  exact { hrecv with
    conn := by rw [htable', hconn]
    only := fun j hj ↦ by rw [htable', hrecv.only j hj]
    space := by rw [hsbq]; exact hrecv.space
    clock := by rw [hsbq]; exact hrecv.clock }

/-- The pool runs out, one entry a byte, and then an acknowledgement fails. -/
theorem Receiver.exhausts (n : ℕ) (h : Receiver hostAddr peerAddr hostPort peerPort i t c)
    (ht : Reachable t) (hpeer : peerAddr ≠ ipv4AddrAny) (hn : t.glob.sbqAvail = n)
    {s : TcpStack} {res : List Result} (hrun : AckRun i (fun _ _ ↦ True) s true res t) :
    ∃ t' res', AckRun i (fun _ _ ↦ True) s false (.error enomem :: res') t' := by
  induction n generalizing t c res with
  | zero =>
    have hsends : (NetEnv.sending 0 hostAddr 0).Sends := fun _ ↦ ⟨⟨_, rfl⟩, rfl⟩
    have hseg := hrun.segment _ hsends hpeer (h.dataFor ht)
    rcases dataSegment_spec hsends (h.dataFor ht) with ⟨-, hres, -⟩ | ⟨hne, -⟩
    · rw [hres] at hseg
      exact ⟨_, res, hseg⟩
    · exact absurd hn hne
  | succ n ih =>
    obtain ⟨t', c', res', hrun', ht', h', hlen⟩ := h.round ht hpeer (by omega) hrun
    exact ih h' ht' (by omega) hrun'

end

/-- A client that receives ten bytes a second, with a poll after each: the acknowledgements take
every one of the 1022 entries that the handshake left, and the next fails. -/
theorem not_ackLaw_steady :
    ∃ s b res t, Reachable s ∧ s.glob.sbqAvail = 1022 ∧
      AckRun ⟨0, by decide⟩ (fun _ _ ↦ True) s b res t ∧
      ∀ B ≤ s.glob.sbqAvail, ¬AckLaw B ⟨0, by decide⟩ s res t := by
  obtain ⟨s, c, hs, hc, hp⟩ := exists_conn_of_runCalls 0 activeHandshake ⟨0, by decide⟩
    (fun s c ↦ decide (s.glob.sbqAvail = 1022 ∧
      (∀ j : ConnIdx, j ≠ ⟨0, by decide⟩ → s.connTable j = none) ∧
      c.Connects hostA peerA 49152 443 ∧ c.state = .established ∧ c.internalTimeout = timeMsMax ∧
      c.zeroWindowSinceMs = 0 ∧ c.sendUnack = c.sendNext ∧ c.AllAcked ∧ c.oooLen = 0 ∧
      s.glob.sbqAvail < recvBufSpace c.recvBuf ∧
      c.lastActivityMs.toNat + 100 * (s.glob.sbqAvail + 2) < 2 ^ 63)) (by decide +kernel)
  obtain ⟨hpool, honly, hends, hst, htimeout, hwin, hflight, hacked, hearly, hspace, hclock⟩ :=
    of_decide_eq_true hp
  have hrecv : Receiver hostA peerA 49152 443 ⟨0, by decide⟩ s c :=
    ⟨hc, honly, hends, hst, htimeout, hwin, hflight, hacked, hearly, hspace, hclock⟩
  obtain ⟨t, res, hrun⟩ := hrecv.exhausts 1022 hs (by decide) hpool .start
  exact ⟨s, false, _, t, hs, hpool, hrun, fun B hB hlaw ↦ hlaw.room hB mem_cons_self⟩

end Mazu.Tcp
