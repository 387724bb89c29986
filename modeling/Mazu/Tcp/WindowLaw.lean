import Mazu.Tcp.Books

/-!
# Advertised windows

Every segment of a synchronised connection advertises a window that the receive buffer has room for,
and the right edge of the window never moves back. The numbers on the wire are counted modulo
`2 ^ 32`, and any number of bytes may arrive between two segments, so the edge is measured against
the way that `recv_next` has come since the start of the run.
-/

namespace Mazu.Tcp

open Serial Function List

/-- The handshake of the connection was completed. A connection that was reset while it was opening
has no receive buffer, and never was synchronised. -/
def TcpConn.Synchronised (c : TcpConn) : Prop :=
  c.state.Synchronized ∧ (c.state = .reset → c.recvBuf.len ≠ 0)

/-- The window of a connection against its receive buffer. -/
structure WindowOk (c : TcpConn) : Prop where
  opening : ¬c.state.Synchronized → c.recvWindowSizeReal = tcpConnDefaultRecvWindowSize
  opened : c.state.Synchronized → c.state ≠ .reset → c.recvBuf.len ≠ 0
  len_le : c.recvBuf.len ≤ tcpConnRecvBufSize
  fits : c.Synchronised → c.recvWindowSizeReal ≤ recvBufSpace c.recvBuf

/-- What an update does to the window: it still fits, and neither `recv_next` nor the right edge has
moved back. -/
structure Onward (c d : TcpConn) : Prop where
  ok : WindowOk d
  sync : c.Synchronised → d.Synchronised
  next : c.Synchronised → 0 ≤ diff d.recvNext c.recvNext
  edge : c.Synchronised →
    (c.recvWindowSizeReal : ℤ) ≤ diff d.recvNext c.recvNext + d.recvWindowSizeReal

section

variable {env : NetEnv} {p : Phase} {c d : TcpConn} {g g' : Globals}

/-- An update that leaves `recv_next` as it is, and does not lower the window. -/
theorem Onward.of_eq (h : WindowOk c) (hst : d.state = c.state ∨
      (c.state.Synchronized ∧ c.state ≠ .reset ∧ d.state.Synchronized))
    (hn : d.recvNext = c.recvNext) (hlen : d.recvBuf.len = c.recvBuf.len)
    (hspace : recvBufSpace c.recvBuf ≤ recvBufSpace d.recvBuf)
    (hw : d.recvWindowSizeReal = c.recvWindowSizeReal) : Onward c d := by
  have hdiff : diff d.recvNext c.recvNext = 0 := by rw [hn, diff_self]
  have hedge : c.recvWindowSizeReal ≤ diff d.recvNext c.recvNext + d.recvWindowSizeReal := by
    rw [hdiff, hw, zero_add]
  rcases hst with hst | ⟨hsync, hne, hsync'⟩
  · have hiff : d.Synchronised ↔ c.Synchronised := by
      rw [TcpConn.Synchronised, TcpConn.Synchronised, hst, hlen]
    refine ⟨⟨?_, ?_, hlen ▸ h.len_le, fun hd ↦ ?_⟩, hiff.mpr, fun _ ↦ hdiff.ge, fun _ ↦ hedge⟩
    · rw [hst, hw]
      exact h.opening
    · rw [hst, hlen]
      exact h.opened
    · exact hw ▸ (h.fits (hiff.mp hd)).trans hspace
  · have hc : c.Synchronised := ⟨hsync, fun hr ↦ absurd hr hne⟩
    have hopen : d.recvBuf.len ≠ 0 := hlen ▸ h.opened hsync hne
    exact ⟨⟨absurd hsync', fun _ _ ↦ hopen, hlen ▸ h.len_le,
      fun _ ↦ hw ▸ (h.fits hc).trans hspace⟩, fun _ ↦ ⟨hsync', fun _ ↦ hopen⟩, fun _ ↦ hdiff.ge,
      fun _ ↦ hedge⟩

theorem Onward.refl (h : WindowOk c) : Onward c c :=
  .of_eq h (.inl rfl) rfl rfl (le_refl _) rfl

/-- The end of a handshake. -/
theorem Onward.of_open (h : WindowOk c) (hst : ¬c.state.Synchronized) (hd : d.state = .established)
    (hb : d.recvBuf = recvBufNew) (hw : d.recvWindowSizeReal = c.recvWindowSizeReal) :
    Onward c d := by
  have hlen : d.recvBuf.len ≠ 0 := by
    rw [hb]
    decide
  have hno : ∀ {P : Prop}, c.Synchronised → P := fun hc ↦ absurd hc.1 hst
  refine ⟨⟨?_, fun _ _ ↦ hlen, ?_, fun _ ↦ ?_⟩, hno, hno, hno⟩
  · rw [hd]
    exact absurd synchronized_established
  · rw [hb]
    exact le_refl _
  · rw [hw, h.opening hst, hb]
    decide

/-- Bytes of the peer are taken in. -/
theorem Onward.of_takes (h : WindowOk c) {n : ℕ} (ht : Takes n c d) (hn : n < 2 ^ 31)
    (hsync : c.state.Synchronized) (hst : d.state = c.state) : Onward c d := by
  have hiff : d.Synchronised ↔ c.Synchronised := by
    rw [TcpConn.Synchronised, TcpConn.Synchronised, hst, ht.len]
  have hdiff : diff d.recvNext c.recvNext = n := by
    rw [ht.next]
    exact diff_add_ofNat hn
  refine ⟨⟨?_, ?_, ht.len ▸ h.len_le, fun hd ↦ ht.fits (h.fits (hiff.mp hd))⟩, hiff.mpr,
    fun _ ↦ ?_, fun _ ↦ ?_⟩
  · rw [hst]
    exact absurd hsync
  · rw [hst, ht.len]
    exact h.opened
  · rw [hdiff]
    exact Int.natCast_nonneg n
  · rw [hdiff]
    exact_mod_cast ht.edge

theorem Moves.of_open {st st' : TcpConnState} (h : Moves st st') :
    st.Synchronized ∧ st ≠ .reset ∧ st'.Synchronized := by
  cases h with
  | timeWait h => rcases h with rfl | rfl | rfl <;> decide
  | _ => decide

/-- **Every action keeps the right edge.** -/
theorem Act.onward (ha : Act env p c g d g') (hs : Sound c) (h : WindowOk c) : Onward c d := by
  have hfin : ∀ {st : TcpConnState},
      (c.state = .established ∧ st = .finWait1) ∨ (c.state = .closeWait ∧ st = .lastAck) →
        c.state.Synchronized ∧ c.state ≠ .reset ∧ st.Synchronized := by
    rintro st (⟨hst, rfl⟩ | ⟨hst, rfl⟩) <;> rw [hst] <;> decide
  cases ha with
  | options _ _ flags opts =>
    obtain ⟨mss, scale, use, heq, -⟩ := tcpHandleOptions_update c flags opts
    rw [heq]
    exact .of_eq h (.inl rfl) rfl rfl (le_refl _) rfl
  | negotiate _ _ tsopt =>
    obtain ⟨useTs, tsRecent, heq⟩ := negotiateTs_eq c tsopt
    rw [heq]
    exact .of_eq h (.inl rfl) rfl rfl (le_refl _) rfl
  | move _ _ hm => exact .of_eq h (.inr hm.of_open) rfl rfl (le_refl _) rfl
  | reset _ _ hst =>
    rcases hst with hst | hst | hst
    · -- the connection was never opened, and has no buffer
      have hno : ¬c.state.Synchronized := by rw [hst]; decide
      have hlen : c.recvBuf.len = 0 := hs.closed hno
      have hnever : ∀ {P : Prop}, c.Synchronised → P := fun hc ↦ absurd hc.1 hno
      exact ⟨⟨absurd synchronized_reset, fun _ hn ↦ absurd rfl hn, h.len_le,
        fun hd ↦ absurd hlen (hd.2 rfl)⟩, hnever, hnever, hnever⟩
    all_goals
      refine .of_eq h (.inr ⟨?_, ?_, synchronized_reset⟩) rfl rfl (le_refl _) rfl <;>
        rw [hst] <;> decide
  | sendState _ _ seg tsopt =>
    obtain ⟨f, hf, -⟩ := tcpConnUpdateSendState_spec env c g seg tsopt
    rw [hf]
    exact .of_eq h (.inl rfl) rfl rfl (le_refl _) rfl
  | recvState _ _ seg tsopt hst =>
    obtain ⟨n, hn, htakes⟩ := tcpConnUpdateRecvState_takes hs.inv.recv seg tsopt
    obtain ⟨f, hf⟩ := tcpConnUpdateRecvState_same c seg tsopt
    refine .of_takes h htakes (by omega) hst ?_
    rw [hf]
    rfl
  | openActive _ _ seg tsopt hst =>
    obtain ⟨f, useTs, tsRecent, -, heq⟩ := tcpOpenActive_spec env c g seg tsopt
    rw [heq]
    exact .of_open h (by rw [hst]; decide) rfl rfl rfl
  | openPassive _ _ seg tsopt hst =>
    obtain ⟨f, -, heq⟩ := tcpOpenPassive_spec env c g seg tsopt
    rw [heq]
    exact .of_open h (by rw [hst]; decide) rfl rfl rfl
  | fin _ _ hg hst hd =>
    obtain ⟨rfl, rfl⟩ := Prod.mk.inj hd
    exact .of_eq h (.inr (hfin hst)) rfl rfl (le_refl _) rfl
  | finUnsent _ _ hst => exact .of_eq h (.inr (hfin hst)) rfl rfl (le_refl _) rfl
  | read _ _ dest =>
    obtain ⟨hlen, hspace⟩ := recvBufRead_space hs.inv.recv.buf dest
    exact .of_eq h (.inl rfl) rfl hlen hspace rfl
  | _ => exact .of_eq h (.inl rfl) rfl rfl (le_refl _) rfl

/-- What `tcp_send_segment_noqueue` makes of the window. -/
theorem tcpConnOpenWindow_cases (c : TcpConn) :
    tcpConnOpenWindow c = c ∨ c.state.Synchronized ∧
      c.recvWindowSizeReal ≤ recvBufSpace c.recvBuf ∧
      tcpConnOpenWindow c = { c with recvWindowSizeReal := recvBufSpace c.recvBuf } := by
  rw [tcpConnOpenWindow]
  dsimp only
  split_ifs with hst hspace
  · refine .inr ⟨hst, ?_, rfl⟩
    omega
  · exact .inl rfl
  · exact .inl rfl

theorem tcpConnOpenWindow_onward (h : WindowOk c) : Onward c (tcpConnOpenWindow c) := by
  rcases tcpConnOpenWindow_cases c with heq | ⟨hst, hle, heq⟩ <;> rw [heq]
  · exact .refl h
  · refine ⟨⟨absurd hst, h.opened, h.len_le, fun _ ↦ le_refl _⟩, id,
      fun _ ↦ (diff_self _).ge, fun _ ↦ ?_⟩
    rw [diff_self, zero_add]
    exact_mod_cast hle

/-- **What a transmission says.** The segment carries the `recv_next` and the window of the
connection as it then is. -/
theorem noqueue_sent {res : Result} {flags : U8} {seqNum : U32} {cksum : U16} {payload : List U8}
    {out : List TxSegment}
    (hd : tcpSendSegmentNoqueue env c g flags seqNum cksum payload = (res, d, g'))
    (hout : g'.txLog = out ++ g.txLog) :
    (∃ ackSent, d = { tcpConnOpenWindow c with lastAckSent := ackSent }) ∧
      ∀ seg ∈ out, seg.ackNum = d.recvNext ∧
        seg.windowSize = BitVec.ofNat 16 d.recvWindowSizeReal := by
  simp only [tcpSendSegmentNoqueue] at hd
  generalize he : (if hasFlag flags tcpHdrFlagAck = true then
    { tcpConnOpenWindow c with lastAckSent := (tcpConnOpenWindow c).recvNext }
    else tcpConnOpenWindow c) = e at hd
  have hform : ∃ ackSent, e = { tcpConnOpenWindow c with lastAckSent := ackSent } := by
    rw [← he]
    split_ifs <;> exact ⟨_, rfl⟩
  simp only [tcpSendSegmentNoqueueRaw] at hd
  cases hroute : env.routeAddr g.txTries with
  | error err =>
    rw [hroute] at hd
    cases hd
    rw [self_eq_append_left.mp hout]
    exact ⟨hform, fun seg hseg ↦ by cases hseg⟩
  | ok iface =>
    rw [hroute] at hd
    cases hd
    have hone : [_] = out := append_cancel_right hout
    rw [← hone]
    refine ⟨hform, fun seg hseg ↦ ?_⟩
    rw [mem_singleton.mp hseg]
    exact ⟨rfl, rfl⟩

theorem noqueue_onward {res : Result} {flags : U8} {seqNum : U32} {cksum : U16} {payload : List U8}
    {out : List TxSegment}
    (hd : tcpSendSegmentNoqueue env c g flags seqNum cksum payload = (res, d, g'))
    (hout : g'.txLog = out ++ g.txLog) (h : WindowOk c) : Onward c d := by
  obtain ⟨⟨ackSent, rfl⟩, -⟩ := noqueue_sent hd hout
  have hopen := tcpConnOpenWindow_onward h
  exact ⟨⟨hopen.ok.opening, hopen.ok.opened, hopen.ok.len_le, hopen.ok.fits⟩, hopen.sync, hopen.next,
    hopen.edge⟩

end

/-! ## Slots -/

/-- What a primitive step does to a slot and to the number of times it was freed. -/
inductive SlotMove : Option TcpConn → ℕ → Option TcpConn → ℕ → Prop
  | stay {c d : TcpConn} (n : ℕ) (h : Onward c d) : SlotMove (some c) n (some d) n
  | leave (c : TcpConn) (n : ℕ) : SlotMove (some c) n none (n + 1)
  | arrive {d : TcpConn} (n : ℕ) (h : WindowOk d) : SlotMove none n (some d) n
  | idle {n m : ℕ} (h : n ≤ m) : SlotMove none n none m

section

variable {env : NetEnv} {p : Phase} {s s' : TcpStack} {new : List Emission} {i : ConnIdx}

theorem SlotMove.refl (hw : s.All WindowOk) (j : ConnIdx) :
    SlotMove (s.connTable j) (s.generation j) (s.connTable j) (s.generation j) := by
  cases h : s.connTable j with
  | none => exact .idle (le_refl _)
  | some c => exact .stay _ (.refl (hw j c h))

/-- One slot moves, and the others stay. -/
theorem SlotMove.at {x : Option TcpConn} {n : ℕ} (hw : s.All WindowOk)
    (hc : s'.connTable = update s.connTable i x)
    (hg : s'.generation = update s.generation i n)
    (h : SlotMove (s.connTable i) (s.generation i) x n) (j : ConnIdx) :
    SlotMove (s.connTable j) (s.generation j) (s'.connTable j) (s'.generation j) := by
  rw [hc, hg, update_apply, update_apply]
  split_ifs with hj
  · exact hj ▸ h
  · exact .refl hw j

theorem windowOk_of_opening {c : TcpConn} (hst : ¬c.state.Synchronized)
    (hw : c.recvWindowSizeReal = tcpConnDefaultRecvWindowSize) (hb : c.recvBuf = recvBufNone) :
    WindowOk c :=
  ⟨fun _ ↦ hw, fun hs ↦ absurd hs hst, by rw [hb]; exact Nat.zero_le _, fun hs ↦ absurd hs.1 hst⟩

/-- **What a primitive step does to every slot.** -/
theorem Prim.slotMove (hp : Prim env p s new s') (hb : Booked s) (hw : s.All WindowOk)
    (j : ConnIdx) :
    SlotMove (s.connTable j) (s.generation j) (s'.connTable j) (s'.generation j) := by
  have hkeep : ∀ i, s.generation = update s.generation i (s.generation i) :=
    fun i ↦ (update_eq_self i s.generation).symm
  have hat : ∀ {i : ConnIdx} {x : Option TcpConn} {n : ℕ},
      s'.connTable = update s.connTable i x →
      s'.generation = update s.generation i n →
      SlotMove _ _ x n →
      SlotMove _ _ _ _ :=
    fun hc hg h ↦ .at hw hc hg h j
  cases hp with
  | act hc ha =>
    refine hat rfl (hkeep _) ?_
    rw [hc]
    exact .stay _ (ha.onward (hb.conns _ _ hc) (hw _ _ hc))
  | send hc hd hout =>
    refine hat rfl (hkeep _) ?_
    rw [hc]
    exact .stay _ (noqueue_onward hd hout (hw _ _ hc))
  | @free _ _ i c hc links =>
    refine hat rfl rfl ?_
    rw [hc]
    exact .leave c _
  | pmtu _ dest newMtu =>
    simp only [tcpPmtuUpdate]
    cases hc : s.connTable j with
    | none => exact .idle (le_refl _)
    | some c =>
      rw [Option.map_some]
      split_ifs
      · exact .stay _ (.of_eq (hw j c hc) (.inl rfl) rfl rfl (le_refl _) rfl)
      · exact .stay _ (.refl (hw j c hc))
  | listen hfree addr port links =>
    refine hat rfl (hkeep _) ?_
    rw [hfree]
    exact .arrive _ (windowOk_of_opening (show ¬TcpConnState.listen.Synchronized by decide) rfl rfl)
  | child hfree lc l peerAddr seg links hopts hd =>
    refine hat rfl (hkeep _) ?_
    rw [hfree]
    cases hd
    exact .arrive _ (windowOk_of_opening (show ¬TcpConnState.synRcvd.Synchronized by decide) rfl rfl)
  | dial hfree addr remoteAddr port remotePort links hg hd =>
    refine hat rfl (hkeep _) ?_
    rw [hfree]
    cases hd
    exact .arrive _ (windowOk_of_opening (show ¬TcpConnState.synSent.Synchronized by decide) rfl rfl)
  | @spend _ i hfree links =>
    refine hat (x := none) ?_ rfl ?_
    · rw [← hfree, update_eq_self]
    · rw [hfree]
      exact .idle (Nat.le_succ _)
  | _ => exact .refl hw j

theorem Prim.windows (hp : Prim env p s new s') (hb : Booked s) (hw : s.All WindowOk) :
    s'.All WindowOk := by
  intro j d hd
  have hmove := hp.slotMove hb hw j
  rw [hd] at hmove
  generalize s.connTable j = x at hmove
  generalize s.generation j = n at hmove
  generalize s'.generation j = m at hmove
  cases hmove with
  | stay _ h => exact h.ok
  | arrive _ h => exact h

/-- **What a primitive step hands to the IP layer.** -/
theorem Prim.emits (hp : Prim env p s new s') :
    s'.glob.txLog = new.map Emission.segment ++ s.glob.txLog ∧
      (∀ e ∈ new, e.sender = none → hasFlag e.segment.flags tcpHdrFlagRst = true) ∧
      ∀ e ∈ new, ∀ i n c, e.sender = some ⟨i, n, c⟩ →
        s'.connTable i = some c ∧ s'.generation i = n ∧ e.segment.ackNum = c.recvNext ∧
          e.segment.windowSize = BitVec.ofNat 16 c.recvWindowSizeReal := by
  have hnone : ∀ {P : Emission → Prop}, ∀ e ∈ ([]), P e := fun e he ↦ by cases he
  obtain ⟨next₀, halloc⟩ := allocHint_eq env s.glob
  cases hp with
  | act hc ha =>
    obtain ⟨next, sbq, buf, rfl⟩ := ha.globals
    exact ⟨rfl, hnone, hnone⟩
  | @send _ _ i c d g _ out _ _ _ _ hc hd hout =>
    refine ⟨?_, ?_, ?_⟩
    · rw [map_map]
      exact hout.trans (congrArg (· ++ s.glob.txLog) (map_id _).symm)
    · intro e he hsender
      obtain ⟨seg, -, rfl⟩ := mem_map.mp he
      cases hsender
    · intro e he j n c' hsender
      obtain ⟨seg, hseg, rfl⟩ := mem_map.mp he
      cases hsender
      exact ⟨setConn_connTable_self _ _ _, rfl, (noqueue_sent hd hout).2 seg hseg⟩
  | refuse _ tries out hrst =>
    refine ⟨?_, ?_, ?_⟩
    · rw [map_map]
      exact congrArg (· ++ s.glob.txLog) (map_id _).symm
    · intro e he _
      obtain ⟨seg, hseg, rfl⟩ := mem_map.mp he
      exact hrst seg hseg
    · intro e he j n c hsender
      obtain ⟨seg, -, rfl⟩ := mem_map.mp he
      cases hsender
  | listen | spend =>
    rw [halloc]
    exact ⟨rfl, hnone, hnone⟩
  | child hfree lc l peerAddr seg links hopts hd =>
    rw [halloc] at hd
    obtain ⟨next, rfl⟩ := tcpConnSetInternalTimeout_globals hd
    exact ⟨rfl, hnone, hnone⟩
  | dial hfree addr remoteAddr port remotePort links hg hd =>
    rw [halloc] at hd
    obtain ⟨next, heq⟩ := tcpQueueSegment_globals env
      (tcpConnectFresh env addr port remoteAddr remotePort) { s.glob with nextTimerMs := next₀ }
      tcpHdrFlagSyn []
    rw [hd] at heq
    obtain rfl : _ = _ := heq
    exact ⟨rfl, hnone, hnone⟩
  | _ => exact ⟨rfl, hnone, hnone⟩

end

/-! ## Histories -/

/-- A segment that went out, with the place its sender's `recv_next` had come to. -/
structure Report where
  emission : Emission
  place : ℤ

/-- How far `recv_next` of a slot has moved. -/
def travelled : Option TcpConn → Option TcpConn → ℤ
  | some c, some d => diff d.recvNext c.recvNext
  | _, _ => 0

/-- The places after a step. -/
def moveOn (s s' : TcpStack) (place : ConnIdx → ℤ) (i : ConnIdx) : ℤ :=
  place i + travelled (s.connTable i) (s'.connTable i)

/-- A segment, reported with the place of the slot that sent it. -/
def Emission.report (place : ConnIdx → ℤ) (e : Emission) : Report :=
  ⟨e, e.sender.elim 0 fun x ↦ place x.slot⟩

theorem Emission.report_place {e : Emission} {x : Sender} (h : e.sender = some x)
    (place : ConnIdx → ℤ) : (e.report place).place = place x.slot := by
  rw [report, h]
  rfl

/-- **A run by primitive steps**: the state it has come to, the place of every slot, and everything
handed to the IP layer, newest first. -/
inductive History : TcpStack → (ConnIdx → ℤ) → List Report → Prop
  | init (hashSeed : U32) : History (tcpInit hashSeed) (fun _ ↦ 0) []
  | step {env : NetEnv} {p : Phase} {s s' : TcpStack} {new : List Emission} {place : ConnIdx → ℤ}
      {log : List Report} (h : History s place log) (hp : Prim env p s new s') :
      History s' (moveOn s s' place) (new.map (Emission.report (moveOn s s' place)) ++ log)

/-- The right edge that a segment advertises. -/
def Report.edge (r : Report) : ℤ := r.place + r.emission.segment.windowSize.toNat

/-- Of two segments of one synchronised connection, the later one acknowledges no less and its right
edge is no further back. The places differ as the acknowledgement numbers do. -/
def Report.Follows (later earlier : Report) : Prop :=
  ∀ i n c d, earlier.emission.sender = some ⟨i, n, c⟩ → later.emission.sender = some ⟨i, n, d⟩ →
    c.Synchronised → d.Synchronised ∧ earlier.edge ≤ later.edge ∧ earlier.place ≤ later.place ∧
      BitVec.ofInt 32 (later.place - earlier.place) =
        later.emission.segment.ackNum - earlier.emission.segment.ackNum

/-- The connection that sent a report as `c` is now `d`, at the given place. -/
structure Behind (place : ℤ) (d : TcpConn) (r : Report) (c : TcpConn) : Prop where
  sync : d.Synchronised
  edge : r.place + c.recvWindowSizeReal ≤ place + d.recvWindowSizeReal
  next : r.place ≤ place
  number : BitVec.ofInt 32 (place - r.place) = d.recvNext - c.recvNext

theorem Behind.step {place : ℤ} {c d e : TcpConn} {r : Report} (h : Behind place d r c)
    (ho : Onward d e) : Behind (place + diff e.recvNext d.recvNext) e r c where
  sync := ho.sync h.sync
  edge := by
    have hedge := ho.edge h.sync
    have hold := h.edge
    omega
  next := by
    have hnext := ho.next h.sync
    have hold := h.next
    omega
  number := by
    have hsplit : place + diff e.recvNext d.recvNext - r.place
        = place - r.place + diff e.recvNext d.recvNext := by omega
    rw [hsplit, BitVec.ofInt_add, h.number, ofInt_diff, BitVec.add_comm]
    exact sub_add_sub_cancel _ _ _

/-- A window that fits its buffer fits the field on the wire. -/
theorem WindowOk.toNat_window {c : TcpConn} (h : WindowOk c) (hs : c.Synchronised) :
    (BitVec.ofNat 16 c.recvWindowSizeReal).toNat = c.recvWindowSizeReal := by
  have hfits := h.fits hs
  have hspace : recvBufSpace c.recvBuf ≤ c.recvBuf.len := by
    rw [recvBufSpace]
    split_ifs <;> omega
  have hlen : c.recvBuf.len ≤ 16384 := h.len_le
  exact Nat.mod_eq_of_lt (by omega)

/-- What holds along a history. -/
structure Tracked (s : TcpStack) (place : ConnIdx → ℤ) (log : List Report) : Prop where
  booked : Booked s
  windows : s.All WindowOk
  sent : log.map (fun r ↦ r.emission.segment) = s.glob.txLog
  /-- The sender of a report is gone if its slot is free. -/
  past : ∀ r ∈ log, ∀ i n c, r.emission.sender = some ⟨i, n, c⟩ →
    s.connTable i = none → n < s.generation i
  behind : ∀ r ∈ log, ∀ i n c d, r.emission.sender = some ⟨i, n, c⟩ → c.Synchronised →
    s.connTable i = some d → s.generation i = n → Behind (place i) d r c
  wire : ∀ r ∈ log, ∀ i n c, r.emission.sender = some ⟨i, n, c⟩ → n ≤ s.generation i ∧ WindowOk c ∧
    r.emission.segment.ackNum = c.recvNext ∧
      r.emission.segment.windowSize = BitVec.ofNat 16 c.recvWindowSizeReal
  order : log.Pairwise Report.Follows
  anonymous : ∀ r ∈ log, r.emission.sender = none →
    hasFlag r.emission.segment.flags tcpHdrFlagRst = true

section

variable {env : NetEnv} {p : Phase} {s s' : TcpStack} {new : List Emission} {place : ConnIdx → ℤ}
  {log : List Report}

theorem SlotMove.generation_le {x y : Option TcpConn} {n m : ℕ} (h : SlotMove x n y m) : n ≤ m := by
  cases h with
  | idle h => exact h
  | leave => exact Nat.le_succ _
  | _ => exact le_refl _

/-- A report of a connection that is still there stays behind it. -/
theorem Tracked.behind_step (h : Tracked s place log) (hp : Prim env p s new s') {r : Report}
    (hr : r ∈ log) {i : ConnIdx} {n : ℕ} {c e : TcpConn}
    (hsender : r.emission.sender = some ⟨i, n, c⟩) (hc : c.Synchronised)
    (he : s'.connTable i = some e) (hn : s'.generation i = n) :
    Behind (moveOn s s' place i) e r c := by
  have hmove := hp.slotMove h.booked h.windows i
  rw [he, hn] at hmove
  rw [moveOn, he]
  cases hd : s.connTable i with
  | none =>
    rw [hd] at hmove
    -- the slot was free, so the sender of the report is gone
    have hlt := h.past r hr i n c hsender hd
    generalize s.generation i = m at hmove hlt
    cases hmove
    exact absurd hlt (lt_irrefl _)
  | some d =>
    rw [hd] at hmove
    generalize hm : s.generation i = m at hmove
    cases hmove with
    | stay _ ho => exact (h.behind r hr i _ c d hsender hc hd hm).step ho

theorem Tracked.step (h : Tracked s place log) (hp : Prim env p s new s') :
    Tracked s' (moveOn s s' place) (new.map (Emission.report (moveOn s s' place)) ++ log) := by
  obtain ⟨hlog, hanon, hemit⟩ := hp.emits
  have hwin := hp.windows h.booked h.windows
  have hbehind : ∀ r ∈ new.map (Emission.report (moveOn s s' place)) ++ log, ∀ i n c d,
      r.emission.sender = some ⟨i, n, c⟩ → c.Synchronised → s'.connTable i = some d →
      s'.generation i = n → Behind (moveOn s s' place i) d r c := by
    refine forall_mem_append.mpr ⟨forall_mem_map.mpr ?_,
      fun r hr i n c d hsender hc hd hn ↦ h.behind_step hp hr hsender hc hd hn⟩
    intro e he i n c d hsender hc hd hn
    obtain ⟨hconn, -⟩ := hemit e he i n c hsender
    cases hconn.symm.trans hd
    have hplace := Emission.report_place (e := e) hsender (moveOn s s' place)
    refine ⟨hc, ?_, hplace.le, ?_⟩ <;> rw [hplace]
    rw [Int.sub_self, BitVec.sub_self]
    rfl
  have hwire : ∀ r ∈ new.map (Emission.report (moveOn s s' place)) ++ log, ∀ i n c,
      r.emission.sender = some ⟨i, n, c⟩ → n ≤ s'.generation i ∧ WindowOk c ∧
        r.emission.segment.ackNum = c.recvNext ∧
          r.emission.segment.windowSize = BitVec.ofNat 16 c.recvWindowSizeReal := by
    refine forall_mem_append.mpr ⟨forall_mem_map.mpr fun e he i n c hsender ↦ ?_,
      fun r hr i n c hsender ↦ ?_⟩
    · obtain ⟨hconn, hn, hack, hwindow⟩ := hemit e he i n c hsender
      exact ⟨hn.ge, hwin i c hconn, hack, hwindow⟩
    · obtain ⟨hle, hrest⟩ := h.wire r hr i n c hsender
      exact ⟨hle.trans (hp.slotMove h.booked h.windows i).generation_le, hrest⟩
  refine ⟨hp.booked h.booked, hwin, ?_, ?_, hbehind, hwire, ?_,
    forall_mem_append.mpr ⟨forall_mem_map.mpr hanon, h.anonymous⟩⟩
  · rw [map_append, map_map, h.sent, hlog]
    rfl
  · refine forall_mem_append.mpr ⟨forall_mem_map.mpr fun e he i n c hsender hfree ↦ ?_,
      fun r hr i n c hsender hfree ↦ ?_⟩
    · cases (hemit e he i n c hsender).1.symm.trans hfree
    · have hmove := hp.slotMove h.booked h.windows i
      have hle := (h.wire r hr i n c hsender).1
      have hpast := h.past r hr i n c hsender
      rw [hfree] at hmove
      generalize s.connTable i = x at hmove hpast
      generalize s.generation i = m at hmove hle hpast
      generalize s'.generation i = m' at hmove
      cases hmove with
      | leave => omega
      | idle hm =>
        have hlt := hpast rfl
        omega
  · -- a new report follows everything reported before it
    have hnew : ∀ e ∈ new, ∀ r ∈ new.map (Emission.report (moveOn s s' place)) ++ log,
        (e.report (moveOn s s' place)).Follows r := by
      intro e he r hr i n c d hearlier hlater hc
      obtain ⟨hconn, hn, hack, hwindow⟩ := hemit e he i n d hlater
      have hb := hbehind r hr i n c d hearlier hc hconn hn
      obtain ⟨-, hok, hack', hwindow'⟩ := hwire r hr i n c hearlier
      have hplace := Emission.report_place (e := e) hlater (moveOn s s' place)
      have hseg : (e.report (moveOn s s' place)).emission = e := rfl
      refine ⟨hb.sync, ?_, hplace ▸ hb.next, ?_⟩
      · rw [Report.edge, Report.edge, hplace, hseg, hwindow, hwindow',
          hok.toNat_window hc, (hwin i d hconn).toNat_window hb.sync]
        exact hb.edge
      · rw [hplace, hseg, hack, hack']
        exact hb.number
    refine pairwise_append.mpr ⟨pairwise_of_forall_mem_list ?_, h.order, ?_⟩
    · exact forall_mem_map.mpr fun e he y hy ↦ hnew e he y (mem_append_left _ hy)
    · exact forall_mem_map.mpr fun e he y hy ↦ hnew e he y (mem_append_right _ hy)

/-- **The law of every history.** -/
theorem History.tracked (h : History s place log) : Tracked s place log := by
  have hnone : ∀ {P : Report → Prop}, ∀ r ∈ ([]), P r := fun r hr ↦ by cases hr
  induction h with
  | init seed =>
    refine ⟨tcpInit_booked seed, ?_, rfl, hnone, hnone, hnone, Pairwise.nil, hnone⟩
    intro i c hc
    cases hc
  | step _ hp ih => exact ih.step hp

/-- A call goes on with the history. -/
theorem History.call {e : Event} (h : History s place log) (he : e.Allowed s)
    (hstep : Tcp.step env s e = some s') : ∃ place' log', History s' place' (log' ++ log) := by
  refine (step_steps h.tracked.booked he hstep).invariant
    (P := fun t ↦ ∃ place' log', History t place' (log' ++ log)) ⟨place, [], h⟩ ?_
  rintro t new t' ⟨place', log', ht⟩ hp
  have hnext := ht.step hp
  rw [← append_assoc] at hnext
  exact ⟨_, _, hnext⟩

theorem Reachable.exists_history (hs : Reachable s) : ∃ place log, History s place log := by
  induction hs with
  | init seed => exact ⟨_, _, .init seed⟩
  | step env e _ he hstep ih =>
    obtain ⟨place, log, h⟩ := ih
    obtain ⟨place', log', h'⟩ := h.call he hstep
    exact ⟨place', _, h'⟩

/-- **Advertised windows.** Every run has a history, and in every history of every run the segments
of a synchronised connection acknowledge its `recv_next`, advertise no more than its buffer has room
for, and never move the right edge back. Only resets come from no connection. -/
theorem advertised_window_law (hs : Reachable s) :
    (∃ place log, History s place log) ∧
      ∀ place log, History s place log →
        log.map (fun r ↦ r.emission.segment) = s.glob.txLog ∧
        (∀ r ∈ log, r.emission.sender = none →
          hasFlag r.emission.segment.flags tcpHdrFlagRst = true) ∧
        (∀ r ∈ log, ∀ i n c, r.emission.sender = some ⟨i, n, c⟩ → c.Synchronised →
          r.emission.segment.ackNum = c.recvNext ∧
            r.emission.segment.windowSize.toNat ≤ recvBufSpace c.recvBuf) ∧
        log.Pairwise Report.Follows := by
  refine ⟨hs.exists_history, fun place log h ↦ ?_⟩
  have ht := h.tracked
  refine ⟨ht.sent, ht.anonymous, ?_, ht.order⟩
  intro r hr i n c hsender hc
  obtain ⟨-, hok, hack, hwindow⟩ := ht.wire r hr i n c hsender
  rw [hwindow, hok.toNat_window hc]
  exact ⟨hack, hok.fits hc⟩

/-- The three segments of a client that has sent data: its SYN, the last acknowledgement of the
handshake, and the data. -/
theorem advertised_window_law_data : ∃ s place log, Reachable s ∧ History s place log ∧
    log.length = 3 ∧ log.Pairwise Report.Follows := by
  obtain ⟨s, hs, hp⟩ := exists_reachable_of_runCalls 0 clientData
    (fun s ↦ decide (s.glob.txLog.length = 3)) (by decide +kernel)
  obtain ⟨⟨place, log, h⟩, hlaw⟩ := advertised_window_law hs
  obtain ⟨hsent, -, -, horder⟩ := hlaw place log h
  refine ⟨s, place, log, hs, h, ?_, horder⟩
  rw [← of_decide_eq_true hp, ← hsent, length_map]

end

end Mazu.Tcp
