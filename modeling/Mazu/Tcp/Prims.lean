import Mazu.Tcp.Actions
import Mazu.Tcp.Slots

/-!
# Calls as sequences of primitive steps

A primitive step is an action on one connection, a transmission, the arrival of a connection in a
free slot or its release, or a change of the variables that belong to no connection. Every call is a
sequence of them, together with the segments it handed to the IP layer and the connections that sent
these. The sequence keeps the moments inside a call apart: what a segment said can be compared with
the connection as it was when the segment went out.
-/

namespace Mazu.Tcp

open Function

/-- The sender of a segment: its slot, how often the slot had been freed, and the connection right
after it had sent the segment. -/
structure Sender where
  slot : ConnIdx
  generation : ℕ
  conn : TcpConn

/-- A segment handed to the IP layer. The resets that refuse a segment come from no connection. -/
structure Emission where
  sender : Option Sender
  segment : TxSegment

/-- The stack after the connection `c` in slot `i` was taken out. -/
def releaseSlot (s : TcpStack) (i : ConnIdx) (c : TcpConn) (links : Links ConnIdx) : TcpStack :=
  { s with
    connTable := update s.connTable i none
    generation := update s.generation i (s.generation i + 1)
    acceptLinks := links
    hashTable := fun b ↦ (s.hashTable b).filter (· ≠ i)
    glob :=
      { s.glob with
        recvBufAvail :=
          if c.recvBuf.len = 0 then s.glob.recvBufAvail else s.glob.recvBufAvail + 1
        sbqAvail := s.glob.sbqAvail + c.sendQueue.length } }

/-- The globals after an allocation. -/
def allocHint (env : NetEnv) (g : Globals) : Globals :=
  tcpTimerHint g (env.now + tcpConnKeepaliveIdleMs)

theorem rst_rst : hasFlag tcpHdrFlagRst tcpHdrFlagRst = true := by decide

theorem rst_rstAck : hasFlag (tcpHdrFlagRst ||| tcpHdrFlagAck) tcpHdrFlagRst = true := by decide

theorem allocHint_eq (env : NetEnv) (g : Globals) :
    ∃ next, allocHint env g = { g with nextTimerMs := next } := tcpTimerHint_eq g _

/-- The connection an active open creates. -/
def tcpConnectFresh (env : NetEnv) (addr : Ipv4Addr) (port : U16) (remoteAddr : Ipv4Addr)
    (remotePort : U16) : TcpConn :=
  tcpConnectInit env (tcpConnInit env addr port tcpConnDefaultMss .synSent) remoteAddr remotePort

/-- The options a listener passes on lie in the ranges of their fields. -/
structure OptionsOk (lc : TcpConn) : Prop where
  mss : lc.mss ≤ 65535
  scale : lc.sendWindowScale.toNat ≤ 14

/-- A primitive step, with what it hands to the IP layer. -/
inductive Prim (env : NetEnv) : Phase → TcpStack → List Emission → TcpStack → Prop
  | act {p : Phase} {s : TcpStack} {i : ConnIdx} {c d : TcpConn} {g : Globals}
      (h : s.connTable i = some c) (ha : Act env p c s.glob d g) :
      Prim env p s [] { s.setConn i (some d) with glob := g }
  | send {p : Phase} {s : TcpStack} {i : ConnIdx} {c d : TcpConn} {g : Globals} {res : Result}
      {out : List TxSegment} {flags : U8} {seqNum : U32} {cksum : U16} {payload : List U8}
      (h : s.connTable i = some c)
      (hd : tcpSendSegmentNoqueue env c s.glob flags seqNum cksum payload = (res, d, g))
      (hout : g.txLog = out ++ s.glob.txLog) :
      Prim env p s (out.map fun seg ↦ ⟨some ⟨i, s.generation i, d⟩, seg⟩)
        { s.setConn i (some d) with glob := g }
  | free {p : Phase} {s : TcpStack} {i : ConnIdx} {c : TcpConn} (h : s.connTable i = some c)
      (links : Links ConnIdx) : Prim env p s [] (releaseSlot s i c links)
  | links {p : Phase} (s : TcpStack) (links : Links ConnIdx) :
      Prim env p s [] { s with acceptLinks := links }
  /-- The environment was asked for an address. -/
  | ask {p : Phase} (s : TcpStack) (tries : ℕ) :
      Prim env p s [] { s with glob := { s.glob with txTries := tries } }
  | port (s : TcpStack) : Prim env .call s [] (tcpAllocEphemeralPort s).2
  /-- A reset that answers a segment without a connection. -/
  | refuse {p : Phase} (s : TcpStack) (tries : ℕ) (out : List TxSegment)
      (hrst : ∀ seg ∈ out, hasFlag seg.flags tcpHdrFlagRst = true) :
      Prim env p s (out.map fun seg ↦ ⟨none, seg⟩) { s with
        glob := { s.glob with txTries := tries, txLog := out ++ s.glob.txLog } }
  | pmtu (s : TcpStack) (dest : Ipv4Addr) (newMtu : U16) :
      Prim env .call s [] (tcpPmtuUpdate s dest newMtu)
  | rebuild (s : TcpStack) : Prim env .timer s [] (tcpHeapRebuild s)
  | listen {s : TcpStack} {i : ConnIdx} (h : s.connTable i = none) (addr : Ipv4Addr) (port : U16)
      (links : Links ConnIdx) :
      Prim env .call s []
        { s.setConn i (some (tcpConnInit env addr port tcpConnDefaultMss .listen)) with
          acceptLinks := links, glob := allocHint env s.glob }
  /-- The answer of a listener to a SYN, before it is sent. -/
  | child {s : TcpStack} {i : ConnIdx} (h : s.connTable i = none) (lc : TcpConn) (l : ConnIdx)
      (peerAddr : Ipv4Addr) (seg : Segment) (links : Links ConnIdx) (hopts : OptionsOk lc)
      {d : TcpConn} {g : Globals}
      (hd : tcpConnSetInternalTimeout env (tcpListenFresh env lc l peerAddr seg)
        (allocHint env s.glob) = (d, g)) :
      Prim env .call s []
        { (tcpHashInsert s i (tcpListenFresh env lc l peerAddr seg)).setConn i (some d) with
          acceptLinks := links, glob := g }
  /-- An active open with its SYN in the send queue. -/
  | dial {s : TcpStack} {i : ConnIdx} (h : s.connTable i = none) (addr remoteAddr : Ipv4Addr)
      (port remotePort : U16) (links : Links ConnIdx) (hg : s.glob.sbqAvail ≠ 0) {d : TcpConn}
      {g : Globals}
      (hd : tcpQueueSegment env (tcpConnectFresh env addr port remoteAddr remotePort)
        (allocHint env s.glob) tcpHdrFlagSyn [] = (d, g)) :
      Prim env .call s []
        { (tcpHashInsert s i (tcpConnectFresh env addr port remoteAddr remotePort)).setConn i
            (some d) with
          acceptLinks := links, glob := g }
  /-- An active open that found no entry for its SYN, and its release. -/
  | spend {s : TcpStack} {i : ConnIdx} (h : s.connTable i = none) (links : Links ConnIdx) :
      Prim env .call s [] { s with
        generation := update s.generation i (s.generation i + 1)
        acceptLinks := links
        hashTable := fun b ↦ (s.hashTable b).filter (· ≠ i)
        glob := allocHint env s.glob }

/-- A sequence of primitive steps, with everything it handed to the IP layer, newest first. -/
inductive Prims (env : NetEnv) (p : Phase) (s : TcpStack) : List Emission → TcpStack → Prop
  | refl : Prims env p s [] s
  | tail {sent new : List Emission} {t u : TcpStack} (h : Prims env p s sent t)
      (hp : Prim env p t new u) : Prims env p s (new ++ sent) u

/-- The state changes by such a sequence. -/
def Steps (env : NetEnv) (p : Phase) (s s' : TcpStack) : Prop := ∃ sent, Prims env p s sent s'

section

variable {env : NetEnv} {p : Phase} {s t u : TcpStack} {i : ConnIdx} {c d : TcpConn} {g : Globals}

theorem Steps.refl (s : TcpStack) : Steps env p s s := ⟨[], .refl⟩

theorem Prims.trans {sent sent' : List Emission} (h : Prims env p s sent t)
    (h' : Prims env p t sent' u) : Prims env p s (sent' ++ sent) u := by
  induction h' with
  | refl => exact h
  | tail _ hp ih =>
    rw [List.append_assoc]
    exact ih.tail hp

theorem Steps.trans (h : Steps env p s t) (h' : Steps env p t u) : Steps env p s u := by
  obtain ⟨sent, h⟩ := h
  obtain ⟨sent', h'⟩ := h'
  exact ⟨_, h.trans h'⟩

theorem Prim.steps {new : List Emission} (h : Prim env p s new t) : Steps env p s t :=
  ⟨_, Prims.refl.tail h⟩

/-- **The invariant rule for primitive steps.** -/
theorem Steps.invariant {P : TcpStack → Prop} (h : Steps env p s t) (hs : P s)
    (hprim : ∀ {s new s'}, P s → Prim env p s new s' → P s') : P t := by
  obtain ⟨sent, h⟩ := h
  induction h with
  | refl => exact hs
  | tail _ hp ih => exact hprim ih hp

/-! ## Parts of calls -/

theorem setConn_self (h : s.connTable i = some c) (hg : g = s.glob) :
    { s.setConn i (some c) with glob := g } = s := by
  rw [TcpStack.setConn, ← h, update_eq_self, hg]

/-- What is done to the connection of a slot, as steps of the stack. -/
theorem Does.steps (h : s.connTable i = some c) (hd : Does env p c s.glob d g) :
    Steps env p s { s.setConn i (some d) with glob := g } := by
  obtain ⟨sent, hacts⟩ := hd
  -- the slot is written over
  have heq : ∀ d d' g₁ g₂, { TcpStack.setConn { s.setConn i (some d) with glob := g₁ } i
      (some d') with glob := g₂ } = { s.setConn i (some d') with glob := g₂ } := by
    simp only [TcpStack.setConn, update_idem, implies_true]
  induction hacts with
  | refl =>
    rw [setConn_self h rfl]
    exact Steps.refl s
  | @act _ d d' g₁ g₂ _ ha ih =>
    have hstep : Prim env p { s.setConn i (some d) with glob := g₁ } [] _ :=
      .act (setConn_connTable_self s i (some d)) ha
    exact ih.trans (heq d d' g₁ g₂ ▸ hstep.steps)
  | @send _ d d' g₁ g₂ res out _ flags seqNum cksum payload hd hout ih =>
    have hstep : Prim env p { s.setConn i (some d) with glob := g₁ } _ _ :=
      .send (setConn_connTable_self s i (some d)) hd hout
    exact ih.trans (heq d d' g₁ g₂ ▸ hstep.steps)

/-- The same after other steps, up to the way the end is written. -/
theorem Steps.thenDoes (h : Steps env p s t) (hc : t.connTable i = some c) {g₀ : Globals}
    (hg : t.glob = g₀) (hd : Does env p c g₀ d g)
    (hu : u = { t.setConn i (some d) with glob := g }) : Steps env p s u := by
  subst hg hu
  exact h.trans (hd.steps hc)

theorem modifyAcceptReady_steps (s : TcpStack) (l : ConnIdx) (f : U32 → U32) :
    Steps env p s (modifyAcceptReady s l f) := by
  rw [modifyAcceptReady]
  cases h : s.connTable l with
  | none => exact Steps.refl s
  | some lc => exact Does.steps h (Act.ready lc s.glob _).does


theorem tcpFreeConn_steps (s : TcpStack) (i : ConnIdx) : Steps env p s (tcpFreeConn s i) := by
  rw [tcpFreeConn]
  cases h : s.connTable i with
  | none => exact Steps.refl s
  | some c =>
    have hdrop : Steps env p s (dropAcceptReady s i c) :=
      dropAcceptReady_induct (Steps.refl s) (modifyAcceptReady_steps s)
    -- the count of ready connections is all that may have changed in the slot
    obtain ⟨f, hf⟩ := dropAcceptReady_sameSlot s i i c
    rw [h] at hf
    exact hdrop.trans (Prim.free hf _).steps

/-- Unlinking a connection without a listener before its release makes no difference. -/
theorem unlinkFree_eq (h : s.connTable i = some c) (hl : c.listener = none) :
    tcpFreeConn (tcpHashRemove s i) i = releaseSlot s i c (s.acceptLinks.delInit i) := by
  have hc : (tcpHashRemove s i).connTable i = some c := h
  simp only [tcpFreeConn, hc, dropAcceptReady, hl]
  simp only [releaseSlot, tcpHashRemove, List.filter_filter, Bool.and_self]

theorem settle_steps {o : Outcome} (h : s.connTable i = some c)
    (hd : Does env p c s.glob o.conn o.glob) : Steps env p s (settle s i o) :=
  settle_induct (hd.steps h) (fun t l f ht ↦ ht.trans (modifyAcceptReady_steps t l f))
    fun _ t ht ↦ ht.trans (tcpFreeConn_steps t i)

theorem reset_steps (h : s.connTable i = some c) (hst : c.state = .synSent) :
    Steps env p s (s.setConn i (some { c with state := .reset })) :=
  Does.steps h (Act.reset c s.glob (.inl hst)).does

theorem steps_purgeClosed (env : NetEnv) : PurgeClosed (Steps env p) where
  refl := Steps.refl
  trans := Steps.trans
  expire _ _ := tcpFreeConn_steps _ _
  giveUp := reset_steps

/-! ## The calls -/

theorem tcpListenAccept_steps (env : NetEnv) (s : TcpStack) (l : ConnIdx) (lc : TcpConn)
    (peerAddr : Ipv4Addr) (seg : Segment) (tsopt : TsOpt) (hopts : OptionsOk lc) :
    Steps env .call s (tcpListenAccept env s l lc peerAddr seg tsopt).2 := by
  generalize hp : tcpPurgeOldConn env s = purged
  have hpurge : Steps env .call s purged := hp ▸ (steps_purgeClosed env).purge env s
  rcases tcpListenAccept_cases env s l lc peerAddr seg tsopt hp
    with heq | ⟨i, d, g, hfree, hreply, heq⟩
  · rw [heq]
    exact hpurge
  · have hchild : Prim env .call purged [] _ :=
      .child hfree lc l peerAddr seg ((purged.acceptLinks.init i).add l i) hopts rfl
    have hdoes := tcpListenReply_does env (tcpListenFresh env lc l peerAddr seg)
      (allocHint env purged.glob) tsopt rfl rfl
    rw [allocHint, hreply] at hdoes
    rw [heq]
    refine (hpurge.trans hchild.steps).thenDoes (setConn_connTable_self _ _ _) rfl hdoes ?_
    simp only [TcpStack.setConn, update_idem]

/-- A connection with an empty queue and no buffer, put in a free slot and taken out again. -/
theorem spendSlot_eq (hfree : s.connTable i = none) (hbuf : c.recvBuf.len = 0)
    (hqueue : c.sendQueue = []) (x : Option TcpConn) (links links' : Links ConnIdx) :
    releaseSlot { (tcpHashInsert { s.setConn i x with acceptLinks := links, glob := g } i c).setConn i
        (some c) with glob := g } i c links' =
      { s with
        generation := update s.generation i (s.generation i + 1)
        acceptLinks := links'
        hashTable := fun b ↦ (s.hashTable b).filter (· ≠ i)
        glob := g } := by
  have htable : update s.connTable i none = s.connTable := by
    rw [← hfree, update_eq_self]
  have hhash : ∀ b₀, (fun b ↦ (update s.hashTable b₀ (i :: s.hashTable b₀) b).filter
      (· ≠ i)) = fun b ↦ (s.hashTable b).filter (· ≠ i) := by
    intro b₀
    funext b
    by_cases hb : b = b₀
    · rw [hb, update_self, List.filter_cons_of_neg (by simp)]
    · rw [update_of_ne hb]
  simp only [releaseSlot, tcpHashInsert, TcpStack.setConn, update_idem, htable, hhash, hbuf,
    hqueue, if_pos, List.length_nil, Nat.add_zero]

/-- An active open, from the table with the free slot to the end. -/
theorem tcpConnectStart_steps (env : NetEnv) (hfree : s.connTable i = none)
    (addr remoteAddr : Ipv4Addr) (port remotePort : U16) (links : Links ConnIdx) :
    Steps env .call s (tcpConnectStart env
      { s.setConn i (some (tcpConnInit env addr port tcpConnDefaultMss .synSent)) with
        acceptLinks := links, glob := allocHint env s.glob } i
      (tcpConnInit env addr port tcpConnDefaultMss .synSent) remoteAddr remotePort).2 := by
  have hsbq : (allocHint env s.glob).sbqAvail = s.glob.sbqAvail := tcpTimerHint_sbqAvail s.glob _
  by_cases hg : s.glob.sbqAvail = 0
  · -- no entry is left for the SYN, so the slot is taken and given back
    have hsend : tcpSendSegmentEmpty env (tcpConnectFresh env addr port remoteAddr remotePort)
        (allocHint env s.glob) tcpHdrFlagSyn = (.error enomem,
          tcpConnectFresh env addr port remoteAddr remotePort, allocHint env s.glob) := by
      rw [tcpSendSegmentEmpty, tcpSendSegment, if_pos (hsbq.trans hg)]
    obtain ⟨w, hw⟩ : ∃ w, w = _ := ⟨_, rfl⟩
    rw [tcpConnectStart_state rfl hsend hw]
    have hc : w.connTable i = some (tcpConnectFresh env addr port remoteAddr remotePort) := by
      rw [hw]
      exact setConn_connTable_self _ _ _
    have hspent : tcpFreeConn (tcpHashRemove w i) i = _ :=
      (unlinkFree_eq hc rfl).trans (hw ▸ spendSlot_eq hfree rfl rfl _ _ _)
    exact hspent.symm ▸ (Prim.spend hfree _).steps
  · -- the SYN is queued and sent, and the connection is freed if the transmission failed
    have hsend : tcpSendSegmentEmpty env (tcpConnectFresh env addr port remoteAddr remotePort)
        (allocHint env s.glob) tcpHdrFlagSyn = _ := tcpSendSegment_eq (by rwa [hsbq]) _ _
    have hlistener : (tcpQueueSegment env (tcpConnectFresh env addr port remoteAddr remotePort)
      (allocHint env s.glob) tcpHdrFlagSyn []).1.listener = none := rfl
    rcases hq : tcpQueueSegment env (tcpConnectFresh env addr port remoteAddr remotePort)
      (allocHint env s.glob) tcpHdrFlagSyn [] with ⟨c, g₀⟩
    have hdial := (Prim.dial hfree addr remoteAddr port remotePort links hg hq).steps
    rw [hq] at hsend hlistener
    have hsyn := noqueue_handed env c g₀ tcpHdrFlagSyn
      (tcpConnectFresh env addr port remoteAddr remotePort).sendNext
      (Net.internetChecksumIterate 0 []) []
    rcases hsent : tcpSendSegmentEmpty env (tcpConnectFresh env addr port remoteAddr remotePort)
      (allocHint env s.glob) tcpHdrFlagSyn with ⟨res, d, g⟩
    rw [← hsend, hsent] at hsyn
    obtain ⟨window, ackSent, hconn⟩ := hsyn.conn
    obtain ⟨w, hw⟩ : ∃ w, w = _ := ⟨_, rfl⟩
    rw [tcpConnectStart_state rfl hsent hw]
    have hsteps : Steps env .call s w := by
      refine hdial.thenDoes (setConn_connTable_self _ _ _) rfl (hsyn.does _) ?_
      rw [hw]
      simp only [TcpStack.setConn, tcpHashInsert, update_idem]
      rfl
    cases res with
    | ok u => exact hsteps
    | error e =>
      refine hsteps.trans ?_
      have hc : w.connTable i = some d := by
        rw [hw]
        exact setConn_connTable_self _ _ _
      have hl : d.listener = none := (congrArg TcpConn.listener hconn).trans hlistener
      exact unlinkFree_eq hc hl ▸ (Prim.free hc _).steps

theorem steps_pollClosed (env : NetEnv) : PollClosed env (Steps env .timer) where
  toPurgeClosed := steps_purgeClosed env
  rebuild s := (Prim.rebuild s).steps
  serve hc hst := settle_steps hc (tcpPollRetransmitConn_does env _ _ hst)

/-- A reset without a connection. -/
theorem raw_steps (env : NetEnv) (s : TcpStack) (hostAddr peerAddr : Ipv4Addr)
    (hostPort peerPort : U16) (seqNum ackNum : U32) {flags : U8}
    (hflags : hasFlag flags tcpHdrFlagRst = true) :
    Steps env .call s { s with
      glob := (tcpSendSegmentNoqueueRaw env s.glob hostAddr peerAddr hostPort peerPort seqNum ackNum
        0 0 false flags 0 [] 0 false).2 } := by
  simp only [tcpSendSegmentNoqueueRaw]
  cases env.routeAddr s.glob.txTries with
  | error e => exact (Prim.refuse s _ [] (fun _ h ↦ by cases h)).steps
  | ok iface =>
    refine (Prim.refuse s _ [_] fun seg hseg ↦ ?_).steps
    rw [List.mem_singleton.mp hseg]
    dsimp only
    split_ifs
    · exact hflags
    · exact rst_rstAck

theorem tcpRefuseUnknown_steps (env : NetEnv) (s : TcpStack) (hostAddr peerAddr : Ipv4Addr)
    (seg : Segment) : Steps env .call s (tcpRefuseUnknown env s hostAddr peerAddr seg).2 := by
  simp only [tcpRefuseUnknown]
  split_ifs
  · exact raw_steps env s _ _ _ _ _ _ rst_rst
  · exact raw_steps env s _ _ _ _ _ _ rst_rstAck

theorem tcpHandleReceiveListen_steps (env : NetEnv) (s : TcpStack) (l : ConnIdx) (lc : TcpConn)
    (peerAddr : Ipv4Addr) (seg : Segment) (tsopt : TsOpt) (hopts : OptionsOk lc) :
    Steps env .call s (tcpHandleReceiveListen env s l lc peerAddr seg tsopt).2 := by
  unfold tcpHandleReceiveListen
  split_ifs
  · exact Steps.refl s
  · exact Steps.refl s
  · exact Steps.refl s
  · refine raw_steps env s _ _ _ _ _ _ ?_
    split_ifs
    · exact rst_rst
    · exact rst_rstAck
  · exact tcpListenAccept_steps env s l lc peerAddr seg tsopt hopts

end

end Mazu.Tcp
