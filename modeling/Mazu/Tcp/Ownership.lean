import Mazu.Tcp.Endpoints
import Mazu.Tcp.Transition

/-!
# Connections the user owns

A connection is freed by its user, or by the stack on account of a state that the user has no access
to. Four places of the stack free connections, each on a test of its own: the purge before an
allocation, the expiry of an internal timeout, the retransmission limit, and the handlers of
arriving segments. `Spared` says what a call leaves of a slot whose connection the stack may not
free; `step_spared` says that every call but the close of that slot leaves it so.
-/

namespace Mazu.Tcp

open Function List

/-! ## What the stack may not free -/

/-- The user holds the connection, or it is a listener. A listener sends nothing. -/
def TcpConn.Kept (c : TcpConn) : Prop :=
  tcpConnNeedsUserClose c = true ∨ c.state = .listen ∧ c.sendQueue = []

/-- The two tests of the source exclude each other. -/
theorem not_internal_of_needsUserClose {c : TcpConn} (h : tcpConnNeedsUserClose c = true) :
    tcpConnIsInternal c = false := by
  simp only [tcpConnNeedsUserClose, Bool.or_eq_true, beq_iff_eq] at h
  rw [tcpConnIsInternal]
  rcases h with ((h | h) | h) | h <;> rw [h] <;> rfl

theorem TcpConn.Kept.not_internal {c : TcpConn} (h : c.Kept) : tcpConnIsInternal c = false := by
  rcases h with h | ⟨h, -⟩
  · exact not_internal_of_needsUserClose h
  · rw [tcpConnIsInternal, h]
    rfl

/-- It is a matter of the state and the send queue. -/
theorem TcpConn.Kept.congr {c d : TcpConn} (h : c.Kept) (hst : d.state = c.state)
    (hq : d.sendQueue = c.sendQueue) : d.Kept := by
  rw [Kept, tcpConnNeedsUserClose] at h ⊢
  rwa [hst, hq]

theorem kept_reset {c : TcpConn} (h : c.state = .reset) : c.Kept := by
  refine .inl ?_
  rw [tcpConnNeedsUserClose, h]
  rfl

/-- A slot that holds such a connection is not freed and holds one still. -/
def Spared (i : ConnIdx) (s s' : TcpStack) : Prop :=
  ∀ c, s.connTable i = some c → c.Kept →
    s'.generation i = s.generation i ∧ ∃ d, s'.connTable i = some d ∧ d.Kept

section

variable {env : NetEnv} {s s' s'' : TcpStack} {i j : ConnIdx} {c : TcpConn} {o : Outcome}

theorem Spared.refl (i : ConnIdx) (s : TcpStack) : Spared i s s :=
  fun c hc hkept ↦ ⟨rfl, c, hc, hkept⟩

theorem Spared.trans (h : Spared i s s') (h' : Spared i s' s'') : Spared i s s'' := by
  intro c hc hkept
  obtain ⟨hgen, d, hd, hkept'⟩ := h c hc hkept
  obtain ⟨hgen', e, he, hkept''⟩ := h' d hd hkept'
  exact ⟨hgen'.trans hgen, e, he, hkept''⟩

theorem Spared.of_eq (hc : s'.connTable = s.connTable) (hg : s'.generation = s.generation) :
    Spared i s s' := by
  intro c hi hkept
  rw [hc, hg]
  exact ⟨rfl, c, hi, hkept⟩

theorem Spared.of_sameSlot (h : SameSlot (s.connTable i) (s'.connTable i))
    (hg : s'.generation i = s.generation i) : Spared i s s' := by
  obtain ⟨f, hf⟩ := h
  intro c hc hkept
  rw [hc] at hf
  exact ⟨hg, _, hf, hkept⟩

/-! ## Writing and freeing slots -/

theorem setConn_spared {d : TcpConn} (hc : s.connTable j = some c) (h : c.Kept → d.Kept) :
    Spared i s (s.setConn j (some d)) := by
  intro x hx hkept
  refine ⟨rfl, ?_⟩
  by_cases hij : i = j
  · rw [hij, hc] at hx
    cases hx
    rw [hij, setConn_connTable_self]
    exact ⟨d, rfl, h hkept⟩
  · rw [setConn_connTable_of_ne s _ hij]
    exact ⟨x, hx, hkept⟩

/-- A slot that is free has nothing to lose. -/
theorem Spared.of_free (hfree : s.connTable j = none) (h : i ≠ j → Spared i s s') :
    Spared i s s' := by
  by_cases hij : i = j
  · intro c hc _
    rw [hij, hfree] at hc
    cases hc
  · exact h hij

theorem Spared.of_update {x : Option TcpConn} (hij : i ≠ j)
    (hc : s'.connTable = update s.connTable j x) (hg : s'.generation = s.generation) :
    Spared i s s' := by
  refine Spared.of_sameSlot ?_ (congrFun hg i)
  rw [hc, update_of_ne hij]
  exact SameSlot.refl _

theorem modifyAcceptReady_generation (s : TcpStack) (l : ConnIdx) (f : U32 → U32) :
    (modifyAcceptReady s l f).generation = s.generation := by
  rw [modifyAcceptReady]
  split <;> rfl

theorem modifyAcceptReady_spared (s : TcpStack) (l : ConnIdx) (f : U32 → U32) :
    Spared i s (modifyAcceptReady s l f) :=
  Spared.of_sameSlot (modifyAcceptReady_sameSlot s l i f)
    (congrFun (modifyAcceptReady_generation s l f) i)

theorem dropAcceptReady_generation (s : TcpStack) (i : ConnIdx) (c : TcpConn) :
    (dropAcceptReady s i c).generation = s.generation :=
  dropAcceptReady_induct (P := fun t ↦ t.generation = s.generation) rfl
    (modifyAcceptReady_generation s)

theorem tcpFreeConn_generation_of_ne (s : TcpStack) (hij : i ≠ j) :
    (tcpFreeConn s j).generation i = s.generation i := by
  rw [tcpFreeConn]
  cases h : s.connTable j with
  | none => rfl
  | some c =>
    refine (update_of_ne hij _ _).trans ?_
    exact congrFun (dropAcceptReady_generation s j c) i

theorem tcpFreeConn_spared (s : TcpStack) (hij : i ≠ j) : Spared i s (tcpFreeConn s j) :=
  Spared.of_sameSlot (tcpFreeConn_sameSlot s hij) (tcpFreeConn_generation_of_ne s hij)


theorem settle_spared_of_ne (s : TcpStack) (o : Outcome) (hij : i ≠ j) :
    Spared i s (settle s j o) :=
  settle_induct (Spared.of_update hij rfl rfl)
    (fun t l f ht ↦ ht.trans (modifyAcceptReady_spared t l f))
    fun _ t ht ↦ ht.trans (tcpFreeConn_spared t hij)

/-- The caller of a routine that does not free such a connection, and leaves it so. -/
theorem settle_spared (hc : s.connTable j = some c)
    (h : c.Kept → o.freed = false ∧ o.conn.Kept) : Spared i s (settle s j o) := by
  intro x hx hkept
  refine settle_induct (P := Spared i s) ?_
    (fun t l f ht ↦ ht.trans (modifyAcceptReady_spared t l f)) (fun hf t ht ↦ ?_) x hx hkept
  · exact (setConn_spared hc fun hk ↦ (h hk).2).trans (Spared.of_eq rfl rfl)
  · refine ht.trans (tcpFreeConn_spared t fun hij ↦ ?_)
    rw [hij, hc] at hx
    cases hx
    exact Bool.false_ne_true ((h hkept).1.symm.trans hf)

/-! ## The purge and the allocation -/

theorem spared_purgeClosed : PurgeClosed (Spared i) where
  refl := Spared.refl i
  trans := Spared.trans
  expire := by
    intro s j c hc hint
    by_cases hij : i = j
    · intro x hx hkept
      rw [hij, hc] at hx
      cases hx
      rw [hkept.not_internal] at hint
      exact absurd hint Bool.false_ne_true
    · exact tcpFreeConn_spared s hij
  giveUp hc _ := setConn_spared hc fun _ ↦ kept_reset rfl

/-! ## The routines on one connection -/

theorem tcpSendSegment_state (env : NetEnv) (c : TcpConn) (g : Globals) (flags : U8)
    (fragment : List U8) : (tcpSendSegment env c g flags fragment).2.1.state = c.state := by
  rcases tcpSendSegment_conn env c g flags fragment with heq | ⟨window, ackSent, heq⟩ <;> rw [heq]

theorem tcpConnSendLoop_state (env : NetEnv) (len fuel : ℕ) (c : TcpConn) (g : Globals)
    (rest : List U8) (nSent : ℕ) :
    (tcpConnSendLoop env len fuel c g rest nSent).2.1.state = c.state := by
  fun_induction tcpConnSendLoop env len fuel c g rest nSent with
  | case4 fuel c g rest nSent _ _ fragment e c' g' hs =>
    exact (congrArg (·.2.1.state) hs).symm.trans (tcpSendSegment_state env c g _ fragment)
  | case5 fuel c g rest nSent _ _ fragment u c' g' hs ih =>
    refine ih.trans ?_
    exact (congrArg (·.2.1.state) hs).symm.trans (tcpSendSegment_state env c g _ fragment)
  | _ => rfl

theorem tcpConnSendLocked_state (env : NetEnv) (c : TcpConn) (g : Globals) (payload : List U8)
    (ipMtu : ℕ) : (tcpConnSendLocked env c g payload ipMtu).2.1.state = c.state := by
  simp only [tcpConnSendLocked]
  split_ifs
  · rfl
  · exact tcpConnSendLoop_state env _ _ c g payload 0

/-- What a routine may do with a connection of the user. -/
def Outcome.Spares (o : Outcome) : Prop :=
  o.freed = false ∧ tcpConnNeedsUserClose o.conn = true

theorem needsUserClose_congr {d : TcpConn} (h : tcpConnNeedsUserClose c = true)
    (hst : d.state = c.state) : tcpConnNeedsUserClose d = true := by
  rw [tcpConnNeedsUserClose] at h ⊢
  rwa [hst]

/-- The retransmission limit frees internal connections and resets the others. -/
theorem Retransmits.spares {env : NetEnv} {g : Globals} {q : List SendBufQueue} {o : Outcome}
    (hw : Retransmits env c g q o) (h : tcpConnNeedsUserClose c = true) : o.Spares := by
  induction hw with
  | done | wait => exact ⟨rfl, needsUserClose_congr h rfl⟩
  | giveUp _ _ hsent =>
    obtain ⟨⟨window, ackSent, rfl⟩, -, -⟩ := hsent
    exact ⟨rfl, rfl⟩
  | free _ hu => exact absurd h hu
  | acked _ _ _ ih => exact ih
  | failed _ _ e hsent =>
    obtain ⟨⟨window, ackSent, rfl⟩, -, -⟩ := hsent
    exact ⟨rfl, needsUserClose_congr h rfl⟩
  | resent _ _ hsent hx =>
    obtain ⟨⟨window, ackSent, rfl⟩, -, -⟩ := hsent
    rcases hx with rfl | rfl <;> exact ⟨rfl, needsUserClose_congr h rfl⟩

theorem tcpPollRetransmitConn_spares (env : NetEnv) (g : Globals)
    (h : tcpConnNeedsUserClose c = true) : (tcpPollRetransmitConn env c g).Spares := by
  have hserved := tcpPollRetransmitConn_served env c g
  generalize tcpPollRetransmitConn env c g = o at hserved ⊢
  cases hserved with
  | dead => exact ⟨rfl, rfl⟩
  | failed e hp => exact ⟨rfl, needsUserClose_congr h hp.state⟩
  | walk hp =>
    have hwalk := tcpPollRetransmitQueue_retransmits env
    exact (hwalk _ _ _).spares (needsUserClose_congr h hp.state)

/-- Serving a listener does nothing: its queue is empty. -/
theorem tcpPollRetransmitConn_kept (env : NetEnv) (g : Globals) (h : c.Kept) :
    (tcpPollRetransmitConn env c g).freed = false ∧ (tcpPollRetransmitConn env c g).conn.Kept := by
  rcases h with h | ⟨hst, hq⟩
  · have hspares := tcpPollRetransmitConn_spares env g h
    exact ⟨hspares.1, .inl hspares.2⟩
  · have hserve : tcpPollRetransmitConn env c g =
        { res := resultOk, conn := { c with sendQueue := [] }, glob := g } := by
      have hest : ¬c.state = .established := by
        rw [hst]
        exact nofun
      rw [tcpPollRetransmitConn, if_neg (fun hk ↦ hest hk.1), tcpPollPersist,
        if_neg (fun hp ↦ hest hp.1), hq, tcpPollRetransmitQueue]
    rw [hserve]
    exact ⟨rfl, .inr ⟨hst, rfl⟩⟩

theorem reply_spares (env : NetEnv) (g : Globals) (flags : U8)
    (h : tcpConnNeedsUserClose c = true) : (replyEmpty env c g flags).Spares :=
  ⟨rfl, needsUserClose_congr h (reply_state env c g flags)⟩

theorem handleSynSent_spares (env : NetEnv) (g : Globals) (seg : Segment) (tsopt : TsOpt)
    (h : tcpConnNeedsUserClose c = true) : (tcpHandleReceiveSynSent env c g seg tsopt).Spares := by
  rw [tcpHandleReceiveSynSent]
  split_ifs
  · exact ⟨rfl, rfl⟩
  · exact ⟨rfl, h⟩
  · exact reply_spares env g _ h
  · dsimp only
    rw [tcpSynSentOpen]
    split_ifs
    · exact ⟨rfl, rfl⟩
    · exact reply_spares env _ _ rfl

/-- The arrows out of the states in which the user holds a synchronised connection. -/
theorem transition_user {st : TcpConnState} (seg : Segment)
    (h : st = .established ∨ st = .closeWait ∨ st = .reset) : ∃ st', transition st seg = some st' ∧
      (st' = .established ∨ st' = .closeWait ∨ st' = .reset) := by
  rcases h with rfl | rfl | rfl
  · rw [transition]
    split_ifs
    · exact ⟨_, rfl, .inr (.inr rfl)⟩
    · exact ⟨_, rfl, .inr (.inl rfl)⟩
    · exact ⟨_, rfl, .inl rfl⟩
  · exact ⟨_, rfl, .inr (.inl rfl)⟩
  · exact ⟨_, rfl, .inr (.inr rfl)⟩

theorem synchronized_user {st : TcpConnState}
    (h : st = .established ∨ st = .closeWait ∨ st = .reset) : st.Synchronized := by
  rcases h with rfl | rfl | rfl <;> decide

/-- **No segment frees a connection of the user.** -/
theorem tcpDispatch_spares (env : NetEnv) (g : Globals) (seg : Segment) (tsopt : TsOpt)
    (h : tcpConnNeedsUserClose c = true) : (tcpDispatch env c g seg tsopt).Spares := by
  have hkind := h
  simp only [tcpConnNeedsUserClose, Bool.or_eq_true, beq_iff_eq, or_assoc] at hkind
  rcases hkind with hst | hst
  · rw [tcpDispatch, hst]
    exact handleSynSent_spares env g seg tsopt h
  · have hfol := tcpDispatch_follows env c g seg tsopt (synchronized_user hst)
    obtain ⟨st', htrans, hst'⟩ := transition_user seg hst
    refine ⟨by rw [hfol.freed, htrans]; rfl, ?_⟩
    rw [tcpConnNeedsUserClose, hfol.state st' htrans]
    rcases hst' with rfl | rfl | rfl <;> rfl

/-! ## The calls -/

theorem tcpConnectStart_spared (env : NetEnv) (s : TcpStack) (c : TcpConn) (remoteAddr : Ipv4Addr)
    (remotePort : U16) (hij : i ≠ j) :
    Spared i s (tcpConnectStart env s j c remoteAddr remotePort).2 := by
  unfold tcpConnectStart
  dsimp only
  split
  · refine Spared.trans ?_ (tcpFreeConn_spared _ hij)
    exact Spared.of_update hij rfl rfl
  · exact Spared.of_update hij rfl rfl

theorem tcpPmtuUpdate_spared (s : TcpStack) (dest : Ipv4Addr) (newMtu : U16) :
    Spared i s (tcpPmtuUpdate s dest newMtu) := by
  intro c hc hkept
  refine ⟨rfl, if c.peerAddr = dest ∧ c.mss > pmtuMss newMtu then
    { c with mss := pmtuMss newMtu } else c, ?_, ?_⟩
  · simp only [tcpPmtuUpdate, hc, Option.map_some]
  · split_ifs
    · exact hkept.congr rfl rfl
    · exact hkept

theorem tcpListenAccept_spared (env : NetEnv) (s : TcpStack) (l : ConnIdx) (lc : TcpConn)
    (peerAddr : Ipv4Addr) (seg : Segment) (tsopt : TsOpt) :
    Spared i s (tcpListenAccept env s l lc peerAddr seg tsopt).2 := by
  have hpurge := (spared_purgeClosed (i := i)).purge env s
  rcases tcpListenAccept_cases env s l lc peerAddr seg tsopt rfl
    with heq | ⟨j, d, g, hfree, -, heq⟩
  · rw [heq]
    exact hpurge
  · rw [heq]
    exact hpurge.trans (Spared.of_free hfree fun hij ↦ Spared.of_update hij rfl rfl)

theorem tcpHandleReceiveListen_spared (env : NetEnv) (s : TcpStack) (l : ConnIdx) (lc : TcpConn)
    (peerAddr : Ipv4Addr) (seg : Segment) (tsopt : TsOpt) :
    Spared i s (tcpHandleReceiveListen env s l lc peerAddr seg tsopt).2 := by
  unfold tcpHandleReceiveListen
  split_ifs
  · exact Spared.refl i s
  · exact Spared.refl i s
  · exact Spared.refl i s
  · exact Spared.of_eq rfl rfl
  · exact tcpListenAccept_spared env s l lc peerAddr seg tsopt

theorem spared_pollClosed (env : NetEnv) : PollClosed env (Spared i) where
  toPurgeClosed := spared_purgeClosed
  rebuild _ := Spared.of_eq rfl rfl
  serve hc _ := settle_spared hc (tcpPollRetransmitConn_kept env _)

/-- **Only its close frees a connection of the user or a listener.** -/
theorem step_spared {e : Event} (he : e.Allowed s) (hclose : e ≠ .close i)
    (h : step env s e = some s') : Spared i s s' := by
  have hport : Spared i s (tcpAllocEphemeralPort (asked s)).2 := Spared.of_eq rfl rfl
  have hcalled := step_called h
  clear h
  cases hcalled with
  | idle => exact Spared.refl i s
  | purged => exact spared_purgeClosed.purge env s
  | listen addr port hp hfree =>
    exact (hp ▸ spared_purgeClosed.purge env s).trans
      (Spared.of_free hfree fun hij ↦ Spared.of_update hij rfl rfl)
  | connect hconn =>
    cases hconn with
    | unrouted => exact Spared.of_eq rfl rfl
    | noPort => exact hport
    | full => exact hport.trans (spared_purgeClosed.purge env _)
    | start addr _ hp hfree =>
      have hpurge := hport.trans (spared_purgeClosed.purge env _)
      rw [hp] at hpurge
      refine hpurge.trans (Spared.of_free hfree fun hij ↦ ?_)
      refine Spared.trans ?_ (tcpConnectStart_spared env _ _ _ _ hij)
      exact Spared.of_update hij rfl rfl
  | accept l =>
    refine Spared.trans ?_ (modifyAcceptReady_spared _ l _)
    exact Spared.of_eq rfl rfl
  | @send j c payload n hc =>
    have huser : tcpConnNeedsUserClose c = true := by
      simpa [TcpStack.userHolds, hc] using he.1
    refine Spared.trans (setConn_spared hc fun _ ↦ .inl ?_) (Spared.of_eq rfl rfl)
    exact needsUserClose_congr huser (tcpConnSendLocked_state env c s.glob payload n)
  | recv buf hc => exact setConn_spared hc fun hkept ↦ hkept.congr rfl rfl
  | close hc => exact settle_spared_of_ne s _ fun hij ↦ hclose (congrArg Event.close hij.symm)
  | pmtu dest newMtu => exact tcpPmtuUpdate_spared s dest newMtu
  | poll hr => exact (spared_pollClosed env).poll hr
  | refuse hostAddr peerAddr seg =>
    simp only [tcpRefuseUnknown]
    split_ifs <;> exact Spared.of_eq rfl rfl
  | @knock _ peerAddr seg l lc hlook hc hst =>
    refine Spared.trans ?_ (tcpHandleReceiveListen_spared env _ l _ peerAddr seg _)
    obtain ⟨mss, scale, use, heq⟩ := tcpConnParse_eq env lc seg
    rw [heq]
    exact setConn_spared hc fun hkept ↦ hkept.congr rfl rfl
  | @segment _ _ seg j c hlook hc hst =>
    refine settle_spared hc fun hkept ↦ ?_
    -- the connection is no listener, so the user holds it
    have huser : tcpConnNeedsUserClose c = true := hkept.resolve_right fun hk ↦ hst hk.1
    have hspares := tcpDispatch_spares env s.glob seg (tcpConnParse env c seg).2
      (needsUserClose_congr huser (tcpConnParse_state env c seg))
    exact ⟨hspares.1, .inl hspares.2⟩

end

/-! ## Connections in the hands of the user -/

/-- What the user holds, each slot with the generation at which it was handed out. -/
abbrev Holding := ConnIdx → Option ℕ

/-- The connection a call hands out. A listener handed out is none. -/
def Event.hands (env : NetEnv) (s : TcpStack) : Event → Option ConnIdx
  | .connect remoteAddr remotePort => (tcpConnConnect env s remoteAddr remotePort).1
  | .accept l => (tcpConnAccept s l).1
  | _ => none

/-- The connection a call gives back. -/
def Event.closes : Event → Option ConnIdx
  | .close i => some i
  | _ => none

/-- What the user holds after a call that leads to `s'`. A connection held before stays recorded with
the generation it was handed out at, whatever the call hands out. -/
def Holding.after (H : Holding) (env : NetEnv) (s : TcpStack) (e : Event) (s' : TcpStack) :
    Holding := fun i ↦
  if e.closes = some i then none
  else (H i).or (if e.hands env s = some i then some (s'.generation i) else none)

/-- A run from power-on, with what the user holds at its end. -/
inductive HeldRun : Holding → TcpStack → Prop
  | init (hashSeed : U32) : HeldRun (fun _ ↦ none) (tcpInit hashSeed)
  | step {H : Holding} {s s' : TcpStack} (env : NetEnv) (e : Event) (hrun : HeldRun H s)
      (he : e.Allowed s) (h : step env s e = some s') : HeldRun (H.after env s e s') s'

section

variable {env : NetEnv} {s s' : TcpStack} {e : Event} {i : ConnIdx} {n : ℕ} {H : Holding}

theorem userHolds_iff : s.userHolds i = true ↔
    ∃ c, s.connTable i = some c ∧ tcpConnNeedsUserClose c = true := by
  rw [TcpStack.userHolds, Option.any_eq_true]

/-- A connection that is not freed is the one it was, updated. -/
theorem evolves_of_generation {c d : TcpConn} (he : e.Allowed s)
    (h : Tcp.step env s e = some s') (hc : s.connTable i = some c) (hd : s'.connTable i = some d)
    (hgen : s'.generation i = s.generation i) : ∃ k, Evolves k c d := by
  obtain ⟨f, hev⟩ := step_evolves he h
  have hslot := hev.slots i
  rw [show s.slot i = ⟨some c, s.generation i, _⟩ from congrArg (Slot.mk · _ _) hc] at hslot
  obtain ⟨d', hd', hcd⟩ := hslot.evolves hgen
  obtain rfl : d' = d := Option.some_injective _ (hd'.symm.trans hd)
  exact ⟨_, hcd⟩

theorem not_listen_of_needsUserClose {c : TcpConn} (h : tcpConnNeedsUserClose c = true) :
    c.state ≠ .listen := by
  intro hst
  rw [tcpConnNeedsUserClose, hst] at h
  cases h

theorem Event.ne_close_of_closes (h : e.closes ≠ some i) : e ≠ .close i := by
  rintro rfl
  exact h rfl

/-- A connection of the user is not freed and does not turn into a listener. -/
theorem step_userHolds (he : e.Allowed s) (hclose : e.closes ≠ some i)
    (h : Tcp.step env s e = some s') (hu : s.userHolds i = true) :
    s'.generation i = s.generation i ∧ s'.userHolds i = true := by
  obtain ⟨c, hc, huser⟩ := userHolds_iff.mp hu
  obtain ⟨hgen, d, hd, hkept⟩ :=
    step_spared he (Event.ne_close_of_closes hclose) h c hc (.inl huser)
  refine ⟨hgen, userHolds_iff.mpr ⟨d, hd, hkept.resolve_right ?_⟩⟩
  rintro ⟨hlisten, -⟩
  obtain ⟨k, hev⟩ := evolves_of_generation he h hc hd hgen
  exact not_listen_of_needsUserClose huser (hev.sameEnds.listens.mp hlisten)

theorem tcpConnectStart_hands {c : TcpConn} {remoteAddr : Ipv4Addr} {remotePort : U16}
    {j : ConnIdx} (hst : c.state = .synSent)
    (h : (tcpConnectStart env s j c remoteAddr remotePort).1 = some i) :
    (tcpConnectStart env s j c remoteAddr remotePort).2.userHolds i = true := by
  have hsent : (tcpSendSegmentEmpty env (tcpConnectInit env c remoteAddr remotePort) s.glob
      tcpHdrFlagSyn).2.1.state = .synSent := by
    rw [tcpSendSegmentEmpty, tcpSendSegment_state, tcpConnectInit]
    exact hst
  unfold tcpConnectStart at h ⊢
  simp only [show (tcpHashInsert s j (tcpConnectInit env c remoteAddr remotePort)).glob = s.glob
    from rfl] at h ⊢
  generalize tcpSendSegmentEmpty env (tcpConnectInit env c remoteAddr remotePort) s.glob
    tcpHdrFlagSyn = sent at h hsent ⊢
  obtain ⟨res, d, g⟩ := sent
  cases res with
  | error e => cases h
  | ok u =>
    cases h
    refine userHolds_iff.mpr ⟨d, setConn_connTable_self _ _ _, ?_⟩
    rw [tcpConnNeedsUserClose, hsent]
    rfl

theorem tcpConnConnect_hands {remoteAddr : Ipv4Addr} {remotePort : U16}
    (h : (tcpConnConnect env s remoteAddr remotePort).1 = some i) :
    (tcpConnConnect env s remoteAddr remotePort).2.userHolds i = true := by
  have hconn := tcpConnConnect_connects env s remoteAddr remotePort
  generalize tcpConnConnect env s remoteAddr remotePort = r at hconn h ⊢
  cases hconn with
  | start => exact tcpConnectStart_hands rfl h
  | _ => cases h

theorem tcpConnAccept_hands {l : ConnIdx} (h : (tcpConnAccept s l).1 = some i) :
    (tcpConnAccept s l).2.userHolds i = true := by
  simp only [tcpConnAccept] at h ⊢
  split_ifs at h ⊢ with hself hready
  cases h
  obtain ⟨c, hc, huser⟩ := (Option.any_eq_true _ _).mp (by simpa using hready)
  obtain ⟨f, hf⟩ := modifyAcceptReady_sameSlot
    { s with acceptLinks := s.acceptLinks.delInit _ } l _
    fun n ↦ if n > 0 then n - 1 else n
  rw [userHolds_iff]
  refine ⟨_, hf.trans (congrArg (Option.map _) hc), ?_⟩
  exact needsUserClose_congr huser rfl

/-- A connection that is handed out waits for its user. -/
theorem step_hands (h : Tcp.step env s e = some s') (hi : e.hands env s = some i) :
    s'.userHolds i = true := by
  cases e with
  | connect remoteAddr remotePort =>
    cases h
    exact tcpConnConnect_hands hi
  | accept l =>
    cases h
    exact tcpConnAccept_hands hi
  | _ => cases hi

/-- **A connection in the hands of the user is never freed.** Until the user closes it, its slot has
the generation at which it was handed out and a state in which it waits for its user, whatever
timeouts expire, whatever is purged and whatever arrives. -/
theorem held_not_freed (h : HeldRun H s) (hi : H i = some n) :
    s.generation i = n ∧ s.userHolds i = true := by
  induction h generalizing n with
  | init => cases hi
  | @step H s s' env e hrun he hstep ih =>
    rw [Holding.after] at hi
    split_ifs at hi with hclose hhands
    · cases hH : H i with
      | none =>
        rw [hH] at hi
        cases hi
        exact ⟨rfl, step_hands hstep hhands⟩
      | some m =>
        rw [hH] at hi
        cases hi
        obtain ⟨hgen, hu⟩ := ih hH
        obtain ⟨hgen', hu'⟩ := step_userHolds he hclose hstep hu
        exact ⟨hgen'.trans hgen, hu'⟩
    · rw [Option.or_none] at hi
      obtain ⟨hgen, hu⟩ := ih hi
      obtain ⟨hgen', hu'⟩ := step_userHolds he hclose hstep hu
      exact ⟨hgen'.trans hgen, hu'⟩

end

/-- A sequence of calls with what the user holds along it. -/
def heldCalls : List (NetEnv × Event) → Holding → TcpStack → Option (Holding × TcpStack)
  | [], H, s => some (H, s)
  | (env, e) :: calls, H, s =>
    if e.Allowed s then (step env s e).bind fun s' ↦ heldCalls calls (H.after env s e s') s'
    else none

theorem HeldRun.heldCalls {calls : List (NetEnv × Event)} :
    ∀ {s s' : TcpStack} {H H' : Holding}, HeldRun H s →
      Tcp.heldCalls calls H s = some (H', s') → HeldRun H' s' := by
  induction calls with
  | nil =>
    intro s s' H H' hs h
    cases h
    exact hs
  | cons call calls ih =>
    intro s s' H H' hs h
    obtain ⟨env, e⟩ := call
    rw [Tcp.heldCalls] at h
    by_cases he : e.Allowed s
    · rw [if_pos he] at h
      obtain ⟨t, ht, h⟩ := Option.bind_eq_some_iff.mp h
      exact ih (hs.step env e he ht) h
    · rw [if_neg he] at h
      cases h

/-- The first connection of a server is accepted, and its peer resets it. -/
def acceptedThenReset : List (NetEnv × Event) :=
  serverHandshake ++
    [(.sending 2 hostA 1000, .accept ⟨0, zero_lt_tcpConnMaxNum⟩),
      (.sending 3 hostA 1000, .packet hostA peerA (.bare 5000 80 2 1001 tcpHdrFlagRst 1000))]

/-- The reset leaves the accepted connection to its user. -/
theorem held_not_freed_reset :
    ∃ H s c, HeldRun H s ∧ H ⟨1, one_lt_tcpConnMaxNum⟩ = some 0 ∧
      s.connTable ⟨1, one_lt_tcpConnMaxNum⟩ = some c ∧ c.state = .reset ∧
      s.generation ⟨1, one_lt_tcpConnMaxNum⟩ = 0 ∧
      s.userHolds ⟨1, one_lt_tcpConnMaxNum⟩ = true := by
  have hrun : (heldCalls acceptedThenReset (fun _ ↦ none) (tcpInit 0)).any (fun r ↦
      decide (r.1 ⟨1, one_lt_tcpConnMaxNum⟩ = some 0) &&
        (r.2.connTable ⟨1, one_lt_tcpConnMaxNum⟩).any fun c ↦ c.state == .reset) = true := by
    decide +kernel
  obtain ⟨⟨H, s⟩, hcalls, hp⟩ := (Option.any_eq_true _ _).mp hrun
  obtain ⟨hheld, hreset⟩ := Bool.and_eq_true_iff.mp hp
  obtain ⟨c, hc, hst⟩ := (Option.any_eq_true _ _).mp hreset
  have hrun := (HeldRun.init 0).heldCalls hcalls
  exact ⟨H, s, c, hrun, of_decide_eq_true hheld, hc, beq_iff_eq.mp hst,
    held_not_freed hrun (of_decide_eq_true hheld)⟩

/-! ## Listeners -/

/-- Every connection that names a listener names a slot that listens. -/
def ListenersLive (s : TcpStack) : Prop :=
  ∀ i c l, s.connTable i = some c → c.listener = some l → s.listens l = true

/-- No connection names the slot that a call closes. -/
def ChildlessClose (s : TcpStack) (e : Event) : Prop :=
  ∀ l, e.closes = some l → ∀ i c, s.connTable i = some c → c.listener ≠ some l

instance (s : TcpStack) (e : Event) : Decidable (ChildlessClose s e) :=
  decidable_of_iff (e.closes.all (fun l ↦ (List.finRange tcpConnMaxNum).all fun i ↦
      (s.connTable i).all fun c ↦ c.listener != some l) = true) (by
    simp only [ChildlessClose, Option.all_eq_true, all_eq_true, mem_finRange,
      forall_true_left, bne_iff_ne])

section

variable {env : NetEnv} {s s' : TcpStack} {e : Event} {i l : ConnIdx} {c d : TcpConn}

theorem listens_iff : s.listens l = true ↔ ∃ c, s.connTable l = some c ∧ c.state = .listen := by
  simp only [TcpStack.listens, Option.any_eq_true, beq_iff_eq]

/-- A slot after `tcp_conn_listen`: what the purge left, if there was one, or a new listener. -/
theorem tcpConnListen_slot (env : NetEnv) (s : TcpStack) (addr : Ipv4Addr) (port : U16)
    (i : ConnIdx) : (tcpConnListen env s addr port).2.connTable i = s.connTable i ∨
      (tcpConnListen env s addr port).2.connTable i = (tcpPurgeOldConn env s).connTable i ∨
      (tcpConnListen env s addr port).2.connTable i =
        some (tcpConnInit env addr port tcpConnDefaultMss .listen) := by
  unfold tcpConnListen
  dsimp only
  split
  · exact .inl rfl
  · generalize hp : tcpPurgeOldConn env s = p
    rcases tcpConnAllocAndInit_cases env s addr port tcpConnDefaultMss .listen hp
      with heq | ⟨j, hfree, heq⟩
    · rw [heq]
      exact .inr (.inl rfl)
    · rw [heq]
      by_cases hij : i = j
      · rw [hij]
        exact .inr (.inr (setConn_connTable_self _ _ _))
      · exact .inr (.inl (setConn_connTable_of_ne p _ hij))

/-- The purge makes no listeners. -/
theorem tcpPurgeOldConn_origin (env : NetEnv) (s : TcpStack)
    (hd : (tcpPurgeOldConn env s).connTable i = some d) :
    ∃ c, s.connTable i = some c ∧ SameEnds c d := by
  have hev := (evolves_purgeClosed (K := fun _ ↦ .other) (F := fun _ _ ↦ False)).purge env s
  rcases (hev.slots i).origin hd with hold | ⟨c, hc, -⟩
  · exact hold
  · exact absurd hc id

theorem Event.eq_close_of_closes (h : e.closes = some i) : e = .close i := by
  cases e with
  | close j => exact congrArg Event.close (Option.some_injective _ h)
  | _ => cases h

theorem tcpConnClose_listen (env : NetEnv) (hc : s.connTable i = some c)
    (hst : c.state = .listen) : (tcpConnClose env s i).2.connTable i = none := by
  obtain ⟨f, hf⟩ := settle_self s i _
  have hfreed : (tcpConnCloseLocked env c s.glob).freed = true := by
    rw [tcpConnCloseLocked, hst]
  rw [hfreed] at hf
  rw [tcpConnClose, hc]
  exact hf

/-- **A listener has nothing to send.** -/
theorem Reachable.listen_queue (h : Reachable s) :
    ∀ i c, s.connTable i = some c → c.state = .listen → c.sendQueue = [] := by
  refine h.invariant (P := fun s ↦ ∀ i c, s.connTable i = some c → c.state = .listen →
    c.sendQueue = []) ?_ ?_
  · intro seed i c hc
    cases hc
  · intro env s e s' hs he hstep i d hd hlisten
    -- a listener that was there keeps its empty queue; the close of its slot frees it
    have hold : ∀ c, s.connTable i = some c → c.state = .listen → d.sendQueue = [] := by
      intro c hc hst
      by_cases hclose : e.closes = some i
      · cases Event.eq_close_of_closes hclose
        cases hstep
        cases (tcpConnClose_listen env hc hst).symm.trans hd
      · obtain ⟨-, d', hd', hkept⟩ :=
          step_spared he (Event.ne_close_of_closes hclose) hstep c hc (.inr ⟨hst, hs i c hc hst⟩)
        obtain rfl : d' = d := Option.some_injective _ (hd'.symm.trans hd)
        rcases hkept with huser | ⟨-, hq⟩
        · exact absurd hlisten (not_listen_of_needsUserClose huser)
        · exact hq
    obtain ⟨f, hev⟩ := step_evolves he hstep
    rcases (hev.slots i).origin hd with ⟨c, hc, hends⟩ | ⟨c, ⟨-, hcreate⟩, hends⟩
    · exact hold c hc (hends.listens.mp hlisten)
    · cases hcreate with
      | listen addr port =>
        cases hstep
        rcases tcpConnListen_slot env s addr port i with heq | heq | heq
        · exact hold d (heq ▸ hd) hlisten
        · obtain ⟨c', hc', hends'⟩ := tcpPurgeOldConn_origin env s (heq ▸ hd)
          exact hold c' hc' (hends'.listens.mp hlisten)
        · cases heq.symm.trans hd
          rfl
      | connect | packet => cases hends.listens.mp hlisten

/-- Only its close frees a listener. -/
theorem step_listens (hs : Reachable s) (he : e.Allowed s) (hclose : e.closes ≠ some l)
    (h : Tcp.step env s e = some s') (hl : s.listens l = true) :
    s'.generation l = s.generation l ∧ s'.listens l = true := by
  obtain ⟨c, hc, hst⟩ := listens_iff.mp hl
  obtain ⟨hgen, d, hd, -⟩ := step_spared he (Event.ne_close_of_closes hclose) h c hc
    (.inr ⟨hst, hs.listen_queue l c hc hst⟩)
  obtain ⟨k, hev⟩ := evolves_of_generation he h hc hd hgen
  exact ⟨hgen, listens_iff.mpr ⟨d, hd, hev.sameEnds.listens.mpr hst⟩⟩

/-- A connection is created with no listener, or with the one that answers its SYN. -/
theorem Creates.listener (h : Creates env s e c) (hl : c.listener = some l) :
    s.listens l = true ∧ e.closes ≠ some l := by
  cases h with
  | listen | connect => cases hl
  | packet hlook hc hst hadm =>
    cases hl
    exact ⟨listens_iff.mpr ⟨_, hc, hst⟩, nofun⟩

theorem listenersLive_step (hs : Reachable s) (he : e.Allowed s) (h : Tcp.step env s e = some s')
    (hclose : ChildlessClose s e) (hlive : ListenersLive s) : ListenersLive s' := by
  intro i d l hd hl
  obtain ⟨f, hev⟩ := step_evolves he h
  have hbefore : s.listens l = true ∧ e.closes ≠ some l := by
    rcases (hev.slots i).origin hd with ⟨c, hc, hends⟩ | ⟨c, ⟨-, hcreate⟩, hends⟩
    · have hcl : c.listener = some l := hends.listener.symm.trans hl
      exact ⟨hlive i c l hc hcl, fun hcloses ↦ hclose l hcloses i c hc hcl⟩
    · exact hcreate.listener (hends.listener.symm.trans hl)
  exact (step_listens hs he hbefore.2 h hbefore.1).2

/-- **Listeners outlive their children when none is closed before them.** In every run in which no
call closes a listener that a connection names, every connection names a listener that is in use,
and no call frees it while the connection is there. -/
theorem listenersLive_of_childlessClose {calls : List (TcpStack × Event × TcpStack)}
    (h : Run calls s) (hclose : ∀ t e t', (t, e, t') ∈ calls → ChildlessClose t e) :
    ListenersLive s ∧ ∀ t e t', (t, e, t') ∈ calls → ∀ i c l, t.connTable i = some c →
      c.listener = some l → t'.generation l = t.generation l := by
  induction h with
  | init =>
    refine ⟨?_, fun t e t' hm ↦ ?_⟩
    · intro i c l hc
      cases hc
    · cases hm
  | @step calls s s' env e hrun he hstep ih =>
    obtain ⟨hlive, hgens⟩ := ih fun t e t' hm ↦ hclose t e t' (mem_cons_of_mem _ hm)
    have hnow := hclose s e s' mem_cons_self
    refine ⟨listenersLive_step hrun.reachable he hstep hnow hlive, ?_⟩
    intro t e' t' hm i c l hc hl
    rcases mem_cons.mp hm with heq | hm
    · cases heq
      have hcloses : e.closes ≠ some l := fun hcl ↦ hnow l hcl i c hc hl
      exact (step_listens hrun.reachable he hcloses hstep (hlive i c l hc hl)).1
    · exact hgens t e' t' hm i c l hc hl

end

/-- A server with one connection, next to which a listener without connections is closed. -/
def otherListenerClosed : List (NetEnv × Event) :=
  serverHandshake ++
    [(.sending 2 hostA 1000, .listen hostA 81), (.sending 3 hostA 1000, .close ⟨2, two_lt_tcpConnMaxNum⟩)]

theorem listenersLive_of_childlessClose_other : ∃ calls s c, Run calls s ∧
    s.connTable ⟨1, one_lt_tcpConnMaxNum⟩ = some c ∧ c.listener = some ⟨0, zero_lt_tcpConnMaxNum⟩ ∧
    ListenersLive s := by
  obtain ⟨calls, s, hrun, hp⟩ := exists_run_of_traceCalls 0 otherListenerClosed
    (fun r ↦ (r.2.connTable ⟨1, one_lt_tcpConnMaxNum⟩).any
        (fun c ↦ c.listener == some (⟨0, zero_lt_tcpConnMaxNum⟩)) &&
      r.1.all fun call ↦ decide (ChildlessClose call.1 call.2.1)) (by decide +kernel)
  obtain ⟨hchild, hall⟩ := Bool.and_eq_true_iff.mp hp
  obtain ⟨c, hc, hl⟩ := (Option.any_eq_true _ _).mp hchild
  refine ⟨calls, s, c, hrun, hc, beq_iff_eq.mp hl, (listenersLive_of_childlessClose hrun ?_).1⟩
  intro t e t' hm
  exact of_decide_eq_true (all_eq_true.mp hall _ hm)

/-- A listener is closed while a connection of its is half open, an active open takes its slot, and
the peer completes the handshake. -/
def listenerClosed : List (NetEnv × Event) :=
  [(.sending 0 hostA 1000, .listen hostA 80),
    (.sending 0 hostA 1000, .packet hostA peerA (.bare 5000 80 1 0 tcpHdrFlagSyn 1000)),
    (.sending 1 hostA 1000, .close ⟨0, zero_lt_tcpConnMaxNum⟩),
    (.sending 1 hostA 1000, .connect peerA 90),
    (.sending 2 hostA 1000, .packet hostA peerA (.bare 5000 80 2 1001 tcpHdrFlagAck 1000))]

/-- **The count of a stranger.** The connection that took the slot of the listener is counted one
more ready connection. -/
theorem not_listenersLive : ∃ s c, Reachable s ∧ ¬ListenersLive s ∧
    s.connTable ⟨0, zero_lt_tcpConnMaxNum⟩ = some c ∧ c.state = .synSent ∧ c.acceptReady = 1 := by
  obtain ⟨s, hs, hp⟩ := exists_reachable_of_runCalls 0 listenerClosed
    (fun s ↦ (s.connTable ⟨1, one_lt_tcpConnMaxNum⟩).any
        (fun c ↦ c.listener == some (⟨0, zero_lt_tcpConnMaxNum⟩)) &&
      (s.connTable ⟨0, zero_lt_tcpConnMaxNum⟩).any fun c ↦ c.state == .synSent && c.acceptReady == 1)
    (by decide +kernel)
  obtain ⟨hchild, hslot⟩ := Bool.and_eq_true_iff.mp hp
  obtain ⟨d, hd, hl⟩ := (Option.any_eq_true _ _).mp hchild
  obtain ⟨c, hc, hst⟩ := (Option.any_eq_true _ _).mp hslot
  obtain ⟨hsent, hready⟩ := Bool.and_eq_true_iff.mp hst
  refine ⟨s, c, hs, ?_, hc, beq_iff_eq.mp hsent, beq_iff_eq.mp hready⟩
  intro hlive
  obtain ⟨lc, hlc, hlisten⟩ := listens_iff.mp (hlive _ d _ hd (beq_iff_eq.mp hl))
  obtain rfl : lc = c := Option.some_injective _ (hlc.symm.trans hc)
  cases (beq_iff_eq.mp hsent).symm.trans hlisten

end Mazu.Tcp
