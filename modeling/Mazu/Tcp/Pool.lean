import Mazu.Tcp.PollLoop

/-!
# Send-queue entries and their pool

The timer service releases entries of the send queues into the pool and takes none out. So a poll
never lengthens a queue, and what it shortens comes back to the pool.
-/

namespace Mazu.Tcp

/-- The entries that the connection of a slot holds. -/
def TcpStack.queueLen (s : TcpStack) (i : ConnIdx) : ℕ :=
  (s.connTable i).elim 0 fun c ↦ c.sendQueue.length

theorem queueLen_of_some {s : TcpStack} {i : ConnIdx} {c : TcpConn} (h : s.connTable i = some c) :
    s.queueLen i = c.sendQueue.length := by
  rw [TcpStack.queueLen, h]
  rfl

theorem SameSlot.queueLen {s s' : TcpStack} {i : ConnIdx}
    (h : SameSlot (s.connTable i) (s'.connTable i)) : s'.queueLen i = s.queueLen i := by
  obtain ⟨f, hf⟩ := h
  rw [TcpStack.queueLen, TcpStack.queueLen, hf]
  cases s.connTable i <;> rfl

/-! ## The service of one connection -/

/-- The entries a routine took out of the queue are back in the pool. -/
structure Returns (c : TcpConn) (g : Globals) (o : Outcome) : Prop where
  queue : o.conn.sendQueue.length ≤ c.sendQueue.length
  pool : o.glob.sbqAvail + o.conn.sendQueue.length = g.sbqAvail + c.sendQueue.length

theorem Retransmits.returns {env : NetEnv} {c : TcpConn} {g : Globals} {q : List SendBufQueue}
    {o : Outcome} (h : Retransmits env c g q o) : Returns { c with sendQueue := q } g o := by
  induction h with
  | done | free | wait => exact ⟨le_refl _, rfl⟩
  | giveUp hn hu h | failed _ _ e h =>
    obtain ⟨⟨window, ackSent, rfl⟩, hpool, -⟩ := h
    exact ⟨le_refl _, by rw [hpool]⟩
  | acked _ _ _ ih =>
    -- one entry goes back
    obtain ⟨hqueue, hpool⟩ := ih
    refine ⟨hqueue.trans (Nat.le_succ _), hpool.trans ?_⟩
    simp only [List.length_cons]
    omega
  | resent _ _ h hx =>
    obtain ⟨⟨window, ackSent, rfl⟩, hpool, -⟩ := h
    rcases hx with rfl | rfl <;> exact ⟨le_refl _, by rw [tcpTimerHint_sbqAvail, hpool]; rfl⟩

theorem tcpPollRetransmitConn_returns (env : NetEnv) (c : TcpConn) (g : Globals) :
    Returns c g (tcpPollRetransmitConn env c g) := by
  have hserved := tcpPollRetransmitConn_served env c g
  generalize tcpPollRetransmitConn env c g = o at hserved ⊢
  cases hserved with
  | dead => exact ⟨le_refl _, rfl⟩
  | failed e h => exact ⟨by rw [h.sendQueue], by rw [h.sendQueue, h.pool]⟩
  | @walk d g' h =>
    obtain ⟨hle, heq⟩ := (tcpPollRetransmitQueue_retransmits env d g' d.sendQueue).returns
    rw [h.sendQueue] at hle heq ⊢
    exact ⟨hle, heq.trans (by rw [h.pool])⟩

/-! ## A poll -/

/-- The queue of a slot only got shorter, and the pool has what it lost. -/
structure Releases (i : ConnIdx) (s s' : TcpStack) : Prop where
  queue : s'.queueLen i ≤ s.queueLen i
  pool : s.glob.sbqAvail + s.queueLen i ≤ s'.glob.sbqAvail + s'.queueLen i

section

variable {i j : ConnIdx} {s s' s'' : TcpStack} {c : TcpConn}

theorem Releases.refl (i : ConnIdx) (s : TcpStack) : Releases i s s := ⟨le_refl _, le_refl _⟩

theorem Releases.trans (h : Releases i s s') (h' : Releases i s' s'') : Releases i s s'' :=
  ⟨h'.queue.trans h.queue, h.pool.trans h'.pool⟩

/-- Nothing changes but the pool, and the pool gains. -/
theorem Releases.of_sameSlot (h : SameSlot (s.connTable i) (s'.connTable i))
    (hpool : s.glob.sbqAvail ≤ s'.glob.sbqAvail) : Releases i s s' := by
  have hlen := h.queueLen
  exact ⟨hlen.le, by rw [hlen]; exact Nat.add_le_add_right hpool _⟩

theorem modifyAcceptReady_glob (s : TcpStack) (l : ConnIdx) (f : U32 → U32) :
    (modifyAcceptReady s l f).glob = s.glob := by
  rw [modifyAcceptReady]
  split <;> rfl

theorem dropAcceptReady_glob (s : TcpStack) (i : ConnIdx) (c : TcpConn) :
    (dropAcceptReady s i c).glob = s.glob :=
  dropAcceptReady_induct (P := fun t ↦ t.glob = s.glob) rfl (modifyAcceptReady_glob s)

/-- A freed connection gives its entries back. -/
theorem tcpFreeConn_releases (i j : ConnIdx) (s : TcpStack) : Releases i s (tcpFreeConn s j) := by
  cases h : s.connTable j with
  | none =>
    rw [tcpFreeConn, h]
    exact Releases.refl i s
  | some c =>
    have hpool : (tcpFreeConn s j).glob.sbqAvail = s.glob.sbqAvail + c.sendQueue.length := by
      simp only [tcpFreeConn, h, tcpHashRemove, dropAcceptReady_glob]
    by_cases hij : i = j
    · subst hij
      have hgone : (tcpFreeConn s i).queueLen i = 0 := by
        rw [TcpStack.queueLen, tcpFreeConn_self]
        rfl
      refine ⟨by rw [hgone]; exact Nat.zero_le _, ?_⟩
      rw [hgone, hpool, queueLen_of_some h]
      exact le_refl _
    · exact .of_sameSlot (tcpFreeConn_sameSlot s hij) (hpool ▸ Nat.le_add_right _ _)

/-- A connection is written back with what its routine took out of the queue. -/
theorem setConn_releases {d : TcpConn} {g : Globals} (hc : s.connTable j = some c)
    (hqueue : d.sendQueue.length ≤ c.sendQueue.length)
    (hpool : g.sbqAvail + d.sendQueue.length = s.glob.sbqAvail + c.sendQueue.length) :
    Releases i s { s.setConn j (some d) with glob := g } := by
  by_cases hij : i = j
  · subst hij
    have hlen : TcpStack.queueLen { s.setConn i (some d) with glob := g } i
        = d.sendQueue.length := queueLen_of_some (setConn_connTable_self s i _)
    have hold := queueLen_of_some hc
    exact ⟨by rw [hlen, hold]; exact hqueue, by rw [hlen, hold]; exact hpool.ge⟩
  · have hsame : SameSlot (s.connTable i) ((s.setConn j (some d)).connTable i) := by
      rw [setConn_connTable_of_ne s _ hij]
      exact SameSlot.refl _
    refine .of_sameSlot hsame ?_
    show s.glob.sbqAvail ≤ g.sbqAvail
    omega

theorem settle_releases {o : Outcome} (hc : s.connTable j = some c) (hret : Returns c s.glob o) :
    Releases i s (settle s j o) :=
  settle_induct (setConn_releases hc hret.queue hret.pool)
    (fun t l f ht ↦ ht.trans (.of_sameSlot (modifyAcceptReady_sameSlot t l i f)
      (modifyAcceptReady_glob t l f ▸ le_refl _)))
    fun _ t ht ↦ ht.trans (tcpFreeConn_releases i j t)

/-- **A poll** lengthens no queue, and what it takes out of one is in the pool again. -/
theorem releases_pollClosed (env : NetEnv) (i : ConnIdx) : PollClosed env (Releases i) where
  refl := Releases.refl i
  trans := Releases.trans
  rebuild _ := ⟨le_refl _, le_refl _⟩
  expire _ _ := tcpFreeConn_releases i _ _
  giveUp hc _ := setConn_releases hc (le_refl _) rfl
  serve hc _ := settle_releases hc (tcpPollRetransmitConn_returns env _ _)

end

end Mazu.Tcp
