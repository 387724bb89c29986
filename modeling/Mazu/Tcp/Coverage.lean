import Mazu.Lib.Arcs
import Mazu.Tcp.Invariant

/-!
# The send queue covers what is in flight

An entry of the send queue holds the sequence numbers from its `seq_num` up to its `required_ack`.
Each new entry starts at `send_next` and moves it, and the timer service releases entries at the
front only after their last number was acknowledged. So the entries lie end to end up to
`send_next`, and whatever is not acknowledged is still in one of them.
-/

namespace Mazu.Tcp

open Serial

/-- The entries lie end to end up to `send_next`, and are as long as what is in flight. -/
structure Covered (c : TcpConn) : Prop where
  laid : Laid SendBufQueue.seqNum SendBufQueue.requiredAck c.sendNext c.sendQueue
  flight : c.inFlight ≤ span SendBufQueue.seqNum SendBufQueue.requiredAck c.sendQueue

section

variable {c d : TcpConn}

theorem covered_of_unsent (hq : c.sendQueue = []) (h : c.sendNext = c.sendUnack) : Covered c where
  laid := hq ▸ Laid.nil
  flight := by
    rw [TcpConn.inFlight, h, dist_self]
    exact Nat.zero_le _

/-- Nothing new in flight, and the same queue. -/
theorem Covered.congr (h : Covered c) (hq : d.sendQueue = c.sendQueue)
    (hn : d.sendNext = c.sendNext) (hf : d.inFlight ≤ c.inFlight) : Covered d where
  laid := by
    rw [hq, hn]
    exact h.laid
  flight := by
    rw [hq]
    exact hf.trans h.flight

/-- A new entry starts at `send_next` and moves it to its own end. -/
theorem Covered.push (h : Covered c) (sbq : SendBufQueue) (hseq : sbq.seqNum = c.sendNext)
    (hq : d.sendQueue = c.sendQueue ++ [sbq]) (hn : d.sendNext = sbq.requiredAck)
    (hu : d.sendUnack = c.sendUnack) : Covered d where
  laid := by
    rw [hq, hn]
    refine Laid.snoc ?_
    rw [hseq]
    exact h.laid
  flight := by
    rw [hq, span_append, span_cons, TcpConn.inFlight, hn, hu, hseq]
    have htri := dist_triangle c.sendUnack c.sendNext sbq.requiredAck
    have hf := h.flight
    rw [TcpConn.inFlight] at hf
    omega

/-- Releasing acknowledged entries leaves enough of the queue. -/
theorem Covered.release (h : Covered c) (hlt : c.inFlight < 2 ^ 31) {done rest : List SendBufQueue}
    (hq : c.sendQueue = done ++ rest)
    (hdone : ∀ sbq ∈ done, seqGeq c.sendUnack sbq.requiredAck = true) :
    Covered { c with sendQueue := rest } where
  laid := by
    have hlaid := h.laid
    rw [hq] at hlaid
    exact hlaid.of_append _
  flight := by
    rcases List.eq_nil_or_concat done with rfl | ⟨front, sbq, rfl⟩
    · rw [List.nil_append] at hq
      exact hq ▸ h.flight
    · -- the last entry released ends as far before `send_next` as the rest is long
      have hlaid := h.laid
      rw [hq, List.concat_append] at hlaid
      have hacked : 0 ≤ diff c.sendUnack sbq.requiredAck :=
        of_decide_eq_true (hdone sbq (by simp))
      exact dist_le_of_passed (hlaid.of_append _).stop_add_span hacked hlt

/-- An entry sent again covers what it did. -/
theorem Covered.again (h : Covered c) {sbq sbq' : SendBufQueue} {rest : List SendBufQueue}
    (hq : c.sendQueue = sbq :: rest) (hseq : sbq'.seqNum = sbq.seqNum)
    (hack : sbq'.requiredAck = sbq.requiredAck) :
    Covered { c with sendQueue := sbq' :: rest } where
  laid := by
    have hlaid := h.laid
    rw [hq] at hlaid
    refine ⟨?_, ?_⟩
    · have hc := hlaid.consecutive
      rw [List.isChain_cons] at hc ⊢
      rw [hack]
      exact hc
    · intro x hx
      have hl := hlaid.last
      cases rest with
      | nil =>
        obtain rfl : sbq' = x := by simpa using hx
        rw [hack]
        exact hl sbq rfl
      | cons y rest => exact hl x (by simpa using hx)
  flight := by
    have hf := h.flight
    rw [hq] at hf
    rw [span_cons, hseq, hack]
    exact hf

theorem newSbq_requiredAck (env : NetEnv) (c : TcpConn) (flags : U8) (fragment : List U8) :
    (tcpNewSbq env c flags fragment).requiredAck =
      c.sendNext + tcpSegmentAdvance flags fragment := rfl

/-- **Every update keeps the queue covering.** -/
theorem Covered.micro {k : Cause} (h : Covered c) (hinv : ConnInv c) (hm : Micro k c d) :
    Covered d := by
  cases hm with
  | inert | move | reset | finUnsent | timeout | probe | read => exact h.congr rfl rfl (le_refl _)
  | options _ flags opts =>
    obtain ⟨mss, scale, use, heq, -⟩ := tcpHandleOptions_update c flags opts
    rw [heq]
    exact h.congr rfl rfl (le_refl _)
  | sendState env _ g seg tsopt hsync =>
    have hle := sendState_inFlight_le hinv env c.state g seg tsopt
    obtain ⟨f, hf, -⟩ := tcpConnUpdateSendState_spec env c g seg tsopt
    rw [hf] at hle
    rw [hf]
    exact h.congr rfl rfl hle
  | recvState _ seg tsopt hsync =>
    obtain ⟨f, hf⟩ := tcpConnUpdateRecvState_same c seg tsopt
    rw [hf]
    exact h.congr rfl rfl (le_refl _)
  | handshake env _ g seg tsopt st₀ st buf recvNext =>
    have hle := sendState_inFlight_le hinv env st₀ g seg tsopt
    obtain ⟨f, hf, -⟩ := tcpConnUpdateSendState_spec env { c with state := st₀ } g seg tsopt
    rw [hf] at hle ⊢
    exact h.congr rfl rfl hle
  | queueEmpty env _ flags hadv =>
    refine h.push _ rfl rfl ?_ rfl
    rw [newSbq_requiredAck, hadv, BitVec.ofNat_eq_ofNat, BitVec.add_zero]
  | queueSyn env _ flags hst hiss hadv =>
    refine h.push _ rfl rfl ?_ rfl
    rw [newSbq_requiredAck, hadv]
  | queueData env _ fragment =>
    exact h.push _ rfl rfl rfl rfl
  | queueFin env _ hst =>
    exact h.push _ rfl rfl rfl rfl
  | release _ done rest hq hdone => exact h.release hinv.inFlight_lt hq hdone
  | retransmit env _ sbq rest hq hn => exact h.again hq rfl rfl

end

theorem fresh_covered {Q : TcpConn → Prop} {c : TcpConn} (h : Fresh Q c) : Covered c := by
  cases h with
  | listen | active | passive => exact covered_of_unsent rfl rfl

theorem Reachable.covered {s : TcpStack} (h : Reachable s) : s.All Covered := by
  have hall : s.All fun c ↦ ConnInv c ∧ Covered c := by
    refine h.all (fun k c c' hc hm ↦ ⟨micro_connInv hc.1 hm, hc.2.micro hc.1 hm⟩) ?_
    intro c hf
    exact ⟨fresh_connInv (hf.mono fun _ hq ↦ hq.1), fresh_covered hf⟩
  exact fun i c hc ↦ (hall i c hc).2

/-- **Nothing unacknowledged is lost.** The entries of the send queue are consecutive and end at
`send_next`, fewer than half the sequence numbers are in flight, and each of these is in an entry
that the timer service takes for unacknowledged. -/
theorem sendQueue_covers {s : TcpStack} (hs : Reachable s) {i : ConnIdx} {c : TcpConn}
    (hc : s.connTable i = some c) :
    c.sendQueue.IsChain (fun a b ↦ a.requiredAck = b.seqNum) ∧
      (∀ sbq ∈ c.sendQueue.getLast?, sbq.requiredAck = c.sendNext) ∧
      dist c.sendUnack c.sendNext < 2 ^ 31 ∧
      ∀ n, dist c.sendUnack n < dist c.sendUnack c.sendNext →
        ∃ sbq ∈ c.sendQueue, dist sbq.seqNum n < dist sbq.seqNum sbq.requiredAck ∧
          seqGeq c.sendUnack sbq.requiredAck = false := by
  have hcov := hs.covered i c hc
  have hlt : dist c.sendUnack c.sendNext < 2 ^ 31 := (hs.connInv i c hc).inFlight_lt
  refine ⟨hcov.laid.consecutive, hcov.laid.last, hlt, fun n hn ↦ ?_⟩
  have hleft := dist_of_mem hn.le
  have hn' : c.sendNext - BitVec.ofNat 32 (dist n c.sendNext) = n := by
    rw [BitVec.sub_eq_iff_eq_add, add_dist]
  have hspan : dist c.sendUnack c.sendNext ≤ span _ _ c.sendQueue := hcov.flight
  obtain ⟨pre, sbq, post, hq, hpost, hdist⟩ :=
    hcov.laid.exists_arc (k := dist n c.sendNext) (by omega) (by omega)
  rw [hn'] at hdist
  refine ⟨sbq, by rw [hq]; simp, by omega, ?_⟩
  -- had the entry been acknowledged, no more than what lies after it would be in flight
  have hlaid := hcov.laid
  rw [hq] at hlaid
  rw [seqGeq, decide_eq_false_iff_not]
  intro hacked
  have hle := dist_le_of_passed (hlaid.of_append _).stop_add_span hacked hlt
  omega

/-- A client that has sent three bytes. -/
def clientData : List (NetEnv × Event) :=
  [(.sending 0 hostA 1000, .connect peerA 80),
    (.sending 1 hostA 1000, .packet hostA peerA
      (.bare 80 49152 7000 1001 (tcpHdrFlagSyn ||| tcpHdrFlagAck) 1000)),
    (.sending 2 hostA 1000, .send ⟨0, zero_lt_tcpConnMaxNum⟩ [1, 2, 3] (.ok 1500))]

theorem sendQueue_covers_data : ∃ s c, Reachable s ∧
    s.connTable ⟨0, zero_lt_tcpConnMaxNum⟩ = some c ∧ dist c.sendUnack c.sendNext = 3 ∧
      c.sendQueue.IsChain (fun a b ↦ a.requiredAck = b.seqNum) ∧
      ∃ sbq ∈ c.sendQueue, dist sbq.seqNum (c.sendUnack + 2) < dist sbq.seqNum sbq.requiredAck := by
  obtain ⟨s, c, hs, hc, hp⟩ := exists_conn_of_runCalls 0 clientData ⟨0, zero_lt_tcpConnMaxNum⟩
    (fun _ c ↦ decide (dist c.sendUnack c.sendNext = 3 ∧
      dist c.sendUnack (c.sendUnack + 2) = 2)) (by decide +kernel)
  obtain ⟨hthree, htwo⟩ := of_decide_eq_true hp
  obtain ⟨hchain, -, -, hcovers⟩ := sendQueue_covers hs hc
  obtain ⟨sbq, hmem, hin, -⟩ := hcovers (c.sendUnack + 2) (by omega)
  exact ⟨s, c, hs, hc, hthree, hchain, sbq, hmem, hin⟩

end Mazu.Tcp
