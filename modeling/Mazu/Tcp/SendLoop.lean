import Mazu.Lib.Runs
import Mazu.Tcp.Ownership

/-!
# What a send reports

`tcp_conn_send` cuts the payload into fragments, and `tcp_send_segment` queues each of them before
it is transmitted. The number of fragments that the window admits is known before the first of them
is sent. So is, from the entries left in the pool and from the answers of the IP layer, whether all
of them go out. An error in the middle of them is reported as if nothing had been queued. None of
this depends on the state: a connection that was reset goes on sending.
-/

namespace Mazu.Tcp

open Serial List BitVec

/-! ## One fragment -/

variable (env : NetEnv) (c d : TcpConn) (g : Globals) (payload : List U8)

/-- The bytes went to the end of the send queue, and `send_next` moved past them. -/
def Appended (bytes : List U8) : Prop :=
  ∃ new, d.sendQueue = c.sendQueue ++ new ∧ new.flatMap (·.payload) = bytes ∧
    d.sendNext = c.sendNext + BitVec.ofNat 32 bytes.length

theorem Appended.refl : Appended c c [] :=
  ⟨[], (append_nil _).symm, rfl, (add_zero _).symm⟩

theorem Appended.trans {c d e : TcpConn} {xs ys : List U8} (h : Appended c d xs)
    (h' : Appended d e ys) : Appended c e (xs ++ ys) := by
  obtain ⟨new, hq, hbytes, hnext⟩ := h
  obtain ⟨new', hq', hbytes', hnext'⟩ := h'
  refine ⟨new ++ new', by rw [hq', hq, List.append_assoc], ?_, ?_⟩
  · rw [flatMap_append, hbytes, hbytes']
  · rw [hnext', hnext, length_append, add_assoc, ← ofNat_add]

/-- What the windows of the peer and of the congestion control leave, less what is in flight. -/
def TcpConn.effWindow : U32 :=
  let rwnd : U32 :=
    if c.sendWindowReal > 0xFFFFFFFF then 0xFFFFFFFF else BitVec.ofNat 32 c.sendWindowReal
  if c.cwnd < rwnd then c.cwnd else rwnd

theorem tcpSendWindowAvail_eq : tcpSendWindowAvail c = c.effWindow.toNat - c.inFlight := by
  have hd : (c.sendNext - c.sendUnack).toNat = c.inFlight := rfl
  show (if c.sendNext - c.sendUnack ≥ c.effWindow then 0
    else (c.effWindow - (c.sendNext - c.sendUnack)).toNat) = _
  split_ifs with hge
  · have hle : c.effWindow.toNat ≤ (c.sendNext - c.sendUnack).toNat := hge
    omega
  · have hlt : c.sendNext - c.sendUnack ≤ c.effWindow := BitVec.le_of_lt (BitVec.not_le.mp hge)
    rw [toNat_sub_of_le hlt, hd]

/-- **One fragment.** Without an entry in the pool nothing happens. With one the fragment is queued,
and only then does the IP layer answer. -/
theorem tcpSendSegment_data (fragment : List U8) :
    (g.sbqAvail = 0 ∧ tcpSendSegment env c g tcpHdrFlagAck fragment = (.error enomem, c, g)) ∨
      ∃ res d g', g.sbqAvail ≠ 0 ∧
        tcpSendSegment env c g tcpHdrFlagAck fragment = (res, d, g') ∧
        Except.isOk res = env.sendsAt g.txTries ∧ Appended c d fragment ∧
        c.sendQueue.length < d.sendQueue.length ∧ d.sendUnack = c.sendUnack ∧
        d.effWindow = c.effWindow ∧ g'.sbqAvail = g.sbqAvail - 1 ∧ g'.txTries = g.txTries + 1 := by
  by_cases hg : g.sbqAvail = 0
  · exact .inl ⟨hg, by rw [tcpSendSegment, if_pos hg]⟩
  · refine .inr ?_
    rw [tcpSendSegment, if_neg hg]
    dsimp only
    generalize hhint : tcpTimerHint { g with sbqAvail := g.sbqAvail - 1 }
      ((tcpNewSbq env c tcpHdrFlagAck fragment).lastTry
        + (tcpNewSbq env c tcpHdrFlagAck fragment).retryAfter) = g₁
    have htries : g₁.txTries = g.txTries ∧ g₁.sbqAvail = g.sbqAvail - 1 := by
      rw [← hhint, tcpTimerHint]
      split_ifs <;> exact ⟨rfl, rfl⟩
    obtain ⟨res, window, ackSent, log, heq, hok⟩ := tcpSendSegmentNoqueue_spec env
      { c with
        sendNext := (tcpNewSbq env c tcpHdrFlagAck fragment).requiredAck
        sendQueue := c.sendQueue ++ [tcpNewSbq env c tcpHdrFlagAck fragment] } g₁
      (tcpNewSbq env c tcpHdrFlagAck fragment).flags (tcpNewSbq env c tcpHdrFlagAck fragment).seqNum
      (tcpNewSbq env c tcpHdrFlagAck fragment).checksum
      (tcpNewSbq env c tcpHdrFlagAck fragment).payload
    rw [htries.1] at hok
    refine ⟨res, _, _, hg, heq, hok, ?_, ?_, rfl, rfl, htries.2, congrArg (· + 1) htries.1⟩
    · refine ⟨[tcpNewSbq env c tcpHdrFlagAck fragment], rfl, append_nil _, ?_⟩
      rfl
    · rw [length_append]
      exact Nat.lt_succ_self _

/-! ## The loop -/

/-- How many fragments of a payload of length `total` the loop sends into a window of `avail` bytes
when nothing fails. -/
def fragmentCount (len total avail : ℕ) : ℕ :=
  if total ≤ avail then (total + len - 1) / len else avail / len

theorem fragmentCount_zero {len : ℕ} (hlen : 0 < len) (avail : ℕ) :
    fragmentCount len 0 avail = 0 :=
  Nat.div_eq_of_lt (by omega)

theorem fragmentCount_of_lt {len total avail : ℕ} (h : avail < min total len) :
    fragmentCount len total avail = 0 := by
  rw [fragmentCount, if_neg (by omega)]
  exact Nat.div_eq_of_lt (by omega)

theorem fragmentCount_succ {len total avail : ℕ} (hlen : 0 < len) (htotal : 0 < total)
    (h : min total len ≤ avail) : fragmentCount len total avail =
      fragmentCount len (total - len) (avail - min total len) + 1 := by
  rw [fragmentCount, fragmentCount]
  by_cases hfit : total ≤ avail
  · rw [if_pos hfit, if_pos (by omega)]
    by_cases hlast : total ≤ len
    · rw [Nat.sub_eq_zero_of_le hlast, Nat.div_eq_of_lt (by omega : 0 + len - 1 < len)]
      exact Nat.div_eq_of_lt_le (by omega) (by omega)
    · rw [← Nat.add_div_right _ hlen]
      congr 1
      omega
  · rw [if_neg hfit, if_neg (by omega), ← Nat.add_div_right _ hlen]
    congr 1
    omega

/-- The pool and the IP layer see `k` fragments through. -/
def SendsAll (k : ℕ) : Prop :=
  k ≤ g.sbqAvail ∧ ∀ j < k, env.sendsAt (g.txTries + j) = true

theorem sendsAll_zero : SendsAll env g 0 :=
  ⟨Nat.zero_le _, fun _ hj ↦ absurd hj (Nat.not_lt_zero _)⟩

theorem sendsAll_succ {env : NetEnv} {g g' : Globals} {k : ℕ} (hg : g.sbqAvail ≠ 0)
    (havail : g'.sbqAvail = g.sbqAvail - 1) (htries : g'.txTries = g.txTries + 1) :
    SendsAll env g (k + 1) ↔ env.sendsAt g.txTries = true ∧ SendsAll env g' k := by
  rw [SendsAll, SendsAll, htries]
  constructor
  · rintro ⟨hle, hall⟩
    refine ⟨hall 0 (Nat.succ_pos k), by omega, fun j hj ↦ ?_⟩
    rw [Nat.add_assoc, Nat.add_comm 1 j]
    exact hall (j + 1) (Nat.succ_lt_succ hj)
  · rintro ⟨hfirst, hle, hall⟩
    refine ⟨by omega, fun j hj ↦ ?_⟩
    cases j with
    | zero => exact hfirst
    | succ j =>
      rw [Nat.add_comm j 1, ← Nat.add_assoc]
      exact hall j (Nat.lt_of_succ_lt_succ hj)

/-- What was queued is taken off the window. -/
theorem tcpSendWindowAvail_appended {c d : TcpConn} {bytes : List U8} (h : Appended c d bytes)
    (hunack : d.sendUnack = c.sendUnack) (heff : d.effWindow = c.effWindow)
    (hfit : bytes.length ≤ tcpSendWindowAvail c) :
    tcpSendWindowAvail d = tcpSendWindowAvail c - bytes.length := by
  obtain ⟨-, -, -, hnext⟩ := h
  rw [tcpSendWindowAvail_eq] at hfit ⊢
  rw [tcpSendWindowAvail_eq, heff]
  have hlt : c.inFlight + bytes.length < 2 ^ 32 := by
    have h₁ : c.inFlight < 2 ^ 32 := dist_lt _ _
    omega
  have hflight : d.inFlight = c.inFlight + bytes.length := by
    rw [TcpConn.inFlight, hnext, hunack]
    exact dist_add_right hlt
  omega

/-- How the loop ends. When every admitted fragment is seen through, it reports a number of bytes
and these were appended. Otherwise it reports an error. Some of the payload is queued as soon as the
window admits a fragment and the pool has an entry. -/
structure LoopEnd (env : NetEnv) (c : TcpConn) (g : Globals) (k : ℕ) (rest : List U8) (nSent : ℕ)
    (r : Except Errno ℕ × TcpConn × Globals) : Prop where
  ok : SendsAll env g k → ∃ n, r.1 = .ok (nSent + n) ∧ n ≤ rest.length ∧
    Appended c r.2.1 (rest.take n)
  error : ¬SendsAll env g k → ∃ e, r.1 = .error e
  unchanged : k = 0 ∨ g.sbqAvail = 0 → r.2 = (c, g)
  queued : ¬(k = 0 ∨ g.sbqAvail = 0) → c.sendQueue.length < r.2.1.sendQueue.length

theorem loopEnd_stop (rest : List U8) (nSent : ℕ) :
    LoopEnd env c g 0 rest nSent (.ok nSent, c, g) where
  ok := fun _ ↦ ⟨0, rfl, Nat.zero_le _, Appended.refl c⟩
  error := absurd (sendsAll_zero env g)
  unchanged := fun _ ↦ rfl
  queued := absurd (.inl rfl)

/-- A fragment and what is taken after it. -/
theorem take_fragment {α : Type} (len n : ℕ) (xs : List α) :
    xs.take ((xs.take len).length + n) = xs.take len ++ (xs.drop len).take n := by
  rw [← take_add, length_take]
  by_cases hle : len ≤ xs.length
  · rw [Nat.min_eq_left hle]
  · rw [take_of_length_le (by omega),
      take_of_length_le (by omega)]

/-- A trip that queues a fragment, and the trips after it. -/
theorem LoopEnd.cons {env : NetEnv} {c d : TcpConn} {g g' : Globals} {k len nSent : ℕ}
    {rest : List U8} {r : Except Errno ℕ × TcpConn × Globals} (hg : g.sbqAvail ≠ 0)
    (havail : g'.sbqAvail = g.sbqAvail - 1) (htries : g'.txTries = g.txTries + 1)
    (hok : env.sendsAt g.txTries = true) (happ : Appended c d (rest.take len))
    (hlt : c.sendQueue.length < d.sendQueue.length)
    (h : LoopEnd env d g' k (rest.drop len) (nSent + (rest.take len).length) r) :
    LoopEnd env c g (k + 1) rest nSent r := by
  have hall : SendsAll env g (k + 1) ↔ SendsAll env g' k :=
    (sendsAll_succ hg havail htries).trans (and_iff_right hok)
  refine ⟨fun hs ↦ ?_, fun hs ↦ h.error (hall.not.mp hs),
    fun hstop ↦ absurd (hstop.resolve_left (Nat.succ_ne_zero k)) hg, fun _ ↦ ?_⟩
  · obtain ⟨n, hres, hn, happ'⟩ := h.ok (hall.mp hs)
    refine ⟨(rest.take len).length + n, by rw [hres, Nat.add_assoc], ?_, ?_⟩
    · rw [length_drop] at hn
      rw [length_take]
      omega
    · rw [take_fragment]
      exact happ.trans happ'
  · by_cases hstop : k = 0 ∨ g'.sbqAvail = 0
    · rw [h.unchanged hstop]
      exact hlt
    · exact hlt.trans (h.queued hstop)

/-- **The send loop.** -/
theorem tcpConnSendLoop_end {len : ℕ} (hlen : 0 < len) (fuel : ℕ) :
    ∀ (c : TcpConn) (g : Globals) (rest : List U8) (nSent : ℕ), rest.length ≤ fuel →
      LoopEnd env c g (fragmentCount len rest.length (tcpSendWindowAvail c)) rest nSent
        (tcpConnSendLoop env len fuel c g rest nSent) := by
  induction fuel with
  | zero =>
    intro c g rest nSent hfuel
    obtain rfl : rest = [] := length_eq_zero_iff.mp (Nat.le_zero.mp hfuel)
    rw [length_nil, fragmentCount_zero hlen]
    exact loopEnd_stop env c g [] nSent
  | succ fuel ih =>
    intro c g rest nSent hfuel
    cases rest with
    | nil =>
      rw [length_nil, fragmentCount_zero hlen]
      exact loopEnd_stop env c g [] nSent
    | cons b rest =>
      rw [tcpConnSendLoop]
      by_cases hfull : tcpSendWindowAvail c < min (b :: rest).length len
      · rw [if_pos hfull, fragmentCount_of_lt hfull]
        exact loopEnd_stop env c g _ nSent
      rw [if_neg hfull]
      dsimp only
      · have hfrag : ((b :: rest).take len).length = min (b :: rest).length len := by
          rw [length_take, min_comm]
        rw [fragmentCount_succ hlen (length_pos_of_ne_nil (cons_ne_nil b rest))
          (Nat.not_lt.mp hfull)]
        rcases tcpSendSegment_data env c g ((b :: rest).take len) with ⟨hg, heq⟩ |
          ⟨res, d, g', hg, heq, hok, happ, hlt, hunack, heff, havail, htries⟩
        · rw [heq]
          have hno : ∀ k, ¬SendsAll env g (k + 1) := fun k hs ↦ by
            have hle := hs.1
            omega
          exact ⟨fun hs ↦ absurd hs (hno _), fun _ ↦ ⟨enomem, rfl⟩, fun _ ↦ rfl,
            (absurd (.inr hg))⟩
        rw [heq]
        cases res with
        | error e =>
          have hno : ∀ k, ¬SendsAll env g (k + 1) := fun k hs ↦ by
            have hfirst := hs.2 0 (Nat.succ_pos k)
            rw [Nat.add_zero, ← hok] at hfirst
            cases hfirst
          exact ⟨fun hs ↦ absurd hs (hno _), fun _ ↦ ⟨e, rfl⟩,
            fun h ↦ absurd (h.resolve_left (Nat.succ_ne_zero _)) hg, fun _ ↦ hlt⟩
        | ok u =>
          have hlen' : ((b :: rest).drop len).length ≤ fuel := by
            rw [length_drop]
            omega
          have hcount : fragmentCount len ((b :: rest).drop len).length (tcpSendWindowAvail d) =
              fragmentCount len ((b :: rest).length - len)
                (tcpSendWindowAvail c - min (b :: rest).length len) := by
            rw [length_drop, tcpSendWindowAvail_appended happ hunack heff (by omega), hfrag]
          have hih := ih d g' ((b :: rest).drop len) (nSent + ((b :: rest).take len).length) hlen'
          rw [hcount] at hih
          exact LoopEnd.cons hg havail htries hok.symm happ hlt hih
      · exact nofun

/-! ## The call -/

/-- What the result of a send says about the connection before and after it. -/
def SendLaw : Except Errno (ℕ × Bool) → Prop
  | .ok (n, _) => n ≤ payload.length ∧ Appended c d (payload.take n)
  | .error _ => d.sendQueue = c.sendQueue ∧ d.sendNext = c.sendNext

/-- The size of a full fragment. -/
def fragmentLen (ipMtu : ℕ) : ℕ :=
  min (min (ipMtu - 20) c.mss) payload.length

/-- The pool is empty from the start, or the pool and the IP layer see every fragment through that
the window admits. -/
def SendClean (c : TcpConn) (payload : List U8) :
    Except Errno ℕ → Prop
  | .ok ipMtu => g.sbqAvail = 0 ∨ SendsAll env g
      (fragmentCount (fragmentLen c payload ipMtu) payload.length (tcpSendWindowAvail c))
  | .error _ => True

theorem tcpConnSendLocked_end (ipMtu : ℕ) : LoopEnd env c g
      (fragmentCount (fragmentLen c payload ipMtu) payload.length (tcpSendWindowAvail c)) payload 0
      (tcpConnSendLocked env c g payload ipMtu) := by
  simp only [tcpConnSendLocked]
  split_ifs with hzero
  · have hcount : fragmentCount (fragmentLen c payload ipMtu) payload.length
        (tcpSendWindowAvail c) = 0 := by
      rw [show fragmentLen c payload ipMtu = 0 from hzero, fragmentCount, Nat.div_zero, Nat.div_zero,
        ite_self]
    rw [hcount]
    exact loopEnd_stop env c g payload 0
  · exact tcpConnSendLoop_end env (Nat.pos_of_ne_zero hzero) _ c g payload 0 (le_refl _)

/-- **What a send reports is what it did, exactly when nothing fails in the middle.** -/
theorem sendLaw_iff (env : NetEnv) {s : TcpStack} {i : ConnIdx} {c : TcpConn}
    (hc : s.connTable i = some c) (payload : List U8) (ipMtu : Except Errno ℕ) :
    ∃ d, (tcpConnSend env s i payload ipMtu).2.connTable i = some d ∧
      (SendLaw c d payload (tcpConnSend env s i payload ipMtu).1 ↔
        SendClean env s.glob c payload ipMtu) := by
  cases ipMtu with
  | error e =>
    have hsend : tcpConnSend env s i payload (.error e) = (.error e, s) := by
      unfold tcpConnSend
      rw [hc]
    rw [hsend]
    exact ⟨c, hc, iff_of_true ⟨rfl, rfl⟩ trivial⟩
  | ok n =>
    have hend := tcpConnSendLocked_end env c s.glob payload n
    unfold tcpConnSend
    rw [hc]
    dsimp only
    generalize tcpConnSendLocked env c s.glob payload n = r at hend ⊢
    obtain ⟨res, d, g⟩ := r
    refine ⟨d, setConn_connTable_self _ _ _, ?_⟩
    by_cases hall : SendsAll env s.glob
      (fragmentCount (fragmentLen c payload n) payload.length (tcpSendWindowAvail c))
    · obtain ⟨m, hres, hm, happ⟩ := hend.ok hall
      cases hres
      rw [Nat.zero_add]
      exact iff_of_true ⟨hm, happ⟩ (.inr hall)
    · obtain ⟨e, he⟩ := hend.error hall
      cases he
      by_cases hpool : s.glob.sbqAvail = 0
      · obtain rfl : d = c := congrArg Prod.fst (hend.unchanged (.inr hpool))
        exact iff_of_true ⟨rfl, rfl⟩ (.inl hpool)
      · have hlt := hend.queued (not_or.mpr ⟨fun hk ↦ hall (hk ▸ sendsAll_zero env s.glob), hpool⟩)
        refine iff_of_false ?_ (not_or.mpr ⟨hpool, hall⟩)
        rintro ⟨hq, -⟩
        exact absurd (congrArg List.length hq) (Nat.ne_of_gt hlt)

/-- Three bytes into an open window. -/
theorem sendLaw_iff_three : ∃ s c d, Reachable s ∧
    s.connTable ⟨1, one_lt_tcpConnMaxNum⟩ = some c ∧
    (tcpConnSend (.sending 2 hostA 0) s ⟨1, one_lt_tcpConnMaxNum⟩ [1, 2, 3] (.ok 1500)).2.connTable
      ⟨1, one_lt_tcpConnMaxNum⟩ = some d ∧
    SendLaw c d [1, 2, 3]
      (tcpConnSend (.sending 2 hostA 0) s ⟨1, one_lt_tcpConnMaxNum⟩ [1, 2, 3] (.ok 1500)).1 := by
  obtain ⟨s, c, hs, hc, hp⟩ := exists_conn_of_runCalls 0 serverHandshake
    ⟨1, one_lt_tcpConnMaxNum⟩
    (fun s c ↦ decide (fragmentCount (fragmentLen c [1, 2, 3] 1500) 3 (tcpSendWindowAvail c)
      ≤ s.glob.sbqAvail)) (by decide +kernel)
  obtain ⟨d, hd, hlaw⟩ := sendLaw_iff _ hc [1, 2, 3] (.ok 1500)
  exact ⟨s, c, d, hs, hc, hd, hlaw.mpr (.inr ⟨of_decide_eq_true hp, fun _ _ ↦ rfl⟩)⟩

/-- An IP layer that takes nothing. -/
def NetEnv.failing (now : U64) (addr : Ipv4Addr) : NetEnv :=
  ⟨now, fun _ ↦ .ok addr, fun _ ↦ .error enomem, 0⟩

/-- **An error after the bytes were queued.** -/
theorem not_sendLaw_failing : ∃ s c d, Reachable s ∧
    s.connTable ⟨1, one_lt_tcpConnMaxNum⟩ = some c ∧
    (tcpConnSend (.failing 2 hostA) s ⟨1, one_lt_tcpConnMaxNum⟩ [1, 2, 3] (.ok 1500)).2.connTable
      ⟨1, one_lt_tcpConnMaxNum⟩ = some d ∧
    ¬SendLaw c d [1, 2, 3]
      (tcpConnSend (.failing 2 hostA) s ⟨1, one_lt_tcpConnMaxNum⟩ [1, 2, 3] (.ok 1500)).1 := by
  obtain ⟨s, c, hs, hc, hp⟩ := exists_conn_of_runCalls 0 serverHandshake
    ⟨1, one_lt_tcpConnMaxNum⟩
    (fun s c ↦ !Except.isOk (tcpConnSend (.failing 2 hostA) s ⟨1, one_lt_tcpConnMaxNum⟩ [1, 2, 3]
        (.ok 1500)).1 &&
      ((tcpConnSend (.failing 2 hostA) s ⟨1, one_lt_tcpConnMaxNum⟩ [1, 2, 3]
        (.ok 1500)).2.connTable ⟨1, one_lt_tcpConnMaxNum⟩).any fun d ↦
          d.sendQueue.length != c.sendQueue.length) (by decide +kernel)
  obtain ⟨hfail, hqueue⟩ := Bool.and_eq_true_iff.mp hp
  obtain ⟨d, hd, hlen⟩ := (Option.any_eq_true _ _).mp hqueue
  refine ⟨s, c, d, hs, hc, hd, ?_⟩
  generalize (tcpConnSend (.failing 2 hostA) s ⟨1, one_lt_tcpConnMaxNum⟩ [1, 2, 3] (.ok 1500)).1
    = res at hfail ⊢
  cases res with
  | ok r => cases hfail
  | error e =>
    rintro ⟨hq, -⟩
    exact bne_iff_ne.mp hlen (congrArg List.length hq)

/-! ## After a reset -/

theorem StateMove.ne_reset {st st' : TcpConnState} (h : StateMove st st') : st ≠ .reset := by
  rintro rfl
  cases h with
  | peer h => cases h with
    | timeWait h => rcases h with h | h | h <;> cases h
  | reset h => rcases h with h | h | h <;> cases h
  | handshake h => rcases h with h | h <;> cases h
  | fin h => rcases h with h | h <;> cases h.1

theorem Evolves.reset {k : Cause} {c d : TcpConn} (h : Evolves k c d) (hst : c.state = .reset) :
    d.state = .reset := by
  refine h.invariant (P := (·.state = .reset)) (fun d d' hd hm ↦ ?_) hst
  rcases hm.state_cases with heq | hmove
  · exact heq.trans hd
  · exact absurd hd hmove.ne_reset

/-- The slot holds a connection that was reset. -/
def TcpStack.ResetAt (s : TcpStack) (i : ConnIdx) : Prop :=
  ∃ c, s.connTable i = some c ∧ c.state = .reset

/-- The states of a run after `s` until the connection of the slot is closed. -/
abbrev UntilClosed (i : ConnIdx) : TcpStack → TcpStack → Prop :=
  Runs.Run (fun s (call : NetEnv × Event) ↦ step call.1 s call.2)
    fun s call ↦ call.2.Allowed s ∧ call.2 ≠ .close i

theorem UntilClosed.resetAt {s t : TcpStack} {i : ConnIdx} (h : UntilClosed i s t)
    (hs : s.ResetAt i) : t.ResetAt i := by
  refine Runs.Run.invariant (P := (·.ResetAt i)) h hs ?_
  rintro s call s' ⟨c, hc, hst⟩ ⟨he, hclose⟩ hstep
  obtain ⟨hgen, d, hd, -⟩ := step_spared he hclose hstep c hc (kept_reset hst)
  obtain ⟨k, hev⟩ := evolves_of_generation he hstep hc hd hgen
  exact ⟨d, hd, hev.reset hst⟩

/-- The route, the window or the pool keeps every fragment back. -/
def SendBlocked : Except Errno ℕ → Prop
  | .ok ipMtu => fragmentCount (fragmentLen c payload ipMtu) payload.length
      (tcpSendWindowAvail c) = 0 ∨ g.sbqAvail = 0
  | .error _ => True

/-- What a send does to a connection that was reset. -/
structure ResetSend (s : TcpStack) (i : ConnIdx) (payload : List U8) (ipMtu : Except Errno ℕ)
    (r : Except Errno (ℕ × Bool) × TcpStack) : Prop where
  closed : ∀ n closed, r.1 = .ok (n, closed) → closed = true
  stays : r.2.ResetAt i
  blocked : ∀ c, s.connTable i = some c → SendBlocked c s.glob payload ipMtu →
    r.2.connTable i = some c ∧ r.2.glob = s.glob
  queued : ∀ c d, s.connTable i = some c → r.2.connTable i = some d →
    ¬SendBlocked c s.glob payload ipMtu → c.sendQueue.length < d.sendQueue.length

/-- The slot of the first connection of a server. -/
abbrev firstConn : ConnIdx := ⟨1, one_lt_tcpConnMaxNum⟩

end Mazu.Tcp
