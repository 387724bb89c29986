import Mazu.Tcp.Invariant

/-!
# When a connection is due, and what serving it achieves

`tcp_conn_next_event_ms` takes the earliest of all timers of a connection, while
`tcp_poll_retransmit_conn` looks at some of them only: not at the internal timeout, and of the send
queue not past the first entry that is unacknowledged. `Serviced` says which due connections one
call deals with.
-/

namespace Mazu.Tcp

open List BitVec

/-! ## The earliest timer -/

/-- What is true of all later times as well holds of the minimum when it holds of every timer. -/
theorem foldl_min_iff {P : U64 → Prop} (hP : ∀ {x y : U64}, x ≤ y → P x → P y) (timers : List U64)
    (next : U64) :
    P (timers.foldl (fun next x ↦ if x < next then x else next) next) ↔
      P next ∧ ∀ x ∈ timers, P x := by
  induction timers generalizing next with
  | nil => simp
  | cons x timers ih =>
    rw [foldl_cons, ih, forall_mem_cons]
    by_cases hx : x < next
    · rw [if_pos hx]
      exact ⟨fun h ↦ ⟨hP (BitVec.le_of_lt hx) h.1, h⟩, fun h ↦ h.2⟩
    · rw [if_neg hx]
      exact ⟨fun h ↦ ⟨h.1, hP (BitVec.not_lt.mp hx) h.1, h.2⟩, fun h ↦ ⟨h.1, h.2.2⟩⟩

/-- **The next event** lies after `now` exactly when every timer does. -/
theorem lt_nextEvent_iff {now : U64} (c : TcpConn) :
    now < tcpConnNextEventMs c ↔ now ≠ timeMsMax ∧ ∀ t ∈ tcpConnTimers c, now < t := by
  rw [tcpConnNextEventMs,
    foldl_min_iff (P := (now < ·)) fun hxy hx ↦ Nat.lt_of_lt_of_le hx hxy]
  have hmax : now < timeMsMax ↔ now ≠ timeMsMax := by
    rw [← BitVec.not_le, timeMsMax_le_iff]
  rw [hmax]

/-- A timer armed now does not fire now. -/
theorem lt_fireTime_self {now delta : U64} (hmax : now ≠ timeMsMax) (hpos : 0 < delta.toNat) :
    now < fireTime now delta := by
  rw [fireTime]
  split_ifs with hwrap
  · rw [← BitVec.not_le, timeMsMax_le_iff]
    exact hmax
  · have hge : now ≤ now + delta := BitVec.not_lt.mp hwrap
    rw [lt_def]
    rw [le_def] at hge
    have hne : now.toNat ≠ (now + delta).toNat := by
      rw [toNat_add]
      omega
    omega

/-- A timer whose time has not passed, as the service computes it, is not due. -/
theorem lt_fireTime_of_sub_lt {now base delta : U64} (hmax : now ≠ timeMsMax)
    (h : now - base < delta) : now < fireTime base delta := by
  rw [fireTime]
  split_ifs with hwrap
  · rw [← BitVec.not_le, timeMsMax_le_iff]
    exact hmax
  · rw [lt_def, toNat_sub] at h
    rw [lt_def, toNat_add] at hwrap
    rw [lt_def, toNat_add]
    omega

/-- The same for the test of a retransmission, which adds and does not guard against a wrap. -/
theorem lt_fireTime_of_lt_add {now base delta : U64} (hmax : now ≠ timeMsMax)
    (h : ¬ now ≥ base + delta) : now < fireTime base delta := by
  rw [fireTime]
  split_ifs
  · rw [← BitVec.not_le, timeMsMax_le_iff]
    exact hmax
  · exact BitVec.not_le.mp h

/-! ## What one call deals with -/

/-- An entry the walk reaches was sent too often. -/
def queueExhausted (unack : U32) : List SendBufQueue → Bool
  | [] => false
  | sbq :: rest =>
    decide (sbq.nTransmissions > 8) || (seqGeq unack sbq.requiredAck && queueExhausted unack rest)

/-- The unacknowledged entries the walk does not reach. -/
def laterUnacked (unack : U32) : List SendBufQueue → List SendBufQueue
  | [] => []
  | sbq :: rest =>
    if seqGeq unack sbq.requiredAck then laterUnacked unack rest
    else rest.filter fun sbq ↦ !seqGeq unack sbq.requiredAck

/-- The connection has a timer that has fired, so that it stands in the heap and is due. -/
def TcpConn.Due (now : U64) (c : TcpConn) : Prop :=
  c.state ≠ .reset ∧ tcpConnNextEventMs c ≠ timeMsMax ∧ tcpConnNextEventMs c ≤ now

/-- The loop frees or resets it for its internal timeout. -/
def TcpConn.Expired (now : U64) (c : TcpConn) : Prop :=
  (tcpConnIsInternal c ∨ c.state = .synSent) ∧ now ≥ c.internalTimeout

/-- Keep-alive gives up. -/
def TcpConn.KeepaliveDead (now : U64) (c : TcpConn) : Prop :=
  c.state = .established ∧ now - c.lastActivityMs ≥ keepaliveIdle c ∧
    c.keepaliveProbes ≥ tcpConnKeepaliveCnt

/-- Nothing that the service does not look at has fired. -/
def TcpConn.Rearmable (now : U64) (c : TcpConn) : Prop :=
  now ≠ timeMsMax ∧ now < c.internalTimeout ∧
    ∀ sbq ∈ laterUnacked c.sendUnack c.sendQueue, now < fireTime sbq.lastTry sbq.retryAfter

/-- **Which connections one pass deals with**: it ends them, or it can move all their timers. -/
def TcpConn.Serviced (now : U64) (c : TcpConn) : Prop :=
  c.Expired now ∨ c.KeepaliveDead now ∨ queueExhausted c.sendUnack c.sendQueue = true ∨
    c.Rearmable now

section

variable (now : U64) (c : TcpConn)

instance : Decidable (c.Due now) := inferInstanceAs (Decidable (_ ∧ _))

instance : Decidable (c.Expired now) := inferInstanceAs (Decidable (_ ∧ _))

instance : Decidable (c.KeepaliveDead now) := inferInstanceAs (Decidable (_ ∧ _))

instance : Decidable (c.Rearmable now) := inferInstanceAs (Decidable (_ ∧ _))

instance : Decidable (c.Serviced now) := inferInstanceAs (Decidable (_ ∨ _))

end

/-! ## The walk over the queue -/

/-- The fields the timers and their service read, the queue apart. -/
structure SameTimers (c d : TcpConn) : Prop where
  state : d.state = c.state
  internalTimeout : d.internalTimeout = c.internalTimeout
  lastActivityMs : d.lastActivityMs = c.lastActivityMs
  keepaliveProbes : d.keepaliveProbes = c.keepaliveProbes
  zeroWindowSinceMs : d.zeroWindowSinceMs = c.zeroWindowSinceMs
  sendWindowReal : d.sendWindowReal = c.sendWindowReal
  sendUnack : d.sendUnack = c.sendUnack

/-- A segment that was handed over, with the connection it was sent for. -/
theorem noqueue_sameTimers (env : NetEnv) (c : TcpConn) (g : Globals) (flags : U8) (seqNum : U32)
    (cksum : U16) (payload : List U8) :
    SameTimers c (tcpSendSegmentNoqueue env c g flags seqNum cksum payload).2.1
      ∧ (tcpSendSegmentNoqueue env c g flags seqNum cksum payload).2.1.sendQueue = c.sendQueue := by
  obtain ⟨window, ackSent, h⟩ := tcpSendSegmentNoqueue_conn env c g flags seqNum cksum payload
  rw [h]
  exact ⟨⟨rfl, rfl, rfl, rfl, rfl, rfl, rfl⟩, rfl⟩

/-- What is left in the queue is not due, apart from the entries the walk does not reach. -/
structure Walked (now : U64) (unack : U32) (q q' : List SendBufQueue) : Prop where
  later : ∀ sbq ∈ laterUnacked unack q, sbq ∈ q' ∧ seqGeq unack sbq.requiredAck = false
  armed : now ≠ timeMsMax → ∀ sbq ∈ q', seqGeq unack sbq.requiredAck = false →
    sbq ∈ laterUnacked unack q ∨ now < fireTime sbq.lastTry sbq.retryAfter

theorem walked_cons {now : U64} {unack : U32} {sbq sbq' : SendBufQueue}
    {rest : List SendBufQueue} (ha : ¬ seqGeq unack sbq.requiredAck = true)
    (harm : now ≠ timeMsMax → now < fireTime sbq'.lastTry sbq'.retryAfter) :
    Walked now unack (sbq :: rest) (sbq' :: rest) := by
  have hlater : laterUnacked unack (sbq :: rest)
      = rest.filter fun sbq ↦ !seqGeq unack sbq.requiredAck := by
    rw [laterUnacked, if_neg ha]
  refine ⟨fun x hx ↦ ?_, fun hmax x hx hun ↦ ?_⟩
  · rw [hlater, mem_filter] at hx
    exact ⟨mem_cons_of_mem _ hx.1, by simpa using hx.2⟩
  · rcases mem_cons.mp hx with rfl | hx
    · exact .inr (harm hmax)
    · rw [hlater]
      exact .inl (mem_filter.mpr ⟨hx, by simp [hun]⟩)

/-- **The walk.** It ends the connection when an entry it reaches was sent too often. Otherwise it
sends at most one entry, and unless that fails nothing it reaches is still due. -/
theorem Retransmits.spec {env : NetEnv} {c : TcpConn} {g : Globals} {q : List SendBufQueue}
    {o : Outcome} (h : Retransmits env c g q o) :
    (queueExhausted c.sendUnack q = true ∧ o.res = resultOk ∧
      (o.freed = true ∨ o.conn.state = .reset)) ∨
    (queueExhausted c.sendUnack q = false ∧ o.freed = false ∧ SameTimers c o.conn ∧
      ((∃ e, o.res = .error e) ∨
        (o.res = resultOk ∧ ((∀ sbq ∈ q, sbq.Ok) →
          Walked env.now c.sendUnack q o.conn.sendQueue)))) := by
  have hself : ∀ {sbq rest}, ¬sbq.nTransmissions > 8 → ¬seqGeq c.sendUnack sbq.requiredAck = true →
      queueExhausted c.sendUnack (sbq :: rest) = false := fun hn ha ↦ by
    simp [queueExhausted, hn, ha]
  induction h with
  | done =>
    refine .inr ⟨rfl, rfl, ⟨rfl, rfl, rfl, rfl, rfl, rfl, rfl⟩, .inr ⟨rfl, fun _ ↦ ?_⟩⟩
    exact ⟨fun x hx ↦ absurd hx not_mem_nil, fun _ x hx ↦ absurd hx not_mem_nil⟩
  | giveUp hn _ hsent =>
    obtain ⟨⟨window, ackSent, rfl⟩, -, -⟩ := hsent
    exact .inl ⟨by simp [queueExhausted, hn], rfl, .inr rfl⟩
  | free hn => exact .inl ⟨by simp [queueExhausted, hn], rfl, .inl rfl⟩
  | @acked g sbq rest o hn ha _ ih =>
    -- an acknowledged entry is released and the walk goes on
    have hex : queueExhausted c.sendUnack (sbq :: rest) = queueExhausted c.sendUnack rest := by
      simp [queueExhausted, hn, ha]
    have hlater : laterUnacked c.sendUnack (sbq :: rest) = laterUnacked c.sendUnack rest := by
      rw [laterUnacked, if_pos ha]
    rw [hex]
    rcases ih with h | ⟨h1, h2, h3, h4⟩
    · exact .inl h
    · refine .inr ⟨h1, h2, h3, h4.imp id fun h ↦ ⟨h.1, fun hok ↦ ?_⟩⟩
      have hwalk := h.2 fun x hx ↦ hok x (mem_cons_of_mem _ hx)
      exact ⟨by rw [hlater]; exact hwalk.later, by rw [hlater]; exact hwalk.armed⟩
  | failed hn ha e hsent =>
    obtain ⟨⟨window, ackSent, rfl⟩, -, -⟩ := hsent
    exact .inr ⟨hself hn ha, rfl, ⟨rfl, rfl, rfl, rfl, rfl, rfl, rfl⟩, .inl ⟨e, rfl⟩⟩
  | @resent g g' sbq rest d x hn ha hsent hx =>
    have hfire : sbq.Ok → env.now ≠ timeMsMax → env.now < fireTime env.now (sbq.retryAfter * 2) :=
      fun hok hmax ↦ lt_fireTime_self hmax (hok.again (by omega) env.now).retry_pos
    obtain ⟨⟨window, ackSent, rfl⟩, -, -⟩ := hsent
    refine .inr ⟨hself hn ha, rfl, ?_⟩
    rcases hx with rfl | rfl <;>
      exact ⟨⟨rfl, rfl, rfl, rfl, rfl, rfl, rfl⟩, .inr ⟨rfl, fun hok ↦
        walked_cons ha (hfire (hok sbq mem_cons_self))⟩⟩
  | wait hn ha hd =>
    exact .inr ⟨hself hn ha, rfl, ⟨rfl, rfl, rfl, rfl, rfl, rfl, rfl⟩,
      .inr ⟨rfl, fun _ ↦ walked_cons ha fun hmax ↦ lt_fireTime_of_lt_add hmax hd⟩⟩

/-! ## One service call -/

/-- The timers of an established connection that are not in the queue. -/
theorem forall_timers_iff {P : U64 → Prop} (c : TcpConn) :
    (∀ t ∈ tcpConnTimers c, P t) ↔
      P c.internalTimeout ∧
      (c.state = .established → P (fireTime c.lastActivityMs (keepaliveIdle c)) ∧
        (c.zeroWindowSinceMs ≠ 0 → P (fireTime c.zeroWindowSinceMs tcpConnPersistRtoMs))) ∧
      ∀ sbq ∈ c.sendQueue, seqGeq c.sendUnack sbq.requiredAck = false →
        P (fireTime sbq.lastTry sbq.retryAfter) := by
  have hqueue : (∀ t ∈ sbqFireTimes c, P t) ↔
      ∀ sbq ∈ c.sendQueue, seqGeq c.sendUnack sbq.requiredAck = false →
        P (fireTime sbq.lastTry sbq.retryAfter) := by
    simp only [sbqFireTimes, List.forall_mem_map, List.mem_filter, Bool.not_eq_true', and_imp]
  rw [tcpConnTimers, List.cons_append, List.forall_mem_cons, List.forall_mem_append, hqueue]
  refine and_congr_right fun _ ↦ and_congr_left fun _ ↦ ?_
  by_cases hst : c.state = .established
  · by_cases hz : c.zeroWindowSinceMs = 0
    · simp [hz]
    · simp [hst]
  · simp [hst]

/-- The keep-alive and persist timers are not due once they were served. -/
structure Probed (now : U64) (c : TcpConn) : Prop where
  keepalive : now ≠ timeMsMax → c.state = .established →
    now < fireTime c.lastActivityMs (keepaliveIdle c)
  persist : now ≠ timeMsMax → c.state = .established → c.zeroWindowSinceMs ≠ 0 →
    now < fireTime c.zeroWindowSinceMs tcpConnPersistRtoMs

/-- After a walk that ended nothing, the connection can wait exactly when nothing out of the reach
of the service has fired. -/
theorem lt_nextEvent_of_walked {now : U64} {c d : TcpConn} (hsame : SameTimers c d)
    (hprobed : Probed now c) (hwalk : Walked now c.sendUnack c.sendQueue d.sendQueue) :
    now < tcpConnNextEventMs d ↔ c.Rearmable now := by
  rw [lt_nextEvent_iff, forall_timers_iff]
  refine and_congr_right fun hmax ↦ ?_
  rw [hsame.internalTimeout, hsame.sendUnack]
  refine and_congr_right fun _ ↦ ?_
  have hidle : keepaliveIdle d = keepaliveIdle c := by
    rw [keepaliveIdle, keepaliveIdle, hsame.keepaliveProbes]
  rw [hsame.state, hsame.lastActivityMs, hidle, hsame.zeroWindowSinceMs]
  constructor
  · rintro ⟨-, h⟩ sbq hsbq
    obtain ⟨hmem, hun⟩ := hwalk.later sbq hsbq
    exact h sbq hmem hun
  · intro h
    refine ⟨fun hst ↦ ⟨hprobed.keepalive hmax hst, hprobed.persist hmax hst⟩, ?_⟩
    intro sbq hmem hun
    rcases hwalk.armed hmax sbq hmem hun with hl | hlt
    · exact h sbq hl
    · exact hlt

/-- How a service call can end. -/
inductive ServiceEnd (now : U64) (c : TcpConn) (o : Outcome) : Prop
  | failed (e : Errno) (h : o.res = .error e)
  | ended (hres : o.res = resultOk) (h : o.freed = true ∨ o.conn.state = .reset)
      (hwhy : c.KeepaliveDead now ∨ queueExhausted c.sendUnack c.sendQueue = true)
  | kept (hres : o.res = resultOk) (hfreed : o.freed = false) (hstate : o.conn.state = c.state)
      (hdead : ¬ c.KeepaliveDead now) (hex : queueExhausted c.sendUnack c.sendQueue = false)
      (hnext : now < tcpConnNextEventMs o.conn ↔ c.Rearmable now)

/-- The walk, as the end of a call on `c` that has probed and become `d`. -/
theorem serviceEnd_of_walk (env : NetEnv) {c d : TcpConn} (g : Globals)
    (hok : ∀ sbq ∈ d.sendQueue, sbq.Ok) (hprobed : Probed env.now d)
    (hstate : d.state = c.state) (htimeout : d.internalTimeout = c.internalTimeout)
    (hunack : d.sendUnack = c.sendUnack) (hqueue : d.sendQueue = c.sendQueue)
    (hdead : ¬ c.KeepaliveDead env.now) :
    ServiceEnd env.now c (tcpPollRetransmitQueue env d g d.sendQueue) := by
  rcases (tcpPollRetransmitQueue_retransmits env d g d.sendQueue).spec
    with ⟨hex, hres, hend⟩ | ⟨hex, hfreed, hsame, hres⟩
  · rw [hunack, hqueue] at hex
    exact .ended hres hend (.inr hex)
  · rcases hres with ⟨e, he⟩ | ⟨hres, hwalk⟩
    · exact .failed e he
    · have hnext := lt_nextEvent_of_walked hsame hprobed (hwalk hok)
      have hre : d.Rearmable env.now ↔ c.Rearmable env.now := by
        rw [TcpConn.Rearmable, TcpConn.Rearmable, htimeout, hunack, hqueue]
      rw [hunack, hqueue] at hex
      exact .kept hres hfreed (hsame.state.trans hstate) hdead hex (hnext.trans hre)

theorem keepaliveIdle_pos (c : TcpConn) : 0 < (keepaliveIdle c).toNat := by
  rw [keepaliveIdle]
  split_ifs <;> decide

/-- **The service of one connection.** A call fails, or ends the connection for one of two reasons,
or keeps it; and then the connection can wait exactly when it was rearmable. -/
theorem tcpPollRetransmitConn_end (env : NetEnv) {c : TcpConn} (hinv : ConnInv c) (g : Globals) :
    ServiceEnd env.now c (tcpPollRetransmitConn env c g) := by
  have hserved := tcpPollRetransmitConn_served env c g
  generalize tcpPollRetransmitConn env c g = o at hserved ⊢
  cases hserved with
  | dead hst hidle hcnt => exact .ended rfl (.inr rfl) (.inl ⟨hst, hidle, hcnt⟩)
  | failed e => exact .failed e rfl
  | walk h hdead halive hpersist =>
    refine serviceEnd_of_walk env _ (h.sendQueue ▸ hinv.queue) ⟨fun hmax hst ↦ ?_, ?_⟩ h.state
      h.internalTimeout h.sendUnack h.sendQueue hdead
    · rcases halive hst with hnow | hidle
      · rw [hnow]
        exact lt_fireTime_self hmax (keepaliveIdle_pos _)
      · exact lt_fireTime_of_sub_lt hmax (BitVec.not_le.mp hidle)
    · intro hmax hst hz
      rcases hpersist hst hz with hnow | ⟨hsince, hopen⟩
      · rw [hnow]
        exact lt_fireTime_self hmax (by decide : 0 < tcpConnPersistRtoMs.toNat)
      · rw [hsince] at hz
        exact lt_fireTime_of_sub_lt hmax (BitVec.not_le.mp fun hle ↦ hopen ⟨hinv.persist hz, hle⟩)

end Mazu.Tcp
