import Mazu.Tcp.User

/-!
# Runs of the TCP stack

Everything outside the module reaches it through one of nine entry points, each under the pool lock.
A run is a sequence of such calls in any order, and each call has an environment of its own: the
clock and the IP layer may answer anything.
-/

namespace Mazu.Tcp

/-- One call into the module. -/
inductive Event
  | listen (addr : Ipv4Addr) (port : U16)
  | connect (remoteAddr : Ipv4Addr) (remotePort : U16)
  | accept (l : ConnIdx)
  | send (i : ConnIdx) (payload : List U8) (ipMtu : Except Errno ℕ)
  | recv (i : ConnIdx) (buf : ByteBuf)
  | close (i : ConnIdx)
  | packet (hostAddr peerAddr : Ipv4Addr) (seg : Segment)
  | poll (fuel : ℕ)
  | pmtu (dest : Ipv4Addr) (newMtu : U16)

variable (seed : U32) (s : TcpStack) (calls : List (NetEnv × Event))

/-- The user may hold the connection: it is in a state that is only left for an internal one by
`tcp_conn_close`. -/
def TcpStack.userHolds (i : ConnIdx) : Bool :=
  (s.connTable i).any tcpConnNeedsUserClose

def TcpStack.listens (i : ConnIdx) : Bool :=
  (s.connTable i).any fun c ↦ c.state == .listen

/-- What the callers guarantee. Users pass connections they hold, the route has room for a TCP
header, and `tcp_handle_packet` has dropped a segment that comes from `0.0.0.0`. -/
def Event.Allowed : Event → Prop
  | .accept l => s.listens l
  | .send i _ ipMtu => s.userHolds i ∧ ∀ n, ipMtu = .ok n → 20 ≤ n
  | .recv i _ => s.userHolds i
  | .close i => s.userHolds i ∨ s.listens i
  | .packet _ peerAddr _ => peerAddr ≠ ipv4AddrAny
  | _ => True

/-- The state after a call, or nothing for a poll that needs more than its fuel. -/
def step (env : NetEnv) (s : TcpStack) : Event → Option TcpStack
  | .listen addr port => some (tcpConnListen env s addr port).2
  | .connect remoteAddr remotePort => some (tcpConnConnect env s remoteAddr remotePort).2
  | .accept l => some (tcpConnAccept s l).2
  | .send i payload ipMtu => some (tcpConnSend env s i payload ipMtu).2
  | .recv i buf => some (tcpConnRecv s i buf).2.2.2
  | .close i => some (tcpConnClose env s i).2
  | .packet hostAddr peerAddr seg => some (tcpHandlePacketLocked env s hostAddr peerAddr seg).2
  | .poll fuel => (tcpPollRetransmit env s fuel).map Prod.snd
  | .pmtu dest newMtu => some (tcpPmtuUpdate s dest newMtu)

/-- The states the module can be in. -/
inductive Reachable : TcpStack → Prop
  | init (hashSeed : U32) : Reachable (tcpInit hashSeed)
  | step {s s' : TcpStack} (env : NetEnv) (e : Event) (hs : Reachable s) (he : e.Allowed s)
      (h : step env s e = some s') : Reachable s'

/-- **The invariant rule.** What holds initially and is kept by every allowed call holds in every
reachable state. -/
theorem Reachable.invariant {P : TcpStack → Prop} (hinit : ∀ seed, P (tcpInit seed))
    (hstep : ∀ env s e s', P s → Event.Allowed s e → Tcp.step env s e = some s' → P s')
    {s : TcpStack} (h : Reachable s) : P s := by
  induction h with
  | init seed => exact hinit seed
  | step env e _ he h ih => exact hstep env _ e _ ih he h

/-- The calls of a run from power-on, each with the states before and after it. -/
inductive Run : List (TcpStack × Event × TcpStack) → TcpStack → Prop
  | init (hashSeed : U32) : Run [] (tcpInit hashSeed)
  | step {calls : List (TcpStack × Event × TcpStack)} {s s' : TcpStack} (env : NetEnv) (e : Event)
      (hrun : Run calls s) (he : e.Allowed s) (h : step env s e = some s') :
      Run ((s, e, s') :: calls) s'

theorem Run.reachable {calls : List (TcpStack × Event × TcpStack)} {s : TcpStack}
    (h : Run calls s) : Reachable s := by
  induction h with
  | init seed => exact .init seed
  | step env e _ he h ih => exact ih.step env e he h

theorem Reachable.exists_run {s : TcpStack} (h : Reachable s) : ∃ calls, Run calls s := by
  induction h with
  | init seed => exact ⟨[], .init seed⟩
  | step env e _ he h ih =>
    obtain ⟨calls, hrun⟩ := ih
    exact ⟨_, hrun.step env e he h⟩

/-- Every call of a run is an allowed call in a reachable state. -/
theorem Run.of_mem {calls : List (TcpStack × Event × TcpStack)} {s t t' : TcpStack} {e : Event}
    (h : Run calls s) (hm : (t, e, t') ∈ calls) :
    Reachable t ∧ e.Allowed t ∧ ∃ env, Tcp.step env t e = some t' := by
  induction h with
  | init => cases hm
  | step env e hrun he h ih =>
    rcases List.mem_cons.mp hm with heq | hm
    · cases heq
      exact ⟨hrun.reachable, he, env, h⟩
    · exact ih hm

/-! ## Executable runs -/

instance (s : TcpStack) (e : Event) : Decidable (e.Allowed s) :=
  match e with
  | .accept _ => inferInstanceAs (Decidable (_ = true))
  | .send i _ (.ok n) => decidable_of_iff (s.userHolds i = true ∧ 20 ≤ n)
      (and_congr_right fun _ ↦ ⟨fun h _ hm ↦ by cases hm; exact h, fun h ↦ h n rfl⟩)
  | .send i _ (.error _) => decidable_of_iff (s.userHolds i = true)
      ⟨fun h ↦ ⟨h, fun _ hm ↦ by cases hm⟩, fun h ↦ h.1⟩
  | .recv _ _ => inferInstanceAs (Decidable (_ = true))
  | .close _ => inferInstanceAs (Decidable (_ ∨ _))
  | .packet _ _ _ => inferInstanceAs (Decidable (_ ≠ _))
  | .listen _ _ => inferInstanceAs (Decidable True)
  | .connect _ _ => inferInstanceAs (Decidable True)
  | .poll _ => inferInstanceAs (Decidable True)
  | .pmtu _ _ => inferInstanceAs (Decidable True)

/-- A clock, and an IP layer behind the interface address `addr` that takes every segment. -/
def NetEnv.sending (now : U64) (addr : Ipv4Addr) (isn : U32) : NetEnv :=
  ⟨now, fun _ ↦ .ok addr, fun _ ↦ resultOk, isn⟩

/-- A segment of a bare header. -/
def Segment.bare (srcPort destPort : U16) (seqNum ackNum : U32) (flags : U8)
    (windowSize : U16) : Segment where
  srcPort := srcPort
  destPort := destPort
  seqNum := seqNum
  ackNum := ackNum
  headerLen := tcpHdrLenNoOpt
  flags := flags
  windowSize := windowSize
  body := []
  headerLen_ge := le_refl _
  headerLen_lt := by decide
  header_le := by decide
  length_le := by decide

/-- A segment with a payload and no options. -/
def Segment.data (srcPort destPort : U16) (seqNum ackNum : U32) (flags : U8) (windowSize : U16)
    (payload : List U8) (h : payload.length ≤ 65495) : Segment where
  srcPort := srcPort
  destPort := destPort
  seqNum := seqNum
  ackNum := ackNum
  headerLen := tcpHdrLenNoOpt
  flags := flags
  windowSize := windowSize
  body := payload
  headerLen_ge := le_refl _
  headerLen_lt := by decide
  header_le := Nat.le_add_right _ _
  length_le := by omega

/-- A sequence of calls, as far as each is allowed and returns. -/
def runCalls : List (NetEnv × Event) → TcpStack → Option TcpStack
  | [], s => some s
  | (env, e) :: calls, s => if e.Allowed s then (step env s e).bind (runCalls calls) else none

/-- The addresses of the runs below. -/
def hostA : Ipv4Addr := ⟨10, 0, 0, 1⟩

def peerA : Ipv4Addr := ⟨10, 0, 0, 2⟩

theorem zero_lt_tcpConnMaxNum : 0 < tcpConnMaxNum := by decide

theorem one_lt_tcpConnMaxNum : 1 < tcpConnMaxNum := by decide

theorem two_lt_tcpConnMaxNum : 2 < tcpConnMaxNum := by decide

/-- A listener on port 80, and a peer on port 5000 that completes a handshake with it. -/
def serverHandshake : List (NetEnv × Event) :=
  [(.sending 0 hostA 1000, .listen hostA 80),
    (.sending 0 hostA 1000, .packet hostA peerA (.bare 5000 80 1 0 tcpHdrFlagSyn 1000)),
    (.sending 1 hostA 1000, .packet hostA peerA (.bare 5000 80 2 1001 tcpHdrFlagAck 1000))]

/-- A test of the packets among the calls. -/
def Event.packetAll (p : Ipv4Addr → Ipv4Addr → Segment → Bool) : Event → Bool
  | .packet hostAddr peerAddr seg => p hostAddr peerAddr seg
  | _ => true

/-- A run of calls leads from a reachable state to a reachable state. -/
theorem Reachable.runCalls {calls : List (NetEnv × Event)} :
    ∀ {s s' : TcpStack}, Reachable s → Tcp.runCalls calls s = some s' → Reachable s' := by
  induction calls with
  | nil =>
    intro s s' hs h
    cases h
    exact hs
  | cons call calls ih =>
    intro s s' hs h
    obtain ⟨env, e⟩ := call
    rw [Tcp.runCalls] at h
    by_cases he : e.Allowed s
    · rw [if_pos he] at h
      obtain ⟨t, ht, h⟩ := Option.bind_eq_some_iff.mp h
      exact ih (hs.step env e he ht) h
    · rw [if_neg he] at h
      cases h

/-- A test that a run of calls passes holds in a reachable state. -/
theorem exists_reachable_of_runCalls (p : TcpStack → Bool)
    (h : (runCalls calls (tcpInit seed)).any p = true) : ∃ s, Reachable s ∧ p s = true := by
  cases hs : runCalls calls (tcpInit seed) with
  | none =>
    rw [hs] at h
    cases h
  | some s =>
    rw [hs] at h
    exact ⟨s, (Reachable.init seed).runCalls hs, h⟩

/-- The same for a test of the connection in one slot. -/
theorem exists_conn_of_runCalls (i : ConnIdx) (p : TcpStack → TcpConn → Bool)
    (h : (runCalls calls (tcpInit seed)).any (fun s ↦ (s.connTable i).any (p s)) = true) :
    ∃ s c, Reachable s ∧ s.connTable i = some c ∧ p s c = true := by
  obtain ⟨s, hs, hp⟩ := exists_reachable_of_runCalls seed calls _ h
  obtain ⟨c, hc, hpc⟩ := (Option.any_eq_true _ _).mp hp
  exact ⟨s, c, hs, hc, hpc⟩

/-- The calls of a run with the states around each, latest first. -/
def traceCalls : List (NetEnv × Event) → TcpStack → List (TcpStack × Event × TcpStack) →
    Option (List (TcpStack × Event × TcpStack) × TcpStack)
  | [], s, done => some (done, s)
  | (env, e) :: calls, s, done =>
    if e.Allowed s then (step env s e).bind fun s' ↦ traceCalls calls s' ((s, e, s') :: done)
    else none

theorem Run.traceCalls {calls : List (NetEnv × Event)} :
    ∀ {s s' : TcpStack} {done all : List (TcpStack × Event × TcpStack)}, Run done s →
      Tcp.traceCalls calls s done = some (all, s') → Run all s' := by
  induction calls with
  | nil =>
    intro s s' done all hs h
    cases h
    exact hs
  | cons call calls ih =>
    intro s s' done all hs h
    obtain ⟨env, e⟩ := call
    rw [Tcp.traceCalls] at h
    by_cases he : e.Allowed s
    · rw [if_pos he] at h
      obtain ⟨t, ht, h⟩ := Option.bind_eq_some_iff.mp h
      exact ih (hs.step env e he ht) h
    · rw [if_neg he] at h
      cases h

/-- A test that the calls of a run pass holds of a run. -/
theorem exists_run_of_traceCalls (p : List (TcpStack × Event × TcpStack) × TcpStack → Bool)
    (h : (traceCalls calls (tcpInit seed) []).any p = true) :
    ∃ all s, Run all s ∧ p (all, s) = true := by
  obtain ⟨⟨all, s⟩, hall, hp⟩ := (Option.any_eq_true _ _).mp h
  exact ⟨all, s, (Run.init seed).traceCalls hall, hp⟩

end Mazu.Tcp
