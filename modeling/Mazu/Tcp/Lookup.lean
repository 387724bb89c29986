import Mazu.Tcp.Endpoints

/-!
# Which connection an arriving segment is given to

A segment belongs to the connection with its 4-tuple or, if there is none, to a listener on its
destination. The lookup finds the first by the hash chains. For the second it scans the table with
wildcards on both sides, and a zero in the packet counts as a wildcard too, so the scan can stop at
a connection of another peer before it comes to a listener.
-/

namespace Mazu.Tcp

open List

variable {s : TcpStack} {hostAddr peerAddr : Ipv4Addr} {hostPort peerPort : U16}

/-- A connection with this 4-tuple, which is no listener. -/
def TcpConn.Connects (hostAddr peerAddr : Ipv4Addr) (hostPort peerPort : U16) (c : TcpConn) : Prop :=
  c.state ≠ .listen ∧ exactMatch hostAddr peerAddr hostPort peerPort c = true

/-- A listener bound to this address and port. -/
def TcpConn.ListensOn (hostAddr : Ipv4Addr) (hostPort : U16) (c : TcpConn) : Prop :=
  c.state = .listen ∧ c.hostAddr = hostAddr ∧ c.hostPort = hostPort

instance : DecidablePred (TcpConn.Connects hostAddr peerAddr hostPort peerPort) :=
  fun _ ↦ inferInstanceAs (Decidable (_ ∧ _))

instance : DecidablePred (TcpConn.ListensOn hostAddr hostPort) :=
  fun _ ↦ inferInstanceAs (Decidable (_ ∧ _))

variable {c d : TcpConn} {p : TcpConn → Bool} {i j : ConnIdx}

theorem exactMatch_iff : exactMatch hostAddr peerAddr hostPort peerPort c = true ↔
    c.hostAddr = hostAddr ∧ c.hostPort = hostPort ∧ c.peerAddr = peerAddr ∧ c.peerPort = peerPort := by
  simp only [exactMatch, Bool.and_eq_true, beq_iff_eq, and_assoc]
  rw [eq_comm, eq_comm (a := hostPort), eq_comm (a := peerAddr), eq_comm (a := peerPort)]

/-- A listener without a peer matches every packet for its address and port. -/
theorem TcpConn.ListensOn.wildcardMatch (h : c.ListensOn hostAddr hostPort)
    (hpeer : c.peerAddr = ipv4AddrAny ∧ c.peerPort = 0) :
    Tcp.wildcardMatch hostAddr peerAddr hostPort peerPort c = true := by
  simp [Tcp.wildcardMatch, h.2.1, h.2.2, hpeer.1, hpeer.2]

theorem ends_of_wildcardMatch (h : wildcardMatch hostAddr peerAddr hostPort peerPort c = true) :
    c.hostAddr = hostAddr ∧ c.hostPort = hostPort := by
  simp only [wildcardMatch, Bool.and_eq_true, beq_iff_eq] at h
  exact ⟨h.1.1.1.symm, h.1.1.2.symm⟩

/-! ## The scans -/

theorem find?_conn_eq_none {slots : List ConnIdx} :
    (slots.find? fun i ↦ (s.connTable i).any p) = none ↔
      ∀ i ∈ slots, ∀ c, s.connTable i = some c → ¬p c = true := by
  rw [find?_eq_none]
  refine forall₂_congr fun i _ ↦ ?_
  cases h : s.connTable i with
  | none | some c => simp

theorem find?_conn_eq_some {slots : List ConnIdx}
    (h : (slots.find? fun i ↦ (s.connTable i).any p) = some i) :
    i ∈ slots ∧ ∃ c, s.connTable i = some c ∧ p c = true := by
  have hp := find?_some h
  exact ⟨mem_of_find?_eq_some h, (Option.any_eq_true _ _).mp hp⟩

/-- The scan of the table stops at the first slot that passes the test. -/
theorem not_of_lt_findConn (h : s.findConn p = some i) (hj : j < i)
    (hd : s.connTable j = some d) : ¬p d = true := by
  obtain ⟨-, before, after, hsplit, hno⟩ := find?_eq_some_iff_append.mp h
  have hmem : j ∈ before ++ i :: after := hsplit ▸ mem_finRange j
  have hsorted : (before ++ i :: after).Pairwise (· < ·) :=
    hsplit ▸ pairwise_lt_finRange tcpConnMaxNum
  rcases mem_append.mp hmem with hb | ha
  · have hpd := hno j hb
    rw [hd] at hpd
    simpa using hpd
  · rcases mem_cons.mp ha with rfl | ha
    · exact absurd hj (lt_irrefl _)
    · have hlt := rel_of_pairwise_cons (pairwise_append.mp hsorted).2.1 ha
      exact absurd hj (lt_asymm hlt)

/-- The lookup ends with an exact match, or with the wildcard scan when the table has none. -/
theorem tcpLookupConn_cases (s : TcpStack) (hostAddr peerAddr : Ipv4Addr)
    (hostPort peerPort : U16) :
    (∃ i c, tcpLookupConn s hostAddr peerAddr hostPort peerPort = some i ∧
      s.connTable i = some c ∧ exactMatch hostAddr peerAddr hostPort peerPort c = true ∧
      (i ∈ s.hashTable (tcpHashBucket s.hashSeed hostAddr hostPort peerAddr peerPort) ∨
        ∀ j ∈ s.hashTable (tcpHashBucket s.hashSeed hostAddr hostPort peerAddr peerPort), ∀ d,
          s.connTable j = some d → ¬exactMatch hostAddr peerAddr hostPort peerPort d = true)) ∨
      (∀ j d, s.connTable j = some d →
        ¬exactMatch hostAddr peerAddr hostPort peerPort d = true) ∧
      tcpLookupConn s hostAddr peerAddr hostPort peerPort
        = s.findConn (wildcardMatch hostAddr peerAddr hostPort peerPort) := by
  simp only [tcpLookupConn]
  split
  next i hchain =>
    obtain ⟨hmem, c, hc, hexact⟩ := find?_conn_eq_some hchain
    exact .inl ⟨i, c, rfl, hc, hexact, .inl hmem⟩
  next hchain =>
    split
    next i htable =>
      obtain ⟨-, c, hc, hexact⟩ := find?_conn_eq_some htable
      exact .inl ⟨i, c, rfl, hc, hexact, .inr (find?_conn_eq_none.mp hchain)⟩
    next htable =>
      exact .inr ⟨fun j ↦ find?_conn_eq_none.mp htable j (mem_finRange j), rfl⟩

/-- What the lookup returns is in use and bound to the destination of the packet. -/
theorem ends_of_lookup (h : tcpLookupConn s hostAddr peerAddr hostPort peerPort = some i) :
    ∃ c, s.connTable i = some c ∧ c.hostAddr = hostAddr ∧ c.hostPort = hostPort := by
  rcases tcpLookupConn_cases s hostAddr peerAddr hostPort peerPort
    with ⟨j, c, hj, hc, hexact, -⟩ | ⟨-, hscan⟩
  · cases h.symm.trans hj
    exact ⟨c, hc, (exactMatch_iff.mp hexact).1, (exactMatch_iff.mp hexact).2.1⟩
  · obtain ⟨-, c, hc, hwild⟩ := find?_conn_eq_some (hscan.symm.trans h)
    exact ⟨c, hc, ends_of_wildcardMatch hwild⟩

/-! ## One connection per 4-tuple -/

theorem SameEnds.connects (h : SameEnds c d) :
    d.Connects hostAddr peerAddr hostPort peerPort ↔
      c.Connects hostAddr peerAddr hostPort peerPort := by
  rw [TcpConn.Connects, TcpConn.Connects, exactMatch_iff, exactMatch_iff, h.hostAddr, h.hostPort,
    h.peerAddr, h.peerPort]
  exact and_congr_left fun _ ↦ not_congr h.listens

/-- A connection that is created has a 4-tuple of its own. -/
theorem Creates.not_connects {env : NetEnv} {e : Event} (hs : Reachable s) (he : e.Allowed s)
    (h : Creates env s e c) (hc : c.Connects hostAddr peerAddr hostPort peerPort)
    (hd : s.connTable j = some d) : ¬d.Connects hostAddr peerAddr hostPort peerPort := by
  rintro ⟨-, hdexact⟩
  obtain ⟨hst, hexact⟩ := hc
  cases h with
  | listen => exact hst rfl
  | connect addr remoteAddr remotePort hport =>
    have hnone := Option.isNone_iff_eq_none.mp (Option.isSome_eq_false_iff.mp hport)
    have hfree := find?_conn_eq_none.mp hnone j (mem_finRange j) d hd
    rw [(exactMatch_iff.mp hdexact).2.1, ← (exactMatch_iff.mp hexact).2.1] at hfree
    exact hfree (beq_self_eq_true _)
  | @packet host peer seg l lc hlook hl hlst hadm =>
    -- the listener was found although `d` matches exactly, so it would have to match exactly too
    obtain ⟨lc', hl', hhost, hport⟩ := ends_of_lookup hlook
    cases hl.symm.trans hl'
    obtain ⟨mss, scale, use, hparse⟩ := tcpConnParse_eq env lc seg
    have hends := exactMatch_iff.mp hexact
    simp only [tcpListenChild, hparse, tcpConnNote, hhost, hport]
      at hends
    obtain ⟨rfl, rfl, rfl, rfl⟩ := hends
    rcases tcpLookupConn_cases s host peer seg.destPort seg.srcPort
      with ⟨i, c, hi, hc, hcexact, -⟩ | ⟨hno, -⟩
    · cases hlook.symm.trans hi
      cases hl.symm.trans hc
      have hany := ((hs.slotOk l).listens lc hl hlst).1
      exact he ((exactMatch_iff.mp hcexact).2.2.1.symm.trans hany)
    · exact hno j d hd hdexact

/-- **No two connections of a reachable table share a 4-tuple**, listeners aside. -/
theorem Reachable.unique (hs : Reachable s) (hc : s.connTable i = some c)
    (hd : s.connTable j = some d) (hcc : c.Connects hostAddr peerAddr hostPort peerPort)
    (hdc : d.Connects hostAddr peerAddr hostPort peerPort) : i = j := by
  induction hs generalizing i j c d with
  | init => cases hc
  | @step s s' env e hs he h ih =>
    obtain ⟨f, hev⟩ := step_evolves he h
    -- each of the two was in the table before the call, or the call created it
    rcases (hev.slots i).origin hc with ⟨c₀, hc₀, hci⟩ | ⟨c₀, ⟨hif, hc₀⟩, hci⟩
    · rcases (hev.slots j).origin hd with ⟨d₀, hd₀, hdj⟩ | ⟨d₀, ⟨hjf, hd₀⟩, hdj⟩
      · exact ih hc₀ hd₀ (hci.connects.mp hcc) (hdj.connects.mp hdc)
      · exact absurd (hci.connects.mp hcc) (hd₀.not_connects hs he (hdj.connects.mp hdc) hc₀)
    · rcases (hev.slots j).origin hd with ⟨d₀, hd₀, hdj⟩ | ⟨d₀, ⟨hjf, hd₀⟩, hdj⟩
      · exact absurd (hdj.connects.mp hdc) (hc₀.not_connects hs he (hci.connects.mp hcc) hd₀)
      · exact hif.trans hjf.symm

/-! ## The lookup -/

/-- What the lookup is for: the connection with the 4-tuple of the packet, otherwise a listener bound
to its destination, otherwise nothing. -/
inductive Finds (s : TcpStack) (hostAddr peerAddr : Ipv4Addr) (hostPort peerPort : U16) :
    Option ConnIdx → Prop
  | connected {i : ConnIdx} {c : TcpConn} (h : s.connTable i = some c)
      (hc : c.Connects hostAddr peerAddr hostPort peerPort)
      (hunique : ∀ j d, s.connTable j = some d →
        d.Connects hostAddr peerAddr hostPort peerPort → j = i) :
      Finds s hostAddr peerAddr hostPort peerPort (some i)
  | listening {l : ConnIdx} {lc : TcpConn} (h : s.connTable l = some lc)
      (hl : lc.ListensOn hostAddr hostPort)
      (hno : ∀ j d, s.connTable j = some d →
        ¬d.Connects hostAddr peerAddr hostPort peerPort) :
      Finds s hostAddr peerAddr hostPort peerPort (some l)
  | nothing
      (hno : ∀ j d, s.connTable j = some d →
        ¬d.Connects hostAddr peerAddr hostPort peerPort)
      (hnol : ∀ j d, s.connTable j = some d → ¬d.ListensOn hostAddr hostPort) :
      Finds s hostAddr peerAddr hostPort peerPort none

/-- The 4-tuple has a connection, or a packet without any peer meets a listener, or a listener stands
before every connection that the wildcard scan would stop at. -/
def LookupClear (s : TcpStack) (hostAddr peerAddr : Ipv4Addr) (hostPort peerPort : U16) : Prop :=
  (∃ j d, s.connTable j = some d ∧ d.Connects hostAddr peerAddr hostPort peerPort) ∨
    (peerAddr = ipv4AddrAny ∧ peerPort = 0 ∧
      ∃ l lc, s.connTable l = some lc ∧ lc.ListensOn hostAddr hostPort) ∨
    ∀ j d, s.connTable j = some d → d.state ≠ .listen →
      wildcardMatch hostAddr peerAddr hostPort peerPort d = true →
      ∃ l lc, l < j ∧ s.connTable l = some lc ∧ lc.ListensOn hostAddr hostPort

/-- The hash chains give every connection the packets of its 4-tuple. -/
theorem lookup_of_connects (hs : Reachable s) (hd : s.connTable j = some d)
    (hdc : d.Connects hostAddr peerAddr hostPort peerPort) :
    tcpLookupConn s hostAddr peerAddr hostPort peerPort = some j := by
  obtain ⟨hhost, hport, hpeer, hpport⟩ := exactMatch_iff.mp hdc.2
  have hchain : j ∈ s.hashTable (tcpHashBucket s.hashSeed hostAddr hostPort peerAddr peerPort) := by
    have hmem : d.bucket s.hashSeed ∈ (s.slot j).buckets := by
      rw [(hs.slotOk j).used d hd]
      exact ⟨hdc.1, rfl⟩
    rwa [TcpConn.bucket, hhost, hport, hpeer, hpport] at hmem
  rcases tcpLookupConn_cases s hostAddr peerAddr hostPort peerPort
    with ⟨i, c, hi, hc, hexact, hmem | hmiss⟩ | ⟨hno, -⟩
  · -- what is on a chain is no listener
    have hst : c.state ≠ .listen := by
      have hbucket : _ ∈ (s.slot i).buckets := hmem
      rw [(hs.slotOk i).used c hc] at hbucket
      exact hbucket.1
    rw [hi, hs.unique hc hd ⟨hst, hexact⟩ hdc]
  · exact absurd hdc.2 (hmiss j hchain d hd)
  · exact absurd hdc.2 (hno j d hd)

/-- Where the table has no exact match, the wildcard scan decides. -/
theorem finds_scan_iff (hs : Reachable s)
    (hno : ∀ j d, s.connTable j = some d →
      ¬exactMatch hostAddr peerAddr hostPort peerPort d = true) :
    Finds s hostAddr peerAddr hostPort peerPort
        (s.findConn (wildcardMatch hostAddr peerAddr hostPort peerPort)) ↔
      ∀ j d, s.connTable j = some d → d.state ≠ .listen →
        wildcardMatch hostAddr peerAddr hostPort peerPort d = true →
        ∃ l lc, l < j ∧ s.connTable l = some lc ∧ lc.ListensOn hostAddr hostPort := by
  have hnoc : ∀ j d, s.connTable j = some d →
      ¬d.Connects hostAddr peerAddr hostPort peerPort := by
    rintro j d hd ⟨-, hexact⟩
    exact hno j d hd hexact
  have hwild : ∀ l lc, s.connTable l = some lc → lc.ListensOn hostAddr hostPort →
      wildcardMatch hostAddr peerAddr hostPort peerPort lc = true :=
    fun l lc hl hon ↦ hon.wildcardMatch ((hs.slotOk l).listens lc hl hon.1)
  cases hscan : s.findConn (wildcardMatch hostAddr peerAddr hostPort peerPort) with
  | none =>
    have hmiss := fun j ↦ find?_conn_eq_none.mp hscan j (mem_finRange j)
    constructor
    · intro _ j d hd _ hmatch
      exact absurd hmatch (hmiss j d hd)
    · intro _
      refine .nothing hnoc fun l lc hl hon ↦ ?_
      exact hmiss l lc hl (hwild l lc hl hon)
  | some i =>
    obtain ⟨-, c, hc, hmatch⟩ := find?_conn_eq_some hscan
    constructor
    · intro hfinds j d hd hdst hdmatch
      cases hfinds with
      | connected h hcc => exact absurd hcc (hnoc i _ h)
      | @listening _ lc h hon =>
        refine ⟨i, lc, ?_, h, hon⟩
        rcases lt_trichotomy i j with hlt | rfl | hgt
        · exact hlt
        · cases hd.symm.trans h
          exact absurd hon.1 hdst
        · exact absurd hdmatch (not_of_lt_findConn hscan hgt hd)
    · intro hclear
      by_cases hst : c.state = .listen
      · exact .listening hc ⟨hst, ends_of_wildcardMatch hmatch⟩ hnoc
      · obtain ⟨l, lc, hlt, hl, hon⟩ := hclear i c hc hst hmatch
        exact absurd (hwild l lc hl hon) (not_of_lt_findConn hscan hlt hl)

/-- **The lookup finds what it should exactly when** the 4-tuple has a connection, or the packet has
no peer and meets a listener, or a listener stands before every connection that the wildcard scan
would stop at. -/
theorem finds_iff (hs : Reachable s) :
    Finds s hostAddr peerAddr hostPort peerPort
        (tcpLookupConn s hostAddr peerAddr hostPort peerPort) ↔
      LookupClear s hostAddr peerAddr hostPort peerPort := by
  by_cases hcon : ∃ j d, s.connTable j = some d ∧ d.Connects hostAddr peerAddr hostPort peerPort
  · obtain ⟨j, d, hd, hdc⟩ := hcon
    refine iff_of_true ?_ (.inl ⟨j, d, hd, hdc⟩)
    rw [lookup_of_connects hs hd hdc]
    exact .connected hd hdc fun i c hc hcc ↦ hs.unique hc hd hcc hdc
  · have hnoc : ∀ j d, s.connTable j = some d →
        ¬d.Connects hostAddr peerAddr hostPort peerPort :=
      fun j d hd hdc ↦ hcon ⟨j, d, hd, hdc⟩
    rcases tcpLookupConn_cases s hostAddr peerAddr hostPort peerPort
      with ⟨i, c, hi, hc, hexact, -⟩ | ⟨hno, hscan⟩
    · -- an exact match that is no connection is a listener, and the packet has no peer
      have hst : c.state = .listen := by
        by_contra hst
        exact hnoc i c hc ⟨hst, hexact⟩
      obtain ⟨hhost, hport, hpeer, hpport⟩ := exactMatch_iff.mp hexact
      obtain ⟨hany, hzero⟩ := (hs.slotOk i).listens c hc hst
      have hon : c.ListensOn hostAddr hostPort := ⟨hst, hhost, hport⟩
      refine iff_of_true ?_ (.inr (.inl
        ⟨hpeer.symm.trans hany, hpport.symm.trans hzero, i, c, hc, hon⟩))
      rw [hi]
      exact .listening hc hon hnoc
    · rw [hscan, finds_scan_iff hs hno]
      refine ⟨fun h ↦ .inr (.inr h), ?_⟩
      rintro (hex | ⟨rfl, rfl, l, lc, hl, hon⟩ | h)
      · exact absurd hex hcon
      · -- such a listener would be an exact match
        obtain ⟨hany, hzero⟩ := (hs.slotOk l).listens lc hl hon.1
        have hexact := exactMatch_iff.mpr ⟨hon.2.1, hon.2.2, hany, hzero⟩
        exact absurd hexact (hno l lc hl)
      · exact h

/-- After a handshake the connection gets the packets of its peer. -/
theorem finds_handshake :
    ∃ s, Reachable s ∧ Finds s hostA peerA 80 5000 (tcpLookupConn s hostA peerA 80 5000) := by
  obtain ⟨s, c, hs, hc, hcc⟩ := exists_conn_of_runCalls 0 serverHandshake ⟨1, by decide⟩
    (fun _ c ↦ decide (c.Connects hostA peerA 80 5000)) (by decide +kernel)
  exact ⟨s, hs, (finds_iff hs).mpr (.inl ⟨_, c, hc, of_decide_eq_true hcc⟩)⟩

/-- An active connection to port 443 of the peer, and nothing else. -/
def activeOpen : List (NetEnv × Event) := [(.sending 0 hostA 1000, .connect peerA 443)]

/-- A packet from port 0 of the same peer is given to it. -/
theorem not_finds_portZero :
    ∃ s, Reachable s ∧ ¬Finds s hostA peerA 49152 0 (tcpLookupConn s hostA peerA 49152 0) := by
  obtain ⟨s, c, hs, hc, htest⟩ := exists_conn_of_runCalls 0 activeOpen ⟨0, by decide⟩
    (fun s c ↦ tcpLookupConn s hostA peerA 49152 0 == some ⟨0, by decide⟩ &&
      c.peerPort == 443 && c.state == .synSent) (by decide +kernel)
  simp only [Bool.and_eq_true, beq_iff_eq] at htest
  obtain ⟨⟨hlook, hport⟩, hst⟩ := htest
  refine ⟨s, hs, ?_⟩
  rw [hlook]
  intro hfinds
  cases hfinds with
  | connected h hcc =>
    cases hc.symm.trans h
    have hzero := (exactMatch_iff.mp hcc.2).2.2.2
    rw [hport] at hzero
    cases hzero
  | listening h hl =>
    cases hc.symm.trans h
    cases hst.symm.trans hl.1

end Mazu.Tcp
