import Mathlib.Data.Finset.Card
import Mathlib.Data.Fintype.Basic
import Mazu.Tcp.Timers

/-!
# Termination of the service loop

The loop of `tcp_poll_retransmit_locked` serves the root of the heap as long as it is due. Each pass
touches one connection, so the loop terminates when every due connection is one that a pass deals
with, and the number of due connections is the measure. It is also necessary: a due connection that
a pass does not deal with is still due after it and comes back to the root.
-/

namespace Mazu.Tcp

variable {i : ConnIdx} {c : TcpConn}

/-! ## The root of the heap -/

/-- An entry of the heap is a used connection that is not reset, with its armed next event. -/
theorem mem_tcpTimerEntries {s : TcpStack} {e : TcpTimerEntry} :
    e ∈ tcpTimerEntries s ↔ ∃ c, s.connTable e.conn = some c ∧ c.state ≠ .reset ∧
      tcpConnNextEventMs c ≠ timeMsMax ∧ e.fireMs = tcpConnNextEventMs c := by
  rw [tcpTimerEntries, List.mem_filterMap]
  constructor
  · rintro ⟨i, -, hi⟩
    cases hc : s.connTable i with
    | none => simp [hc] at hi
    | some c =>
      simp only [hc] at hi
      by_cases hr : c.state = .reset
      · simp [hr] at hi
      · by_cases hm : tcpConnNextEventMs c = timeMsMax
        · simp [hm] at hi
        · rw [if_neg hr, if_neg hm] at hi
          cases hi
          exact ⟨c, hc, hr, hm, rfl⟩
  · rintro ⟨c, hc, hr, hm, hf⟩
    refine ⟨e.conn, List.mem_finRange _, ?_⟩
    simp only [hc]
    rw [if_neg hr, if_neg hm, ← hf]

variable (env : NetEnv) (now : U64) (s : TcpStack)

/-- The state at the head of the loop: the heap was just rebuilt. -/
def HeapFresh : Prop := ∃ s₀, s = tcpHeapRebuild s₀

theorem nodup_tcpTimerEntries (s : TcpStack) : (tcpTimerEntries s).Nodup := by
  refine (List.nodup_finRange _).filterMap fun i j e hi hj ↦ ?_
  grind

/-- The heap is a rearrangement of the entries. -/
theorem exists_place (s : TcpStack) : ∃ σ : Equiv.Perm ℕ,
    (∀ p, σ p < (tcpTimerEntries s).length ↔ p < (tcpTimerEntries s).length) ∧
    ∀ p, p < (tcpTimerEntries s).length →
      (tcpTimerEntries s)[σ p]? = some ((tcpHeapRebuild s).timerHeap p) := by
  obtain ⟨σ, hσ, heq⟩ := Heap.heapify_rearranges (fun e : TcpTimerEntry ↦ e.fireMs.toNat)
    (tcpTimerEntries s).length fun n ↦ (tcpTimerEntries s).getD n _
  refine ⟨σ, hσ, fun p hp ↦ ?_⟩
  have hheap : (tcpHeapRebuild s).timerHeap p =
      (tcpTimerEntries s).getD (σ p) _ := congrFun heq p
  rw [hheap, List.getD_eq_getElem?_getD, List.getElem?_eq_getElem ((hσ p).mpr hp),
    Option.getD_some]

/-- A place of the heap stands for a connection of the table. -/
theorem HeapFresh.place {s : TcpStack} (h : HeapFresh s) {p : ℕ} (hp : p < s.timerHeapSize) :
    ∃ c, s.connTable (s.timerHeap p).conn = some c ∧ c.state ≠ .reset ∧
      tcpConnNextEventMs c ≠ timeMsMax ∧ (s.timerHeap p).fireMs = tcpConnNextEventMs c := by
  obtain ⟨s₀, rfl⟩ := h
  obtain ⟨σ, -, hplace⟩ := exists_place s₀
  exact mem_tcpTimerEntries.mp (List.mem_of_getElem? (hplace p hp))

theorem HeapFresh.root {s : TcpStack} (h : HeapFresh s) (hsize : s.timerHeapSize ≠ 0) :
    ∃ c, s.connTable (s.timerHeap 0).conn = some c ∧ c.state ≠ .reset ∧
      tcpConnNextEventMs c ≠ timeMsMax ∧ (s.timerHeap 0).fireMs = tcpConnNextEventMs c :=
  h.place (Nat.pos_of_ne_zero hsize)

/-- Every armed connection has a place, and only one. -/
theorem HeapFresh.exists_place {s : TcpStack} (h : HeapFresh s) (hc : s.connTable i = some c)
    (hr : c.state ≠ .reset) (hm : tcpConnNextEventMs c ≠ timeMsMax) :
    ∃ p < s.timerHeapSize, s.timerHeap p = ⟨tcpConnNextEventMs c, i⟩ ∧
      ∀ q < s.timerHeapSize, (s.timerHeap q).conn = i → q = p := by
  obtain ⟨s₀, rfl⟩ := h
  obtain ⟨σ, hσ, hplace⟩ := Tcp.exists_place s₀
  have hmem : (⟨tcpConnNextEventMs c, i⟩) ∈ tcpTimerEntries s₀ :=
    mem_tcpTimerEntries.mpr ⟨c, hc, hr, hm, rfl⟩
  obtain ⟨n, hn, hget⟩ := List.getElem_of_mem hmem
  have hp : σ.symm n < (tcpTimerEntries s₀).length := by rwa [← hσ, Equiv.apply_symm_apply]
  have hentry := hplace _ hp
  rw [Equiv.apply_symm_apply, List.getElem?_eq_getElem hn, hget] at hentry
  refine ⟨_, hp, (Option.some.inj hentry).symm, fun q hq hconn ↦ ?_⟩
  obtain ⟨d, hd, -, -, hfire⟩ := HeapFresh.place ⟨s₀, rfl⟩ hq
  -- a connection has one entry only, and no entry is listed twice
  have hsame : (tcpHeapRebuild s₀).timerHeap q = ⟨tcpConnNextEventMs c, i⟩ := by
    subst hconn
    cases hc.symm.trans hd
    rw [← hfire]
  have hindex : (tcpTimerEntries s₀)[σ q]? = (tcpTimerEntries s₀)[n]? := by
    rw [hplace q hq, hsame, List.getElem?_eq_getElem hn, hget]
  have hσq := (List.getElem?_inj ((hσ q).mpr hq) (nodup_tcpTimerEntries s₀)).mp hindex
  rw [← hσq, Equiv.symm_apply_apply]

theorem HeapFresh.ordered {s : TcpStack} (h : HeapFresh s) :
    Heap.OrderedFrom (fun e : TcpTimerEntry ↦ e.fireMs.toNat) s.timerHeapSize s.timerHeap 0 := by
  obtain ⟨s₀, rfl⟩ := h
  exact Heap.heapify_ordered _ _ _

/-- No connection is due before the root. -/
theorem HeapFresh.root_le {s : TcpStack} (h : HeapFresh s) (hc : s.connTable i = some c)
    (hr : c.state ≠ .reset)
    (hm : tcpConnNextEventMs c ≠ timeMsMax) :
    s.timerHeapSize ≠ 0 ∧ (s.timerHeap 0).fireMs ≤ tcpConnNextEventMs c := by
  obtain ⟨p, hp, hentry, -⟩ := h.exists_place hc hr hm
  have hle := Heap.root_le_of_ordered h.ordered hp
  rw [hentry] at hle
  exact ⟨Nat.ne_of_gt (Nat.lt_of_le_of_lt (Nat.zero_le p) hp), hle⟩

/-- **The heap after a rebuild** has every armed connection at one place, with its next event, and
no other entry; no entry is before its parent, so the root is a minimum, and the cached timer is the
root. -/
theorem tcpHeapRebuild_spec (s₀ : TcpStack) :
    let s := tcpHeapRebuild s₀
    (∀ i c, s₀.connTable i = some c → c.state ≠ .reset → tcpConnNextEventMs c ≠ timeMsMax →
      ∃ p < s.timerHeapSize, s.timerHeap p = ⟨tcpConnNextEventMs c, i⟩ ∧
        ∀ q < s.timerHeapSize, (s.timerHeap q).conn = i → q = p) ∧
    (∀ p < s.timerHeapSize, ∃ c, s₀.connTable (s.timerHeap p).conn = some c ∧
      c.state ≠ .reset ∧ tcpConnNextEventMs c ≠ timeMsMax ∧
      (s.timerHeap p).fireMs = tcpConnNextEventMs c) ∧
    (∀ p q, q = 2 * p + 1 ∨ q = 2 * p + 2 → q < s.timerHeapSize →
      (s.timerHeap p).fireMs ≤ (s.timerHeap q).fireMs) ∧
    (∀ p < s.timerHeapSize, (s.timerHeap 0).fireMs ≤ (s.timerHeap p).fireMs) ∧
    s.glob.nextTimerMs = if s.timerHeapSize = 0 then timeMsMax else (s.timerHeap 0).fireMs := by
  intro s
  have hs : HeapFresh s := ⟨s₀, rfl⟩
  refine ⟨fun i c ↦ hs.exists_place, fun p ↦ hs.place, fun p q ↦ ?_, fun p ↦ ?_, rfl⟩
  · exact hs.ordered p (Nat.zero_le p) q
  · exact Heap.root_le_of_ordered hs.ordered

/-! ## What a pass leaves alone -/

theorem SameSlot.due {a b : Option TcpConn} (h : SameSlot a b) {now : U64}
    {P : TcpConn → Prop} (hP : ∀ c r, P { c with acceptReady := r } ↔ P c) :
    (∃ c, b = some c ∧ c.Due now ∧ P c) ↔ ∃ c, a = some c ∧ c.Due now ∧ P c := by
  obtain ⟨f, rfl⟩ := h
  cases a with
  | none => simp
  | some c =>
    simp only [Option.map_some, Option.some.injEq, exists_eq_left']
    exact and_congr Iff.rfl (hP c _)

/-! ## The outcome of a service call -/

theorem Retransmits.sends {env : NetEnv} {c : TcpConn} {g : Globals} {q : List SendBufQueue}
    {o : Outcome} (hw : Retransmits env c g q o) (h : env.Sends) : o.res = resultOk := by
  induction hw with
  | acked _ _ _ ih => exact ih
  | failed _ _ e _ hsends => exact absurd h hsends
  | _ => rfl

theorem NetEnv.Sends.service {env : NetEnv} (h : env.Sends) (c : TcpConn) (g : Globals) :
    (tcpPollRetransmitConn env c g).res = resultOk := by
  have hserved := tcpPollRetransmitConn_served env c g
  generalize tcpPollRetransmitConn env c g = o at hserved ⊢
  cases hserved with
  | dead => rfl
  | failed e _ hsends => exact absurd h hsends
  | walk => exact (tcpPollRetransmitQueue_retransmits env _ _ _).sends h

/-! ## One pass -/

/-- The connection of slot `i` was freed or reset. -/
def Ended (i : ConnIdx) : Prop :=
  ∀ c, s.connTable i = some c → c.state = .reset

/-- What a pass on the due connection `c` of slot `i` makes of the stack when it goes back to the
head of the loop. -/
structure PassEnd (now : U64) (s : TcpStack) (i : ConnIdx) (c : TcpConn) (s' : TcpStack) :
    Prop where
  fresh : HeapFresh s'
  others : ∀ j, j ≠ i → SameSlot (s.connTable j) (s'.connTable j)
  served : (Ended s' i ∧ c.Serviced now) ∨
    ∃ c', s'.connTable i = some c' ∧ c'.state = c.state ∧
      (now < tcpConnNextEventMs c' ↔ c.Serviced now)

/-- The service, seen from the table. -/
theorem service_passEnd {env : NetEnv} {s : TcpStack} (hinv : ConnInv c)
    (hexp : ¬ c.Expired env.now)
    (hok : (tcpPollRetransmitConn env c s.glob).res = resultOk) :
    PassEnd env.now s i c
      (tcpHeapRebuild (settle s i (tcpPollRetransmitConn env c s.glob))) := by
  have hend := tcpPollRetransmitConn_end env hinv s.glob
  generalize tcpPollRetransmitConn env c s.glob = o at hok hend
  -- the slot itself, up to the count of ready connections
  obtain ⟨f, hself⟩ := settle_self s i o
  refine ⟨⟨_, rfl⟩, fun j hj ↦ settle_sameSlot s o hj, ?_⟩
  cases hend with
  | failed e he =>
    rw [hok] at he
    cases he
  | ended hres hend hwhy =>
    refine .inl ⟨fun d hd ↦ ?_, hwhy.elim (fun h ↦ .inr (.inl h))
      fun h ↦ .inr (.inr (.inl h))⟩
    change (settle s i o).connTable i = some d at hd
    rw [hself] at hd
    split_ifs at hd with hf
    · cases hd
    · cases hd
      exact hend.resolve_left hf
  | kept hres hfreed hstate hdead hex hnext =>
    rw [hfreed] at hself
    refine .inr ⟨_, hself, hstate, hnext.trans ⟨fun h ↦ .inr (.inr (.inr h)), ?_⟩⟩
    rintro (h | h | h | h)
    · exact absurd h hexp
    · exact absurd h hdead
    · rw [hex] at h
      cases h
    · exact h

/-- **One pass.** At the head of the loop either nothing is due and the loop ends, or the root is due
and the pass returns an error or goes back to the head. -/
theorem tcpPollPass_cases {s : TcpStack} (hs : HeapFresh s) (hinv : s.All ConnInv) :
    (tcpPollPass env s = .inl (resultOk, s) ∧ ∀ i c, s.connTable i = some c → ¬ c.Due env.now) ∨
      ∃ c, s.connTable (s.timerHeap 0).conn = some c ∧ c.Due env.now ∧
        ((∃ e s', tcpPollPass env s = .inl (.error e, s') ∧ ¬ env.Sends) ∨
          ∃ s', tcpPollPass env s = .inr s' ∧
            PassEnd env.now s (s.timerHeap 0).conn c s') := by
  unfold tcpPollPass
  by_cases hsize : s.timerHeapSize = 0
  · refine .inl ⟨by rw [if_pos hsize], fun i c hc hdue ↦ ?_⟩
    exact (hs.root_le hc hdue.1 hdue.2.1).1 hsize
  rw [if_neg hsize]
  obtain ⟨c, hc, hr, hm, hfire⟩ := hs.root hsize
  by_cases hlater : (s.timerHeap 0).fireMs > env.now
  · refine .inl ⟨by dsimp only; rw [if_pos hlater], fun i d hd hdue ↦ ?_⟩
    have hle := (hs.root_le hd hdue.1 hdue.2.1).2
    exact BitVec.not_le.mpr hlater (BitVec.le_trans hle hdue.2.2)
  rw [if_neg hlater]
  have hdue : c.Due env.now := ⟨hr, hm, hfire ▸ BitVec.not_lt.mp hlater⟩
  refine .inr ⟨c, hc, hdue, ?_⟩
  simp only [hc]
  rw [if_neg hr]
  generalize (s.timerHeap 0).conn = i at hc
  by_cases hint : tcpConnIsInternal c ∧ env.now ≥ c.internalTimeout
  · rw [if_pos hint]
    refine .inr ⟨_, rfl, ⟨_, rfl⟩, fun j hj ↦ tcpFreeConn_sameSlot s hj, .inl ⟨?_, ?_⟩⟩
    · intro d hd
      change (tcpFreeConn s i).connTable i = some d at hd
      rw [tcpFreeConn_self] at hd
      cases hd
    · exact .inl ⟨.inl hint.1, hint.2⟩
  rw [if_neg hint]
  by_cases hsyn : c.state = .synSent ∧ env.now ≥ c.internalTimeout
  · rw [if_pos hsyn]
    refine .inr ⟨_, rfl, ⟨_, rfl⟩, fun j hj ↦ ?_, .inl ⟨?_, ?_⟩⟩
    · show SameSlot _ ((s.setConn i _).connTable j)
      rw [setConn_connTable_of_ne s _ hj]
      exact SameSlot.refl _
    · intro d hd
      change (s.setConn i _).connTable i = some d at hd
      rw [setConn_connTable_self] at hd
      cases hd
      rfl
    · exact .inl ⟨.inr hsyn.1, hsyn.2⟩
  rw [if_neg hsyn]
  have hexp : ¬ c.Expired env.now := by
    rintro ⟨hi | hst, hle⟩
    · exact hint ⟨hi, hle⟩
    · exact hsyn ⟨hst, hle⟩
  cases hres : (tcpPollRetransmitConn env c s.glob).res with
  | error e =>
    refine .inl ⟨e, _, rfl, fun hsends ↦ ?_⟩
    rw [hsends.service] at hres
    cases hres
  | ok u =>
    exact .inr ⟨_, rfl, service_passEnd (hinv i c hc) hexp hres⟩

/-- A pass that goes back to the head has dealt with the due connection at the root. -/
theorem tcpPollPass_next {env : NetEnv} {s s' : TcpStack} (hs : HeapFresh s)
    (hinv : s.All ConnInv) (h : tcpPollPass env s = .inr s') :
    ∃ c, s.connTable (s.timerHeap 0).conn = some c ∧ c.Due env.now ∧
      PassEnd env.now s (s.timerHeap 0).conn c s' ∧ s'.All ConnInv := by
  have hev := (evolves_pollClosed (K := fun _ ↦ .other) (F := fun _ _ ↦ False) env).pass s
  rcases tcpPollPass_cases env hs hinv with ⟨hend, -⟩ | ⟨c, hc, hdue, ⟨e, t, he, -⟩ | ⟨t, ht, hend⟩⟩
  · cases h.symm.trans hend
  · cases h.symm.trans he
  · cases h.symm.trans ht
    rw [h] at hev
    exact ⟨c, hc, hdue, hend,
      hinv.of_evolves (fun _ _ _ hc hm ↦ micro_connInv hc hm) (fun _ _ hf ↦ hf.elim) hev⟩

/-- When every transmission goes through, the loop is left only with nothing due. -/
theorem tcpPollPass_last {env : NetEnv} {s : TcpStack} (hs : HeapFresh s) (hinv : s.All ConnInv)
    (hsends : env.Sends) {r : Result × TcpStack} (h : tcpPollPass env s = .inl r) :
    r.2 = s ∧ ∀ i c, s.connTable i = some c → ¬ c.Due env.now := by
  rcases tcpPollPass_cases env hs hinv with ⟨hend, hidle⟩ | ⟨c, -, -, ⟨e, t, -, hfail⟩ | ⟨t, ht, -⟩⟩
  · cases h.symm.trans hend
    exact ⟨rfl, hidle⟩
  · exact absurd hsends hfail
  · cases h.symm.trans ht

/-! ## The loop -/

/-- What the loop promises of a pass: if it goes back to the head, then the connection at the root
was freed or reset, or its next event lies after now. -/
def PassProgress : Prop :=
  ∀ s', tcpPollPass env s = .inr s' → ∀ c', s'.connTable (s.timerHeap 0).conn = some c' →
    c'.state = .reset ∨ env.now < tcpConnNextEventMs c'

/-- The loop terminates, and every pass makes progress. -/
def PollTerminates : Prop :=
  Loop.Terminates (tcpPollPass env) (tcpHeapRebuild s) ∧
    ∀ t, Loop.Visits (tcpPollPass env) (tcpHeapRebuild s) t → PassProgress env t

/-- Every due connection is one that a pass deals with. -/
def TcpStack.Serviceable : Prop :=
  ∀ i c, s.connTable i = some c → c.Due now → c.Serviced now

theorem not_due_of_lt {now : U64} (h : now < tcpConnNextEventMs c) :
    ¬ c.Due now := fun hdue ↦ BitVec.not_le.mpr h hdue.2.2

/-- After a pass on a serviceable stack, the connection at the root is not due. -/
theorem PassEnd.not_due {now : U64} {s s' : TcpStack} (h : PassEnd now s i c s')
    (hserv : c.Serviced now) :
    ∀ d, s'.connTable i = some d → ¬ d.Due now := by
  intro d hd
  rcases h.served with ⟨hend, -⟩ | ⟨c', hc', -, hnext⟩
  · exact fun hdue ↦ hdue.1 (hend d hd)
  · rw [hc'] at hd
    cases hd
    exact not_due_of_lt (hnext.mpr hserv)

/-- The slots with a due connection. -/
noncomputable def dueSlots : Finset ConnIdx :=
  open Classical in Finset.univ.filter fun i ↦ ∃ c, s.connTable i = some c ∧ c.Due now

theorem mem_dueSlots {now : U64} {s : TcpStack} :
    i ∈ dueSlots now s ↔ ∃ c, s.connTable i = some c ∧ c.Due now := by
  simp [dueSlots]

theorem PassEnd.due_iff {now : U64} {s s' : TcpStack} {j : ConnIdx} (h : PassEnd now s i c s')
    (hj : j ≠ i) {P : TcpConn → Prop}
    (hP : ∀ c r, P { c with acceptReady := r } ↔ P c) :
    (∃ d, s'.connTable j = some d ∧ d.Due now ∧ P d) ↔
      ∃ d, s.connTable j = some d ∧ d.Due now ∧ P d :=
  (h.others j hj).due hP

/-- A pass on a due connection that it deals with leaves fewer connections due. -/
theorem PassEnd.dueSlots_lt {now : U64} {s s' : TcpStack} (h : PassEnd now s i c s')
    (hc : s.connTable i = some c) (hdue : c.Due now)
    (hserv : c.Serviced now) : (dueSlots now s').card < (dueSlots now s).card := by
  apply Finset.card_lt_card
  rw [Finset.ssubset_iff_of_subset]
  · refine ⟨i, mem_dueSlots.mpr ⟨c, hc, hdue⟩, fun hi ↦ ?_⟩
    obtain ⟨d, hd, hddue⟩ := mem_dueSlots.mp hi
    exact h.not_due hserv d hd hddue
  · intro j hj
    rw [mem_dueSlots] at hj ⊢
    obtain ⟨d, hd, hddue⟩ := hj
    have hji : j ≠ i := by
      rintro rfl
      exact h.not_due hserv d hd hddue
    obtain ⟨d', hd', hdue', -⟩ := (h.due_iff hji (P := fun _ ↦ True) fun _ _ ↦ Iff.rfl).mp
      ⟨d, hd, hddue, trivial⟩
    exact ⟨d', hd', hdue'⟩

theorem PassEnd.serviceable {now : U64} {s s' : TcpStack} (h : PassEnd now s i c s')
    (hserv : c.Serviced now) (hs : s.Serviceable now) :
    s'.Serviceable now := by
  intro j d hd hdue
  by_cases hj : j = i
  · subst hj
    exact absurd hdue (h.not_due hserv d hd)
  · by_contra hnot
    obtain ⟨d', hd', hdue', hn'⟩ := (h.due_iff hj (P := fun x ↦ ¬ x.Serviced now)
      fun _ _ ↦ Iff.rfl).mp ⟨d, hd, hdue, hnot⟩
    exact hn' (hs j d' hd' hdue')

/-- A serviceable stack: the number of due connections drops with every pass. -/
theorem pollTerminates_of_serviceable {env : NetEnv} {s : TcpStack} (hinv : s.All ConnInv)
    (hserv : s.Serviceable env.now) : PollTerminates env s := by
  let Head t : Prop := HeapFresh t ∧ t.All ConnInv ∧ t.Serviceable env.now
  have hhead : Head (tcpHeapRebuild s) := ⟨⟨s, rfl⟩, hinv, hserv⟩
  have hstep : ∀ u u', Head u → tcpPollPass env u = .inr u' →
      Head u' ∧ (dueSlots env.now u').card < (dueSlots env.now u).card := by
    rintro u u' ⟨hfresh, huinv, hus⟩ hpass
    obtain ⟨c, hc, hdue, hend, hinv'⟩ := tcpPollPass_next hfresh huinv hpass
    have hsc := hus _ c hc hdue
    exact ⟨⟨hend.fresh, hinv', hend.serviceable hsc hus⟩, hend.dueSlots_lt hc hdue hsc⟩
  refine ⟨Loop.terminates_of_measure Head (fun t ↦ (dueSlots env.now t).card) hstep hhead, ?_⟩
  intro t ht u hpass c' hc'
  obtain ⟨hfresh, htinv, hts⟩ := ht.invariant hhead fun u u' hu h ↦ (hstep u u' hu h).1
  obtain ⟨c, hc, hdue, hend, -⟩ := tcpPollPass_next hfresh htinv hpass
  rcases hend.served with ⟨hgone, -⟩ | ⟨d, hd, -, hnext⟩
  · exact .inl (hgone c' hc')
  · rw [hd] at hc'
    cases hc'
    exact .inr (hnext.mpr (hts _ c hc hdue))

/-- A due connection that a pass does not deal with: while every transmission goes through and every
pass makes progress, it stays due, so that the loop has no way out. -/
theorem not_pollTerminates {env : NetEnv} (hsends : env.Sends) {s : TcpStack}
    (hinv : s.All ConnInv) (hc : s.connTable i = some c)
    (hdue : c.Due env.now) (hnot : ¬ c.Serviced env.now) : ¬ PollTerminates env s := by
  rintro ⟨⟨fuel, hrun⟩, hprogress⟩
  let Stuck t : Prop := Loop.Visits (tcpPollPass env) (tcpHeapRebuild s) t ∧
    HeapFresh t ∧ t.All ConnInv ∧ ∃ d, t.connTable i = some d ∧ d.Due env.now ∧
      ¬ d.Serviced env.now
  have hstart : Stuck (tcpHeapRebuild s) :=
    ⟨Relation.ReflTransGen.refl, ⟨s, rfl⟩, hinv, c, hc, hdue, hnot⟩
  have hstep : ∀ u u', Stuck u → tcpPollPass env u = .inr u' → Stuck u' := by
    rintro u u' ⟨hvisit, hfresh, huinv, d, hd, hddue, hdn⟩ hpass
    refine ⟨Relation.ReflTransGen.tail hvisit hpass, ?_⟩
    obtain ⟨r, hr, -, hend, hinv'⟩ := tcpPollPass_next hfresh huinv hpass
    refine ⟨hend.fresh, hinv', ?_⟩
    by_cases hi : i = (u.timerHeap 0).conn
    · -- served itself, it is neither ended nor rearmed, against the progress of the pass
      exfalso
      rw [← hi, hd] at hr
      cases hr
      rcases hend.served with ⟨-, hs⟩ | ⟨c', hc', hst, hnext⟩
      · exact hdn hs
      · rcases hprogress u hvisit u' hpass c' hc' with hreset | hlt
        · exact hddue.1 (hst.symm.trans hreset)
        · exact hdn (hnext.mp hlt)
    · exact (hend.due_iff hi fun _ _ ↦ Iff.rfl).mpr
        ⟨d, hd, hddue, hdn⟩
  obtain ⟨r, hr⟩ := Option.isSome_iff_exists.mp hrun
  obtain ⟨t, hvisit, hleave⟩ := Loop.exists_visits_of_run hr
  obtain ⟨-, hfresh, htinv, d, hd, hddue, -⟩ := hvisit.invariant hstart hstep
  exact (tcpPollPass_last hfresh htinv hsends hleave).2 i d hd hddue

/-- **Termination of the service loop.** In a reachable state and at a clock value, the loop
terminates with progress in every pass, whatever the transmissions do, exactly when each due
connection has expired, or is ended by the keep-alive limit or by an entry sent too often, or has
neither its internal timeout nor an entry behind the first unacknowledged one fired. -/
theorem pollTerminates_iff {s : TcpStack} (hs : Reachable s) (now : U64) :
    (∀ env : NetEnv, env.now = now → PollTerminates env s) ↔ s.Serviceable now := by
  constructor
  · intro h i c hc hdue
    by_contra hnot
    let env : NetEnv := ⟨now, fun _ ↦ .ok ipv4AddrAny, fun _ ↦ resultOk, 0⟩
    have hsends : env.Sends := fun _ ↦ ⟨⟨_, rfl⟩, rfl⟩
    exact not_pollTerminates hsends hs.connInv hc hdue hnot (h env rfl)
  · rintro h env rfl
    exact pollTerminates_of_serviceable hs.connInv h

/-- An active open: its SYN is due again after 200 ms and a pass sends it. -/
theorem pollTerminates_synSent :
    ∃ s, Reachable s ∧ (∃ c, s.connTable ⟨0, by decide⟩ = some c ∧ c.Due 300) ∧
      ∀ env : NetEnv, env.now = 300 → PollTerminates env s := by
  obtain ⟨s, hs, hp⟩ := exists_reachable_of_runCalls 0
    [(.sending 0 hostA 1000, .connect peerA 80)]
    (fun s ↦ (s.connTable ⟨0, by decide⟩).any (fun c : TcpConn ↦ decide (c.Due 300)) &&
      (List.finRange tcpConnMaxNum).all fun i ↦ (s.connTable i).all fun c : TcpConn ↦
        decide (c.Due 300 → c.Serviced 300)) (by decide +kernel)
  rw [Bool.and_eq_true, List.all_eq_true] at hp
  refine ⟨s, hs, ?_, (pollTerminates_iff hs 300).mpr fun i c hc ↦ ?_⟩
  · cases hc : s.connTable ⟨0, by decide⟩ with
    | none => simp [hc] at hp
    | some c => exact ⟨c, rfl, by simpa [hc] using hp.1⟩
  · have hi := hp.2 i (List.mem_finRange i)
    rw [hc] at hi
    exact of_decide_eq_true hi

/-- A handshake as a server sees it, and then a poll more than four seconds after the SYN: the
timeout of SYN_RCVD has fired, and nothing serves it in ESTABLISHED. -/
theorem not_pollTerminates_after_handshake :
    ∃ s, Reachable s ∧ ¬ PollTerminates (.sending 4100 hostA 1000) s := by
  obtain ⟨s, hs, hp⟩ := exists_reachable_of_runCalls 0 serverHandshake
    (fun s ↦ (s.connTable ⟨1, by decide⟩).any fun c : TcpConn ↦
      decide (c.Due 4100 ∧ ¬ c.Serviced 4100)) (by decide +kernel)
  cases hc : s.connTable ⟨1, by decide⟩ with
  | none => simp [hc] at hp
  | some c =>
    have hdue : c.Due 4100 ∧ ¬ c.Serviced 4100 := by simpa [hc] using hp
    exact ⟨s, hs, not_pollTerminates (fun _ ↦ ⟨⟨_, rfl⟩, rfl⟩) hs.connInv hc hdue.1 hdue.2⟩

end Mazu.Tcp
