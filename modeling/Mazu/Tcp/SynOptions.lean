import Mazu.Tcp.Slots

/-!
# The options of a SYN

The options of a segment are read into the connection that the lookup found, before its state is
looked at. For a SYN to a listener that connection is the listener, and what it holds afterwards is
copied into the connection it creates. Nothing sets the listener back, so the options of one SYN are
the defaults of the next.

* `SynParams`, `synOptions`: what a SYN negotiates, and the options that have a say in it.
* `tcpConnParse_synParams`: the parser applies those options to what the connection holds.
* `synLaw_iff`: which runs give every new connection what its own SYN asks for.
-/

namespace Mazu.Tcp

open Option

/-! ## Parameters and options -/

/-- The parameters that a SYN negotiates. -/
@[ext] structure SynParams where
  mss : ℕ
  sendWindowScale : U8
  useWindowScale : Bool
deriving DecidableEq

def TcpConn.synParams (c : TcpConn) : SynParams :=
  ⟨c.mss, c.sendWindowScale, c.useWindowScale⟩

/-- The parameters of a connection whose peer sent no option. -/
def defaultSynParams : SynParams := ⟨tcpConnDefaultMss, 0, false⟩

/-- The options that have a say in the parameters. -/
inductive SynOption
  | mss (value : ℕ)
  | windowScale (shift : U8)
deriving DecidableEq

/-- An MSS of zero stands for the default, and a shift above 14 is ignored. -/
def SynParams.apply (p : SynParams) : SynOption → SynParams
  | .mss value => { p with mss := if value = 0 then tcpConnDefaultMss else value }
  | .windowScale shift =>
    if shift ≤ 14 then { p with sendWindowScale := shift, useWindowScale := true } else p

def SynOption.SetsMss : SynOption → Prop
  | .mss _ => True
  | .windowScale _ => False

def SynOption.SetsScale : SynOption → Prop
  | .mss _ => False
  | .windowScale shift => shift ≤ 14

instance : DecidablePred SynOption.SetsMss
  | .mss _ => inferInstanceAs (Decidable True)
  | .windowScale _ => inferInstanceAs (Decidable False)

instance : DecidablePred SynOption.SetsScale
  | .mss _ => inferInstanceAs (Decidable False)
  | .windowScale _ => inferInstanceAs (Decidable (_ ≤ _))

@[simp] theorem SynOption.setsMss_mss (value : ℕ) : (mss value).SetsMss := trivial

@[simp] theorem SynOption.not_setsMss_windowScale (shift : U8) : ¬(windowScale shift).SetsMss := id

@[simp] theorem SynOption.not_setsScale_mss (value : ℕ) : ¬(mss value).SetsScale := id

/-- **What of the start survives the options.** Two starts end alike exactly when every parameter in
which they differ is set on the way. -/
theorem foldl_apply_eq_iff (opts : List SynOption) (p q : SynParams) :
    opts.foldl SynParams.apply p = opts.foldl SynParams.apply q ↔
      ((∃ o ∈ opts, o.SetsMss) ∨ p.mss = q.mss) ∧
      ((∃ o ∈ opts, o.SetsScale) ∨
        p.sendWindowScale = q.sendWindowScale ∧ p.useWindowScale = q.useWindowScale) := by
  induction opts generalizing p q with
  | nil => simp [SynParams.ext_iff]
  | cons o opts ih =>
    rw [List.foldl_cons, List.foldl_cons, ih]
    cases o with
    | mss value => simp [SynParams.apply]
    | windowScale shift =>
      by_cases h : shift ≤ 14
      · have hsets : (SynOption.windowScale shift).SetsScale := h
        rw [SynParams.apply, SynParams.apply, if_pos h, if_pos h]
        simp [hsets]
      · have hsets : ¬(SynOption.windowScale shift).SetsScale := h
        rw [SynParams.apply, SynParams.apply, if_neg h, if_neg h]
        simp [hsets]

/-! ## Reading the options -/

/-- The options with a say in the parameters, in the order of the bytes, up to the end of the list
or the first option that is cut off. -/
def synOptionsLoop : ℕ → List U8 → List SynOption
  | 0, _ => []
  | _, [] => []
  | fuel + 1, kind :: rest =>
    if kind = 0 then []
    else if kind = 1 then synOptionsLoop fuel rest
    else if kind = 2 then
      match rest with
      | _ :: b2 :: b3 :: rest => .mss (u16OfBe b2 b3).toNat :: synOptionsLoop fuel rest
      | _ => []
    else if kind = 3 then
      match rest with
      | _ :: b2 :: rest => .windowScale b2 :: synOptionsLoop fuel rest
      | _ => []
    else if kind = 8 then
      match rest with
      | _ :: _ :: _ :: _ :: _ :: _ :: _ :: _ :: _ :: rest => synOptionsLoop fuel rest
      | _ => []
    else if kind = 4 then
      match rest with
      | _ :: rest => synOptionsLoop fuel rest
      | _ => []
    else if kind = 5 then
      match rest with
      | len :: rest =>
        if len < 2 ∨ len.toNat > rest.length + 2 then []
        else synOptionsLoop fuel (rest.drop (len.toNat - 2))
      | _ => []
    else
      match rest with
      | len :: rest =>
        if len < 2 then [] else synOptionsLoop fuel (rest.drop (len.toNat - 2))
      | _ => []

def Segment.synOptions (seg : Segment) : List SynOption :=
  if seg.headerLen > tcpHdrLenNoOpt then synOptionsLoop seg.options.length seg.options else []

/-- The loop of the parser applies the options one by one. -/
theorem tcpHandleOptionsLoop_synParams (fuel : ℕ) (c : TcpConn) (t : TsOpt) (opts : List U8) :
    (tcpHandleOptionsLoop true fuel c t opts).1.synParams =
      (synOptionsLoop fuel opts).foldl SynParams.apply c.synParams := by
  fun_induction tcpHandleOptionsLoop true fuel c t opts with
  | case5 _ _ _ _ _ _ _ _ _ _ _ ih => exact ih
  | case7 fuel c t len shift rest d _ _ _ ih =>
    have hd : d.synParams = c.synParams.apply (.windowScale shift) := by
      by_cases h : shift ≤ 14
      · rw [SynParams.apply, if_pos h, show d = _ from if_pos ⟨rfl, h⟩]
        rfl
      · rw [SynParams.apply, if_neg h, show d = c from if_neg fun h' ↦ h h'.2]
    rw [ih, hd]
    rfl
  | case14 fuel c t len rest hlen _ _ _ _ _ _ _ ih =>
    rw [ih, show synOptionsLoop (fuel + 1) (5 :: len :: rest) = _ from if_neg hlen]
  | case17 fuel c t kind h0 h1 h2 h3 h8 h4 h5 len rest hlen ih =>
    have hskip : synOptionsLoop (fuel + 1) (kind :: len :: rest) =
        synOptionsLoop fuel (rest.drop (len.toNat - 2)) := by
      simp only [synOptionsLoop, h0, h1, h2, h3, h8, h4, h5, if_false, if_neg hlen]
    rw [ih, hskip]
  | _ => simp_all [synOptionsLoop]

/-- **The parser applies the options of a SYN to what the listener holds.** -/
theorem tcpConnParse_synParams (env : NetEnv) {lc : TcpConn} {seg : Segment}
    (hst : lc.state = .listen) (hsyn : seg.syn = true) :
    (tcpConnParse env lc seg).1.synParams =
      seg.synOptions.foldl SynParams.apply lc.synParams := by
  have hallow : (hasFlag seg.flags tcpHdrFlagSyn && tcpConnAcceptsSynOptions (tcpConnNote env lc))
      = true := by
    rw [show hasFlag seg.flags tcpHdrFlagSyn = true from hsyn, tcpConnAcceptsSynOptions,
      show (tcpConnNote env lc).state = .listen from hst]
    rfl
  rw [tcpConnParse, Segment.synOptions]
  by_cases h : seg.headerLen > tcpHdrLenNoOpt
  · rw [if_pos h, if_pos h, tcpHandleOptions, hallow, tcpHandleOptionsLoop_synParams]
    rfl
  · rw [if_neg h, if_neg h]
    rfl

/-! ## The connection that a SYN creates -/

/-- The slot holds a connection now that it did not hold before. -/
def NewConn (s s' : TcpStack) (i : ConnIdx) (d : TcpConn) : Prop :=
  s'.connTable i = some d ∧ (s.connTable i = none ∨ s'.generation i ≠ s.generation i)

section

variable {K : ConnIdx → Cause} {F : ConnIdx → TcpConn → Prop} {env : NetEnv} {s s' t : TcpStack}
  {i l : ConnIdx} {c d lc : TcpConn} {hostAddr peerAddr : Ipv4Addr} {seg : Segment} {tsopt : TsOpt}

/-- A slot in which no fresh connection arrives keeps the one it has, or is free in the end. -/
theorem SlotEvolves.kept {hashSeed : U32} {k : Cause} {N : TcpConn → Prop} {a b : Slot}
    (h : SlotEvolves hashSeed k N a b) (hN : ∀ c, ¬N c) :
    b.conn = none ∨ a.conn ≠ none ∧ b.generation = a.generation := by
  induction h with
  | refl => exact (em (a.conn = none)).imp_right fun hne ↦ ⟨hne, rfl⟩
  | tail _ hstep ih =>
    cases hstep with
    | micro => exact .inr (ih.resolve_left (some_ne_none _))
    | free => exact .inl rfl
    | fresh hc => exact absurd hc (hN _)

theorem not_newConn_of_evolves (h : StackEvolves K F s s') (hF : ∀ c, ¬F i c) :
    ¬NewConn s s' i d := by
  rintro ⟨hd, hnew⟩
  obtain ⟨hne, hgen⟩ := ((h.slots i).kept hF).resolve_left
    (fun hnone ↦ some_ne_none d (hd.symm.trans hnone))
  exact hnew.elim hne (fun hgen' ↦ hgen' hgen)

/-- New is new before and after an update of the slots. -/
theorem NewConn.of_sameSlots (h : NewConn s s' i d)
    (hnone : s.connTable i = none → t.connTable i = none)
    (hgen : t.generation i = s.generation i) : NewConn t s' i d :=
  ⟨h.1, h.2.imp hnone fun hne ↦ by rwa [hgen]⟩

/-- The answer to a SYN keeps the parameters. -/
theorem tcpListenReply_synParams (env : NetEnv) (c : TcpConn) (g : Globals) (tsopt : TsOpt) :
    (tcpListenReply env c g tsopt).2.1.synParams = c.synParams := by
  obtain ⟨useTs, tsRecent, hts⟩ := negotiateTs_eq (tcpConnSetInternalTimeout env c g).1 tsopt
  simp only [tcpListenReply, tcpSendSegmentEmpty, hts]
  rcases tcpSendSegment_conn env _ (tcpConnSetInternalTimeout env c g).2 _ []
    with heq | ⟨window, ackSent, heq⟩
  · rw [heq]
    rfl
  · rw [heq]
    rfl

/-- The listener gives the new connection the parameters it holds. -/
theorem tcpListenAccept_new
    (h : NewConn s (tcpListenAccept env s l lc peerAddr seg tsopt).2 i d) :
    d.synParams = lc.synParams := by
  have hpurge := (evolves_purgeClosed (K := fun _ ↦ .other) (F := fun _ _ ↦ False)).purge env s
  have hold : ¬NewConn s (tcpPurgeOldConn env s) i d := not_newConn_of_evolves hpurge fun _ ↦ id
  rcases tcpListenAccept_cases env s l lc peerAddr seg tsopt rfl
    with heq | ⟨j, d', g, -, hreply, heq⟩
  · rw [heq] at h
    exact absurd h hold
  · rw [heq] at h
    obtain ⟨hd, hnew⟩ := h
    by_cases hi : i = j
    · have hself : d' = d := some.inj ((setConn_connTable_self _ _ _).symm.trans (hi ▸ hd))
      have hparams := tcpListenReply_synParams env (tcpListenFresh env lc l peerAddr seg)
        (tcpTimerHint (tcpPurgeOldConn env s).glob (env.now + tcpConnKeepaliveIdleMs)) tsopt
      rw [hreply, hself] at hparams
      exact hparams
    · exact absurd ⟨(setConn_connTable_of_ne _ _ hi).symm.trans hd, hnew⟩ hold

/-- A SYN that a listener admits is read into the listener and accepted. -/
theorem tcpHandlePacketLocked_listen
    (hlook : tcpLookupConn s hostAddr peerAddr seg.destPort seg.srcPort = some l)
    (hl : s.connTable l = some lc) (hst : lc.state = .listen)
    (hadm : ListenAdmits s peerAddr seg) :
    tcpHandlePacketLocked env s hostAddr peerAddr seg =
      tcpListenAccept env (s.setConn l (some (tcpConnParse env lc seg).1)) l
        (tcpConnParse env lc seg).1 peerAddr seg (tcpConnParse env lc seg).2 := by
  have hlisten : (tcpConnParse env lc seg).1.state = .listen := by
    obtain ⟨mss, scale, use, hparse⟩ := tcpConnParse_eq env lc seg
    rw [hparse]
    exact hst
  obtain ⟨hrst, hsyn, hhalf, htotal⟩ := (listenAdmits_parse env hl).mpr hadm
  simp only [tcpHandlePacketLocked, hlook, hl, if_neg (options_fit seg), if_pos hlisten]
  rw [tcpHandleReceiveListen, hrst, hsyn, if_neg Bool.false_ne_true, if_neg (by decide),
    if_neg (not_le.mpr hhalf), if_neg (not_le.mpr htotal)]

/-- **What a packet creates.** A new connection is the answer of a listener to a SYN, and it has the
parameters that the options of the SYN make of those the listener holds. -/
theorem packet_new (h : NewConn s (tcpHandlePacketLocked env s hostAddr peerAddr seg).2 i d) :
    ∃ l lc, tcpLookupConn s hostAddr peerAddr seg.destPort seg.srcPort = some l ∧
      s.connTable l = some lc ∧
      d.synParams = seg.synOptions.foldl SynParams.apply lc.synParams := by
  have hcalled : Called env s (.packet hostAddr peerAddr seg)
    (tcpHandlePacketLocked env s hostAddr peerAddr seg).2 := step_called rfl
  obtain ⟨j, hev⟩ := hcalled.evolves nofun
  obtain ⟨c, -, hcreate⟩ : ∃ c, i = j ∧ Creates env s (.packet hostAddr peerAddr seg) c := by
    by_contra hnone
    exact not_newConn_of_evolves hev (fun c hc ↦ hnone ⟨c, hc⟩) h
  cases hcreate with
  | @packet _ _ _ l lc hlook hl hst hadm =>
    refine ⟨l, lc, hlook, hl, ?_⟩
    rw [tcpHandlePacketLocked_listen hlook hl hst hadm] at h
    -- the listener was updated in place, which makes no slot free
    have hnew := h.of_sameSlots (t := s.setConn l (some (tcpConnParse env lc seg).1))
      (fun hnone ↦ by
        have hi : i ≠ l := fun hi ↦ some_ne_none lc (hl.symm.trans (hi ▸ hnone))
        exact (setConn_connTable_of_ne s _ hi).trans hnone) rfl
    rw [tcpListenAccept_new hnew, tcpConnParse_synParams env hst hadm.2.1]

end

/-! ## What a SYN gets -/

/-- The parameters that the options of a SYN ask for, on top of the defaults. -/
def Segment.synParams (seg : Segment) : SynParams :=
  seg.synOptions.foldl SynParams.apply defaultSynParams

/-- Every connection that a SYN creates has the parameters of its own SYN. -/
def SynLaw (calls : List (TcpStack × Event × TcpStack)) : Prop :=
  ∀ s hostAddr peerAddr seg s', (s, Event.packet hostAddr peerAddr seg, s') ∈ calls →
    ∀ i d, NewConn s s' i d → d.synParams = seg.synParams

/-- What the listener holds is the default, or the SYN sets it. -/
def SynClean (s : TcpStack) (hostAddr peerAddr : Ipv4Addr) (seg : Segment) : Prop :=
  ∀ l lc, tcpLookupConn s hostAddr peerAddr seg.destPort seg.srcPort = some l →
    s.connTable l = some lc →
      ((∃ o ∈ seg.synOptions, o.SetsMss) ∨ lc.mss = tcpConnDefaultMss) ∧
      ((∃ o ∈ seg.synOptions, o.SetsScale) ∨
        lc.sendWindowScale = 0 ∧ lc.useWindowScale = false)

theorem synParams_iff {env : NetEnv} {s : TcpStack} {hostAddr peerAddr : Ipv4Addr} {seg : Segment}
    {i : ConnIdx} {d : TcpConn}
    (h : NewConn s (tcpHandlePacketLocked env s hostAddr peerAddr seg).2 i d) :
    d.synParams = seg.synParams ↔ SynClean s hostAddr peerAddr seg := by
  obtain ⟨l, lc, hlook, hl, hd⟩ := packet_new h
  rw [hd, Segment.synParams, foldl_apply_eq_iff]
  constructor
  · intro hclean l' lc' hlook' hl'
    cases hlook.symm.trans hlook'
    cases hl.symm.trans hl'
    exact hclean
  · intro hclean
    exact hclean l lc hlook hl

/-- **Which runs give every connection what its own SYN asks for.** Those in which, whenever a SYN
creates a connection, it sets itself whatever the listener does not hold the default of. -/
theorem synLaw_iff {calls : List (TcpStack × Event × TcpStack)} {t : TcpStack}
    (h : Run calls t) :
    SynLaw calls ↔
      ∀ s hostAddr peerAddr seg s', (s, Event.packet hostAddr peerAddr seg, s') ∈ calls →
        (∃ i d, NewConn s s' i d) → SynClean s hostAddr peerAddr seg := by
  have hiff : ∀ s hostAddr peerAddr seg s', (s, Event.packet hostAddr peerAddr seg, s') ∈ calls →
      ∀ i d, NewConn s s' i d → (d.synParams = seg.synParams ↔ SynClean s hostAddr peerAddr seg) := by
    intro s hostAddr peerAddr seg s' hmem i d hnew
    obtain ⟨-, -, env, hstep⟩ := h.of_mem hmem
    cases hstep
    exact synParams_iff hnew
  constructor
  · rintro hlaw s hostAddr peerAddr seg s' hmem ⟨i, d, hnew⟩
    exact (hiff s hostAddr peerAddr seg s' hmem i d hnew).mp
      (hlaw s hostAddr peerAddr seg s' hmem i d hnew)
  · intro hclean s hostAddr peerAddr seg s' hmem i d hnew
    exact (hiff s hostAddr peerAddr seg s' hmem i d hnew).mpr
      (hclean s hostAddr peerAddr seg s' hmem ⟨i, d, hnew⟩)

instance (s : TcpStack) (hostAddr peerAddr : Ipv4Addr) (seg : Segment) :
    Decidable (SynClean s hostAddr peerAddr seg) :=
  match h : tcpLookupConn s hostAddr peerAddr seg.destPort seg.srcPort with
  | none => .isTrue fun l lc hl ↦ by rw [h] at hl; cases hl
  | some l =>
    match hc : s.connTable l with
    | none => .isTrue fun l' lc hl hlc ↦ by
        rw [h] at hl; cases hl; rw [hc] at hlc; cases hlc
    | some lc =>
      decidable_of_iff
        (((∃ o ∈ seg.synOptions, o.SetsMss) ∨ lc.mss = tcpConnDefaultMss) ∧
          ((∃ o ∈ seg.synOptions, o.SetsScale) ∨
            lc.sendWindowScale = 0 ∧ lc.useWindowScale = false))
        ⟨fun hclean l' lc' hl hlc ↦ by
          rw [h] at hl; cases hl; rw [hc] at hlc; cases hlc; exact hclean,
          fun hclean ↦ hclean l lc h hc⟩

/-- A SYN without options to a listener that nobody wrote to before. -/
theorem synLaw_handshake :
    ∃ calls t, Run calls t ∧ SynLaw calls ∧
      ∃ s e s' i d, (s, e, s') ∈ calls ∧ NewConn s s' i d := by
  obtain ⟨calls, t, hrun, hp⟩ := exists_run_of_traceCalls 0 serverHandshake
    (fun r ↦ r.1.all (fun call ↦ call.2.1.packetAll fun hostAddr peerAddr seg ↦
        decide (SynClean call.1 hostAddr peerAddr seg)) &&
      r.1.any (fun call ↦ (call.1.connTable ⟨1, by decide⟩).isNone &&
        (call.2.2.connTable ⟨1, by decide⟩).isSome)) (by decide +kernel)
  obtain ⟨hclean, hany⟩ := Bool.and_eq_true_iff.mp hp
  obtain ⟨⟨s, e, s'⟩, hmem, hnew⟩ := List.any_eq_true.mp hany
  obtain ⟨hnone, hsome⟩ := Bool.and_eq_true_iff.mp hnew
  obtain ⟨d, hd⟩ := isSome_iff_exists.mp hsome
  refine ⟨calls, t, hrun, (synLaw_iff hrun).mpr ?_, s, e, s', ⟨1, by decide⟩, d, hmem,
    hd, .inl (isNone_iff_eq_none.mp hnone)⟩
  intro s hostAddr peerAddr seg s' hmem _
  exact of_decide_eq_true (List.all_eq_true.mp hclean _ hmem)

/-- Another peer. -/
def peerB : Ipv4Addr := ⟨10, 0, 0, 66⟩

/-- A SYN that asks for an MSS of 100 and a shift of 7. -/
def optionsSyn : Segment where
  srcPort := 6000
  destPort := 80
  seqNum := 1
  ackNum := 0
  headerLen := 7
  flags := tcpHdrFlagSyn
  windowSize := 1000
  body := [2, 4, 0, 100, 1, 3, 3, 7]
  headerLen_ge := by decide
  headerLen_lt := by decide
  header_le := by decide
  length_le := by decide

/-- A listener, alone and after a SYN of another peer. -/
def quietListener : List (NetEnv × Event) := [(.sending 0 hostA 1000, .listen hostA 80)]

def writtenListener : List (NetEnv × Event) :=
  quietListener ++ [(.sending 0 hostA 1000, .packet hostA peerB optionsSyn)]

/-- A SYN without options. -/
def plainSyn : Segment := .bare 5000 80 1 0 tcpHdrFlagSyn 1000

/-- The table after a SYN without options. -/
def afterPlainSyn (s : TcpStack) : TcpStack :=
  (tcpHandlePacketLocked (.sending 1 hostA 1000) s hostA peerA plainSyn).2

/-- What that SYN gets after some calls, in a slot that was free. -/
def plainSynParams (calls : List (NetEnv × Event)) (i : ConnIdx) : Option SynParams :=
  (runCalls calls (tcpInit 0)).bind fun s ↦
    if s.connTable i = none then ((afterPlainSyn s).connTable i).map TcpConn.synParams else none

theorem exists_of_plainSynParams (calls : List (NetEnv × Event)) (i : ConnIdx) (p : SynParams)
    (h : plainSynParams calls i = some p) :
    ∃ s d, runCalls calls (tcpInit 0) = some s ∧ NewConn s (afterPlainSyn s) i d ∧
      d.synParams = p := by
  obtain ⟨s, hs, h⟩ := bind_eq_some_iff.mp h
  by_cases hfree : s.connTable i = none
  · rw [if_pos hfree] at h
    obtain ⟨d, hd, hp⟩ := map_eq_some_iff.mp h
    exact ⟨s, d, hs, ⟨hd, .inl hfree⟩, hp⟩
  · rw [if_neg hfree] at h
    cases h

/-- **Two histories that differ in a SYN of another peer.** The same SYN without options gets the
defaults after the one, and the options of the other peer after the other. -/
theorem not_synLaw_written :
    (∃ s₁ s₂ d₁ d₂, runCalls quietListener (tcpInit 0) = some s₁ ∧
      runCalls writtenListener (tcpInit 0) = some s₂ ∧
      NewConn s₁ (afterPlainSyn s₁) ⟨1, by decide⟩ d₁ ∧
      NewConn s₂ (afterPlainSyn s₂) ⟨2, by decide⟩ d₂ ∧
      d₁.synParams = ⟨536, 0, false⟩ ∧ d₂.synParams = ⟨100, 7, true⟩) ∧
    ∃ calls t, Run calls t ∧ ¬SynLaw calls := by
  obtain ⟨s₁, d₁, hs₁, hnew₁, hd₁⟩ := exists_of_plainSynParams quietListener
    ⟨1, by decide⟩ ⟨536, 0, false⟩ (by decide +kernel)
  obtain ⟨s₂, d₂, hs₂, hnew₂, hd₂⟩ := exists_of_plainSynParams writtenListener
    ⟨2, by decide⟩ ⟨100, 7, true⟩ (by decide +kernel)
  refine ⟨⟨s₁, s₂, d₁, d₂, hs₁, hs₂, hnew₁, hnew₂, hd₁, hd₂⟩, ?_⟩
  obtain ⟨calls, hrun⟩ := ((Reachable.init 0).runCalls hs₂).exists_run
  have hstep := hrun.step (.sending 1 hostA 1000) (.packet hostA peerA plainSyn)
    (show peerA ≠ ipv4AddrAny by decide) rfl
  refine ⟨_, _, hstep, fun hlaw ↦ ?_⟩
  have hown := hlaw s₂ hostA peerA plainSyn _ List.mem_cons_self _ d₂ hnew₂
  rw [hd₂] at hown
  exact absurd hown (by decide)

end Mazu.Tcp
