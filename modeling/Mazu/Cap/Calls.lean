import Mazu.Cap.Moves

/-!
# Every call is a sequence of moves

The operations of `Mazu.Cap.Kernel` and `Mazu.Cap.Process`, one after the other, as sequences of
primitive moves that end with the references they started with. What an event does follows: it is
such a sequence, except that a new process is entered in the table first and an exiting one has its
timers and synchronisation objects taken away first.
-/

namespace Mazu.Cap

open Function List

variable {pool : Pool} {n : ℕ} {objectIndex : U16} {rights : U8} {hint : ℤ} {exact : Bool}
  {e : Event}

variable {g : Bool} {s t : Kernel} {c d : Multiset Object} {p q : ProcIdx} {i j : SlotIdx}

/-! ## Opening -/

theorem poolAlloc_spec {owner : Option ProcIdx} (h : poolAlloc s pool owner = some (n, t)) :
    n < pool.size ∧ (s.entry (pool, n)).inUse = false ∧
      t = s.setEntry (pool, n) ⟨true, 1, owner, (owner.map
    (s.procTable · |>.generation)).getD 0⟩ := by
  rw [poolAlloc, Option.map_eq_some_iff] at h
  obtain ⟨k, hk, hkt⟩ := h
  obtain ⟨rfl, rfl⟩ := Prod.mk.inj hkt
  refine ⟨mem_range.mp (mem_of_find?_eq_some hk), ?_, rfl⟩
  simpa using find?_some hk

theorem setEntry_entry_self (s : Kernel) (o : Object) (e : PoolEntry) :
    (s.setEntry o e).entry o = e := by
  simp [Kernel.setEntry, Kernel.entry]

theorem setEntry_entry_ne (s : Kernel) {o o' : Object} (e : PoolEntry) (h : o' ≠ o) :
    (s.setEntry o e).entry o' = s.entry o' := by
  obtain ⟨pool, n⟩ := o
  obtain ⟨pool', n'⟩ := o'
  by_cases hp : pool' = pool
  · subst hp
    have hn : n' ≠ n := fun hn ↦ h (by rw [hn])
    simp [Kernel.setEntry, Kernel.entry, hn]
  · simp [Kernel.setEntry, Kernel.entry, hp]

theorem openFd_inner (hp : (s.procTable p).state ≠ .free) (rights : U8) (hint : ℤ) (exact : Bool) :
    Inner true s c (capOpenFd s p rights hint exact).2 c := by
  unfold capOpenFd
  cases ha : poolAlloc s .fd none with
  | none => exact .refl s
  | some r =>
    obtain ⟨n, s₁⟩ := r
    obtain ⟨hn, hfree, hs₁⟩ := poolAlloc_spec ha
    have hsize := Nat.lt_of_lt_of_le hn (Pool.size_le .fd)
    have halloc : Inner true s c s₁ ((.fd, n) ::ₘ c) := by
      rw [hs₁]
      exact ⟨(Prim.alloc rfl (.fd, n) hn hfree none _).prims, rfl⟩
    have htoNat := toNat_ofNat_of_lt hsize
    simp only
    cases hm : capMintFdLocked s₁ p (BitVec.ofNat 16 n) rights 0 hint exact false with
    | mk res t =>
      rcases mintFd_cases hm c with ⟨i, u, rfl, rfl, hv, -⟩ | ⟨⟨e, rfl⟩, herr, -, htable⟩
      · have hpub := hv.publish .fd (ofNat_and_of_lt hsize) (halloc.procTable ▸ hp) rights 0
          fun h ↦ absurd h not_personal_fd
        rw [htoNat] at hpub
        exact halloc.trans ⟨hpub, hv.procTable⟩
      · rw [htoNat] at herr
        show Inner true s c (poolPut t (.fd, n)) c
        exact (halloc.trans ⟨herr, htable⟩).trans
          ⟨(Prim.put (.fd, n)).prims, (poolPut_onlyPools t _).procTable⟩

theorem openThread_prims (hp : (s.procTable p).state ≠ .free) (objectIndex : U16) (rights : U8)
    (hint : ℤ) (exact : Bool) :
    Prims true s c (capOpenHandle s p objectIndex .thread rights hint exact).2 c := by
  rw [capOpenHandle]
  cases hres : capReserveSlotLocked s p hint exact (CapType.thread = .thread) with
  | error e => exact .refl
  | ok i =>
    have hv := vacated_of_reserve (c := c) hres
    exact hv.prims.trans (publish_bare_prims rfl (hv.procTable ▸ hp) hv.free objectIndex rights 0)

/-- A handle for an object takes over the reference of the operation. -/
theorem openHandle_ok (hp : (s.procTable p).state ≠ .free)
    (hobj : objectIndex &&& 0xFFF = objectIndex)
    (howner : pool.Personal → (s.entry (pool, objectIndex.toNat)).owner = some p ∧
      (s.entry (pool, objectIndex.toNat)).ownerGeneration = (s.procTable p).generation)
    (h : capOpenHandle s p objectIndex pool.type rights hint false = (.ok i, t)) :
    Prims true s ((pool, objectIndex.toNat) ::ₘ c) t c := by
  rw [capOpenHandle] at h
  cases hres : capReserveSlotLocked s p hint false (pool.type = .thread) with
  | error e => rw [hres] at h; cases h
  | ok k =>
    rw [hres] at h
    cases h
    have hv := vacated_of_reserve (c := (pool, objectIndex.toNat) ::ₘ c) hres
    exact hv.publish _ hobj hp rights 0 howner

theorem openHandle_error {type : CapType} {e : Errno}
    (h : capOpenHandle s p objectIndex type rights hint exact = (.error e, t)) : t = s := by
  rw [capOpenHandle] at h
  cases hres : capReserveSlotLocked s p hint exact (type = .thread) with
  | error e => rw [hres] at h; cases h; rfl
  | ok k => rw [hres] at h; cases h

/-- A queue with one reference is closed as it would be released. -/
theorem mqueueClose_eq_put (huse : (s.entry (.mqueue, n)).inUse = true)
    (hone : (s.entry (.mqueue, n)).refcount = 1) : mqueueClose s n = poolPut s (.mqueue, n) := by
  by_cases hn : n < Pool.mqueue.size
  · simp [mqueueClose, poolPut, mqueuePutIdx, huse, hone]
  · simp [mqueueClose, poolPut, mqueuePutIdx, hn]

theorem objectOpen_prims (hp : (s.procTable p).state ≠ .free) (pool : Pool) :
    Prims true s c (sysObjectOpen s p pool).2 c := by
  rw [sysObjectOpen]
  cases ha : poolAlloc s pool (some p) with
  | none => exact .refl
  | some r =>
    obtain ⟨n, s₁⟩ := r
    obtain ⟨hn, hfree, hs₁⟩ := poolAlloc_spec ha
    have hsize := Nat.lt_of_lt_of_le hn pool.size_le
    have halloc : Prims true s c s₁ ((pool, n) ::ₘ c) := by
      rw [hs₁]
      exact (Prim.alloc rfl (pool, n) hn hfree _ _).prims
    have hentry : s₁.entry (pool, n) = ⟨true, 1, some p, (s.procTable p).generation⟩ := by
      rw [hs₁, setEntry_entry_self]
      rfl
    have htable : s₁.procTable = s.procTable := by rw [hs₁]; rfl
    have htoNat := toNat_ofNat_of_lt hsize
    simp only
    cases ho : capOpenHandle s₁ p (BitVec.ofNat 16 n) pool.type pool.openRights (-1) false with
    | mk res t =>
      cases res with
      | error e =>
        obtain rfl := openHandle_error ho
        refine halloc.trans ?_
        have hput : (if pool = .mqueue then mqueueClose t n else poolPut t (pool, n)) =
            poolPut t (pool, n) := by
          split_ifs with hq
          · subst hq
            exact mqueueClose_eq_put (by rw [hentry]) (by rw [hentry])
          · rfl
        show Prims true t ((pool, n) ::ₘ c) (if pool = .mqueue then _ else _) c
        rw [hput]
        exact (Prim.put (pool, n)).prims
      | ok i =>
        refine halloc.trans ?_
        have hok := openHandle_ok (c := c) (htable ▸ hp) (ofNat_and_of_lt hsize) (fun _ ↦ by
          rw [htoNat, hentry, htable]
          exact ⟨rfl, rfl⟩) ho
        rwa [htoNat] at hok

/-! ## Tokens and pins -/

theorem dropToken_prims (token : U64) : Prims g s c (capDropToken s p token).2 c := by
  rw [capDropToken]
  cases capValidateTokenLocked s p token with
  | none => exact .refl
  | some i => exact dropSlot_prims s p i

theorem closeFd_prims (fd : ℤ) : Prims g s c (capCloseFd s p fd).2 c := by
  rw [capCloseFd]
  cases slotOf fd with
  | none => exact .refl
  | some i =>
    simp only
    split_ifs
    · exact .refl
    · exact dropSlot_prims s p i

/-- A lookup turns the reference it takes into a pin. -/
theorem lookup_prims {handle : ℤ}
    (h : capLookup s p handle rights pool = some t) : Prims true s c t c := by
  rw [capLookup] at h
  cases hi : slotOf handle with
  | none => rw [hi] at h; cases h
  | some i =>
    simp only [hi] at h
    split_ifs at h with hbad
    rw [Option.map_eq_some_iff] at h
    obtain ⟨u, hu, rfl⟩ := h
    obtain ⟨hprims, hset⟩ := poolInc_prims hu
    refine hprims.trans ?_
    simp only [Bool.or_eq_true, decide_eq_true_eq, not_or, not_not] at hbad
    have hnamed : (u.slot p i).object = some (pool, (s.slot p i).objectIndex.toNat) := by
      rw [hset]
      show (s.slot p i).object = _
      rw [CapSlotView.object_of_valid (by simpa using hbad.1.1), hbad.1.2, Pool.ofCode_code]
      rfl
    exact (Prim.pin rfl ⟨p, (u.procTable p).generation, (pool, (s.slot p i).objectIndex.toNat)⟩ i
      hnamed rfl).prims

theorem putRef_prims {ref : Pin} (h : ref ∈ s.pins) : Prims g s c (capPutRef s ref) c := by
  have hcomm : capPutRef s ref = poolPut { s with pins := s.pins.erase ref } ref.object := by
    obtain ⟨holder, generation, pool, n⟩ := ref
    cases pool <;>
      (simp only [capPutRef, poolPut, capFdPut, posixTimerPutIdx, syncPutIdx, mqueuePutIdx]
       split_ifs <;> first | rfl | contradiction)
  rw [hcomm]
  exact (Prim.unpin ref h).prims.trans (Prim.put _).prims

/-! ## Copies -/

theorem dupFd_prims (hp : (s.procTable p).state ≠ .free) (oldfd newfd : ℤ) (exact : Bool) :
    Prims true s c (capDupFd s p oldfd newfd exact).2 c := by
  rw [capDupFd]
  cases fdOf oldfd with
  | none => exact .refl
  | some old =>
    simp only
    split_ifs <;> try exact .refl
    cases hm : capMintFdLocked s p (s.slot p old).objectIndex (s.slot p old).rights
        ((s.slot p old).typeMeta &&& ~~~capFdMetaCloexec) newfd exact true with
    | mk res t =>
      have hmint := mintFd_prims (c := c) hm hp (slot_objectIndex_and s p old)
      cases res with
      | error e => exact hmint
      | ok fd => exact hmint.trans (Prim.epoch p fd _).prims

theorem inheritFd_prims (hp : (s.procTable p).state ≠ .free) (hq : (s.procTable q).state ≠ .free)
    (srcFd dstFd : ℤ) : Prims true s c (capInheritFd s p q srcFd dstFd).2 c := by
  rw [capInheritFd]
  cases fdOf srcFd with
  | none => exact .refl
  | some i =>
    cases fdOf dstFd with
    | none => exact .refl
    | some _ =>
      simp only
      split_ifs
      · exact dupFd_prims hp srcFd dstFd true
      · exact .refl
      · cases hm : capMintFdLocked s q (s.slot p i).objectIndex (s.slot p i).rights
            (s.slot p i).typeMeta dstFd true true with
        | mk res t =>
          have hmint := mintFd_prims (c := c) hm hq (slot_objectIndex_and s p i)
          cases res with
          | error e => exact hmint
          | ok fd => exact hmint.trans (Prim.epoch q fd _).prims

/-- **A copy of a descriptor**: it names the same object with the same rights and belongs to the same
grant. -/
structure Copied (s : Kernel) (p : ProcIdx) (i : SlotIdx) (t : Kernel) (q : ProcIdx) (j : SlotIdx) :
    Prop where
  valid : (t.slot q j).valid = true
  type_eq : (t.slot q j).type = (s.slot p i).type
  objectIndex_eq : (t.slot q j).objectIndex = (s.slot p i).objectIndex
  rights_eq : (t.slot q j).rights = (s.slot p i).rights

theorem slot_rights_and (s : Kernel) (p : ProcIdx) (i : SlotIdx) :
    (s.slot p i).rights &&& 0xF = (s.slot p i).rights := by
  refine BitVec.eq_of_getLsbD_eq fun j hj ↦ ?_
  have hmask : ((s.slot p i).rights &&& 0xF).getLsbD j =
      (decide (j < 4) && (s.slot p i).rights.getLsbD j) :=
    BitField.getLsbD_and_mask (s.slot p i).rights 4 j
  rw [hmask, Kernel.slot_eq_unpack, getLsbD_unpack_rights]
  grind

/-- The slot that a mint makes of the object and the rights of another slot is a copy of it. -/
theorem mintFd_copied {typeMeta : U16} {bump : Bool}
    (hm : capMintFdLocked s q (s.slot p i).objectIndex
    (s.slot p i).rights typeMeta hint exact bump =
      (.ok j, t)) (htype : (s.slot p i).type = CapType.fd.code) (e : U64) :
    Copied s p i (capSlotSetDelegateEpoch t q j e) q j := by
  obtain ⟨u, rfl, -, -⟩ := mintFd_ok hm 0
  constructor <;> rw [slot_setDelegateEpoch, slot_publish_self]
  · exact htype.symm
  · exact slot_objectIndex_and s p i
  · exact slot_rights_and s p i

theorem CapSlotView.fd_of_not {v : CapSlotView}
    (h : ¬(!v.valid || decide (v.type ≠ CapType.fd.code)) = true) :
    v.valid = true ∧ v.type = CapType.fd.code := by
  simpa using h

theorem dupFd_ok {oldfd newfd : ℤ} {fd : SlotIdx}
    (h : capDupFd s p oldfd newfd exact = (.ok fd, t)) :
    ∃ old, fdOf oldfd = some old ∧ Copied s p old t p fd := by
  rw [capDupFd] at h
  revert h
  cases fdOf oldfd with
  | none => intro h; cases h
  | some old =>
    intro h
    refine ⟨old, rfl, ?_⟩
    simp only at h
    split_ifs at h with _ hv
    · cases h
    · cases h
    · cases h
      exact ⟨(CapSlotView.fd_of_not hv).1, rfl, rfl, rfl⟩
    · revert h
      cases hm : capMintFdLocked s p (s.slot p old).objectIndex (s.slot p old).rights
          ((s.slot p old).typeMeta &&& ~~~capFdMetaCloexec) newfd exact true with
      | mk res u =>
        cases res with
        | error e => intro h; cases h
        | ok k =>
          intro h
          cases h
          exact mintFd_copied hm (CapSlotView.fd_of_not hv).2 _

theorem inheritFd_ok {srcFd dstFd : ℤ} {fd : SlotIdx}
    (h : capInheritFd s p q srcFd dstFd = (.ok fd, t)) :
    ∃ i, fdOf srcFd = some i ∧ Copied s p i t q fd := by
  rw [capInheritFd] at h
  revert h
  cases hsrc : fdOf srcFd with
  | none => intro h; cases h
  | some i =>
    cases fdOf dstFd with
    | none => intro h; cases h
    | some _ =>
      intro h
      refine ⟨i, rfl, ?_⟩
      simp only at h
      split_ifs at h with heq hv
      · subst heq
        obtain ⟨old, hold, hcopy⟩ := dupFd_ok h
        cases hsrc.symm.trans hold
        exact hcopy
      · cases h
      · revert h
        cases hm : capMintFdLocked s q (s.slot p i).objectIndex (s.slot p i).rights
            (s.slot p i).typeMeta dstFd true true with
        | mk res u =>
          cases res with
          | error e => intro h; cases h
          | ok k =>
            intro h
            cases h
            exact mintFd_copied hm (CapSlotView.fd_of_not hv).2 _

/-! ## Transfer -/

theorem procFind_state {pid : U16} (h : procFind s pid = some p) :
    (s.procTable p).state ≠ .free ∧ (s.procTable p).pid = pid := by
  simpa using find?_some h

theorem delegateRecordAlloc_spec {type : U8} (h : delegateRecordAlloc s p objectIndex type = some
    (n, t)) :
    n < capDelegateRecordMax ∧ t = { s.setRecord n ⟨true, some p, (s.procTable p).generation,
      objectIndex, type, s.nextGrantEpoch, 1⟩ with nextGrantEpoch := s.nextGrantEpoch + 1 } := by
  rw [delegateRecordAlloc, Option.map_eq_some_iff] at h
  obtain ⟨k, hk, hkt⟩ := h
  obtain ⟨rfl, rfl⟩ := Prod.mk.inj hkt
  exact ⟨mem_range.mp (mem_of_find?_eq_some hk), rfl⟩

theorem delegateRecordAlloc_prims {type : U8}
    (h : delegateRecordAlloc s p objectIndex type = some (n, t)) (htype : type = CapType.fd.code) :
    Prims g s c t c := by
  obtain ⟨-, rfl⟩ := delegateRecordAlloc_spec h
  exact records_prims _ fun _ ↦ .inl htype

/-- **A transfer that succeeds**: slot `i` of the caller is copied into slot `child` of `dst`, and slot
`k` of the caller names the record `n` of the delegation. -/
structure Transferred (s : Kernel) (p : ProcIdx) (pid : U16) (token : U64) (newRights : U8)
    (handle : U64) (t : Kernel) (dst : ProcIdx) (i child : SlotIdx) (n : ℕ) (k : SlotIdx)
    (s₁ s₂ : Kernel) : Prop where
  found : procFind s pid = some dst
  other : dst ≠ p
  token : capValidateTokenLocked s p token = some i
  type_eq : (s.slot p i).type = CapType.fd.code
  source_grant : (s.slot p i).rights &&& capRightGrant ≠ 0
  no_grant : newRights &&& capRightGrant = 0
  subset : newRights &&& (s.slot p i).rights = newRights
  mint : capMintFdLocked s dst (s.slot p i).objectIndex (newRights &&& ~~~capRightGrant)
    (s.slot p i).typeMeta (-1) false true = (.ok child, s₁)
  record : delegateRecordAlloc s₁ dst (s.slot p i).objectIndex (s.slot p i).type = some (n, s₂)
  reserve : capReserveSlotLocked s₂ p (-1) false false = .ok k
  final : t = capSlotPublish
    (capSlotSetDelegateEpoch s₂ dst child (s₂.delegatePool n).grantEpoch) p k
    (BitVec.ofNat 16 n) .delegate capRightRead 0
    ((capSlotSetDelegateEpoch s₂ dst child (s₂.delegatePool n).grantEpoch).slot p k).generation
  handle_eq : handle = capMakeHandle (t.slot p k)

theorem transfer_ok {pid : U16} {token handle : U64} {newRights : U8}
    (h : capTransfer s p pid token newRights = (.ok handle, t)) :
    ∃ dst i child n k s₁ s₂, Transferred s p pid token newRights handle t dst i child n k s₁ s₂ := by
  rw [capTransfer] at h
  split_ifs at h with hgrant
  · cases h
  revert h
  cases hfind : procFind s pid with
  | none => intro h; cases h
  | some dst =>
    intro h
    simp only at h
    split_ifs at h with hother
    · cases h
    revert h
    cases hval : capValidateTokenLocked s p token with
    | none => intro h; cases h
    | some i =>
      intro h
      simp only at h
      split_ifs at h with htype hsrc hsub <;> try cases h
      revert h
      cases hm : capMintFdLocked s dst (s.slot p i).objectIndex (newRights &&& ~~~capRightGrant)
          (s.slot p i).typeMeta (-1) false true with
      | mk res s₁ =>
        cases res with
        | error e => intro h; cases h
        | ok child =>
          simp only
          cases hrec : delegateRecordAlloc s₁ dst (s.slot p i).objectIndex (s.slot p i).type with
          | none => intro h; cases h
          | some r =>
            obtain ⟨n, s₂⟩ := r
            simp only
            cases hres : capReserveSlotLocked s₂ p (-1) false false with
            | error e => intro h; cases h
            | ok k =>
              intro h
              obtain ⟨hhandle, hfinal⟩ := Prod.mk.inj h
              exact ⟨dst, i, child, n, k, s₁, s₂, hfind, hother, hval, not_not.mp htype, hsrc,
                not_not.mp hgrant, not_not.mp hsub, hm, hrec, hres, hfinal.symm,
                by rw [← hfinal]; exact (Except.ok.inj hhandle).symm⟩

theorem transfer_prims (hp : (s.procTable p).state ≠ .free) (pid : U16) (token : U64)
    (newRights : U8) : Prims true s c (capTransfer s p pid token newRights).2 c := by
  rw [capTransfer]
  split_ifs
  · exact .refl
  cases hfind : procFind s pid with
  | none => exact .refl
  | some dst =>
    simp only
    split_ifs
    · exact .refl
    cases hval : capValidateTokenLocked s p token with
    | none => exact .refl
    | some i =>
      simp only
      split_ifs with htype <;> try exact .refl
      have hdst := (procFind_state hfind).1
      cases hm : capMintFdLocked s dst (s.slot p i).objectIndex (newRights &&& ~~~capRightGrant)
          (s.slot p i).typeMeta (-1) false true with
      | mk res s₁ =>
        have hmint := mintFd_prims (c := c) hm hdst (slot_objectIndex_and s p i)
        cases res with
        | error e => exact hmint
        | ok child =>
          simp only
          cases hrec : delegateRecordAlloc s₁ dst (s.slot p i).objectIndex (s.slot p i).type with
          | none => exact hmint.trans (dropSlot_prims s₁ dst child)
          | some r =>
            obtain ⟨n, s₂⟩ := r
            have hrecord := hmint.trans (delegateRecordAlloc_prims hrec (not_not.mp htype))
            have htable : s₂.procTable = s.procTable := by
              obtain ⟨u, rfl, hv, -⟩ := mintFd_ok hm c
              obtain ⟨-, rfl⟩ := delegateRecordAlloc_spec hrec
              exact hv.procTable
            simp only
            cases hres : capReserveSlotLocked s₂ p (-1) false false with
            | error e =>
              exact (hrecord.trans (dropSlot_prims s₂ dst child)).trans (delegateRecordPut_prims n)
            | ok k =>
              -- the epoch is written before the handle, and moves no word
              have hfree : (s₂.slot p k).valid = false := by
                rcases (reserveSlot_ok hres).1 with hf | hx
                · exact hf
                · cases hx.1
              have hepoch := (Prim.epoch (g := true) (c := c) (s := s₂) dst child
                (s₂.delegatePool n).grantEpoch).prims
              refine (hrecord.trans hepoch).trans (publish_bare_prims rfl ?_ ?_ _ _ _)
              · exact htable ▸ hp
              · rwa [slot_setDelegateEpoch]

/-! ## Revocation -/

/-- The references of the slots of a grant. -/
def Grant.refs (gr : Grant) : Multiset Object := objectRefs gr.type gr.objectIndex

theorem dropSlot_inner (s : Kernel) (p : ProcIdx) (i : SlotIdx) :
    Inner g s c (capDropSlotLocked s p i).2 c :=
  ⟨dropSlot_prims s p i, dropSlot_procTable s p i⟩

theorem delegateRecordPut_inner (s : Kernel) (n : ℕ) : Inner g s c (delegateRecordPut s n) c := by
  refine ⟨delegateRecordPut_prims n, ?_⟩
  simp only [delegateRecordPut]
  split_ifs <;> rfl

theorem revokeSlot_inner (gr : Grant) (target : ProcIdx) (acc : Kernel × ℕ) (i : SlotIdx) :
    Inner g acc.1 (acc.2 • gr.refs + c) (revokeSlot gr target acc i).1
      ((revokeSlot gr target acc i).2 • gr.refs + c) := by
  rw [revokeSlot]
  split_ifs with hm
  · have hrefs : (acc.1.slot target i).refs = gr.refs := by
      rw [CapSlotView.refs_of_valid hm.1, hm.2.1, hm.2.2.1, Grant.refs]
    have hinv := Prim.invalidate (g := g) (c := acc.2 • gr.refs + c) target i hm.1
    rw [hrefs, ← add_assoc, ← succ_nsmul'] at hinv
    exact ⟨hinv.prims, rfl⟩
  · exact .refl _

/-- A loop over pairs of a state and a number of references. -/
theorem foldl_count_inner {α : Type*} (r : Multiset Object) {f : Kernel × ℕ → α → Kernel × ℕ}
    (h : ∀ acc a, Inner g acc.1 (acc.2 • r + c) (f acc a).1 ((f acc a).2 • r + c)) (l : List α)
    (acc : Kernel × ℕ) :
    Inner g acc.1 (acc.2 • r + c) (l.foldl f acc).1 ((l.foldl f acc).2 • r + c) := by
  induction l generalizing acc with
  | nil => exact .refl _
  | cons a l ih => exact (h acc a).trans (ih (f acc a))

theorem revokeTarget_inner (gr : Grant) (acc : Kernel × ℕ) (target : ProcIdx) :
    Inner g acc.1 (acc.2 • gr.refs + c) (revokeTarget gr acc target).1
      ((revokeTarget gr acc target).2 • gr.refs + c) := by
  rw [revokeTarget]
  split_ifs
  · exact .refl _
  · exact foldl_count_inner gr.refs (revokeSlot_inner gr target) _ acc

theorem revokePass_inner (s : Kernel) (dst : ProcIdx) (generation : U32) (gr : Grant) :
    Inner g s c (revokePass s dst generation gr).1
      ((revokePass s dst generation gr).2 • gr.refs + c) := by
  have h := foldl_count_inner (g := g) (c := c) gr.refs (revokeTarget_inner gr)
    (procCollectDescendantsLocked s dst generation) (s, 0)
  rwa [zero_nsmul, zero_add] at h

theorem revokeLoop_inner (dst : ProcIdx) (generation : U32) (gr : Grant) (fuel : ℕ)
    (acc : Kernel × ℕ) :
    Inner g acc.1 (acc.2 • gr.refs + c) (revokeLoop dst generation gr fuel acc).1
      ((revokeLoop dst generation gr fuel acc).2 • gr.refs + c) := by
  induction fuel generalizing acc with
  | zero => exact .refl _
  | succ fuel ih =>
    have hpass := revokePass_inner (g := g) (c := acc.2 • gr.refs + c) acc.1 dst generation gr
    rw [revokeLoop]
    split_ifs with hzero
    · rwa [hzero, zero_nsmul, zero_add] at hpass
    · have hnext := ih ((revokePass acc.1 dst generation gr).1,
        acc.2 + (revokePass acc.1 dst generation gr).2)
      rw [add_nsmul, add_comm (acc.2 • gr.refs), add_assoc] at hnext
      exact hpass.trans hnext

theorem revokeHandle_inner (s : Kernel) (p : ProcIdx) (token : U64) :
    Inner g s c (revokeHandle s p token) c := by
  rw [revokeHandle]
  cases capValidateTokenLocked s p token with
  | none => exact .refl s
  | some k =>
    simp only
    split_ifs
    · exact dropSlot_inner s p k
    · exact .refl s

theorem revokeDelegate_inner (s : Kernel) (p : ProcIdx) (token : U64) :
    Inner g s c (capRevokeDelegateImpl s p token).2 c := by
  rw [capRevokeDelegateImpl]
  cases capValidateTokenLocked s p token with
  | none => exact .refl s
  | some i =>
    simp only
    split_ifs with hbad
    · exact .refl s
    have hrec : Inner g s c (s.setRecord (s.slot p i).objectIndex.toNat
        { (s.delegatePool (s.slot p i).objectIndex.toNat) with
          refcount := (s.delegatePool (s.slot p i).objectIndex.toNat).refcount + 1 }) c :=
      ⟨records_prims s.nextGrantEpoch fun huse ↦ .inr ⟨huse, rfl⟩, rfl⟩
    refine hrec.trans ?_
    generalize hr : s.delegatePool (s.slot p i).objectIndex.toNat = r
    generalize s.setRecord (s.slot p i).objectIndex.toNat { r with refcount := r.refcount + 1 } = s₁
    cases r.dstProc with
    | none => exact (dropSlot_inner s₁ p i).trans (delegateRecordPut_inner _ _)
    | some dst =>
      simp only
      split_ifs
      · exact (dropSlot_inner s₁ p i).trans (delegateRecordPut_inner _ _)
      · have hloop := revokeLoop_inner (g := g) (c := c) dst r.dstGeneration r.grant
          (procMax * capSpaceSlots + 1) (s₁, 0)
        rw [zero_nsmul, zero_add] at hloop
        generalize revokeLoop dst r.dstGeneration r.grant (procMax * capSpaceSlots + 1) (s₁, 0) = acc
          at hloop ⊢
        exact ((hloop.trans (revokeHandle_inner _ p token)).trans
          ⟨releaseObject_prims r.dstType r.dstObjectIndex acc.2,
            (releaseObject_onlyPools _ _ _ _).procTable⟩).trans (delegateRecordPut_inner _ _)

/-! ## The end of a process -/

theorem teardownRevoke_inner (s : Kernel) (i : SlotIdx) : Inner g s c (teardownRevoke p s i) c := by
  rw [teardownRevoke]
  split_ifs
  · exact revokeDelegate_inner s p _
  · exact .refl s

theorem teardownDrop_inner (s : Kernel) (i : SlotIdx) : Inner g s c (teardownDrop p s i) c := by
  rw [teardownDrop]
  split_ifs
  · exact dropSlot_inner s p i
  · exact .refl s

theorem spaceTeardown_inner (s : Kernel) (p : ProcIdx) : Inner g s c (capSpaceTeardown s p) c :=
  (Inner.foldl _ teardownRevoke_inner s).trans (Inner.foldl _ teardownDrop_inner _)

theorem procFree_procTable_ne (s : Kernel) (h : q ≠ p) :
    (procFreeLocked s p).procTable q = s.procTable q :=
  (update_of_ne h _ _).trans (congrFun (spaceTeardown_inner (g := true) (c := 0) s p).procTable q)

theorem teardownDrop_sameElsewhere (s : Kernel) : SameElsewhere p i s (teardownDrop p s i) := by
  rw [teardownDrop]
  split_ifs
  · exact dropSlot_sameElsewhere
  · exact .refl s

theorem teardownDrop_not_valid (s : Kernel) : ((teardownDrop p s i).slot p i).valid = false := by
  rw [teardownDrop]
  split_ifs with hv
  · exact dropSlot_not_valid
  · simpa using hv

/-- A slot that is not valid is not touched by the drops of the others. -/
theorem foldl_teardownDrop_not_valid (l : List SlotIdx) (h : (s.slot p i).valid = false ∨ i ∈ l) :
    ((l.foldl (teardownDrop p) s).slot p i).valid = false := by
  induction l generalizing s with
  | nil => exact h.resolve_right (not_mem_nil)
  | cons k l ih =>
    apply ih
    by_cases hk : i = k
    · subst hk
      exact .inl (teardownDrop_not_valid s)
    · rcases h with hv | hmem
      · rw [(teardownDrop_sameElsewhere s).slot fun hc ↦ hk hc.2]
        exact .inl hv
      · exact .inr ((mem_cons.mp hmem).resolve_left hk)

/-- **Nothing is left in a space that has been torn down.** -/
theorem spaceTeardown_not_valid (s : Kernel) (p : ProcIdx) (i : SlotIdx) :
    ((capSpaceTeardown s p).slot p i).valid = false :=
  foldl_teardownDrop_not_valid _ (.inr (mem_finRange i))

theorem procFree_prims (s : Kernel) (p : ProcIdx) : Prims g s c (procFreeLocked s p) c :=
  (spaceTeardown_inner s p).prims.trans (Prim.retire p (spaceTeardown_not_valid s p)).prims

/-- A process whose entry changes in its place in the family only. -/
theorem setProc_prims (pr : Proc) (hstate : pr.state = .free ↔ (s.procTable p).state = .free)
    (hgen : pr.generation = (s.procTable p).generation) : Prims g s c (s.setProc p pr) c := by
  refine (Prim.table _ s.nextPid (fun q ↦ ?_) fun q ↦ ?_).prims
  all_goals
    rw [update_apply]
    split_ifs with hq
  · exact hq ▸ hstate
  · rfl
  · exact hq ▸ hgen
  · rfl

theorem setParent_prims (s : Kernel) (p : ProcIdx) (ids : U16 × U32) :
    Prims g s c (setParent s p ids) c :=
  setProc_prims _ Iff.rfl rfl

theorem reparentChild_prims (parent : ProcIdx) (init : Option ProcIdx) (s : Kernel)
    (child : ProcIdx) : Prims g s c (reparentChild parent init s child) c := by
  cases init <;> simp only [reparentChild] <;> split_ifs
  all_goals first | exact .refl | exact setParent_prims s child _ | exact procFree_prims s child

theorem reparentChildren_prims (s : Kernel) (p : ProcIdx) :
    Prims g s c (procReparentChildren s p) c :=
  Prims.foldl _ fun s child _ ↦ reparentChild_prims p _ s child

theorem waitChild_prims (s : Kernel) (p : ProcIdx) : Prims g s c (procWaitChild s p).2 c := by
  rw [procWaitChild]
  split_ifs
  · exact .refl
  cases procOrder.find? fun c ↦ (s.procTable c).state = .zombie ∧
      (s.procTable c).parentPid = (s.procTable p).pid with
  | none => exact .refl
  | some child => exact procFree_prims s child

theorem reparentChild_procTable_self (init : Option ProcIdx) (s : Kernel) (child : ProcIdx) :
    (reparentChild p init s child).procTable p = s.procTable p := by
  have hne : ¬((s.procTable child).state = .free ∨ !procChildMatchesParent s child p) →
      p ≠ child := by
    rintro hno rfl
    exact hno (.inr (by simp [procChildMatchesParent]))
  cases init <;> simp only [reparentChild] <;> split_ifs with hno
  all_goals first
    | rfl
    | exact update_of_ne (hne hno) _ _
    | exact procFree_procTable_ne s (hne hno)

/-- An exiting process is no child of its own. -/
theorem reparentChildren_procTable_self (s : Kernel) (p : ProcIdx) :
    (procReparentChildren s p).procTable p = s.procTable p :=
  foldlRecOn (motive := fun t ↦ t.procTable p = s.procTable p) _ _ rfl
    fun t ht child _ ↦ (reparentChild_procTable_self _ t child).trans ht

theorem repossess_procTable_state (s : Kernel) (p q : ProcIdx) :
    ((repossess s p).procTable q).state = (s.procTable q).state := by
  show (update s.procTable p _ q).state = _
  rw [update_apply]
  split_ifs with hq
  · rw [hq]
  · rfl

theorem zombie_prims (h : (s.procTable p).state ≠ .free) :
    Prims g s c (s.setProc p { (s.procTable p) with state := .zombie }) c :=
  setProc_prims _ ⟨nofun, fun hf ↦ absurd hf h⟩ rfl

/-- The rest of an exit is a sequence of moves, and a process that nobody can reap is freed in it. -/
theorem exit_prims (hlive : (s.procTable p).state ≠ .free) :
    procExit s p = s ∨ Prims g (repossess s p) c (procExit s p) c := by
  rw [procExit]
  split_ifs with hgone
  · exact .inl rfl
  · right
    have hrep := reparentChildren_prims (g := g) (c := c) (repossess s p) p
    have hstate : ((procReparentChildren (repossess s p) p).procTable p).state ≠ .free := by
      rwa [reparentChildren_procTable_self, repossess_procTable_state]
    generalize procReparentChildren (repossess s p) p = u at hrep hstate ⊢
    have hzombie := zombie_prims (g := g) (c := c) hstate
    dsimp only
    split_ifs
    · exact (hrep.trans hzombie).trans (procFree_prims _ p)
    · exact hrep.trans hzombie

/-! ## The beginning of a process -/

theorem spaceInit_prims (hp : (s.procTable p).state ≠ .free) :
    Prims true (clearSpace s p) c (capSpaceInit s p) c := by
  have h₀ : ((clearSpace s p).procTable p).state ≠ .free := hp
  show Prims true _ c (capOpenFd (capOpenFd (capOpenFd (clearSpace s p) p _ 0 true).2 p _ 1 true).2
    p _ 2 true).2 c
  have h₁ := openFd_inner (c := c) h₀ (capRightRead ||| capRightGrant) 0 true
  generalize (capOpenFd (clearSpace s p) p (capRightRead ||| capRightGrant) 0 true).2 = s₁ at *
  have h₂ := h₁.trans (openFd_inner (h₁.procTable ▸ h₀) (capRightWrite ||| capRightGrant) 1 true)
  generalize (capOpenFd s₁ p (capRightWrite ||| capRightGrant) 1 true).2 = s₂ at *
  exact (h₂.trans (openFd_inner (h₂.procTable ▸ h₀) _ 2 true)).prims

/-- **The birth of a process**: a free place is taken, and the rest is a sequence of moves. -/
theorem procAlloc_prims {parent : Option ProcIdx} (h : procAlloc s parent = some (p, t)) :
    (s.procTable p).state = .free ∧
      ∃ pid next, Prims true (clearSpace (enlist s p pid next) p) c t c := by
  rw [procAlloc] at h
  cases hfind : procOrder.find? fun p ↦ (s.procTable p).state = .free with
  | none => rw [hfind] at h; cases h
  | some r =>
    have hfree : (s.procTable r).state = .free := by simpa using find?_some hfind
    rcases hpid : procAllocPidLocked s with ⟨pid, next⟩
    simp only [hfind, hpid] at h
    split_ifs at h
    obtain ⟨rfl, rfl⟩ := Prod.mk.inj (Option.some.inj h)
    refine ⟨hfree, pid, next, ?_⟩
    have hembryo : ((enlist s r pid next).procTable r).state ≠ .free := by
      show (update s.procTable r _ r).state ≠ _
      rw [update_self]
      nofun
    exact (spaceInit_prims hembryo).trans (setParent_prims _ _ _)

/-! ## Events -/

/-- **The state from which the moves of an event start.** Nothing has happened to the spaces of the
processes that exist and to the records, and a place of the table that was free is as it was or has
no slots. -/
structure Kernel.Prepared (s t : Kernel) : Prop where
  spaces : ∀ p, (s.procTable p).state ≠ .free →
    t.capSpace p = s.capSpace p ∧ (t.procTable p).state ≠ .free
  fresh : ∀ p, (s.procTable p).state = .free →
    t.capSpace p = s.capSpace p ∨ ∀ i, (t.slot p i).valid = false
  records : t.delegatePool = s.delegatePool

theorem Kernel.Prepared.of_eq (hspace : t.capSpace = s.capSpace)
    (hstate : ∀ p, (t.procTable p).state = (s.procTable p).state)
    (hrecords : t.delegatePool = s.delegatePool) : s.Prepared t :=
  ⟨fun p hp ↦ ⟨congrFun hspace p, hstate p ▸ hp⟩, fun p _ ↦ .inl (congrFun hspace p), hrecords⟩

theorem Kernel.Prepared.refl (s : Kernel) : s.Prepared s := .of_eq rfl (fun _ ↦ rfl) rfl

/-- A word of zeros is no slot. -/
theorem Kernel.slot_valid_of_word_eq_zero (h : s.word p i = 0) : (s.slot p i).valid = false := by
  rw [Kernel.slot_eq_unpack, h]
  rfl

theorem clearSpace_not_valid (s : Kernel) (p : ProcIdx) (i : SlotIdx) :
    ((clearSpace s p).slot p i).valid = false := by
  apply Kernel.slot_valid_of_word_eq_zero
  simp [Kernel.word, clearSpace, Kernel.setSpace]

theorem clearSpace_capSpace_ne (s : Kernel) (h : q ≠ p) :
    (clearSpace s p).capSpace q = s.capSpace q :=
  update_of_ne h _ _

theorem enlist_procTable_ne (s : Kernel) (pid next : U16) (h : q ≠ p) :
    (enlist s p pid next).procTable q = s.procTable q :=
  update_of_ne h _ _

theorem enlist_prepared (hfree : (s.procTable p).state = .free) (pid next : U16) :
    s.Prepared (clearSpace (enlist s p pid next) p) := by
  refine ⟨?_, ?_, rfl⟩
  · intro q hq
    have hne : q ≠ p := by
      rintro rfl
      exact hq hfree
    refine ⟨(clearSpace_capSpace_ne _ hne).trans rfl, ?_⟩
    have hproc : (clearSpace (enlist s p pid next) p).procTable q = s.procTable q :=
      enlist_procTable_ne s pid next hne
    rwa [hproc]
  · intro q _
    by_cases hne : q = p
    · subst hne
      exact .inr (clearSpace_not_valid _ q)
    · exact .inl ((clearSpace_capSpace_ne _ hne).trans rfl)

theorem Kernel.Active.ne_free (h : s.Active p) : (s.procTable p).state ≠ .free := by
  rcases h with h | h <;> rw [h] <;> decide

theorem ne_free_of_running (h : (s.procTable p).state = .running) :
    (s.procTable p).state ≠ .free := by
  rw [h]
  decide

/-- **Every event is a sequence of moves**, of a new process once it is in the table, and but for an
exit and a reference that is lost. -/
theorem step_cases (ha : e.Allowed s) : Prims true s 0 (step s e) 0 ∨
    (∃ p pid next, (s.procTable p).state = .free ∧
      Prims true (clearSpace (enlist s p pid next) p) 0 (step s e) 0) ∨
    (∃ p, e = .exit p) ∨ ∃ ref, e = .abandon ref := by
  cases e with
  | spawn parent =>
    rw [step]
    cases hp : procAlloc s parent with
    | none => exact .inl .refl
    | some r =>
      obtain ⟨p, t⟩ := r
      obtain ⟨hfree, pid, next, hprims⟩ := procAlloc_prims hp
      exact .inr (.inl ⟨p, pid, next, hfree, hprims⟩)
  | discard p => exact .inl (procFree_prims s p)
  | start p =>
    refine .inl (setProc_prims _ ?_ rfl)
    have hstate : (s.procTable p).state = .embryo := ha
    rw [hstate]
    exact ⟨nofun, nofun⟩
  | openThread p thread => exact .inl (openThread_prims ha.ne_free _ _ _ _)
  | openFd p rights hint exact => exact .inl (openFd_inner ha.ne_free rights hint exact).prims
  | openObject p pool => exact .inl (objectOpen_prims (ne_free_of_running ha.1) pool)
  | closeFd p fd => exact .inl (closeFd_prims fd)
  | dropToken p token => exact .inl (dropToken_prims token)
  | dup p oldfd newfd exact => exact .inl (dupFd_prims ha.ne_free oldfd newfd exact)
  | inherit src dst srcFd dstFd =>
    exact .inl (inheritFd_prims ha.1.ne_free ha.2.ne_free srcFd dstFd)
  | transfer src dstPid token newRights =>
    exact .inl (transfer_prims (ne_free_of_running ha) dstPid token newRights)
  | revoke src token => exact .inl (revokeDelegate_inner s src token).prims
  | pin p handle rights pool =>
    left
    rw [step]
    cases hl : capLookup s p handle rights pool with
    | none => exact .refl
    | some t => exact lookup_prims hl
  | unpin ref => exact .inl (putRef_prims ha)
  | abandon ref => exact .inr (.inr (.inr ⟨ref, rfl⟩))
  | exit p => exact .inr (.inr (.inl ⟨p, rfl⟩))
  | wait p => exact .inl (waitChild_prims s p)

/-- Every event is a sequence of moves from a state that the event prepares. -/
theorem step_prims (ha : e.Allowed s) : ∃ s₀, s.Prepared s₀ ∧ Prims true s₀ 0 (step s e) 0 := by
  rcases step_cases ha with h | ⟨p, pid, next, hfree, h⟩ | ⟨p, rfl⟩ | ⟨ref, rfl⟩
  · exact ⟨s, .refl s, h⟩
  · exact ⟨_, enlist_prepared hfree pid next, h⟩
  · rcases exit_prims (ne_free_of_running ha) with hsame | hprims
    · exact ⟨s, .refl s, by rw [step, hsame]; exact .refl⟩
    · exact ⟨repossess s p, .of_eq rfl (repossess_procTable_state s p) rfl, hprims⟩
  · exact ⟨{ s with pins := s.pins.erase ref }, .of_eq rfl (fun _ ↦ rfl) rfl, .refl⟩

/-! ## Slots belong to processes -/

/-- A place of the table without a process has no valid slots. -/
def Kernel.Vacant (s : Kernel) : Prop :=
  ∀ p i, (s.slot p i).valid = true → (s.procTable p).state ≠ .free

theorem Prim.vacant (hs : s.Vacant) (h : Prim g s c t d) : t.Vacant := by
  intro q j hvalid
  cases h with
  | publish _ p i objectIndex type rights typeMeta v hv hp _ _ =>
    by_cases hat : q = p ∧ j = i
    · exact hat.1 ▸ hp
    · rw [(publish_sameElsewhere _ _ _ _ _).slot hat] at hvalid
      exact hs q j hvalid
  | invalidate p i _ =>
    by_cases hat : q = p ∧ j = i
    · obtain ⟨rfl, rfl⟩ := hat
      rw [slot_invalidate_self] at hvalid
      cases hvalid
    · rw [invalidate_sameElsewhere.slot hat] at hvalid
      exact hs q j hvalid
  | epoch p i e =>
    rw [slot_setDelegateEpoch] at hvalid
    exact hs q j hvalid
  | put o =>
    have honly := poolPut_onlyPools s o
    rw [Kernel.slot, honly.capSpace] at hvalid
    rw [honly.procTable]
    exact hs q j hvalid
  | table t n hstate _ => exact fun hfree ↦ hs q j hvalid ((hstate q).mp hfree)
  | retire p hempty =>
    by_cases hq : q = p
    · subst hq
      exact absurd hvalid (by rw [Bool.not_eq_true]; exact hempty j)
    · have hproc : (s.setProc p { (s.procTable p) with
          generation := (s.procTable p).generation + 1, state := .free }).procTable q =
          s.procTable q := update_of_ne hq _ _
      rw [hproc]
      exact hs q j hvalid
  | _ => exact hs q j hvalid

theorem Kernel.Prepared.vacant (h : s.Prepared t) (hs : s.Vacant) : t.Vacant := by
  intro p i hvalid
  by_cases hp : (s.procTable p).state = .free
  · rcases h.fresh p hp with hspace | hnone
    · rw [Kernel.slot, hspace] at hvalid
      exact absurd hp (hs p i hvalid)
    · rw [hnone i] at hvalid
      cases hvalid
  · exact (h.spaces p hp).2

theorem Kernel.Vacant.step (hs : s.Vacant) (ha : e.Allowed s) : (step s e).Vacant := by
  obtain ⟨s₀, hprep, hprims⟩ := step_prims ha
  exact hprims.invariant (P := fun u _ ↦ u.Vacant) (hprep.vacant hs) fun hu hprim ↦ hprim.vacant hu

theorem vacant_init : Kernel.init.Vacant := by
  intro p i hvalid
  rw [Kernel.slot_valid_of_word_eq_zero rfl] at hvalid
  cases hvalid

theorem Reachable.vacant (h : Reachable s) : s.Vacant :=
  Runs.invariant h vacant_init fun hu ha _ ↦ hu.step ha

end Mazu.Cap
