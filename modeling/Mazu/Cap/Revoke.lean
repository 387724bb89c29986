import Mazu.Cap.Calls

/-!
# What a revocation reaches

`cap_revoke_delegate` walks the processes that descend from the receiver of the delegation *now*.
Slots of the delegation are inherited at `spawn`, and an exit hands the children of a process over to
process 1, so a holder need not be a descendant any more. A revocation is complete exactly when every
holder still is one.
-/

namespace Mazu.Cap

open List

variable {root : ProcIdx} {out : List ProcIdx} {g : Grant}

variable {s t : Kernel} {p q : ProcIdx} {i j : SlotIdx}

/-! ## Descendants -/

/-- The process descends from `root` by the parent links of the process table. -/
inductive Kernel.Descends (s : Kernel) (root : ProcIdx) : ProcIdx → Prop
  | root (hlive : (s.procTable root).state ≠ .free) : s.Descends root root
  | child {parent child : ProcIdx} (h : s.Descends root parent)
      (hlive : (s.procTable child).state ≠ .free)
      (hparent : procChildMatchesParent s child parent = true) : s.Descends root child

theorem Kernel.Descends.live (h : s.Descends root p) : (s.procTable p).state ≠ .free := by
  cases h with
  | root hlive | child _ hlive _ => exact hlive

theorem Kernel.Descends.root_live (h : s.Descends root p) : (s.procTable root).state ≠ .free := by
  induction h with
  | root hlive => exact hlive
  | child _ _ _ ih => exact ih

/-- What the list of the scans is at any time: processes that descend from the root, each once. -/
structure Collecting (s : Kernel) (root : ProcIdx) (out : List ProcIdx) : Prop where
  nodup : out.Nodup
  start : root ∈ out
  descends : ∀ p ∈ out, s.Descends root p

theorem collectCandidate_cases (s : Kernel) (out : List ProcIdx) (c : ProcIdx) :
    collectCandidate s out c = out ∨ collectCandidate s out c = out ++ [c] := by
  rw [collectCandidate]
  split_ifs
  · exact .inr rfl
  · exact .inl rfl

theorem Collecting.candidate (h : Collecting s root out)
    (c : ProcIdx) : Collecting s root (collectCandidate s out c) := by
  rw [collectCandidate]
  split_ifs with hc
  · obtain ⟨-, hlive, hparent, hnew⟩ := hc
    obtain ⟨q, hq, hmatch⟩ := any_eq_true.mp hparent
    exact ⟨h.nodup.append (nodup_singleton c) (disjoint_singleton.mpr hnew),
      mem_append_left _ h.start, forall_mem_append.mpr ⟨h.descends,
        forall_mem_singleton.mpr (.child (h.descends q hq) hlive hmatch)⟩⟩
  · exact h

theorem Collecting.scan (h : Collecting s root out) : Collecting s root (collectScan s out) :=
  foldlRecOn (motive := Collecting s root) procOrder _ h fun _ hl c _ ↦ hl.candidate c

theorem length_le_foldl_collect (s : Kernel) (l out : List ProcIdx) :
    out.length ≤ (l.foldl (collectCandidate s) out).length := by
  induction l generalizing out with
  | nil => exact le_rfl
  | cons c l ih =>
    refine le_trans ?_ (ih _)
    rcases collectCandidate_cases s out c with hc | hc <;> rw [hc]
    rw [length_append]
    exact Nat.le_add_right _ _

/-- A scan that does not lengthen the list has added no candidate. -/
theorem collectCandidate_eq_of_length {l : List ProcIdx}
    (h : (l.foldl (collectCandidate s) out).length = out.length) :
    ∀ c ∈ l, collectCandidate s out c = out := by
  induction l with
  | nil => exact nofun
  | cons a l ih =>
    have hlong := length_le_foldl_collect s l (collectCandidate s out a)
    have ha : collectCandidate s out a = out := by
      rcases collectCandidate_cases s out a with hc | hc
      · exact hc
      · rw [foldl_cons] at h
        rw [h, hc, length_append, length_singleton] at hlong
        omega
    rw [foldl_cons, ha] at h
    exact forall_mem_cons.mpr ⟨ha, ih h⟩

/-- The list holds every descendant: no live process outside it has its parent in it. -/
def Closed (s : Kernel) (out : List ProcIdx) : Prop :=
  ∀ c q, q ∈ out → (s.procTable c).state ≠ .free → procChildMatchesParent s c q = true → c ∈ out

theorem closed_of_scan (hshort : out.length < procMax)
    (h : (collectScan s out).length = out.length) : Closed s out := by
  intro c q hq hlive hmatch
  have hc := collectCandidate_eq_of_length h c (mem_finRange c)
  by_contra hnew
  rw [collectCandidate, if_pos ⟨hshort, hlive, any_eq_true.mpr ⟨q, hq, hmatch⟩, hnew⟩] at hc
  simpa using congrArg List.length hc

/-- A list of sixteen processes holds them all. -/
theorem mem_of_length (hnodup : out.Nodup) (hlong : procMax ≤ out.length)
    (c : ProcIdx) : c ∈ out := by
  have hcard : out.toFinset.card = Fintype.card ProcIdx := by
    refine le_antisymm (Finset.card_le_univ _) ?_
    rw [toFinset_card_of_nodup hnodup]
    exact hlong
  have huniv := (Finset.card_eq_iff_eq_univ _).mp hcard
  exact mem_toFinset.mp (huniv ▸ Finset.mem_univ c)

theorem collectLoop_spec (fuel : ℕ) (h : Collecting s root out)
    (hfuel : procMax ≤ out.length + fuel) :
    Collecting s root (collectLoop s fuel out) ∧ Closed s (collectLoop s fuel out) := by
  induction fuel generalizing out with
  | zero => exact ⟨h, fun c _ _ _ _ ↦ mem_of_length h.nodup hfuel c⟩
  | succ fuel ih =>
    rw [collectLoop]
    split_ifs with hshort hdone
    · exact ⟨h, closed_of_scan hshort hdone⟩
    · refine ih h.scan ?_
      have hlong := length_le_foldl_collect s procOrder out
      rw [← collectScan] at hlong
      omega
    · exact ⟨h, fun c _ _ _ _ ↦ mem_of_length h.nodup (not_lt.mp hshort) c⟩

/-- **The list of `proc_collect_descendants` is the set of descendants.** -/
theorem mem_collectDescendants_iff (root : ProcIdx) (generation : U32) :
    p ∈ procCollectDescendantsLocked s root generation ↔
      (s.procTable root).generation = generation ∧ s.Descends root p := by
  rw [procCollectDescendantsLocked]
  split_ifs with hgone
  · refine ⟨nofun, fun ⟨hgen, hp⟩ ↦ ?_⟩
    exact absurd (hgone.resolve_right (not_not.mpr hgen)) hp.root_live
  · obtain ⟨hlive, hgen⟩ := not_or.mp hgone
    have hstart : Collecting s root [root] := ⟨nodup_singleton root,
      mem_singleton_self root, forall_mem_singleton.mpr (.root hlive)⟩
    obtain ⟨hcoll, hclosed⟩ := collectLoop_spec procMax hstart (Nat.le_add_left _ _)
    constructor
    · exact fun hp ↦ ⟨not_not.mp hgen, hcoll.descends p hp⟩
    · rintro ⟨-, hp⟩
      induction hp with
      | root _ => exact hcoll.start
      | child _ hlive hparent ih => exact hclosed _ _ ih hlive hparent

/-! ## The slots of a grant -/

theorem Kernel.Matches.congr (hword : t.word p i = s.word p i)
    (hepoch : t.epoch p i = s.epoch p i) : t.Matches g p i ↔ s.Matches g p i := by
  rw [Kernel.Matches, Kernel.Matches, Kernel.slot_congr hword, hepoch]

theorem Kernel.Matches.congr_capSpace (h : t.capSpace = s.capSpace) :
    t.Matches g p i ↔ s.Matches g p i := by
  rw [Kernel.Matches, Kernel.Matches, Kernel.slot, Kernel.epoch, h, ← Kernel.slot, ← Kernel.epoch]

theorem invalidate_matches :
    (capSlotInvalidate s p i).Matches g q j ↔ s.Matches g q j ∧ ¬(q = p ∧ j = i) := by
  by_cases hat : q = p ∧ j = i
  · obtain ⟨rfl, rfl⟩ := hat
    refine ⟨fun ⟨hvalid, _⟩ ↦ ?_, fun h ↦ absurd ⟨rfl, rfl⟩ h.2⟩
    rw [slot_invalidate_self] at hvalid
    cases hvalid
  · obtain ⟨hword, hepoch, -⟩ := invalidate_sameElsewhere q j hat
    rw [Kernel.Matches.congr hword hepoch]
    exact ⟨fun h ↦ ⟨h, hat⟩, fun h ↦ h.1⟩

/-- Dropping a slot that is not of the grant's type does not touch the grant. -/
theorem dropSlot_matches (htype : (s.slot p i).type ≠ g.type) :
    (capDropSlotLocked s p i).2.Matches g q j ↔ s.Matches g q j := by
  by_cases hv : (s.slot p i).valid
  · rw [Kernel.Matches.congr_capSpace (dropSlot_capSpace hv), invalidate_matches]
    refine ⟨fun h ↦ h.1, fun h ↦ ⟨h, ?_⟩⟩
    rintro ⟨rfl, rfl⟩
    exact htype h.2.1
  · rw [capDropSlotLocked, if_pos (by simpa using hv)]

theorem delegateRecordPut_capSpace (s : Kernel) (n : ℕ) :
    (delegateRecordPut s n).capSpace = s.capSpace := by
  simp only [delegateRecordPut]
  split_ifs <;> rfl

theorem revokeSlots_matches (g : Grant) (target : ProcIdx) (l : List SlotIdx) (acc : Kernel × ℕ) :
    (l.foldl (revokeSlot g target) acc).1.Matches g q j ↔
      acc.1.Matches g q j ∧ ¬(q = target ∧ j ∈ l) := by
  induction l generalizing acc with
  | nil => simp
  | cons i l ih =>
    rw [foldl_cons, ih, revokeSlot]
    split_ifs with hm
    · rw [invalidate_matches, mem_cons]
      tauto
    · rw [mem_cons]
      refine and_congr_right fun hj ↦ not_congr (and_congr_right fun hq ↦ ?_)
      refine ⟨.inr, fun h ↦ h.resolve_left ?_⟩
      rintro rfl
      exact hm (hq ▸ hj)

theorem revokeTarget_matches (g : Grant) (target : ProcIdx) (acc : Kernel × ℕ)
    (hlive : (acc.1.procTable target).state ≠ .free) :
    (revokeTarget g acc target).1.Matches g q j ↔ acc.1.Matches g q j ∧ q ≠ target := by
  rw [revokeTarget, if_neg hlive, revokeSlots_matches]
  simp

theorem revokeTargets_matches (g : Grant) (l : List ProcIdx) (acc : Kernel × ℕ)
    (hlive : ∀ p ∈ l, (acc.1.procTable p).state ≠ .free) :
    (l.foldl (revokeTarget g) acc).1.Matches g q j ↔ acc.1.Matches g q j ∧ q ∉ l := by
  induction l generalizing acc with
  | nil => simp
  | cons target l ih =>
    have htable := (revokeTarget_inner (g := true) (c := 0) g acc target).procTable
    rw [foldl_cons, ih _ fun p hp ↦ htable ▸ hlive p (mem_cons_of_mem _ hp),
      revokeTarget_matches g target acc (hlive target mem_cons_self), mem_cons]
    tauto

/-- **One pass revokes the slots of the grant that descendants hold**, and no others. -/
theorem revokePass_matches (s : Kernel) (dst : ProcIdx) (generation : U32) (g : Grant) :
    (revokePass s dst generation g).1.Matches g q j ↔
      s.Matches g q j ∧ q ∉ procCollectDescendantsLocked s dst generation :=
  revokeTargets_matches g _ (s, 0) fun _ hp ↦ ((mem_collectDescendants_iff _ _).mp hp).2.live

theorem Kernel.Descends.congr (h : t.procTable = s.procTable)
    (hp : s.Descends root p) : t.Descends root p := by
  induction hp with
  | root hlive => exact .root (h ▸ hlive)
  | child _ hlive hparent ih =>
    refine .child ih (h ▸ hlive) ?_
    rwa [procChildMatchesParent, h, ← procChildMatchesParent]

theorem mem_collectDescendants_congr (h : t.procTable = s.procTable) (root : ProcIdx)
    (generation : U32) : q ∈ procCollectDescendantsLocked t root generation ↔
      q ∈ procCollectDescendantsLocked s root generation := by
  rw [mem_collectDescendants_iff, mem_collectDescendants_iff, h]
  exact and_congr_right fun _ ↦ ⟨fun hq ↦ hq.congr h.symm, fun hq ↦ hq.congr h⟩

theorem revokeLoop_matches (dst : ProcIdx) (generation : U32) (g : Grant) (fuel : ℕ)
    (acc : Kernel × ℕ) :
    (revokeLoop dst generation g (fuel + 1) acc).1.Matches g q j ↔
      acc.1.Matches g q j ∧ q ∉ procCollectDescendantsLocked acc.1 dst generation := by
  induction fuel generalizing acc with
  | zero =>
    rw [revokeLoop]
    split_ifs <;> exact revokePass_matches acc.1 dst generation g
  | succ fuel ih =>
    rw [revokeLoop]
    split_ifs
    · exact revokePass_matches acc.1 dst generation g
    · -- a further pass has the same descendants and finds none of their slots
      rw [ih, mem_collectDescendants_congr
        (revokePass_inner (g := true) (c := 0) acc.1 dst generation g).procTable,
        revokePass_matches]
      tauto

theorem revokeHandle_matches (hg : g.type ≠ CapType.delegate.code) (token : U64) :
    (revokeHandle s p token).Matches g q j ↔ s.Matches g q j := by
  rw [revokeHandle]
  cases capValidateTokenLocked s p token with
  | none => exact Iff.rfl
  | some k =>
    simp only
    split_ifs with htype
    · exact dropSlot_matches fun heq ↦ hg (heq ▸ htype)
    · exact Iff.rfl

/-! ## Records are about descriptors -/

def Kernel.FdRecords (s : Kernel) : Prop :=
  ∀ n, (s.delegatePool n).inUse = true → (s.delegatePool n).dstType = CapType.fd.code

theorem Prim.fdRecords {g : Bool} {c d : Multiset Object} (hs : s.FdRecords)
    (h : Prim g s c t d) : t.FdRecords := by
  cases h with
  | records d n hd =>
    intro k hk
    rcases hd k hk with htype | ⟨huse, htype⟩
    · exact htype
    · exact htype.trans (hs k huse)
  | put o =>
    have hpool : (poolPut s o).delegatePool = s.delegatePool := by rw [poolPut_onlyPools s o]
    intro k hk
    rw [hpool] at hk ⊢
    exact hs k hk
  | _ => exact hs

theorem Reachable.fdRecords (h : Reachable s) : s.FdRecords := by
  refine Runs.invariant h ?_ ?_
  · intro n hn
    cases hn
  · intro u e hu ha _
    obtain ⟨u₀, hprep, hprims⟩ := step_prims ha
    refine hprims.invariant ?_ fun hv hprim ↦ hprim.fdRecords hv
    intro n hn
    rw [hprep.records] at hn ⊢
    exact hu n hn

/-! ## The revocation -/

/-- The process is the receiver of the delegation, or descends from it as the table stands. -/
def Kernel.Reaches (s : Kernel) (r : DelegateRecord) (p : ProcIdx) : Prop :=
  ∃ dst, r.dstProc = some dst ∧ (s.procTable dst).generation = r.dstGeneration ∧ s.Descends dst p

theorem Kernel.Reaches.iff_of_some {r : DelegateRecord} {dst : ProcIdx} (h : r.dstProc = some dst) :
    s.Reaches r p ↔ (s.procTable dst).generation = r.dstGeneration ∧ s.Descends dst p := by
  constructor
  · rintro ⟨dst', hdst, hrest⟩
    cases h.symm.trans hdst
    exact hrest
  · exact fun hrest ↦ ⟨dst, h, hrest⟩

/-- **A slot of the delegation survives the revocation exactly when its process is not reached.** -/
theorem revoke_matches {token : U64} {r : DelegateRecord}
    (hi : capValidateTokenLocked s p token = some i)
    (hr : s.delegatePool (s.slot p i).objectIndex.toNat = r)
    (htype : r.inUse = true → r.dstType = CapType.fd.code)
    (hok : (capRevokeDelegateImpl s p token).1.isOk = true) :
    (capRevokeDelegateImpl s p token).2.Matches r.grant q j ↔
      s.Matches r.grant q j ∧ ¬s.Reaches r q := by
  rw [capRevokeDelegateImpl, hi] at hok ⊢
  simp only [hr] at hok ⊢
  split_ifs at hok ⊢ with hbad
  · cases hok
  obtain ⟨hdel, -, huse⟩ := not_or.mp hbad |>.imp_right not_or.mp
  have hgrant : r.grant.type ≠ CapType.delegate.code := by
    have hfd : r.grant.type = CapType.fd.code := htype (by simpa using huse)
    rw [hfd]
    decide
  -- the reference that the call takes on the record touches neither slots nor processes
  generalize hs₁ : s.setRecord (s.slot p i).objectIndex.toNat
    { r with refcount := r.refcount + 1 } = s₁ at hok ⊢
  have hspace : s₁.capSpace = s.capSpace := by rw [← hs₁]; rfl
  have htable : s₁.procTable = s.procTable := by rw [← hs₁]; rfl
  have hslot : (s₁.slot p i).type ≠ r.grant.type := by
    rw [Kernel.slot, hspace, ← Kernel.slot, not_not.mp hdel]
    exact hgrant.symm
  have hearly : (delegateRecordPut (capDropSlotLocked s₁ p i).2
      (s.slot p i).objectIndex.toNat).Matches r.grant q j ↔ s.Matches r.grant q j := by
    rw [Kernel.Matches.congr_capSpace (delegateRecordPut_capSpace _ _), dropSlot_matches hslot,
      Kernel.Matches.congr_capSpace hspace]
  cases hdst : r.dstProc with
  | none =>
    refine hearly.trans ⟨fun h ↦ ⟨h, ?_⟩, fun h ↦ h.1⟩
    rintro ⟨dst, hsome, -⟩
    cases hdst.symm.trans hsome
  | some dst =>
    simp only
    rw [Kernel.Reaches.iff_of_some hdst]
    split_ifs with hgen
    · refine hearly.trans ⟨fun h ↦ ⟨h, ?_⟩, fun h ↦ h.1⟩
      rw [htable] at hgen
      exact fun hreach ↦ hgen hreach.1
    · have hloop := revokeLoop_matches (q := q) (j := j) dst r.dstGeneration r.grant
        (procMax * capSpaceSlots) (s₁, 0)
      generalize revokeLoop dst r.dstGeneration r.grant (procMax * capSpaceSlots + 1) (s₁, 0) = acc
        at hloop ⊢
      rw [Kernel.Matches.congr_capSpace (delegateRecordPut_capSpace _ _),
        Kernel.Matches.congr_capSpace (releaseObject_onlyPools _ _ _ _).capSpace,
        revokeHandle_matches hgrant, hloop, Kernel.Matches.congr_capSpace hspace,
        mem_collectDescendants_congr htable, mem_collectDescendants_iff]

/-- The shell gives process 2 a descriptor, process 2 starts process 3, which inherits it, and exits.
The shell revokes the delegation, with success, and process 3 still has the descriptor. -/
theorem exists_orphaned_holder : ∃ s, Reachable s ∧
    capValidateTokenLocked s 0 0x31600000000 = some 3 ∧
    (capRevokeDelegateImpl s 0 0x31600000000).1.isOk = true ∧
    (capRevokeDelegateImpl s 0 0x31600000000).2.Matches
      (s.delegatePool (s.slot 0 3).objectIndex.toNat).grant 2 3 := by
  obtain ⟨s, hs, hfacts⟩ := exists_reachable_of_runEvents
    (p := fun s ↦ decide (capValidateTokenLocked s 0 0x31600000000 = some 3 ∧
      (capRevokeDelegateImpl s 0 0x31600000000).1.isOk = true ∧
      (capRevokeDelegateImpl s 0 0x31600000000).2.Matches
        (s.delegatePool (s.slot 0 3).objectIndex.toNat).grant 2 3))
    [.spawn none, .start 0, .spawn (some 0), .start 1, .transfer 0 2 0x9100000000 capRightRead,
      .spawn (some 1), .inherit 1 2 3 3, .start 2, .exit 1]
    (by decide +kernel)
  exact ⟨s, hs, of_decide_eq_true hfacts⟩

/-- **A revocation is complete exactly when every holder is the receiver of the delegation or descends
from it** when the revocation starts. -/
theorem revoke_complete_iff {token : U64} (hs : Reachable s)
    (hi : capValidateTokenLocked s p token = some i)
    (hok : (capRevokeDelegateImpl s p token).1.isOk = true) :
    (∀ q j, ¬(capRevokeDelegateImpl s p token).2.Matches
        (s.delegatePool (s.slot p i).objectIndex.toNat).grant q j) ↔
      ∀ q j, s.Matches (s.delegatePool (s.slot p i).objectIndex.toNat).grant q j →
        s.Reaches (s.delegatePool (s.slot p i).objectIndex.toNat) q := by
  have hmatch := fun q j ↦ revoke_matches (q := q) (j := j) hi rfl (hs.fdRecords _) hok
  constructor
  · intro hnone q j hj
    by_contra hfar
    exact hnone q j ((hmatch q j).mpr ⟨hj, hfar⟩)
  · intro hall q j hj
    obtain ⟨hbefore, hfar⟩ := (hmatch q j).mp hj
    exact hfar (hall q j hbefore)

/-- A revocation that succeeds need not be complete. -/
theorem not_revoke_complete : ¬∀ s p token i, Reachable s →
    capValidateTokenLocked s p token = some i →
    (capRevokeDelegateImpl s p token).1.isOk = true →
    ∀ q j, ¬(capRevokeDelegateImpl s p token).2.Matches
      (s.delegatePool (s.slot p i).objectIndex.toNat).grant q j := by
  intro hall
  obtain ⟨s, hs, hi, hok, hleft⟩ := exists_orphaned_holder
  exact hall s 0 _ 3 hs hi hok 2 3 hleft

/-- Then some holder of the delegation is not reached. -/
theorem revoke_complete_iff_orphan : ∃ s, Reachable s ∧
    ¬∀ q j, s.Matches (s.delegatePool (s.slot 0 3).objectIndex.toNat).grant q j →
      s.Reaches (s.delegatePool (s.slot 0 3).objectIndex.toNat) q := by
  obtain ⟨s, hs, hi, hok, hleft⟩ := exists_orphaned_holder
  refine ⟨s, hs, fun hall ↦ ?_⟩
  exact (revoke_complete_iff hs hi hok).mpr hall 2 3 hleft

end Mazu.Cap
