import Mathlib.Algebra.BigOperators.Ring.Finset
import Mathlib.Data.Fintype.Prod
import Mazu.Cap.Calls
import Mazu.Lib.Tally

/-!
# Reference counts

The reference count of a pool object is the number of slots that name it and of references that
running system calls hold. Every move keeps this balance. An exit does not, by itself: it takes away
the timers and synchronisation objects of the process at once, whatever still names them. The balance
survives an exit of a process that leaves no such slots behind it, because it has none or because it
is freed by the same exit.
-/

namespace Mazu.Cap

open Finset Function List

variable {s t : Kernel} {p q : ProcIdx} {i j : SlotIdx} {o : Object} {c d : Multiset Object}

/-! ## Counting -/

/-- The reference count of an object, none for one that is not in use. -/
def Kernel.refs (s : Kernel) (o : Object) : ℕ :=
  if (s.entry o).inUse then (s.entry o).refcount else 0

/-- The number of slots of any process that name the object. -/
def Kernel.named (s : Kernel) (o : Object) : ℕ :=
  #{x : ProcIdx × SlotIdx | (s.slot x.1 x.2).object = some o}

/-- The number of references that running system calls hold. -/
def Kernel.pinned (s : Kernel) (o : Object) : ℕ := (s.pins.map Pin.object).count o

theorem count_refs (v : CapSlotView) (o : Object) :
    v.refs.count o = if v.object = some o then 1 else 0 := by
  rw [CapSlotView.refs]
  cases v.object with
  | none => rfl
  | some o' => simp [Multiset.count_singleton, eq_comm]

theorem CapSlotView.valid_of_object {v : CapSlotView} (h : v.object = some o) : v.valid = true := by
  by_contra hvalid
  rw [object_of_not_valid (by simpa using hvalid)] at h
  cases h

/-- One slot changes. -/
theorem named_update (h : ∀ q j, ¬(q = p ∧ j = i) → t.slot q j = s.slot q j) (o : Object) :
    t.named o + (s.slot p i).refs.count o = s.named o + (t.slot p i).refs.count o := by
  rw [count_refs, count_refs, Kernel.named, Kernel.named, card_filter, card_filter]
  have hoff : ∀ x, x ≠ (p, i) → (if (t.slot x.1 x.2).object = some o then 1 else 0) =
      if (s.slot x.1 x.2).object = some o then 1 else 0 := fun x hx ↦ by
    rw [h x.1 x.2 fun hat ↦ hx (Prod.ext hat.1 hat.2)]
  exact Tally.sum_add_of_eq_off hoff

theorem named_pos (h : (s.slot p i).object = some o) : 0 < s.named o :=
  card_pos.mpr ⟨(p, i), mem_filter.mpr ⟨mem_univ _, h⟩⟩

theorem named_eq_zero_iff : s.named o = 0 ↔ ∀ p i, (s.slot p i).object ≠ some o := by
  rw [Kernel.named, card_eq_zero, filter_eq_empty_iff]
  exact ⟨fun h p i ↦ h (mem_univ (p, i)), fun h x _ ↦ h x.1 x.2⟩

theorem named_congr (h : t.capSpace = s.capSpace) (o : Object) : t.named o = s.named o := by
  refine congrArg card (filter_congr fun x _ ↦ ?_)
  rw [Kernel.slot, h, ← Kernel.slot]

theorem pinned_eq_zero_iff : s.pinned o = 0 ↔ ∀ pin ∈ s.pins, pin.object ≠ o := by
  rw [Kernel.pinned, List.count_eq_zero, List.mem_map]
  exact ⟨fun h pin hpin heq ↦ h ⟨pin, hpin, heq⟩, fun h ⟨pin, hpin, heq⟩ ↦ h pin hpin heq⟩

theorem count_object_cons (ref : Pin) (l : List Pin) (o : Object) :
    ((ref :: l).map Pin.object).count o =
      (l.map Pin.object).count o + if o = ref.object then 1 else 0 := by
  rw [List.map_cons, List.count_cons]
  simp only [beq_iff_eq, eq_comm (a := o)]

theorem refs_of_inUse (h : (s.entry o).inUse = true) : s.refs o = (s.entry o).refcount := by
  rw [Kernel.refs, if_pos h]

theorem refs_of_not_inUse (h : (s.entry o).inUse = false) : s.refs o = 0 := by
  rw [Kernel.refs, h]
  rfl

/-! ## Giving a reference back -/

theorem poolPut_entry_ne (s : Kernel) {o' : Object} (h : o' ≠ o) :
    (poolPut s o).entry o' = s.entry o' := by
  obtain ⟨pool, n⟩ := o
  cases pool <;>
    (simp only [poolPut, capFdPut, posixTimerPutIdx, syncPutIdx, mqueuePutIdx]
     split_ifs <;> first | rfl | exact setEntry_entry_ne s _ h)

/-- The last reference frees the object and any other is only counted. -/
theorem poolPut_entry_self (huse : (s.entry o).inUse = true) (hsize : o.2 < o.1.size) :
    ((s.entry o).refcount ≤ 1 ∧ ((poolPut s o).entry o).inUse = false) ∨ (1 < (s.entry o).refcount ∧
        (poolPut s o).entry o = { s.entry o with refcount := (s.entry o).refcount - 1 }) := by
  obtain ⟨pool, n⟩ := o
  cases pool <;>
    (simp only [poolPut, capFdPut, posixTimerPutIdx, syncPutIdx, mqueuePutIdx, mqueueDestroyLocked]
     split_ifs <;> simp_all [setEntry_entry_self, PoolEntry.zero] <;> omega)

/-- A timer or synchronisation object that is not in use takes no reference back. -/
theorem poolPut_of_dead (hp : o.1.Personal) (hdead : (s.entry o).inUse = false) :
    poolPut s o = s := by
  obtain ⟨pool, n⟩ := o
  cases pool with
  | fd => exact absurd hp not_personal_fd
  | mqueue => rcases hp with hp | hp <;> cases hp
  | timer => simp [poolPut, posixTimerPutIdx, hdead]
  | _ => simp [poolPut, syncPutIdx, hdead]

/-! ## The balance -/

/-- **The books balance**, but for the objects `D` that an exit has taken away. The multiset is what
the running operation holds. Timers and synchronisation objects are named by the process that made
them only. -/
structure Ledger (D : Set Object) (s : Kernel) (c : Multiset Object) : Prop where
  count : ∀ o ∉ D, s.refs o = s.named o + s.pinned o + c.count o
  used : ∀ o, (s.entry o).inUse = true → 0 < (s.entry o).refcount ∧ o.2 < o.1.size
  dead : ∀ o ∈ D, o.1.Personal ∧ (s.entry o).inUse = false
  owned : ∀ p i o, o ∉ D → (s.slot p i).object = some o → o.1.Personal →
    (s.entry o).owner = some p ∧ (s.entry o).ownerGeneration = (s.procTable p).generation
  pinOwned : ∀ pin ∈ s.pins, pin.object ∉ D → pin.object.1.Personal →
    (s.entry pin.object).owner = some pin.holder ∧
      (s.entry pin.object).ownerGeneration = pin.generation

section

variable {D : Set Object} {g : Bool}

theorem inUse_of_refs_pos (hpos : 0 < s.refs o) : (s.entry o).inUse = true := by
  by_contra hno
  rw [refs_of_not_inUse (by simpa using hno)] at hpos
  exact absurd hpos (lt_irrefl 0)

/-- Slots, references and processes change, and the pools do not. -/
theorem Ledger.of_pools_eq {c' : Multiset Object} (h : Ledger D s c) (hpools : t.pools = s.pools)
    (hcount : ∀ o ∉ D, t.named o + t.pinned o + c'.count o = s.named o + s.pinned o + c.count o)
    (howned : ∀ p i o, o ∉ D → (t.slot p i).object = some o → o.1.Personal →
      (t.entry o).owner = some p ∧ (t.entry o).ownerGeneration = (t.procTable p).generation)
    (hpin : ∀ pin ∈ t.pins, pin.object ∉ D → pin.object.1.Personal →
      (t.entry pin.object).owner = some pin.holder ∧
        (t.entry pin.object).ownerGeneration = pin.generation) : Ledger D t c' := by
  have hentry : ∀ o, t.entry o = s.entry o := fun o ↦ by rw [Kernel.entry, hpools, ← Kernel.entry]
  refine ⟨fun o ho ↦ ?_, fun o ↦ ?_, fun o ↦ ?_, howned, hpin⟩
  · rw [Kernel.refs, hentry, ← Kernel.refs, h.count o ho, hcount o ho]
  · rw [hentry]
    exact h.used o
  · rw [hentry]
    exact h.dead o

/-- One entry changes, in its reference count only as long as something refers to it, and the operation
accounts for the difference. -/
theorem Ledger.of_entry {c' : Multiset Object} (h : Ledger D s c) (ho : o ∉ D)
    (honly : OnlyPools s t) (hne : ∀ o', o' ≠ o → t.entry o' = s.entry o')
    (hused : (t.entry o).inUse = true → 0 < (t.entry o).refcount ∧ o.2 < o.1.size)
    (hcount : t.refs o + c.count o = s.refs o + c'.count o)
    (hother : ∀ o', o' ≠ o → c'.count o' = c.count o')
    (howner : 0 < s.named o + s.pinned o → (t.entry o).owner = (s.entry o).owner ∧
      (t.entry o).ownerGeneration = (s.entry o).ownerGeneration) : Ledger D t c' := by
  have hslot : ∀ p i, t.slot p i = s.slot p i := fun p i ↦ by
    rw [Kernel.slot, honly.capSpace, ← Kernel.slot]
  have hpins : t.pins = s.pins := by rw [honly]
  have hpinned : ∀ o, t.pinned o = s.pinned o := fun o ↦ by
    rw [Kernel.pinned, hpins, ← Kernel.pinned]
  refine ⟨?_, ?_, ?_, ?_, ?_⟩
  · intro o' ho'
    rw [named_congr honly.capSpace, hpinned]
    by_cases heq : o' = o
    · subst heq
      have := h.count o' ho
      omega
    · rw [Kernel.refs, hne o' heq, hother o' heq]
      exact h.count o' ho'
  · intro o'
    by_cases heq : o' = o
    · exact heq ▸ hused
    · exact hne o' heq ▸ h.used o'
  · intro o' ho'
    rw [hne o' fun heq ↦ ho (heq ▸ ho')]
    exact h.dead o' ho'
  · intro p i o' ho' hobj hpers
    rw [hslot] at hobj
    have hold := h.owned p i o' ho' hobj hpers
    rw [honly.procTable]
    by_cases heq : o' = o
    · subst heq
      obtain ⟨h₁, h₂⟩ := howner (Nat.lt_of_lt_of_le (named_pos hobj) (Nat.le_add_right _ _))
      rwa [h₁, h₂]
    · rwa [hne o' heq]
  · intro pin hpin ho' hpers
    rw [hpins] at hpin
    have hold := h.pinOwned pin hpin ho' hpers
    by_cases heq : pin.object = o
    · have hpos : 0 < s.pinned o := by
        refine Nat.pos_of_ne_zero fun hz ↦ ?_
        exact pinned_eq_zero_iff.mp hz pin hpin heq
      obtain ⟨h₁, h₂⟩ := howner (Nat.lt_of_lt_of_le hpos (Nat.le_add_left _ _))
      rw [heq] at hold ⊢
      rwa [h₁, h₂]
    · rwa [hne _ heq]

theorem Ledger.put (h : Ledger D s (o ::ₘ c)) : Ledger D (poolPut s o) c := by
  by_cases ho : o ∈ D
  · -- what has been taken away is not counted
    obtain ⟨hpers, hdead⟩ := h.dead o ho
    rw [poolPut_of_dead hpers hdead]
    refine h.of_pools_eq rfl (fun o' ho' ↦ ?_) h.owned h.pinOwned
    rw [Multiset.count_cons_of_ne (ne_of_mem_of_not_mem ho ho').symm]
  · have hcount := h.count o ho
    rw [Multiset.count_cons_self] at hcount
    have huse : (s.entry o).inUse = true := inUse_of_refs_pos (by omega)
    rw [refs_of_inUse huse] at hcount
    have hself := poolPut_entry_self huse (h.used o huse).2
    refine h.of_entry ho (poolPut_onlyPools s o) (fun o' hne ↦ poolPut_entry_ne s hne) ?_ ?_ ?_ ?_
    · intro huse'
      rcases hself with ⟨-, hfreed⟩ | ⟨hmore, heq⟩
      · rw [hfreed] at huse'
        cases huse'
      · rw [heq]
        exact ⟨Nat.sub_pos_of_lt hmore, (h.used o huse).2⟩
    · rw [Multiset.count_cons_self, refs_of_inUse huse]
      rcases hself with ⟨hlast, hfreed⟩ | ⟨hmore, heq⟩
      · rw [refs_of_not_inUse hfreed]
        omega
      · rw [Kernel.refs, heq]
        simp only [huse, if_true]
        omega
    · exact fun o' hne ↦ (Multiset.count_cons_of_ne hne c).symm
    · intro hpos
      rcases hself with ⟨hlast, -⟩ | ⟨-, heq⟩
      · omega
      · rw [heq]
        exact ⟨rfl, rfl⟩

theorem Ledger.inc (h : Ledger D s c) (huse : (s.entry o).inUse = true) :
    Ledger D (s.setEntry o { s.entry o with refcount := (s.entry o).refcount + 1 }) (o ::ₘ c) := by
  have ho : o ∉ D := fun ho ↦ by
    rw [(h.dead o ho).2] at huse
    cases huse
  refine h.of_entry ho rfl (fun o' hne ↦ setEntry_entry_ne s _ hne) ?_ ?_ ?_ ?_
  · intro _
    rw [setEntry_entry_self]
    exact ⟨Nat.succ_pos _, (h.used o huse).2⟩
  · rw [Kernel.refs, setEntry_entry_self, if_pos huse, refs_of_inUse huse, Multiset.count_cons_self]
    show (s.entry o).refcount + 1 + _ = _
    omega
  · exact fun o' hne ↦ Multiset.count_cons_of_ne hne c
  · rw [setEntry_entry_self]
    exact fun _ ↦ ⟨rfl, rfl⟩

theorem Ledger.alloc (h : Ledger ∅ s c) (hsize : o.2 < o.1.size)
    (hfree : (s.entry o).inUse = false) (owner : Option ProcIdx) (generation : U32) :
    Ledger ∅ (s.setEntry o ⟨true, 1, owner, generation⟩) (o ::ₘ c) := by
  have hcount := h.count o (Set.notMem_empty o)
  rw [refs_of_not_inUse hfree] at hcount
  refine h.of_entry (Set.notMem_empty o) rfl (fun o' hne ↦ setEntry_entry_ne s _ hne) ?_ ?_ ?_ ?_
  · intro _
    rw [setEntry_entry_self]
    exact ⟨Nat.one_pos, hsize⟩
  · rw [Kernel.refs, setEntry_entry_self, refs_of_not_inUse hfree, Multiset.count_cons_self]
    simp only [if_true]
    omega
  · exact fun o' hne ↦ Multiset.count_cons_of_ne hne c
  · intro hpos
    omega

/-- **Every move keeps the books.** While objects are being taken away nothing new is made. -/
theorem Prim.ledger (hprim : Prim g s c t d) (h : Ledger D s c) (hD : g = true → D = ∅) :
    Ledger D t d := by
  cases hprim with
  | publish hg p i objectIndex type rights typeMeta v hv hp hfree howner =>
    have hself : (capSlotPublish s p i objectIndex type rights typeMeta
        (s.slot p i).generation).slot p i = v := by rw [slot_publish_self, hv]
    have helse := publish_sameElsewhere (s := s) (p := p) (i := i) objectIndex type rights typeMeta
      (s.slot p i).generation
    refine h.of_pools_eq rfl ?_ ?_ h.pinOwned
    · intro o _
      have hnamed := named_update (fun q j hat ↦ helse.slot hat) o
      rw [hself, CapSlotView.refs_of_none (CapSlotView.object_of_not_valid hfree),
        Multiset.count_zero] at hnamed
      rw [Multiset.count_add]
      show _ + s.pinned o + _ = _
      omega
    · intro q j o ho hobj hpers
      by_cases hat : q = p ∧ j = i
      · obtain ⟨rfl, rfl⟩ := hat
        rw [hself] at hobj
        exact howner o hobj hpers
      · rw [helse.slot hat] at hobj
        exact h.owned q j o ho hobj hpers
  | invalidate p i hvalid =>
    have helse := invalidate_sameElsewhere (s := s) (p := p) (i := i)
    have hself : ((capSlotInvalidate s p i).slot p i).object = none := by
      rw [slot_invalidate_self]
      rfl
    refine h.of_pools_eq rfl ?_ ?_ h.pinOwned
    · intro o _
      have hnamed := named_update (fun q j hat ↦ helse.slot hat) o
      rw [CapSlotView.refs_of_none hself, Multiset.count_zero] at hnamed
      rw [Multiset.count_add]
      show _ + s.pinned o + _ = _
      omega
    · intro q j o ho hobj hpers
      by_cases hat : q = p ∧ j = i
      · obtain ⟨rfl, rfl⟩ := hat
        rw [hself] at hobj
        cases hobj
      · rw [helse.slot hat] at hobj
        exact h.owned q j o ho hobj hpers
  | epoch p i e =>
    refine h.of_pools_eq rfl ?_ ?_ h.pinOwned
    · intro o _
      have hnamed : (capSlotSetDelegateEpoch s p i e).named o = s.named o :=
        congrArg card (filter_congr fun x _ ↦ by rw [slot_setDelegateEpoch])
      rw [hnamed]
      rfl
    · intro q j o ho hobj hpers
      rw [slot_setDelegateEpoch] at hobj
      exact h.owned q j o ho hobj hpers
  | alloc hg o ho hfree owner generation =>
    cases hD hg
    exact h.alloc ho hfree owner generation
  | inc o huse => exact h.inc huse
  | put o => exact h.put
  | records => exact h.of_pools_eq rfl (fun _ _ ↦ rfl) h.owned h.pinOwned
  | pin hg ref i hnamed hgen =>
    refine h.of_pools_eq rfl ?_ h.owned ?_
    · intro o _
      show s.named o + ((ref :: s.pins).map Pin.object).count o + _ = _
      rw [count_object_cons, Multiset.count_cons, Kernel.pinned]
      omega
    · intro pin hpin ho hpers
      rcases mem_cons.mp hpin with rfl | hpin
      · rw [hgen]
        exact h.owned _ i _ ho hnamed hpers
      · exact h.pinOwned pin hpin ho hpers
  | unpin ref hmem =>
    refine h.of_pools_eq rfl ?_ h.owned ?_
    · intro o _
      have hperm := ((perm_cons_erase hmem).map Pin.object).count_eq o
      show s.named o + ((s.pins.erase ref).map Pin.object).count o + _ = _
      rw [count_object_cons] at hperm
      rw [Multiset.count_cons, Kernel.pinned]
      omega
    · exact fun pin hpin ↦ h.pinOwned pin (mem_of_mem_erase hpin)
  | table u n hstate hgen =>
    refine h.of_pools_eq rfl (fun _ _ ↦ rfl) ?_ h.pinOwned
    intro q j o ho hobj hpers
    rw [hgen q]
    exact h.owned q j o ho hobj hpers
  | retire p hempty =>
    refine h.of_pools_eq rfl (fun _ _ ↦ rfl) ?_ h.pinOwned
    intro q j o ho hobj hpers
    have hq : q ≠ p := by
      rintro rfl
      cases (CapSlotView.object_of_not_valid (hempty j)).symm.trans hobj
    have hproc : (s.setProc p { (s.procTable p) with
        generation := (s.procTable p).generation + 1, state := .free }).procTable q =
        s.procTable q := update_of_ne hq _ _
    rw [hproc]
    exact h.owned q j o ho hobj hpers

theorem Prims.ledger (h : Prims g s c t d) (hs : Ledger D s c) (hD : g = true → D = ∅) :
    Ledger D t d :=
  h.invariant hs fun hu hprim ↦ hprim.ledger hu hD

end

/-! ## Exits -/

/-- The timers and synchronisation objects that an exit of the process takes away. -/
def Kernel.estate (s : Kernel) (p : ProcIdx) : Set Object :=
  {o | o.1.Personal ∧ (s.entry o).inUse = true ∧ (s.entry o).owner = some p ∧
    (s.entry o).ownerGeneration = (s.procTable p).generation}

theorem repossess_generation (s : Kernel) (p q : ProcIdx) :
    ((repossess s p).procTable q).generation = (s.procTable q).generation := by
  show (update s.procTable p _ q).generation = _
  rw [update_apply]
  split_ifs with hq
  · rw [hq]
  · rfl

theorem repossess_entry_of_estate (h : o ∈ s.estate p) :
    ((repossess s p).entry o).inUse = false := by
  obtain ⟨pool, n⟩ := o
  obtain ⟨hpers, huse, howner, hgen⟩ := h
  rw [Kernel.entry] at huse howner hgen
  cases pool with
  | fd => exact absurd hpers not_personal_fd
  | mqueue => rcases hpers with hp | hp <;> cases hp
  | _ =>
    simp [repossess, syncHandleTeardownProc, posixTimerTeardownProc, Kernel.entry, Kernel.setProc,
      Pool.isSync, huse, howner, hgen, PoolEntry.zero]

theorem repossess_entry_of_not_estate (h : o ∉ s.estate p) :
    (repossess s p).entry o = s.entry o := by
  obtain ⟨pool, n⟩ := o
  have hno : (pool, n).1.Personal → ¬((s.pools pool n).inUse = true ∧
      (s.pools pool n).owner = some p ∧
      (s.pools pool n).ownerGeneration = (s.procTable p).generation) := fun hp hrest ↦ h ⟨hp, hrest⟩
  cases pool with
  | fd | mqueue => simp [repossess, syncHandleTeardownProc, posixTimerTeardownProc, Kernel.entry,
      Kernel.setProc, Pool.isSync]
  | timer =>
    have hno' := hno (.inl rfl)
    simp [repossess, syncHandleTeardownProc, posixTimerTeardownProc, Kernel.entry,
      Kernel.setProc, hno']
  | _ =>
    have hno' := hno (.inr rfl)
    simp [repossess, syncHandleTeardownProc, posixTimerTeardownProc, Kernel.entry,
      Kernel.setProc, hno']

theorem Ledger.repossess (h : Ledger ∅ s 0) (p : ProcIdx) :
    Ledger (s.estate p) (repossess s p) 0 := by
  refine ⟨?_, ?_, ?_, ?_, ?_⟩
  · intro o ho
    rw [Kernel.refs, repossess_entry_of_not_estate ho, ← Kernel.refs]
    exact h.count o (Set.notMem_empty o)
  · intro o huse
    have ho : o ∉ s.estate p := fun ho ↦ by
      rw [repossess_entry_of_estate ho] at huse
      cases huse
    rw [repossess_entry_of_not_estate ho] at huse ⊢
    exact h.used o huse
  · exact fun o ho ↦ ⟨ho.1, repossess_entry_of_estate ho⟩
  · intro q i o ho hobj hpers
    rw [repossess_entry_of_not_estate ho, repossess_generation]
    exact h.owned q i o (Set.notMem_empty o) hobj hpers
  · intro pin hpin ho hpers
    rw [repossess_entry_of_not_estate ho]
    exact h.pinOwned pin hpin (Set.notMem_empty _) hpers

/-- What is taken away is named by the process itself only. -/
theorem Ledger.estate_named (h : Ledger ∅ s 0) (ho : o ∈ s.estate p)
    (hobj : (s.slot q i).object = some o) : q = p := by
  have howner := (h.owned q i o (Set.notMem_empty o) hobj ho.1).1
  exact Option.some.inj (howner.symm.trans ho.2.2.1)

theorem Ledger.estate_pinned (h : Ledger ∅ s 0) (hpins : ∀ pin ∈ s.pins, pin.holder ≠ p)
    (ho : o ∈ s.estate p) {pin : Pin} (hpin : pin ∈ s.pins) : pin.object ≠ o := by
  rintro rfl
  have howner := (h.pinOwned pin hpin (Set.notMem_empty _) ho.1).1
  exact hpins pin hpin (Option.some.inj (howner.symm.trans ho.2.2.1))

/-- A process without slots for timers and synchronisation objects leaves nothing behind. -/
theorem Ledger.estate_eq_empty (h : Ledger ∅ s 0) (hpins : ∀ pin ∈ s.pins, pin.holder ≠ p)
    (hslots : ∀ i o, (s.slot p i).object = some o → ¬o.1.Personal) : s.estate p = ∅ := by
  refine Set.eq_empty_of_forall_notMem fun o ho ↦ ?_
  have hcount := h.count o (Set.notMem_empty o)
  have hnamed : s.named o = 0 := by
    refine named_eq_zero_iff.mpr fun q i hobj ↦ ?_
    cases h.estate_named ho hobj
    exact hslots i o hobj ho.1
  have hpinned : s.pinned o = 0 :=
    pinned_eq_zero_iff.mpr fun pin hpin ↦ h.estate_pinned hpins ho hpin
  rw [hnamed, hpinned, refs_of_inUse ho.2.1] at hcount
  exact absurd hcount (h.used o ho.2.1).1.ne'

/-- What is gone and neither named nor pinned is in the books again. -/
theorem Ledger.settle {D : Set Object} (h : Ledger D t 0)
    (hgone : ∀ o ∈ D, t.named o = 0 ∧ t.pinned o = 0) : Ledger ∅ t 0 := by
  refine ⟨?_, h.used, fun o ho ↦ absurd ho (Set.notMem_empty o), ?_, ?_⟩
  · intro o _
    by_cases ho : o ∈ D
    · rw [refs_of_not_inUse (h.dead o ho).2, (hgone o ho).1, (hgone o ho).2]
      rfl
    · exact h.count o ho
  · intro q i o _ hobj hpers
    have ho : o ∉ D := fun ho ↦ absurd (hgone o ho).1 (named_pos hobj).ne'
    exact h.owned q i o ho hobj hpers
  · intro pin hpin _ hpers
    have ho : pin.object ∉ D := fun ho ↦ pinned_eq_zero_iff.mp (hgone _ ho).2 pin hpin rfl
    exact h.pinOwned pin hpin ho hpers

/-- Nothing new: every slot and every reference of a running call was there before. -/
structure Shrinks (s t : Kernel) : Prop where
  slots : ∀ q i o, (t.slot q i).object = some o → (s.slot q i).object = some o
  pins : ∀ pin ∈ t.pins, pin ∈ s.pins

theorem Shrinks.of_eq (hspace : t.capSpace = s.capSpace) (hpins : t.pins = s.pins) :
    Shrinks s t := by
  refine ⟨fun q i o hobj ↦ ?_, fun pin hpin ↦ hpins ▸ hpin⟩
  rwa [Kernel.slot, hspace, ← Kernel.slot] at hobj

theorem Shrinks.trans {u : Kernel} (h : Shrinks s t) (h' : Shrinks t u) : Shrinks s u :=
  ⟨fun q i o hobj ↦ h.slots q i o (h'.slots q i o hobj), fun pin hpin ↦ h.pins pin (h'.pins pin hpin)⟩

theorem Prim.shrinks (h : Prim false s c t d) : Shrinks s t := by
  cases h with
  | publish hg | alloc hg | pin hg => cases hg
  | invalidate p i _ =>
    refine ⟨?_, fun pin hpin ↦ hpin⟩
    intro q j o hobj
    by_cases hat : q = p ∧ j = i
    · obtain ⟨rfl, rfl⟩ := hat
      rw [slot_invalidate_self] at hobj
      cases hobj
    · rwa [invalidate_sameElsewhere.slot hat] at hobj
  | epoch p i e =>
    refine ⟨?_, fun pin hpin ↦ hpin⟩
    intro q j o hobj
    rwa [slot_setDelegateEpoch] at hobj
  | put o => exact .of_eq (poolPut_onlyPools s o).capSpace (by rw [poolPut_onlyPools s o])
  | unpin ref _ => exact ⟨fun _ _ _ hobj ↦ hobj, fun pin hpin ↦ mem_of_mem_erase hpin⟩
  | _ => exact .of_eq rfl rfl

theorem Prims.shrinks (h : Prims false s c t d) : Shrinks s t :=
  h.invariant (P := fun u _ ↦ Shrinks s u) (.of_eq rfl rfl) fun hu hprim ↦ hu.trans hprim.shrinks

/-! ## A process that nobody reaps -/

/-- The processes that are left are as they were, but for their parents. -/
def Left (s t : Kernel) : Prop :=
  ∀ q, (t.procTable q).state ≠ .free → (t.procTable q).state = (s.procTable q).state ∧
    (t.procTable q).pid = (s.procTable q).pid ∧
    (t.procTable q).generation = (s.procTable q).generation

theorem reparentChild_left (parent : ProcIdx) (init : Option ProcIdx) (child : ProcIdx)
    (h : Left s t) : Left s (reparentChild parent init t child) := by
  have hset : ∀ ids, Left s (setParent t child ids) := by
    intro ids q hq
    simp only [setParent, Kernel.setProc, update_apply] at hq ⊢
    split_ifs at hq ⊢ with hqc
    · subst hqc
      exact h q hq
    · exact h q hq
  have hfree : Left s (procFreeLocked t child) := by
    intro q hq
    by_cases hqc : q = child
    · subst hqc
      simp only [procFreeLocked, Kernel.setProc, update_self] at hq
      exact absurd rfl hq
    · rw [procFree_procTable_ne t hqc] at hq ⊢
      exact h q hq
  unfold reparentChild
  cases init <;> simp only <;> split_ifs
  all_goals first | exact h | exact hset _ | exact hfree

theorem reparentChildren_left (s : Kernel) (p : ProcIdx) : Left s (procReparentChildren s p) :=
  foldlRecOn (motive := Left s) _ _ (fun _ _ ↦ ⟨rfl, rfl, rfl⟩)
    fun _ ht child _ ↦ reparentChild_left _ _ child ht

theorem liveParent_none_of_left (h : Left s t)
    (hpid : (t.procTable p).parentPid = (s.procTable p).parentPid)
    (hgen : (t.procTable p).parentGeneration = (s.procTable p).parentGeneration)
    (hnone : liveParent s p = none) : liveParent t p = none := by
  rw [liveParent, find?_eq_none] at hnone ⊢
  intro q hq hlive
  simp only [decide_eq_true_eq] at hlive
  obtain ⟨hfree, hzombie, hpid', hgen'⟩ := hlive
  obtain ⟨hstate, hqpid, hqgen⟩ := h q hfree
  refine hnone q hq (decide_eq_true ⟨hstate ▸ hfree, hstate ▸ hzombie, ?_, ?_⟩)
  · rw [← hqpid, hpid', hpid]
  · rw [← hqgen, hgen', hgen]

theorem repossess_procTable (s : Kernel) (p q : ProcIdx) : (repossess s p).procTable q =
    update s.procTable p { (s.procTable p) with isExiting := true } q := rfl

theorem repossess_left (s : Kernel) (p : ProcIdx) : Left s (repossess s p) := by
  intro q _
  rw [repossess_procTable, update_apply]
  split_ifs with hq
  · subst hq
    exact ⟨rfl, rfl, rfl⟩
  · exact ⟨rfl, rfl, rfl⟩

theorem orphan_after_reparent (horphan : liveParent s p = none) :
    liveParent (procReparentChildren (repossess s p) p) p = none := by
  have hself := reparentChildren_procTable_self (repossess s p) p
  have hfirst : liveParent (repossess s p) p = none := by
    refine liveParent_none_of_left (repossess_left s p) ?_ ?_ horphan <;>
      rw [repossess_procTable, update_self]
  exact liveParent_none_of_left (reparentChildren_left _ p) (by rw [hself]) (by rw [hself]) hfirst

/-- A process without a parent to reap it is freed by its own exit. -/
theorem exit_not_valid (horphan : liveParent s p = none) :
    procExit s p = s ∨ ∀ i, ((procExit s p).slot p i).valid = false := by
  have hafter := orphan_after_reparent horphan
  by_cases hgone : (s.procTable p).state = .zombie ∨ (s.procTable p).state = .free ∨
      (s.procTable p).isExiting = true
  · left
    rw [procExit, if_pos hgone]
  · right
    intro i
    rw [procExit, if_neg hgone]
    generalize procReparentChildren (repossess s p) p = u at hafter
    dsimp only
    rw [hafter]
    exact spaceTeardown_not_valid _ p i

/-- When a step keeps the books: a process exits while none of its system calls holds a reference, and
it has no slots for timers or synchronisation objects or is freed at once. -/
def Clean (s : Kernel) : Event → Prop
  | .exit p => (∀ pin ∈ s.pins, pin.holder ≠ p) ∧
      (liveParent s p = none ∨ ∀ i o, (s.slot p i).object = some o → ¬o.1.Personal)
  | .abandon _ => False
  | _ => True

/-- **An exit that is clean keeps the books.** -/
theorem Ledger.exit (h : Ledger ∅ s 0) (hlive : (s.procTable p).state ≠ .free)
    (hclean : Clean s (.exit p)) : Ledger ∅ (procExit s p) 0 := by
  obtain ⟨hpins, hwhy⟩ := hclean
  have hstart := h.repossess p
  rcases hwhy with horphan | hslots
  · rcases exit_not_valid horphan with hsame | hnone
    · rwa [hsame]
    rcases exit_prims (c := 0) hlive with hsame | hprims
    · rwa [hsame]
    have hfirst : Shrinks s (Cap.repossess s p) := .of_eq rfl rfl
    have hshrink := hfirst.trans hprims.shrinks
    -- the process held the only slots of what was taken away, and they are gone
    refine (hprims.ledger hstart nofun).settle fun o ho ↦ ⟨?_, ?_⟩
    · refine named_eq_zero_iff.mpr fun q i hobj ↦ ?_
      cases h.estate_named ho (hshrink.slots q i o hobj)
      rw [CapSlotView.object_of_not_valid (hnone i)] at hobj
      cases hobj
    · refine pinned_eq_zero_iff.mpr fun pin hpin ↦ ?_
      exact h.estate_pinned hpins ho (hshrink.pins pin hpin)
  · rw [h.estate_eq_empty hpins hslots] at hstart
    rcases exit_prims (g := true) hlive with hsame | hprims
    · rwa [hsame]
    · exact hprims.ledger hstart fun _ ↦ rfl

/-- A new process starts with no slots where there were none. -/
theorem Ledger.enlist (h : Ledger ∅ s 0) (hv : s.Vacant) (hfree : (s.procTable p).state = .free)
    (pid next : U16) : Ledger ∅ (clearSpace (enlist s p pid next) p) 0 := by
  have hnone : ∀ i, (s.slot p i).object = none := by
    refine fun i ↦ CapSlotView.object_of_not_valid ?_
    by_contra hvalid
    exact hv p i (by simpa using hvalid) hfree
  have hobject : ∀ q i, ((clearSpace (Cap.enlist s p pid next) p).slot q i).object =
      (s.slot q i).object := by
    intro q i
    by_cases hq : q = p
    · subst hq
      rw [hnone, CapSlotView.object_of_not_valid (clearSpace_not_valid _ q i)]
    · rw [Kernel.slot, clearSpace_capSpace_ne _ hq]
      rfl
  refine h.of_pools_eq rfl ?_ ?_ h.pinOwned
  · intro o _
    have hnamed : (clearSpace (Cap.enlist s p pid next) p).named o = s.named o :=
      congrArg card (filter_congr fun x _ ↦ by rw [hobject])
    rw [hnamed]
    rfl
  · intro q i o ho hobj hpers
    rw [hobject] at hobj
    have hq : q ≠ p := by
      rintro rfl
      cases (hnone i).symm.trans hobj
    have hproc : (clearSpace (Cap.enlist s p pid next) p).procTable q = s.procTable q :=
      enlist_procTable_ne s pid next hq
    rw [hproc]
    exact h.owned q i o ho hobj hpers

/-- **Every clean event keeps the books.** -/
theorem Ledger.step {e : Event} (h : Ledger ∅ s 0) (hv : s.Vacant) (ha : e.Allowed s)
    (hclean : Clean s e) : Ledger ∅ (step s e) 0 := by
  rcases step_cases ha with hprims | ⟨p, pid, next, hfree, hprims⟩ | ⟨p, rfl⟩ | ⟨ref, rfl⟩
  · exact hprims.ledger h fun _ ↦ rfl
  · exact hprims.ledger (h.enlist hv hfree pid next) fun _ ↦ rfl
  · exact h.exit (ne_free_of_running ha) hclean
  · exact hclean.elim

theorem ledger_init : Ledger ∅ .init 0 := by
  have hobject : ∀ p i, (Kernel.init.slot p i).object = none := fun p i ↦
    CapSlotView.object_of_not_valid (Kernel.slot_valid_of_word_eq_zero rfl)
  refine ⟨?_, nofun, fun o ho ↦ absurd ho (Set.notMem_empty o), ?_, nofun⟩
  · intro o _
    have hnamed : Kernel.init.named o = 0 :=
      named_eq_zero_iff.mpr fun p i hobj ↦ by cases (hobject p i).symm.trans hobj
    rw [hnamed]
    rfl
  · intro p i o _ hobj
    cases (hobject p i).symm.trans hobj

theorem Runs.ledger (h : Runs Clean .init s) : Ledger ∅ s 0 ∧ s.Vacant :=
  h.invariant (P := fun u ↦ Ledger ∅ u 0 ∧ u.Vacant) ⟨ledger_init, vacant_init⟩
    fun hu ha hclean ↦ ⟨hu.1.step hu.2 ha hclean, hu.2.step ha⟩

/-! ## What the counts say -/

/-- The number of valid slots of live processes that name the object. -/
def Kernel.slotCount (s : Kernel) (o : Object) : ℕ :=
  #{x : ProcIdx × SlotIdx | (s.procTable x.1).state ≠ .free ∧ (s.slot x.1 x.2).object = some o}

/-- The events that can take a process out of the table. -/
def Event.Reaps : Event → Prop
  | .exit _ | .wait _ | .discard _ => True
  | _ => False

theorem slotCount_eq_named (hv : s.Vacant) (o : Object) : s.slotCount o = s.named o := by
  refine congrArg card (filter_congr fun x _ ↦ ⟨fun h ↦ h.2, fun h ↦ ⟨?_, h⟩⟩)
  exact hv x.1 x.2 (CapSlotView.valid_of_object h)

theorem Ledger.refs_eq_slotCount (h : Ledger ∅ s 0) (hv : s.Vacant) (hidle : s.pins = [])
    (o : Object) : s.refs o = s.slotCount o := by
  have hcount := h.count o (Set.notMem_empty o)
  rwa [Kernel.pinned, hidle, ← slotCount_eq_named hv] at hcount

/-- An object that no slot names is not in use. -/
theorem Ledger.released (h : Ledger ∅ s 0) (hidle : s.pins = [])
    (hnone : ∀ q i, (s.slot q i).object ≠ some o) : (s.entry o).inUse = false := by
  have hcount := h.count o (Set.notMem_empty o)
  rw [Kernel.pinned, hidle, named_eq_zero_iff.mpr hnone] at hcount
  by_contra huse
  have hpos := (h.used o (by simpa using huse)).1
  rw [refs_of_inUse (by simpa using huse)] at hcount
  exact absurd hcount hpos.ne'

theorem step_shrinks {e : Event} (ha : e.Allowed s) (hreaps : e.Reaps) : Shrinks s (step s e) := by
  cases e with
  | exit p =>
    have hfirst : Shrinks s (repossess s p) := .of_eq rfl rfl
    rcases exit_prims (c := 0) (ne_free_of_running ha) with hsame | hprims
    · exact .of_eq (congrArg Kernel.capSpace hsame) (congrArg Kernel.pins hsame)
    · exact hfirst.trans hprims.shrinks
  | wait p => exact (waitChild_prims (c := 0) s p).shrinks
  | discard p => exact (procFree_prims (c := 0) s p).shrinks
  | _ => exact hreaps.elim

/-- **Counts are slots in use**, along runs whose steps are all clean and while no system call is
running. When a process leaves the table, what only it named is released, and what others name has
the count of their slots. -/
theorem refcount_balance (hrun : Runs Clean .init s) (hidle : s.pins = []) :
    (∀ o, s.refs o = s.slotCount o) ∧
    ∀ e p, e.Allowed s → Clean s e → e.Reaps → (s.procTable p).state ≠ .free →
      ((step s e).procTable p).state = .free →
      (∀ o, (∀ q i, (s.slot q i).object = some o → q = p) → ((step s e).entry o).inUse = false) ∧
      ∀ o, (step s e).refs o = (step s e).slotCount o := by
  obtain ⟨hledger, hvacant⟩ := hrun.ledger
  refine ⟨hledger.refs_eq_slotCount hvacant hidle, ?_⟩
  intro e p ha hclean hreaps _ hfree
  have hshrink := step_shrinks ha hreaps
  have hledger' := hledger.step hvacant ha hclean
  have hvacant' := hvacant.step ha
  have hidle' : (step s e).pins = [] := by
    refine eq_nil_iff_forall_not_mem.mpr fun pin hpin ↦ ?_
    cases hidle ▸ hshrink.pins pin hpin
  refine ⟨?_, hledger'.refs_eq_slotCount hvacant' hidle'⟩
  intro o honly
  refine hledger'.released hidle' fun q i hobj ↦ ?_
  -- a slot that still names the object would belong to the process that is gone
  obtain rfl := honly q i (hshrink.slots q i o hobj)
  exact hvacant' q i (CapSlotView.valid_of_object hobj) hfree

/-- Process 2 makes a mutex and exits, which frees the mutex and leaves its handle behind. Process 1
gets the same mutex, and loses it when it waits for process 2. -/
theorem not_refcount_balance : ¬∀ s, Reachable s → s.pins = [] → ∀ o, s.refs o = s.slotCount o := by
  intro hall
  obtain ⟨s, hs, hfacts⟩ := exists_reachable_of_runEvents
    (p := fun s ↦ s.pins.isEmpty && !(s.entry (.mutex, 0)).inUse
      && decide ((s.procTable 0).state ≠ .free ∧ (s.slot 0 3).object = some (.mutex, 0)))
    [.spawn none, .start 0, .spawn (some 0), .start 1, .openObject 1 .mutex, .exit 1,
      .openObject 0 .mutex, .wait 0]
    (by decide +kernel)
  simp only [Bool.and_eq_true, List.isEmpty_iff, Bool.not_eq_true', decide_eq_true_eq] at hfacts
  obtain ⟨⟨hidle, hdead⟩, hlive, hnamed⟩ := hfacts
  have hcount := hall s hs hidle (.mutex, 0)
  rw [refs_of_not_inUse hdead] at hcount
  have hpos : 0 < s.slotCount (.mutex, 0) :=
    card_pos.mpr ⟨(0, 3), mem_filter.mpr ⟨mem_univ _, hlive, hnamed⟩⟩
  exact absurd hcount hpos.ne

/-- A process that nobody reaps exits with an open mutex, which is released. -/
theorem refcount_balance_orphan : ∃ s, Runs Clean .init s ∧ s.pins = [] ∧
    (s.entry (.mutex, 0)).inUse = true ∧
    ((step s (.exit 0)).entry (.mutex, 0)).inUse = false := by
  have hrun : Runs Clean .init (step _ _) :=
    .tail (.tail (.tail .refl (.spawn none) trivial trivial) (.start 0) (by decide +kernel) trivial)
      (.openObject 0 .mutex) (by decide +kernel) trivial
  have hfacts : (fun s : Kernel ↦ s.pins = [] ∧ (s.entry (.mutex, 0)).inUse = true ∧
      (Event.exit 0).Allowed s ∧ liveParent s 0 = none ∧ (s.procTable 0).state ≠ .free ∧
      ((step s (.exit 0)).procTable 0).state = .free ∧
      ∀ q, (s.procTable q).state ≠ .free → q = 0)
      (step (step (step .init (.spawn none)) (.start 0)) (.openObject 0 .mutex)) := by
    decide +kernel
  generalize step (step (step .init (.spawn none)) (.start 0)) (.openObject 0 .mutex) = s
    at hrun hfacts
  obtain ⟨hidle, huse, ha, horphan, hlive, hfree, hone⟩ := hfacts
  have hclean : Clean s (.exit 0) := by
    refine ⟨fun pin hpin ↦ ?_, .inl horphan⟩
    rw [hidle] at hpin
    cases hpin
  refine ⟨s, hrun, hidle, huse, ?_⟩
  refine ((refcount_balance hrun hidle).2 (.exit 0) 0 ha hclean trivial hlive hfree).1 _ ?_
  exact fun q i hobj ↦ hone q (hrun.ledger.2 q i (CapSlotView.valid_of_object hobj))

end Mazu.Cap
