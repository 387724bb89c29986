import Mazu.Cap.Step
import Mathlib.Algebra.Order.Group.Multiset
import Mathlib.Logic.Relation

/-!
# What capability operations can do

Every operation is a sequence of a few primitive moves: a free slot is published, a valid one is
invalidated, an object is allocated, gets a reference or gives one back, and so on. A move carries the
references that the running operation itself holds, as a multiset of objects: invalidating a slot
hands its reference to the operation, publishing a slot takes one from it. All that is proved later
about slots and reference counts is proved once for each move.
-/

namespace Mazu.Cap

open Function BitVec

/-! ## Reading after a write -/

namespace Kernel

variable (s : Kernel) (p : ProcIdx) (i : SlotIdx)

/-- The word of a slot. -/
def word : U64 := (s.capSpace p).slots i

def mints : ℕ := (s.capSpace p).mints i

def drops : ℕ := (s.capSpace p).drops i

theorem slot_eq_unpack : s.slot p i = capUnpackSlot (s.word p i) (BitVec.ofNat 8 i) := rfl

theorem slot_congr {s t : Kernel} {p : ProcIdx} {i : SlotIdx} (h : t.word p i = s.word p i) :
    t.slot p i = s.slot p i := by
  rw [slot_eq_unpack, slot_eq_unpack, h]

end Kernel

section

variable (s : Kernel) (p q : ProcIdx) (i j : SlotIdx) (objectIndex : U16) (type : CapType)
  (rights : U8) (typeMeta : U16) (generation : U32)

/-- A field of the spaces after a write to one slot. -/
theorem field_setSpace {β : Type} (f : CapSpace → SlotIdx → β) {sp : CapSpace} {x : β}
    (h : f sp = update (f (s.capSpace p)) i x) :
    f ((s.setSpace p sp).capSpace q) j = if q = p ∧ j = i then x else f (s.capSpace q) j := by
  by_cases hq : q = p
  · by_cases hj : j = i <;> simp [Kernel.setSpace, h, hq, hj]
  · simp [Kernel.setSpace, hq]

/-- A field that the write leaves alone. -/
theorem field_setSpace_same {β : Type} (f : CapSpace → SlotIdx → β) {sp : CapSpace}
    (h : f sp = f (s.capSpace p)) : f ((s.setSpace p sp).capSpace q) j = f (s.capSpace q) j := by
  by_cases hq : q = p <;> simp [Kernel.setSpace, h, hq]

theorem word_publish : (capSlotPublish s p i objectIndex type rights typeMeta generation).word q j =
    if q = p ∧ j = i then capPackSlot true objectIndex type.code rights typeMeta generation
    else s.word q j :=
  field_setSpace s p q i j CapSpace.slots rfl

theorem mints_publish :
    (capSlotPublish s p i objectIndex type rights typeMeta generation).mints q j =
      if q = p ∧ j = i then s.mints p i + 1 else s.mints q j :=
  field_setSpace s p q i j CapSpace.mints rfl

theorem drops_publish :
    (capSlotPublish s p i objectIndex type rights typeMeta generation).drops q j = s.drops q j :=
  field_setSpace_same s p q j CapSpace.drops rfl

theorem epoch_publish :
    (capSlotPublish s p i objectIndex type rights typeMeta generation).epoch q j =
      if q = p ∧ j = i then 0 else s.epoch q j :=
  field_setSpace s p q i j CapSpace.delegateEpoch rfl

theorem word_invalidate : (capSlotInvalidate s p i).word q j =
    if q = p ∧ j = i then capPackSlot false 0 0 0 0 (capNextGeneration (s.slot p i).generation)
    else s.word q j :=
  field_setSpace s p q i j CapSpace.slots rfl

theorem mints_invalidate : (capSlotInvalidate s p i).mints q j = s.mints q j :=
  field_setSpace_same s p q j CapSpace.mints rfl

theorem drops_invalidate : (capSlotInvalidate s p i).drops q j =
    if q = p ∧ j = i then s.drops p i + 1 else s.drops q j :=
  field_setSpace s p q i j CapSpace.drops rfl

theorem epoch_invalidate : (capSlotInvalidate s p i).epoch q j =
    if q = p ∧ j = i then 0 else s.epoch q j :=
  field_setSpace s p q i j CapSpace.delegateEpoch rfl

theorem word_setDelegateEpoch (e : U64) : (capSlotSetDelegateEpoch s p i e).word q j = s.word q j :=
  field_setSpace_same s p q j CapSpace.slots rfl

theorem mints_setDelegateEpoch (e : U64) :
    (capSlotSetDelegateEpoch s p i e).mints q j = s.mints q j :=
  field_setSpace_same s p q j CapSpace.mints rfl

theorem drops_setDelegateEpoch (e : U64) :
    (capSlotSetDelegateEpoch s p i e).drops q j = s.drops q j :=
  field_setSpace_same s p q j CapSpace.drops rfl

/-- The slot that was published. -/
theorem slot_publish_self :
    (capSlotPublish s p i objectIndex type rights typeMeta generation).slot p i =
      ⟨true, BitVec.ofNat 8 i, objectIndex &&& 0xFFF, type.code, rights &&& 0xF, typeMeta &&& 0x7FF,
        generation⟩ := by
  have htype : type.code &&& 0xF = type.code := by cases type <;> rfl
  rw [Kernel.slot_eq_unpack, word_publish, if_pos ⟨rfl, rfl⟩, unpack_pack, htype]

/-- The slot that was invalidated. -/
theorem slot_invalidate_self : (capSlotInvalidate s p i).slot p i =
    ⟨false, BitVec.ofNat 8 i, 0, 0, 0, 0, (s.slot p i).generation + 1⟩ := by
  rw [Kernel.slot_eq_unpack, word_invalidate, if_pos ⟨rfl, rfl⟩, unpack_pack]
  rfl

/-- The epoch is kept apart from the word. -/
theorem slot_setDelegateEpoch (e : U64) : (capSlotSetDelegateEpoch s p i e).slot q j = s.slot q j :=
  Kernel.slot_congr (word_setDelegateEpoch s p q i j e)

end

/-! ## References -/

/-- The object a valid slot holds a reference on. Threads and delegations have none. -/
def CapSlotView.object (v : CapSlotView) : Option Object :=
  if v.valid then (Pool.ofCode v.type).map (·, v.objectIndex.toNat) else none

/-- The reference of a slot, as what an operation gets when it invalidates the slot. -/
def CapSlotView.refs (v : CapSlotView) : Multiset Object := v.object.toList

/-- The reference of a valid slot of this type and object index. -/
def objectRefs (type : U8) (objectIndex : U16) : Multiset Object :=
  ((Pool.ofCode type).map (·, objectIndex.toNat)).toList

/-- The pools whose objects belong to the process that made them. -/
def Pool.Personal (pool : Pool) : Prop := pool = .timer ∨ pool.isSync = true

instance (pool : Pool) : Decidable pool.Personal := inferInstanceAs (Decidable (_ ∨ _))

variable {v : CapSlotView}

theorem CapSlotView.object_of_not_valid (h : v.valid = false) : v.object = none := by
  rw [object, h]
  rfl

theorem CapSlotView.refs_of_none (h : v.object = none) : v.refs = 0 := by
  rw [refs, h]
  rfl

theorem Pool.ofCode_code (pool : Pool) : Pool.ofCode pool.type.code = some pool := by
  cases pool <;> decide

/-! ## Primitive moves -/

/-- **One primitive move**, from a state and the references of the running operation to the next.
Moves that make something new are available where `g` is set. -/
inductive Prim (g : Bool) : Kernel → Multiset Object → Kernel → Multiset Object → Prop
  | publish {s : Kernel} {c : Multiset Object} (hg : g = true) (p : ProcIdx) (i : SlotIdx)
      (objectIndex : U16) (type : CapType) (rights : U8) (typeMeta : U16) (v : CapSlotView)
      (hv : v = ⟨true, BitVec.ofNat 8 i, objectIndex &&& 0xFFF, type.code, rights &&& 0xF,
        typeMeta &&& 0x7FF, (s.slot p i).generation⟩)
      (hp : (s.procTable p).state ≠ .free) (hfree : (s.slot p i).valid = false)
      (howner : ∀ o, v.object = some o → o.1.Personal → (s.entry o).owner = some p ∧
        (s.entry o).ownerGeneration = (s.procTable p).generation) :
      Prim g s (v.refs + c)
        (capSlotPublish s p i objectIndex type rights typeMeta (s.slot p i).generation) c
  | invalidate {s : Kernel} {c : Multiset Object} (p : ProcIdx) (i : SlotIdx)
      (hvalid : (s.slot p i).valid = true) :
      Prim g s c (capSlotInvalidate s p i) ((s.slot p i).refs + c)
  | epoch {s : Kernel} {c : Multiset Object} (p : ProcIdx) (i : SlotIdx) (e : U64) :
      Prim g s c (capSlotSetDelegateEpoch s p i e) c
  | alloc {s : Kernel} {c : Multiset Object} (hg : g = true) (o : Object) (ho : o.2 < o.1.size)
      (hfree : (s.entry o).inUse = false) (owner : Option ProcIdx) (ownerGeneration : U32) :
      Prim g s c (s.setEntry o ⟨true, 1, owner, ownerGeneration⟩) (o ::ₘ c)
  | inc {s : Kernel} {c : Multiset Object} (o : Object) (huse : (s.entry o).inUse = true) :
      Prim g s c (s.setEntry o { s.entry o with refcount := (s.entry o).refcount + 1 })
        (o ::ₘ c)
  | put {s : Kernel} {c : Multiset Object} (o : Object) : Prim g s (o ::ₘ c) (poolPut s o) c
  /-- A change of the records of delegations. A new one is about a descriptor. -/
  | records {s : Kernel} {c : Multiset Object} (d : ℕ → DelegateRecord) (n : U64)
      (hd : ∀ k, (d k).inUse = true → (d k).dstType = CapType.fd.code ∨
        ((s.delegatePool k).inUse = true ∧ (d k).dstType = (s.delegatePool k).dstType)) :
      Prim g s c { s with delegatePool := d, nextGrantEpoch := n } c
  | pin {s : Kernel} {c : Multiset Object} (hg : g = true) (ref : Pin) (i : SlotIdx)
      (hnamed : (s.slot ref.holder i).object = some ref.object)
      (hgen : ref.generation = (s.procTable ref.holder).generation) :
      Prim g s (ref.object ::ₘ c) { s with pins := ref :: s.pins } c
  | unpin {s : Kernel} {c : Multiset Object} (ref : Pin) (hmem : ref ∈ s.pins) :
      Prim g s c { s with pins := s.pins.erase ref } (ref.object ::ₘ c)
  /-- A change of the process table that frees nothing and allocates nothing. -/
  | table {s : Kernel} {c : Multiset Object} (t : ProcIdx → Proc) (n : U16)
      (hstate : ∀ p, (t p).state = .free ↔ (s.procTable p).state = .free)
      (hgen : ∀ p, (t p).generation = (s.procTable p).generation) :
      Prim g s c { s with procTable := t, nextPid := n } c
  | retire {s : Kernel} {c : Multiset Object} (p : ProcIdx)
      (hempty : ∀ i, (s.slot p i).valid = false) :
      Prim g s c (s.setProc p { (s.procTable p) with
        generation := (s.procTable p).generation + 1, state := .free }) c

/-- A sequence of moves. -/
def Prims (g : Bool) (s : Kernel) (c : Multiset Object) (t : Kernel) (d : Multiset Object) : Prop :=
  Relation.ReflTransGen
    (fun x y : Kernel × Multiset Object ↦ Prim g x.1 x.2 y.1 y.2) (s, c) (t, d)

section

variable {g : Bool} {s t u : Kernel} {c d e : Multiset Object}

theorem Prims.refl : Prims g s c s c := Relation.ReflTransGen.refl

theorem Prims.trans (h : Prims g s c t d) (h' : Prims g t d u e) : Prims g s c u e :=
  Relation.ReflTransGen.trans h h'

theorem Prim.prims (h : Prim g s c t d) : Prims g s c t d := Relation.ReflTransGen.single h

/-- **The invariant rule for moves.** -/
theorem Prims.invariant {P : Kernel → Multiset Object → Prop} (h : Prims g s c t d) (hs : P s c)
    (hprim : ∀ {s c t d}, P s c → Prim g s c t d → P t d) : P t d := by
  have key : ∀ x, Relation.ReflTransGen
      (fun x y : Kernel × Multiset Object ↦ Prim g x.1 x.2 y.1 y.2) (s, c) x → P x.1 x.2 := by
    intro x hx
    induction hx with
    | refl => exact hs
    | tail _ hxy ih => exact hprim ih hxy
  exact key (t, d) h

/-- A loop whose body is a sequence of moves is one. -/
theorem Prims.foldl {α : Type*} {f : Kernel → α → Kernel} (l : List α)
    (h : ∀ s, ∀ a ∈ l, Prims g s c (f s a) c) : Prims g s c (l.foldl f s) c := by
  induction l generalizing s with
  | nil => exact .refl
  | cons a l ih =>
    exact (h s a List.mem_cons_self).trans (ih fun s b hb ↦ h s b (List.mem_cons_of_mem a hb))

/-- Moves that leave the process table alone. -/
structure Inner (g : Bool) (s : Kernel) (c : Multiset Object) (t : Kernel) (d : Multiset Object) :
    Prop where
  prims : Prims g s c t d
  procTable : t.procTable = s.procTable

theorem Inner.refl (s : Kernel) : Inner g s c s c := ⟨.refl, rfl⟩

theorem Inner.trans (h : Inner g s c t d) (h' : Inner g t d u e) : Inner g s c u e :=
  ⟨h.prims.trans h'.prims, h'.procTable.trans h.procTable⟩

theorem Inner.foldl {α : Type*} {f : Kernel → α → Kernel} (l : List α)
    (h : ∀ s a, Inner g s c (f s a) c) (s : Kernel) : Inner g s c (l.foldl f s) c := by
  induction l generalizing s with
  | nil => exact .refl s
  | cons a l ih => exact (h s a).trans (ih (f s a))

end

/-! ## Objects of slots -/

theorem CapSlotView.object_of_valid (h : v.valid = true) :
    v.object = (Pool.ofCode v.type).map (·, v.objectIndex.toNat) := by
  rw [object, if_pos h]

theorem CapSlotView.refs_of_valid (h : v.valid = true) :
    v.refs = objectRefs v.type v.objectIndex := by
  rw [refs, object_of_valid h, objectRefs]

theorem CapSlotView.refs_of_object {o : Object} (h : v.object = some o) : v.refs = {o} := by
  rw [refs, h]
  rfl

/-- The object index of a slot word fits its field. -/
theorem slot_objectIndex_and (s : Kernel) (p : ProcIdx) (i : SlotIdx) :
    (s.slot p i).objectIndex &&& 0xFFF = (s.slot p i).objectIndex := by
  refine eq_of_getLsbD_eq fun j hj ↦ ?_
  have hmask : ((s.slot p i).objectIndex &&& 0xFFF).getLsbD j =
      (decide (j < 12) && (s.slot p i).objectIndex.getLsbD j) :=
    BitField.getLsbD_and_mask (s.slot p i).objectIndex 12 j
  rw [hmask, Kernel.slot_eq_unpack, getLsbD_unpack_objectIndex]
  grind

theorem Pool.size_le (pool : Pool) : pool.size ≤ 4096 := by
  cases pool <;> decide

/-- The index of a pool object fits the field of a slot. -/
theorem ofNat_and_of_lt {n : ℕ} (h : n < 4096) :
    BitVec.ofNat 16 n &&& 0xFFF = BitVec.ofNat 16 n := by
  have hmask : (0xFFF : U16).toNat = 2 ^ 12 - 1 := rfl
  apply eq_of_toNat_eq
  rw [toNat_and, hmask, Nat.and_two_pow_sub_one_eq_mod, toNat_ofNat]
  omega

theorem toNat_ofNat_of_lt {n : ℕ} (h : n < 4096) : (BitVec.ofNat 16 n).toNat = n := by
  rw [toNat_ofNat]
  omega

/-- The view of a slot published for an object of a pool names that object. -/
theorem published_object (pool : Pool) (i : U8) (objectIndex : U16) (rights : U8) (typeMeta : U16)
    (generation : U32) :
    (⟨true, i, objectIndex &&& 0xFFF, pool.type.code, rights, typeMeta, generation⟩ :
      CapSlotView).object = some (pool, (objectIndex &&& 0xFFF).toNat) := by
  rw [CapSlotView.object_of_valid rfl, Pool.ofCode_code]
  rfl

/-! ## Giving references back -/

/-- The two states differ in their pools at most. -/
def OnlyPools (s t : Kernel) : Prop := t = { s with pools := t.pools }

theorem OnlyPools.trans {s t u : Kernel} (h : OnlyPools s t) (h' : OnlyPools t u) :
    OnlyPools s u := by
  unfold OnlyPools at h h' ⊢
  rw [h', h]

theorem OnlyPools.capSpace {s t : Kernel} (h : OnlyPools s t) : t.capSpace = s.capSpace := by
  rw [h]

theorem OnlyPools.procTable {s t : Kernel} (h : OnlyPools s t) : t.procTable = s.procTable := by
  rw [h]

theorem poolPut_onlyPools (s : Kernel) (o : Object) : OnlyPools s (poolPut s o) := by
  obtain ⟨pool, i⟩ := o
  cases pool <;>
    (simp only [poolPut, capFdPut, posixTimerPutIdx, syncPutIdx, mqueuePutIdx]
     split_ifs <;> rfl)

theorem releaseObject_onlyPools (s : Kernel) (type : U8) (objectIndex : U16) (n : ℕ) :
    OnlyPools s (capReleaseObject s type objectIndex n) := by
  rw [capReleaseObject]
  cases Pool.ofCode type with
  | none => rfl
  | some pool =>
    induction n generalizing s with
    | zero => rfl
    | succ n ih =>
      exact (poolPut_onlyPools s _).trans (ih _)

section

variable {g : Bool} {s t : Kernel} {c d : Multiset Object} {p : ProcIdx} {i : SlotIdx}

theorem iterate_put_prims (o : Object) (n : ℕ) :
    Prims g s (Multiset.replicate n o + c) ((fun s ↦ poolPut s o)^[n] s) c := by
  induction n generalizing s with
  | zero =>
    rw [Multiset.replicate_zero, zero_add]
    exact .refl
  | succ n ih =>
    rw [Multiset.replicate_succ, Multiset.cons_add]
    exact (Prim.put o).prims.trans ih

/-- The references that some slots of one object gave to the operation are released. -/
theorem releaseObject_prims (type : U8) (objectIndex : U16) (n : ℕ) :
    Prims g s (n • objectRefs type objectIndex + c) (capReleaseObject s type objectIndex n) c := by
  rw [objectRefs, capReleaseObject]
  cases Pool.ofCode type with
  | none =>
    have hzero : n • ((Option.map (·, objectIndex.toNat) (none : Option Pool)).toList :
        Multiset Object) = 0 := nsmul_zero n
    rw [hzero, zero_add]
    exact .refl
  | some pool =>
    have hn : n • ((Option.map (·, objectIndex.toNat) (some pool)).toList) =
        Multiset.replicate n (pool, objectIndex.toNat) := Multiset.nsmul_singleton _ n
    rw [hn]
    exact iterate_put_prims _ n

theorem records_prims {n : ℕ} {r : DelegateRecord} (next : U64)
    (hr : r.inUse = true → r.dstType = CapType.fd.code ∨
      ((s.delegatePool n).inUse = true ∧ r.dstType = (s.delegatePool n).dstType)) :
    Prims g s c { s.setRecord n r with nextGrantEpoch := next } c := by
  refine (Prim.records (update s.delegatePool n r) next fun k hk ↦ ?_).prims
  rw [update_apply] at hk ⊢
  split_ifs at hk ⊢ with hkn
  · exact hkn ▸ hr hk
  · exact .inr ⟨hk, rfl⟩

theorem delegateRecordPut_prims (n : ℕ) : Prims g s c (delegateRecordPut s n) c := by
  simp only [delegateRecordPut]
  split_ifs with huse
  · exact records_prims s.nextGrantEpoch nofun
  · exact records_prims s.nextGrantEpoch fun _ ↦ .inr ⟨huse.2, rfl⟩
  · exact .refl

/-- **Dropping a slot** gives back the reference of the slot. -/
theorem dropSlot_prims (s : Kernel) (p : ProcIdx) (i : SlotIdx) :
    Prims g s c (capDropSlotLocked s p i).2 c := by
  rw [capDropSlotLocked]
  split_ifs with hno hd
  · exact .refl
  all_goals
    have hv : (s.slot p i).valid = true := by simpa using hno
    refine (Prim.invalidate p i hv).prims.trans ?_
  · have hnone : (s.slot p i).refs = 0 := by
      rw [CapSlotView.refs, CapSlotView.object_of_valid hv, hd]
      rfl
    rw [hnone, zero_add]
    exact delegateRecordPut_prims _
  · have hrel := releaseObject_prims (g := g) (s := capSlotInvalidate s p i) (c := c)
      (s.slot p i).type (s.slot p i).objectIndex 1
    rwa [one_nsmul, ← CapSlotView.refs_of_valid hv] at hrel

/-- What a drop does to the spaces is to invalidate the slot. -/
theorem dropSlot_capSpace (hv : (s.slot p i).valid = true) :
    (capDropSlotLocked s p i).2.capSpace = (capSlotInvalidate s p i).capSpace := by
  rw [capDropSlotLocked, if_neg (by rw [hv]; decide)]
  split_ifs
  · simp only [delegateRecordPut]
    split_ifs <;> rfl
  · exact (releaseObject_onlyPools _ _ _ _).capSpace

theorem dropSlot_procTable (s : Kernel) (p : ProcIdx) (i : SlotIdx) :
    (capDropSlotLocked s p i).2.procTable = s.procTable := by
  rw [capDropSlotLocked]
  split_ifs
  · rfl
  · simp only [delegateRecordPut]
    split_ifs <;> rfl
  · exact (releaseObject_onlyPools _ _ _ _).procTable

theorem dropSlot_ok (hv : (s.slot p i).valid = true) : (capDropSlotLocked s p i).1 = .ok () := by
  rw [capDropSlotLocked, if_neg (by rw [hv]; decide)]
  split_ifs <;> rfl

/-! ## Minting -/

variable {allow : Bool}

theorem findFree_not_valid (h : capFindFreeSlotLocked s p allow = some i) :
    (s.slot p i).valid = false ∧ (allow = true ∨ capSlotIsThreadReserved i = false) := by
  have hi := List.find?_some h
  simp only [Bool.and_eq_true, Bool.or_eq_true, Bool.not_eq_true'] at hi
  exact ⟨hi.2, hi.1⟩

/-- A reserved slot is free, or the caller asked for exactly this one. -/
theorem reserveSlot_ok {hint : ℤ} {exact : Bool}
    (h : capReserveSlotLocked s p hint exact allow = .ok i) :
    ((s.slot p i).valid = false ∨ (exact = true ∧ slotOf hint = some i))
      ∧ (allow = true ∨ capSlotIsThreadReserved i = false) := by
  have hfree := @findFree_not_valid s p i allow
  simp only [capReserveSlotLocked] at h
  generalize capFindFreeSlotLocked s p allow = o at h hfree
  by_cases hneg : hint < 0
  · rw [if_pos hneg] at h
    cases o with
    | none => cases h
    | some k =>
      cases h
      exact ⟨.inl (hfree rfl).1, (hfree rfl).2⟩
  · rw [if_neg hneg] at h
    cases hs : slotOf hint with
    | none => rw [hs] at h; cases h
    | some k =>
      rw [hs] at h
      simp only at h
      split_ifs at h with hres hok
      · cases h
        simp only [Bool.or_eq_true, Bool.not_eq_true'] at hok
        refine ⟨hok.imp_right fun hx ↦ ⟨hx, rfl⟩, ?_⟩
        cases allow with
        | true => exact .inl rfl
        | false => exact .inr (by simpa using hres)
      · cases o with
        | none => cases h
        | some k =>
          cases h
          exact ⟨.inl (hfree rfl).1, (hfree rfl).2⟩

/-- The slots other than slot `i` of process `p`, and their epochs, are the same. -/
def SameElsewhere (p : ProcIdx) (i : SlotIdx) (s t : Kernel) : Prop :=
  ∀ q j, ¬(q = p ∧ j = i) →
    t.word q j = s.word q j ∧ t.epoch q j = s.epoch q j ∧ t.mints q j = s.mints q j

theorem SameElsewhere.refl (s : Kernel) : SameElsewhere p i s s := fun _ _ _ ↦ ⟨rfl, rfl, rfl⟩

theorem SameElsewhere.trans {u : Kernel} (h : SameElsewhere p i s t) (h' : SameElsewhere p i t u) :
    SameElsewhere p i s u := by
  intro q j hne
  obtain ⟨hword, hepoch, hmints⟩ := h q j hne
  obtain ⟨hword', hepoch', hmints'⟩ := h' q j hne
  exact ⟨hword'.trans hword, hepoch'.trans hepoch, hmints'.trans hmints⟩

theorem SameElsewhere.of_capSpace (h : t.capSpace = s.capSpace) : SameElsewhere p i s t := by
  intro q j _
  rw [Kernel.word, Kernel.epoch, Kernel.mints, h]
  exact ⟨rfl, rfl, rfl⟩

theorem SameElsewhere.slot {q : ProcIdx} {j : SlotIdx} (h : SameElsewhere p i s t)
    (hne : ¬(q = p ∧ j = i)) : t.slot q j = s.slot q j :=
  Kernel.slot_congr (h q j hne).1

theorem publish_sameElsewhere (objectIndex : U16) (type : CapType) (rights : U8) (typeMeta : U16)
    (generation : U32) :
    SameElsewhere p i s (capSlotPublish s p i objectIndex type rights typeMeta generation) := by
  intro q j hne
  exact ⟨(word_publish ..).trans (if_neg hne), (epoch_publish ..).trans (if_neg hne),
    (mints_publish ..).trans (if_neg hne)⟩

theorem invalidate_sameElsewhere : SameElsewhere p i s (capSlotInvalidate s p i) := by
  intro q j hne
  exact ⟨(word_invalidate ..).trans (if_neg hne), (epoch_invalidate ..).trans (if_neg hne),
    mints_invalidate ..⟩

theorem dropSlot_sameElsewhere : SameElsewhere p i s (capDropSlotLocked s p i).2 := by
  by_cases hv : (s.slot p i).valid
  · exact invalidate_sameElsewhere.trans (.of_capSpace (dropSlot_capSpace hv))
  · rw [capDropSlotLocked, if_pos (by simpa using hv)]
    exact .refl s

theorem dropSlot_not_valid : ((capDropSlotLocked s p i).2.slot p i).valid = false := by
  by_cases hv : (s.slot p i).valid
  · rw [Kernel.slot, dropSlot_capSpace hv, ← Kernel.slot, slot_invalidate_self]
  · rw [capDropSlotLocked, if_pos (by simpa using hv)]
    simpa using hv

/-- The state in which a slot is about to be published: slot `i` of `p` is free, nothing else in the
spaces has changed, and the operation holds the references `d`. -/
structure Vacated (p : ProcIdx) (i : SlotIdx) (s : Kernel) (c : Multiset Object) (t : Kernel)
    (d : Multiset Object) : Prop where
  prims : Prims true s c t d
  free : (t.slot p i).valid = false
  procTable : t.procTable = s.procTable
  elsewhere : SameElsewhere p i s t

/-- A reserved slot, with what it held dropped. -/
theorem vacated_of_reserve {hint : ℤ} {exact : Bool}
    (h : capReserveSlotLocked s p hint exact allow = .ok i) :
    Vacated p i s c (if exact && (s.slot p i).valid then (capDropSlotLocked s p i).2 else s) c := by
  by_cases hv : (s.slot p i).valid
  · have hx : exact = true := by
      rcases (reserveSlot_ok h).1 with hf | hx
      · rw [hv] at hf
        cases hf
      · exact hx.1
    rw [hx, hv]
    exact ⟨dropSlot_prims s p i, dropSlot_not_valid, dropSlot_procTable s p i,
      dropSlot_sameElsewhere⟩
  · rw [if_neg (by simp [hv])]
    exact ⟨.refl, by simpa using hv, rfl, .refl s⟩

/-- The publication of a free slot for an object uses up a reference of the operation. -/
theorem publish_prims {pool : Pool} {objectIndex : U16}
    (hobj : objectIndex &&& 0xFFF = objectIndex) (hp : (s.procTable p).state ≠ .free)
    (hfree : (s.slot p i).valid = false) (rights : U8) (typeMeta : U16)
    (howner : pool.Personal → (s.entry (pool, objectIndex.toNat)).owner = some p ∧
      (s.entry (pool, objectIndex.toNat)).ownerGeneration = (s.procTable p).generation) :
    Prims true s ((pool, objectIndex.toNat) ::ₘ c)
      (capSlotPublish s p i objectIndex pool.type rights typeMeta (s.slot p i).generation) c := by
  have hnamed := published_object pool (BitVec.ofNat 8 i) objectIndex (rights &&& 0xF)
    (typeMeta &&& 0x7FF) (s.slot p i).generation
  have hpub := Prim.publish (c := c) rfl p i objectIndex pool.type rights typeMeta _
    rfl hp hfree fun o ho hpers ↦ by
      rw [hnamed, hobj] at ho
      cases ho
      exact howner hpers
  rw [CapSlotView.refs_of_object hnamed, hobj] at hpub
  exact hpub.prims

/-- A thread or a delegation takes no reference. -/
theorem publish_bare_prims {type : CapType} (hbare : Pool.ofCode type.code = none)
    (hp : (s.procTable p).state ≠ .free) (hfree : (s.slot p i).valid = false) (objectIndex : U16)
    (rights : U8) (typeMeta : U16) :
    Prims true s c
      (capSlotPublish s p i objectIndex type rights typeMeta (s.slot p i).generation) c := by
  have hobj : (⟨true, BitVec.ofNat 8 i, objectIndex &&& 0xFFF, type.code, rights &&& 0xF,
      typeMeta &&& 0x7FF, (s.slot p i).generation⟩ : CapSlotView).object = none := by
    rw [CapSlotView.object_of_valid rfl, hbare]
    rfl
  have hpub := Prim.publish (c := c) rfl p i objectIndex type rights typeMeta _ rfl
    hp hfree fun o ho ↦ by cases hobj.symm.trans ho
  rw [CapSlotView.refs_of_none hobj, zero_add] at hpub
  exact hpub.prims

theorem Vacated.publish {objectIndex : U16} (pool : Pool)
    (h : Vacated p i s c t ((pool, objectIndex.toNat) ::ₘ d))
    (hobj : objectIndex &&& 0xFFF = objectIndex) (hp : (s.procTable p).state ≠ .free) (rights : U8)
    (typeMeta : U16)
    (howner : pool.Personal → (t.entry (pool, objectIndex.toNat)).owner = some p ∧
      (t.entry (pool, objectIndex.toNat)).ownerGeneration = (s.procTable p).generation) :
    Prims true s c
      (capSlotPublish t p i objectIndex pool.type rights typeMeta (t.slot p i).generation) d := by
  refine h.prims.trans (publish_prims hobj ?_ h.free rights typeMeta ?_) <;> rwa [h.procTable]

theorem not_personal_fd : ¬Pool.fd.Personal := by decide

/-- The pool entry gets a reference, which goes to the operation. -/
theorem poolInc_prims {o : Object} (h : poolInc s o = some t) :
    Prims g s c t (o ::ₘ c) ∧ t = s.setEntry o { s.entry o with refcount := (s.entry o).refcount + 1 }
      := by
  simp only [poolInc] at h
  split_ifs at h with huse
  cases h
  exact ⟨(Prim.inc o huse.2).prims, rfl⟩

section

variable {objectIndex : U16} {rights : U8} {typeMeta : U16} {hint : ℤ} {exact bump : Bool}

/-- The drop that makes room for a slot succeeds. -/
theorem dropOccupied_eq (s : Kernel) (p : ProcIdx) (i : SlotIdx) (exact : Bool) :
    (if exact && (s.slot p i).valid then capDropSlotLocked s p i else (.ok (), s)) =
      (.ok (), if exact && (s.slot p i).valid then (capDropSlotLocked s p i).2 else s) := by
  split_ifs with h
  · exact Prod.ext (dropSlot_ok (Bool.and_eq_true _ _ ▸ h).2) rfl
  · rfl

/-- The first thing a mint does: take a reference if it was told to. -/
theorem bump_prims (h : (if bump then poolInc s (.fd, objectIndex.toNat) else some s) = some t) :
    Prims g s (if bump then c else (.fd, objectIndex.toNat) ::ₘ c) t
        ((.fd, objectIndex.toNat) ::ₘ c) ∧ t.capSpace = s.capSpace ∧ t.procTable = s.procTable := by
  cases bump with
  | false =>
    cases h
    exact ⟨.refl, rfl, rfl⟩
  | true =>
    obtain ⟨hp, rfl⟩ := poolInc_prims h
    exact ⟨hp, rfl, rfl⟩

/-- **How a mint ends.** When it succeeds it publishes a vacated slot; the reference is the one it
took itself when it was told to, and one of the caller otherwise. When it fails it leaves the spaces
and the references as they were. -/
theorem mintFd_cases {res : Except Errno SlotIdx}
    (h : capMintFdLocked s p objectIndex rights typeMeta hint exact bump = (res, t))
    (c : Multiset Object) :
    (∃ i u, res = .ok i ∧
      t = capSlotPublish u p i objectIndex .fd rights typeMeta (u.slot p i).generation ∧
      Vacated p i s (if bump then c else (.fd, objectIndex.toNat) ::ₘ c) u
        ((.fd, objectIndex.toNat) ::ₘ c) ∧ capSlotIsThreadReserved i = false) ∨
    (∃ e, res = .error e) ∧ Prims true s (if bump then c else (.fd, objectIndex.toNat) ::ₘ c) t
        (if bump then c else (.fd, objectIndex.toNat) ::ₘ c) ∧
      t.capSpace = s.capSpace ∧ t.procTable = s.procTable := by
  rw [capMintFdLocked] at h
  cases hinc : (if bump then poolInc s (.fd, objectIndex.toNat) else some s) with
  | none =>
    rw [hinc] at h
    cases h
    exact .inr ⟨⟨_, rfl⟩, .refl, rfl, rfl⟩
  | some s₁ =>
    rw [hinc] at h
    obtain ⟨hprims, hspace, htable⟩ := bump_prims (g := true) (c := c) hinc
    cases hres : capReserveSlotLocked s₁ p hint exact false with
    | error e =>
      simp only [hres] at h
      obtain ⟨rfl, rfl⟩ := Prod.mk.inj h
      refine .inr ⟨⟨_, rfl⟩, ?_⟩
      cases bump with
      | false => exact ⟨hprims, hspace, htable⟩
      | true =>
        have hput := poolPut_onlyPools s₁ (.fd, objectIndex.toNat)
        exact ⟨hprims.trans (Prim.put _).prims, hput.capSpace.trans hspace,
          hput.procTable.trans htable⟩
    | ok k =>
      simp only [hres, dropOccupied_eq] at h
      obtain ⟨rfl, rfl⟩ := Prod.mk.inj h
      have hv := vacated_of_reserve (c := (.fd, objectIndex.toNat) ::ₘ c) hres
      refine .inl ⟨k, _, rfl, rfl,
        ⟨hprims.trans hv.prims, hv.free, hv.procTable.trans htable, ?_⟩, ?_⟩
      · exact (SameElsewhere.of_capSpace hspace).trans hv.elsewhere
      · exact (reserveSlot_ok hres).2.resolve_left (by decide)

theorem mintFd_ok (h : capMintFdLocked s p objectIndex rights typeMeta hint exact bump = (.ok i, t))
    (c : Multiset Object) :
    ∃ u, t = capSlotPublish u p i objectIndex .fd rights typeMeta (u.slot p i).generation ∧
      Vacated p i s (if bump then c else (.fd, objectIndex.toNat) ::ₘ c) u
        ((.fd, objectIndex.toNat) ::ₘ c) ∧ capSlotIsThreadReserved i = false := by
  rcases mintFd_cases h c with ⟨_, u, ⟨⟩, hu⟩ | ⟨⟨_, ⟨⟩⟩, -⟩
  exact ⟨u, hu⟩

/-- A mint that takes its own reference, whatever comes of it. -/
theorem mintFd_prims {res : Except Errno SlotIdx}
    (hm : capMintFdLocked s p objectIndex rights typeMeta hint exact true = (res, t))
    (hp : (s.procTable p).state ≠ .free) (hobj : objectIndex &&& 0xFFF = objectIndex) :
    Prims true s c t c := by
  rcases mintFd_cases hm c with ⟨i, u, -, rfl, hv, -⟩ | ⟨-, herr, -⟩
  · exact hv.publish .fd hobj hp rights typeMeta fun h ↦ absurd h not_personal_fd
  · exact herr

end

end

end Mazu.Cap
