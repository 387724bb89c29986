import Mathlib.Data.Finset.Card
import Mazu.Sync.FutexWake

/-!
# The pool of entries

An entry of the pool is to be given back when nothing needs it: nobody owns the futex, nobody waits
for it, and it is not marked as left behind by a dead owner. Only `futex_unlock_pi` gives entries
back, so whoever ends the last of these three reasons elsewhere leaves an entry behind for good.

A section disturbs the records of some waiters and the owner of at most one entry. What it leaves
alone stays in order (`Keeps`), and the conditions say for each call that the entry it does touch is
still needed afterwards.
-/

namespace Mazu.Sync.Futex

open List Runs

set_option linter.unusedSectionVars false

open Sync.Pi Function

variable {T M : Type}

/-! ## Entries that are needed -/

section Entries

variable (s : Sys T M)

/-- The thread is not dying. -/
def Lives (u : T) : Prop := (s.thread u).state ≠ .terminating

instance (u : T) : Decidable (Lives s u) := inferInstanceAs (Decidable (_ ≠ _))

/-- The entry has a live owner, or is marked. -/
def Held (i : Slot) : Prop :=
  (entry s i).owner.any (fun u ↦ decide (Lives s u)) = true ∨ (entry s i).ownerDied = true

instance (i : Slot) : Decidable (Held s i) := inferInstanceAs (Decidable (_ ∨ _))

/-- The thread waits for the entry's futex, on the queue of its bucket. -/
def Awaits (i : Slot) (v : T) : Prop :=
  v ∈ s.obj.world.waiters (futexHash (entry s i).key) ∧ (waiter s v).key = (entry s i).key ∧
    (waiter s v).piWait = true

instance [DecidableEq T] (i : Slot) (v : T) : Decidable (Awaits s i v) :=
  inferInstanceAs (Decidable (_ ∧ _ ∧ _))

/-- The entry is needed, whatever becomes of the waiters in `G`. -/
def Backed (G : T → Prop) (i : Slot) : Prop := Held s i ∨ ∃ v, ¬G v ∧ Awaits s i v

/-- The entries in use are those on the lists, and each is for another address. -/
structure Filed : Prop where
  listed : ∀ b i, i ∈ s.obj.world.piStates b → (entry s i).inUse = true
  nodup : ∀ b, (s.obj.world.piStates b).Nodup
  filed : ∀ i, (entry s i).inUse = true → i ∈ s.obj.world.piStates (futexHash (entry s i).key)
  unique : ∀ i j, (entry s i).inUse = true → (entry s j).inUse = true →
    (entry s i).key = (entry s j).key → i = j

/-- All entries in use but those in `D` are needed. -/
structure Sound (G : T → Prop) (D : Slot → Prop) : Prop extends Filed s where
  backed : ∀ i, ¬D i → (entry s i).inUse = true → Backed s G i

end Entries

/-- The waiters outside of `G` and the owners outside of `D` are left alone. -/
structure Keeps (G : T → Prop) (D : Slot → Prop) (s s' : Sys T M) : Prop where
  lists : s'.obj.world.piStates = s.obj.world.piStates
  slot : ∀ i, (entry s' i).inUse = (entry s i).inUse ∧ (entry s' i).key = (entry s i).key
  other : ∀ i, ¬D i →
    (entry s' i).owner = (entry s i).owner ∧ (entry s' i).ownerDied = (entry s i).ownerDied
  record : ∀ v, ¬G v → waiter s' v = waiter s v ∧
    ∀ b, v ∈ s.obj.world.waiters b → v ∈ s'.obj.world.waiters b
  lives : ∀ u, Lives s u → Lives s' u

variable {G G' : T → Prop} {D D' : Slot → Prop} {s s' s'' : Sys T M} {t u v : T} {i : Slot}
  {a a₁ a₂ : Addr}

theorem Keeps.refl (G : T → Prop) (D : Slot → Prop) (s : Sys T M) : Keeps G D s s :=
  ⟨rfl, fun _ ↦ ⟨rfl, rfl⟩, fun _ _ ↦ ⟨rfl, rfl⟩, fun _ _ ↦ ⟨rfl, fun _ ↦ id⟩, fun _ ↦ id⟩

theorem Keeps.trans (h : Keeps G D s s') (h' : Keeps G D s' s'') : Keeps G D s s'' := by
  refine ⟨h'.lists.trans h.lists, fun i ↦ ?_, fun i hi ↦ ?_, fun v hv ↦ ⟨?_, fun b hb ↦ ?_⟩,
    fun u hu ↦ h'.lives u (h.lives u hu)⟩
  · exact ⟨(h'.slot i).1.trans (h.slot i).1, (h'.slot i).2.trans (h.slot i).2⟩
  · exact ⟨(h'.other i hi).1.trans (h.other i hi).1, (h'.other i hi).2.trans (h.other i hi).2⟩
  · exact (h'.record v hv).1.trans (h.record v hv).1
  · exact (h'.record v hv).2 b ((h.record v hv).2 b hb)

theorem Keeps.mono (h : Keeps G D s s') (hG : ∀ v, G v → G' v) (hD : ∀ i, D i → D' i) :
    Keeps G' D' s s' :=
  ⟨h.lists, h.slot, fun i hi ↦ h.other i fun hd ↦ hi (hD i hd),
    fun v hv ↦ h.record v fun hg ↦ hv (hG v hg), h.lives⟩

/-- Priorities and dependencies do not count. -/
theorem Keeps.of_books (hb : books s'.obj.world = books s.obj.world)
    (hl : ∀ u, Lives s u → Lives s' u) : Keeps G D s s' := by
  have hslot := congrFun (congrArg Books.piState hb)
  refine ⟨congrArg Books.piStates hb, fun i ↦ ⟨?_, ?_⟩, fun i _ ↦ ⟨?_, ?_⟩, fun v _ ↦ ⟨?_, ?_⟩, hl⟩
  · exact (congrArg PiState.inUse (hslot i) :)
  · exact (congrArg PiState.key (hslot i) :)
  · exact (congrArg PiState.owner (hslot i) :)
  · exact (congrArg PiState.ownerDied (hslot i) :)
  · exact congrFun (congrArg Books.futexWaiter hb) v
  · have hw : s'.obj.world.waiters = s.obj.world.waiters := congrArg Books.waiters hb
    rw [hw]
    exact fun _ ↦ id

theorem Held.keeps (h : Held s i) (hk : Keeps G D s s') (hi : ¬D i) : Held s' i := by
  rw [Held, (hk.other i hi).1, (hk.other i hi).2]
  refine h.imp_left fun ho ↦ ?_
  obtain ⟨u, hu, hl⟩ := (Option.any_eq_true _ _).mp ho
  rw [decide_eq_true_iff] at hl
  rw [hu, Option.any_some, decide_eq_true_iff]
  exact hk.lives u hl

theorem Awaits.keeps (h : Awaits s i v) (hk : Keeps G D s s') (hv : ¬G v) : Awaits s' i v := by
  rw [Awaits, (hk.slot i).2, (hk.record v hv).1]
  exact ⟨(hk.record v hv).2 _ h.1, h.2⟩

theorem Backed.keeps (h : Backed s G i) (hk : Keeps G D s s') (hi : ¬D i) : Backed s' G i := by
  rcases h with h | ⟨v, hv, hq⟩
  · exact .inl (h.keeps hk hi)
  · exact .inr ⟨v, hv, hq.keeps hk hv⟩

/-- **What is left alone stays in order.** -/
theorem Sound.keeps (h : Sound s G D) (hk : Keeps G D s s') : Sound s' G D := by
  refine ⟨⟨?_, ?_, ?_, ?_⟩, fun i hi hu ↦ ?_⟩
  · intro b i
    rw [hk.lists, (hk.slot i).1]
    exact h.listed b i
  · rw [hk.lists]
    exact h.nodup
  · intro i
    rw [hk.lists, (hk.slot i).1, (hk.slot i).2]
    exact h.filed i
  · intro i j
    rw [(hk.slot i).1, (hk.slot j).1, (hk.slot i).2, (hk.slot j).2]
    exact h.unique i j
  · rw [(hk.slot i).1] at hu
    exact (h.backed i hi hu).keeps hk hi

/-- Nothing is touched any more. -/
def Nothing (_ : Slot) : Prop := False

def Nobody (_ : T) : Prop := False

abbrev InOrder (s : Sys T M) : Prop := Sound s Nobody Nothing

theorem Sound.weaken (h : Sound s G D) (hG : ∀ v, G' v → G v) (hD : ∀ i, D i → D' i) :
    Sound s G' D' := by
  refine ⟨h.toFiled, fun i hi hu ↦ ?_⟩
  exact (h.backed i (fun hd ↦ hi (hD i hd)) hu).imp_right
    fun ⟨v, hv, hq⟩ ↦ ⟨v, fun hg ↦ hv (hG v hg), hq⟩

/-- The waiters in `G` can go, if the entries that they wait for are held. -/
theorem Sound.without (h : InOrder s)
    (hG : ∀ i v, (entry s i).inUse = true → G v → Awaits s i v → Held s i) : Sound s G Nothing := by
  refine ⟨h.toFiled, fun i _ hu ↦ ?_⟩
  rcases h.backed i id hu with hb | ⟨v, -, hq⟩
  · exact .inl hb
  · by_cases hv : G v
    · exact .inl (hG i v hu hv hq)
    · exact .inr ⟨v, hv, hq⟩

theorem Sound.close (h : Sound s G (· = i)) (hi : Backed s Nobody i) : InOrder s := by
  refine ⟨h.toFiled, fun j _ hj ↦ ?_⟩
  by_cases hij : j = i
  · rwa [hij]
  · exact (h.backed j hij hj).imp_right fun ⟨v, _, hq⟩ ↦ ⟨v, id, hq⟩

theorem Sound.inOrder (h : Sound s G Nothing) : InOrder s := h.weaken (fun _ ↦ False.elim) fun _ ↦ id

/-! ## The pieces of a section

Each goes on where the step before it ended. -/

variable (h : Keeps G D s s')

include h

theorem Keeps.books (hb : Futex.books s''.obj.world = Futex.books s'.obj.world)
    (hl : s''.thread = s'.thread) : Keeps G D s s'' :=
  h.trans (.of_books hb fun u hu ↦ by rwa [Lives, hl])

variable [DecidableEq T]

theorem Keeps.thread (t : T) {f : Thread → Thread}
    (hf : (s'.thread t).state ≠ .terminating → (f (s'.thread t)).state ≠ .terminating) :
    Keeps G D s (s'.modify t f) := by
  refine h.trans (.of_books rfl fun u hu ↦ ?_)
  rw [Lives, thread_modify]
  split_ifs with hut
  · exact hf (hut ▸ hu)
  · exact hu

theorem Keeps.wake (t : T) : Keeps G D s (s'.modify t Thread.wakeReady) :=
  h.thread t fun _ ↦ nofun

theorem Keeps.ret (t : T) (r : ℤ) : Keeps G D s (return' s' t r) := by
  have hm := h.thread t (f := fun d ↦ { d with inside := false }) id
  exact ⟨hm.lists, hm.slot, hm.other, hm.record, hm.lives⟩

theorem Keeps.fin (t : T) (r : ℤ) : Keeps G D s (finish s' t r) := by
  refine Keeps.ret (h.thread t fun hl ↦ ?_) t r
  rw [Thread.unblock]
  split_ifs
  · exact nofun
  · exact hl

theorem Keeps.unlink (t : T) (ht : G t) : Keeps G D s (listDel s' t) := by
  refine h.trans ⟨rfl, fun _ ↦ ⟨rfl, rfl⟩, fun _ _ ↦ ⟨rfl, rfl⟩, fun v hv ↦ ⟨rfl, fun b hb ↦ ?_⟩,
    fun _ ↦ id⟩
  show v ∈ update s'.obj.world.waiters _ _ b
  rw [update_apply]
  split_ifs with hbb
  · exact (mem_erase_of_ne fun hvt : v = t ↦ hv (hvt ▸ ht)).mpr (hbb ▸ hb)
  · exact hb

theorem Keeps.append (t : T) : Keeps G D s (listAddTail s' t) := by
  refine h.trans ⟨rfl, fun _ ↦ ⟨rfl, rfl⟩, fun _ _ ↦ ⟨rfl, rfl⟩, fun v hv ↦ ⟨rfl, fun b hb ↦ ?_⟩,
    fun _ ↦ id⟩
  show v ∈ update s'.obj.world.waiters _ _ b
  rw [update_apply]
  split_ifs with hbb
  · exact mem_append_left _ (hbb ▸ hb)
  · exact hb

theorem Keeps.note (t : T) (ht : G t) (f : FutexWaiter → FutexWaiter) :
    Keeps G D s (setWaiter s' t f) := by
  refine h.trans ⟨rfl, fun _ ↦ ⟨rfl, rfl⟩, fun _ _ ↦ ⟨rfl, rfl⟩, fun v hv ↦ ⟨?_, fun _ ↦ id⟩,
    fun _ ↦ id⟩
  exact update_of_ne (fun hvt : v = t ↦ hv (hvt ▸ ht)) ..

theorem Keeps.move (t : T) (ht : G t) (w : FutexWaiter) : Keeps G D s (moveTo s' t w) :=
  (h.note t ht _).append t

theorem Keeps.off (t : T) (ht : G t) (o : Option T) : Keeps G D s (takeOff s' t o).1 :=
  (h.unlink t ht).books (books_leavePi _ t o) (thread_leavePi ..)

theorem Keeps.recompute (i : Slot) : Keeps G D s (recomputeOwner s' i) :=
  h.books (books_recomputeFutexOwner ..) rfl

theorem Keeps.clear (t : T) : Keeps G D s (clearDependency s' t) :=
  h.books rfl rfl

theorem Keeps.put (hi : D i) {f : PiState T → PiState T}
    (hf : ∀ x, (f x).inUse = x.inUse ∧ (f x).key = x.key) :
    Keeps G D s (onWorld s' (·.setPiState i f)) := by
  have hentry : ∀ j, entry (onWorld s' (·.setPiState i f)) j =
      if j = i then f (entry s' i) else entry s' j := fun j ↦ update_apply ..
  refine h.trans ⟨rfl, fun j ↦ ?_, fun j hj ↦ ?_, fun _ _ ↦ ⟨rfl, fun _ ↦ id⟩, fun _ ↦ id⟩
  · rw [hentry]
    split_ifs with hji
    · rw [hji]
      exact hf _
    · exact ⟨rfl, rfl⟩
  · have hji : j ≠ i := fun hji ↦ hj (hji ▸ hi)
    rw [hentry, if_neg hji]
    exact ⟨rfl, rfl⟩

theorem Keeps.mark (hi : D i) (b : Bool) : Keeps G D s (setDied s' i b) :=
  h.put hi fun _ ↦ ⟨rfl, rfl⟩

omit h in
theorem entry_setDied (s : Sys T M) (i : Slot) (b : Bool) :
    entry (setDied s i b) i = { entry s i with ownerDied := b } :=
  update_self ..

theorem Keeps.held (i : Slot) (o : Option T) :
    Keeps G D s (dropHeld s' i o) ∧ Keeps G D s (addHeld s' i o) := by
  cases o with
  | none => exact ⟨h, h⟩
  | some u => exact ⟨h.books rfl rfl, h.books rfl rfl⟩

theorem Keeps.link (hi : D i) (o : Option T) : Keeps G D s (linkOwner s' i o) := by
  have hput := (h.held i (entry s' i).owner).1.put hi (f := fun x ↦ { x with owner := o })
    fun _ ↦ ⟨rfl, rfl⟩
  exact (hput.held i o).2

omit h in
theorem owner_linkOwner (s : Sys T M) (i : Slot) (o : Option T) :
    (entry (linkOwner s i o) i).owner = o := by
  obtain ⟨r, hr⟩ : ∃ r, r = onWorld (dropHeld s i (entry s i).owner)
    (·.setPiState i fun x ↦ { x with owner := o }) := ⟨_, rfl⟩
  have hown : (entry r i).owner = o := by
    have hself : entry r i = { entry (dropHeld s i (entry s i).owner) i with owner := o } :=
      hr ▸ update_self ..
    rw [hself]
  have h := ((Keeps.refl Nobody Nothing r).held i o).2.other i id
  rw [linkOwner, ← hr, h.1, hown]

theorem Keeps.chain [DecidableEq M] (o : Option T) : Keeps G D s (refreshOwnerChain s' o) :=
  h.books (books_refreshOwnerChain ..) rfl

theorem Keeps.task (o : Option T) : Keeps G D s (refreshTask s' o) := by
  cases o with
  | none => exact h
  | some u => exact h.books rfl rfl

omit h

/-! ## Walks -/

/-- A walk over the waiters of an address: what is disturbed after the first of them waited there
before. -/
theorem Keeps.cons (h : Keeps (· = u) D s s') (hu : Waits s u a)
    (h' : Keeps (fun v ↦ (waiter s' v).key = a) D s' s'') :
    Keeps (fun v ↦ (waiter s v).key = a) D s s'' := by
  have hsub : ∀ v, (waiter s' v).key = a → (waiter s v).key = a := by
    intro v hv
    by_cases hvu : v = u
    · exact hvu ▸ hu.1
    · rw [← (h.record v hvu).1]
      exact hv
  exact (h.mono (fun v hv ↦ hv ▸ hu.1) fun _ ↦ id).trans (h'.mono hsub fun _ ↦ id)

theorem keeps_wakeWalk (a : Addr) (n : ℕ) (s : Sys T M) (l : Log T) (us : List T) :
    Keeps (fun v ↦ (waiter s v).key = a) D s (wakeWalk a n s l us).1 := by
  induction us generalizing s l with
  | nil => exact .refl ..
  | cons u us ih =>
    rw [wakeWalk]
    split_ifs with hfull hu
    · exact .refl ..
    · exact Keeps.cons (((Keeps.refl (· = u) D s).off u rfl _).wake u) hu (ih _ _)
    · exact ih s l

theorem keeps_requeueWalk (nw nr : ℕ) (s : Sys T M) (l : Log T) (us : List T) :
    Keeps (fun v ↦ (waiter s v).key = a₁) D s (requeueWalk a₁ a₂ nw nr s l us).1 := by
  fun_induction requeueWalk a₁ a₂ nw nr s l us with
  | case1 s l | case5 s l u us hu hlt hreq => exact .refl ..
  | case2 s l u us hu ih => exact ih
  | case3 s l u us hu hlt ih =>
    have hoff := (Keeps.refl (· = u) D s).off u rfl l.owner
    exact Keeps.cons ((hoff.note u rfl leftPi).wake u) (not_not.mp hu) ih
  | case4 s l u us hu hlt hreq ih =>
    have hoff := (Keeps.refl (· = u) D s).off u rfl l.owner
    exact Keeps.cons (hoff.move u rfl _) (not_not.mp hu) ih

theorem leaveSource_frame (s : Sys T M) (t : T) (o : Option T) :
    books (leaveSource s t o).1.obj.world = books s.obj.world ∧
      (leaveSource s t o).1.thread = s.thread := by
  rw [leaveSource]
  split_ifs
  · exact ⟨rfl, rfl⟩
  · exact ⟨books_leavePi s t o, thread_leavePi s t o⟩

theorem joinEntry_spec (s : Sys T M) (i : Slot) (u : T) (a₂ : Addr) :
    (waiter (joinEntry s i u a₂) u).key = a₂ ∧ (waiter (joinEntry s i u a₂) u).piWait = true ∧
      u ∈ (joinEntry s i u a₂).obj.world.waiters (futexHash a₂) := by
  have h : ∀ (r : Sys T M) w, (waiter (moveTo r u w) u).key = w.key ∧
      (waiter (moveTo r u w) u).piWait = w.piWait ∧
      u ∈ (moveTo r u w).obj.world.waiters (futexHash w.key) := by
    intro r w
    obtain ⟨hself, hl, -⟩ := moveTo_spec r u w
    rw [Linked, bucket, hself] at hl
    rw [hself]
    exact ⟨rfl, rfl, hl⟩
  exact h _ _

theorem Keeps.join (h : Keeps G D s s') (i : Slot) (u : T) (hu : G u) (a₂ : Addr) :
    Keeps G D s (joinEntry s' i u a₂) := by
  have hdep : Keeps G D s
      (if (entry s' i).owner.isSome then onWorld s' (·.setFutexDependency u i) else s') := by
    split_ifs
    · exact h.books rfl rfl
    · exact h
  exact hdep.move u hu _

theorem Keeps.leave (h : Keeps G D s s') (u : T) (hu : G u) (o : Option T) :
    Keeps G D s (leaveSource (listDel s' u) u o).1 :=
  (h.unlink u hu).books (leaveSource_frame ..).1 (leaveSource_frame ..).2

theorem keeps_requeuePiWalk (a₁ a₂ : Addr) (dst : Slot) (nw nr : ℕ) (s : Sys T M) (l : Log T)
    (us : List T) :
    Keeps (fun v ↦ (waiter s v).key = a₁) D s (requeuePiWalk a₁ a₂ dst nw nr s l us).1 := by
  induction us generalizing s l with
  | nil => exact .refl ..
  | cons u us ih =>
    have hoff := (Keeps.refl (· = u) D s).leave u rfl l.owner
    rw [requeuePiWalk]
    split_ifs with hu hlt hreq
    · exact Keeps.cons (hoff.wake u) hu (ih _ _)
    · exact Keeps.cons (hoff.join dst u rfl a₂) hu (ih _ _)
    · exact .refl ..
    · exact ih s l

/-- Those that a wake-up leaves waiting. -/
theorem waits_leaveSource (o : Option T) :
    Waits ((leaveSource (listDel s u) u o).1.modify u Thread.wakeReady) v a ↔
      v ≠ u ∧ Waits s v a := by
  obtain ⟨hb, ht⟩ := leaveSource_frame (listDel s u) u o
  have hw : waiter ((leaveSource (listDel s u) u o).1.modify u Thread.wakeReady) v = waiter s v :=
    congrFun (congrArg Books.futexWaiter hb) v
  rw [Waits, thread_modify, ht, hw]
  split_ifs with hv
  · refine ⟨fun h ↦ ?_, fun h ↦ absurd hv h.1⟩
    cases h.2
  · exact ⟨fun h ↦ ⟨hv, h⟩, And.right⟩

/-- **Somebody is requeued**, if more threads wait than are to be woken. -/
theorem requeuePiWalk_joins (hne : a₁ ≠ a₂) (dst : Slot) (nw nr : ℕ) (s : Sys T M) (l : Log T)
    (us : List T) (hr : l.requeued.length < nr) (hle : l.woken.length ≤ nw)
    (hn : nw < l.woken.length + (matching s a₁ us).toFinset.card) :
    ∃ v, (waiter (requeuePiWalk a₁ a₂ dst nw nr s l us).1 v).key = a₂ ∧
      (waiter (requeuePiWalk a₁ a₂ dst nw nr s l us).1 v).piWait = true ∧
      v ∈ (requeuePiWalk a₁ a₂ dst nw nr s l us).1.obj.world.waiters (futexHash a₂) := by
  induction us generalizing s l with
  | nil =>
    rw [matching, filter_nil, toFinset_nil, Finset.card_empty] at hn
    omega
  | cons u us ih =>
    by_cases hu : Waits s u a₁
    · rw [requeuePiWalk]
      dsimp only
      split_ifs with hlt
      · refine ih _ _ hr ?_ ?_
        · rw [length_append]
          exact hlt
        · have hsub : (matching s a₁ (u :: us)).toFinset ⊆
              insert u (matching ((leaveSource (listDel s u) u l.owner).1.modify u
                Thread.wakeReady) a₁ us).toFinset := by
            intro v hv
            rw [mem_toFinset, matching, mem_filter, decide_eq_true_iff] at hv
            rw [Finset.mem_insert, mem_toFinset, matching, mem_filter, decide_eq_true_iff,
              waits_leaveSource]
            by_cases hvu : v = u
            · exact .inl hvu
            · exact .inr ⟨(mem_cons.mp hv.1).resolve_left hvu, hvu, hv.2⟩
          have hcard := (Finset.card_le_card hsub).trans (Finset.card_insert_le _ _)
          rw [length_append, length_singleton]
          omega
      · obtain ⟨r, hr'⟩ : ∃ r, r = joinEntry (leaveSource (listDel s u) u l.owner).1 dst u a₂ :=
          ⟨_, rfl⟩
        rw [← hr']
        obtain ⟨hkey, hwait, hmem⟩ := hr' ▸ joinEntry_spec _ dst u a₂
        have hkeep := (keeps_requeuePiWalk (D := Nothing) a₁ a₂ dst nw nr r
          { l with requeued := l.requeued ++ [u],
                   owner := (leaveSource (listDel s u) u l.owner).2 } us).record u (by
            rw [hkey]
            exact hne.symm)
        refine ⟨u, ?_, ?_, hkeep.2 _ hmem⟩
        · rw [hkeep.1, hkey]
        · rw [hkeep.1, hwait]
    · rw [matching_cons_neg hu] at hn
      rw [requeuePiWalk, if_pos hu]
      exact ih s l hr hle hn

/-! ## Calls -/

variable [DecidableEq M]

theorem keeps_futexWake (s : Sys T M) (a : Addr) (n : ℕ) :
    Keeps (fun v ↦ (waiter s v).key = a) D s (futexWake s a n).1 :=
  (keeps_wakeWalk a n s _ _).chain _

theorem keeps_futexCmpRequeue (s : Sys T M) (a₁ : Addr) (x : ℕ) (a₂ : Addr) (nw nr : ℕ) :
    Keeps (fun v ↦ (waiter s v).key = a₁) D s (futexCmpRequeue s a₁ x a₂ nw nr).1 := by
  rw [futexCmpRequeue]
  split
  · exact .refl ..
  · split_ifs
    · exact .refl ..
    · exact (keeps_requeueWalk nw nr s _ _).chain _

theorem keeps_futexWaitCleanup (s : Sys T M) (t : T) : Keeps (· = t) D s (futexWaitCleanup s t) := by
  have h := Keeps.refl (· = t) D s
  have hclear : ∀ r : Sys T M, Keeps (· = t) D s r →
      Keeps (· = t) D s (if (waiter s t).piWait then clearDependency r t else r) := by
    intro r hr
    split_ifs
    · exact hr.clear t
    · exact hr
  rw [futexWaitCleanup]
  by_cases hl : Linked s t
  · rw [if_pos hl]
    exact (hclear _ (h.off t rfl none)).chain _
  · rw [if_neg hl]
    exact (hclear _ h).chain _

theorem keeps_futexWait (s : Sys T M) (t : T) (a : Addr) (x : ℕ) :
    Keeps (· = t) D s (futexWait s t a x) := by
  have h := Keeps.refl (· = t) D s
  rw [futexWait]
  split
  · exact h.ret t _
  · split_ifs
    · exact h.ret t _
    · have hblock := (h.move t rfl ⟨a, none, false, false⟩).thread t (f := (·.block .blocked))
        fun _ hst ↦ by cases hst
      exact ⟨hblock.lists, hblock.slot, hblock.other, hblock.record, hblock.lives⟩

theorem keeps_futexWaitResume (s : Sys T M) (t : T) : Keeps (· = t) D s (futexWaitResume s t) :=
  ((Keeps.refl (· = t) D s).unlink t rfl).fin t _

theorem keeps_lockAbort (s : Sys T M) (t : T) : Keeps (· = t) D s (lockAbort s t) := by
  have hrec : ∀ o : Option Slot,
      Keeps (· = t) D s (o.elim (listDel s t) (recomputeOwner (listDel s t))) := by
    have h := (Keeps.refl (· = t) D s).unlink t rfl
    intro o
    cases o with
    | none => exact h
    | some i => exact h.recompute i
  exact (((hrec _).clear t).fin t _).chain _

theorem keeps_lockOwn (s : Sys T M) (t : T) (i : Slot) : Keeps (· = t) D s (lockOwn s t i) := by
  have h := Keeps.refl (· = t) D s
  rw [lockOwn]
  split_ifs
  · exact (h.clear t).fin t _
  · exact (((h.unlink t rfl).recompute i).clear t).fin t _
  · exact (h.clear t).fin t _

theorem Keeps.sleep (h : Keeps (· = t) D s s') (i : Slot) :
    Keeps (· = t) D s (lockWait s' t i) := by
  have hdep : Keeps (· = t) D s (onWorld s' (·.setFutexDependency t i)) := h.books rfl rfl
  have hlink : Keeps (· = t) D s
      (if Linked (onWorld s' (·.setFutexDependency t i)) t then
        onWorld s' (·.setFutexDependency t i)
      else listAddTail (setWaiter (onWorld s' (·.setFutexDependency t i)) t fun w ↦
        { w with wasQueued := true }) t) := by
    split_ifs
    · exact hdep
    · exact (hdep.note t rfl _).append t
  exact ((hlink.recompute i).thread t (f := (·.block .blocked)) fun _ ↦ nofun).chain _

theorem held_of_owner (hu : Lives s u) (h : (entry s i).owner = some u) : Held s i := by
  left
  rw [h, Option.any_some, decide_eq_true_iff]
  exact hu

/-- **The caller takes the futex.** -/
theorem lockTake_keeps (x : ℕ) (hw : Mem.spans a s.obj.mem.writable 4 = true) (ht : Lives s t) :
    Keeps (· = t) (· = i) s (lockTake s t a i x) ∧ Held (lockTake s t a i x) i := by
  have hm : s.obj.mem.copyToUser a (s.obj.tid t ||| (x &&& ownerDiedBit)) =
      some _ := if_pos hw
  obtain ⟨r, hr⟩ : ∃ r, r = linkOwner (setDied (clearDependency (listDel (setMem s
    (s.obj.mem.put a (s.obj.tid t ||| (x &&& ownerDiedBit)))) t) t) i
      (decide (x &&& ownerDiedBit ≠ 0))) i (some t) := ⟨_, rfl⟩
  have hset : Keeps (· = t) (· = i) s
      (setMem s (s.obj.mem.put a (s.obj.tid t ||| (x &&& ownerDiedBit)))) :=
    (Keeps.refl ..).books rfl rfl
  have hlink : Keeps (· = t) (· = i) s r :=
    hr ▸ (((hset.unlink t rfl).clear t).mark rfl _).link rfl _
  have hheld : Held r i := held_of_owner (hlink.lives t ht) (hr ▸ owner_linkOwner ..)
  rw [lockTake, hm]
  dsimp only
  rw [← hr]
  exact ⟨(hlink.recompute i).fin t _,
    hheld.keeps (((Keeps.refl Nobody Nothing r).recompute i).fin t _) id⟩

theorem findTask_lives {n : ℕ} (h : findTask s n = some u) : Lives s u := by
  rw [findTask] at h
  split_ifs at h
  have hp := find?_some h
  rw [decide_eq_true_iff] at hp
  exact hp.2

theorem mem_linkOwner (s : Sys T M) (i : Slot) (o : Option T) :
    (linkOwner s i o).obj.mem = s.obj.mem := by
  have hdrop : (dropHeld s i (entry s i).owner).obj.mem = s.obj.mem := by
    cases (entry s i).owner <;> rfl
  cases o <;> exact hdrop

/-- **The caller waits**, or marks the futex of an owner that cannot be found. Afterwards the entry
is held, unless its owner was left alone. -/
theorem lockContended_keeps (x : ℕ) (hw : Mem.spans a s.obj.mem.writable 4 = true) :
    Keeps (· = t) (· = i) s (lockContended s t a i x) ∧
      (Held (lockContended s t a i x) i ∨
        (entry s i).owner ≠ none ∧ Keeps (· = t) Nothing s (lockContended s t a i x)) := by
  by_cases hmatch : ((entry s i).owner.elim false fun u ↦ decide (s.obj.tid u = tidOf x)) = true
  · have howner : (entry s i).owner ≠ none := by
      intro hnone
      rw [hnone] at hmatch
      cases hmatch
    have heq : lockContended s t a i x = lockWait s t i := by
      rw [lockContended, if_pos hmatch]
      exact if_neg howner
    rw [heq]
    exact ⟨(Keeps.refl ..).sleep i, .inr ⟨howner, (Keeps.refl ..).sleep i⟩⟩
  · obtain ⟨r, hr⟩ : ∃ r, r = linkOwner s i (findTask s (tidOf x)) := ⟨_, rfl⟩
    have hlink : Keeps (· = t) (· = i) s r := hr ▸ (Keeps.refl (· = t) (· = i) s).link rfl _
    have howner : (entry r i).owner = findTask s (tidOf x) := hr ▸ owner_linkOwner ..
    rw [lockContended, if_neg hmatch, ← hr]
    cases hf : findTask s (tidOf x) with
    | none =>
      have hm : r.obj.mem.copyToUser a ownerDiedBit = some (r.obj.mem.put a ownerDiedBit) :=
        if_pos (by rw [hr, mem_linkOwner, hw])
      rw [if_pos (howner.trans hf), hm]
      have hset : Keeps (· = t) (· = i) s (setMem r (r.obj.mem.put a ownerDiedBit)) :=
        hlink.books rfl rfl
      refine ⟨(hset.mark rfl true).recompute i, .inl ?_⟩
      have hheld : Held (setDied (setMem r (r.obj.mem.put a ownerDiedBit)) i true) i :=
        .inr (by rw [entry_setDied])
      exact hheld.keeps ((Keeps.refl Nobody Nothing _).recompute i) id
    | some u =>
      rw [if_neg (by rw [howner, hf]; exact nofun)]
      refine ⟨hlink.sleep i, .inl ?_⟩
      have hheld : Held r i := held_of_owner (hlink.lives u (findTask_lives hf)) (howner.trans hf)
      exact hheld.keeps ((Keeps.refl (· = t) Nothing r).sleep i) id

/-! ## Finding and making an entry -/

theorem lookup_some (h : Filed s) (hi : s.obj.world.lookup a = some i) :
    (entry s i).inUse = true ∧ (entry s i).key = a := by
  have hp := find?_some hi
  rw [decide_eq_true_iff] at hp
  exact ⟨h.listed _ i (mem_of_find?_eq_some hi), hp⟩

theorem lookup_none (h : Filed s) (hn : s.obj.world.lookup a = none) (hu : (entry s i).inUse = true) :
    (entry s i).key ≠ a := by
  intro hk
  have hmem := hk ▸ h.filed i hu
  have hno := find?_eq_none.mp hn i hmem
  rw [decide_eq_true_iff] at hno
  exact hno hk

/-- What `futex_pi_state_get_locked` hands over: the entry of the address, which is new or was
needed. -/
structure Got (s : Sys T M) (a : Addr) (G : T → Prop) (i : Slot) (s' : Sys T M) : Prop where
  sound : Sound s' G (· = i)
  thread : s'.thread = s.thread
  mem : s'.obj.mem = s.obj.mem
  tid : s'.obj.tid = s.obj.tid
  waiters : s'.obj.world.waiters = s.obj.world.waiters
  waiter : waiter s' = waiter s
  key : (entry s' i).key = a
  old : s' = s ∨ s.obj.world.lookup a = none ∧ (entry s' i).owner = none

theorem got_piStateGet (h : Sound s G Nothing) (hg : piStateGet s a = some (i, s')) :
    Got s a G i s' := by
  rw [piStateGet] at hg
  split at hg
  · rename_i j hj
    obtain ⟨rfl, rfl⟩ := Prod.mk.inj (Option.some.inj hg)
    exact ⟨h.weaken (fun _ ↦ id) fun _ ↦ False.elim, rfl, rfl, rfl, rfl, rfl,
      (lookup_some h.toFiled hj).2, .inl rfl⟩
  rename_i hn
  obtain ⟨j, hj, hjs⟩ := Option.map_eq_some_iff.mp hg
  obtain ⟨rfl, hs'⟩ := Prod.mk.inj hjs
  have hfree : (entry s j).inUse ≠ true := by
    have hp := find?_some hj
    simpa using hp
  have hself : entry s' j = ⟨true, a, none, 0, false⟩ := hs' ▸ update_self ..
  have hne : ∀ k, k ≠ j → entry s' k = entry s k := fun k hk ↦ hs' ▸ update_of_ne hk ..
  have hlist : ∀ b, s'.obj.world.piStates b = if b = futexHash a then
      s.obj.world.piStates b ++ [j] else s.obj.world.piStates b := by
    intro b
    rw [← hs']
    refine (update_apply ..).trans ?_
    split_ifs with hb
    · rw [hb]
    · rfl
  have hmem : ∀ b k, k ∈ s.obj.world.piStates b → k ∈ s'.obj.world.piStates b := by
    intro b k hk
    rw [hlist]
    split_ifs
    · exact mem_append_left _ hk
    · exact hk
  refine ⟨⟨⟨fun b k hk ↦ ?_, fun b ↦ ?_, fun k hk ↦ ?_, fun k l hk hl hkl ↦ ?_⟩, fun k hkj hk ↦ ?_⟩,
    hs' ▸ rfl, hs' ▸ rfl, hs' ▸ rfl, hs' ▸ rfl, hs' ▸ rfl, by rw [hself], .inr ⟨hn, by rw [hself]⟩⟩
  · by_cases hkj : k = j
    · rw [hkj, hself]
    · rw [hlist] at hk
      rw [hne k hkj]
      split_ifs at hk
      · exact h.listed b k ((mem_append.mp hk).resolve_right (hkj <| mem_singleton.mp ·))
      · exact h.listed b k hk
  · rw [hlist]
    split_ifs
    · exact (h.nodup b).append (nodup_singleton j)
        (disjoint_singleton.mpr fun hk ↦ hfree (h.listed b j hk))
    · exact h.nodup b
  · by_cases hkj : k = j
    · rw [hkj, hself, hlist, if_pos rfl]
      exact mem_append_right _ mem_cons_self
    · rw [hne k hkj] at hk ⊢
      exact hmem _ k (h.filed k hk)
  · by_cases hkj : k = j
    · by_cases hlj : l = j
      · rw [hkj, hlj]
      · rw [hkj, hself, hne l hlj] at hkl
        rw [hne l hlj] at hl
        exact absurd hkl.symm (lookup_none h.toFiled hn hl)
    · rw [hne k hkj] at hk hkl
      by_cases hlj : l = j
      · rw [hlj, hself] at hkl
        exact absurd hkl (lookup_none h.toFiled hn hk)
      · rw [hne l hlj] at hl hkl
        exact h.unique k l hk hl hkl
  · rw [hne k hkj] at hk
    have hb := h.backed k id hk
    subst hs'
    rw [Backed, Held, hne k hkj]
    refine hb.imp_right fun ⟨v, hv, hq⟩ ↦ ⟨v, hv, ?_⟩
    rw [Awaits, hne k hkj]
    exact hq

/-! ## Conditions -/

/-- The thread is on no queue, or the futex that it waits for is held without it. -/
def MayLeave (s : Sys T M) (t : T) : Prop :=
  ∀ i, (entry s i).inUse = true → Awaits s i t → Held s i

/-- The waiters of the address may be taken off: its entry is held. -/
def MayWake (s : Sys T M) (a : Addr) : Prop :=
  ∀ i, (entry s i).inUse = true → (entry s i).key = a → Held s i

/-- The caller of `futex_lock_pi` is not dying, it can write the word, and if the word names the
caller there is an entry. -/
def MayLock (s : Sys T M) (t : T) (a : Addr) : Prop :=
  Lives s t ∧ Mem.spans a s.obj.mem.writable 4 = true ∧
    (tidOf (s.obj.mem.word a) = s.obj.tid t → (s.obj.world.lookup a).isSome = true)

instance (s : Sys T M) (t : T) : Decidable (MayLeave s t) :=
  inferInstanceAs (Decidable (∀ _, _ → _ → _))

instance (s : Sys T M) (a : Addr) : Decidable (MayWake s a) :=
  inferInstanceAs (Decidable (∀ _, _ → _ → _))

instance (s : Sys T M) (t : T) (a : Addr) : Decidable (MayLock s t a) :=
  inferInstanceAs (Decidable (_ ∧ _ ∧ (_ → _)))

/-- The address of the `futex_lock_pi` that the thread is in. -/
def Phase.locking : Phase → Option Addr
  | .lockPi a => some a
  | _ => none

/-- **Entries are tended to.** Nobody is killed who owns a futex; whoever leaves a queue, or is taken
off it, leaves a futex that is held; a lock goes on only as `MayLock` says; and a requeue that makes
an entry also finds somebody to put there. -/
def Tended (s : Sys T M) : Event T → Prop
  | .env (.kill t) => ∀ i, (entry s i).inUse = true → (entry s i).owner ≠ some t
  | .env (.nudge t .cleanup) => MayLeave s t
  | .env (.schedule t) => (s.thread t).state = .terminating → MayLeave s t
  | .wait t _ _ => MayLeave s t
  | .lockPi t a => MayLeave s t ∧ MayLock s t a
  | .resume t => MayLeave s t ∧ ∀ a ∈ (s.obj.phase t).locking, MayLock s t a
  | .wake _ a _ => MayWake s a
  | .requeue _ a _ _ _ _ => MayWake s a
  | .requeuePi _ a _ a₂ nw nr => MayWake s a ∧ (s.obj.world.lookup a₂ = none →
      nw < (matching s a (s.obj.world.waiters (futexHash a))).toFinset.card ∧ 0 < nr)
  | _ => True

instance (s : Sys T M) : DecidablePred (Tended s) := by
  rintro ((_ | _ | _ | _ | ⟨_, _ | _⟩ | _) | _) <;> delta Tended <;> dsimp only <;> infer_instance

/-! ## Sections -/

theorem MayLeave.sound (h : InOrder s) (ht : MayLeave s t) : Sound s (· = t) Nothing := by
  refine h.without ?_
  rintro i v hu rfl hq
  exact ht i hu hq

theorem MayWake.sound (h : InOrder s) (ha : MayWake s a) :
    Sound s (fun v ↦ (waiter s v).key = a) Nothing :=
  h.without fun i _ hu hv hq ↦ ha i hu (hq.2.1.symm.trans hv)

theorem lockPass_inOrder (h : Sound s (· = t) Nothing) (hK : MayLock s t a) :
    InOrder (lockPass s t a) := by
  have hrefl := Keeps.refl (· = t) Nothing s
  rw [lockPass]
  by_cases habort : (s.thread t).abort = true ∧ Linked s t
  · rw [if_pos habort]
    exact (h.keeps (keeps_lockAbort s t)).inOrder
  rw [if_neg habort]
  cases hm : s.obj.mem.copyFromUser a 4 with
  | none => exact (h.keeps (hrefl.ret t _)).inOrder
  | some x =>
    have hx : s.obj.mem.word a = x := by
      rw [Mem.copyFromUser] at hm
      split_ifs at hm
      exact Option.some.inj hm
    cases hg : piStateGet s a with
    | none => exact (h.keeps (hrefl.ret t _)).inOrder
    | some p =>
      obtain ⟨i, r⟩ := p
      dsimp only
      have hgot := got_piStateGet h hg
      have hsound := hgot.sound.keeps
        ((Keeps.refl (· = t) (· = i) r).note t rfl fun w ↦ { w with piState := some i })
      have hlive : Lives r t := by
        rw [Lives, hgot.thread]
        exact hK.1
      have hw : Mem.spans a r.obj.mem.writable 4 = true := by
        rw [hgot.mem]
        exact hK.2.1
      split_ifs with hown htake
      · -- The word names the caller, so the entry is not a new one.
        have hself : tidOf x = s.obj.tid t := hown.trans (congrFun hgot.tid t)
        have hsome := hK.2.2 (by rw [hx, hself])
        have hrs : r = s := by
          refine hgot.old.resolve_right fun hnew ↦ ?_
          rw [hnew.1] at hsome
          cases hsome
        rw [hrs]
        exact (h.keeps ((hrefl.note t rfl _).trans (keeps_lockOwn _ t i))).inOrder
      · obtain ⟨hk, hheld⟩ := lockTake_keeps
          (s := setWaiter r t fun w ↦ { w with piState := some i }) x hw hlive
        exact (hsound.keeps hk).close (.inl hheld)
      · obtain ⟨hk, hheld | ⟨ho, hk'⟩⟩ := lockContended_keeps
          (s := setWaiter r t fun w ↦ { w with piState := some i }) x hw
        · exact (hsound.keeps hk).close (.inl hheld)
        · have hrs : r = s := hgot.old.resolve_right fun hnew ↦ ho hnew.2
          rw [hrs] at hk' ⊢
          exact (h.keeps ((hrefl.note t rfl _).trans hk')).inOrder

theorem futexLockPi_inOrder (h : Sound s (· = t) Nothing) (hK : MayLock s t a) :
    InOrder (futexLockPi s t a) := by
  have hk := ((Keeps.refl (· = t) Nothing s).note t rfl fun _ ↦ ⟨a, none, true, false⟩).thread t
    (f := fun d ↦ { d with inside := true }) id
  refine lockPass_inOrder (h.keeps ⟨hk.lists, hk.slot, hk.other, hk.record, hk.lives⟩)
    ⟨hk.lives t hK.1, hK.2⟩

/-- The entry is given back. -/
theorem inOrder_free (h : Sound s G (· = i)) :
    InOrder (onWorld s fun w ↦ { w.setPiState i fun _ ↦ ⟨false, 0, none, 0, false⟩ with
      piStates := fun b ↦ (w.piStates b).erase i }) := by
  obtain ⟨r, hr⟩ : ∃ r, r = onWorld s fun w ↦ { w.setPiState i fun _ ↦ ⟨false, 0, none, 0, false⟩ with
      piStates := fun b ↦ (w.piStates b).erase i } := ⟨_, rfl⟩
  have hself : entry r i = ⟨false, 0, none, 0, false⟩ := hr ▸ update_self ..
  have hne : ∀ k, k ≠ i → entry r k = entry s k := fun k hk ↦ hr ▸ update_of_ne hk ..
  have hlist : ∀ b, r.obj.world.piStates b = (s.obj.world.piStates b).erase i := fun b ↦ hr ▸ rfl
  have huse : ∀ k, (entry r k).inUse = true → k ≠ i := by
    rintro k hk rfl
    rw [hself] at hk
    cases hk
  rw [← hr]
  refine ⟨⟨fun b k hk ↦ ?_, fun b ↦ ?_, fun k hk ↦ ?_, fun k l hk hl hkl ↦ ?_⟩, fun k _ hk ↦ ?_⟩
  · rw [hlist, (h.nodup b).mem_erase_iff] at hk
    rw [hne k hk.1]
    exact h.listed b k hk.2
  · rw [hlist]
    exact (h.nodup b).erase i
  · have hki := huse k hk
    rw [hne k hki] at hk ⊢
    rw [hlist]
    exact (mem_erase_of_ne hki).mpr (h.filed k hk)
  · have hki := huse k hk
    have hli := huse l hl
    rw [hne k hki] at hk hkl
    rw [hne l hli] at hl hkl
    exact h.unique k l hk hl hkl
  · have hki := huse k hk
    rw [hne k hki] at hk
    subst hr
    rw [Backed, Held, hne k hki]
    refine (h.backed k hki hk).imp_right fun ⟨v, _, hq⟩ ↦ ⟨v, id, ?_⟩
    rw [Awaits, hne k hki]
    exact hq

theorem handOver_spec (s : Sys T M) (t : T) (i : Slot) (u : T) : ∃ r : Sys T M,
    Keeps (· = u) (· = i) s r ∧ (entry r i).owner = some u ∧
      Keeps Nobody Nothing r (handOver s t i u) := by
  refine ⟨setDied (linkOwner (clearDependency (listDel s u) u) i (some u)) i false, ?_, ?_, ?_⟩
  · exact ((((Keeps.refl (· = u) (· = i) s).unlink u rfl).clear u).link rfl _).mark rfl _
  · rw [entry_setDied]
    exact owner_linkOwner ..
  · exact (((Keeps.refl Nobody Nothing _).recompute i).task _).wake u

/-- **The futex goes to a waiter**, who owns it from then on. -/
theorem handOver_inOrder (h : InOrder s) (hi : s.obj.world.lookup a = some i)
    (hu : Waits s u a) : InOrder (handOver s t i u) := by
  obtain ⟨huse, hkey⟩ := lookup_some h.toFiled hi
  have hsound : Sound s (· = u) (· = i) := by
    refine ⟨h.toFiled, fun j hj hju ↦ ?_⟩
    rcases h.backed j id hju with hb | ⟨v, -, hq⟩
    · exact .inl hb
    · refine .inr ⟨v, ?_, hq⟩
      rintro rfl
      exact hj (h.unique j i hju huse (hq.2.1.symm.trans (hu.1.trans hkey.symm)))
  have hlive : Lives s u := by
    rw [Lives, hu.2]
    exact nofun
  obtain ⟨r, hk, howner, htail⟩ := handOver_spec s t i u
  have hheld : Held r i := held_of_owner (hk.lives u hlive) howner
  exact ((hsound.keeps hk).close (.inl hheld)).keeps htail

theorem unlockFree_some (s : Sys T M) (i : Slot) : ∃ r : Sys T M, Keeps Nobody (· = i) s r ∧
    unlockFree s (some i) = onWorld r fun w ↦ { w.setPiState i fun _ ↦ ⟨false, 0, none, 0, false⟩ with
      piStates := fun b ↦ (w.piStates b).erase i } := by
  obtain ⟨r, hr⟩ : ∃ r, r = onWorld (setDied (linkOwner s i none) i false)
    (·.setPiState i fun x ↦ { x with topWaiterPrio := 0 }) := ⟨_, rfl⟩
  refine ⟨r, hr ▸
    (((Keeps.refl Nobody (· = i) s).link rfl none).mark rfl false).put rfl fun _ ↦ ⟨rfl, rfl⟩, ?_⟩
  have hself : entry r i = { entry (setDied (linkOwner s i none) i false) i with
      topWaiterPrio := 0 } := hr ▸ update_self ..
  have hfree : ¬((entry r i).owner.isSome ∨ (entry r i).topWaiterPrio ≠ 0 ∨
      (entry r i).ownerDied = true) := by
    rw [hself, entry_setDied]
    rw [owner_linkOwner]
    simp
  rw [unlockFree, ← hr, piStateMaybeFree, if_neg hfree]

theorem unlockFree_inOrder (h : InOrder s) (st : Option Slot) : InOrder (unlockFree s st) := by
  cases st with
  | none => exact h
  | some i =>
    obtain ⟨r, hk, hr⟩ := unlockFree_some s i
    have hsound : Sound s Nobody (· = i) := h.weaken (fun _ ↦ id) fun _ ↦ False.elim
    exact hr ▸ inOrder_free (hsound.keeps hk)

theorem futexUnlockPi_inOrder (h : InOrder s) (t : T) (a : Addr) :
    InOrder (futexUnlockPi s t a).1 := by
  have hmem : ∀ m, InOrder (setMem s m) :=
    fun m ↦ h.keeps ((Keeps.refl Nobody Nothing s).books rfl rfl)
  rw [futexUnlockPi]
  split
  · exact h
  dsimp only
  split_ifs
  · exact h
  split
  · rename_i i u hi hu
    split
    · exact h
    · rename_i m _
      rw [hi] at hu
      have hbest := mem_filter.mp (argmax_mem hu)
      rw [decide_eq_true_iff] at hbest
      have hover := handOver_inOrder (t := t) (hmem m) hi hbest.2
      exact hover.keeps ((Keeps.refl Nobody Nothing _).chain _)
  · split
    · exact h
    · exact (unlockFree_inOrder (hmem _) _).keeps
        (((Keeps.refl Nobody Nothing _).task _).chain _)

/-- **A word that a dead thread left behind.** Its entry is marked, so that a waiter can be woken. -/
theorem handleRobustEntry_inOrder (h : InOrder s) (e : Addr) (offset : ℤ) :
    InOrder (handleRobustEntry s e offset) := by
  rw [handleRobustEntry]
  split
  · exact h
  rename_i a _
  have hmark : InOrder (markDead s a).1 ∧ MayWake (markDead s a).1 a := by
    rw [markDead]
    split
    · rename_i i hi
      obtain ⟨r, hr⟩ : ∃ r, r = setDied (linkOwner s i none) i true := ⟨_, rfl⟩
      have hk : Keeps Nobody (· = i) s r :=
        hr ▸ ((Keeps.refl Nobody (· = i) s).link rfl none).mark rfl true
      have hheld : Held r i := .inr (by rw [hr, entry_setDied])
      have hsound : Sound s Nobody (· = i) := h.weaken (fun _ ↦ id) fun _ ↦ False.elim
      have hclose : InOrder r := (hsound.keeps hk).close (.inl hheld)
      have htail : Keeps Nobody Nothing r (setMem (refreshTask (recomputeOwner r i)
          (entry s i).owner) (s.obj.mem.put a ownerDiedBit)) :=
        (((Keeps.refl Nobody Nothing r).recompute i).task _).books rfl rfl
      rw [← hr]
      refine ⟨hclose.keeps htail, fun j hj hja ↦ ?_⟩
      obtain ⟨huse, hkey⟩ := lookup_some h.toFiled hi
      have hsame := hk.trans (htail.mono (fun _ ↦ id) fun _ ↦ False.elim)
      have hji : j = i := by
        rw [(hsame.slot j).1] at hj
        rw [(hsame.slot j).2] at hja
        exact h.unique j i hj huse (hja.trans hkey.symm)
      rw [hji]
      exact hheld.keeps htail id
    · rename_i hn
      refine ⟨h.keeps ((Keeps.refl Nobody Nothing s).books rfl rfl), fun j hj hja ↦ ?_⟩
      exact absurd hja (lookup_none (s := s) h.toFiled hn hj)
  have hchain := (Keeps.refl Nobody Nothing (markDead s a).1).chain (markDead s a).2
  have hwake : MayWake (refreshOwnerChain (markDead s a).1 (markDead s a).2) a := by
    intro j hj hja
    rw [(hchain.slot j).1] at hj
    rw [(hchain.slot j).2] at hja
    exact (hmark.2 j hj hja).keeps hchain id
  exact ((hwake.sound (hmark.1.keeps hchain)).keeps (keeps_futexWake _ a 1)).inOrder

theorem robustWalk_inOrder (r : Robust) (n : ℕ) (h : InOrder s) (e : Addr) :
    InOrder (robustWalk r n s e).2 := by
  induction n generalizing s e with
  | zero => exact h
  | succ n ih =>
    rw [robustWalk]
    split
    · exact h
    dsimp only
    have hhere : InOrder (if e ≠ r.head ∧ e ≠ r.pending then handleRobustEntry s e r.offset else s) := by
      split_ifs
      · exact handleRobustEntry_inOrder h e _
      · exact h
    split_ifs at hhere ⊢ <;> first | exact hhere | exact ih hhere _

theorem exitRobustList_inOrder (h : InOrder s) (t : T) : InOrder (exitRobustList s t).2 := by
  have hreset : InOrder { s with obj := { s.obj with
      robust := update s.obj.robust t ⟨0, 0, 0⟩ } } :=
    h.keeps ((Keeps.refl Nobody Nothing s).books rfl rfl)
  rw [exitRobustList]
  dsimp only
  split_ifs
  · exact handleRobustEntry_inOrder hreset _ _
  · exact hreset
  · exact robustWalk_inOrder _ _ (handleRobustEntry_inOrder hreset _ _) _
  · exact robustWalk_inOrder _ _ hreset _

theorem futexCmpRequeuePi_inOrder (h : InOrder s) {x nw nr : ℕ} (hK : MayWake s a₁)
    (hnew : s.obj.world.lookup a₂ = none →
      nw < (matching s a₁ (s.obj.world.waiters (futexHash a₁))).toFinset.card ∧ 0 < nr) :
    InOrder (futexCmpRequeuePi s a₁ x a₂ nw nr).1 := by
  have hsound := hK.sound h
  rw [futexCmpRequeuePi]
  split_ifs with hne
  · exact h
  split
  · exact h
  split_ifs
  · exact h
  split
  · exact h
  rename_i dst r hg
  have hgot := got_piStateGet hsound hg
  have hwalk := keeps_requeuePiWalk (D := (· = dst)) a₁ a₂ dst nw nr r ⟨[], [], none⟩
    (r.obj.world.waiters (futexHash a₁))
  rw [hgot.waiter] at hwalk
  have htail : ∀ (q : Sys T M) o o', Keeps Nobody Nothing q
      (refreshOwnerChain _ o') :=
    fun q o o' ↦ (((Keeps.refl Nobody Nothing q).recompute dst).chain o).chain o'
  rcases hgot.old with rfl | ⟨hn, -⟩
  · have hwalk' := keeps_requeuePiWalk (D := Nothing) a₁ a₂ dst nw nr r
      ⟨[], [], none⟩ (r.obj.world.waiters (futexHash a₁))
    exact (hsound.keeps hwalk').inOrder.keeps (htail _ _ _)
  · obtain ⟨hmore, hr⟩ := hnew hn
    have hmatch : matching r a₁ (r.obj.world.waiters (futexHash a₁)) =
        matching s a₁ (s.obj.world.waiters (futexHash a₁)) := by
      rw [hgot.waiters]
      refine filter_congr fun v _ ↦ decide_eq_decide.mpr ?_
      rw [Waits, Waits, hgot.waiter, hgot.thread]
    obtain ⟨v, hkey, hwait, hmem⟩ := requeuePiWalk_joins hne dst nw nr r
      ⟨[], [], none⟩ _ hr (Nat.zero_le _) (by
        rw [hmatch, length_nil, Nat.zero_add]
        exact hmore)
    have hdst := (hwalk.slot dst).2.trans hgot.key
    refine ((hgot.sound.keeps hwalk).close (.inr ⟨v, id, ?_⟩)).keeps (htail _ _ _)
    rw [Awaits, hdst]
    exact ⟨hmem, hkey, hwait⟩

/-! ## Runs -/

theorem Sound.of_obj (h : Sound s G D) (hobj : s'.obj = s.obj)
    (hl : ∀ i u, (entry s i).inUse = true → (entry s i).owner = some u → Lives s u → Lives s' u) :
    Sound s' G D := by
  cases s
  cases s'
  cases hobj
  refine ⟨⟨h.listed, h.nodup, h.filed, h.unique⟩, fun i hi hu ↦ ?_⟩
  rcases h.backed i hi hu with (ho | hd) | hq
  · obtain ⟨u, hou, hlu⟩ := (Option.any_eq_true _ _).mp ho
    exact .inl (held_of_owner (hl i u hu hou (of_decide_eq_true hlu)) hou)
  · exact .inl (.inr hd)
  · exact .inr hq

theorem envStep_inOrder (h : InOrder s) {e : Env T} (hK : Tended s (.env e))
    (hstep : envStep futexWaitCleanup s e = some s') : InOrder s' := by
  rcases envStep_cases hstep with hq | ⟨t, l, l', rfl, -, rfl⟩ | ⟨t, rfl, hdying, rfl⟩
  · refine h.of_obj hq.obj fun i u hi ho hu hd ↦ ?_
    rcases envStep_state (fun a t ↦ (futexWaitCleanup_spec a t).2.1) hstep hd nofun nofun with
      hd | ⟨rfl, -⟩
    · exact hu hd
    · exact hK i hi ho
  · have hl : Sound { s with nudges := l } (· = t) Nothing :=
      (MayLeave.sound h hK).of_obj rfl fun _ _ _ _ ↦ id
    exact (hl.keeps (keeps_futexWaitCleanup _ t)).inOrder.of_obj rfl fun _ _ _ _ ↦ id
  · have hclean : Keeps (· = t) Nothing s (runCleanup futexWaitCleanup s t) := by
      rw [runCleanup]
      split_ifs
      · have hm := (Keeps.refl (· = t) Nothing s).thread t
          (f := fun d ↦ { d with blockCleanup := false }) id
        exact hm.trans (keeps_futexWaitCleanup _ t)
      · exact .refl ..
    exact ((MayLeave.sound h (hK hdying)).keeps (hclean.thread t id)).inOrder

theorem step_inOrder {e : Event T} (h : InOrder s) (hK : Tended s e) (hstep : step s e = some s') :
    InOrder s' := by
  have hresult : ∀ (t : T) (r : Sys T M × ℤ), InOrder r.1 → InOrder (setResult t r) :=
    fun t r hr ↦ hr.keeps ((Keeps.refl Nobody Nothing r.1).books rfl rfl)
  cases e with
  | env e => exact envStep_inOrder h hK hstep
  | wait t a x =>
    obtain ⟨-, rfl⟩ := of_guard hstep
    exact ((MayLeave.sound h hK).keeps (keeps_futexWait s t a x)).inOrder
  | lockPi t a =>
    obtain ⟨-, rfl⟩ := of_guard hstep
    exact futexLockPi_inOrder (MayLeave.sound h hK.1) hK.2
  | resume t =>
    obtain ⟨-, hs⟩ := Option.ite_none_right_eq_some.mp hstep
    have hsound := MayLeave.sound h hK.1
    rw [resume] at hs
    split at hs
    · cases hs
    · exact Option.some.inj hs ▸ (hsound.keeps (keeps_futexWaitResume s t)).inOrder
    · rename_i a hp
      refine Option.some.inj hs ▸ lockPass_inOrder hsound (hK.2 a ?_)
      rw [hp]
      rfl
  | wake t a n =>
    obtain ⟨-, rfl⟩ := of_guard hstep
    exact hresult t _
      ((MayWake.sound h hK).keeps (keeps_futexWake s a n)).inOrder
  | requeue t a₁ x a₂ nw nr =>
    obtain ⟨-, rfl⟩ := of_guard hstep
    exact hresult t _
      ((MayWake.sound h hK).keeps (keeps_futexCmpRequeue s a₁ x a₂ nw nr)).inOrder
  | requeuePi t a₁ x a₂ nw nr =>
    obtain ⟨-, rfl⟩ := of_guard hstep
    exact hresult t _ (futexCmpRequeuePi_inOrder h hK.1 hK.2)
  | unlockPi t a =>
    obtain ⟨-, rfl⟩ := of_guard hstep
    exact hresult t _ (futexUnlockPi_inOrder h t a)
  | exitRobust t =>
    obtain ⟨-, rfl⟩ := of_guard hstep
    exact exitRobustList_inOrder h t
  | store a x =>
    obtain ⟨m, -, rfl⟩ := Option.map_eq_some_iff.mp hstep
    exact h.keeps ((Keeps.refl Nobody Nothing s).books rfl rfl)

theorem inOrder_boot (basePrio tid : T → ℕ) (tasks : List T) (mem : Mem) (robust : T → Robust) :
    InOrder (boot basePrio tid tasks mem robust : Sys T M) := by
  refine ⟨⟨?_, fun _ ↦ nodup_nil, ?_, ?_⟩, ?_⟩ <;> nofun

/-- **Every entry in use is needed**, in every run in which entries are tended to: it has a live
owner, or somebody waits for it, or it is marked. -/
theorem pi_states_needed {basePrio tid : T → ℕ} {tasks : List T} {mem : Mem} {robust : T → Robust}
    (h : Runs.Run step Tended (boot basePrio tid tasks mem robust : Sys T M) s) (i : Slot)
    (hi : (entry s i).inUse = true) :
    (∃ u, (entry s i).owner = some u ∧ (s.thread u).state ≠ .terminating) ∨
      (∃ v, Awaits s i v) ∨ (entry s i).ownerDied = true := by
  have hs : InOrder s := h.invariant (inOrder_boot ..) fun _ _ _ ↦ step_inOrder
  rcases hs.backed i id hi with (ho | hd) | ⟨v, -, hq⟩
  · obtain ⟨u, hu, hl⟩ := (Option.any_eq_true _ _).mp ho
    exact .inl ⟨u, hu, of_decide_eq_true hl⟩
  · exact .inr (.inr hd)
  · exact .inr (.inl ⟨v, hq⟩)

/-- Thread `0`, with number `1`, and a word that holds `x`. -/
def lone (x : UInt8) : Sys (Fin 1) Unit :=
  boot (fun _ ↦ 1) (fun _ ↦ 1) [0]
    ⟨fun a ↦ if a = 0x2000 then x else 0, fun _ ↦ true, fun _ ↦ true⟩ fun _ ↦ ⟨0, 0, 0⟩

/-- A thread takes a free futex. -/
theorem pi_states_needed_take : ∃ s : Sys (Fin 1) Unit, Runs.Run step Tended (lone 0) s ∧
    (entry s 0).inUse = true ∧
      ((∃ u, (entry s 0).owner = some u ∧ (s.thread u).state ≠ .terminating) ∨
        (∃ v, Awaits s 0 v) ∨ (entry s 0).ownerDied = true) := by
  obtain ⟨s, hrun, hs⟩ := exists_run step Tended (lone 0)
    [.env (.dispatch 0), .lockPi 0 0x2000] (p := fun s ↦ (entry s 0).inUse = true)
    (by decide +kernel)
  exact ⟨s, hrun, hs, pi_states_needed hrun 0 hs⟩

/-- A thread that took a futex by a store to the word, as it may, calls `futex_lock_pi` on it: it is
told `EDEADLK`, and the entry that was made for the call stays, without an owner, a waiter or a
mark. -/
theorem not_pi_states_needed : ∃ s : Sys (Fin 1) Unit,
    Runs.Run step (fun _ _ ↦ True) (lone 1) s ∧ s.obj.result 0 = -edeadlk ∧
      (entry s 0).inUse = true ∧ (entry s 0).owner = none ∧ (∀ v, ¬Awaits s 0 v) ∧
      (entry s 0).ownerDied = false :=
  exists_run step (fun _ _ ↦ True) (lone 1) [.env (.dispatch 0), .lockPi 0 0x2000]
    (by decide +kernel)

end Mazu.Sync.Futex
