import Mazu.Fs.Bcache

/-!
# Concurrent readers of the buffer cache

`bcache_read` drops the lock of the cache between taking a buffer and publishing what the device
gave. Here each of its two locked sections is one step, and any number of reads are between the two;
the device read belongs to the second step. A read that nothing comes between is `Bcache.read`.
-/

namespace Mazu.Fs

open List

variable {D : Type} {n : ℕ}

namespace Bcache

variable (c : Bcache D n) (i : Fin n) (s : ℕ)

/-- The first section of `bcache_read`: the buffer, and whether it is still to be loaded. -/
def claim : Option (Fin n × Bool) × Bcache D n :=
  match c.lookup s with
  | some i =>
    (some (i, false),
      (c.setBuf i fun b ↦ { b with refcount := (b.refcount + 1) % 2 ^ 32 }).touch i)
  | none =>
    match c.victim with
    | none => (none, c)
    | some i =>
      (some (i, true), ((c.evict i).setBuf i fun b ↦
        { b with sector := s, valid := false, dirty := false, isMeta := false, refcount := 1 }).touch
          i)

/-- The device read of `bcache_read`, and its second section. -/
def publish : Option (Fin n) × Bcache D n :=
  let c' := { c with faults := c.faults.tail }
  if c.faults.head? = some true then
    (none, c'.setBuf i fun b ↦
      { b with valid := false, dirty := false, isMeta := false, refcount := 0 })
  else
    (some i, c'.setBuf i fun b ↦
      { b with valid := true, dirty := false, isMeta := false, data := c.disk s })

/-- The two sections in one go. -/
theorem read_eq_publish_claim : c.read s = (c.claim s).1.elim (none, (c.claim s).2) fun p ↦
      if p.2 then (c.claim s).2.publish p.1 s else (some p.1, (c.claim s).2) := by
  rw [read, claim]
  cases c.lookup s with
  | some i => rfl
  | none =>
    cases c.victim with
    | none => rfl
    | some i =>
      simp only [fill, publish, setBuf, touch, Function.update_self, Function.update_idem,
        Option.elim_some, if_true]

/-- Nothing that says which sectors are cached is different. -/
def Alike (c c' : Bcache D n) : Prop := ∀ i, (c'.bufs i).valid = (c.bufs i).valid ∧
  (c'.bufs i).sector = (c.bufs i).sector ∧ (c'.bufs i).refcount = (c.bufs i).refcount

theorem Alike.of_bufs {c c' c'' : Bcache D n} (h : Alike c c') {i : Fin n} {b : Buf D}
    (hbufs : c''.bufs = Function.update c'.bufs i b) (hb : b.valid = (c'.bufs i).valid ∧
      b.sector = (c'.bufs i).sector ∧ b.refcount = (c'.bufs i).refcount) : Alike c c'' := by
  intro j
  rw [hbufs]
  by_cases hj : j = i
  · rw [hj, Function.update_self, hb.1, hb.2.1, hb.2.2]
    exact h i
  · rw [Function.update_of_ne hj]
    exact h j

theorem alike_evict : Alike c (c.evict i) := by
  have hself : Alike c c := fun _ ↦ ⟨rfl, rfl, rfl⟩
  rw [evict]
  split_ifs
  · exact hself.of_bufs rfl ⟨rfl, rfl, rfl⟩
  · exact hself

theorem alike_update (f : D → D) (m : Mark) : Alike c (c.update i f m) := by
  have hself : Alike c c := fun _ ↦ ⟨rfl, rfl, rfl⟩
  have hdata : Alike c (c.setBuf i fun b ↦ { b with data := f b.data }) :=
    hself.of_bufs rfl ⟨rfl, rfl, rfl⟩
  have hdirty : ∀ {c' : Bcache D n}, Alike c c' → Alike c (c'.markDirty i) := by
    intro c' h
    rw [markDirty]
    split_ifs
    · exact h
    · exact h.of_bufs rfl ⟨rfl, rfl, rfl⟩
  cases m with
  | dirty => exact hdirty hdata
  | metaOnly => exact hdata.of_bufs rfl ⟨rfl, rfl, rfl⟩
  | dirtyMeta => exact (hdirty hdata).of_bufs rfl ⟨rfl, rfl, rfl⟩

theorem Alike.flushPass (m : Bool) (is : List (Fin n)) {c c' : Bcache D n} (h : Alike c c') :
    Alike c (c'.flushPass m is).2 := by
  induction is generalizing c' with
  | nil => exact h
  | cons i is ih =>
    rw [Bcache.flushPass]
    split_ifs
    · exact h
    · exact ih (h.of_bufs rfl ⟨rfl, rfl, rfl⟩)
    · exact ih h

theorem alike_sync : Alike c c.sync.2 := by
  have hrefl : Alike c c := fun _ ↦ ⟨rfl, rfl, rfl⟩
  have h := hrefl.flushPass false (List.finRange n)
  rw [sync]
  split_ifs
  · exact h.flushPass true _
  · exact h

end Bcache

/-- The cache, the loads that are between the two sections, and the buffers in use; each with its
sector. -/
structure Readers (D : Type) (n : ℕ) where
  cache : Bcache D n
  loads : List (ℕ × Fin n)
  users : List (ℕ × Fin n)

namespace Readers

inductive Access (D : Type) (n : ℕ)
  | start (s : ℕ)
  | finish (s : ℕ) (i : Fin n)
  | update (i : Fin n) (f : D → D) (m : Mark)
  | release (s : ℕ) (i : Fin n)
  | sync

def init (n : ℕ) (zero : D) (disk : ℕ → D) (faults : List Bool) : Readers D n :=
  ⟨.init n zero disk faults, [], []⟩

def step (t : Readers D n) : Access D n → Option (Readers D n)
  | .start s =>
    let r := t.cache.claim s
    match r.1 with
    | none => some t
    | some (i, false) => some ⟨r.2, t.loads, (s, i) :: t.users⟩
    | some (i, true) => some ⟨r.2, (s, i) :: t.loads, t.users⟩
  | .finish s i =>
    if (s, i) ∈ t.loads then
      let r := t.cache.publish i s
      some ⟨r.2, t.loads.erase (s, i), r.1.elim t.users fun i ↦ (s, i) :: t.users⟩
    else none
  | .update i f m =>
    if i ∈ t.users.map Prod.snd then some { t with cache := t.cache.update i f m } else none
  | .release s i =>
    if (s, i) ∈ t.users then some ⟨t.cache.release i, t.loads, t.users.erase (s, i)⟩ else none
  | .sync => some { t with cache := t.cache.sync.2 }

/-- No sector has two valid buffers, and users of one sector use one buffer. -/
def Shared (t : Readers D n) : Prop :=
  (∀ i j, (t.cache.bufs i).valid = true → (t.cache.bufs j).valid = true →
    (t.cache.bufs i).sector = (t.cache.bufs j).sector → i = j) ∧
  ∀ s i j, (s, i) ∈ t.users → (s, j) ∈ t.users → i = j

/-- No read of a sector starts while the sector is loaded or has `2³² - 1` users. -/
def Apart (t : Readers D n) : Access D n → Prop
  | .start s => s ∉ t.loads.map Prod.fst ∧
    ∀ i, (t.cache.bufs i).valid = true → (t.cache.bufs i).sector = s →
      (t.cache.bufs i).refcount + 1 < 2 ^ 32
  | _ => True

instance (t : Readers D n) (e : Access D n) : Decidable (t.Apart e) := by
  cases e <;> unfold Apart <;> infer_instance

/-- The buffer is valid or about to be. -/
def Known (t : Readers D n) (i : Fin n) : Prop :=
  (t.cache.bufs i).valid = true ∨ i ∈ t.loads.map Prod.snd

structure Sole (t : Readers D n) : Prop where
  count : ∀ i, (t.cache.bufs i).refcount =
    (t.loads.map Prod.snd).count i + (t.users.map Prod.snd).count i
  load : ∀ p ∈ t.loads, (t.cache.bufs p.2).sector = p.1 ∧ (t.cache.bufs p.2).valid = false ∧
    (t.cache.bufs p.2).refcount = 1
  user : ∀ p ∈ t.users, (t.cache.bufs p.2).sector = p.1 ∧ (t.cache.bufs p.2).valid = true
  uniq : ∀ i j, t.Known i → t.Known j →
    (t.cache.bufs i).sector = (t.cache.bufs j).sector → i = j

theorem count_snd_erase {l : List (ℕ × Fin n)} {p : ℕ × Fin n} (h : p ∈ l) (j : Fin n) :
    (l.map Prod.snd).count j = ((l.erase p).map Prod.snd).count j + if p.2 = j then 1 else 0 := by
  rw [((perm_cons_erase h).map Prod.snd).count_eq, map_cons, count_cons]
  simp only [beq_iff_eq]

namespace Sole

variable {t : Readers D n} {c : Bcache D n} {s : ℕ} {i : Fin n}

theorem init (n : ℕ) (zero : D) (disk : ℕ → D) (faults : List Bool) :
    Sole (Readers.init n zero disk faults) :=
  ⟨fun _ ↦ rfl, nofun, nofun, fun _ _ h ↦ by simp [Readers.init, Bcache.init, Known] at h⟩

variable (h : Sole t)

include h

theorem alike (hc : t.cache.Alike c) : Sole { t with cache := c } := by
  obtain ⟨hcount, hload, huser, huniq⟩ := h
  exact ⟨by grind [Bcache.Alike], by grind [Bcache.Alike], by grind [Bcache.Alike],
    by grind [Bcache.Alike, Known]⟩

/-- A sector that is there has one user more. -/
theorem hit
    (hc : c.bufs = Function.update t.cache.bufs i { t.cache.bufs i with refcount := ((t.cache.bufs
      i).refcount + 1) % 2 ^ 32 }) (hv : (t.cache.bufs i).valid = true)
    (hfew : (t.cache.bufs i).refcount + 1 < 2 ^ 32) :
    Sole ⟨c, t.loads, ((t.cache.bufs i).sector, i) :: t.users⟩ := by
  obtain ⟨hcount, hload, huser, huniq⟩ := h
  simp only [Known] at huniq
  refine ⟨?_, ?_, ?_, ?_⟩ <;> simp only [Known, hc] <;> grind

/-- A buffer that nobody has is taken for a sector that is not there and not loaded. -/
theorem miss {b : Buf D} (hc : c.bufs = Function.update t.cache.bufs i b)
    (hb : b.sector = s ∧ b.valid = false ∧ b.refcount = 1) (hfree : (t.cache.bufs i).refcount = 0)
    (habsent : ∀ j, (t.cache.bufs j).valid = true → (t.cache.bufs j).sector ≠ s)
    (hapart : s ∉ t.loads.map Prod.fst) : Sole ⟨c, (s, i) :: t.loads, t.users⟩ := by
  obtain ⟨hcount, hload, huser, huniq⟩ := h
  have hnobody := hcount i
  rw [hfree, eq_comm, Nat.add_eq_zero_iff, count_eq_zero, count_eq_zero] at hnobody
  simp only [Known] at huniq
  refine ⟨?_, ?_, ?_, ?_⟩ <;> simp only [Known, hc] <;> grind

/-- Nobody else has a buffer that is loaded. -/
theorem alone (hmem : (s, i) ∈ t.loads) :
    i ∉ (t.loads.erase (s, i)).map Prod.snd ∧ i ∉ t.users.map Prod.snd := by
  have hone := h.count i
  rw [(h.load _ hmem).2.2, count_snd_erase hmem, if_pos rfl] at hone
  exact ⟨count_eq_zero.mp (by omega), count_eq_zero.mp (by omega)⟩

/-- A load ends: the buffer is valid and in use, or free again. -/
theorem loaded (hmem : (s, i) ∈ t.loads) {b : Buf D}
    (hc : c.bufs = Function.update t.cache.bufs i b)
    (hb : b.sector = s ∧ b.valid = true ∧ b.refcount = 1) :
    Sole ⟨c, t.loads.erase (s, i), (s, i) :: t.users⟩ := by
  obtain ⟨hl, hu⟩ := h.alone hmem
  obtain ⟨hcount, hload, huser, huniq⟩ := h
  have herase := count_snd_erase hmem
  simp only [Known] at huniq
  refine ⟨?_, ?_, ?_, ?_⟩ <;> simp only [Known, hc] <;> grind

theorem failed (hmem : (s, i) ∈ t.loads) {b : Buf D}
    (hc : c.bufs = Function.update t.cache.bufs i b)
    (hb : b.sector = s ∧ b.valid = false ∧ b.refcount = 0) :
    Sole ⟨c, t.loads.erase (s, i), t.users⟩ := by
  obtain ⟨hl, hu⟩ := h.alone hmem
  obtain ⟨hcount, hload, huser, huniq⟩ := h
  have herase := count_snd_erase hmem
  simp only [Known] at huniq
  refine ⟨?_, ?_, ?_, ?_⟩ <;> simp only [Known, hc] <;> grind

theorem release (hmem : (s, i) ∈ t.users) :
    Sole ⟨t.cache.release i, t.loads, t.users.erase (s, i)⟩ := by
  obtain ⟨hcount, hload, huser, huniq⟩ := h
  have herase := count_snd_erase hmem
  simp only [Known] at huniq
  refine ⟨?_, ?_, ?_, ?_⟩ <;> simp only [Known, Bcache.release, Bcache.setBuf] <;> grind

theorem start (hk : t.Apart (.start s)) {t' : Readers D n} (hstep : t.step (.start s) = some t')
    : Sole t' := by
  simp only [step, Bcache.claim] at hstep
  cases hl : t.cache.lookup s with
  | some i =>
    simp only [hl, Option.some.injEq] at hstep
    obtain ⟨hv, rfl⟩ : (t.cache.bufs i).valid = true ∧ (t.cache.bufs i).sector = s := by
      simpa using find?_some hl
    exact hstep ▸ h.hit rfl hv (hk.2 i hv rfl)
  | none =>
    have habsent : ∀ j, (t.cache.bufs j).valid = true → (t.cache.bufs j).sector ≠ s := by
      simpa using find?_eq_none.mp hl
    cases hvic : t.cache.victim with
    | none =>
      simp only [hl, hvic, Option.some.injEq] at hstep
      exact hstep ▸ h
    | some i =>
      simp only [hl, hvic, Option.some.injEq] at hstep
      have halike := t.cache.alike_evict i
      refine hstep ▸ (h.alike halike).miss rfl ⟨rfl, rfl, rfl⟩ ?_ (fun j ↦ ?_) hk.1
      · exact (halike i).2.2.trans (of_decide_eq_true (find?_some hvic :))
      · rw [(halike j).1, (halike j).2.1]
        exact habsent j

theorem step {e : Access D n} (hk : t.Apart e) {t' : Readers D n} (hstep : t.step e = some t')
    : Sole t' := by
  cases e with
  | start s => exact h.start hk hstep
  | finish s i =>
    simp only [Readers.step, Option.ite_none_right_eq_some, Bcache.publish] at hstep
    obtain ⟨hmem, hstep⟩ := hstep
    obtain ⟨hs, hv, hr⟩ := h.load _ hmem
    split_ifs at hstep <;> cases hstep
    · exact h.failed hmem rfl ⟨hs, rfl, rfl⟩
    · exact h.loaded hmem rfl ⟨hs, rfl, hr⟩
  | update i f m =>
    obtain ⟨-, rfl⟩ := Runs.of_guard hstep
    exact h.alike (t.cache.alike_update i f m)
  | release s i =>
    obtain ⟨hmem, rfl⟩ := Runs.of_guard hstep
    exact h.release hmem
  | sync => exact Option.some.inj hstep ▸ h.alike t.cache.alike_sync

end Sole

/-- **One buffer for each sector.** Where no read of a sector starts while the sector is being
loaded, a sector has at most one valid buffer, and all its users use that one. -/
theorem readers_share {zero : D} {disk : ℕ → D} {faults : List Bool} {t : Readers D n}
    (h : Runs.Run step Apart (init n zero disk faults) t) : t.Shared := by
  have hsole : Sole t :=
    h.invariant (Sole.init n zero disk faults) fun _ _ _ h hk hstep ↦ h.step hk hstep
  refine ⟨fun i j hi hj ↦ hsole.uniq i j (.inl hi) (.inl hj), fun s i j hi hj ↦ ?_⟩
  obtain ⟨hi, hvi⟩ := hsole.user _ hi
  obtain ⟨hj, hvj⟩ := hsole.user _ hj
  exact hsole.uniq i j (.inl hvi) (.inl hvj) (hi.trans hj.symm)

/-- Two loads are under way together, and a sector gets a second user. -/
theorem readers_share_three : ∃ t, Runs.Run step Apart (init 2 0 (fun _ ↦ 0) [true]) t ∧
    t.users.map Prod.fst = [6, 6] ∧ t.Shared := by
  obtain ⟨t, hrun, husers⟩ := Runs.exists_run step Apart (init 2 0 (fun _ ↦ 0) [true])
    [.start 5, .start 6, .finish 5 1, .finish 6 0, .start 6]
    (p := fun t ↦ t.users.map Prod.fst = [6, 6]) (by decide +kernel)
  exact ⟨t, hrun, husers, readers_share hrun⟩

/-- **Two copies of a sector.** A read of a sector that is being loaded does not find the buffer
that was taken for it, and takes another; both become valid and are in use. -/
theorem not_readers_share : ∃ t, Runs.Run step (fun _ _ ↦ True) (init 2 0 (fun _ ↦ 0) []) t ∧
    t.users = [(5, 0), (5, 1)] ∧ ¬ t.Shared := by
  obtain ⟨t, hrun, husers⟩ := Runs.exists_run step (fun _ _ ↦ True) (init 2 0 (fun _ ↦ 0) [])
    [.start 5, .start 5, .finish 5 1, .finish 5 0]
    (p := fun t ↦ t.users = [(5, 0), (5, 1)]) (by decide +kernel)
  refine ⟨t, hrun, husers, fun h ↦ absurd (h.2 5 0 1 ?_ ?_) (by decide)⟩ <;> rw [husers] <;> decide

end Readers

end Mazu.Fs
