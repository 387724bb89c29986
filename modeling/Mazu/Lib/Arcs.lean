import Mathlib.Data.List.Chain
import Mazu.Lib.Serial

/-!
# Arcs laid end to end

A list of arcs of the circle of `w`-bit counters, each of which starts where the one before it
stops. The last `k` counters before the end of the list are covered by its arcs as long as `k` is no
more than their total length, however often the list winds round the circle.
-/

namespace Mazu.Serial

open List BitVec

variable {w : ℕ}

/-- The way round to `c` is at most the way to `b` and on to `c`. -/
theorem dist_triangle (a b c : BitVec w) : dist a c ≤ dist a b + dist b c := by
  by_cases h : dist a b + dist b c < 2 ^ w
  · have hc : dist a (b + BitVec.ofNat w (dist b c)) = _ := dist_add_right h
    rw [add_dist] at hc
    exact hc.le
  · exact (dist_lt a c).le.trans (not_lt.mp h)

/-- A counter that has passed `a`, and whose window reaches up to `n` beyond `a`, has at most `n`
left. -/
theorem dist_le_of_passed {a u e : BitVec (w + 1)} {n : ℕ} (he : a + BitVec.ofNat (w + 1) n = e)
    (hu : 0 ≤ diff u a) (hlt : dist u e < 2 ^ w) : dist u e ≤ n := by
  have hd := diff_nonneg_iff.mp hu
  by_cases hn : n < 2 ^ (w + 1)
  · have hae : dist a e = n := he ▸ dist_add_ofNat hn
    by_cases hle : dist a u ≤ dist a e
    · rw [dist_of_mem hle, hae]
      exact Nat.sub_le _ _
    · -- the end would lie behind the counter, more than half the circle away
      have hback := diff_eq_dist_sub_dist (b := a) (x := e) (y := u) (by omega) (by omega)
      have hahead := diff_nonneg_iff.mpr hlt
      omega
  · exact (dist_lt u e).le.trans (not_lt.mp hn)

/-- What a counter has passed it does not come back behind, as it moves on towards an end that is
less than half the circle ahead of it. -/
theorem passed_of_closer {a u v e : BitVec (w + 1)} {n : ℕ} (he : a + BitVec.ofNat (w + 1) n = e)
    (hn : n < 2 ^ w) (hu : 0 ≤ diff u a) (hlt : dist u e < 2 ^ w) (hv : dist v e ≤ dist u e) :
    0 ≤ diff v a := by
  have hle := hv.trans (dist_le_of_passed he hu hlt)
  have hpos : v = a + BitVec.ofNat (w + 1) (n - dist v e) := by
    have hae : a + BitVec.ofNat (w + 1) (n - dist v e) + BitVec.ofNat (w + 1) (dist v e) = e := by
      rw [add_assoc, ← ofNat_add, Nat.sub_add_cancel hle, he]
    exact (add_left_inj _).mp ((add_dist v e).trans hae.symm)
  rw [diff_nonneg_iff, hpos, dist_add_ofNat (by rw [Nat.pow_succ]; omega)]
  omega

variable {α : Type*} (start stop : α → BitVec w)

/-- The arcs are laid end to end, and the last one stops at `e`. -/
structure Laid (e : BitVec w) (arcs : List α) : Prop where
  consecutive : arcs.IsChain fun a b ↦ stop a = start b
  last : ∀ a ∈ arcs.getLast?, stop a = e

/-- The total length. -/
def span (arcs : List α) : ℕ := (arcs.map fun a ↦ dist (start a) (stop a)).sum

variable {start stop} {e : BitVec w} {a : α} {arcs : List α}

@[simp] theorem span_nil : span start stop [] = 0 := rfl

@[simp] theorem span_cons :
    span start stop (a :: arcs) = dist (start a) (stop a) + span start stop arcs := rfl

theorem span_append (arcs' : List α) :
    span start stop (arcs ++ arcs') = span start stop arcs + span start stop arcs' := by
  simp [span]

theorem span_le {m : ℕ} (h : ∀ a ∈ arcs, dist (start a) (stop a) ≤ m) :
    span start stop arcs ≤ arcs.length * m := by
  induction arcs with
  | nil => exact Nat.zero_le _
  | cons a arcs ih =>
    have ha := h a mem_cons_self
    have hrest := ih fun b hb ↦ h b (mem_cons_of_mem _ hb)
    rw [span_cons, length_cons, Nat.succ_mul]
    omega

theorem Laid.nil : Laid start stop e [] where
  consecutive := .nil
  last := by
    intro a ha
    cases ha

/-- One more arc, from the end of the others. -/
theorem Laid.snoc (h : Laid start stop (start a) arcs) :
    Laid start stop (stop a) (arcs ++ [a]) where
  consecutive := by
    refine isChain_append.mpr ⟨h.consecutive, .singleton a, fun x hx y hy ↦ ?_⟩
    obtain rfl : a = y := by simpa using hy
    exact h.last x hx
  last := by
    intro b hb
    obtain rfl : a = b := by simpa using hb
    rfl

theorem Laid.of_append (arcs : List α) {arcs' : List α} (h : Laid start stop e (arcs ++ arcs')) :
    Laid start stop e arcs' where
  consecutive := (isChain_append.mp h.consecutive).2.1
  last := by
    intro a ha
    refine h.last a ?_
    rw [getLast?_append, Option.mem_def.mp ha]
    rfl

/-- The end lies ahead of an arc by the length of those after it. -/
theorem Laid.stop_add_span (h : Laid start stop e (a :: arcs)) :
    stop a + BitVec.ofNat w (span start stop arcs) = e := by
  induction arcs generalizing a with
  | nil =>
    rw [span_nil, BitVec.add_zero]
    exact h.last a rfl
  | cons b arcs ih =>
    have hab : stop a = start b := (isChain_cons_cons.mp h.consecutive).1
    rw [span_cons, ofNat_add, ← add_assoc, hab, add_dist]
    exact ih (h.of_append [a])

/-- **The last counters are covered.** Whatever lies `k` before the end is on an arc with less than
`k` after it. -/
theorem Laid.exists_arc (h : Laid start stop e arcs) {k : ℕ} (hk : 0 < k)
    (hle : k ≤ span start stop arcs) :
    ∃ pre a post, arcs = pre ++ a :: post ∧ span start stop post < k ∧
      dist (start a) (e - BitVec.ofNat w k) + (k - span start stop post) =
        dist (start a) (stop a) := by
  induction arcs with
  | nil =>
    rw [span_nil] at hle
    omega
  | cons a arcs ih =>
    by_cases hlt : span start stop arcs < k
    · refine ⟨[], a, arcs, rfl, hlt, ?_⟩
      rw [span_cons] at hle
      obtain ⟨m, rfl⟩ := Nat.exists_eq_add_of_lt hlt
      have hsub : m + 1 ≤ dist (start a) (stop a) := by omega
      -- what lies `k` before the end lies `m + 1` before the stop of this arc
      have hpos : e - BitVec.ofNat w (span start stop arcs + m + 1)
          = start a + BitVec.ofNat w (dist (start a) (stop a) - (m + 1)) := by
        rw [← h.stop_add_span, ← add_dist (start a) (stop a)]
        obtain ⟨n, hn⟩ := Nat.exists_eq_add_of_le hsub
        rw [dist_add_ofNat (dist_lt _ _), hn, sub_eq_iff_eq_add,
          BitVec.add_assoc, BitVec.add_assoc, ← BitVec.ofNat_add, ← BitVec.ofNat_add]
        congr 2
        omega
      have hdist := dist_lt (start a) (stop a)
      rw [hpos, dist_add_ofNat (by omega)]
      omega
    · obtain ⟨pre, b, post, rfl, hb⟩ := ih (h.of_append [a]) (not_lt.mp hlt)
      exact ⟨a :: pre, b, post, rfl, hb⟩

end Mazu.Serial
