import Mathlib.Data.List.Basic
import Mathlib.Data.Nat.ModEq

/-!
# Circular memory

A region of memory is a function from offsets, and a ring is a region read and written modulo its
capacity. A write that runs past the end is done as two block copies, as `memcpy` forces it to be;
`contents_write` says that the two copies together append to what the ring holds, and
`contents_eq_copyOut` and `contents_eq_copyOut_append` say the same of reading it out.
-/

namespace Mazu.RingMem

open List

variable {α : Type*}

/-- Copy `src` into the region at offset `off`. -/
def copyIn (mem : ℕ → α) (off : ℕ) (src : List α) : ℕ → α :=
  fun j ↦ if off ≤ j then (src[j - off]?).getD (mem j) else mem j

/-- Copy `n` elements out of the region from offset `off`. -/
def copyOut (mem : ℕ → α) (off n : ℕ) : List α := (List.range n).map fun k ↦ mem (off + k)

/-- The `n` elements that start at `tail`, read modulo `cap`. -/
def contents (mem : ℕ → α) (cap tail n : ℕ) : List α :=
  (List.range n).map fun k ↦ mem ((tail + k) % cap)

/-- A write at `head` modulo `cap`: one copy if it fits before the end, else two. -/
def write (mem : ℕ → α) (cap head : ℕ) (src : List α) : ℕ → α :=
  if src.length ≤ cap - head then copyIn mem head src
  else copyIn (copyIn mem head (src.take (cap - head))) 0 (src.drop (cap - head))

variable {mem : ℕ → α} {cap head tail n m : ℕ} {src : List α}

@[simp] theorem length_contents : (contents mem cap tail n).length = n := by simp [contents]

@[simp] theorem contents_zero : contents mem cap tail 0 = [] := rfl

/-! ## Reading -/

theorem contents_add :
    contents mem cap tail (n + m) = contents mem cap tail n ++ contents mem cap (tail + n) m := by
  rw [contents, contents, contents, range_add, map_append, map_map]
  congr 1
  refine map_congr_left fun k _ ↦ ?_
  rw [Function.comp_apply, Nat.add_assoc]

theorem contents_mod_tail : contents mem cap (tail % cap) n = contents mem cap tail n := by
  refine map_congr_left fun k _ ↦ ?_
  rw [Nat.mod_add_mod]

/-- A stretch that stops before the end of the region is one copy. -/
theorem contents_eq_copyOut (h : tail + n ≤ cap) :
    contents mem cap tail n = copyOut mem tail n := by
  refine map_congr_left fun k hk ↦ ?_
  rw [mem_range] at hk
  rw [Nat.mod_eq_of_lt (by omega)]

/-- A stretch that runs past the end is the copy up to the end and the copy from the start. -/
theorem contents_eq_copyOut_append (htail : tail ≤ cap) (hcap : cap - tail ≤ n) (hn : n ≤ cap) :
    contents mem cap tail n
      = copyOut mem tail (cap - tail) ++ copyOut mem 0 (n - (cap - tail)) := by
  conv_lhs => rw [show n = (cap - tail) + (n - (cap - tail)) by omega]
  rw [contents_add, contents_eq_copyOut (by omega), show tail + (cap - tail) = cap by omega]
  congr 1
  refine map_congr_left fun k hk ↦ ?_
  rw [mem_range] at hk
  rw [Nat.add_mod_left, Nat.mod_eq_of_lt (by omega), Nat.zero_add]

theorem contents_congr {mem' : ℕ → α} (h : ∀ k < n, mem' ((tail + k) % cap) = mem ((tail + k) % cap)) :
    contents mem' cap tail n = contents mem cap tail n :=
  map_congr_left fun k hk ↦ h k (mem_range.mp hk)

/-! ## Writing -/

theorem copyIn_of_lt {j : ℕ} (h : j < head) : copyIn mem head src j = mem j := by
  rw [copyIn, if_neg (by omega)]

theorem copyIn_of_ge {j : ℕ} (h : head + src.length ≤ j) : copyIn mem head src j = mem j := by
  rw [copyIn, if_pos (by omega), getElem?_eq_none (by omega), Option.getD_none]

theorem copyIn_add {k : ℕ} (h : k < src.length) : copyIn mem head src (head + k) = src[k] := by
  rw [copyIn, if_pos (by omega), show head + k - head = k by omega, getElem?_eq_getElem h,
    Option.getD_some]

/-- What a write puts at each of its places. -/
theorem write_of_lt (hhead : head < cap) (hlen : src.length ≤ cap) {k : ℕ} (hk : k < src.length) :
    write mem cap head src ((head + k) % cap) = src[k] := by
  rw [write]
  by_cases hfit : src.length ≤ cap - head
  · rw [if_pos hfit, Nat.mod_eq_of_lt (by omega), copyIn_add hk]
  · rw [if_neg hfit]
    by_cases hend : head + k < cap
    · -- the place lies before the end, and the second copy starts over at offset zero
      have htake : k < (src.take (cap - head)).length := by rw [length_take]; omega
      rw [Nat.mod_eq_of_lt hend, copyIn_of_ge (by rw [length_drop]; omega), copyIn_add htake,
        getElem_take]
    · have hdrop : head + k - cap < (src.drop (cap - head)).length := by
        rw [length_drop]; omega
      have hplace : (head + k) % cap = 0 + (head + k - cap) := by
        rw [Nat.mod_eq_sub_mod (by omega), Nat.mod_eq_of_lt (by omega), Nat.zero_add]
      rw [hplace, copyIn_add hdrop, getElem_drop]
      congr 1
      omega

/-- A write leaves every other place of the ring alone. -/
theorem write_of_ge (hhead : head < cap) {k : ℕ} (hk : src.length ≤ k) (hcap : k < cap) :
    write mem cap head src ((head + k) % cap) = mem ((head + k) % cap) := by
  rw [write]
  by_cases hend : head + k < cap
  · rw [Nat.mod_eq_of_lt hend, if_pos (by omega), copyIn_of_ge (by omega)]
  · have hplace : (head + k) % cap = head + k - cap := by
      rw [Nat.mod_eq_sub_mod (by omega), Nat.mod_eq_of_lt (by omega)]
    rw [hplace]
    by_cases hfit : src.length ≤ cap - head
    · rw [if_pos hfit, copyIn_of_lt (by omega)]
    · rw [if_neg hfit, copyIn_of_ge (by rw [length_drop]; omega), copyIn_of_lt (by omega)]

/-- **A write appends.** The ring held `n` elements from `tail`, the write starts where they end,
and there is room for all of it. -/
theorem contents_write (htail : tail < cap) (hroom : n + src.length ≤ cap) :
    contents (write mem cap ((tail + n) % cap) src) cap tail (n + src.length)
      = contents mem cap tail n ++ src := by
  have hcap : 0 < cap := by omega
  have hhead : (tail + n) % cap < cap := Nat.mod_lt _ hcap
  rw [contents_add]
  congr 1
  · apply contents_congr
    intro k hk
    -- seen from the head, the old element `k` lies `cap - n + k` places ahead
    have hplace : (tail + k) % cap = ((tail + n) % cap + (cap - n + k)) % cap := by
      rw [Nat.mod_add_mod, show tail + n + (cap - n + k) = tail + k + cap by omega,
        Nat.add_mod_right]
    rw [hplace, write_of_ge hhead (by omega) (by omega)]
  · apply ext_getElem
    · rw [length_contents]
    · intro k hk hk'
      have hlen : src.length ≤ cap := by omega
      simp only [contents, getElem_map, getElem_range]
      rw [← Nat.mod_add_mod (tail + n) cap k, write_of_lt hhead hlen hk']

end Mazu.RingMem
