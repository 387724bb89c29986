import Mazu.Fs.Ramfs

/-!
# The scratch memory of the file system in memory

Paths are parsed into an arena of four times `PATH_NAME_MAX_LEN` bytes, and an allocation that does
not fit halts the kernel. A recursive creation parses the path of every missing directory again in
what is left of the arena, with a copy of the path as long as the longest path.

The arena is aligned, so the padding of an allocation depends on how much of it is used.
-/

namespace Mazu.Fs.Ramfs

open List Option

/-- `PATH_NAME_MAX_LEN`. -/
def pathNameMaxLen : ℕ := 0x1000

/-- `arena_alloc` in the scratch arena, of which `beg` bytes are used; `none` where it halts the
kernel. -/
def arenaAlloc (size beg : ℕ) : Option ℕ :=
  let padding := (8 - beg % 8) % 8
  if beg + padding + size ≤ 4 * pathNameMaxLen then some (beg + padding + size) else none

variable (r : RamFs) (path : List UInt8)

/-- The length of the copy that `path_name_parse` makes. -/
def nameLen : ℕ := (Sfs.stripTrailing path.tail).length

/-- The copy, and the array of components; a string slice takes 16 bytes. -/
def parseAlloc (len beg : ℕ) : Option ℕ :=
  (arenaAlloc len beg).bind (arenaAlloc (16 * (len / 2 + 1)))

/-- The memory for parsing a path; an invalid one is refused before. -/
def parseScratch (beg : ℕ) : Option ℕ :=
  match parse path with
  | .error _ => some beg
  | .ok _ => parseAlloc (nameLen path) beg

def pathNameToStr (cs : List (List UInt8)) : List UInt8 := 47 :: [47].intercalate cs

/-- The memory of `ram_fs_create_common`, the components of the path from the last one on. The path
of the parent parses into the components before. -/
def createScratch (r : RamFs) (recursive : Bool) :
    List (List UInt8) → List UInt8 → ℕ → Option ℕ
  | [], path, beg => parseAlloc (nameLen path) beg
  | _ :: up, path, beg =>
    (parseAlloc (nameLen path) beg).bind fun beg ↦
      if (lookup r up.reverse r.root).isNone ∧ recursive then
        (arenaAlloc pathNameMaxLen beg).bind
          (createScratch r recursive up (pathNameToStr up.reverse))
      else some beg

inductive PathCall
  | open (path : List UInt8)
  | create (path : List UInt8)
  | mkdir (path : List UInt8)
  | unlink (path : List UInt8)
  | rmdir (path : List UInt8)

/-- How much of the arena a call has used at its end. A creation allocates the data of the file
first. -/
def scratch : PathCall → Option ℕ
  | .create path =>
    if full r then some 0
    else match parse path with
      | .error _ => some 0
      | .ok cs => createScratch r true cs.reverse path 0
  | .mkdir path =>
    match parse path with
    | .error _ => some 0
    | .ok cs => createScratch r false cs.reverse path 0
  | .open path | .unlink path | .rmdir path => parseScratch path 0

/-! ## The loop that takes a path apart -/

/-- The segments between the slashes of a path, without the empty ones. -/
def segments (p : List UInt8) : List (List UInt8) := (p.splitOn 47).filter (· ≠ [])

/-- The loop of `path_name_parse`, with room for `max` components; `none` where its assertion
fails. -/
def splitLoop (max : ℕ) : List UInt8 → List (List UInt8) → Option (List (List UInt8))
  | [], out => some out
  | b :: src, out =>
    if max ≤ out.length then none
    else match (b :: src).idxOf? 47 with
      | none => some (out ++ [b :: src])
      | some 0 => splitLoop max src out
      | some (len + 1) => splitLoop max (src.drop (len + 1)) (out ++ [(b :: src).take (len + 1)])
termination_by src => src.length

/-- `path_name_parse` with its loop and its assertion. -/
def pathNameParse : Except Sfs.Errno (Option (List (List UInt8))) :=
  if path = [] then .error .einval
  else if pathNameMaxLen < path.length then .error .enametoolong
  else if path.head? ≠ some 47 then .error .einval
  else if 0 ∈ Sfs.stripTrailing path.tail then .error .einval
  else .ok (splitLoop (nameLen path / 2 + 1) (Sfs.stripTrailing path.tail) [])

theorem segments_append (p q : List UInt8) :
    segments (p ++ 47 :: q) = segments p ++ segments q := by
  rw [segments, splitOn_append_cons_self, filter_append]
  rfl

theorem segments_of_notMem {c : List UInt8} (hc : 47 ∉ c) (hne : c ≠ []) : segments c = [c] := by
  rw [segments, splitOn_eq_singleton hc]
  exact filter_cons_of_pos (decide_eq_true hne)

theorem segments_stripTrailing (p : List UInt8) : segments (Sfs.stripTrailing p) = segments p := by
  rw [Sfs.stripTrailing]
  split_ifs with h
  · obtain ⟨q, rfl⟩ := getLast?_eq_some_iff.mp h
    rw [dropLast_concat, segments_append]
    exact (append_nil _).symm
  · rfl

/-- The loop of `sfs_lookup` finds the same segments. -/
theorem filter_components (p : List UInt8) : (Sfs.components p).filter (· ≠ []) = segments p := by
  have hsplit : p.splitOn 47 = Sfs.components p ∨ p.splitOn 47 = Sfs.components p ++ [[]] := by
    induction p with
    | nil => exact .inr rfl
    | cons b p ih =>
      rw [splitOn_cons_eq_if_modifyHead, Sfs.components]
      by_cases hb : b = 47
      · rw [if_pos (beq_iff_eq.mpr hb), if_pos hb]
        exact ih.imp (congrArg ([] :: ·)) (congrArg ([] :: ·))
      · rw [if_neg fun h ↦ hb (beq_iff_eq.mp h), if_neg hb]
        cases hc : Sfs.components p <;> rcases ih with ih | ih <;> rw [ih, hc]
        · exact absurd (ih.trans hc) (splitOn_ne_nil _ _)
        · exact .inl rfl
        · exact .inl rfl
        · exact .inr rfl
  rcases hsplit with h | h <;> rw [segments, h]
  rw [filter_append]
  exact (append_nil _).symm

/-- Where `str_find_char` finds a slash. -/
theorem idxOf?_slash {p : List UInt8} {len : ℕ} (h : p.idxOf? 47 = some len) :
    p = p.take len ++ 47 :: p.drop (len + 1) ∧ 47 ∉ p.take len ∧ len < p.length := by
  obtain ⟨hlt, hget, hbefore⟩ := idxOf?_eq_some_iff.mp h
  refine ⟨?_, fun hmem ↦ ?_, hlt⟩
  · rw [← hget, ← drop_eq_getElem_cons hlt, take_append_drop]
  · obtain ⟨j, hj, hj47⟩ := mem_take_iff_getElem.mp hmem
    exact hbefore j (by omega) hj47

/-- **The loop** finds the segments that are left. Each one but the last takes two bytes or more, so
there is room for it. -/
theorem splitLoop_eq {max : ℕ} (src : List UInt8) (out : List (List UInt8))
    (hroom : 2 * out.length + src.length < 2 * max) :
    splitLoop max src out = some (out ++ segments src) ∧ (out ++ segments src).length ≤ max := by
  induction src, out using splitLoop.induct max with
  | case1 out =>
    have hnil : segments [] = [] := rfl
    rw [splitLoop, hnil, append_nil]
    exact ⟨rfl, by omega⟩
  | case2 b src out hfull =>
    omega
  | case3 b src out hfull hidx =>
    rw [splitLoop, if_neg hfull, hidx,
      segments_of_notMem (idxOf?_eq_none_iff.mp hidx) (cons_ne_nil b src),
      length_append]
    exact ⟨rfl, Nat.lt_of_not_le hfull⟩
  | case4 b src out hfull hidx ih =>
    rw [splitLoop, if_neg hfull, (idxOf?_slash hidx).1]
    rw [length_cons] at hroom
    exact ih (by omega)
  | case5 b src out hfull len hidx ih =>
    obtain ⟨hsplit, hslash, hlen⟩ := idxOf?_slash hidx
    have hseg := segments_of_notMem hslash (cons_ne_nil b _)
    rw [splitLoop, if_neg hfull, hidx, hsplit, segments_append, hseg, ← append_assoc, ← hsplit]
    rw [length_cons] at hroom hlen
    refine ih ?_
    rw [length_append, length_drop, length_singleton]
    omega

theorem splitLoop_name : splitLoop (nameLen path / 2 + 1) (Sfs.stripTrailing path.tail) [] =
      some (segments (Sfs.stripTrailing path.tail)) ∧
    (segments (Sfs.stripTrailing path.tail)).length ≤ nameLen path / 2 + 1 := by
  refine splitLoop_eq _ [] ?_
  rw [length_nil, nameLen]
  omega

/-- The loop gives the components of `parse`. -/
theorem pathNameParse_eq : pathNameParse path = (parse path).map some := by
  rw [pathNameParse, parse, pathNameMaxLen, filter_components, (splitLoop_name path).1]
  split_ifs <;> rfl

/-- **Paths are taken apart at their slashes**: no assertion fails, the components are the segments
that are not empty, in order, and the array has room for them. -/
theorem pathNameParse_spec (p : List UInt8) : (∃ e, pathNameParse p = .error e) ∨
    pathNameParse p = .ok (some (segments p)) ∧ (segments p).length ≤ nameLen p / 2 + 1 := by
  obtain ⟨hloop, hlen⟩ := splitLoop_name p
  rw [pathNameParse, hloop]
  split_ifs with hnil hlong hhead hzero
  · exact .inl ⟨_, rfl⟩
  · exact .inl ⟨_, rfl⟩
  · exact .inl ⟨_, rfl⟩
  · exact .inl ⟨_, rfl⟩
  · obtain ⟨q, rfl⟩ := head?_eq_some_iff.mp (not_not.mp hhead)
    have hseg : segments (Sfs.stripTrailing q) = segments (47 :: q) :=
      (segments_stripTrailing q).trans (segments_append [] q).symm
    rw [tail_cons, hseg] at hlen ⊢
    exact .inr ⟨rfl, hlen⟩

/-! ## Parsing a path that was put together -/

/-- The components that a path parses into. -/
def Proper (c : List UInt8) : Prop := c ≠ [] ∧ 47 ∉ c ∧ 0 ∉ c

theorem zero_notMem_intercalate {cs : List (List UInt8)} (hcs : ∀ c ∈ cs, Proper c) :
    0 ∉ [47].intercalate cs := by
  induction cs with
  | nil => exact not_mem_nil
  | cons c cs ih =>
    have hc := (hcs c mem_cons_self).2.2
    have hrest := ih fun c h ↦ hcs c (mem_cons_of_mem _ h)
    cases cs with
    | nil => rwa [intercalate_singleton]
    | cons d cs =>
      have hjoin : [47].intercalate (c :: d :: cs) = c ++ 47 :: [47].intercalate (d :: cs) := rfl
      rw [hjoin, mem_append, mem_cons]
      exact not_or.mpr ⟨hc, not_or.mpr ⟨by decide, hrest⟩⟩

/-- **The path of the parent** parses into its components. -/
theorem parse_pathNameToStr {cs : List (List UInt8)} (hne : cs ≠ []) (hcs : ∀ c ∈ cs, Proper c)
    (hlen : (pathNameToStr cs).length ≤ pathNameMaxLen) : parse (pathNameToStr cs) = .ok cs := by
  have hzero : 0 ∉ Sfs.stripTrailing ([47].intercalate cs) := by
    intro h
    rw [Sfs.stripTrailing] at h
    split_ifs at h
    · exact zero_notMem_intercalate hcs (mem_of_mem_dropLast h)
    · exact zero_notMem_intercalate hcs h
  have hseg : segments ([47].intercalate cs) = cs := by
    rw [segments, splitOn_intercalate 47 (fun c hc ↦ (hcs c hc).2.1) hne]
    exact filter_eq_self.mpr fun c hc ↦ decide_eq_true (hcs c hc).1
  have hlen' : ¬0x1000 < (pathNameToStr cs).length := not_lt.mpr hlen
  have hnil : pathNameToStr cs ≠ [] := cons_ne_nil _ _
  have hhead : ¬(pathNameToStr cs).head? ≠ some 47 := not_not.mpr rfl
  rw [parse, if_neg hnil, if_neg hlen', if_neg hhead, pathNameToStr, tail_cons, if_neg hzero,
    filter_components, segments_stripTrailing, hseg]

theorem parse_pathNameToStr_two :
    parse (pathNameToStr [[97], [98, 99]]) = .ok [[97], [98, 99]] :=
  parse_pathNameToStr (by decide) (by simp [Proper]) (by decide)

/-! ## How much is needed -/

/-- The memory for parsing a path, from an aligned position on. -/
def parseSize : ℕ := 8 * ((nameLen path + 7) / 8) + 16 * (nameLen path / 2 + 1)

/-- The ancestors of a path that are missing, the longest first; from the last component on. -/
def missing (up : List (List UInt8)) : List (List (List UInt8)) :=
  up.tails.takeWhile fun u ↦ (lookup r u.reverse r.root).isNone

/-- The path and its missing ancestors fit into the arena together. -/
def CreateFits (cs : List (List UInt8)) (path : List UInt8) : Prop :=
  parseSize path + ((missing r cs.reverse.tail).map fun u ↦
    pathNameMaxLen + parseSize (pathNameToStr u.reverse)).sum ≤ 4 * pathNameMaxLen

/-- A call that parses its path once needs a path of at most 1819 bytes between the slash at its
beginning and one at its end. A creation needs room for the missing ancestors too. -/
def ScratchFits : PathCall → Prop
  | .create path => full r = false → ∀ cs, parse path = .ok cs → CreateFits r cs path
  | .open path | .mkdir path | .unlink path | .rmdir path =>
    ∀ cs, parse path = .ok cs → nameLen path ≤ 1819

theorem missing_nil : missing r [] = [] := rfl

theorem missing_cons (c : List UInt8) (up : List (List UInt8)) :
    missing r (c :: up) = if (lookup r (c :: up).reverse r.root).isNone then
      (c :: up) :: missing r up else [] := by
  rw [missing, List.tails, takeWhile_cons]
  rfl

theorem parseSize_mod : parseSize path % 8 = 0 := by
  rw [parseSize]
  omega

theorem arenaAlloc_eq (size : ℕ) {beg : ℕ} (hbeg : beg % 8 = 0) : arenaAlloc size beg =
    if beg + size ≤ 4 * pathNameMaxLen then some (beg + size) else none := by
  rw [arenaAlloc, hbeg]
  rfl

theorem parseAlloc_eq {beg : ℕ} (hbeg : beg % 8 = 0) : parseAlloc (nameLen path) beg =
      if beg + parseSize path ≤ 4 * pathNameMaxLen then some (beg + parseSize path) else none := by
  rw [parseSize, parseAlloc, arenaAlloc_eq _ hbeg]
  generalize nameLen path = len
  by_cases hfit : beg + len ≤ 4 * pathNameMaxLen
  · -- the array is aligned again
    have hpad : beg + len + (8 - (beg + len) % 8) % 8 = beg + 8 * ((len + 7) / 8) := by omega
    rw [if_pos hfit, bind_some, arenaAlloc, hpad, Nat.add_assoc]
  · rw [if_neg hfit, if_neg (by omega), bind_none]

theorem isSome_parseAlloc_iff : (parseAlloc (nameLen path) 0).isSome ↔ nameLen path ≤ 1819 := by
  rw [parseAlloc_eq path rfl, parseSize, pathNameMaxLen]
  split_ifs <;> simp <;> omega

theorem isSome_createScratch_iff (up : List (List UInt8)) (name path : List UInt8) {beg : ℕ}
    (hbeg : beg % 8 = 0) : (createScratch r true (name :: up) path beg).isSome ↔
      beg + parseSize path + ((missing r up).map fun u ↦
        pathNameMaxLen + parseSize (pathNameToStr u.reverse)).sum ≤ 4 * pathNameMaxLen := by
  have hpath := parseSize_mod path
  induction up generalizing name path beg with
  | nil =>
    have hroot : ¬((lookup r [].reverse r.root).isNone = true ∧ true = true) := by
      simp [lookup]
    rw [createScratch, parseAlloc_eq path hbeg, missing_nil]
    by_cases hfit : beg + parseSize path ≤ 4 * pathNameMaxLen
    · rw [if_pos hfit, bind_some, if_neg hroot]
      simpa using hfit
    · rw [if_neg hfit]
      simpa using hfit
  | cons c up ih =>
    rw [createScratch, parseAlloc_eq path hbeg, missing_cons]
    by_cases hfit : beg + parseSize path ≤ 4 * pathNameMaxLen
    · rw [if_pos hfit, bind_some]
      by_cases hl : (lookup r (c :: up).reverse r.root).isNone = true
      · rw [if_pos ⟨hl, rfl⟩, if_pos hl, arenaAlloc_eq _ (by omega), map_cons, sum_cons]
        split_ifs with hcopy
        · have halign : (beg + parseSize path + pathNameMaxLen) % 8 = 0 := by
            rw [pathNameMaxLen]
            omega
          have hrest := ih c (pathNameToStr (c :: up).reverse) halign (parseSize_mod _)
          exact hrest.trans (by omega)
        · simp only [bind_none, isSome_none, Bool.false_eq_true, false_iff]
          omega
      · rw [if_neg fun h ↦ hl h.1, if_neg hl]
        simpa using hfit
    · rw [if_neg hfit]
      simp only [bind_none, isSome_none, Bool.false_eq_true, false_iff]
      omega

/-- **The scratch arena is enough** exactly for the calls that fit; another call halts the
kernel. -/
theorem scratch_isSome_iff (r : RamFs) (e : PathCall) : (scratch r e).isSome ↔ ScratchFits r e := by
  have hparse : ∀ path, (parseScratch path 0).isSome ↔ ∀ cs, parse path = .ok cs →
      nameLen path ≤ 1819 := by
    intro path
    rw [parseScratch]
    cases parse path with
    | error => simp
    | ok cs => simp [isSome_parseAlloc_iff]
  cases e with
  | create path =>
    rw [scratch, ScratchFits]
    by_cases hfull : full r = true
    · simp [hfull]
    · rw [if_neg hfull]
      cases hp : parse path with
      | error => simp
      | ok cs =>
        simp only [hfull, Except.ok.injEq, forall_eq', CreateFits]
        cases hcs : cs.reverse with
        | nil =>
          rw [createScratch, parseAlloc_eq path rfl, tail_nil, missing_nil]
          split_ifs with hfit <;> simpa using hfit
        | cons name up => simpa using isSome_createScratch_iff r up name path (Nat.zero_mod 8)
  | mkdir path =>
    rw [ScratchFits, ← hparse, scratch, parseScratch]
    cases parse path with
    | error => rfl
    | ok cs => cases hcs : cs.reverse <;> simp [createScratch, hcs]
  | «open» path | unlink path | rmdir path => exact hparse path

/-- **A short path can exhaust the arena**, and so can opening a long one. Four directories are
missing in the first call; the second is a path that the HTTP server lets through. -/
theorem not_scratch_isSome :
    scratch (new 8 []) (.create [47, 97, 47, 98, 47, 99, 47, 100, 47, 101]) = none ∧
    (47 :: List.replicate 1820 97).length ≤ 2048 ∧
    scratch (new 8 []) (.open (47 :: List.replicate 1820 97)) = none := by
  decide +kernel

end Mazu.Fs.Ramfs
