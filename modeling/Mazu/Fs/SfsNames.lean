import Mazu.Fs.SfsTidy

/-!
# Names and the tree of directories

The entries in use form a tree under entry 0, and the names in a directory differ; a path that was
created is found until it is removed. Names end at a zero byte on the device but not in a path, and
`sfs_lookup` and `sfs_lookup_parent` differ on an empty component, so the paths of creations are
restricted.
-/

namespace Mazu.Fs.Sfs

open List

/-! ## Trees of entries -/

section Tree

variable {e e' : ℕ → Entry} {i k p : ℕ} {cs cs' : List (List UInt8)} {x : Entry}

def Used (e : ℕ → Entry) (i : ℕ) : Prop := i < maxDirents ∧ (e i).type ≠ typeFree

/-- The names lead from the root through directories to the entry. -/
inductive At (e : ℕ → Entry) : List (List UInt8) → ℕ → Prop
  | root : At e [] 0
  | child {cs : List (List UInt8)} {p i : ℕ} (h : At e cs p) (hdir : (e p).type = typeDir)
    (hi : Used e i) (hp : (e i).parentIdx = p) : At e (cs ++ [(e i).name]) i

/-- Every entry in use is below entry 0, and no two in a directory have the same name. -/
structure Tree (e : ℕ → Entry) : Prop where
  root : (e 0).type = typeDir
  top : (e 0).parentIdx = 65535
  rooted : ∀ i, Used e i → ∃ cs, At e cs i
  distinct : ∀ i j, Used e i → Used e j → (e i).parentIdx = (e j).parentIdx →
    (e i).name = (e j).name → i = j

theorem At.lt (h : At e cs i) : i < maxDirents := by
  cases h with
  | root => decide
  | child _ _ hi _ => exact hi.1

theorem At.parentIdx_ne (h : At e cs p) : p ≠ 65535 := (h.lt.trans (by decide)).ne

/-- The way to an entry is unique, since each entry names its parent. -/
theorem At.unique (htop : (e 0).parentIdx = 65535) (h : At e cs i) (h' : At e cs' i) :
    cs = cs' := by
  induction h generalizing cs' with
  | root =>
    cases h' with
    | root => rfl
    | child h' _ _ hp' => exact absurd (hp'.symm.trans htop) h'.parentIdx_ne
  | child h _ _ hp ih =>
    cases h' with
    | root => exact absurd (hp.symm.trans htop) h.parentIdx_ne
    | child h' _ _ hp' =>
      obtain rfl := hp.symm.trans hp'
      rw [ih h']

theorem Tree.parent (h : Tree e) (hi : Used e i) (hp : (e i).parentIdx = p) (hlt : p < maxDirents) :
    (e p).type = typeDir := by
  obtain ⟨cs, hat⟩ := h.rooted i hi
  cases hat with
  | root => exact absurd (hp.symm.trans h.top) (hlt.trans (by decide)).ne
  | child _ hdir _ hp' => rwa [← hp, hp']

/-- A new entry goes into a directory where its name is not taken. -/
theorem Tree.insert (h : Tree e) (hk : k < maxDirents) (hfree : (e k).type = typeFree)
    (he : ∀ j < maxDirents, e' j = if j = k then x else e j) (hat : At e cs p)
    (hdir : (e p).type = typeDir) (hp : x.parentIdx = p) (hx : x.type ≠ typeFree)
    (hnew : ∀ j, Used e j → (e j).parentIdx = p → (e j).name ≠ x.name) :
    Tree e' ∧ (∀ cs i, At e cs i → At e' cs i) ∧ At e' (cs ++ [x.name]) k := by
  have hek : e' k = x := (he k hk).trans (if_pos rfl)
  have hkeep : ∀ j, Used e j → e' j = e j := by
    refine fun j hj ↦ (he j hj.1).trans (if_neg ?_)
    rintro rfl
    exact hj.2 hfree
  have hold : ∀ j, Used e' j → j = k ∨ Used e j := by
    intro j hj
    by_cases hjk : j = k
    · exact .inl hjk
    · rw [Used, he j hj.1, if_neg hjk] at hj
      exact .inr hj
  have hdir' : ∀ q, q < maxDirents → (e q).type = typeDir → (e' q).type = typeDir := by
    intro q hq hd
    rw [hkeep q ⟨hq, by rw [hd]; decide⟩, hd]
  have hall : ∀ cs i, At e cs i → At e' cs i := by
    intro cs i hcs
    induction hcs with
    | root => exact .root
    | child h hd hi hq ih =>
      rw [← hkeep _ hi] at hq ⊢
      exact .child ih (hdir' _ h.lt hd) ⟨hi.1, by rw [hkeep _ hi]; exact hi.2⟩ hq
  have hnewAt : At e' (cs ++ [x.name]) k := by
    have := At.child (hall _ _ hat) (hdir' p hat.lt hdir) ⟨hk, by rwa [hek]⟩ (by rwa [hek])
    rwa [hek] at this
  have hroot := hkeep 0 ⟨by decide, by rw [h.root]; decide⟩
  refine ⟨⟨by rw [hroot, h.root], by rw [hroot, h.top], fun j hj ↦ ?_, fun i j hi hj hpar hn ↦ ?_⟩,
    hall, hnewAt⟩
  · rcases hold j hj with rfl | hj
    · exact ⟨_, hnewAt⟩
    · exact (h.rooted j hj).imp fun cs hcs ↦ hall cs j hcs
  · rcases hold i hi with rfl | hi
    · rcases hold j hj with rfl | hj
      · rfl
      · rw [hek, hkeep j hj] at hpar hn
        exact absurd hn.symm (hnew j hj (hpar.symm.trans hp))
    · rcases hold j hj with rfl | hj
      · rw [hek, hkeep i hi] at hpar hn
        exact absurd hn (hnew i hi (hpar.trans hp))
      · rw [hkeep i hi, hkeep j hj] at hpar hn
        exact h.distinct i j hi hj hpar hn

/-- An entry without children goes away; it was no part of any other entry's way. -/
theorem Tree.remove (h : Tree e) (h0 : k ≠ 0) (hleaf : ∀ j, Used e j → (e j).parentIdx ≠ k)
    (he : ∀ j < maxDirents, e' j = if j = k then x else e j) (hx : x.type = typeFree) :
    Tree e' ∧ ∀ cs i, At e cs i → i ≠ k → At e' cs i := by
  have hkeep : ∀ j < maxDirents, j ≠ k → e' j = e j := fun j hj hne ↦ (he j hj).trans (if_neg hne)
  have hold : ∀ j, Used e' j → j ≠ k ∧ Used e j ∧ e' j = e j := by
    intro j hj
    have hne : j ≠ k := by
      rintro rfl
      exact hj.2 (by rw [he j hj.1, if_pos rfl, hx])
    have := hkeep j hj.1 hne
    exact ⟨hne, ⟨hj.1, this ▸ hj.2⟩, this⟩
  have hall : ∀ cs i, At e cs i → i ≠ k → At e' cs i := by
    intro cs i hcs
    induction hcs with
    | root => exact fun _ ↦ .root
    | @child cs p i h hd hi hq ih =>
      intro hne
      have hpk : p ≠ k := fun hpk ↦ hleaf i hi (hq.trans hpk)
      have hei := hkeep i hi.1 hne
      rw [← hei] at hq ⊢
      exact .child (ih hpk) (by rw [hkeep p h.lt hpk, hd]) ⟨hi.1, by rw [hei]; exact hi.2⟩ hq
  have hroot := hkeep 0 (by decide) h0.symm
  refine ⟨⟨by rw [hroot, h.root], by rw [hroot, h.top], fun j hj ↦ ?_, fun i j hi hj hpar hn ↦ ?_⟩,
    hall⟩
  · obtain ⟨hne, hj, -⟩ := hold j hj
    exact (h.rooted j hj).imp fun cs hcs ↦ hall cs j hcs hne
  · obtain ⟨-, hi, hei⟩ := hold i hi
    obtain ⟨-, hj, hej⟩ := hold j hj
    rw [hei, hej] at hpar hn
    exact h.distinct i j hi hj hpar hn

end Tree

/-! ## Paths -/

def names (path : List UInt8) : List (List UInt8) :=
  components (stripTrailing (stripLeading path))

/-- The part of a path before its last slash. -/
def dirName (p : List UInt8) : List UInt8 := p.take (p.length - (baseName p).length - 1)

theorem components_ne_nil {l : List UInt8} (h : l ≠ []) : components l ≠ [] := by
  cases l with
  | nil => exact absurd rfl h
  | cons b l =>
    rw [components]
    split_ifs
    · exact nofun
    · split <;> exact nofun

theorem components_of_notMem {l : List UInt8} (hne : l ≠ []) (h : 47 ∉ l) : components l = [l] := by
  induction l with
  | nil => exact absurd rfl hne
  | cons b l ih =>
    rw [mem_cons, not_or] at h
    rw [components, if_neg (Ne.symm h.1)]
    cases l with
    | nil => rfl
    | cons c l => rw [ih nofun h.2]

theorem components_append {q : List UInt8} (hq : q ≠ []) (hlast : q.getLast? ≠ some 47)
    (b : List UInt8) : components (q ++ 47 :: b) = components q ++ components b := by
  induction q with
  | nil => exact absurd rfl hq
  | cons a q ih =>
    rw [cons_append, components, components]
    rcases eq_or_ne q [] with rfl | hne
    · have ha : a ≠ 47 := by
        rintro rfl
        exact hlast rfl
      rw [if_neg ha, if_neg ha]
      rfl
    · have hlast' : q.getLast? ≠ some 47 := by
        obtain ⟨c, q, rfl⟩ := exists_cons_of_ne_nil hne
        rwa [getLast?_cons_cons] at hlast
      rw [ih hne hlast']
      obtain ⟨c, r, hr⟩ := exists_cons_of_ne_nil (components_ne_nil hne)
      rw [hr]
      split_ifs <;> rfl

theorem dirName_append_baseName {p : List UInt8} (h : 47 ∈ p) :
    p = dirName p ++ 47 :: baseName p ∧ 47 ∉ baseName p := by
  obtain ⟨b, q, hp, hb⟩ := eq_append_cons_of_mem (mem_reverse.mpr h)
  have hbase : baseName p = b.reverse := by
    rw [baseName, hp, takeWhile_append_of_pos fun c hc ↦
      decide_eq_true (ne_of_mem_of_not_mem hc hb), takeWhile_cons_of_neg (by decide),
      append_nil]
  have hsplit : p = q.reverse ++ 47 :: b.reverse := by
    rw [← reverse_reverse p, hp]
    simp
  have hdir : dirName p = q.reverse := by
    rw [dirName, hbase, hsplit, length_append, length_cons,
      show ∀ x y : ℕ, x + (y + 1) - y - 1 = x by omega, take_left]
  rw [hdir, hbase, mem_reverse]
  exact ⟨hsplit, hb⟩

/-- The last component of the path has no zero byte, and the one before it is not empty. -/
def Plain (path : List UInt8) : Prop :=
  0 ∉ baseName (stripTrailing (stripLeading path)) ∧
    (47 ∈ stripTrailing (stripLeading path) → dirName (stripTrailing (stripLeading path)) ≠ [] ∧
      (dirName (stripTrailing (stripLeading path))).getLast? ≠ some 47)

instance (path : List UInt8) : Decidable (Plain path) := inferInstanceAs (Decidable (_ ∧ _))

theorem name_newEntry {name : List UInt8} (hlen : name.length ≤ 47) (h0 : 0 ∉ name) (type : UInt8)
    (parent : ℕ) : Entry.name (fun b ↦ newEntry name type parent (b % 64)) = name := by
  have hmap : (List.range 48).map (fun b ↦ newEntry name type parent (b % 64)) =
      name ++ List.replicate (48 - name.length) 0 := by
    refine ext_getElem (by simp; omega) fun b hb _ ↦ ?_
    rw [length_map, length_range] at hb
    rw [getElem_map, getElem_range, newEntry, Nat.mod_eq_of_lt (by omega), getElem_append]
    split_ifs with hlt
    · exact getD_eq_getElem _ _ hlt
    · rw [getElem_replicate, getD_eq_default _ _ (by omega)]
  rw [Entry.name, hmap, takeWhile_append_of_pos fun c hc ↦
    decide_eq_true (ne_of_mem_of_not_mem hc h0), takeWhile_replicate, if_neg (by decide),
    append_nil]

theorem parentIdx_newEntry {parent : ℕ} (h : parent < maxDirents) (name : List UInt8)
    (type : UInt8) : Entry.parentIdx (fun b ↦ newEntry name type parent (b % 64)) = parent := by
  have h256 : parent < 256 := h
  show (UInt8.ofNat parent).toNat + 256 * (UInt8.ofNat (parent / 256)).toNat = parent
  rw [UInt8.toNat_ofNat', UInt8.toNat_ofNat']
  omega

/-! ## Lookups -/

section Lookup

variable {su : Super} {d : ℕ → Sector} {i p : ℕ} {cs : List (List UInt8)} {P : UInt8 → Bool}

theorem run_walk_single (hg : Geometry su) (P : UInt8 → Bool) (c : List UInt8) (p : ℕ) :
    ∃ r, (walk su P [c] p).run d = (r, d) ∧ ((r = maxDirents ∧ ∀ j < maxDirents,
      P (ent su d j).type = true → (ent su d j).parentIdx = p → (ent su d j).name ≠ c) ∨
      (r < maxDirents ∧ P (ent su d r).type = true ∧ (ent su d r).parentIdx = p ∧
        (ent su d r).name = c)) := by
  obtain ⟨r, hrun, hr⟩ := run_findDirent su d (fun j e ↦ j ≠ maxDirents ∧ P e.type ∧
    e.parentIdx = p ∧ e.name = c) su.nDirents 0
  rw [walk, Prog.run_bind, hrun, hg.dirents] at *
  by_cases hmax : r = maxDirents
  · refine ⟨maxDirents, by rw [if_pos hmax]; rfl, .inl ⟨rfl, fun j hj hP hp hc ↦ ?_⟩⟩
    rcases hr with ⟨-, hnone⟩ | ⟨hlt, -⟩
    · exact of_decide_eq_false (hnone j (Nat.zero_le j) hj) ⟨hj.ne, hP, hp, hc⟩
    · exact absurd hmax hlt.ne
  · obtain ⟨hlt, hP⟩ := hr.resolve_left fun h ↦ hmax h.1
    refine ⟨r, ?_, .inr ⟨hlt, (of_decide_eq_true hP).2⟩⟩
    simp only [if_neg hmax, Nat.mod_eq_of_lt (hlt.trans (show maxDirents < 65536 by decide))]
    rfl

theorem run_walk_append (hg : Geometry su) (hp : p < maxDirents) (cs cs' : List (List UInt8)) :
    (walk su P (cs ++ cs') p).run d = if ((walk su P cs p).run d).1 = maxDirents
      then (maxDirents, d) else (walk su P cs' ((walk su P cs p).run d).1).run d := by
  induction cs generalizing p with
  | nil => exact (if_neg hp.ne).symm
  | cons c cs ih =>
    obtain ⟨r, hrun, hr⟩ := run_findDirent su d (fun j e ↦ j ≠ maxDirents ∧ P e.type ∧
      e.parentIdx = p ∧ e.name = c) su.nDirents 0
    rw [cons_append, walk, walk, Prog.run_bind, Prog.run_bind, hrun]
    by_cases hmax : r = maxDirents
    · simp only [if_pos hmax, Prog.run_pure, if_true]
    · have hlt := (hr.resolve_left fun h ↦ hmax h.1).1
      rw [hg.dirents] at hlt
      simp only [if_neg hmax, Nat.mod_eq_of_lt (hlt.trans (show maxDirents < 65536 by decide))]
      exact ih hlt

theorem run_walk_of_at (hg : Geometry su) (h : Tree (ent su d)) (hat : At (ent su d) cs i) :
    (walk su (· ≠ typeFree) cs 0).run d = (i, d) := by
  induction hat with
  | root => rfl
  | @child cs p i hat _ hi hp ih =>
    obtain ⟨r, hrun, hr⟩ := run_walk_single hg (· ≠ typeFree) (ent su d i).name p
    rw [run_walk_append hg (by decide), ih, if_neg hat.lt.ne, hrun]
    rcases hr with ⟨-, hnone⟩ | ⟨hlt, hused, hp', hc⟩
    · exact absurd rfl (hnone i hi.1 (decide_eq_true hi.2) hp)
    · rw [h.distinct r i ⟨hlt, of_decide_eq_true hused⟩ hi (hp'.trans hp.symm) hc]

theorem at_of_run_walk (hg : Geometry su) (h : Tree (ent su d))
    (hP : ∀ t, P t = true → t ≠ typeFree) (hroot : P (ent su d 0).type = true)
    (hrun : (walk su P cs 0).run d = (i, d)) (hi : i ≠ maxDirents) : At (ent su d) cs i := by
  induction cs using reverseRecOn generalizing i with
  | nil =>
    obtain rfl : 0 = i := congrArg Prod.fst hrun
    exact .root
  | append_singleton cs c ih =>
    obtain ⟨p, hp, hlt⟩ := run_walk hg P cs ⟨by decide, hroot⟩
    rw [run_walk_append hg (by decide), hp] at hrun
    split_ifs at hrun with hmax
    · exact absurd (congrArg Prod.fst hrun).symm hi
    · obtain ⟨r, hr, hfound⟩ := run_walk_single hg P c p
      obtain rfl : r = i := congrArg Prod.fst (hr.symm.trans hrun)
      obtain ⟨hrlt, hused, hpar, rfl⟩ := hfound.resolve_left fun h ↦ hi h.1
      have hu : Used (ent su d) r := ⟨hrlt, hP _ hused⟩
      have hlt := (hlt.resolve_left hmax).1
      exact .child (ih hp hmax) (h.parent hu hpar hlt) hu hpar

theorem run_lookup_eq (path : List UInt8) :
    (lookup su path).run d = (walk su (· ≠ typeFree) (names path) 0).run d := by
  rw [lookup]
  split_ifs with hnil
  · rw [names, hnil]
    rfl
  · rfl

/-- The directory and the name of a plain path. -/
theorem names_of_lookupParent (hl : Layout su d) (h : Tree (ent su d)) {path name : List UInt8}
    (hpath : Plain path) (hrun : (lookupParent su path).run d = ((p, name), d))
    (hp : p ≠ maxDirents) (hname : name.length ≠ 0) : ∃ cs, names path = cs ++ [name] ∧ 0 ∉ name ∧
      At (ent su d) cs p ∧ (ent su d p).type = typeDir := by
  obtain ⟨h0, hslash⟩ := hpath
  simp only [lookupParent] at hrun
  rw [names]
  generalize stripTrailing (stripLeading path) = q at *
  by_cases hq : 47 ∉ q
  · rw [if_pos hq] at hrun
    obtain ⟨rfl, rfl⟩ : 0 = p ∧ q = name := Prod.mk.inj (congrArg Prod.fst hrun)
    have hbase : baseName q = q := by
      rw [baseName, takeWhile_eq_self_iff.mpr fun c hc ↦ decide_eq_true
        (ne_of_mem_of_not_mem (mem_reverse.mp hc) hq), reverse_reverse]
    rw [hbase] at h0
    have hne : q ≠ [] := by
      rintro rfl
      exact hname rfl
    exact ⟨[], components_of_notMem hne hq, h0, .root, hl.root⟩
  · rw [if_neg hq, Prog.run_bind] at hrun
    have hroot : decide ((ent su d 0).type = typeDir) = true := decide_eq_true hl.root
    obtain ⟨r, hwalk, hr⟩ := run_walk hl.geom (· = typeDir) (components (dirName q))
      ⟨by decide, hroot⟩
    have hwalk' := hwalk
    rw [dirName] at hwalk'
    rw [hwalk'] at hrun
    obtain ⟨rfl, rfl⟩ : r = p ∧ baseName q = name := Prod.mk.inj (congrArg Prod.fst hrun)
    obtain ⟨hsplit, hno⟩ := dirName_append_baseName (not_not.mp hq)
    obtain ⟨hne, hlast⟩ := hslash (not_not.mp hq)
    refine ⟨components (dirName q), ?_, h0, at_of_run_walk hl.geom h (fun t ht ↦ ?_) hroot hwalk hp,
      of_decide_eq_true (hr.resolve_left hp).2⟩
    · have hb : baseName q ≠ [] := fun h ↦ hname (by rw [h]; rfl)
      rw [← components_of_notMem hb hno, ← components_append hne hlast, ← hsplit]
    · rw [of_decide_eq_true ht]
      decide

end Lookup

/-! ## Runs -/

/-- A file system, and the paths that were created and not removed. -/
structure Named where
  st : State
  made : List (List UInt8)

inductive NameOp
  | create (path : List UInt8)
  | mkdir (path : List UInt8)
  | unlink (path : List UInt8)
  | rmdir (path : List UInt8)

def Named.make (t : Named) (type : UInt8) (path : List UInt8) : Named :=
  let r := (createEntry t.st.super type path).run t.st.disk
  ⟨⟨t.st.super, r.2⟩, if r.1.isOk = true then path :: t.made else t.made⟩

def Named.drop (t : Named) (path : List UInt8) (st : State) (ok : Bool) : Named :=
  ⟨st, if ok = true then t.made.filter (names · ≠ names path) else t.made⟩

def Named.step (t : Named) : NameOp → Option Named
  | .create path => some (t.make typeFile path)
  | .mkdir path => some (t.make typeDir path)
  | .unlink path =>
    let r := (Sfs.unlink t.st.super path).run t.st.disk
    some (t.drop path ⟨r.1.2, r.2⟩ r.1.1.isOk)
  | .rmdir path =>
    let r := (Sfs.rmdir t.st.super path).run t.st.disk
    some (t.drop path ⟨t.st.super, r.2⟩ r.1.isOk)

def NameOp.Plain (_ : Named) : NameOp → Prop
  | .create path | .mkdir path => Sfs.Plain path
  | _ => True

instance (t : Named) (op : NameOp) : Decidable (op.Plain t) := by
  cases op <;> unfold NameOp.Plain <;> infer_instance

structure Named.Ok (t : Named) : Prop where
  layout : Layout t.st.super t.st.disk
  tree : Tree (ent t.st.super t.st.disk)
  found : ∀ p ∈ t.made, ∃ i, At (ent t.st.super t.st.disk) (names p) i

theorem Named.Ok.make {t : Named} (h : t.Ok) {type : UInt8} {path : List UInt8}
    (htype : type = typeFile ∨ type = typeDir) (hk : Plain path) : (t.make type path).Ok := by
  have hl := (h.layout.run_createEntry htype path).1
  obtain ⟨r, d', hrun, ⟨rfl, hr⟩ | ⟨hr, k, hlt, hfree, p, name, hlook, hpar, hp, hlen, hle, he⟩⟩ :=
    Sfs.run_createEntry h.layout type path
  · simp only [Named.make, hrun, hr, if_false]
    exact h
  · rw [hrun] at hl
    simp only [Named.make, hrun, hr]
    obtain ⟨cs, hnames, h0, hat, hdir⟩ := names_of_lookupParent h.layout h.tree hk hpar hp hlen
    have hname := name_newEntry hle h0 type p
    have hx : type ≠ typeFree := by rcases htype with rfl | rfl <;> decide
    obtain ⟨htree, hall, hnew⟩ := h.tree.insert hlt hfree he.entry hat hdir
      (parentIdx_newEntry hat.lt name type) hx fun j hj hpj hn ↦ by
        have hj' := run_walk_of_at h.layout.geom h.tree (.child hat hdir hj hpj)
        rw [hn, hname, ← hnames, ← run_lookup_eq, hlook] at hj'
        exact hj.1.ne (congrArg Prod.fst hj').symm
    rw [hname, ← hnames] at hnew
    refine ⟨hl, htree, fun q hq ↦ ?_⟩
    rcases mem_cons.mp hq with rfl | hq
    · exact ⟨k, hnew⟩
    · exact (h.found q hq).imp fun i hi ↦ hall _ i hi

theorem Named.Ok.remove {t : Named} (h : t.Ok) {path : List UInt8} {su : Super} {d : ℕ → Sector}
    {i : ℕ} (hl : Layout su d) (h0 : i ≠ 0) (hi : i ≠ maxDirents)
    (hlook : (lookup t.st.super path).run t.st.disk = (i, t.st.disk))
    (hleaf : ∀ j, Used (ent t.st.super t.st.disk) j → (ent t.st.super t.st.disk j).parentIdx ≠ i)
    (he : ∀ j < maxDirents, ent su d j =
      if j = i then fun b ↦ setFree (ent t.st.super t.st.disk i) (b % 64)
      else ent t.st.super t.st.disk j) : (t.drop path ⟨su, d⟩ true).Ok := by
  obtain ⟨htree, hall⟩ := h.tree.remove h0 hleaf he rfl
  refine ⟨hl, htree, fun q hq ↦ ?_⟩
  obtain ⟨hq, hne⟩ := mem_filter.mp hq
  obtain ⟨j, hj⟩ := h.found q hq
  refine ⟨j, hall _ j hj fun hji ↦ of_decide_eq_true hne ?_⟩
  rw [run_lookup_eq] at hlook
  have hat := at_of_run_walk h.layout.geom h.tree (fun t ht ↦ of_decide_eq_true ht)
    (decide_eq_true (by rw [h.tree.root]; decide)) hlook hi
  exact At.unique h.tree.top (hji ▸ hj) hat

theorem Named.Ok.step {t t' : Named} {op : NameOp} (h : t.Ok) (hk : op.Plain t)
    (hstep : t.step op = some t') : t'.Ok := by
  cases op with
  | create path =>
    obtain rfl := Option.some.inj hstep
    exact h.make (.inl rfl) hk
  | mkdir path =>
    obtain rfl := Option.some.inj hstep
    exact h.make (.inr rfl) hk
  | unlink path =>
    obtain rfl := Option.some.inj hstep
    have hl := h.layout.run_unlink path
    obtain ⟨r, f, d', hrun, ⟨rfl, rfl, hr⟩ | ⟨hr, i, hlt, hf, hlook, -, he⟩⟩ :=
      Sfs.run_unlink h.layout path
    · simp only [hrun, hr]
      exact h
    · rw [hrun] at hl
      simp only [hrun, hr]
      refine h.remove hl ?_ hlt.ne hlook (fun j hj hp ↦ ?_) he.entry
      · rintro rfl
        exact absurd (hf.symm.trans h.tree.root) (by decide)
      · exact absurd (hf.symm.trans (h.tree.parent hj hp hlt)) (by decide)
  | rmdir path =>
    obtain rfl := Option.some.inj hstep
    have hl := (h.layout.run_rmdir path).1
    obtain ⟨r, d', hrun, ⟨rfl, hr⟩ | ⟨hr, i, hlt, h0, hdir, hlook, hleaf, he⟩⟩ :=
      Sfs.run_rmdir h.layout path
    · simp only [hrun, hr]
      exact h
    · rw [hrun] at hl
      simp only [hrun, hr]
      exact h.remove hl h0 hlt.ne hlook (fun j hj ↦ hleaf j hj.1 hj.2) he.entry

theorem tree_boot {total : ℕ} (hg : Geometry (formatSuper total)) (disk : ℕ → Sector) :
    Tree (ent (boot total disk).super (boot total disk).disk) := by
  obtain ⟨d', hboot, -, hroot, hfree⟩ := boot_eq hg disk
  rw [hboot]
  show Tree (ent (formatSuper total) d')
  have hzero : ∀ i, Used (ent (formatSuper total) d') i → i = 0 :=
    fun i hi ↦ not_not.mp fun h0 ↦ hi.2 (hfree i hi.1 h0)
  refine ⟨by rw [hroot]; rfl, by rw [hroot]; rfl, fun i hi ↦ ?_, fun i j hi hj _ _ ↦ ?_⟩
  · exact ⟨[], hzero i hi ▸ .root⟩
  · rw [hzero i hi, hzero j hj]

/-- **The entries form a tree with distinct names, and created paths are found**, after every
sequence of creations and removals in which the created paths are plain. -/
theorem names_tree {total : ℕ} {disk : ℕ → Sector} {t : Named} (hword : total + 4095 < 2 ^ 32)
    (hfits : (formatSuper total).dataStart ≤ total)
    (h : Runs.Run Named.step NameOp.Plain ⟨boot total disk, []⟩ t) :
    Tree (ent t.st.super t.st.disk) ∧ ∀ p ∈ t.made, ∃ i, At (ent t.st.super t.st.disk) (names p) i ∧
      (lookup t.st.super p).run t.st.disk = (i, t.st.disk) := by
  have hok : t.Ok := h.invariant
    ⟨(tidy_boot hword hfits disk).toLayout, tree_boot (geometry_format hword hfits) disk, nofun⟩
    fun _ _ _ h hk hstep ↦ h.step hk hstep
  refine ⟨hok.tree, fun p hp ↦ (hok.found p hp).imp fun i hi ↦ ⟨hi, ?_⟩⟩
  rw [run_lookup_eq, run_walk_of_at hok.layout.geom hok.tree hi]

/-- `/d` is made and `/d/f` created in it. -/
theorem names_tree_two : ∃ t, Runs.Run Named.step NameOp.Plain ⟨boot 36 fun _ _ ↦ 0, []⟩ t ∧
      t.made = [[47, 100, 47, 102], [47, 100]] ∧ Tree (ent t.st.super t.st.disk) := by
  obtain ⟨t, ht, hmade⟩ := Runs.exists_run Named.step NameOp.Plain
    ⟨boot 36 fun _ _ ↦ 0, []⟩ [.mkdir [47, 100], .create [47, 100, 47, 102]]
    (p := fun t ↦ t.made = [[47, 100, 47, 102], [47, 100]]) (by decide +kernel)
  exact ⟨t, ht, hmade, (names_tree (by decide) (by decide) ht).1⟩

/-- **Zero bytes and empty components.** After the creations of `a`, of `a` with a zero byte behind it
and of `//b`, two entries of the root are named `a`, and neither the second nor the third of the
created paths is found. -/
theorem not_names_tree : ∃ t, Runs.Run Named.step (fun _ _ ↦ True) ⟨boot 36 fun _ _ ↦ 0, []⟩ t ∧
      t.made = [[47, 47, 98], [97, 0], [97]] ∧
      (ent t.st.super t.st.disk 1).name = [97] ∧ (ent t.st.super t.st.disk 2).name = [97] ∧
      (ent t.st.super t.st.disk 1).parentIdx = 0 ∧ (ent t.st.super t.st.disk 2).parentIdx = 0 ∧
      (ent t.st.super t.st.disk 1).type ≠ typeFree ∧
      (ent t.st.super t.st.disk 2).type ≠ typeFree ∧
      ((lookup t.st.super [97, 0]).run t.st.disk).1 = maxDirents ∧
      ((lookup t.st.super [47, 47, 98]).run t.st.disk).1 = maxDirents :=
  Runs.exists_run _ _ _ [.create [97], .create [97, 0], .create [47, 47, 98]] (by decide +kernel)

end Mazu.Fs.Sfs
