import Nebula.FileSystem.Status
import Nebula.Library.Bytes
import Nebula.Strings.Strlcat

/-!
`FileSystem::fileTreeTraversal`: the path of a directory is stored into an array of `PATH_MAX`
bytes, the name of each entry is appended to it in turn, and `lstat` and a callback are called for
the path.

`traverses_iff` says when they are called for the full paths of all entries: as long as each of
these paths fits into the array.
-/

set_option autoImplicit false
set_option relaxedAutoImplicit false

namespace Nebula.FileSystem

open Nebula.Library Nebula.Strings

/-! ### Paths and names -/

/-- A path that `opendir` may accept. -/
structure DirPath where
  bytes : Bytes
  nulFree : 0 ∉ bytes
  length_lt : bytes.length < pathMax

/-- `d_name`. -/
structure EntryName where
  bytes : Bytes
  nulFree : 0 ∉ bytes
  length_le : bytes.length ≤ nameMax

/-- `"."` or `".."`. -/
def EntryName.IsDots (entry : EntryName) : Prop := entry.bytes = [46, 46] ∨ entry.bytes = [46]

instance (entry : EntryName) : Decidable entry.IsDots := inferInstanceAs (Decidable (_ ∨ _))

/-- `lstat` and the callback, with whatever their results depend on. -/
structure Visitor (σ : Type*) where
  lstat : σ → Bytes → ℤ × Stat × σ
  fn : σ → Bytes → Stat → ℤ × σ

/-- A call of one of them. -/
inductive PathCall where
  | lstat (path : Bytes)
  | fn (path : Bytes)

def PathCall.path : PathCall → Bytes
  | lstat path => path
  | fn path => path

section Traversal

variable {σ : Type*}

/-- `(rc = lstat(entry_path, &entry_stat)) || (rc = (*fn)(entry_path, &entry_stat, fn_last_arg))` -/
def Visitor.present (v : Visitor σ) (path : Bytes) (s : σ) : ℤ × σ × List PathCall :=
  let (rc, stat, s) := v.lstat s path
  if rc ≠ 0 then (rc, s, [.lstat path])
  else
    let (rc, s) := v.fn s path stat
    (rc, s, [.lstat path, .fn path])

/-- The loop over the entries: its result, the array, the state of the visitor, and the calls. -/
def traverseLoop (v : Visitor σ) (used : ℕ) :
    List EntryName → Buffer UInt8 → σ → ℤ × Buffer UInt8 × σ × List PathCall
  | [], entryPath, s => (0, entryPath, s, [])
  | entry :: unread, entryPath, s =>
      if entry.IsDots then traverseLoop v used unread entryPath s
      else
        let (_, entryPath) := strlcatTo (entryPath.write used 0) entry.bytes pathMax
        let (rc, s, calls) := v.present (entryPath.text 0) s
        if rc ≠ 0 then (rc, entryPath, s, calls)
        else
          let (rc, entryPath, s, more) := traverseLoop v used unread entryPath s
          (rc, entryPath, s, calls ++ more)

/-- `fileTreeTraversal`, for what `opendir` finds; `cells` is what the array holds before anything
is stored. -/
def fileTreeTraversal (v : Visitor σ) (cells : ℤ → UInt8) (dirPath : DirPath)
    (dir : Option (List EntryName)) (s : σ) : ℤ × Buffer UInt8 × σ × List PathCall :=
  match dir with
  | none => (-1, ⟨pathMax, cells, false⟩, s, [])
  | some entries =>
      let (used, entryPath) := strlcpyTo ⟨pathMax, cells, false⟩ dirPath.bytes pathMax
      let (used, entryPath) :=
        if endsWith (entryPath.text 0) slash then (used, entryPath)
        else strlcatTo entryPath slash pathMax
      traverseLoop v used entries entryPath s

/-! ### Full paths -/

/-- The path of a directory with a slash at its end. -/
def DirPath.withSlash (dirPath : DirPath) : Bytes :=
  if endsWith dirPath.bytes slash then dirPath.bytes else dirPath.bytes ++ slash

/-- The full paths of the entries. -/
def fullPaths (base : Bytes) (entries : List EntryName) : List Bytes :=
  (entries.filter fun entry ↦ !decide entry.IsDots).map fun entry ↦ base ++ entry.bytes

/-- The paths are presented one after the other, until a result is not zero. -/
def Visitor.visit (v : Visitor σ) : List Bytes → σ → ℤ × σ × List PathCall
  | [], s => (0, s, [])
  | path :: paths, s =>
      let (rc, s, calls) := v.present path s
      if rc ≠ 0 then (rc, s, calls)
      else
        let (rc, s, more) := v.visit paths s
        (rc, s, calls ++ more)

/-- The full paths have been presented, and no byte has been stored next to the array. -/
structure Traverses (v : Visitor σ) (paths : List Bytes) (s : σ)
    (result : ℤ × Buffer UInt8 × σ × List PathCall) : Prop where
  visits : (result.1, result.2.2) = v.visit paths s
  unstrayed : result.2.1.strayed = false

theorem traverses_iff_and {v : Visitor σ} {paths : List Bytes} {s : σ}
    {result : ℤ × Buffer UInt8 × σ × List PathCall} : Traverses v paths s result ↔
      (result.1, result.2.2) = v.visit paths s ∧ result.2.1.strayed = false :=
  ⟨fun h ↦ ⟨h.visits, h.unstrayed⟩, fun h ↦ ⟨h.1, h.2⟩⟩

/-! ### One entry -/

variable {v : Visitor σ} {s : σ} {base path : Bytes} {entryPath : Buffer UInt8} {call : PathCall}

theorem calls_present (v : Visitor σ) (path : Bytes) (s : σ) :
    (v.present path s).2.2 = [.lstat path] ∨ (v.present path s).2.2 = [.lstat path, .fn path] := by
  unfold Visitor.present
  simp only
  split_ifs
  · exact Or.inl rfl
  · exact Or.inr rfl

/-- The first call is the one of `lstat`. -/
theorem head?_present {rc : ℤ} {s' : σ} {calls : List PathCall}
    (hpresent : v.present path s = (rc, s', calls)) (more : List PathCall) :
    calls.head? = some (.lstat path) ∧ (calls ++ more).head? = some (.lstat path) := by
  have hcalls := calls_present v path s
  rw [hpresent] at hcalls
  rcases hcalls with rfl | rfl
  · exact ⟨rfl, rfl⟩
  · exact ⟨rfl, rfl⟩

theorem path_of_mem_present {rc : ℤ} {s' : σ} {calls : List PathCall}
    (hpresent : v.present path s = (rc, s', calls)) (hcall : call ∈ calls) : call.path = path := by
  have hcalls := calls_present v path s
  rw [hpresent] at hcalls
  rcases hcalls with rfl | rfl
  · rw [List.mem_singleton.mp hcall]
    rfl
  · rcases List.mem_pair.mp hcall with rfl | rfl <;> rfl

/-- The array holds the path of the directory, as far as it fits, and something behind it. -/
structure Prepared (base : Bytes) (entryPath : Buffer UInt8) : Prop where
  size_eq : entryPath.size = pathMax
  unstrayed : entryPath.strayed = false
  text : ∃ t, entryPath.IsText 0 (base.take (pathMax - 1) ++ t)

/-- What is behind the path of the directory is cut off. -/
theorem Prepared.cut (h : Prepared base entryPath) (hbase : base.length ≤ pathMax) :
    (entryPath.write base.length 0).IsText 0 (base.take (pathMax - 1)) := by
  obtain ⟨t, htext⟩ := h.text
  rcases Nat.lt_or_eq_of_le hbase with hlt | heq
  · rw [List.take_of_length_le (by omega)] at htext ⊢
    simpa using htext.take
  · -- the array is full, and the NUL is stored behind it
    have hbounds := htext.bounds.2
    rw [h.size_eq, List.length_append, List.length_take] at hbounds
    have hnil : t = [] := List.length_eq_zero_iff.mp (by omega)
    rw [hnil, List.append_nil] at htext
    refine htext.congr (Buffer.size_write ..) fun j _ hj ↦ ?_
    rw [List.length_take] at hj
    rw [Buffer.cell_write, if_neg (by omega)]

/-- The name of an entry is appended, as far as it fits. -/
theorem Prepared.stored (h : Prepared base entryPath) (hbase : base.length ≤ pathMax)
    (entry : EntryName) {n : ℕ} {stored : Buffer UInt8}
    (hstored : strlcatTo (entryPath.write base.length 0) entry.bytes pathMax = (n, stored)) :
    stored.IsText 0 (base.take (pathMax - 1) ++
        entry.bytes.take (pathMax - (base.take (pathMax - 1)).length - 1)) ∧
      stored.size = pathMax ∧ stored.strayed = (entryPath.write base.length 0).strayed := by
  have hlength : (base.take (pathMax - 1)).length < pathMax := by
    rw [List.length_take]
    exact (Nat.min_le_left ..).trans_lt (by simp)
  have hsize : ((pathMax : ℕ) : ℤ) ≤ (entryPath.write base.length 0).size := h.size_eq.ge
  obtain ⟨-, htext, hsize', hstrayed⟩ := strlcatTo_spec (h.cut hbase) hlength hsize entry.nulFree
  rw [hstored] at htext hsize' hstrayed
  exact ⟨htext, hsize'.trans h.size_eq, hstrayed⟩

/-- What is presented is shorter than the array. -/
theorem Prepared.length_text_lt (h : Prepared base entryPath) (hbase : base.length ≤ pathMax)
    (entry : EntryName) {n : ℕ} {stored : Buffer UInt8}
    (hstored : strlcatTo (entryPath.write base.length 0) entry.bytes pathMax = (n, stored)) :
    (stored.text 0).length < pathMax := by
  obtain ⟨htext, hsize, -⟩ := h.stored hbase entry hstored
  have hbounds := htext.bounds.2
  rw [hsize] at hbounds
  rw [htext.text_eq]
  omega

/-- What is presented is the full path if that fits. -/
theorem Prepared.append (h : Prepared base entryPath) (hbase : base.length ≤ pathMax)
    (entry : EntryName) {n : ℕ} {stored : Buffer UInt8}
    (hstored : strlcatTo (entryPath.write base.length 0) entry.bytes pathMax = (n, stored))
    (hfits : (base ++ entry.bytes).length < pathMax) :
    Prepared base stored ∧ stored.text 0 = base ++ entry.bytes := by
  obtain ⟨htext, hsize, hstrayed⟩ := h.stored hbase entry hstored
  rw [List.length_append] at hfits
  have hall : base.take (pathMax - 1) = base := List.take_of_length_le (by omega)
  have hentry : entry.bytes.take (pathMax - base.length - 1) = entry.bytes :=
    List.take_of_length_le (by omega)
  rw [hall, hentry] at htext
  refine ⟨⟨hsize, ?_, entry.bytes, by rwa [hall]⟩, htext.text_eq⟩
  rw [hstrayed, Buffer.strayed_write_of_inBounds ⟨by omega, by rw [h.size_eq]; omega⟩]
  exact h.unstrayed

/-! ### All entries -/

theorem fullPaths_cons (base : Bytes) (entry : EntryName) (entries : List EntryName) :
    fullPaths base (entry :: entries) = if entry.IsDots then fullPaths base entries
      else (base ++ entry.bytes) :: fullPaths base entries := by
  unfold fullPaths
  rw [List.filter_cons]
  by_cases hdots : entry.IsDots <;> simp [hdots]

section Step

variable {entry : EntryName} {unread : List EntryName} {used n : ℕ} {stored : Buffer UInt8}
  {paths : List Bytes} {rc : ℤ} {s' : σ} {calls : List PathCall}

theorem visit_cons (hpresent : v.present path s = (rc, s', calls)) (paths : List Bytes) :
    v.visit (path :: paths) s = if rc ≠ 0 then (rc, s', calls)
      else ((v.visit paths s').1, (v.visit paths s').2.1, calls ++ (v.visit paths s').2.2) := by
  rw [Visitor.visit, hpresent]

theorem traverseLoop_cons (hdots : ¬ entry.IsDots)
    (hstored : strlcatTo (entryPath.write used 0) entry.bytes pathMax = (n, stored))
    (hpresent : v.present (stored.text 0) s = (rc, s', calls)) (unread : List EntryName) :
    traverseLoop v used (entry :: unread) entryPath s = if rc ≠ 0 then (rc, stored, s', calls)
      else
        let result := traverseLoop v used unread stored s'
        (result.1, result.2.1, result.2.2.1, calls ++ result.2.2.2) := by
  rw [traverseLoop, if_neg hdots, hstored]
  simp only [hpresent]

/-- The first call of a visit is for the first path. -/
theorem head?_visit (v : Visitor σ) (path : Bytes) (paths : List Bytes) (s : σ) :
    (v.visit (path :: paths) s).2.2.head? = some (.lstat path) := by
  rcases hpresent : v.present path s with ⟨rc, s', calls⟩
  rw [visit_cons hpresent]
  split_ifs
  · exact (head?_present hpresent []).1
  · exact (head?_present hpresent _).2

theorem head?_traverseLoop (hdots : ¬ entry.IsDots)
    (hstored : strlcatTo (entryPath.write used 0) entry.bytes pathMax = (n, stored)) (s : σ)
    (unread : List EntryName) :
    (traverseLoop v used (entry :: unread) entryPath s).2.2.2.head? =
      some (.lstat (stored.text 0)) := by
  rcases hpresent : v.present (stored.text 0) s with ⟨rc, s', calls⟩
  rw [traverseLoop_cons hdots hstored hpresent]
  split_ifs
  · exact (head?_present hpresent []).1
  · exact (head?_present hpresent _).2

end Step

/-- The loop presents the full paths exactly as long as they fit. -/
theorem traverseLoop_iff (hbase : base.length ≤ pathMax) (entries : List EntryName) :
    ∀ {entryPath : Buffer UInt8} {s : σ}, Prepared base entryPath →
      (Traverses v (fullPaths base entries) s (traverseLoop v base.length entries entryPath s) ↔
        ∀ call ∈ (v.visit (fullPaths base entries) s).2.2, call.path.length < pathMax) := by
  induction entries with
  | nil =>
    intro entryPath s h
    exact iff_of_true ⟨rfl, h.unstrayed⟩ fun _ hcall ↦ absurd hcall List.not_mem_nil
  | cons entry unread ih =>
    intro entryPath s h
    rw [fullPaths_cons]
    by_cases hdots : entry.IsDots
    · rw [if_pos hdots, traverseLoop, if_pos hdots]
      exact ih h
    · rw [if_neg hdots]
      rcases hstored : strlcatTo (entryPath.write base.length 0) entry.bytes pathMax with
        ⟨n, stored⟩
      by_cases hfits : (base ++ entry.bytes).length < pathMax
      · obtain ⟨hprepared, htext⟩ := h.append hbase entry hstored hfits
        rcases hpresent : v.present (base ++ entry.bytes) s with ⟨rc, s', calls⟩
        have hcalls : ∀ call ∈ calls, call.path.length < pathMax := fun call hcall ↦ by
          rwa [path_of_mem_present hpresent hcall]
        have hpresent' : v.present (stored.text 0) s = (rc, s', calls) := by
          rw [htext, hpresent]
        rw [traverses_iff_and, traverseLoop_cons hdots hstored hpresent', visit_cons hpresent]
        by_cases hrc : rc ≠ 0
        · rw [if_pos hrc, if_pos hrc]
          exact iff_of_true ⟨rfl, hprepared.unstrayed⟩ hcalls
        · rw [if_neg hrc, if_neg hrc]
          have hrest := ih hprepared (s := s')
          rw [traverses_iff_and] at hrest
          rw [List.forall_mem_append, ← hrest, and_iff_right hcalls]
          simp [Prod.ext_iff]
      · -- the two visits start with different paths
        refine iff_of_false (fun htraverses ↦ ?_) fun hall ↦ ?_
        · have hhead := congrArg (fun result ↦ result.2.2.head?) htraverses.visits
          rw [head?_visit] at hhead
          have hfirst := (head?_traverseLoop hdots hstored s unread).symm.trans hhead
          have hpath : stored.text 0 = base ++ entry.bytes :=
            congrArg PathCall.path (Option.some.inj hfirst)
          exact hfits (hpath ▸ h.length_text_lt hbase entry hstored)
        · have hmem :=
            List.mem_of_head? (head?_visit v (base ++ entry.bytes) (fullPaths base unread) s)
          exact hfits (hall _ hmem)

/-! ### The call -/

theorem DirPath.length_withSlash_le (dirPath : DirPath) : dirPath.withSlash.length ≤ pathMax := by
  have hlt := dirPath.length_lt
  have hslash : slash.length = 1 := rfl
  unfold DirPath.withSlash
  split_ifs
  · exact hlt.le
  · rw [List.length_append]
    omega

/-- The path of the directory is stored, and a slash behind it. -/
theorem exists_prepared (v : Visitor σ) (cells : ℤ → UInt8) (dirPath : DirPath)
    (entries : List EntryName) (s : σ) : ∃ entryPath, Prepared dirPath.withSlash entryPath ∧
      fileTreeTraversal v cells dirPath (some entries) s =
        traverseLoop v dirPath.withSlash.length entries entryPath s := by
  have hlt := dirPath.length_lt
  have hall : dirPath.bytes.take (pathMax - 1) = dirPath.bytes := List.take_of_length_le (by omega)
  have hstore := strlcpyTo_spec (Nat.zero_lt_of_lt hlt)
    (show (pathMax : ℤ) ≤ (⟨pathMax, cells, false⟩ : Buffer UInt8).size from le_rfl) dirPath.nulFree
  obtain ⟨hused, htext, hsize, hstrayed⟩ := hstore
  unfold fileTreeTraversal
  rcases hstored : strlcpyTo ⟨pathMax, cells, false⟩ dirPath.bytes pathMax with ⟨used, entryPath⟩
  rw [hstored] at hused htext hsize hstrayed
  obtain rfl : used = dirPath.bytes.length := hused
  simp only at htext hsize hstrayed ⊢
  rw [hall] at htext
  rw [htext.text_eq]
  unfold DirPath.withSlash
  by_cases hslash : endsWith dirPath.bytes slash = true
  · simp only [if_pos hslash]
    exact ⟨entryPath, ⟨hsize, hstrayed, [], by rwa [hall, List.append_nil]⟩, rfl⟩
  · obtain ⟨hused', htext', hsize', hstrayed'⟩ :=
      strlcatTo_spec (s := slash) htext hlt hsize.ge (by decide)
    simp only [if_neg hslash]
    refine ⟨_, ⟨hsize'.trans hsize, hstrayed'.trans hstrayed, [], ?_⟩, ?_⟩
    · rw [List.append_nil, List.take_append, hall, Nat.sub_right_comm]
      exact htext'
    · rw [List.length_append, hused']

/-- `lstat` and the callback are called for the full paths, in order, until a result is not zero,
exactly as long as each of these paths has fewer than `PATH_MAX` bytes. -/
theorem traverses_iff (v : Visitor σ) (cells : ℤ → UInt8) (dirPath : DirPath)
    (entries : List EntryName) (s : σ) :
    Traverses v (fullPaths dirPath.withSlash entries) s
        (fileTreeTraversal v cells dirPath (some entries) s) ↔
      ∀ call ∈ (v.visit (fullPaths dirPath.withSlash entries) s).2.2,
        call.path.length < pathMax := by
  obtain ⟨entryPath, hprepared, heq⟩ := exists_prepared v cells dirPath entries s
  rw [heq]
  exact traverseLoop_iff dirPath.length_withSlash_le entries hprepared

end Traversal

/-! ### A path that leaves no room -/

/-- A path of 4095 bytes. -/
def longDir : DirPath where
  bytes := List.replicate 4095 97
  nulFree hmem := absurd (List.eq_of_mem_replicate hmem) (by decide)
  length_lt := by
    rw [List.length_replicate]
    exact Nat.lt_succ_self 4095

/-- The entry `b`. -/
def oneEntry : EntryName := ⟨[98], by decide, by decide⟩

/-- Nothing fails. -/
def accept : Visitor Unit where
  lstat _ _ := (0, ⟨.regular, 0, 0, 0⟩, ())
  fn _ _ _ := (0, ())

/-- The path that is presented for the entry is too short to be that of the entry, and a byte is
stored behind the array. -/
theorem not_traverses_longDir :
    (fileTreeTraversal accept (fun _ ↦ 0) longDir (some [oneEntry]) ()).2.1.strayed = true ∧
      ¬ Traverses accept (fullPaths longDir.withSlash [oneEntry]) ()
        (fileTreeTraversal accept (fun _ ↦ 0) longDir (some [oneEntry]) ()) := by
  have hbase : longDir.withSlash.length = pathMax := by
    have hlength : longDir.bytes.length = 4095 := List.length_replicate
    have hslash : endsWith longDir.bytes slash = false := endsWith_slash_replicate (by decide) 4095
    rw [DirPath.withSlash, hslash, if_neg Bool.false_ne_true, List.length_append, hlength]
    rfl
  obtain ⟨entryPath, hprepared, heq⟩ := exists_prepared accept (fun _ ↦ 0) longDir [oneEntry] ()
  rcases hstored :
    strlcatTo (entryPath.write longDir.withSlash.length 0) oneEntry.bytes pathMax with ⟨n, stored⟩
  have hdots : ¬ oneEntry.IsDots := by decide
  constructor
  · rw [heq, traverseLoop_cons hdots hstored rfl]
    obtain ⟨-, -, hstrayed⟩ := hprepared.stored hbase.le oneEntry hstored
    show stored.strayed = true
    have hout : ¬ entryPath.InBounds pathMax := fun hbounds ↦
      absurd hbounds.2 (not_lt.mpr hprepared.size_eq.le)
    rw [hstrayed, hbase, Buffer.strayed_write]
    show (entryPath.strayed || !decide (entryPath.InBounds pathMax)) = true
    rw [decide_eq_false hout, Bool.not_false, Bool.or_true]
  · rw [heq, traverseLoop_iff hbase.le [oneEntry] hprepared]
    intro hall
    rw [fullPaths_cons, if_neg hdots] at hall
    have hlt := hall _ (List.mem_of_head? (head?_visit ..))
    rw [PathCall.path, List.length_append, hbase] at hlt
    omega

end Nebula.FileSystem
