import Nebula.Library.Links
import Mathlib.Order.Basic

/-!
`FileSystem::getFileStatus`, `atime`, `ctime` and `mtime`: the status of a file, or of what a
symbolic link leads to. All four evaluate the same expression, in which `lstat` is called after
`stat` and fills the buffer again.

`selects_iff` says that `follow_link` selects whose status is returned unless the path is a symbolic
link that leads to a node.
-/

set_option autoImplicit false
set_option relaxedAutoImplicit false

namespace Nebula.FileSystem

open Nebula.Library

variable {π : Type*}

/-! ### File systems -/

/-- What a path stands for. -/
inductive Kind (π : Type*) where
  | file
  | directory
  | link (target : π)

/-- `st_mode`. -/
inductive Mode where
  | regular
  | directory
  | link

def Kind.mode : Kind π → Mode
  | file => .regular
  | directory => .directory
  | link _ => .link

/-- `struct stat`. -/
structure Stat where
  mode : Mode
  atime : ℤ
  ctime : ℤ
  mtime : ℤ

/-- A node, with times that are not taken for errors. -/
structure Node (π : Type*) where
  kind : Kind π
  atime : ℤ
  ctime : ℤ
  mtime : ℤ
  atime_ne : atime ≠ -1
  ctime_ne : ctime ≠ -1
  mtime_ne : mtime ≠ -1

/-- The data of a node. -/
def Node.stat (node : Node π) : Stat := ⟨node.kind.mode, node.atime, node.ctime, node.mtime⟩

/-- Finitely many paths, each with a node. -/
structure Files (π : Type*) where
  node : π → Option (Node π)
  paths : Finset π
  mem_paths : ∀ path, node path ≠ none → path ∈ paths

namespace Files

/-- Where a symbolic link points to. -/
def link (files : Files π) (path : π) : Option π :=
  match files.node path with
  | some node =>
      match node.kind with
      | .link target => some target
      | _ => none
  | none => none

/-- A system call that looks up a node: its result, and the buffer, filled if there is a node. -/
def report (node : Option (Node π)) (buf : Stat) : ℤ × Stat :=
  match node with
  | none => (-1, buf)
  | some node => (0, node.stat)

def lstat (files : Files π) (path : π) (buf : Stat) : ℤ × Stat := report (files.node path) buf

/-- `stat` follows symbolic links. -/
def stat (files : Files π) (path : π) (buf : Stat) : ℤ × Stat :=
  report ((chase files.link files.paths.card path).bind files.node) buf

/-! ### The functions -/

/-- `(follow_link && stat(path, buf) < 0) || lstat(path, buf) < 0`, and the buffer afterwards. -/
def fails (files : Files π) (path : π) (buf : Stat) (followLink : Bool) : Bool × Stat :=
  if followLink then
    let (rc, buf) := files.stat path buf
    if rc < 0 then (true, buf)
    else
      let (rc, buf) := files.lstat path buf
      (decide (rc < 0), buf)
  else
    let (rc, buf) := files.lstat path buf
    (decide (rc < 0), buf)

def getFileStatus (files : Files π) (path : π) (buf : Stat) (followLink : Bool) : ℤ × Stat :=
  let (failed, buf) := files.fails path buf followLink
  if failed then (-1, buf) else (0, buf)

/-- What is in the buffer of `atime` before it is filled is an argument here, and the same for the
other two. -/
def atime (files : Files π) (path : π) (buf : Stat) (followLink : Bool) : ℤ :=
  let (failed, buf) := files.fails path buf followLink
  if failed then -1 else buf.atime

def ctime (files : Files π) (path : π) (buf : Stat) (followLink : Bool) : ℤ :=
  let (failed, buf) := files.fails path buf followLink
  if failed then -1 else buf.ctime

def mtime (files : Files π) (path : π) (buf : Stat) (followLink : Bool) : ℤ :=
  let (failed, buf) := files.fails path buf followLink
  if failed then -1 else buf.mtime

/-! ### Whose status it should be -/

/-- A path leads to a node by way of symbolic links, or by none. -/
def Reaches (files : Files π) (path : π) (node : Node π) : Prop :=
  ∃ last, LeadsTo files.link path last ∧ files.node last = some node

/-- The node whose status is asked for. -/
def Selected (files : Files π) (path : π) (followLink : Bool) (node : Node π) : Prop :=
  if followLink then files.Reaches path node else files.node path = some node

/-- A result is a field of the selected node, and -1 exactly if there is none. -/
structure Tells (selected : Node π → Prop) (result : ℤ) (field : Stat → ℤ) : Prop where
  eq_field : ∀ node, selected node → result = field node.stat
  fails_iff : result = -1 ↔ ¬ ∃ node, selected node

/-- All four functions return the status of the selected node. -/
structure Selects (files : Files π) (path : π) (followLink : Bool) : Prop where
  status : ∀ buf node, files.Selected path followLink node →
    files.getFileStatus path buf followLink = (0, node.stat)
  status_fails : ∀ buf, (files.getFileStatus path buf followLink).1 = -1 ↔
    ¬ ∃ node, files.Selected path followLink node
  atime : ∀ buf, Tells (files.Selected path followLink) (files.atime path buf followLink) Stat.atime
  ctime : ∀ buf, Tells (files.Selected path followLink) (files.ctime path buf followLink) Stat.ctime
  mtime : ∀ buf, Tells (files.Selected path followLink) (files.mtime path buf followLink) Stat.mtime

/-! ### What is returned -/

variable {files : Files π} {path : π} {node own : Node π} {followLink : Bool}

theorem link_eq_some_iff {target : π} : files.link path = some target ↔
    ∃ node, files.node path = some node ∧ node.kind = .link target := by
  unfold link
  cases files.node path with
  | none => simp
  | some node =>
    cases hkind : node.kind <;> simp [hkind]

/-- The node that `stat` finds. -/
theorem bind_chase_eq_some_iff :
    (chase files.link files.paths.card path).bind files.node = some node ↔
      files.Reaches path node := by
  have hlinks : ∀ path, files.link path ≠ none → path ∈ files.paths := by
    intro path hlink
    obtain ⟨target, htarget⟩ := Option.ne_none_iff_exists'.mp hlink
    obtain ⟨node, hnode, -⟩ := link_eq_some_iff.mp htarget
    exact files.mem_paths path (by rw [hnode]; exact Option.some_ne_none node)
  rw [Option.bind_eq_some_iff]
  exact exists_congr fun last ↦ and_congr_left' (chase_card_eq_some_iff hlinks)

/-- A path that is not a link leads to its own node. -/
theorem reaches_of_link_eq_none (h : files.link path = none) :
    files.Reaches path node ↔ files.node path = some node := by
  constructor
  · rintro ⟨last, ⟨hpath, -⟩, hnode⟩
    rcases hpath.cases_head with rfl | ⟨next, hnext, -⟩
    · exact hnode
    · exact absurd (h.symm.trans hnext) (Option.some_ne_none next).symm
  · exact fun hnode ↦ ⟨path, ⟨.refl, h⟩, hnode⟩

/-- A path that leads to a node has one of its own. -/
theorem Reaches.exists_own (h : files.Reaches path node) : ∃ own, files.node path = some own := by
  cases hlink : files.link path with
  | none => exact ⟨node, (reaches_of_link_eq_none hlink).mp h⟩
  | some target =>
    obtain ⟨own, hown, -⟩ := link_eq_some_iff.mp hlink
    exact ⟨own, hown⟩

/-- What links lead to is not a link. -/
theorem Reaches.mode_ne (h : files.Reaches path node) : node.stat.mode ≠ .link := by
  obtain ⟨last, ⟨-, hend⟩, hnode⟩ := h
  intro hmode
  cases hkind : node.kind with
  | file => simp [Node.stat, Kind.mode, hkind] at hmode
  | directory => simp [Node.stat, Kind.mode, hkind] at hmode
  | link target =>
    exact absurd (hend.symm.trans (link_eq_some_iff.mpr ⟨node, hnode, hkind⟩))
      (Option.some_ne_none target).symm

/-- Nothing is returned if the selected node is not there. -/
theorem fails_of_not_selected (h : ¬ ∃ node, files.Selected path followLink node) (buf : Stat) :
    files.fails path buf followLink = (true, buf) := by
  cases followLink with
  | false =>
    have hnone : files.node path = none := by
      by_contra hsome
      exact h (Option.ne_none_iff_exists'.mp hsome)
    simp [fails, lstat, report, hnone]
  | true =>
    have hnone : (chase files.link files.paths.card path).bind files.node = none := by
      by_contra hsome
      obtain ⟨node, hnode⟩ := Option.ne_none_iff_exists'.mp hsome
      exact h ⟨node, bind_chase_eq_some_iff.mp hnode⟩
    simp [fails, stat, report, hnone]

/-- Otherwise the path's own node is returned, whatever has been selected. -/
theorem fails_of_selected (h : files.Selected path followLink node) (buf : Stat) :
    ∃ own, files.node path = some own ∧ files.fails path buf followLink = (false, own.stat) := by
  cases followLink with
  | false =>
    have hnode : files.node path = some node := h
    exact ⟨node, hnode, by simp [fails, lstat, report, hnode]⟩
  | true =>
    have hreaches : files.Reaches path node := h
    obtain ⟨own, hown⟩ := hreaches.exists_own
    have hstat := bind_chase_eq_some_iff.mpr hreaches
    exact ⟨own, hown, by simp [fails, stat, lstat, report, hstat, hown]⟩

/-- The time that is returned, of one of the three. -/
theorem tells_of_own
    (hown : ∀ node, files.Selected path followLink node → files.node path = some node)
    (field : Stat → ℤ) (hfield : ∀ node : Node π, field node.stat ≠ -1) (buf : Stat) :
    Tells (files.Selected path followLink)
      (if (files.fails path buf followLink).1 then -1
        else field (files.fails path buf followLink).2)
      field := by
  by_cases hselected : ∃ node, files.Selected path followLink node
  · obtain ⟨node, hnode⟩ := hselected
    obtain ⟨own, hpath, hfails⟩ := fails_of_selected hnode buf
    rw [hfails]
    refine ⟨fun node' hnode' ↦ ?_, ?_⟩
    · rw [Option.some.inj (hpath.symm.trans (hown node' hnode'))]
      rfl
    · exact iff_of_false (hfield own) (not_not.mpr ⟨node, hnode⟩)
  · rw [fails_of_not_selected hselected]
    exact ⟨fun node hnode ↦ absurd ⟨node, hnode⟩ hselected, iff_of_true rfl hselected⟩

/-- All four functions are right if the selected node is always the path's own. -/
theorem selects_of_own
    (hown : ∀ node, files.Selected path followLink node → files.node path = some node) :
    files.Selects path followLink where
  status buf node hnode := by
    obtain ⟨own, hpath, hfails⟩ := fails_of_selected hnode buf
    rw [getFileStatus, hfails, Option.some.inj (hpath.symm.trans (hown node hnode))]
    rfl
  status_fails buf := by
    unfold getFileStatus
    by_cases hselected : ∃ node, files.Selected path followLink node
    · obtain ⟨node, hnode⟩ := hselected
      obtain ⟨own, -, hfails⟩ := fails_of_selected hnode buf
      rw [hfails]
      exact iff_of_false (show ¬ (0 : ℤ) = -1 by decide) (not_not.mpr ⟨node, hnode⟩)
    · rw [fails_of_not_selected hselected]
      exact iff_of_true rfl hselected
  atime := tells_of_own hown Stat.atime Node.atime_ne
  ctime := tells_of_own hown Stat.ctime Node.ctime_ne
  mtime := tells_of_own hown Stat.mtime Node.mtime_ne

/-- `follow_link` selects whose status is returned, unless the path is a symbolic link that leads to
a node. -/
theorem selects_iff (files : Files π) (path : π) (followLink : Bool) :
    files.Selects path followLink ↔
      ¬ (followLink = true ∧ files.link path ≠ none ∧ ∃ node, files.Reaches path node) := by
  constructor
  · rintro hselects ⟨rfl, hlink, node, hnode⟩
    obtain ⟨target, htarget⟩ := Option.ne_none_iff_exists'.mp hlink
    obtain ⟨own, hown, hkind⟩ := link_eq_some_iff.mp htarget
    have hselected : files.Selected path true node := hnode
    have hstatus := hselects.status node.stat node hselected
    obtain ⟨own', hown', hfails⟩ := fails_of_selected hselected node.stat
    cases hown.symm.trans hown'
    rw [getFileStatus, hfails] at hstatus
    have hmode : own.stat.mode = .link := by
      rw [Node.stat, hkind]
      rfl
    exact hnode.mode_ne ((congrArg (fun result ↦ result.2.mode) hstatus).symm.trans hmode)
  · intro h
    refine selects_of_own fun node hnode ↦ ?_
    cases followLink with
    | false => exact hnode
    | true =>
      have hreaches : files.Reaches path node := hnode
      have hlink : files.link path = none := by
        by_contra hlink
        exact h ⟨rfl, hlink, node, hreaches⟩
      exact (reaches_of_link_eq_none hlink).mp hreaches

/-- A file `true`, and a symbolic link `false` to it. -/
def linked : Files Bool where
  node path := some (if path then ⟨.file, 1, 2, 3, by decide, by decide, by decide⟩
    else ⟨.link true, 4, 5, 6, by decide, by decide, by decide⟩)
  paths := {false, true}
  mem_paths path _ := by cases path <;> decide

/-- The status of the link is returned, though that of the file has been asked for. -/
theorem not_selects_linked :
    linked.getFileStatus false ⟨.directory, 0, 0, 0⟩ true = (0, ⟨.link, 4, 5, 6⟩) ∧
      linked.mtime false ⟨.directory, 0, 0, 0⟩ true = 6 ∧
      linked.Reaches false ⟨.file, 1, 2, 3, by decide, by decide, by decide⟩ ∧
      ¬ linked.Selects false true := by
  have hreaches : linked.Reaches false ⟨.file, 1, 2, 3, by decide, by decide, by decide⟩ :=
    ⟨true, ⟨.single rfl, rfl⟩, rfl⟩
  refine ⟨rfl, rfl, hreaches, fun hselects ↦ ?_⟩
  have hstatus := hselects.status ⟨.directory, 0, 0, 0⟩ _ hreaches
  cases congrArg (fun result ↦ result.2.mode) hstatus

end Files

end Nebula.FileSystem
