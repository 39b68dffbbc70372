import Obix.Lib.DiskTree
import Mathlib.Data.List.Dedup

/-!
# Looking around on a disk

`lstat` with the two values of `errno` that tell a missing entry from a way that leads through a
file, and the names that `readdir` gives of a folder, in any order.

A folder is `Rooted` with a path when the path leads to it and not through anything in it.  Whatever
is done in the folder, the path leads there still (`Rooted.of_inside`), and names that continue the
path lead to what is below the folder (`Rooted.resolve_below`).  When it has been removed, nothing
is found in it (`Missing.lstat_ne`).
-/

open CString

namespace Disk

/-- What `lstat` finds. -/
inductive Found
  | entry (e : Entry)
  | enoent
  | enotdir
  deriving DecidableEq, Repr

/-- Follow names from a place on, up to what is missing or no folder. -/
def lstatFrom (disk : Disk) : List Text → List Text → Found
  | p, [] => (disk.entry p).elim .enoent .entry
  | p, name :: names =>
      match disk.entry p with
      | some .folder => lstatFrom disk (stepName p name) names
      | some (.file _) => .enotdir
      | none => .enoent

/-- `lstat`. -/
def lstat (disk : Disk) (path : Text) : Found :=
  if path = [] then .enoent else lstatFrom disk [] (tokens '/' path)

/-- The names that are listed are those of the entries of the folder, each of them once, and
perhaps the two names for the folder itself and the one above it. -/
def Lists (readdir : Text → List Text) (disk : Disk) : Prop :=
  ∀ path place, disk.resolve path = some place → disk.entry place = some .folder →
    (readdir path).Nodup ∧ ∀ name, name ≠ ['.'] → name ≠ ['.', '.'] →
      (name ∈ readdir path ↔ disk.entry (place ++ [name]) ≠ none)

/-- `readdir` in one of the possible orders. -/
def readdir (disk : Disk) (path : Text) : List Text :=
  (disk.resolve path).elim [] fun place => ((disk.inside place).filterMap List.getLast?).dedup

variable {disk : Disk} {p q : List Text} {path : Text} {e : Entry}

theorem lstatFrom_of_walk
    {names : List Text}
    (h : disk.walk p names = some q) :
    lstatFrom disk p names = (disk.entry q).elim .enoent .entry := by
  induction names generalizing p with
  | nil =>
      obtain rfl := Option.some.inj h
      rfl
  | cons name names ih =>
      rw [walk] at h
      split at h
      · rename_i hfolder
        rw [lstatFrom, hfolder]
        exact ih h
      · cases h

theorem lstat_of_resolve
    (h : disk.resolve path = some p) :
    disk.lstat path = (disk.entry p).elim .enoent .entry := by
  unfold resolve at h
  split at h
  · cases h
  · rename_i hne
    rw [lstat, if_neg hne]
    exact lstatFrom_of_walk h

theorem lists_readdir (disk : Disk) : Lists disk.readdir disk := by
  intro path place hplace _
  rw [readdir, hplace]
  refine ⟨List.nodup_dedup _, fun name _ _ => ?_⟩
  rw [Option.elim_some, List.mem_dedup, List.mem_filterMap]
  constructor
  · rintro ⟨q, hq, hlast⟩
    obtain ⟨-, hdrop, hentry⟩ := mem_inside.mp hq
    rw [← hdrop, List.dropLast_append_getLast? name hlast]
    exact hentry
  · intro hentry
    exact ⟨place ++ [name], mem_inside.mpr ⟨by simp, by simp, hentry⟩, by simp⟩

section Below

variable {disk' : Disk} {base names : List Text} {name : Text}

/-- A folder that a path leads to, but not through anything in it. -/
structure Rooted (base : List Text) (path : Text) (disk : Disk) : Prop where
  tree : IsTree disk
  resolve : disk.resolve path = some base
  folder : disk.entry base = some .folder
  apart : ∀ r ∈ wayOf path, base <+: r → r = base

/-- What is above an entry is a folder. -/
theorem IsTree.folder_above
    (h : IsTree disk)
    (hentry : disk.entry (p ++ name :: names) ≠ none) :
    disk.entry p = some .folder := by
  have hnext : disk.entry (p ++ [name]) ≠ none := fun hnone =>
    hentry (h.none_below hnone ⟨names, by simp⟩)
  have hfolder := h (p ++ [name]) (by simp) hnext
  rwa [List.dropLast_concat] at hfolder

/-- Names lead to an entry below a place. -/
theorem IsTree.walk_names
    (h : IsTree disk)
    (hnames : ∀ n ∈ names, IsName n)
    (hentry : disk.entry (p ++ names) ≠ none) :
    disk.walk p names = some (p ++ names) := by
  induction names generalizing p with
  | nil => rw [walk, List.append_nil]
  | cons name names ih =>
      obtain ⟨-, -, hdot, hdots⟩ := hnames name List.mem_cons_self
      have hstep : stepName p name = p ++ [name] := by rw [stepName, if_neg hdot, if_neg hdots]
      have hfolder := h.folder_above hentry
      rw [List.append_cons] at hentry ⊢
      rw [walk, if_pos hfolder, hstep]
      exact ih (fun n hn => hnames n (List.mem_cons_of_mem _ hn)) hentry

theorem Rooted.ne_nil
    (h : Rooted base path disk) :
    path ≠ [] := by
  rintro rfl
  exact absurd h.resolve (by simp [Disk.resolve])

/-- A path that goes on with names leads below the folder. -/
theorem Rooted.resolve_below
    {below : Text}
    (h : Rooted base path disk)
    (hne : below ≠ [])
    (htokens : tokens '/' below = tokens '/' path ++ names)
    (hnames : ∀ n ∈ names, IsName n)
    (hentry : disk.entry (base ++ names) ≠ none) :
    disk.resolve below = some (base ++ names) := by
  have hresolve := h.resolve
  rw [Disk.resolve, if_neg h.ne_nil] at hresolve
  rw [Disk.resolve, if_neg hne, htokens, walk_append, hresolve]
  exact h.tree.walk_names hnames hentry

/-- A new name in a folder below leads to a place without an entry. -/
theorem Rooted.resolve_next
    {below : Text}
    (h : Rooted base path disk)
    (hne : below ≠ [])
    (htokens : tokens '/' below = tokens '/' path ++ names ++ [name])
    (hnames : ∀ n ∈ names, IsName n)
    (hname : IsName name)
    (hfolder : disk.entry (base ++ names) = some .folder) :
    disk.resolve below = some (base ++ names ++ [name]) := by
  obtain ⟨-, -, hdot, hdots⟩ := hname
  have hresolve := h.resolve
  rw [Disk.resolve, if_neg h.ne_nil] at hresolve
  rw [Disk.resolve, if_neg hne, htokens, walk_append, walk_append, hresolve, Option.bind_some,
    h.tree.walk_names hnames (by rw [hfolder]; simp), Option.bind_some, walk, if_pos hfolder,
    stepName, if_neg hdot, if_neg hdots, walk]

/-- Changes inside of the folder. -/
theorem Rooted.of_inside
    (h : Rooted base path disk)
    (htree : IsTree disk')
    (hsame : ∀ q, (base <+: q → q = base) → disk'.entry q = disk.entry q) :
    Rooted base path disk' where
  tree := htree
  resolve := by
    have hresolve := h.resolve
    rw [Disk.resolve, if_neg h.ne_nil] at hresolve ⊢
    rw [walk_congr fun r hr => hsame r (h.apart r hr), hresolve]
  folder := by rw [hsame base fun _ => rfl, h.folder]
  apart := h.apart

/-- An empty folder. -/
theorem rooted_of_empty
    (htree : IsTree disk)
    (hresolve : disk.resolve path = some base)
    (hfolder : disk.entry base = some .folder)
    (hempty : disk.inside base = []) :
    Rooted base path disk where
  tree := htree
  resolve := hresolve
  folder := hfolder
  apart := by
    rintro r hr ⟨names, rfl⟩
    have hstat : disk.stat path ≠ none := by
      rw [stat, hresolve, Option.bind_some, hfolder]
      simp
    cases names with
    | nil => rw [List.append_nil]
    | cons name names =>
        have hnone : disk.entry (base ++ [name]) = none :=
          inside_eq_nil.mp hempty _ (by simp) (by simp)
        exact absurd (htree.none_below hnone ⟨names, by simp⟩) (entry_wayOf hstat _ hr)

end Below

section Missing

variable {disk' : Disk} {base : List Text} {file : Text}

theorem walk_of_lstatFrom
    {names : List Text}
    (h : lstatFrom disk p names = .entry e) :
    ∃ q, disk.walk p names = some q ∧ disk.entry q = some e := by
  induction names generalizing p with
  | nil =>
      refine ⟨p, rfl, ?_⟩
      rw [lstatFrom] at h
      cases hentry : disk.entry p with
      | none =>
          rw [hentry] at h
          cases h
      | some e' =>
          rw [hentry] at h
          cases h
          rfl
  | cons name names ih =>
      rw [lstatFrom] at h
      rw [walk]
      split at h
      · rename_i hfolder
        rw [if_pos hfolder]
        exact ih h
      · cases h
      · cases h

/-- What `lstat` finds is where the path leads to. -/
theorem resolve_of_lstat
    (h : disk.lstat path = .entry e) :
    ∃ p, disk.resolve path = some p ∧ disk.entry p = some e := by
  rw [lstat] at h
  split at h
  · cases h
  · rename_i hne
    rw [resolve, if_neg hne]
    exact walk_of_lstatFrom h

/-- The folder that a path led to is missing. -/
structure Missing (base : List Text) (path : Text) (disk : Disk) : Prop where
  only : ∀ p, disk.resolve path = some p → p = base
  gone : disk.entry base = none

theorem missing_of_removed
    (hresolve : disk.resolve path = some base)
    (hentry : ∀ q, disk'.entry q = if base <+: q then none else disk.entry q) :
    Missing base path disk' where
  only p hp := by
    have hback : disk.resolve path = some p := by
      refine resolve_mono (fun r hr => ?_) hp
      rw [hentry] at hr
      split at hr
      · cases hr
      · exact hr
    exact (Option.some.inj (hresolve.symm.trans hback)).symm
  gone := by rw [hentry, if_pos List.prefix_rfl]

theorem Missing.stat_none
    (h : Missing base path disk) :
    disk.stat path = none := by
  rw [stat]
  cases hresolve : disk.resolve path with
  | none => rfl
  | some p => rw [h.only p hresolve, Option.bind_some, h.gone]

/-- No file is found in a folder that is missing. -/
theorem Missing.lstat_ne
    {name : Text}
    (h : Missing base path disk)
    (hne : path ≠ [])
    (htokens : tokens '/' file = tokens '/' path ++ [name]) :
    disk.lstat file ≠ .entry e := by
  intro hfound
  obtain ⟨p, hp, -⟩ := resolve_of_lstat hfound
  rw [resolve] at hp
  split at hp
  · cases hp
  · rw [htokens, walk_append] at hp
    obtain ⟨q, hq, hlast⟩ := Option.bind_eq_some_iff.mp hp
    obtain rfl := h.only q (by rw [resolve, if_neg hne, hq])
    rw [walk, h.gone, if_neg (by simp)] at hlast
    cases hlast

/-- An empty folder is removed. -/
theorem entry_rmdir
    (htree : IsTree disk)
    (hresolve : disk.resolve path = some base)
    (hfolder : disk.entry base = some .folder)
    (hbase : base ≠ [])
    (hlast : (tokens '/' path).getLast? ≠ some ['.'])
    (hempty : ∀ name, disk.entry (base ++ [name]) = none)
    (q : List Text) :
    (disk.rmdir path).entry q = if base <+: q then none else disk.entry q := by
  have hinside : disk.inside base = [] := by
    refine inside_eq_nil.mpr fun r hne hdrop => ?_
    rw [← List.dropLast_append_getLast hne, hdrop]
    exact hempty _
  rw [rmdir, hresolve]
  dsimp only
  rw [if_pos ⟨hbase, hfolder, hinside, hlast⟩, entry_called, entry_remove hbase]
  by_cases hpre : base <+: q
  · rw [if_pos hpre]
    split
    · rfl
    · rename_i hne
      obtain ⟨names, rfl⟩ := hpre
      cases names with
      | nil => simp at hne
      | cons name names => exact htree.none_below (hempty name) ⟨names, by simp⟩
  · rw [if_neg hpre, if_neg]
    rintro rfl
    exact hpre List.prefix_rfl

end Missing

end Disk
