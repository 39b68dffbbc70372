import Obix.Lib.CString

/-!
# A file system

The entries of a file system are named by the list of names that leads to them from the
top folder.  A path is resolved name by name, where each name but the last one has to
lead to a folder; there are no symbolic links.  The calls follow POSIX as far as
existence and kinds of entries are concerned; `mkdir`, `creat` and writing may also fail
for a reason of their own, such as a full disk.

`calls` records the paths given to the calls that create, write or remove.
-/

open CString

/-- What can be at the end of a path. -/
inductive Entry
  | folder
  | file (content : Text)
  deriving DecidableEq, Repr

/-- The values of `errno` that are told apart. -/
inductive Errno
  | eexist
  | edquot
  | enomem
  | enospc
  | other
  deriving DecidableEq, Repr

/-- A file system with the record of its changing calls. -/
structure Disk where
  entries : List (List Text × Entry)
  calls : List Text
  deriving DecidableEq, Repr

namespace Disk

/-- The entry at a place; the top folder is always there. -/
def entry (disk : Disk) (p : List Text) : Option Entry :=
  if p = [] then some .folder else disk.entries.lookup p

/-- One name of a path. -/
def stepName (p : List Text) (name : Text) : List Text :=
  if name = ['.'] then p
  else if name = ['.', '.'] then p.dropLast
  else p ++ [name]

/-- Follow names from a place on. -/
def walk (disk : Disk) : List Text → List Text → Option (List Text)
  | p, [] => some p
  | p, name :: names =>
      if disk.entry p = some .folder then disk.walk (stepName p name) names else none

/-- The place a path leads to, whether or not there is an entry. -/
def resolve (disk : Disk) (path : Text) : Option (List Text) :=
  if path = [] then none else disk.walk [] (tokens '/' path)

/-- The entry a path leads to, as `lstat` finds it. -/
def stat (disk : Disk) (path : Text) : Option Entry :=
  (disk.resolve path).bind disk.entry

/-- The places directly below a folder. -/
def inside (disk : Disk) (p : List Text) : List (List Text) :=
  (disk.entries.map Prod.fst).filter fun q => q ≠ [] ∧ q.dropLast = p

/-- Note a call. -/
def called (disk : Disk) (path : Text) : Disk :=
  { disk with calls := disk.calls ++ [path] }

/-- Add or replace an entry. -/
def put (disk : Disk) (p : List Text) (e : Entry) : Disk :=
  { disk with entries := (p, e) :: disk.entries.filter fun x => x.1 ≠ p }

/-- Remove an entry. -/
def remove (disk : Disk) (p : List Text) : Disk :=
  { disk with entries := disk.entries.filter fun x => x.1 ≠ p }

/-- `mkdir`. -/
def mkdir (fault : Option Errno) (path : Text) (disk : Disk) : Option Errno × Disk :=
  match disk.resolve path, fault with
  | some p, none =>
      if (disk.entry p).isNone then (none, (disk.put p .folder).called path)
      else (some .eexist, disk.called path)
  | some p, some e =>
      (if (disk.entry p).isNone then some e else some .eexist, disk.called path)
  | none, _ => (some .other, disk.called path)

/-- `creat`. -/
def creat (fault : Option Errno) (path : Text) (disk : Disk) : Option Errno × Disk :=
  match disk.resolve path, fault with
  | some p, none =>
      if disk.entry p = some .folder then (some .other, disk.called path)
      else (none, (disk.put p (.file [])).called path)
  | some _, some e => (some e, disk.called path)
  | none, _ => (some .other, disk.called path)

/-- Open a file for writing and replace its content; the result says whether it worked. -/
def write (fails : Bool) (path content : Text) (disk : Disk) : Bool × Disk :=
  match disk.resolve path, disk.stat path with
  | some p, some (.file _) =>
      if fails then (false, disk.called path)
      else (true, (disk.put p (.file content)).called path)
  | _, _ => (false, disk.called path)

/-- `unlink`. -/
def unlink (path : Text) (disk : Disk) : Disk :=
  match disk.resolve path, disk.stat path with
  | some p, some (.file _) => (disk.remove p).called path
  | _, _ => disk.called path

/-- `rmdir`: the folder has to be empty, and its last name must not be a dot. -/
def rmdir (path : Text) (disk : Disk) : Disk :=
  match disk.resolve path with
  | some p =>
      if p ≠ [] ∧ disk.entry p = some .folder ∧ disk.inside p = [] ∧
          (tokens '/' path).getLast? ≠ some ['.'] then
        (disk.remove p).called path
      else disk.called path
  | none => disk.called path

section Walk

variable {disk : Disk} {p q : List Text}

/-- A name that leads from a folder into it. -/
def IsName (name : Text) : Prop :=
  name ≠ [] ∧ '/' ∉ name ∧ name ≠ ['.'] ∧ name ≠ ['.', '.']

theorem walk_append (disk : Disk) (p names more : List Text) :
    disk.walk p (names ++ more) = (disk.walk p names).bind fun q => disk.walk q more := by
  induction names generalizing p with
  | nil => rfl
  | cons name names ih =>
      simp only [List.cons_append, walk]
      split
      · exact ih _
      · rfl

theorem walk_of_isName
    {names : List Text}
    (hnames : ∀ name ∈ names, IsName name)
    (h : disk.walk p names = some q) :
    q = p ++ names := by
  induction names generalizing p with
  | nil => simpa [walk] using h.symm
  | cons name names ih =>
      obtain ⟨-, -, hdot, hdots⟩ := hnames name (by simp)
      simp only [walk] at h
      split at h
      · have hq := ih (fun n hn => hnames n (List.mem_cons_of_mem _ hn)) h
        simp [hq, stepName, hdot, hdots]
      · cases h

/-- A path that continues another one by names leads below it. -/
theorem resolve_below
    {path base : Text} {names : List Text}
    (hbase : base ≠ [])
    (htokens : tokens '/' path = tokens '/' base ++ names)
    (hnames : ∀ name ∈ names, IsName name)
    (h : disk.resolve path = some q) :
    ∃ p, disk.resolve base = some p ∧ q = p ++ names := by
  unfold resolve at h
  split at h
  · cases h
  · rw [htokens, walk_append] at h
    obtain ⟨p, hp, hq⟩ := Option.bind_eq_some_iff.mp h
    exact ⟨p, by rw [resolve, if_neg hbase, hp], walk_of_isName hnames hq⟩

end Walk

section Calls

/-- The changing calls between two states of the disk are for paths of a list. -/
def Touches (paths : List Text) (disk disk' : Disk) : Prop :=
  ∃ new, disk'.calls = disk.calls ++ new ∧ ∀ path ∈ new, path ∈ paths

variable {paths : List Text} {path : Text} {disk disk₁ disk₂ : Disk}

theorem touches_refl (paths : List Text) (disk : Disk) : Touches paths disk disk :=
  ⟨[], by simp, by simp⟩

theorem Touches.trans
    (h : Touches paths disk disk₁)
    (h' : Touches paths disk₁ disk₂) :
    Touches paths disk disk₂ := by
  obtain ⟨new, hnew, hall⟩ := h
  obtain ⟨new', hnew', hall'⟩ := h'
  refine ⟨new ++ new', by rw [hnew', hnew, List.append_assoc], fun q hq => ?_⟩
  rcases List.mem_append.mp hq with hq | hq
  · exact hall q hq
  · exact hall' q hq

theorem touches_of_calls
    (hpath : path ∈ paths)
    (h : disk₁.calls = disk.calls ++ [path]) :
    Touches paths disk disk₁ :=
  ⟨[path], h, by simpa using hpath⟩

theorem touches_mkdir
    (hpath : path ∈ paths)
    (fault : Option Errno)
    (disk : Disk) :
    Touches paths disk (disk.mkdir fault path).2 := by
  refine touches_of_calls hpath ?_
  unfold mkdir
  split
  · split <;> rfl
  · rfl
  · rfl

theorem touches_creat
    (hpath : path ∈ paths)
    (fault : Option Errno)
    (disk : Disk) :
    Touches paths disk (disk.creat fault path).2 := by
  refine touches_of_calls hpath ?_
  unfold creat
  split
  · split <;> rfl
  · rfl
  · rfl

theorem touches_write
    (hpath : path ∈ paths)
    (fails : Bool)
    (content : Text)
    (disk : Disk) :
    Touches paths disk (disk.write fails path content).2 := by
  refine touches_of_calls hpath ?_
  unfold write
  split
  · split <;> rfl
  · rfl

theorem touches_unlink
    (hpath : path ∈ paths)
    (disk : Disk) :
    Touches paths disk (disk.unlink path) := by
  refine touches_of_calls hpath ?_
  unfold unlink
  split <;> rfl

theorem touches_rmdir
    (hpath : path ∈ paths)
    (disk : Disk) :
    Touches paths disk (disk.rmdir path) := by
  refine touches_of_calls hpath ?_
  unfold rmdir
  split
  · split <;> rfl
  · rfl

/-- What every call for a path of a list keeps of the disk. -/
structure KeptByCalls (paths : List Text) (P : Disk → Prop) : Prop where
  mkdir : ∀ fault path disk, path ∈ paths → P disk → P (disk.mkdir fault path).2
  creat : ∀ fault path disk, path ∈ paths → P disk → P (disk.creat fault path).2
  write : ∀ fails path content disk, path ∈ paths → P disk → P (disk.write fails path content).2
  unlink : ∀ path disk, path ∈ paths → P disk → P (disk.unlink path)
  rmdir : ∀ path disk, path ∈ paths → P disk → P (disk.rmdir path)

theorem keptByCalls_touches (paths : List Text) (disk : Disk) :
    KeptByCalls paths (Touches paths disk) where
  mkdir fault _ d hpath h := h.trans (touches_mkdir hpath fault d)
  creat fault _ d hpath h := h.trans (touches_creat hpath fault d)
  write fails _ content d hpath h := h.trans (touches_write hpath fails content d)
  unlink _ d hpath h := h.trans (touches_unlink hpath d)
  rmdir _ d hpath h := h.trans (touches_rmdir hpath d)

end Calls

end Disk
