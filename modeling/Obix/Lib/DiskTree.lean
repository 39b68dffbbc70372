import Obix.Lib.Disk

/-!
# Entries in folders

In a file system every entry is in a folder (`IsTree`), and the calls keep it so.  What a
path leads to depends on the places on its way: when some places are cleared, a path leads
where it led before unless its way goes through one of them (`stat_of_cleared`).
-/

open CString

namespace Disk

section Entries

variable {disk : Disk} {p q : List Text} {e : Entry}

@[simp] theorem entry_nil (disk : Disk) : disk.entry [] = some .folder :=
  if_pos rfl

@[simp] theorem entry_called
    (disk : Disk)
    (path : Text)
    (q : List Text) :
    (disk.called path).entry q = disk.entry q :=
  rfl

theorem entry_congr
    {disk' : Disk}
    (h : disk'.entries = disk.entries)
    (q : List Text) :
    disk'.entry q = disk.entry q := by
  rw [entry, entry, h]

theorem lookup_filter_ne
    {α β : Type} [BEq α] [LawfulBEq α] [DecidableEq α]
    (l : List (α × β))
    (p q : α) :
    (l.filter fun x => x.1 ≠ p).lookup q = if q = p then none else l.lookup q := by
  induction l with
  | nil => simp
  | cons x l ih =>
      obtain ⟨a, b⟩ := x
      by_cases ha : a = p
      · rw [List.filter_cons_of_neg (by simpa using ha), ih]
        by_cases hq : q = p
        · rw [if_pos hq, if_pos hq]
        · have hne : (q == a) = false := by simpa [ha] using hq
          rw [if_neg hq, if_neg hq, List.lookup_cons, hne]
      · rw [List.filter_cons_of_pos (by simpa using ha), List.lookup_cons, List.lookup_cons, ih]
        by_cases hq : q = a
        · have heq : (q == a) = true := by simpa using hq
          have hp : q ≠ p := by rwa [hq]
          simp only [heq, if_neg hp]
        · have hne : (q == a) = false := by simpa using hq
          simp only [hne]

theorem entry_put
    (hp : p ≠ [])
    (e : Entry)
    (q : List Text) :
    (disk.put p e).entry q = if q = p then some e else disk.entry q := by
  unfold entry put
  by_cases hq : q = p
  · simp [hq, hp]
  · rw [if_neg hq]
    split
    · rfl
    · have hne : (q == p) = false := by simpa using hq
      simp only [List.lookup_cons, hne, lookup_filter_ne, if_neg hq]

theorem entry_remove
    (hp : p ≠ [])
    (q : List Text) :
    (disk.remove p).entry q = if q = p then none else disk.entry q := by
  simp only [entry, remove, lookup_filter_ne]
  by_cases hq : q = []
  · rw [if_pos hq, if_pos hq, if_neg]
    rw [hq]
    exact fun h => hp h.symm
  · rw [if_neg hq, if_neg hq]

theorem mem_inside :
    q ∈ disk.inside p ↔ q ≠ [] ∧ q.dropLast = p ∧ disk.entry q ≠ none := by
  unfold inside
  rw [List.mem_filter]
  constructor
  · rintro ⟨hmem, hcond⟩
    obtain ⟨hne, hdrop⟩ : q ≠ [] ∧ q.dropLast = p := by simpa using hcond
    refine ⟨hne, hdrop, fun hnone => ?_⟩
    rw [entry, if_neg hne, List.lookup_eq_none_iff] at hnone
    obtain ⟨x, hx, rfl⟩ := List.mem_map.mp hmem
    simpa using hnone x hx
  · rintro ⟨hne, hdrop, hentry⟩
    refine ⟨?_, by simpa using ⟨hne, hdrop⟩⟩
    by_contra hmem
    rw [entry, if_neg hne] at hentry
    refine hentry (List.lookup_eq_none_iff.mpr fun x hx => ?_)
    by_contra heq
    have heq : q = x.1 := by simpa using heq
    exact hmem (heq ▸ List.mem_map_of_mem hx)

theorem inside_eq_nil :
    disk.inside p = [] ↔ ∀ q, q ≠ [] → q.dropLast = p → disk.entry q = none := by
  rw [List.eq_nil_iff_forall_not_mem]
  constructor
  · intro h q hne hdrop
    by_contra hentry
    exact h q (mem_inside.mpr ⟨hne, hdrop, hentry⟩)
  · intro h q hmem
    obtain ⟨hne, hdrop, hentry⟩ := mem_inside.mp hmem
    exact hentry (h q hne hdrop)

/-- Whether there is a file. -/
def isFile : Option Entry → Bool
  | some (.file _) => true
  | _ => false

theorem isFile_iff {e : Option Entry} : isFile e = true ↔ ∃ c, e = some (.file c) := by
  cases e with
  | none => simp [isFile]
  | some e => cases e <;> simp [isFile]

end Entries

section Ways

/-- The places on the way along names, with the one at its end. -/
def way : List Text → List Text → List (List Text)
  | p, [] => [p]
  | p, name :: names => p :: way (stepName p name) names

variable {disk disk' : Disk} {p q : List Text} {path : Text}

theorem mem_way_of_walk
    {names : List Text}
    (h : disk.walk p names = some q) :
    q ∈ way p names ∧ ∀ r ∈ way p names, r = q ∨ disk.entry r = some .folder := by
  induction names generalizing p with
  | nil =>
      obtain rfl : p = q := Option.some.inj h
      simp [way]
  | cons name names ih =>
      rw [walk] at h
      split at h
      · rename_i hfolder
        obtain ⟨hend, hfolders⟩ := ih h
        refine ⟨List.mem_cons_of_mem _ hend, fun r hr => ?_⟩
        rcases List.mem_cons.mp hr with rfl | hr
        · exact .inr hfolder
        · exact hfolders r hr
      · cases h

theorem walk_mono
    {names : List Text}
    (hmono : ∀ r, disk.entry r = some .folder → disk'.entry r = some .folder)
    (h : disk.walk p names = some q) :
    disk'.walk p names = some q := by
  induction names generalizing p with
  | nil => exact h
  | cons name names ih =>
      rw [walk] at h ⊢
      split at h
      · rename_i hfolder
        rw [if_pos (hmono p hfolder)]
        exact ih h
      · cases h

theorem walk_congr
    {names : List Text}
    (heq : ∀ r ∈ way p names, disk'.entry r = disk.entry r) :
    disk'.walk p names = disk.walk p names := by
  induction names generalizing p with
  | nil => rfl
  | cons name names ih =>
      rw [walk, walk, heq p (by simp [way])]
      split
      · exact ih fun r hr => heq r (List.mem_cons_of_mem _ hr)
      · rfl

theorem resolve_mono
    (hmono : ∀ r, disk.entry r = some .folder → disk'.entry r = some .folder)
    (h : disk.resolve path = some p) :
    disk'.resolve path = some p := by
  unfold resolve at h ⊢
  split at h
  · cases h
  · rename_i hne
    rw [if_neg hne]
    exact walk_mono hmono h

theorem resolve_congr
    (heq : ∀ r, disk'.entry r = disk.entry r)
    (path : Text) :
    disk'.resolve path = disk.resolve path := by
  unfold resolve
  split
  · rfl
  · exact walk_congr fun r _ => heq r

/-- The places on the way of a path. -/
def wayOf (path : Text) : List (List Text) :=
  way [] (tokens '/' path)

theorem stat_congr
    (heq : ∀ r ∈ wayOf path, disk'.entry r = disk.entry r) :
    disk'.stat path = disk.stat path := by
  unfold stat resolve
  split
  · rfl
  · rw [walk_congr heq]
    cases hwalk : disk.walk [] (tokens '/' path) with
    | none => rfl
    | some q => exact heq q (mem_way_of_walk hwalk).1

theorem entry_wayOf
    (h : disk.stat path ≠ none) :
    ∀ r ∈ wayOf path, disk.entry r ≠ none := by
  intro r hr
  unfold stat resolve at h
  split at h
  · exact absurd rfl h
  · cases hwalk : disk.walk [] (tokens '/' path) with
    | none =>
        rw [hwalk] at h
        exact absurd rfl h
    | some q =>
        rw [hwalk] at h
        rcases (mem_way_of_walk hwalk).2 r hr with rfl | hfolder
        · exact h
        · simp [hfolder]

/-- Some places have been cleared, and nothing else has changed. -/
def Cleared (places : List (List Text)) (disk disk' : Disk) : Prop :=
  ∀ q, (q ∈ places → disk'.entry q = none) ∧ (q ∉ places → disk'.entry q = disk.entry q)

theorem cleared_iff
    {places : List (List Text)} :
    Cleared places disk disk' ↔
      ∀ q, disk'.entry q = if q ∈ places then none else disk.entry q := by
  refine forall_congr' fun q => ?_
  by_cases hq : q ∈ places <;> simp [hq]

/-- A path leads where it led before unless its way goes through a cleared place. -/
theorem stat_of_cleared
    {places : List (List Text)}
    (h : Cleared places disk disk') :
    disk'.stat path = disk.stat path ↔
      (disk.stat path ≠ none → ∀ r ∈ wayOf path, r ∉ places) := by
  have hsame : (∀ r ∈ wayOf path, r ∉ places) → disk'.stat path = disk.stat path := fun hout =>
    stat_congr fun r hr => (h r).2 (hout r hr)
  have hcleared : disk'.stat path ≠ none → ∀ r ∈ wayOf path, r ∉ places := by
    intro hstat r hr hmem
    exact entry_wayOf hstat r hr ((h r).1 hmem)
  constructor
  · intro heq hstat
    exact hcleared (heq ▸ hstat)
  · intro hout
    by_cases hstat : disk.stat path = none
    · by_contra hne
      exact hne (hsame (hcleared fun hnone => hne (hnone.trans hstat.symm)))
    · exact hsame (hout hstat)

end Ways

section Trees

/-- Every entry is in a folder. -/
def IsTree (disk : Disk) : Prop :=
  ∀ q, q ≠ [] → disk.entry q ≠ none → disk.entry q.dropLast = some .folder

variable {disk disk' : Disk} {p q : List Text} {path : Text} {e : Entry}

theorem isTree_of_entries
    (h : ∀ x ∈ disk.entries, disk.entry x.1.dropLast = some .folder) :
    IsTree disk := by
  intro q hq hentry
  by_contra hfolder
  rw [entry, if_neg hq] at hentry
  refine hentry (List.lookup_eq_none_iff.mpr fun x hx => ?_)
  by_contra heq
  have heq : q = x.1 := by simpa using heq
  exact hfolder (heq ▸ h x hx)

theorem IsTree.of_entry
    (h : IsTree disk)
    (heq : ∀ q, disk'.entry q = disk.entry q) :
    IsTree disk' := by
  intro q hq hentry
  rw [heq] at hentry ⊢
  exact h q hq hentry

/-- There is nothing below a place without an entry. -/
theorem IsTree.none_below
    (h : IsTree disk)
    (hp : disk.entry p = none)
    (hpre : p <+: q) :
    disk.entry q = none := by
  obtain ⟨names, rfl⟩ := hpre
  induction names using List.reverseRecOn with
  | nil => rwa [List.append_nil]
  | append_singleton names name ih =>
      by_contra hentry
      have hfolder := h _ (by simp) hentry
      rw [← List.append_assoc, List.dropLast_concat, ih] at hfolder
      cases hfolder

theorem IsTree.put
    (h : IsTree disk)
    (hp : p ≠ [])
    (hparent : disk.entry p.dropLast = some .folder)
    (hentry : disk.entry p ≠ some .folder)
    (e : Entry) :
    IsTree (disk.put p e) := by
  intro q hq hne
  rw [entry_put hp] at hne ⊢
  have hfolder : disk.entry q.dropLast = some .folder := by
    by_cases hqp : q = p
    · rwa [hqp]
    · rw [if_neg hqp] at hne
      exact h q hq hne
  rw [if_neg, hfolder]
  intro heq
  exact hentry (heq ▸ hfolder)

theorem IsTree.remove
    (h : IsTree disk)
    (hp : p ≠ [])
    (hempty : disk.inside p = []) :
    IsTree (disk.remove p) := by
  intro q hq hne
  rw [entry_remove hp] at hne ⊢
  split at hne
  · exact absurd rfl hne
  · rw [if_neg]
    · exact h q hq hne
    · exact fun hdrop => hne (inside_eq_nil.mp hempty q hq hdrop)

/-- A path that leads to something else than a folder ends with a name in a folder. -/
theorem IsTree.of_resolve
    (h : IsTree disk)
    (hresolve : disk.resolve path = some p)
    (hentry : disk.entry p ≠ some .folder) :
    p ≠ [] ∧ disk.entry p.dropLast = some .folder ∧ (tokens '/' path).getLast? ≠ some ['.'] := by
  have hne : p ≠ [] := by
    rintro rfl
    exact hentry (entry_nil disk)
  unfold resolve at hresolve
  split at hresolve
  · cases hresolve
  · rcases List.eq_nil_or_concat (tokens '/' path) with hnil | ⟨names, name, hnames⟩
    · rw [hnil, walk] at hresolve
      exact absurd (Option.some.inj hresolve).symm hne
    · rw [hnames, List.concat_eq_append, walk_append] at hresolve
      obtain ⟨r, -, hstep⟩ := Option.bind_eq_some_iff.mp hresolve
      rw [walk] at hstep
      split at hstep
      · rename_i hr
        obtain rfl : stepName r name = p := Option.some.inj hstep
        -- a dot stays in the folder, two dots lead to the folder that it is in
        have hdot : name ≠ ['.'] := by
          rintro rfl
          exact hentry hr
        have hdots : name ≠ ['.', '.'] := by
          rintro rfl
          by_cases hnil : r = []
          · exact hentry (by simp [stepName, hnil])
          · exact hentry (by simpa [stepName] using h r hnil (by simp [hr]))
        refine ⟨hne, by simpa [stepName, hdot, hdots] using hr, ?_⟩
        simpa [hnames] using hdot
      · cases hstep

/-- `mkdir` fails and changes no entry, or it makes a folder where nothing was. -/
theorem mkdir_cases (fault : Option Errno) (path : Text) (disk : Disk) :
    ((disk.mkdir fault path).1 ≠ none ∧ (disk.mkdir fault path).2.entries = disk.entries) ∨
    ∃ p, (disk.mkdir fault path).1 = none ∧ disk.resolve path = some p ∧ disk.entry p = none ∧
      (disk.mkdir fault path).2 = (disk.put p .folder).called path := by
  unfold mkdir
  split
  · rename_i p hresolve
    split
    · rename_i hnone
      exact .inr ⟨p, rfl, hresolve, Option.isNone_iff_eq_none.mp hnone, rfl⟩
    · exact .inl ⟨by simp, rfl⟩
  · refine .inl ⟨?_, rfl⟩
    dsimp only
    split <;> simp
  · exact .inl ⟨by simp, rfl⟩

/-- `creat` changes no entry, or it makes an empty file. -/
theorem creat_cases (fault : Option Errno) (path : Text) (disk : Disk) :
    (disk.creat fault path).2.entries = disk.entries ∨
    ∃ p, disk.resolve path = some p ∧ disk.entry p ≠ some .folder ∧
      (disk.creat fault path).2 = (disk.put p (.file [])).called path := by
  unfold creat
  split
  · rename_i p hresolve
    split
    · exact .inl rfl
    · rename_i hfolder
      exact .inr ⟨p, hresolve, hfolder, rfl⟩
  · exact .inl rfl
  · exact .inl rfl

/-- Writing changes no entry, or the content of a file. -/
theorem write_cases (fails : Bool) (path content : Text) (disk : Disk) :
    (disk.write fails path content).2.entries = disk.entries ∨
    ∃ p, disk.resolve path = some p ∧ disk.entry p ≠ some .folder ∧
      (disk.write fails path content).2 = (disk.put p (.file content)).called path := by
  unfold write
  split
  · rename_i p old hresolve hstat
    split
    · exact .inl rfl
    · refine .inr ⟨p, hresolve, ?_, rfl⟩
      rw [stat, hresolve, Option.bind_some] at hstat
      simp [hstat]
  · exact .inl rfl

/-- `unlink` changes no entry, or it removes a file. -/
theorem unlink_cases (path : Text) (disk : Disk) :
    ((disk.unlink path).entries = disk.entries ∧
      ∀ p, disk.resolve path = some p → ∀ c, disk.entry p ≠ some (.file c)) ∨
    ∃ p c, disk.resolve path = some p ∧ disk.entry p = some (.file c) ∧
      disk.unlink path = (disk.remove p).called path := by
  unfold unlink
  split
  · rename_i p c hresolve hstat
    rw [stat, hresolve, Option.bind_some] at hstat
    exact .inr ⟨p, c, hresolve, hstat, rfl⟩
  · rename_i hnot
    refine .inl ⟨rfl, fun p hresolve c hentry => hnot p c hresolve ?_⟩
    rw [stat, hresolve, Option.bind_some, hentry]

/-- `rmdir` changes no entry, or it removes an empty folder. -/
theorem rmdir_cases (path : Text) (disk : Disk) :
    ((disk.rmdir path).entries = disk.entries ∧
      ∀ p, disk.resolve path = some p → p ≠ [] → disk.entry p = some .folder →
        disk.inside p = [] → (tokens '/' path).getLast? = some ['.']) ∨
    ∃ p, disk.resolve path = some p ∧ p ≠ [] ∧ disk.entry p = some .folder ∧
      disk.inside p = [] ∧ (tokens '/' path).getLast? ≠ some ['.'] ∧
      disk.rmdir path = (disk.remove p).called path := by
  unfold rmdir
  split
  · rename_i p hresolve
    split
    · rename_i hcond
      exact .inr ⟨p, hresolve, hcond.1, hcond.2.1, hcond.2.2.1, hcond.2.2.2, rfl⟩
    · rename_i hnot
      refine .inl ⟨rfl, fun q hq hne hfolder hempty => ?_⟩
      obtain rfl : p = q := Option.some.inj (hresolve.symm.trans hq)
      by_contra hlast
      exact hnot ⟨hne, hfolder, hempty, hlast⟩
  · rename_i hresolve
    refine .inl ⟨rfl, fun q hq => ?_⟩
    rw [hresolve] at hq
    cases hq

theorem entry_unlink
    (path : Text)
    (disk : Disk)
    (q : List Text) :
    (disk.unlink path).entry q =
      if disk.resolve path = some q ∧ isFile (disk.entry q) = true then none else disk.entry q := by
  rcases unlink_cases path disk with ⟨hsame, hnot⟩ | ⟨p, c, hresolve, hentry, heq⟩
  · rw [entry_congr hsame, if_neg]
    rintro ⟨hresolve, hfile⟩
    obtain ⟨c, hentry⟩ := isFile_iff.mp hfile
    exact hnot q hresolve c hentry
  · have hp : p ≠ [] := by
      rintro rfl
      simp at hentry
    rw [heq, entry_called, entry_remove hp, hresolve]
    by_cases hq : q = p
    · rw [if_pos hq, if_pos]
      exact ⟨by rw [hq], isFile_iff.mpr ⟨c, hq ▸ hentry⟩⟩
    · rw [if_neg hq, if_neg]
      exact fun h => hq (Option.some.inj h.1).symm

theorem IsTree.of_put
    (h : IsTree disk)
    (hresolve : disk.resolve path = some p)
    (hentry : disk.entry p ≠ some .folder)
    (e : Entry)
    (called : Text) :
    IsTree ((disk.put p e).called called) := by
  obtain ⟨hp, hparent, -⟩ := h.of_resolve hresolve hentry
  exact (h.put hp hparent hentry e).of_entry fun _ => rfl

theorem IsTree.mkdir
    (h : IsTree disk)
    (fault : Option Errno)
    (path : Text) :
    IsTree (disk.mkdir fault path).2 := by
  rcases mkdir_cases fault path disk with ⟨-, hsame⟩ | ⟨p, -, hresolve, hnone, heq⟩
  · exact h.of_entry (entry_congr hsame)
  · rw [heq]
    exact h.of_put hresolve (by simp [hnone]) _ _

theorem IsTree.creat
    (h : IsTree disk)
    (fault : Option Errno)
    (path : Text) :
    IsTree (disk.creat fault path).2 := by
  rcases creat_cases fault path disk with hsame | ⟨p, hresolve, hentry, heq⟩
  · exact h.of_entry (entry_congr hsame)
  · rw [heq]
    exact h.of_put hresolve hentry _ _

theorem IsTree.write
    (h : IsTree disk)
    (fails : Bool)
    (path content : Text) :
    IsTree (disk.write fails path content).2 := by
  rcases write_cases fails path content disk with hsame | ⟨p, hresolve, hentry, heq⟩
  · exact h.of_entry (entry_congr hsame)
  · rw [heq]
    exact h.of_put hresolve hentry _ _

theorem IsTree.unlink
    (h : IsTree disk)
    (path : Text) :
    IsTree (disk.unlink path) := by
  rcases unlink_cases path disk with ⟨hsame, -⟩ | ⟨p, c, hresolve, hentry, heq⟩
  · exact h.of_entry (entry_congr hsame)
  · rw [heq]
    have hp : p ≠ [] := by
      rintro rfl
      simp at hentry
    refine (h.remove hp (inside_eq_nil.mpr fun q hne hdrop => ?_)).of_entry fun _ => rfl
    by_contra hq
    have hfolder := h q hne hq
    rw [hdrop, hentry] at hfolder
    cases hfolder

theorem IsTree.rmdir
    (h : IsTree disk)
    (path : Text) :
    IsTree (disk.rmdir path) := by
  rcases rmdir_cases path disk with ⟨hsame, -⟩ | ⟨p, -, hp, -, hempty, -, heq⟩
  · exact h.of_entry (entry_congr hsame)
  · rw [heq]
    exact (h.remove hp hempty).of_entry fun _ => rfl

theorem keptByCalls_isTree (paths : List Text) : KeptByCalls paths IsTree where
  mkdir fault path _ _ h := h.mkdir fault path
  creat fault path _ _ h := h.creat fault path
  write fails path content _ _ h := h.write fails path content
  unlink path _ _ h := h.unlink path
  rmdir path _ _ h := h.rmdir path

end Trees

end Disk
