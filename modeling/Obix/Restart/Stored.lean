import Obix.Device.FailedSignUp
import Obix.Lib.DiskListing
import Obix.Restart.Records

/-!
# Devices on disk

What the folder of the devices holds (`Stored`): every device but the root has a folder of its own
in that of its parent, with its meta file, its contract file and the folders of its children, and
nothing else is there.  Setting up the files of a new device and removing those of a device without
children keep it so.
-/

namespace Obix
namespace Serving

open CString XmlNode Devices Disk

/-- The name of a meta file. -/
def metaName : Text := serverDbDeviceMeta ++ xmlFilenameSuffix

/-- The name of a contract file. -/
def contractName : Text := serverDbDeviceContract ++ xmlFilenameSuffix

theorem mem_deviceNames {name : Text} : name ∈ deviceNames ↔ name = metaName ∨ name = contractName :=
  List.mem_pair

/-- A folder with the two files of a device. -/
structure HoldsFiles (disk : Disk) (place : List Text) (r : Record) (x : Xml) : Prop where
  folder : disk.entry place = some .folder
  metaFile : disk.entry (place ++ [metaName]) = some (.file (deviceWriteMeta r.ownerId r.href))
  file : disk.entry (place ++ [contractName]) = some (.file (xmlHeader ++ xmlDumpNode x))

/-- The folder of the devices at a place, which a path leads to. -/
structure Stored (root : Record) (base : List Text) (s : Registry) : Prop where
  rooted : Rooted base root.dir s.disk
  top : ∀ r, Has s r → r.parent = none → r = root
  below : ∀ r, Has s r → r.parent ≠ none → ∃ names, names ≠ [] ∧ (∀ n ∈ names, IsName n) ∧
    tokens '/' r.dir = tokens '/' root.dir ++ names
  distinct : ∀ r r', Has s r → Has s r' → tokens '/' r.dir = tokens '/' r'.dir → r = r'
  files : ∀ r names, Has s r → r.parent ≠ none → tokens '/' r.dir = tokens '/' root.dir ++ names →
    ∃ x, r.part = some x ∧ HoldsFiles s.disk (base ++ names) r x
  inside : ∀ r names name, Has s r → tokens '/' r.dir = tokens '/' root.dir ++ names →
    s.disk.entry (base ++ names ++ [name]) ≠ none →
      r.parent ≠ none ∧ name ∈ deviceNames ∨
        ∃ r', Has s r' ∧ tokens '/' r'.dir = tokens '/' root.dir ++ names ++ [name]

section Calls

variable {dev : ObixDev} {disk disk' : Disk} {node : Xml} {faults : Faults} {place : List Text}

/-- Writing has worked. -/
theorem write_ok
    {fails : Bool} {path content : Text}
    (h : disk.write fails path content = (true, disk')) :
    ∃ p, disk.resolve path = some p ∧ disk' = (disk.put p (.file content)).called path := by
  rw [Disk.write] at h
  split at h
  · rename_i p old hp _
    split at h
    · cases h
    · cases h
      exact ⟨p, hp, rfl⟩
  · cases h

theorem names_ne : metaName ≠ contractName := by
  decide +kernel

theorem entry_put_called
    {p : List Text} {path content : Text}
    (hp : p ≠ [])
    (q : List Text) :
    ((disk.put p (.file content)).called path).entry q =
      if q = p then some (.file content) else disk.entry q := by
  rw [entry_called, entry_put hp]

/-- The files of a new device have been set up. -/
theorem deviceSetupFiles_ok
    (htree : IsTree disk)
    (hfiles : HasFiles dev)
    (h : deviceSetupFiles dev node faults disk = (.success, disk')) :
    ∃ place, New dev place disk ∧ SetUp place disk disk' ∧ disk'.entry place = some .folder ∧
      disk'.entry (place ++ [metaName]) = some (.file (deviceWriteMeta dev.ownerId dev.href)) ∧
      disk'.entry (place ++ [contractName]) = some (.file (xmlHeader ++ xmlDumpNode node)) := by
  have hcreate := deviceCreateFiles_setUp htree hfiles faults
  obtain ⟨metaFile, hmeta⟩ := exists_linkFile hfiles.dir serverDbDeviceMeta
  obtain ⟨file, hfile⟩ := exists_linkFile hfiles.dir serverDbDeviceContract
  rw [← hfiles.metaFile] at hmeta
  rw [← hfiles.file] at hfile
  unfold deviceSetupFiles at h
  rw [hmeta, hfile] at h
  dsimp only [Option.getD_some] at h
  split at h
  · rename_i d hok
    rw [hok] at hcreate
    obtain ⟨place, hnew, hset⟩ := hcreate.resolve_left fun hfails => hfails.1 rfl
    split at h
    · cases h
    · rename_i d' hwrite
      split at h
      · cases h
      · rename_i d'' hwrite'
        cases h
        obtain ⟨p, hp, rfl⟩ := write_ok hwrite
        obtain ⟨hfolder, -⟩ := hnew.resolve_file hset (.inl hmeta) hp
        obtain ⟨metaPath, filePath, hmeta', hfile', hmetaPlace, hfilePlace⟩ :=
          resolve_of_files hfiles (hnew.resolve_dir hset) hfolder
        obtain rfl := Option.some.inj (hmeta.symm.trans hmeta')
        obtain rfl := Option.some.inj (hfile.symm.trans hfile')
        have hplace : p = place ++ [metaName] := Option.some.inj (hp.symm.trans hmetaPlace)
        subst hplace
        have hset' := hnew.write hset (.inl hmeta) faults.writeMeta
          (deviceWriteMeta dev.ownerId dev.href)
        rw [hwrite] at hset'
        have hset'' := hnew.write hset' (.inr hfile) faults.writeFile
          (xmlHeader ++ xmlDumpNode node)
        rw [hwrite'] at hset''
        obtain ⟨q, hq, rfl⟩ := write_ok hwrite'
        -- the meta file has not moved the folder
        have hentry := @entry_put_called d (place ++ [metaName]) metaFile
          (deviceWriteMeta dev.ownerId dev.href) (by simp)
        have hfolder' := hentry place
        rw [if_neg (by simp), hfolder] at hfolder'
        have hsame := resolve_of_files hfiles (hnew.resolve_dir hset') hfolder'
        obtain ⟨-, filePath', -, hfile'', -, hfilePlace'⟩ := hsame
        obtain rfl := Option.some.inj (hfile.symm.trans hfile'')
        have hplace' : q = place ++ [contractName] := Option.some.inj (hq.symm.trans hfilePlace')
        subst hplace'
        refine ⟨place, hnew, hset'', ?_, ?_, ?_⟩
        · rw [entry_put_called (by simp), if_neg (by simp), hfolder']
        · rw [entry_put_called (by simp), if_neg (by simpa using names_ne), hentry, if_pos rfl]
        · rw [entry_put_called (by simp), if_pos rfl]
  · rename_i e d hne hfails
    cases h
    exact absurd rfl hne

/-- Where there is no folder, a sign-up that is taken back leaves nothing behind. -/
theorem entry_withdrawn
    (htree : IsTree disk)
    (hfiles : HasFiles dev)
    (hfolder : ∀ place, disk.resolve dev.dir = some place → disk.entry place ≠ some .folder)
    (q : List Text) :
    (deviceRemoveFiles dev (deviceSetupFiles dev node faults disk).2).entry q = disk.entry q := by
  have hswept : swept dev disk = [] := by
    unfold swept
    split
    · rfl
    · rename_i place hresolve
      rw [if_neg (hfolder place hresolve)]
  rw [cleared_iff.mp (cleared_withdrawn htree hfiles node faults) q, hswept, if_neg (by simp)]

/-- Removing the files of a device with nothing else in its folder. -/
theorem entry_removed
    (hfiles : HasFiles dev)
    (htree : IsTree disk)
    (hresolve : disk.resolve dev.dir = some place)
    (hfolder : disk.entry place = some .folder)
    (hne : place ≠ [])
    (hlast : (tokens '/' dev.dir).getLast? ≠ some ['.'])
    (hinside : ∀ name, disk.entry (place ++ [name]) ≠ none →
      name ∈ deviceNames ∧ isFile (disk.entry (place ++ [name])) = true)
    (q : List Text) :
    (deviceRemoveFiles dev disk).entry q = if place <+: q then none else disk.entry q := by
  have hmem : ∀ r ∈ disk.inside place, r ∈ filesIn place disk := by
    intro r hr
    obtain ⟨hrne, hdrop, hentry⟩ := mem_inside.mp hr
    obtain ⟨name, hname⟩ : ∃ name, r = place ++ [name] :=
      ⟨r.getLast hrne, by rw [← hdrop, List.dropLast_append_getLast]⟩
    subst hname
    obtain ⟨hname, hfile⟩ := hinside name hentry
    exact mem_filesIn.mpr ⟨⟨name, hname, rfl⟩, hfile⟩
  have hswept : swept dev disk = place :: filesIn place disk := by
    rw [swept, hresolve]
    dsimp only
    rw [if_pos hfolder, if_pos]
    exact ⟨hne, List.all_eq_true.mpr fun r hr => List.contains_iff_mem.mpr (hmem r hr), hlast⟩
  rw [cleared_iff.mp (cleared_deviceRemoveFiles hfiles disk) q, hswept]
  by_cases hpre : place <+: q
  · rw [if_pos hpre]
    split
    · rfl
    · rename_i hout
      by_contra hentry
      obtain ⟨names, rfl⟩ := hpre
      cases names with
      | nil => simp at hout
      | cons name names =>
          -- whatever is below is a file of the device
          have hnext : disk.entry (place ++ [name]) ≠ none := fun hnone =>
            hentry (htree.none_below hnone ⟨names, by simp⟩)
          obtain ⟨hname, hfile⟩ := hinside name hnext
          cases names with
          | nil => exact hout (List.mem_cons_of_mem _ (mem_filesIn.mpr ⟨⟨name, hname, rfl⟩, hfile⟩))
          | cons n names =>
              rw [List.append_cons] at hentry
              rw [htree.folder_above hentry] at hfile
              cases hfile
  · rw [if_neg hpre, if_neg]
    intro hmem
    rcases List.mem_cons.mp hmem with rfl | hmem
    · exact hpre List.prefix_rfl
    · obtain ⟨⟨name, -, rfl⟩, -⟩ := mem_filesIn.mp hmem
      exact hpre (List.prefix_append _ _)

end Calls

section Places

variable {s t : Registry} {base names names' : List Text} {root r r' e : Record}
variable {c : Text}

/-- A device has a folder. -/
theorem Stored.folder
    (h : Stored root base s)
    (hr : Has s r)
    (htokens : tokens '/' r.dir = tokens '/' root.dir ++ names) :
    s.disk.entry (base ++ names) = some .folder := by
  by_cases hparent : r.parent = none
  · rw [h.top r hr hparent] at htokens
    obtain rfl : names = [] := by simpa using htokens
    rw [List.append_nil, h.rooted.folder]
  · obtain ⟨x, -, hfiles⟩ := h.files r names hr hparent htokens
    exact hfiles.folder

/-- The names from the folder of the devices to that of a device. -/
theorem Stored.below_dir
    (h : Stored root base s)
    (hr : Has s r) :
    ∃ names, (∀ n ∈ names, IsName n) ∧ tokens '/' r.dir = tokens '/' root.dir ++ names ∧
      (r.parent ≠ none → names ≠ []) := by
  by_cases hparent : r.parent = none
  · exact ⟨[], by simp, by rw [h.top r hr hparent, List.append_nil], fun hne => absurd hparent hne⟩
  · obtain ⟨names, hne, hnames, htokens⟩ := h.below r hr hparent
    exact ⟨names, hnames, htokens, fun _ => hne⟩

/-- A device whose folder is inside of that of another one is not the only one there. -/
theorem Stored.next
    (h : Stored root base s)
    (hr : Has s r)
    (hr' : Has s r')
    (htokens : tokens '/' r.dir = tokens '/' root.dir ++ names)
    (htokens' : tokens '/' r'.dir = tokens '/' root.dir ++ names ++ c :: names') :
    ∃ e, Has s e ∧ tokens '/' e.dir = tokens '/' root.dir ++ names ++ [c] := by
  have hfolder' : s.disk.entry (base ++ names ++ c :: names') = some .folder := by
    rw [List.append_assoc] at htokens' ⊢
    exact h.folder hr' htokens'
  have hnext : s.disk.entry (base ++ names ++ [c]) = some .folder := by
    cases names' with
    | nil => exact hfolder'
    | cons n names' =>
        refine @IsTree.folder_above s.disk (base ++ names ++ [c]) names' n h.rooted.tree ?_
        rw [List.append_assoc, List.singleton_append, hfolder']
        simp
  rcases h.inside r names c hr htokens (by rw [hnext]; simp) with ⟨hparent, hname⟩ | hother
  · -- the names of the files are not those of folders
    obtain ⟨x, -, hfiles⟩ := h.files r names hr hparent htokens
    have hfile : ∃ content, s.disk.entry (base ++ names ++ [c]) = some (.file content) := by
      rcases mem_deviceNames.mp hname with rfl | rfl
      · exact ⟨_, hfiles.metaFile⟩
      · exact ⟨_, hfiles.file⟩
    obtain ⟨content, hfile⟩ := hfile
    rw [hnext] at hfile
    cases hfile
  · exact hother

/-- Nothing has changed. -/
theorem Stored.same
    (h : Stored root base s)
    (hhas : ∀ r, Has t r ↔ Has s r)
    (hentry : ∀ q, t.disk.entry q = s.disk.entry q) :
    Stored root base t where
  rooted := h.rooted.of_inside (h.rooted.tree.of_entry hentry) fun q _ => hentry q
  top r hr := h.top r ((hhas r).mp hr)
  below r hr := h.below r ((hhas r).mp hr)
  distinct r r' hr hr' := h.distinct r r' ((hhas r).mp hr) ((hhas r').mp hr')
  files r names hr hparent htokens := by
    obtain ⟨x, hx, hfiles⟩ := h.files r names ((hhas r).mp hr) hparent htokens
    exact ⟨x, hx, by rw [hentry, hfiles.folder], by rw [hentry, hfiles.metaFile],
      by rw [hentry, hfiles.file]⟩
  inside r names name hr htokens hne := by
    rw [hentry] at hne
    rcases h.inside r names name ((hhas r).mp hr) htokens hne with hfile | ⟨r', hr', htokens'⟩
    · exact .inl hfile
    · exact .inr ⟨r', (hhas r').mpr hr', htokens'⟩

/-- A device with its files is there besides. -/
theorem Stored.add
    {x : Xml}
    (h : Stored root base s)
    (hhas : ∀ r', Has t r' ↔ r' = r ∨ Has s r')
    (hparent : r.parent ≠ none)
    (hpart : r.part = some x)
    (hnames : ∀ n ∈ names, IsName n)
    (hname : IsName c)
    (htokens : tokens '/' r.dir = tokens '/' root.dir ++ (names ++ [c]))
    (htree : IsTree t.disk)
    (hfresh : s.disk.entry (base ++ (names ++ [c])) = none)
    (hset : SetUp (base ++ (names ++ [c])) s.disk t.disk)
    (hfiles : HoldsFiles t.disk (base ++ (names ++ [c])) r x) :
    Stored root base t := by
  -- nobody had the folder of the new device
  have hother : ∀ r' names', Has s r' → tokens '/' r'.dir = tokens '/' root.dir ++ names' →
      ¬ base ++ (names ++ [c]) <+: base ++ names' := by
    intro r' names' hr' htokens' hpre
    have hfolder := h.folder hr' htokens'
    rw [h.rooted.tree.none_below hfresh hpre] at hfolder
    cases hfolder
  have hfile : ∀ r' names' name, Has s r' → r'.parent ≠ none →
      tokens '/' r'.dir = tokens '/' root.dir ++ names' → name ∈ deviceNames →
      ¬ base ++ (names ++ [c]) <+: base ++ names' ++ [name] := by
    intro r' names' name hr' hparent' htokens' hname' hpre
    obtain ⟨y, -, hfiles'⟩ := h.files r' names' hr' hparent' htokens'
    have hnone := h.rooted.tree.none_below hfresh hpre
    rcases mem_deviceNames.mp hname' with rfl | rfl
    · exact absurd (hfiles'.metaFile.symm.trans hnone) (by simp)
    · exact absurd (hfiles'.file.symm.trans hnone) (by simp)
  constructor
  case rooted =>
    refine h.rooted.of_inside htree fun q hq => hset.outside q fun hpre => ?_
    have hbase := hq ((List.prefix_append base _).trans hpre)
    rw [hbase] at hpre
    have hlen := hpre.length_le
    simp at hlen
  case top =>
    intro r' hr' hparent'
    rcases (hhas r').mp hr' with rfl | hr'
    · exact absurd hparent' hparent
    · exact h.top r' hr' hparent'
  case below =>
    intro r' hr' hparent'
    rcases (hhas r').mp hr' with rfl | hr'
    · refine ⟨names ++ [c], by simp, fun n hn => ?_, htokens⟩
      rcases List.mem_append.mp hn with hn | hn
      · exact hnames n hn
      · rwa [List.mem_singleton.mp hn]
    · exact h.below r' hr' hparent'
  case distinct =>
    have hnew : ∀ r', Has s r' → tokens '/' r'.dir ≠ tokens '/' r.dir := by
      intro r' hr' heq
      exact hother r' _ hr' (heq.trans htokens) List.prefix_rfl
    intro r₁ r₂ hr₁ hr₂ heq
    rcases (hhas r₁).mp hr₁ with rfl | hr₁ <;> rcases (hhas r₂).mp hr₂ with rfl | hr₂
    · rfl
    · exact absurd heq.symm (hnew r₂ hr₂)
    · exact absurd heq (hnew r₁ hr₁)
    · exact h.distinct r₁ r₂ hr₁ hr₂ heq
  case files =>
    intro r' names' hr' hparent' htokens'
    rcases (hhas r').mp hr' with rfl | hr'
    · obtain rfl := List.append_cancel_left (htokens.symm.trans htokens')
      exact ⟨x, hpart, hfiles⟩
    · obtain ⟨y, hy, hfiles'⟩ := h.files r' names' hr' hparent' htokens'
      refine ⟨y, hy, ?_, ?_, ?_⟩
      · rw [hset.outside _ (hother r' names' hr' htokens'), hfiles'.folder]
      · rw [hset.outside _ (hfile r' names' _ hr' hparent' htokens' (by simp [deviceNames, metaName])),
          hfiles'.metaFile]
      · rw [hset.outside _ (hfile r' names' _ hr' hparent' htokens'
          (by simp [deviceNames, contractName])), hfiles'.file]
  case inside =>
    intro r' names' name hr' htokens' hentry
    rcases (hhas r').mp hr' with rfl | hr'
    · obtain rfl := List.append_cancel_left (htokens.symm.trans htokens')
      have hmem := hset.files _ (List.prefix_append _ [name]) hentry (by simp)
      obtain ⟨⟨name', hname', heq⟩, -⟩ := mem_filesIn.mp hmem
      obtain rfl : name = name' := by simpa using List.append_cancel_left heq
      exact .inl ⟨hparent, hname'⟩
    · by_cases hpre : base ++ (names ++ [c]) <+: base ++ names' ++ [name]
      · -- the folder of the new device
        rw [← List.append_assoc base] at hpre
        rcases List.prefix_concat_iff.mp hpre with heq | hpre
        · refine .inr ⟨r, (hhas r).mpr (.inl rfl), ?_⟩
          rw [List.append_assoc, List.append_assoc] at heq
          rw [htokens, List.append_cancel_left heq, List.append_assoc]
        · rw [List.append_assoc] at hpre
          exact absurd hpre (hother r' names' hr' htokens')
      · rw [hset.outside _ hpre] at hentry
        rcases h.inside r' names' name hr' htokens' hentry with hold | ⟨r'', hr'', htokens''⟩
        · exact .inl hold
        · exact .inr ⟨r'', (hhas r'').mpr (.inr hr''), htokens''⟩

/-- A device without children has been removed with its files. -/
theorem Stored.remove
    (h : Stored root base s)
    (hhas : ∀ r', Has t r' ↔ r' ≠ r ∧ Has s r')
    (hr : Has s r)
    (hparent : r.parent ≠ none)
    (htokens : tokens '/' r.dir = tokens '/' root.dir ++ names)
    (hleaf : ∀ e c, Has s e → tokens '/' e.dir ≠ tokens '/' root.dir ++ names ++ [c])
    (htree : IsTree t.disk)
    (hentry : ∀ q, t.disk.entry q = if base ++ names <+: q then none else s.disk.entry q) :
    Stored root base t := by
  have hne : names ≠ [] := by
    obtain ⟨names', hne, -, htokens'⟩ := h.below r hr hparent
    obtain rfl := List.append_cancel_left (htokens.symm.trans htokens')
    exact hne
  -- the folders of the others are not inside of the one that is removed
  have hother : ∀ r' names', r' ≠ r → Has s r' → tokens '/' r'.dir = tokens '/' root.dir ++ names' →
      ¬ base ++ names <+: base ++ names' := by
    intro r' names' hrr hr' htokens' hpre
    obtain ⟨rest, rfl⟩ := (List.prefix_append_right_inj base).mp hpre
    cases rest with
    | nil =>
        rw [List.append_nil, ← htokens] at htokens'
        exact hrr (h.distinct r' r hr' hr htokens')
    | cons c rest =>
        rw [← List.append_assoc] at htokens'
        obtain ⟨e, he, hetokens⟩ := h.next hr hr' htokens htokens'
        exact hleaf e c he hetokens
  have hfile : ∀ r' names' name, r' ≠ r → Has s r' → r'.parent ≠ none →
      tokens '/' r'.dir = tokens '/' root.dir ++ names' → name ∈ deviceNames →
      ¬ base ++ names <+: base ++ names' ++ [name] := by
    intro r' names' name hrr hr' hparent' htokens' hname hpre
    rcases List.prefix_concat_iff.mp hpre with heq | hpre
    · -- the folder is no file
      have hfolder := h.folder hr htokens
      obtain ⟨y, -, hfiles'⟩ := h.files r' names' hr' hparent' htokens'
      rw [heq] at hfolder
      rcases mem_deviceNames.mp hname with rfl | rfl
      · exact absurd (hfolder.symm.trans hfiles'.metaFile) (by simp)
      · exact absurd (hfolder.symm.trans hfiles'.file) (by simp)
    · exact hother r' names' hrr hr' htokens' hpre
  constructor
  case rooted =>
    refine h.rooted.of_inside htree fun q hq => ?_
    rw [hentry, if_neg]
    intro hpre
    have hbase := hq ((List.prefix_append base _).trans hpre)
    rw [hbase] at hpre
    have hlen := hpre.length_le
    have hpos := List.length_pos_of_ne_nil hne
    simp at hlen
    exact hne hlen
  case top => exact fun r' hr' => h.top r' ((hhas r').mp hr').2
  case below => exact fun r' hr' => h.below r' ((hhas r').mp hr').2
  case distinct =>
    exact fun r₁ r₂ hr₁ hr₂ => h.distinct r₁ r₂ ((hhas r₁).mp hr₁).2 ((hhas r₂).mp hr₂).2
  case files =>
    intro r' names' hr' hparent' htokens'
    obtain ⟨hrr, hr'⟩ := (hhas r').mp hr'
    obtain ⟨y, hy, hfiles'⟩ := h.files r' names' hr' hparent' htokens'
    refine ⟨y, hy, ?_, ?_, ?_⟩
    · rw [hentry, if_neg (hother r' names' hrr hr' htokens'), hfiles'.folder]
    · rw [hentry, if_neg (hfile r' names' _ hrr hr' hparent' htokens'
        (by simp [deviceNames, metaName])), hfiles'.metaFile]
    · rw [hentry, if_neg (hfile r' names' _ hrr hr' hparent' htokens'
        (by simp [deviceNames, contractName])), hfiles'.file]
  case inside =>
    intro r' names' name hr' htokens' hne'
    obtain ⟨hrr, hr'⟩ := (hhas r').mp hr'
    rw [hentry] at hne'
    split at hne'
    · exact absurd rfl hne'
    · rename_i hpre
      rcases h.inside r' names' name hr' htokens' hne' with hold | ⟨r'', hr'', htokens''⟩
      · exact .inl hold
      · refine .inr ⟨r'', (hhas r'').mpr ⟨?_, hr''⟩, htokens''⟩
        rintro rfl
        rw [List.append_assoc] at htokens''
        obtain rfl := List.append_cancel_left (htokens.symm.trans htokens'')
        exact hpre (by rw [List.append_assoc])

end Places

end Serving
end Obix
