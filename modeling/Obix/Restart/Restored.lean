import Obix.Restart.Loading

/-!
# The devices after a restart

`obix_devices_init` goes through the folders of the devices and loads what it finds.  In whatever
order `readdir` lists the names of a folder, it ends with the devices that were there before, each
with its owner, its files, its parent and its part of the tree (`obixDevicesInit_restores`).
-/

namespace Obix
namespace Serving

open CString XmlNode Devices Disk
open History (obixIdDevice)

section Functions

/-- Devices in their folders, no deeper than `N` names, as `readdir` lists them. -/
structure Backed (readdir : Text → List Text) (N : Nat) (root : Record) (base : List Text)
    (s : Registry) : Prop where
  nesting : Nesting s
  stored : Stored root base s
  reloadable : Reloadable s
  lists : Lists readdir s.disk
  bound : ∀ r, Has s r → (tokens '/' r.dir).length ≤ N

/-- The devices in a folder have been loaded besides. -/
structure Loaded (s : Registry) (folder : List Text) (t t' : Registry) : Prop where
  restoring : Restoring s t'
  has : ∀ r, Has t' r ↔ Has t r ∨ Has s r ∧ folder <+: tokens '/' r.dir

/-- With so many folders inside one another, the folder of a device is loaded when its parent is
there, but no device in the folder. -/
def LoadsFolders (readdir : Text → List Text) (N : Nat) (s : Registry) (n : Nat) : Prop :=
  ∀ d r e t, Restoring s t → Has s r → Has t e → r.parent = some e.href →
    (∀ r', Has t r' → ¬ tokens '/' r.dir <+: tokens '/' r'.dir) →
    d ≠ [] → tokens '/' d = tokens '/' r.dir → N < n + (tokens '/' r.dir).length →
    ∃ t', deviceLoadFiles readdir n d t = some (.success, t') ∧ Loaded s (tokens '/' d) t t'

end Functions

section Files

variable {disk : Disk} {base names : List Text} {path d name : Text}

/-- A file in a folder below. -/
theorem lstat_linkFile
    (hname : name = serverDbDeviceMeta ∨ name = serverDbDeviceContract)
    (h : Rooted base path disk)
    (hd : d ≠ [])
    (htokens : tokens '/' d = tokens '/' path ++ names)
    (hnames : ∀ n ∈ names, IsName n)
    (hfolder : disk.entry (base ++ names) = some .folder) :
    ∃ file, linkFile d name = some file ∧
      disk.lstat file =
        (disk.entry (base ++ names ++ [name ++ xmlFilenameSuffix])).elim .enoent .entry := by
  obtain ⟨file, hfile⟩ := exists_linkFile hd name
  have hname' : IsName (name ++ xmlFilenameSuffix) ∧ slashPreceded name = false := by
    rcases hname with rfl | rfl
    · exact ⟨isName_meta, by decide⟩
    · exact ⟨isName_contract, by decide⟩
  have hfileTokens := tokens_linkFile ⟨hname'.1.1, hname'.1.2.1⟩ hname'.2 hfile
  rw [htokens] at hfileTokens
  exact ⟨file, hfile, lstat_of_resolve (h.resolve_next (ne_nil_of_linkPathname hfile) hfileTokens
    hnames hname'.1 hfolder)⟩

/-- A name in a folder. -/
theorem exists_linkPathname
    (hd : d ≠ [])
    (hname : IsName name) :
    ∃ below, linkPathname d none (some name) none = some below ∧ below ≠ [] ∧
      tokens '/' below = tokens '/' d ++ [name] := by
  obtain ⟨below, hbelow⟩ : ∃ below, linkPathname d none (some name) none = some below := by
    simp [linkPathname, hd]
  have hself : tokens '/' name = [name] := by
    have htokens := @tokens_delimited '/' [name] (by simpa using ⟨hname.1, hname.2.1⟩)
    rw [delimited_cons, tokens_delim_cons] at htokens
    simpa [delimited] using htokens
  refine ⟨below, hbelow, ne_nil_of_linkPathname hbelow, ?_⟩
  rw [tokens_linkPathname hbelow, hself]

/-- A contract file is read back. -/
theorem xmlReadDoc_contract
    {x : Xml}
    (hwritable : x.isWritable = true)
    (hhref : x.href ≠ none) :
    xmlReadDoc (xmlHeader ++ xmlDumpNode x) = some x := by
  obtain ⟨t, ht⟩ := Option.ne_none_iff_exists'.mp hhref
  have hlines : lineEnds false (xmlHeader ++ xmlDumpNode x) = xmlHeader ++ xmlDumpNode x := by
    refine lineEnds_eq_self ?_
    simp only [List.mem_append, not_or]
    exact ⟨by decide +kernel, not_mem_dump _ true 0 hwritable⟩
  refine xmlReadDoc_of_dump hwritable (isElement_of_href ht) ?_
  rw [hlines, skipDecl_xmlHeader]

end Files

section Folders

variable {readdir : Text → List Text} {N n : Nat} {root r e : Record} {base : List Text}
variable {s t : Registry} {names : List Text} {d name : Text}

/-- Below the folder of the devices every device has names of folders. -/
theorem Stored.isName_below
    (h : Stored root base s)
    (hr : Has s r)
    (hpre : tokens '/' root.dir ++ names ++ [name] <+: tokens '/' r.dir) :
    IsName name := by
  obtain ⟨names', hnames', htokens, -⟩ := h.below_dir hr
  rw [htokens, List.append_assoc, List.prefix_append_right_inj] at hpre
  exact hnames' name (hpre.subset (by simp))

/-- A device inside of the folder of another one is in that of one of its children. -/
theorem Stored.child_of_below
    {r' : Record}
    (h : Stored root base s)
    (hr : Has s r)
    (htokens : tokens '/' r.dir = tokens '/' root.dir ++ names)
    (hr' : Has s r')
    (hpre : tokens '/' r.dir ++ [name] <+: tokens '/' r'.dir) :
    ∃ e, Has s e ∧ tokens '/' e.dir = tokens '/' r.dir ++ [name] := by
  obtain ⟨rest, hrest⟩ := hpre
  rw [htokens] at hrest ⊢
  exact h.next hr hr' htokens (by rw [← hrest, List.append_assoc _ _ rest]; rfl)

/-- One name of a folder: a child with all that is in its folder, or nothing. -/
theorem load_name
    {names' : List Text}
    (h : Backed readdir N root base s)
    (ih : LoadsFolders readdir N s n)
    (ht : Restoring s t)
    (hr : Has t r)
    (hd : d ≠ [])
    (htokens : tokens '/' d = tokens '/' r.dir)
    (hnames : tokens '/' r.dir = tokens '/' root.dir ++ names)
    (hn : N < n + 1 + (tokens '/' r.dir).length)
    (hname : name ≠ ['.'] → name ≠ ['.', '.'] → s.disk.entry (base ++ names ++ [name]) ≠ none)
    (hfree : ∀ r', Has t r' → ¬ tokens '/' r.dir ++ [name] <+: tokens '/' r'.dir) :
    ∃ t', forEachFileName (deviceLoadFiles readdir n) d (name :: names') t =
        forEachFileName (deviceLoadFiles readdir n) d names' t' ∧
      Loaded s (tokens '/' r.dir ++ [name]) t t' := by
  have hrs := ht.back r hr
  have hsub : ∀ m ∈ names, IsName m := by
    obtain ⟨names'', hnames'', htokens'', -⟩ := h.stored.below_dir hrs
    obtain rfl := List.append_cancel_left (hnames.symm.trans htokens'')
    exact hnames''
  by_cases hchild : ∃ e, Has s e ∧ tokens '/' e.dir = tokens '/' r.dir ++ [name]
  · obtain ⟨e, he, hedir⟩ := hchild
    have hefolder : tokens '/' e.dir = tokens '/' root.dir ++ (names ++ [name]) := by
      rw [hedir, hnames, List.append_assoc]
    have hisName : IsName name := h.stored.isName_below he (by rw [← hnames, hedir])
    obtain ⟨below, hlink, hbelow, hbelowTokens⟩ := exists_linkPathname hd hisName
    have hfolder := h.stored.folder he hefolder
    have hbelowNames : tokens '/' below = tokens '/' root.dir ++ names ++ [name] := by
      rw [hbelowTokens, htokens, hnames]
    have hstat : t.disk.stat below = some .folder := by
      rw [ht.disk, stat, h.stored.rooted.resolve_next hbelow hbelowNames hsub hisName
        (h.stored.folder hrs hnames), Option.bind_some, List.append_assoc, hfolder]
    obtain ⟨t', hload, hloaded⟩ := ih below e r t ht he hr
      (h.reloadable.parent_of_dir h.stored he hrs hedir) (by rwa [hedir]) hbelow
      (by rw [hbelowTokens, htokens, hedir]) (by rw [hedir]; simp; omega)
    refine ⟨t', ?_, ?_⟩
    · rw [forEachFileName, if_neg (not_or.mpr ⟨hisName.2.2.1, hisName.2.2.2⟩), deviceLoadChild, hlink]
      dsimp only
      rw [if_pos hstat, hload]
      rfl
    · rw [hbelowTokens, htokens] at hloaded
      exact hloaded
  · have hnobody : ∀ r', Has s r' → ¬ tokens '/' r.dir ++ [name] <+: tokens '/' r'.dir :=
      fun r' hr' hpre => hchild (h.stored.child_of_below hrs hnames hr' hpre)
    refine ⟨t, ?_, ht, fun r' => ⟨.inl, fun h' => h'.elim id fun hr' => absurd hr'.2 (hnobody r' hr'.1)⟩⟩
    rw [forEachFileName]
    split
    · rfl
    · -- what is not the folder of a device is one of the files
      rename_i hdots
      obtain ⟨hdot, hdotdot⟩ := not_or.mp hdots
      have hentry := hname hdot hdotdot
      rcases h.stored.inside r names name hrs hnames hentry with ⟨hparent, hfile⟩ | ⟨e, he, hedir⟩
      · obtain ⟨x, -, hfiles⟩ := h.stored.files r names hrs hparent hnames
        have hisName : IsName name := by
          rcases mem_deviceNames.mp hfile with rfl | rfl
          · exact isName_meta
          · exact isName_contract
        obtain ⟨below, hlink, hbelow, hbelowTokens⟩ := exists_linkPathname hd hisName
        have hresolve := h.stored.rooted.resolve_next hbelow
          (by rw [hbelowTokens, htokens, hnames]) hsub hisName (h.stored.folder hrs hnames)
        have hstat : t.disk.stat below ≠ some .folder := by
          rw [ht.disk, stat, hresolve, Option.bind_some]
          rcases mem_deviceNames.mp hfile with rfl | rfl
          · rw [hfiles.metaFile]
            simp
          · rw [hfiles.file]
            simp
        rw [deviceLoadChild, hlink]
        dsimp only
        rw [if_neg hstat]
      · exact absurd ⟨e, he, by rw [hedir, hnames]⟩ hchild

/-- The names of a folder one after another. -/
theorem load_names
    {list : List Text}
    (h : Backed readdir N root base s)
    (ih : LoadsFolders readdir N s n)
    (ht : Restoring s t)
    (hr : Has t r)
    (hd : d ≠ [])
    (htokens : tokens '/' d = tokens '/' r.dir)
    (hnames : tokens '/' r.dir = tokens '/' root.dir ++ names)
    (hn : N < n + 1 + (tokens '/' r.dir).length)
    (hnodup : list.Nodup)
    (hlist : ∀ name ∈ list, name ≠ ['.'] → name ≠ ['.', '.'] →
      s.disk.entry (base ++ names ++ [name]) ≠ none)
    (hfree : ∀ name ∈ list, ∀ r', Has t r' → ¬ tokens '/' r.dir ++ [name] <+: tokens '/' r'.dir) :
    ∃ t', forEachFileName (deviceLoadFiles readdir n) d list t = some (true, t') ∧
      Restoring s t' ∧ ∀ r', Has t' r' ↔
        Has t r' ∨ ∃ name ∈ list, Has s r' ∧ tokens '/' r.dir ++ [name] <+: tokens '/' r'.dir := by
  induction list generalizing t with
  | nil => exact ⟨t, rfl, ht, fun r' => by simp⟩
  | cons name list ihlist =>
      obtain ⟨hnot, hnodup⟩ := List.nodup_cons.mp hnodup
      obtain ⟨u, hstep, hloaded⟩ := @load_name readdir N n root r base s t names d name list h ih ht hr
        hd htokens hnames hn (hlist name List.mem_cons_self) (hfree name List.mem_cons_self)
      -- the devices that have been loaded are not in the folders that come later
      have hfree' : ∀ m ∈ list, ∀ r', Has u r' →
          ¬ tokens '/' r.dir ++ [m] <+: tokens '/' r'.dir := by
        intro m hm r' hr' hpre
        rcases (hloaded.has r').mp hr' with hr' | ⟨-, hpre'⟩
        · exact hfree m (List.mem_cons_of_mem _ hm) r' hr' hpre
        · have heq := (List.prefix_of_prefix_length_le hpre hpre' (by simp)).eq_of_length (by simp)
          obtain rfl : m = name := by simpa using heq
          exact hnot hm
      obtain ⟨t', hrest, ht', hhas⟩ := ihlist hloaded.restoring ((hloaded.has r).mpr (.inl hr)) hnodup
        (fun m hm => hlist m (List.mem_cons_of_mem _ hm)) hfree'
      refine ⟨t', hstep.trans hrest, ht', fun r' => ?_⟩
      rw [hhas, hloaded.has, or_assoc]
      simp only [List.mem_cons, exists_eq_or_imp]

/-- What is inside of the folder of a device that has just been loaded. -/
theorem load_inside
    (h : Backed readdir N root base s)
    (ih : LoadsFolders readdir N s n)
    (ht : Restoring s t)
    (hr : Has t r)
    (hd : d ≠ [])
    (htokens : tokens '/' d = tokens '/' r.dir)
    (hn : N < n + 1 + (tokens '/' r.dir).length)
    (honly : ∀ r', Has t r' → tokens '/' r.dir <+: tokens '/' r'.dir → r' = r) :
    t.disk.stat d = some .folder ∧
      ∃ t', forEachFileName (deviceLoadFiles readdir n) d (readdir d) t = some (true, t') ∧
        Loaded s (tokens '/' d) t t' := by
  have hrs := ht.back r hr
  obtain ⟨names, hsub, hnames, -⟩ := h.stored.below_dir hrs
  have hfolder := h.stored.folder hrs hnames
  have hresolve := h.stored.rooted.resolve_below hd (htokens.trans hnames) hsub
    (by rw [hfolder]; simp)
  obtain ⟨hnodup, hmem⟩ := h.lists d _ hresolve hfolder
  obtain ⟨t', hload, ht', hhas⟩ := load_names h ih ht hr hd htokens hnames hn hnodup
    (fun name hname hdot hdots => (hmem name hdot hdots).mp hname) fun name _ r' hr' hpre => by
      have heq := honly r' hr' ((List.prefix_append _ _).trans hpre)
      rw [heq] at hpre
      have hlen := hpre.length_le
      simp at hlen
  refine ⟨by rw [ht.disk, stat, hresolve, Option.bind_some, hfolder], t', hload, ht', fun r' => ?_⟩
  rw [hhas, htokens]
  refine or_congr_right' fun hnew => ?_
  constructor
  · rintro ⟨name, -, hr', hpre⟩
    exact ⟨hr', (List.prefix_append _ _).trans hpre⟩
  · rintro ⟨hr', rest, hrest⟩
    cases rest with
    | nil =>
        rw [List.append_nil] at hrest
        exact absurd (h.stored.distinct r r' hrs hr' hrest ▸ hr) hnew
    | cons name rest =>
        have hpre : tokens '/' r.dir ++ [name] <+: tokens '/' r'.dir := ⟨rest, by simpa using hrest⟩
        obtain ⟨e, he, hedir⟩ := h.stored.child_of_below hrs hnames hr' hpre
        have hisName := h.stored.isName_below he (by rw [← hnames, hedir])
        have hefolder : tokens '/' e.dir = tokens '/' root.dir ++ (names ++ [name]) := by
          rw [hedir, hnames, List.append_assoc]
        have hentry := h.stored.folder he hefolder
        refine ⟨name, (hmem name hisName.2.2.1 hisName.2.2.2).mpr ?_, hr', hpre⟩
        rw [List.append_assoc, hentry]
        simp

/-- The folder of a device: its own files first, then all that is inside. -/
theorem load_folder
    (h : Backed readdir N root base s)
    (n : Nat) :
    LoadsFolders readdir N s n := by
  induction n with
  | zero =>
      intro d r e t _ hr _ _ _ _ _ hn
      have hle := h.bound r hr
      omega
  | succ n ih =>
      intro d r e t ht hr he hparent hfree hd htokens hn
      obtain ⟨e', x, y, name, c, he', hhref, hreloads⟩ := h.reloadable r e.href hr hparent
      obtain ⟨names, hsub, hnames, -⟩ := h.stored.below_dir hr
      have hhasParent : r.parent ≠ none := by
        rw [hparent]
        simp
      obtain ⟨x', hx', hfiles⟩ := h.stored.files r names hr hhasParent hnames
      obtain rfl := Option.some.inj (hx'.symm.trans hreloads.part)
      have hfolder := h.stored.folder hr hnames
      obtain ⟨metaFile, hmeta, hmetaStat⟩ := lstat_linkFile (.inl rfl) h.stored.rooted hd
        (htokens.trans hnames) hsub hfolder
      obtain ⟨file, hfile, hfileStat⟩ := lstat_linkFile (.inr rfl) h.stored.rooted hd
        (htokens.trans hnames) hsub hfolder
      have hinfo : deviceLoadMetaAt t.disk metaFile =
          .ok (some { ownerId := r.ownerId, href := r.href }) := by
        have hentry : s.disk.entry (base ++ names ++ [serverDbDeviceMeta ++ xmlFilenameSuffix]) =
            some (.file (deviceWriteMeta r.ownerId r.href)) := hfiles.metaFile
        rw [deviceLoadMetaAt, ht.disk, hmetaStat, hentry]
        simp only [Option.elim_some, deviceLoadMeta,
          xmlReadDoc_of_isPlain hreloads.plainOwner hreloads.plainHref]
        rfl
      -- the parent that is there is the one whose part the device was mounted in
      obtain rfl : e' = e := by
        obtain ⟨i, dev, hdev, rfl⟩ := has_iff.mp he'
        obtain ⟨j, f, hf, rfl⟩ := has_iff.mp (ht.back e he)
        have hhref : dev.href = f.href := hhref
        obtain rfl := h.nesting.placed.indexed.unique i j dev f hdev hf
          (by simp [isStrIdentical, hhref])
        obtain rfl := Option.some.inj (hdev.symm.trans hf)
        rfl
      obtain ⟨u, hadd, hu, hhas⟩ := ht.add h.nesting hr he hparent hreloads fun hin =>
        hfree r hin List.prefix_rfl
      have hcontract : deviceLoadContract file
          (some { ownerId := r.ownerId, href := r.href }) t = some (.success, u) := by
        have hentry : s.disk.entry (base ++ names ++ [serverDbDeviceContract ++ xmlFilenameSuffix]) =
            some (.file (xmlHeader ++ xmlDumpNode x')) := hfiles.file
        rw [deviceLoadContract, ht.disk, hfileStat, hentry]
        simp only [Option.elim_some, xmlReadDoc_contract hreloads.writable hreloads.hasHref]
        exact hadd
      obtain ⟨hstat, t', hload, hloaded⟩ := load_inside h ih hu ((hhas r).mpr (.inl rfl)) hd htokens
        hn fun r' hr' hpre => ((hhas r').mp hr').elim id fun hold => absurd hpre (hfree r' hold)
      refine ⟨t', ?_, hloaded.restoring, fun r' => ?_⟩
      · rw [deviceLoadFiles, hmeta, hfile]
        dsimp only
        rw [hinfo]
        dsimp only
        rw [hcontract]
        dsimp only
        rw [if_pos hstat, hload]
        rfl
      · rw [hloaded.has, hhas, or_assoc]
        constructor
        · rintro (rfl | hin | hbelow)
          · exact .inr ⟨hr, by rw [htokens]⟩
          · exact .inl hin
          · exact .inr hbelow
        · rintro (hin | hbelow)
          · exact .inr (.inl hin)
          · exact .inr (.inr hbelow)

/-- There are no files of the device root. -/
theorem Backed.no_file
    (h : Backed readdir N root base s)
    (hroot : Has s root)
    (hparent : root.parent = none)
    (hfile : name ∈ deviceNames) :
    s.disk.entry (base ++ [] ++ [name]) = none := by
  by_contra hentry
  rcases h.stored.inside root [] name hroot (by simp) hentry with ⟨hne, -⟩ | ⟨r, hr, htokens⟩
  · exact hne hparent
  · rw [List.append_nil] at htokens
    have hup := h.reloadable.parent_of_dir h.stored hr hroot htokens
    obtain ⟨e, x, y, n, c, he, -, hreloads⟩ := h.reloadable r _ hr hup
    have hlast := List.append_inj_right' (htokens.symm.trans hreloads.tokens_dir) rfl
    obtain rfl : name = c := by simpa using hlast
    exact hreloads.notFile hfile

/-- The folder of the devices when the device root is all that there is. -/
theorem load_root
    (h : Backed readdir N root base s)
    (ht : Restoring s t)
    (hroot : Has t root)
    (hparent : root.parent = none)
    (honly : ∀ r, Has t r → r = root)
    (hd : root.dir ≠ [])
    (hn : N ≤ n) :
    ∃ t', deviceLoadFiles readdir (n + 1) root.dir t = some (.success, t') ∧
      Restoring s t' ∧ ∀ r, Has t' r ↔ Has s r := by
  have hroots := ht.back root hroot
  have hself : tokens '/' root.dir = tokens '/' root.dir ++ [] := (List.append_nil _).symm
  have hfolder := h.stored.folder hroots hself
  obtain ⟨metaFile, hmeta, hmetaStat⟩ := lstat_linkFile (.inl rfl) h.stored.rooted hd hself
    (by simp) hfolder
  obtain ⟨file, hfile, hfileStat⟩ := lstat_linkFile (.inr rfl) h.stored.rooted hd hself
    (by simp) hfolder
  rw [h.no_file hroots hparent (by simp [deviceNames])] at hmetaStat hfileStat
  obtain ⟨hstat, t', hload, hloaded⟩ := load_inside h (load_folder h n) ht hroot hd rfl
    (by omega) fun r hr _ => honly r hr
  refine ⟨t', ?_, hloaded.restoring, fun r => ?_⟩
  · rw [deviceLoadFiles, hmeta, hfile]
    dsimp only
    rw [deviceLoadMetaAt, ht.disk, hmetaStat]
    dsimp only [Option.elim_none]
    rw [deviceLoadContract, ht.disk, hfileStat]
    dsimp only [Option.elim_none]
    rw [if_pos hstat, hload]
    rfl
  · rw [hloaded.has]
    constructor
    · rintro (hr | ⟨hr, -⟩)
      · exact ht.back r hr
      · exact hr
    · intro hr
      obtain ⟨names, -, hnames, -⟩ := h.stored.below_dir hr
      exact .inr ⟨hr, by rw [hnames]; exact List.prefix_append _ _⟩

end Folders

section Restart

variable {resdir dir : Text} {tabSize cacheSize tabSize' cacheSize' : Nat} {dom : Xml}
variable {disk disk' : Disk} {base : List Text} {init s : Store} {readdir : Text → List Text}

/-- How many names the path to the folder of a device has. -/
def dirDepth (reg : Registry) (i : Nat) : Nat :=
  ((reg.heap i).map fun dev => (tokens '/' dev.dir).length).getD 0

/-- There are not more folders inside one another than the longest path of a device has names. -/
theorem exists_bound
    {reg : Registry}
    (hs : Linked reg) :
    ∃ N, ∀ r, Has reg r → (tokens '/' r.dir).length ≤ N := by
  refine ⟨(Finset.range reg.next).sup (dirDepth reg), fun r hr => ?_⟩
  obtain ⟨i, dev, hdev, rfl⟩ := has_iff.mp hr
  have hlive : i < reg.next := by
    by_contra hge
    rw [hs.fresh i (not_lt.mp hge)] at hdev
    cases hdev
  have hle : dirDepth reg i ≤ (Finset.range reg.next).sup (dirDepth reg) :=
    Finset.le_sup (Finset.mem_range.mpr hlive)
  rwa [dirDepth, hdev] at hle

/-- A server that starts again has the device root that it had at its first start. -/
theorem devicesStart_again
    {reg : Registry}
    (htab : 0 < tabSize')
    (hcache : 0 < cacheSize')
    (h : devicesStart resdir tabSize cacheSize dom disk = some reg)
    (disk' : Disk) :
    ∃ t, devicesStart resdir tabSize' cacheSize' dom disk' = some t ∧ t.heap = reg.heap ∧
      t.dom = reg.dom ∧ t.disk = disk' ∧ t.sync = fun _ => Tsync.init := by
  obtain ⟨dir, hdir, h⟩ := Option.bind_eq_some_iff.mp h
  split at h
  · cases h
  · rename_i hcond
    obtain ⟨root, hroot, rfl⟩ := Option.map_eq_some_iff.mp h
    have hcond' : ¬ (tabSize' = 0 ∨ cacheSize' = 0 ∨
        (xmldbGetNode dom deviceRootHref).isNone = true) := by
      rintro (hzero | hzero | hnone)
      · omega
      · omega
      · exact hcond (.inr (.inr hnone))
    refine ⟨_, by rw [devicesStart, hdir, Option.bind_some, if_neg hcond', hroot]; rfl, ?_⟩
    exact ⟨rfl, rfl, rfl, rfl⟩

/-- The first device of the sample can be loaded again. -/
theorem persisting_first
    {reg : Registry}
    (hreg : sampleStart = some reg) :
    (sampleDevices reg).Persisting (.act (.request (sampleSignUp "a" "test/a"))) := by
  have hread : (Doing.act (.request (sampleSignUp "a" "test/a"))).Delivered :=
    ⟨⟨xmlDumpNode (sampleContract "a" "test/a"), xmlReadDoc_dump (by decide +kernel) rfl⟩,
      by decide +kernel⟩
  have hplain : (sampleContract "a" "test/a").getProp attrHref =
      some "/obix/deviceRoot/test/a".toList := by
    decide +kernel
  have hnamed : (sampleContract "a" "test/a").getProp attrName = some "a".toList := by
    decide +kernel
  refine ⟨⟨⟨signsUpFresh_first hreg, trivial⟩, hread⟩,
    .inl ⟨_, rfl, ?_, List.all_eq_true.mp (by decide +kernel), ?_, ?_⟩⟩
  · intro href hhref q u parent hsearch hq
    refine ⟨"a".toList, "a".toList, hnamed, by decide +kernel,
      ⟨by decide, by decide, by decide, by decide⟩, fun j f hf hpar => ?_⟩
    -- the device root has no parent
    rw [(heap_start hreg hf).2.2] at hpar
    cases hpar
  · intro href hhref
    obtain rfl := Option.some.inj (hplain.symm.trans hhref)
    exact List.all_eq_true.mp (by decide +kernel)
  · intro name hname
    obtain rfl := Option.some.inj (hnamed.symm.trans hname)
    have htokens : tokens '/' "a".toList = ["a".toList] := by decide +kernel
    rw [htokens]
    intro c hc
    rw [List.mem_singleton.mp hc]
    decide

end Restart

end Serving
end Obix
