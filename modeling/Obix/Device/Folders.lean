import Obix.Device.Hierarchy
import Obix.Lib.Tokens

/-!
# The folders of devices

The folder of a device is named after the `name` attribute of its contract, which the
handlers do not look at.  If every name is one name of a folder, and no two devices with
the same parent have the same one, then the calls for a device stay in its own folder below
that of its parent (`device_files_inside`).
-/

namespace Obix
namespace Devices

open CString Disk
open History (seLookup opDeviceRemove opDeviceDelete obixIdDevice)

section Paths

theorem tokens_linkFolder (r s : Text) :
    tokens '/' (linkFolder r ++ s) = tokens '/' r ++ tokens '/' s := by
  unfold linkFolder
  split
  · rename_i hslash
    simp only [slashFollowed, decide_eq_true_eq] at hslash
    obtain ⟨t, rfl⟩ : ∃ t, r = t ++ ['/'] :=
      ⟨r.dropLast, (List.dropLast_append_getLast? '/' hslash).symm⟩
    rw [List.append_assoc, List.singleton_append, tokens, tokensAux_append_delim, tokens, tokens,
      tokensAux_append_slash]
  · rw [List.append_assoc, List.singleton_append, tokens, tokensAux_append_delim]
    rfl

theorem tokens_skipSlash (s : Text) : tokens '/' (skipSlash s) = tokens '/' s := by
  unfold skipSlash
  split
  · rename_i hslash
    cases s with
    | nil => rfl
    | cons c s =>
        simp only [slashPreceded, List.head?_cons, Option.some.injEq, decide_eq_true_eq] at hslash
        rw [hslash, List.tail_cons, tokens_delim_cons]
  · rfl

/-- The names of a path that `link_pathname` puts together. -/
theorem tokens_linkPathname
    {root file path : Text}
    (h : linkPathname root none (some file) none = some path) :
    tokens '/' path = tokens '/' root ++ tokens '/' file := by
  unfold linkPathname at h
  split at h
  · cases h
  · obtain rfl := Option.some.inj h
    simp only [Option.elim_none, Option.elim_some, Option.getD_none, List.append_nil]
    rw [tokens_linkFolder, tokens_skipSlash]

theorem ne_nil_of_linkPathname
    {root path : Text} {file sfx : Option Text}
    (h : linkPathname root none file sfx = some path) :
    path ≠ [] := by
  unfold linkPathname at h
  split at h
  · cases h
  · rename_i hroot
    obtain rfl := Option.some.inj h
    unfold linkFolder
    split <;> simp [hroot]

theorem exists_linkFile
    {dir : Text}
    (hdir : dir ≠ [])
    (name : Text) :
    ∃ path, linkFile dir name = some path := by
  simp [linkFile, linkPathname, hdir]

theorem tokens_linkFile
    {dir name path : Text}
    (hname : IsToken '/' (name ++ xmlFilenameSuffix))
    (hslash : slashPreceded name = false)
    (h : linkFile dir name = some path) :
    tokens '/' path = tokens '/' dir ++ [name ++ xmlFilenameSuffix] := by
  unfold linkFile linkPathname at h
  split at h
  · cases h
  · obtain rfl := Option.some.inj h
    simp only [Option.elim_none, Option.elim_some, Option.getD_some, List.append_nil, skipSlash,
      hslash, Bool.false_eq_true, if_false]
    rw [List.append_assoc, tokens_linkFolder]
    congr 1
    have htokens := @tokens_delimited '/' [name ++ xmlFilenameSuffix] (by simpa using hname)
    rw [delimited_cons, tokens_delim_cons] at htokens
    simpa [delimited] using htokens

end Paths

section Touches

variable (dev : ObixDev)

/-- The paths of a device. -/
def pathsOf : List Text :=
  [dev.dir, dev.file.getD [], dev.metaFile.getD []]

variable {dev} {P : Disk → Prop} {disk : Disk}

theorem kept_deviceRemoveFiles
    (h : KeptByCalls (pathsOf dev) P)
    (hdisk : P disk) :
    P (deviceRemoveFiles dev disk) := by
  have hmeta : P (dev.metaFile.elim disk disk.unlink) := by
    cases hm : dev.metaFile with
    | none => exact hdisk
    | some path => exact h.unlink path disk (by simp [pathsOf, hm]) hdisk
  refine h.rmdir _ _ (by simp [pathsOf]) ?_
  cases hf : dev.file with
  | none => exact hmeta
  | some path => exact h.unlink path _ (by simp [pathsOf, hf]) hmeta

theorem kept_deviceCreateFiles
    (h : KeptByCalls (pathsOf dev) P)
    (hdisk : P disk)
    (faults : Faults) :
    P (deviceCreateFiles dev faults disk).2 := by
  have hdir : dev.dir ∈ pathsOf dev := by simp [pathsOf]
  have hfile : dev.file.getD [] ∈ pathsOf dev := by simp [pathsOf]
  have hmeta : dev.metaFile.getD [] ∈ pathsOf dev := by simp [pathsOf]
  have hmkdir := h.mkdir faults.mkdir dev.dir disk hdir hdisk
  unfold deviceCreateFiles
  dsimp only
  split
  · rename_i e d hret
    rwa [hret] at hmkdir
  · rename_i d hret
    rw [hret] at hmkdir
    have hcreat := h.creat faults.creatFile (dev.file.getD []) d hfile hmkdir
    split
    · rename_i e d' hret'
      rw [hret'] at hcreat
      exact h.rmdir dev.dir d' hdir hcreat
    · rename_i d' hret'
      rw [hret'] at hcreat
      have hcreat' := h.creat faults.creatMeta (dev.metaFile.getD []) d' hmeta hcreat
      split
      · rename_i e d'' hret''
        rw [hret''] at hcreat'
        exact h.rmdir dev.dir _ hdir (h.unlink (dev.file.getD []) d'' hfile hcreat')
      · rename_i d'' hret''
        rwa [hret''] at hcreat'

theorem kept_deviceSetupFiles
    (h : KeptByCalls (pathsOf dev) P)
    (hdisk : P disk)
    (node : Xml)
    (faults : Faults) :
    P (deviceSetupFiles dev node faults disk).2 := by
  have hfile : dev.file.getD [] ∈ pathsOf dev := by simp [pathsOf]
  have hmeta : dev.metaFile.getD [] ∈ pathsOf dev := by simp [pathsOf]
  have hcreate := kept_deviceCreateFiles h hdisk faults
  unfold deviceSetupFiles
  split
  · rename_i d hret
    rw [hret] at hcreate
    have hwrite := h.write faults.writeMeta (dev.metaFile.getD [])
      (deviceWriteMeta dev.ownerId dev.href) d hmeta hcreate
    split
    · rename_i d' hret'
      rwa [hret'] at hwrite
    · rename_i d' hret'
      rw [hret'] at hwrite
      have hwrite' := h.write faults.writeFile (dev.file.getD []) (xmlHeader ++ xmlDumpNode node)
        d' hfile hwrite
      split
      · rename_i d'' hret''
        rwa [hret''] at hwrite'
      · rename_i d'' hret''
        rwa [hret''] at hwrite'
  · rename_i e d hne hret
    rwa [hret] at hcreate

theorem touches_deviceRemoveFiles (dev : ObixDev) (disk : Disk) :
    Touches (pathsOf dev) disk (deviceRemoveFiles dev disk) :=
  kept_deviceRemoveFiles (keptByCalls_touches _ disk) (touches_refl _ disk)

theorem touches_deviceSetupFiles (dev : ObixDev) (node : Xml) (faults : Faults) (disk : Disk) :
    Touches (pathsOf dev) disk (deviceSetupFiles dev node faults disk).2 :=
  kept_deviceSetupFiles (keptByCalls_touches _ disk) (touches_refl _ disk) node faults

end Touches

section Below

/-- A path leads to a place below a folder, in the subfolder with a name. -/
def InFolder (base name path : Text) : Prop :=
  ∃ rest, (∀ n ∈ name :: rest, IsName n) ∧
    tokens '/' path = tokens '/' base ++ name :: rest ∧
    ∀ (disk : Disk) place, disk.resolve path = some place →
      ∃ folder, disk.resolve base = some folder ∧ place = folder ++ name :: rest

variable {dev : ObixDev} {base name path : Text}

theorem inFolder_of_tokens
    {rest : List Text}
    (hbase : base ≠ [])
    (hnames : ∀ n ∈ name :: rest, IsName n)
    (htokens : tokens '/' path = tokens '/' base ++ name :: rest) :
    InFolder base name path :=
  ⟨rest, hnames, htokens, fun _ _ => resolve_below hbase htokens hnames⟩

/-- The paths of a device other than the root are what `device_init` makes of its folder. -/
structure HasFiles (dev : ObixDev) : Prop where
  dir : dev.dir ≠ []
  file : dev.file = linkFile dev.dir serverDbDeviceContract
  metaFile : dev.metaFile = linkFile dev.dir serverDbDeviceMeta

theorem isName_contract : IsName (serverDbDeviceContract ++ xmlFilenameSuffix) :=
  ⟨by decide +kernel, by decide +kernel, by decide +kernel, by decide +kernel⟩

theorem isName_meta : IsName (serverDbDeviceMeta ++ xmlFilenameSuffix) :=
  ⟨by decide +kernel, by decide +kernel, by decide +kernel, by decide +kernel⟩

theorem tokens_pathsOf
    (hfiles : HasFiles dev)
    (hpath : path ∈ pathsOf dev) :
    ∃ rest, (∀ n ∈ rest, IsName n) ∧ tokens '/' path = tokens '/' dev.dir ++ rest := by
  simp only [pathsOf, List.mem_cons, List.not_mem_nil, or_false] at hpath
  rcases hpath with rfl | rfl | rfl
  · exact ⟨[], by simp, by simp⟩
  · obtain ⟨q, hq⟩ := exists_linkFile hfiles.dir serverDbDeviceContract
    rw [hfiles.file, hq, Option.getD_some]
    exact ⟨_, by simpa using isName_contract,
      tokens_linkFile ⟨isName_contract.1, isName_contract.2.1⟩ (by decide +kernel) hq⟩
  · obtain ⟨q, hq⟩ := exists_linkFile hfiles.dir serverDbDeviceMeta
    rw [hfiles.metaFile, hq, Option.getD_some]
    exact ⟨_, by simpa using isName_meta,
      tokens_linkFile ⟨isName_meta.1, isName_meta.2.1⟩ (by decide +kernel) hq⟩

/-- The paths of a device whose folder is in another folder. -/
theorem inFolder_pathsOf
    (hfiles : HasFiles dev)
    (hbase : base ≠ [])
    (hname : IsName name)
    (hdir : tokens '/' dev.dir = tokens '/' base ++ [name])
    (hpath : path ∈ pathsOf dev) :
    InFolder base name path := by
  obtain ⟨rest, hrest, htokens⟩ := tokens_pathsOf hfiles hpath
  refine @inFolder_of_tokens base name path rest hbase ?_ (by rw [htokens, hdir]; simp)
  intro n hn
  rcases List.mem_cons.mp hn with rfl | hn
  · exact hname
  · exact hrest n hn

theorem hasFiles_deviceInit
    {href dir requesterId : Text}
    (hdir : dir ≠ [])
    (hroot : isDeviceRootHref href = false)
    (h : deviceInit href dir requesterId = some dev) :
    HasFiles dev := by
  unfold deviceInit at h
  simp only [hroot, Bool.false_eq_true, if_false] at h
  obtain ⟨m, hm, h⟩ := Option.bind_eq_some_iff.mp h
  obtain ⟨f, hf, rfl⟩ := Option.map_eq_some_iff.mp h
  exact ⟨hdir, hf.symm, hm.symm⟩

end Below

/-- The folder of a device has one name in the folder of its parent, and devices with the
same parent have different ones. -/
structure Foldered (s : Registry) : Prop where
  dir : ∀ i dev, s.heap i = some dev → dev.dir ≠ []
  files : ∀ i dev, s.heap i = some dev → i ≠ deviceRoot → HasFiles dev
  named : ∀ i dev p e, s.heap i = some dev → dev.parent = some p → s.heap p = some e →
    ∃ c, IsName c ∧ tokens '/' dev.dir = tokens '/' e.dir ++ [c]
  distinct : ∀ i j dev dev' p, s.heap i = some dev → s.heap j = some dev' →
    dev.parent = some p → dev'.parent = some p → tokens '/' dev.dir = tokens '/' dev'.dir → i = j

section Steps

variable {a : AddArgs} {s t : Registry} {p : Nat} {parent child : ObixDev} {e : ErrCode}

theorem foldered_start
    {resdir : Text} {tabSize cacheSize : Nat} {dom : Xml} {disk : Disk}
    (h : devicesStart resdir tabSize cacheSize dom disk = some s) :
    Foldered s := by
  have hnone : ∀ i dev, s.heap i = some dev → i = deviceRoot ∧ dev.parent = none := by
    intro i dev hi
    obtain ⟨hroot, -, hparent⟩ := heap_start h hi
    exact ⟨hroot, hparent⟩
  constructor
  case dir =>
    intro i dev hi
    obtain ⟨dir, hdir, h⟩ := Option.bind_eq_some_iff.mp h
    split at h
    · cases h
    · obtain ⟨root, hroot, rfl⟩ := Option.map_eq_some_iff.mp h
      obtain rfl := (hnone i dev hi).1
      obtain rfl : root = dev := by simpa using hi
      rw [(dir_deviceInit hroot).1]
      exact ne_nil_of_linkPathname hdir
  case files =>
    intro i dev hi hne
    exact absurd (hnone i dev hi).1 hne
  case named =>
    intro i dev p e hi hp
    rw [(hnone i dev hi).2] at hp
    cases hp
  case distinct =>
    intro i j dev dev' p hi hj
    rw [(hnone i dev hi).1, (hnone j dev' hj).1]
    intros
    rfl

/-- A registry with no devices but those from before. -/
theorem Foldered.of_back
    (hf : Foldered s)
    (hback : ∀ j f, t.heap j = some f →
      ∃ f', s.heap j = some f' ∧ f = { f' with children := f.children }) :
    Foldered t where
  dir := by
    intro j f hj
    obtain ⟨f', hf', hfeq⟩ := hback j f hj
    rw [hfeq]
    exact hf.dir j f' hf'
  files := by
    intro j f hj hne
    obtain ⟨f', hf', hfeq⟩ := hback j f hj
    obtain ⟨hdir, hfile, hmeta⟩ := hf.files j f' hf' hne
    rw [hfeq]
    exact ⟨hdir, hfile, hmeta⟩
  named := by
    intro j f q e hj hq he
    obtain ⟨f', hf', hfeq⟩ := hback j f hj
    obtain ⟨e', he', heeq⟩ := hback q e he
    rw [hfeq] at hq ⊢
    rw [heeq]
    exact hf.named j f' q e' hf' hq he'
  distinct := by
    intro j k f g q hj hk hjq hkq hdir
    obtain ⟨f', hf', hfeq⟩ := hback j f hj
    obtain ⟨g', hg', hgeq⟩ := hback k g hk
    rw [hfeq] at hjq hdir
    rw [hgeq] at hkq hdir
    exact hf.distinct j k f' g' q hf' hg' hjq hkq hdir

/-- A new device in a folder that no device with the same parent has. -/
theorem Foldered.mount
    {c : Text}
    (hs : Linked s)
    (hf : Foldered s)
    (hlive : s.heap p = some parent)
    (hfiles : HasFiles child)
    (hname : IsName c)
    (hdir : tokens '/' child.dir = tokens '/' parent.dir ++ [c])
    (hown : ∀ j f, s.heap j = some f → f.parent = some p →
      tokens '/' f.dir ≠ tokens '/' child.dir)
    (disk : Disk) :
    Foldered { deviceMount a p parent child s with disk := disk } := by
  have hback := @deviceMount_back a s p parent child hs hlive
  -- nobody has the new device as its parent
  have hparent : ∀ j f q e, (deviceMount a p parent child s).heap j = some f →
      f.parent = some q → (deviceMount a p parent child s).heap q = some e →
      ∃ e', s.heap q = some e' ∧ e.dir = e'.dir := by
    intro j f q e hj hq he
    rcases hback he with ⟨e', he', heeq⟩ | ⟨rfl, -⟩
    · exact ⟨e', he', by rw [heeq]⟩
    · exfalso
      rcases hback hj with ⟨f', hf', hfeq⟩ | ⟨-, hfeq⟩
      · obtain ⟨g, hg⟩ := hs.parent_live hf' (hfeq ▸ hq)
        rw [hs.fresh s.next le_rfl] at hg
        cases hg
      · rw [hfeq] at hq
        rw [Option.some.inj hq, hs.fresh s.next le_rfl] at hlive
        cases hlive
  constructor
  case dir =>
    intro j f hj
    rcases hback hj with ⟨f', hf', hfeq⟩ | ⟨-, hfeq⟩
    · rw [hfeq]
      exact hf.dir j f' hf'
    · rw [hfeq]
      exact hfiles.dir
  case files =>
    intro j f hj hne
    rcases hback hj with ⟨f', hf', hfeq⟩ | ⟨-, hfeq⟩
    · obtain ⟨hdir', hfile, hmeta⟩ := hf.files j f' hf' hne
      rw [hfeq]
      exact ⟨hdir', hfile, hmeta⟩
    · rw [hfeq]
      exact ⟨hfiles.dir, hfiles.file, hfiles.metaFile⟩
  case named =>
    intro j f q e hj hq he
    obtain ⟨e', he', hedir⟩ := hparent j f q e hj hq he
    rw [hedir]
    rcases hback hj with ⟨f', hf', hfeq⟩ | ⟨-, hfeq⟩
    · rw [hfeq] at hq ⊢
      exact hf.named j f' q e' hf' hq he'
    · rw [hfeq] at hq ⊢
      obtain rfl : p = q := Option.some.inj hq
      obtain rfl := Option.some.inj (hlive.symm.trans he')
      exact ⟨c, hname, hdir⟩
  case distinct =>
    intro j k f g q hj hk hjq hkq heq
    rcases hback hj with ⟨f', hf', hfeq⟩ | ⟨rfl, hfeq⟩ <;>
    rcases hback hk with ⟨g', hg', hgeq⟩ | ⟨rfl, hgeq⟩ <;>
    rw [hfeq] at hjq heq <;> rw [hgeq] at hkq heq
    · exact hf.distinct j k f' g' q hf' hg' hjq hkq heq
    · obtain rfl : p = q := Option.some.inj hkq
      exact absurd heq (hown j f' hf' hjq)
    · obtain rfl : p = q := Option.some.inj hjq
      exact absurd heq.symm (hown k g' hg' hkq)

/-- A sign-up does nothing on disk, or it stays in the folder of the new device. -/
theorem AddOutcome.touches
    (h : AddOutcome a p s e t) :
    t.disk = s.disk ∨ ∃ parent child, Passes a p parent child s ∧
      Touches (pathsOf child) s.disk t.disk := by
  cases h with
  | refused => exact .inl rfl
  | @added parent child disk hpass hfiles hload =>
      by_cases hsignUp : a.signUp = true
      · have htouch := touches_deviceSetupFiles child a.node a.faults s.disk
        rw [hfiles hsignUp] at htouch
        exact .inr ⟨parent, child, hpass, htouch⟩
      · exact .inl (hload (by simpa using hsignUp))
  | @withdrawn parent child disk e hpass hsignUp hfiles he =>
      have htouch := touches_deviceSetupFiles child a.node a.faults s.disk
      rw [hfiles] at htouch
      exact .inr ⟨parent, child, hpass,
        htouch.trans (touches_deviceRemoveFiles { child with parent := some p } disk)⟩

/-- The folder that `device_add` chooses for a contract whose name is one name of a folder. -/
theorem Passes.dir
    {name c : Text}
    (hpass : Passes a p parent child s)
    (hname : a.input.getProp attrName = some name)
    (htokens : tokens '/' name = [c]) :
    tokens '/' child.dir = tokens '/' parent.dir ++ [c] := by
  obtain ⟨name', hname', hlink⟩ := hpass.name
  obtain rfl := Option.some.inj (hname.symm.trans hname')
  rw [tokens_linkPathname hlink, htokens]

theorem Passes.hasFiles
    (hpass : Passes a p parent child s)
    (hroot : isDeviceRootHref a.href = false) :
    HasFiles child := by
  obtain ⟨name, -, hlink⟩ := hpass.name
  exact hasFiles_deviceInit (ne_nil_of_linkPathname hlink) hroot hpass.init

/-- Nobody with the same parent has the folder of a device that passes the checks, if only
a device with its href may have it. -/
theorem Passes.own
    (hs : Linked s)
    (hpass : Passes a p parent child s)
    (hown : ∀ j f, s.heap j = some f → f.parent = some p →
      tokens '/' f.dir = tokens '/' child.dir → isStrIdentical f.href a.href = true)
    {j : Nat} {f : ObixDev}
    (hj : s.heap j = some f)
    (hparent : f.parent = some p) :
    tokens '/' f.dir ≠ tokens '/' child.dir := by
  intro heq
  have hne : j ≠ deviceRoot := by
    rintro rfl
    obtain ⟨root, hr, hnone, -⟩ := hs.root
    obtain rfl := Option.some.inj (hj.symm.trans hr)
    rw [hnone] at hparent
    cases hparent
  obtain ⟨q, e, hq, he, hmem⟩ := hs.parent j f hj hne
  obtain rfl := Option.some.inj (hparent.symm.trans hq)
  obtain rfl := Option.some.inj (hpass.live.symm.trans he)
  exact List.find?_eq_none.mp hpass.single f (List.mem_filterMap.mpr ⟨j, hmem, hj⟩)
    (hown j f hj hparent heq)

/-- The name of a contract is one name of a folder, which is that of no other device with
the same parent. -/
def OwnName (input : Xml) (href : Text) (s : Registry) : Prop :=
  ∀ p u parent, s.deviceSearchParent href = (some p, u) → s.heap p = some parent →
    ∃ name c, input.getProp attrName = some name ∧ tokens '/' name = [c] ∧ IsName c ∧
      ∀ j f, s.heap j = some f → f.parent = some p →
        tokens '/' f.dir = tokens '/' parent.dir ++ [c] → isStrIdentical f.href href = true

/-- The changing calls from one registry to another are for places in one folder inside the
folder of a device. -/
def Confined (p : Option Nat) (s t : Registry) : Prop :=
  ∃ new, t.disk.calls = s.disk.calls ++ new ∧
    (new = [] ∨ ∃ i parent c, p = some i ∧ s.heap i = some parent ∧
      ∀ path ∈ new, InFolder parent.dir c path)

theorem confined_of_disk
    {q : Option Nat}
    (h : t.disk = s.disk) :
    Confined q s t :=
  ⟨[], by simp [h], .inl rfl⟩

theorem Foldered.deviceAdd
    (hs : Linked s)
    (hf : Foldered s)
    (hname : OwnName a.input a.href s)
    (h : deviceAdd a s = some (e, t)) :
    Foldered t ∧ Confined (s.deviceSearchParent a.href).1 s t := by
  rcases deviceAdd_cases h with ⟨-, -, rfl⟩ | ⟨p, u, e', t', hsearch, hout, rfl, -⟩
  · exact ⟨hf, confined_of_disk rfl⟩
  · obtain ⟨hu, hroot, -⟩ := hs.deviceSearchParent hsearch
    obtain ⟨cache, rfl⟩ := deviceSearchParent_some hsearch
    have hfu : Foldered (({ s with cache := cache } : Registry).get p) :=
      hf.of_back fun j f hj => ⟨f, hj, rfl⟩
    -- what the name says about a device that passes the checks
    have hown : ∀ parent child, Passes a p parent child (({ s with cache := cache } : Registry).get p) →
        ∃ c, IsName c ∧ tokens '/' child.dir = tokens '/' parent.dir ++ [c] ∧
          ∀ j f, s.heap j = some f → f.parent = some p → tokens '/' f.dir ≠ tokens '/' child.dir := by
      intro parent child hpass
      obtain ⟨name, c, hget, htokens, hc, hother⟩ := hname p _ parent hsearch hpass.live
      have hdir := hpass.dir hget htokens
      refine ⟨c, hc, hdir, fun j f hj => hpass.own hu (fun k g hk hg hkdir => ?_) hj⟩
      exact hother k g hk hg (hkdir.trans hdir)
    refine ⟨?_, ?_⟩
    · suffices ht : Foldered t' from ht.of_back fun j f hj => ⟨f, hj, rfl⟩
      cases hout with
      | refused => exact hfu
      | @added parent child disk hpass =>
          obtain ⟨c, hc, hdir, hother⟩ := hown parent child hpass
          exact hfu.mount hu hpass.live (hpass.hasFiles hroot) hc hdir hother disk
      | @withdrawn parent child disk e hpass =>
          have hheap := @heap_withdrawn a _ p parent child hu hpass.live disk
          exact hfu.of_back fun j f hj => ⟨f, hheap ▸ hj, rfl⟩
    · rcases hout.touches with hdisk | ⟨parent, child, hpass, new, hnew, hpaths⟩
      · exact confined_of_disk hdisk
      · obtain ⟨c, hc, hdir, -⟩ := hown parent child hpass
        refine ⟨new, hnew, .inr ⟨p, parent, c, by rw [hsearch], hpass.live, fun path hpath => ?_⟩⟩
        exact inFolder_pathsOf (hpass.hasFiles hroot) (hf.dir p parent hpass.live) hc hdir
          (hpaths path hpath)

theorem Foldered.deviceDel
    {href requesterId : Text}
    (hs : Linked s)
    (hf : Foldered s)
    (hroot : isDeviceRootHref href = false)
    (h : deviceDel Meanwhile.idle href requesterId s = some (e, t)) :
    Foldered t ∧ Confined (((s.deviceSearch href).1.bind s.heap).bind ObixDev.parent) s t := by
  obtain ⟨u, hu, hheap, -, -, hdisk, hout⟩ := hs.deviceDel_cases hroot h
  have hfu : Foldered u := hf.of_back fun j f hj => ⟨f, hheap ▸ hj, rfl⟩
  rcases hout with ⟨-, rfl⟩ | ⟨i, dev, hne, hfound, hdev, -, -, rfl⟩
  · exact ⟨hfu, confined_of_disk hdisk⟩
  · refine ⟨hfu.of_back fun j f hj => ?_, ?_⟩
    · obtain ⟨-, f', hf', hfeq⟩ := hu.signedOff_back hdev hne hj
      exact ⟨f', hf', by rw [hfeq]⟩
    · obtain ⟨p, parent, hp, hparent, -⟩ := hu.parent i dev hdev hne
      obtain ⟨c, hc, hdir⟩ := hfu.named i dev p parent hdev hp hparent
      obtain ⟨new, hnew, hpaths⟩ := touches_deviceRemoveFiles dev u.disk
      refine ⟨new, by rw [disk_signedOff, hnew, hdisk], .inr ⟨p, parent, c, ?_, hheap ▸ hparent, ?_⟩⟩
      · rw [hfound, Option.bind_some, ← hheap, hdev, Option.bind_some, hp]
      · intro path hpath
        exact inFolder_pathsOf (hfu.files i dev hdev hne) (hfu.dir p parent hparent) hc hdir
          (hpaths path hpath)

end Steps

section Runs

variable {s t : Registry} {r : Request} {e : ErrCode}

/-- The parent of the device that a request is about. -/
def Request.parentOf (r : Request) (s : Registry) : Option Nat :=
  match r with
  | .signUp _ input _ =>
      (input.bind fun x => x.getProp attrHref).bind fun href => (s.deviceSearchParent href).1
  | .signOff _ input =>
      (input.bind fun x => x.getProp attrHref).bind fun href =>
        ((s.deviceSearch href).1.bind s.heap).bind ObixDev.parent

/-- A request that signs up a device under a name of its own. -/
def OwnFolder (r : Request) (s : Registry) : Prop :=
  match r with
  | .signUp _ (some input) _ =>
      ∀ href, input.getProp attrHref = some href → OwnName input href s
  | .signUp _ none _ => True
  | .signOff _ _ => True

theorem Foldered.request
    (hs : Linked s)
    (hf : Foldered s)
    (hok : OwnFolder r s)
    (h : r.run s = some (e, t)) :
    Foldered t ∧ Confined (r.parentOf s) s t := by
  cases r with
  | signUp requesterId input faults =>
      rcases withHref_cases h with rfl | ⟨id, x, href, -, rfl, hhref, -, -, hadd⟩
      · exact ⟨hf, confined_of_disk rfl⟩
      · have hname : OwnName (xmlCopy x) href s := by
          intro p u parent hsearch hparent
          rw [getProp_xmlCopy]
          exact hok href hhref p u parent hsearch hparent
        have hstep := hf.deviceAdd hs hname hadd
        simpa [Request.parentOf, hhref] using hstep
  | signOff requesterId input =>
      rcases withHref_cases h with rfl | ⟨id, x, href, -, rfl, hhref, -, hroot, hdel⟩
      · exact ⟨hf, confined_of_disk rfl⟩
      · have hstep := hf.deviceDel hs hroot hdel
        simpa [Request.parentOf, hhref] using hstep

theorem Reachable.foldered
    (hs : Reachable OwnFolder s) :
    Foldered s := by
  induction hs with
  | start h => exact foldered_start h
  | step hs hok h ih => exact (ih.request hs.linked hok h).1

/-- As long as every device is signed up under a name of its own, devices with the same
parent have different folders, and all calls for a device stay in one folder inside that of
its parent. -/
theorem device_files_inside
    (hs : Reachable OwnFolder s) :
    (∀ i j dev dev' p, s.heap i = some dev → s.heap j = some dev' → dev.parent = some p →
      dev'.parent = some p → tokens '/' dev.dir = tokens '/' dev'.dir → i = j) ∧
    (∀ i dev p parent, s.heap i = some dev → dev.parent = some p → s.heap p = some parent →
      ∃ c, InFolder parent.dir c dev.dir ∧ tokens '/' dev.dir = tokens '/' parent.dir ++ [c]) ∧
    ∀ r e t, OwnFolder r s → r.run s = some (e, t) → Confined (r.parentOf s) s t := by
  have hf := hs.foldered
  refine ⟨hf.distinct, ?_, fun r e t hok h => (hf.request hs.linked hok h).2⟩
  intro i dev p parent hi hp hparent
  obtain ⟨c, hc, hdir⟩ := hf.named i dev p parent hi hp hparent
  exact ⟨c, inFolder_of_tokens (hf.dir p parent hparent) (by simpa using hc) hdir, hdir⟩

/-- A device with a name of its own is signed up. -/
theorem device_files_inside_signedUp :
    ∃ s dev p parent c, sampleStart.bind (runAll [sampleSignUp "a" "test/a"]) = some s ∧
      s.heap 1 = some dev ∧ dev.parent = some p ∧ s.heap p = some parent ∧
      InFolder parent.dir c dev.dir := by
  have heval : ((sampleStart.bind (runAll [sampleSignUp "a" "test/a"])).bind fun s =>
      (s.heap 1).bind fun dev => dev.parent.bind fun p => (s.heap p).map fun parent =>
        (dev, p, parent)).isSome = true := by
    decide +kernel
  obtain ⟨⟨dev, p, parent⟩, hall⟩ := Option.isSome_iff_exists.mp heval
  obtain ⟨s, hs, hall⟩ := Option.bind_eq_some_iff.mp hall
  obtain ⟨dev, hdev, hall⟩ := Option.bind_eq_some_iff.mp hall
  obtain ⟨p, hp, hall⟩ := Option.bind_eq_some_iff.mp hall
  obtain ⟨parent, hparent, heq⟩ := Option.map_eq_some_iff.mp hall
  cases heq
  obtain ⟨s₀, hs₀, hrun⟩ := Option.bind_eq_some_iff.mp hs
  obtain ⟨s₁, hstep, hrest⟩ := Option.bind_eq_some_iff.mp hrun
  obtain ⟨⟨e, s₁⟩, hret, rfl⟩ := Option.map_eq_some_iff.mp hstep
  obtain rfl : s₁ = s := Option.some.inj hrest
  have hok : OwnFolder (sampleSignUp "a" "test/a") s₀ := by
    intro href hhref q u parent hsearch hq
    refine ⟨"a".toList, "a".toList, by decide +kernel, by decide +kernel,
      ⟨by decide, by decide, by decide, by decide⟩, fun j f hf hpar => ?_⟩
    -- the device root has no parent
    rw [(heap_start hs₀ hf).2.2] at hpar
    cases hpar
  obtain ⟨c, hc, -⟩ :=
    (device_files_inside (.step (.start hs₀) hok hret)).2.1 1 dev p parent hdev hp hparent
  exact ⟨s₁, dev, p, parent, c, hs, hdev, hp, hparent, hc⟩

/-- A name with dots leads out of the folder of the devices. -/
theorem signUp_outside :
    ∃ s t r, Reachable (fun _ _ => True) s ∧ r = sampleSignUp "../x" "test/a" ∧
      r.run s = some (.success, t) ∧ t.disk.stat "/srv/x".toList = some .folder ∧
      ¬ Confined (r.parentOf s) s t := by
  have hstart : sampleStart.map (fun s => (s.disk.calls, (s.heap deviceRoot).map ObixDev.dir)) =
      some ([], some "/srv/devices/".toList) := by
    decide +kernel
  have heval : (sampleStart.bind fun s =>
      ((sampleSignUp "../x" "test/a").run s).map fun x =>
        (x.1, x.2.disk.stat "/srv/x".toList, x.2.disk.calls.head?,
          (sampleSignUp "../x" "test/a").parentOf s)) =
      some (.success, some .folder, some "/srv/devices/../x".toList, some deviceRoot) := by
    decide +kernel
  obtain ⟨s, hs, hall⟩ := Option.bind_eq_some_iff.mp heval
  obtain ⟨⟨e, t⟩, hrun, heq⟩ := Option.map_eq_some_iff.mp hall
  simp only [Prod.mk.injEq] at heq
  obtain ⟨rfl, hstat, hhead, hparentOf⟩ := heq
  rw [hs] at hstart
  obtain ⟨hold, hdir⟩ := Prod.mk.inj (Option.some.inj hstart)
  refine ⟨s, t, _, .start hs, rfl, hrun, hstat, ?_⟩
  rintro ⟨new, hnew, hconf⟩
  rw [hold, List.nil_append] at hnew
  rw [hnew] at hhead
  rcases hconf with rfl | ⟨i, parent, c, hi, hparent, hall⟩
  · cases hhead
  · obtain rfl : deviceRoot = i := Option.some.inj (hparentOf.symm.trans hi)
    rw [hparent, Option.map_some, Option.some.injEq] at hdir
    obtain ⟨rest, hnames, htokens, -⟩ := hall _ (List.mem_of_head? hhead)
    rw [hdir] at htokens
    have htokens : "..".toList :: ["x".toList] = c :: rest := by
      refine @List.append_cancel_left _ (tokens '/' "/srv/devices/".toList) _ _ ?_
      rw [← htokens]
      decide +kernel
    obtain ⟨-, -, -, hdots⟩ := hnames c (by simp)
    exact hdots (List.cons.inj htokens).1.symm

end Runs

end Devices
end Obix
