import Obix.Device.Folders
import Obix.Lib.DiskTree

/-!
# Failing sign-ups and other devices

A sign-up that fails behind the checks of `device_add` is taken back.  The descriptors and
the DOM tree are then as before; the hash table loses whatever has the href of the device,
and `__device_remove_files` sweeps the folder that the name of the contract leads to, also
when `mkdir` found it there (`failed_signUp_harmless_iff`).
-/

namespace Obix
namespace Devices

open CString Disk

section Files

/-- The names of the files of a device. -/
def deviceNames : List Text :=
  [serverDbDeviceMeta ++ xmlFilenameSuffix, serverDbDeviceContract ++ xmlFilenameSuffix]

/-- The files of a device that are in a folder. -/
def filesIn (place : List Text) (disk : Disk) : List (List Text) :=
  (deviceNames.map fun name => place ++ [name]).filter fun q => isFile (disk.entry q)

/-- The places that `__device_remove_files` clears. -/
def swept (dev : ObixDev) (disk : Disk) : List (List Text) :=
  match disk.resolve dev.dir with
  | none => []
  | some place =>
      if disk.entry place = some .folder then
        if place ≠ [] ∧ (disk.inside place).all (filesIn place disk).contains ∧
            (tokens '/' dev.dir).getLast? ≠ some ['.'] then
          place :: filesIn place disk
        else filesIn place disk
      else []

variable {dev : ObixDev} {disk disk' : Disk} {place q : List Text} {name path : Text}

theorem mem_filesIn :
    q ∈ filesIn place disk ↔
      (∃ name ∈ deviceNames, q = place ++ [name]) ∧ isFile (disk.entry q) = true := by
  simp only [filesIn, List.mem_filter, List.mem_map]
  constructor
  · rintro ⟨⟨name, hname, rfl⟩, hfile⟩
    exact ⟨⟨name, hname, rfl⟩, hfile⟩
  · rintro ⟨⟨name, hname, rfl⟩, hfile⟩
    exact ⟨⟨name, hname, rfl⟩, hfile⟩

/-- A file of a device is in its folder. -/
theorem resolve_linkFile
    (hdir : dev.dir ≠ [])
    (hname : name = serverDbDeviceMeta ∨ name = serverDbDeviceContract)
    (hlink : linkFile dev.dir name = some path)
    (disk : Disk) :
    disk.resolve path = (disk.resolve dev.dir).bind fun place =>
      if disk.entry place = some .folder then some (place ++ [name ++ xmlFilenameSuffix])
      else none := by
  have hname' : IsName (name ++ xmlFilenameSuffix) ∧ slashPreceded name = false := by
    rcases hname with rfl | rfl
    · exact ⟨isName_meta, by decide⟩
    · exact ⟨isName_contract, by decide⟩
  obtain ⟨⟨hne, hslash, hdot, hdots⟩, hpre⟩ := hname'
  rw [resolve, if_neg (ne_nil_of_linkPathname hlink), tokens_linkFile ⟨hne, hslash⟩ hpre hlink,
    walk_append, resolve, if_neg hdir]
  congr 1
  funext r
  simp [walk, stepName, hdot, hdots]

theorem resolve_of_files
    (hfiles : HasFiles dev)
    (hresolve : disk.resolve dev.dir = some place)
    (hfolder : disk.entry place = some .folder) :
    ∃ metaFile file, dev.metaFile = some metaFile ∧ dev.file = some file ∧
      disk.resolve metaFile = some (place ++ [serverDbDeviceMeta ++ xmlFilenameSuffix]) ∧
      disk.resolve file = some (place ++ [serverDbDeviceContract ++ xmlFilenameSuffix]) := by
  obtain ⟨metaFile, hmeta⟩ := exists_linkFile hfiles.dir serverDbDeviceMeta
  obtain ⟨file, hfile⟩ := exists_linkFile hfiles.dir serverDbDeviceContract
  refine ⟨metaFile, file, hfiles.metaFile.trans hmeta, hfiles.file.trans hfile, ?_, ?_⟩
  · rw [resolve_linkFile hfiles.dir (.inl rfl) hmeta, hresolve, Option.bind_some, if_pos hfolder]
  · rw [resolve_linkFile hfiles.dir (.inr rfl) hfile, hresolve, Option.bind_some, if_pos hfolder]

theorem resolve_of_no_folder
    (hfiles : HasFiles dev)
    (hnot : ∀ place, disk.resolve dev.dir = some place → disk.entry place ≠ some .folder) :
    ∃ metaFile file, dev.metaFile = some metaFile ∧ dev.file = some file ∧
      disk.resolve metaFile = none ∧ disk.resolve file = none := by
  obtain ⟨metaFile, hmeta⟩ := exists_linkFile hfiles.dir serverDbDeviceMeta
  obtain ⟨file, hfile⟩ := exists_linkFile hfiles.dir serverDbDeviceContract
  have hnone : ∀ name : Text, ((disk.resolve dev.dir).bind fun place =>
      if disk.entry place = some .folder then some (place ++ [name]) else none) = none := by
    intro name
    cases hresolve : disk.resolve dev.dir with
    | none => rfl
    | some place => rw [Option.bind_some, if_neg (hnot place hresolve)]
  refine ⟨metaFile, file, hfiles.metaFile.trans hmeta, hfiles.file.trans hfile, ?_, ?_⟩
  · rw [resolve_linkFile hfiles.dir (.inl rfl) hmeta]
    exact hnone _
  · rw [resolve_linkFile hfiles.dir (.inr rfl) hfile]
    exact hnone _

theorem deviceRemoveFiles_eq
    {metaFile file : Text}
    (hmeta : dev.metaFile = some metaFile)
    (hfile : dev.file = some file)
    (disk : Disk) :
    deviceRemoveFiles dev disk = ((disk.unlink metaFile).unlink file).rmdir dev.dir := by
  rw [deviceRemoveFiles, hmeta, hfile]
  rfl

/-- Removing a file leaves the folders where they are. -/
theorem folder_unlink
    (hfolder : disk.entry q = some .folder)
    (path : Text) :
    (disk.unlink path).entry q = some .folder := by
  rw [entry_unlink, if_neg, hfolder]
  rintro ⟨-, hfile⟩
  simp [hfolder, isFile] at hfile

theorem entry_unlink_unlink
    {metaFile file : Text}
    (hmeta : disk.resolve metaFile = some (place ++ [serverDbDeviceMeta ++ xmlFilenameSuffix]))
    (hfile : disk.resolve file = some (place ++ [serverDbDeviceContract ++ xmlFilenameSuffix]))
    (q : List Text) :
    ((disk.unlink metaFile).unlink file).entry q =
      if q ∈ filesIn place disk then none else disk.entry q := by
  have hfile' : (disk.unlink metaFile).resolve file =
      some (place ++ [serverDbDeviceContract ++ xmlFilenameSuffix]) :=
    resolve_mono (fun _ hr => folder_unlink hr metaFile) hfile
  have hmem : q ∈ filesIn place disk ↔
      (q = place ++ [serverDbDeviceMeta ++ xmlFilenameSuffix] ∨
        q = place ++ [serverDbDeviceContract ++ xmlFilenameSuffix]) ∧
      isFile (disk.entry q) = true := by
    simp [mem_filesIn, deviceNames]
  rw [entry_unlink, entry_unlink, hfile', hmeta]
  simp only [hmem, Option.some.injEq, @eq_comm _ _ q]
  by_cases hfileq : isFile (disk.entry q) = true
  · by_cases hmetaq : q = place ++ [serverDbDeviceMeta ++ xmlFilenameSuffix]
    · simp [hmetaq, hmetaq ▸ hfileq]
    · simp [hmetaq, hfileq]
  · simp [hfileq]

/-- Without its files a folder is empty when nothing else is in it. -/
theorem inside_unlink_unlink
    {metaFile file : Text}
    (hunlinked : ∀ q, ((disk.unlink metaFile).unlink file).entry q =
      if q ∈ filesIn place disk then none else disk.entry q) :
    ((disk.unlink metaFile).unlink file).inside place = [] ↔
      ∀ q ∈ disk.inside place, q ∈ filesIn place disk := by
  rw [inside_eq_nil]
  constructor
  · intro hnone q hq
    obtain ⟨hne, hdrop, hentry⟩ := mem_inside.mp hq
    by_contra hout
    have hgone := hnone q hne hdrop
    rw [hunlinked, if_neg hout] at hgone
    exact hentry hgone
  · intro hall q hne hdrop
    by_contra hentry
    rw [hunlinked] at hentry
    split at hentry
    · exact hentry rfl
    · rename_i hout
      exact hout (hall q (mem_inside.mpr ⟨hne, hdrop, hentry⟩))

theorem cleared_of_folder
    (hfiles : HasFiles dev)
    (hresolve : disk.resolve dev.dir = some place)
    (hfolder : disk.entry place = some .folder) :
    Cleared (swept dev disk) disk (deviceRemoveFiles dev disk) := by
  obtain ⟨metaFile, file, hmeta, hfile, hmetaPlace, hfilePlace⟩ :=
    resolve_of_files hfiles hresolve hfolder
  have hunlinked := entry_unlink_unlink hmetaPlace hfilePlace
  have hempty := inside_unlink_unlink hunlinked
  have hinsideAll : (disk.inside place).all (filesIn place disk).contains = true ↔
      ∀ q ∈ disk.inside place, q ∈ filesIn place disk := by
    simp
  have hkeep : ∀ r, disk.entry r = some .folder →
      ((disk.unlink metaFile).unlink file).entry r = some .folder :=
    fun r hr => folder_unlink (folder_unlink hr metaFile) file
  have hresolve' := resolve_mono hkeep hresolve
  rw [deviceRemoveFiles_eq hmeta hfile, swept, hresolve]
  dsimp only
  rw [if_pos hfolder]
  rcases rmdir_cases dev.dir ((disk.unlink metaFile).unlink file) with
    ⟨hsame, hdot⟩ | ⟨p, hp, hne, -, hinside, hlast, heq⟩
  · rw [if_neg]
    · refine cleared_iff.mpr fun q => ?_
      rw [entry_congr hsame, hunlinked]
    · rintro ⟨hne, hall, hlast⟩
      exact hlast (hdot place hresolve' hne (hkeep place hfolder) (hempty.mpr (hinsideAll.mp hall)))
  · obtain rfl : place = p := Option.some.inj (hresolve'.symm.trans hp)
    rw [if_pos ⟨hne, hinsideAll.mpr (hempty.mp hinside), hlast⟩]
    refine cleared_iff.mpr fun q => ?_
    rw [heq, entry_called, entry_remove hne, hunlinked]
    by_cases hq : q = place
    · simp [hq]
    · simp [hq]

theorem cleared_of_no_folder
    (hfiles : HasFiles dev)
    (hnot : ∀ place, disk.resolve dev.dir = some place → disk.entry place ≠ some .folder) :
    Cleared (swept dev disk) disk (deviceRemoveFiles dev disk) := by
  obtain ⟨metaFile, file, hmeta, hfile, hmetaPlace, hfilePlace⟩ :=
    resolve_of_no_folder hfiles hnot
  have hswept : swept dev disk = [] := by
    unfold swept
    split
    · rfl
    · rename_i place hresolve
      rw [if_neg (hnot place hresolve)]
  have hmetaSame : ∀ q, (disk.unlink metaFile).entry q = disk.entry q := fun q => by
    simp [entry_unlink, hmetaPlace]
  have hfileSame : ∀ q, ((disk.unlink metaFile).unlink file).entry q = disk.entry q := fun q => by
    simp [entry_unlink, resolve_congr hmetaSame, hfilePlace, hmetaPlace]
  rw [deviceRemoveFiles_eq hmeta hfile, hswept]
  refine cleared_iff.mpr fun q => ?_
  rcases rmdir_cases dev.dir ((disk.unlink metaFile).unlink file) with
    ⟨hsame, -⟩ | ⟨p, hp, -, hfolder, -⟩
  · rw [entry_congr hsame, hfileSame]
    simp
  · rw [resolve_congr hfileSame] at hp
    rw [hfileSame] at hfolder
    exact absurd hfolder (hnot p hp)

/-- Removing the files of a device clears what is swept. -/
theorem cleared_deviceRemoveFiles
    (hfiles : HasFiles dev)
    (disk : Disk) :
    Cleared (swept dev disk) disk (deviceRemoveFiles dev disk) := by
  by_cases hfound : ∃ place, disk.resolve dev.dir = some place ∧ disk.entry place = some .folder
  · obtain ⟨place, hresolve, hfolder⟩ := hfound
    exact cleared_of_folder hfiles hresolve hfolder
  · push Not at hfound
    exact cleared_of_no_folder hfiles hfound

end Files

section SetUp

/-- A disk that differs from another one in a new folder and files of a device in it only. -/
structure SetUp (place : List Text) (old disk : Disk) : Prop where
  outside : ∀ q, ¬ place <+: q → disk.entry q = old.entry q
  folder : ∀ q, place <+: q → disk.entry q ≠ none → disk.entry place = some .folder
  files : ∀ q, place <+: q → disk.entry q ≠ none → q ≠ place → q ∈ filesIn place disk

variable {dev : ObixDev} {old disk disk' : Disk} {place p : List Text} {path : Text}

theorem SetUp.of_entries
    (h : SetUp place old disk)
    (heq : disk'.entries = disk.entries) :
    SetUp place old disk' := by
  have hentry := entry_congr heq
  have hfiles : filesIn place disk' = filesIn place disk := by
    simp only [filesIn, hentry]
  refine ⟨?_, ?_, ?_⟩
  · simpa only [hentry] using h.outside
  · simpa only [hentry] using h.folder
  · simpa only [hentry, hfiles] using h.files

/-- A folder is made where nothing was. -/
theorem setUp_put_folder
    (htree : IsTree old)
    (hnone : old.entry place = none) :
    SetUp place old (old.put place .folder) := by
  have hne : place ≠ [] := by
    rintro rfl
    simp at hnone
  have hbelow : ∀ q, place <+: q → q ≠ place → (old.put place .folder).entry q = none := by
    intro q hpre hq
    rw [entry_put hne, if_neg hq]
    exact htree.none_below hnone hpre
  refine ⟨fun q hout => ?_, fun q _ _ => ?_, fun q hpre hentry hq => ?_⟩
  · rw [entry_put hne, if_neg]
    rintro rfl
    exact hout List.prefix_rfl
  · rw [entry_put hne, if_pos rfl]
  · exact absurd (hbelow q hpre hq) hentry

/-- A file of the device is made or written. -/
theorem SetUp.put_file
    (h : SetUp place old disk)
    (hfolder : disk.entry place = some .folder)
    (hp : ∃ name ∈ deviceNames, p = place ++ [name])
    (content : Text) :
    SetUp place old (disk.put p (.file content)) := by
  obtain ⟨name, hname, rfl⟩ := hp
  have hne : place ++ [name] ≠ [] := by simp
  have hput := @entry_put disk _ hne (.file content)
  have hplace : (disk.put (place ++ [name]) (.file content)).entry place = some .folder := by
    rw [hput, if_neg (by simp), hfolder]
  refine ⟨fun q hout => ?_, fun q _ _ => hplace, fun q hpre hentry hq => ?_⟩
  · rw [hput, if_neg, h.outside q hout]
    rintro rfl
    exact hout (List.prefix_append _ _)
  · rw [mem_filesIn, hput]
    by_cases heq : q = place ++ [name]
    · exact ⟨⟨name, hname, heq⟩, by simp [heq, isFile]⟩
    · rw [hput, if_neg heq] at hentry
      rw [if_neg heq]
      exact mem_filesIn.mp (h.files q hpre hentry hq)

/-- A file of the device is removed. -/
theorem SetUp.remove_file
    (h : SetUp place old disk)
    (hp : ∃ name ∈ deviceNames, p = place ++ [name]) :
    SetUp place old (disk.remove p) := by
  obtain ⟨name, hname, rfl⟩ := hp
  have hne : place ++ [name] ≠ [] := by simp
  have hremove := @entry_remove disk _ hne
  refine ⟨fun q hout => ?_, fun q hpre hentry => ?_, fun q hpre hentry hq => ?_⟩
  · rw [hremove, if_neg, h.outside q hout]
    rintro rfl
    exact hout (List.prefix_append _ _)
  · rw [hremove] at hentry ⊢
    split at hentry
    · exact absurd rfl hentry
    · rw [if_neg (by simp)]
      exact h.folder q hpre hentry
  · rw [mem_filesIn, hremove]
    rw [hremove] at hentry
    split at hentry
    · exact absurd rfl hentry
    · rename_i heq
      rw [if_neg heq]
      exact mem_filesIn.mp (h.files q hpre hentry hq)

/-- The folder is removed when it is empty. -/
theorem SetUp.remove_folder
    (h : SetUp place old disk)
    (hne : place ≠ [])
    (hempty : disk.inside place = []) :
    SetUp place old (disk.remove place) := by
  have hremove := @entry_remove disk _ hne
  have hnone : ∀ q, place <+: q → (disk.remove place).entry q = none := by
    intro q hpre
    rw [hremove]
    split
    · rfl
    · rename_i hq
      by_contra hentry
      obtain ⟨⟨name, -, rfl⟩, -⟩ := mem_filesIn.mp (h.files q hpre hentry hq)
      exact hentry (inside_eq_nil.mp hempty _ (by simp) (by simp))
  refine ⟨fun q hout => ?_, fun q hpre hentry => ?_, fun q hpre hentry => ?_⟩
  · rw [hremove, if_neg, h.outside q hout]
    rintro rfl
    exact hout List.prefix_rfl
  · exact absurd (hnone q hpre) hentry
  · exact absurd (hnone q hpre) hentry

end SetUp

section Calls

variable {dev : ObixDev} {old disk disk' : Disk} {place p : List Text} {path : Text}

/-- The files of a device whose folder is new. -/
structure New (dev : ObixDev) (place : List Text) (old : Disk) : Prop where
  tree : IsTree old
  files : HasFiles dev
  resolve : old.resolve dev.dir = some place
  fresh : old.entry place = none

/-- One of the paths of the files of a device. -/
def IsOwnFile (dev : ObixDev) (path : Text) : Prop :=
  dev.metaFile = some path ∨ dev.file = some path

theorem New.resolve_dir
    (hnew : New dev place old)
    (h : SetUp place old disk) :
    disk.resolve dev.dir = some place := by
  refine resolve_mono (fun r hr => ?_) hnew.resolve
  rw [h.outside, hr]
  intro hpre
  rw [hnew.tree.none_below hnew.fresh hpre] at hr
  cases hr

theorem New.resolve_file
    (hnew : New dev place old)
    (h : SetUp place old disk)
    (hpath : IsOwnFile dev path)
    (hresolve : disk.resolve path = some p) :
    disk.entry place = some .folder ∧ ∃ name ∈ deviceNames, p = place ++ [name] := by
  have hlink : ∃ name, (name = serverDbDeviceMeta ∨ name = serverDbDeviceContract) ∧
      linkFile dev.dir name = some path := by
    rcases hpath with hpath | hpath
    · exact ⟨_, .inl rfl, hnew.files.metaFile.symm.trans hpath⟩
    · exact ⟨_, .inr rfl, hnew.files.file.symm.trans hpath⟩
  obtain ⟨name, hname, hlink⟩ := hlink
  rw [resolve_linkFile hnew.files.dir hname hlink, hnew.resolve_dir h, Option.bind_some] at hresolve
  split at hresolve
  · rename_i hfolder
    refine ⟨hfolder, name ++ xmlFilenameSuffix, ?_, (Option.some.inj hresolve).symm⟩
    rcases hname with rfl | rfl <;> simp [deviceNames]
  · cases hresolve

theorem New.creat
    (hnew : New dev place old)
    (h : SetUp place old disk)
    (hpath : IsOwnFile dev path)
    (fault : Option Errno) :
    SetUp place old (disk.creat fault path).2 := by
  rcases creat_cases fault path disk with hsame | ⟨p, hresolve, -, heq⟩
  · exact h.of_entries hsame
  · obtain ⟨hfolder, hp⟩ := hnew.resolve_file h hpath hresolve
    rw [heq]
    exact (h.put_file hfolder hp []).of_entries rfl

theorem New.write
    (hnew : New dev place old)
    (h : SetUp place old disk)
    (hpath : IsOwnFile dev path)
    (fails : Bool)
    (content : Text) :
    SetUp place old (disk.write fails path content).2 := by
  rcases write_cases fails path content disk with hsame | ⟨p, hresolve, -, heq⟩
  · exact h.of_entries hsame
  · obtain ⟨hfolder, hp⟩ := hnew.resolve_file h hpath hresolve
    rw [heq]
    exact (h.put_file hfolder hp content).of_entries rfl

theorem New.unlink
    (hnew : New dev place old)
    (h : SetUp place old disk)
    (hpath : IsOwnFile dev path) :
    SetUp place old (disk.unlink path) := by
  rcases unlink_cases path disk with ⟨hsame, -⟩ | ⟨p, c, hresolve, -, heq⟩
  · exact h.of_entries hsame
  · rw [heq]
    exact (h.remove_file (hnew.resolve_file h hpath hresolve).2).of_entries rfl

theorem New.rmdir
    (hnew : New dev place old)
    (h : SetUp place old disk) :
    SetUp place old (disk.rmdir dev.dir) := by
  rcases rmdir_cases dev.dir disk with ⟨hsame, -⟩ | ⟨p, hresolve, hne, -, hempty, -, heq⟩
  · exact h.of_entries hsame
  · obtain rfl : place = p := Option.some.inj ((hnew.resolve_dir h).symm.trans hresolve)
    rw [heq]
    exact (h.remove_folder hne hempty).of_entries rfl

variable {node : Xml} {faults : Faults}

/-- Without a new folder no entry changes, and with one only it and files in it do. -/
theorem deviceCreateFiles_setUp
    (htree : IsTree disk)
    (hfiles : HasFiles dev)
    (faults : Faults) :
    ((deviceCreateFiles dev faults disk).1 ≠ .success ∧
      (deviceCreateFiles dev faults disk).2.entries = disk.entries) ∨
    ∃ place, New dev place disk ∧ SetUp place disk (deviceCreateFiles dev faults disk).2 := by
  obtain ⟨metaFile, hmeta⟩ := exists_linkFile hfiles.dir serverDbDeviceMeta
  obtain ⟨file, hfile⟩ := exists_linkFile hfiles.dir serverDbDeviceContract
  rw [← hfiles.metaFile] at hmeta
  rw [← hfiles.file] at hfile
  unfold deviceCreateFiles
  rw [hmeta, hfile]
  dsimp only [Option.getD_some]
  rcases mkdir_cases faults.mkdir dev.dir disk with ⟨hfails, hsame⟩ | ⟨place, hok, hresolve, hnone, heq⟩
  · left
    split
    · rename_i e d hmkdir
      rw [hmkdir] at hsame
      exact ⟨by cases e <;> simp [createError], hsame⟩
    · rename_i d hmkdir
      rw [hmkdir] at hfails
      exact absurd rfl hfails
  · right
    have hnew : New dev place disk := ⟨htree, hfiles, hresolve, hnone⟩
    refine ⟨place, hnew, ?_⟩
    have hmade : SetUp place disk (disk.mkdir faults.mkdir dev.dir).2 := by
      rw [heq]
      exact (setUp_put_folder htree hnone).of_entries rfl
    split
    · rename_i e d hmkdir
      rwa [hmkdir] at hmade
    · rename_i d hmkdir
      rw [hmkdir] at hmade
      have hfile' := hnew.creat hmade (.inr hfile) faults.creatFile
      split
      · rename_i e d' hcreat
        rw [hcreat] at hfile'
        exact hnew.rmdir hfile'
      · rename_i d' hcreat
        rw [hcreat] at hfile'
        have hmeta' := hnew.creat hfile' (.inl hmeta) faults.creatMeta
        split
        · rename_i e d'' hcreat'
          rw [hcreat'] at hmeta'
          exact hnew.rmdir (hnew.unlink hmeta' (.inr hfile))
        · rename_i d'' hcreat'
          rwa [hcreat'] at hmeta'

theorem deviceSetupFiles_setUp
    (htree : IsTree disk)
    (hfiles : HasFiles dev)
    (node : Xml)
    (faults : Faults) :
    (deviceSetupFiles dev node faults disk).2.entries = disk.entries ∨
    ∃ place, New dev place disk ∧ SetUp place disk (deviceSetupFiles dev node faults disk).2 := by
  have hcreate := deviceCreateFiles_setUp htree hfiles faults
  obtain ⟨metaFile, hmeta⟩ := exists_linkFile hfiles.dir serverDbDeviceMeta
  obtain ⟨file, hfile⟩ := exists_linkFile hfiles.dir serverDbDeviceContract
  rw [← hfiles.metaFile] at hmeta
  rw [← hfiles.file] at hfile
  unfold deviceSetupFiles
  rw [hmeta, hfile]
  dsimp only [Option.getD_some]
  split
  · rename_i d hok
    rw [hok] at hcreate
    rcases hcreate with ⟨hne, -⟩ | ⟨place, hnew, hset⟩
    · exact absurd rfl hne
    · refine .inr ⟨place, hnew, ?_⟩
      have hmeta' := hnew.write hset (.inl hmeta) faults.writeMeta
        (deviceWriteMeta dev.ownerId dev.href)
      split
      · rename_i d' hwrite
        rwa [hwrite] at hmeta'
      · rename_i d' hwrite
        rw [hwrite] at hmeta'
        have hfile' := hnew.write hmeta' (.inr hfile) faults.writeFile
          (xmlHeader ++ xmlDumpNode node)
        split
        · rename_i d'' hwrite'
          rwa [hwrite'] at hfile'
        · rename_i d'' hwrite'
          rwa [hwrite'] at hfile'
  · rename_i e d hne hfails
    rw [hfails] at hcreate
    rcases hcreate with ⟨-, hsame⟩ | ⟨place, hnew, hset⟩
    · exact .inl hsame
    · exact .inr ⟨place, hnew, hset⟩

theorem swept_congr
    (h : disk'.entries = disk.entries)
    (dev : ObixDev) :
    swept dev disk' = swept dev disk := by
  have hentry := entry_congr h
  unfold swept
  rw [resolve_congr hentry]
  split
  · rfl
  · rename_i place _
    have hinside : disk'.inside place = disk.inside place := by rw [inside, inside, h]
    have hfiles : filesIn place disk' = filesIn place disk := by simp only [filesIn, hentry]
    rw [hentry, hfiles]
    split
    · exact if_congr (by rw [hinside]) rfl rfl
    · rfl

theorem SetUp.swept_iff
    (hnew : New dev place old)
    (h : SetUp place old disk)
    (q : List Text) :
    q ∈ swept dev disk ↔ place <+: q ∧ disk.entry q ≠ none := by
  obtain ⟨hne, -, hlast⟩ := hnew.tree.of_resolve hnew.resolve (by simp [hnew.fresh])
  have hfile : q ∈ filesIn place disk → place <+: q ∧ disk.entry q ≠ none := by
    intro hmem
    obtain ⟨⟨name, -, rfl⟩, hfile⟩ := mem_filesIn.mp hmem
    refine ⟨List.prefix_append _ _, fun hnone => ?_⟩
    simp [hnone, isFile] at hfile
  rw [swept, hnew.resolve_dir h]
  dsimp only
  by_cases hfolder : disk.entry place = some .folder
  · rw [if_pos hfolder, if_pos]
    · constructor
      · intro hmem
        rcases List.mem_cons.mp hmem with rfl | hmem
        · exact ⟨List.prefix_rfl, by simp [hfolder]⟩
        · exact hfile hmem
      · rintro ⟨hpre, hentry⟩
        by_cases hq : q = place
        · simp [hq]
        · exact List.mem_cons_of_mem _ (h.files q hpre hentry hq)
    · refine ⟨hne, List.all_eq_true.mpr fun r hr => List.contains_iff_mem.mpr ?_, hlast⟩
      obtain ⟨hrne, hdrop, hentry⟩ := mem_inside.mp hr
      have hpre : place <+: r := hdrop ▸ List.dropLast_prefix r
      refine h.files r hpre hentry ?_
      rintro rfl
      have hlen := congrArg List.length hdrop
      rw [List.length_dropLast] at hlen
      have hpos := List.length_pos_of_ne_nil hrne
      omega
  · rw [if_neg hfolder]
    constructor
    · intro hmem
      cases hmem
    · rintro ⟨hpre, hentry⟩
      exact absurd (h.folder q hpre hentry) hfolder

/-- What is left on disk of a device whose files have been set up and removed again. -/
theorem cleared_withdrawn
    (htree : IsTree disk)
    (hfiles : HasFiles dev)
    (node : Xml)
    (faults : Faults) :
    Cleared (swept dev disk) disk
      (deviceRemoveFiles dev (deviceSetupFiles dev node faults disk).2) := by
  refine cleared_iff.mpr fun q => ?_
  have hremove :=
    cleared_iff.mp (cleared_deviceRemoveFiles hfiles (deviceSetupFiles dev node faults disk).2) q
  rcases deviceSetupFiles_setUp htree hfiles node faults with hsame | ⟨place, hnew, hset⟩
  · rwa [swept_congr hsame, entry_congr hsame] at hremove
  · have hswept : swept dev disk = [] := by
      rw [swept, hnew.resolve]
      dsimp only
      rw [if_neg (by simp [hnew.fresh])]
    rw [hswept, if_neg List.not_mem_nil, hremove]
    by_cases hpre : place <+: q
    · rw [htree.none_below hnew.fresh hpre]
      by_cases hentry : (deviceSetupFiles dev node faults disk).2.entry q = none
      · rw [hentry, ite_self]
      · rw [if_pos ((SetUp.swept_iff hnew hset q).mpr ⟨hpre, hentry⟩)]
    · rw [if_neg, hset.outside q hpre]
      exact fun hmem => hpre ((SetUp.swept_iff hnew hset q).mp hmem).1

end Calls

section Trees

variable {disk : Disk} {a : AddArgs} {s t : Registry} {e : ErrCode}

theorem isTree_deviceRemoveFiles
    (htree : IsTree disk)
    (dev : ObixDev) :
    IsTree (deviceRemoveFiles dev disk) :=
  kept_deviceRemoveFiles (keptByCalls_isTree (pathsOf dev)) htree

theorem isTree_deviceSetupFiles
    (htree : IsTree disk)
    (dev : ObixDev)
    (node : Xml)
    (faults : Faults) :
    IsTree (deviceSetupFiles dev node faults disk).2 :=
  kept_deviceSetupFiles (keptByCalls_isTree (pathsOf dev)) htree node faults

/-- A registry with its files: the links hold, and every entry of the disk is in a folder. -/
structure Filed (s : Registry) : Prop where
  linked : Linked s
  tree : IsTree s.disk

theorem filed_start
    {resdir : Text} {tabSize cacheSize : Nat} {dom : Xml}
    (htree : IsTree disk)
    (h : devicesStart resdir tabSize cacheSize dom disk = some s) :
    Filed s := by
  refine ⟨linked_start h, ?_⟩
  obtain ⟨dir, -, h⟩ := Option.bind_eq_some_iff.mp h
  split at h
  · cases h
  · obtain ⟨root, -, rfl⟩ := Option.map_eq_some_iff.mp h
    exact htree

theorem Filed.deviceAdd
    (hs : Filed s)
    (h : deviceAdd a s = some (e, t)) :
    Filed t := by
  refine ⟨hs.linked.deviceAdd h, ?_⟩
  rcases deviceAdd_cases h with ⟨-, -, rfl⟩ | ⟨p, u, e', t', hsearch, hout, rfl, -⟩
  · exact hs.tree
  · obtain ⟨cache, rfl⟩ := deviceSearchParent_some hsearch
    have hsetup := isTree_deviceSetupFiles hs.tree
    cases hout with
    | refused => exact hs.tree
    | @added parent child disk hpass hfiles hload =>
        by_cases hsignUp : a.signUp = true
        · have htree := hsetup child a.node a.faults
          have hret : deviceSetupFiles child a.node a.faults s.disk = (.success, disk) :=
            hfiles hsignUp
          rwa [hret] at htree
        · obtain rfl : disk = s.disk := hload (by simpa using hsignUp)
          exact hs.tree
    | @withdrawn parent child disk e hpass hsignUp hfiles he =>
        have htree := hsetup child a.node a.faults
        have hret : deviceSetupFiles child a.node a.faults s.disk = (_, disk) := hfiles
        rw [hret] at htree
        exact isTree_deviceRemoveFiles htree _

/-- Requests keep the links and the tree of the files. -/
theorem Filed.request
    {r : Request}
    (hs : Filed s)
    (h : r.run s = some (e, t)) :
    Filed t := by
  cases r with
  | signUp requesterId input faults =>
      rcases withHref_cases h with rfl | ⟨id, x, href, -, -, -, -, -, hadd⟩
      · exact hs
      · exact hs.deviceAdd hadd
  | signOff requesterId input =>
      rcases withHref_cases h with rfl | ⟨id, x, href, -, -, -, -, hroot, hdel⟩
      · exact hs
      · refine ⟨hs.linked.deviceDel hroot hdel, ?_⟩
        obtain ⟨u, -, -, -, -, hdisk, hout⟩ := hs.linked.deviceDel_cases hroot hdel
        have htree : IsTree u.disk := hdisk ▸ hs.tree
        rcases hout with ⟨-, rfl⟩ | ⟨i, dev, -, -, -, -, -, rfl⟩
        · exact htree
        · rw [disk_signedOff]
          exact isTree_deviceRemoveFiles htree dev

end Trees

section Harmless

variable {a : AddArgs} {s t : Registry} {e : ErrCode} {p : Nat} {parent child : ObixDev}

/-- Every device that was there is as before, with its place in the DOM tree and in the hash
table, and its paths lead to what they led to. -/
def Harmless (s t : Registry) : Prop :=
  ∀ i dev, s.heap i = some dev →
    t.heap i = some dev ∧ t.dom.ownNode i = s.dom.ownNode i ∧
    (i ∈ t.tab.items ↔ i ∈ s.tab.items) ∧
    ∀ path ∈ pathsOf dev, t.disk.stat path = s.disk.stat path

/-- Taking a new device back touches no other one: no device in the hash table has its href,
and no path of a device goes through a place that is swept with its folder. -/
def Spares (a : AddArgs) (s : Registry) : Prop :=
  ∀ p parent child, (s.deviceSearchParent a.href).1 = some p → Passes a p parent child s →
    (∀ i ∈ s.tab.items, isStrIdentical a.href (s.keyOf i) = false) ∧
    ∀ i dev, s.heap i = some dev → ∀ path ∈ pathsOf dev, s.disk.stat path ≠ none →
      ∀ q ∈ wayOf path, q ∉ swept child s.disk

/-- Behind its checks `device_add` links the device. -/
theorem deviceAddUnder_of_passes
    {name : Text}
    (hpass : Passes a p parent child s)
    (hname : a.input.getProp attrName = some name) :
    deviceAddUnder a p parent name s = deviceEnter a p parent child s := by
  obtain ⟨name', hname', hlink⟩ := hpass.name
  obtain rfl := Option.some.inj (hname.symm.trans hname')
  unfold deviceAddUnder
  rw [hlink, Option.bind_some, hpass.init]
  dsimp only
  rw [if_neg (by simp [hpass.allowed]), if_neg (by simpa using hpass.region), hpass.single]
  exact if_neg (by simpa using hpass.mount)

/-- A sign-up that fails behind the checks is taken back. -/
theorem deviceAdd_of_passes
    {u : Registry}
    (hsearch : s.deviceSearchParent a.href = (some p, u))
    (hpass : Passes a p parent child u)
    (hsignUp : a.signUp = true)
    (h : deviceAdd a s = some (e, t))
    (he : e ≠ .success) :
    t = (withdrawn a p parent child (deviceSetupFiles child a.node a.faults u.disk).2 u).put p := by
  obtain ⟨name, hname, -⟩ := hpass.name
  rw [deviceAdd, hsearch] at h
  dsimp only at h
  rw [hpass.live, Option.bind_some, hname, Option.map_some,
    deviceAddUnder_of_passes hpass hname] at h
  have hret := Option.some.inj h
  unfold deviceEnter at hret
  rw [if_pos hsignUp] at hret
  split at hret
  · cases hret
    exact absurd rfl he
  · rename_i e' disk hne hfiles
    rw [hfiles]
    exact (Prod.mk.inj hret).2.symm

/-- A sign-up that is refused by a check changes no device. -/
theorem harmless_of_refused
    (hrefused : ∀ p parent child u, s.deviceSearchParent a.href = (some p, u) →
      ¬ Passes a p parent child u)
    (h : deviceAdd a s = some (e, t))
    (he : e ≠ .success) :
    Harmless s t := by
  rcases deviceAdd_cases h with ⟨-, -, rfl⟩ | ⟨p, u, e', t', hsearch, hout, rfl, rfl⟩
  · exact fun i dev hi => ⟨hi, rfl, Iff.rfl, fun _ _ => rfl⟩
  · cases hout with
    | refused =>
        obtain ⟨cache, rfl⟩ := deviceSearchParent_some hsearch
        exact fun i dev hi => ⟨hi, rfl, Iff.rfl, fun _ _ => rfl⟩
    | added hpass => exact absurd hpass (hrefused _ _ _ _ hsearch)
    | withdrawn hpass => exact absurd hpass (hrefused _ _ _ _ hsearch)

/-- What is left of a sign-up that was taken back. -/
theorem harmless_withdrawn_iff
    (hs : Filed s)
    (hroot : isDeviceRootHref a.href = false)
    (hpass : Passes a p parent child s) :
    Harmless s (withdrawn a p parent child (deviceSetupFiles child a.node a.faults s.disk).2 s) ↔
      (∀ i ∈ s.tab.items, isStrIdentical a.href (s.keyOf i) = false) ∧
      ∀ i dev, s.heap i = some dev → ∀ path ∈ pathsOf dev, s.disk.stat path ≠ none →
        ∀ q ∈ wayOf path, q ∉ swept child s.disk := by
  obtain ⟨-, hhref, -, hchildren, -⟩ := dir_deviceInit hpass.init
  have hchild : isDeviceRootHref child.href = false := hhref ▸ hroot
  have hcleared := cleared_withdrawn hs.tree (hpass.hasFiles hroot) a.node a.faults
  have hstat : ∀ path, (withdrawn a p parent child
      (deviceSetupFiles child a.node a.faults s.disk).2 s).disk.stat path = s.disk.stat path ↔
      (s.disk.stat path ≠ none → ∀ q ∈ wayOf path, q ∉ swept child s.disk) :=
    fun path => stat_of_cleared hcleared
  have htab : ∀ i, (i ∈ (withdrawn a p parent child
      (deviceSetupFiles child a.node a.faults s.disk).2 s).tab.items ↔ i ∈ s.tab.items) ↔
      (i ∈ s.tab.items → isStrIdentical a.href (s.keyOf i) = false) := by
    intro i
    rw [mem_tab_withdrawn hs.linked hpass.live hchild hchildren, hhref]
    constructor
    · exact fun hiff hmem => (hiff.mpr hmem).2
    · exact fun hdiff => ⟨And.left, fun hmem => ⟨hmem, hdiff hmem⟩⟩
  constructor
  · intro h
    refine ⟨fun i hi => ?_, fun i dev hdev path hpath => ?_⟩
    · obtain ⟨dev, hdev⟩ := Option.ne_none_iff_exists'.mp (hs.linked.tabLive i hi).2
      exact (htab i).mp (h i dev hdev).2.2.1 hi
    · exact (hstat path).mp ((h i dev hdev).2.2.2 path hpath)
  · rintro ⟨hhash, hfiles⟩ i dev hdev
    refine ⟨?_, ?_, (htab i).mpr (hhash i), fun path hpath => ?_⟩
    · rw [heap_withdrawn hs.linked hpass.live]
      exact hdev
    · rw [dom_withdrawn hs.linked]
    · exact (hstat path).mpr (hfiles i dev hdev path hpath)

/-- The checks determine the new descriptor. -/
theorem Passes.child_unique
    {child' : ObixDev}
    (hpass : Passes a p parent child s)
    (hpass' : Passes a p parent child' s) :
    child = child' := by
  obtain ⟨name, hname, hdir⟩ := hpass.name
  obtain ⟨name', hname', hdir'⟩ := hpass'.name
  obtain rfl := Option.some.inj (hname.symm.trans hname')
  have hsame : child.dir = child'.dir := Option.some.inj (hdir.symm.trans hdir')
  have hinit := hpass.init
  rw [hsame, hpass'.init] at hinit
  exact (Option.some.inj hinit).symm

theorem Passes.of_search
    {u : Registry}
    (hsearch : s.deviceSearchParent a.href = (some p, u)) :
    Passes a p parent child u ↔ Passes a p parent child s := by
  obtain ⟨cache, rfl⟩ := deviceSearchParent_some hsearch
  constructor
  · exact fun h => ⟨h.live, h.name, h.init, h.allowed, h.region, h.single, h.mount⟩
  · exact fun h => ⟨h.live, h.name, h.init, h.allowed, h.region, h.single, h.mount⟩

/-- A failing sign-up leaves all devices as they were if and only if taking the new one back
touches no other one. -/
theorem failed_signUp_harmless_iff
    (hs : Filed s)
    (hsignUp : a.signUp = true)
    (h : deviceAdd a s = some (e, t))
    (he : e ≠ .success) :
    Harmless s t ↔ Spares a s := by
  by_cases hpass : ∃ p parent child, (s.deviceSearchParent a.href).1 = some p ∧
      Passes a p parent child s
  · obtain ⟨p, parent, child, hfound, hpass⟩ := hpass
    obtain ⟨u, hsearch⟩ : ∃ u, s.deviceSearchParent a.href = (some p, u) :=
      ⟨_, Prod.ext hfound rfl⟩
    have hpass' := (Passes.of_search hsearch).mpr hpass
    rw [deviceAdd_of_passes hsearch hpass' hsignUp h he]
    obtain ⟨hu, hroot, -⟩ := hs.linked.deviceSearchParent hsearch
    obtain ⟨cache, rfl⟩ := deviceSearchParent_some hsearch
    have hiff := harmless_withdrawn_iff ⟨hu, hs.tree⟩ hroot hpass'
    constructor
    · intro hharm q parent' child' hfound' hpass''
      obtain rfl : p = q := Option.some.inj (hfound.symm.trans hfound')
      obtain rfl := Option.some.inj (hpass.live.symm.trans hpass''.live)
      obtain rfl := hpass.child_unique hpass''
      exact hiff.mp hharm
    · exact fun hspares => hiff.mpr (hspares p parent child hfound hpass)
  · refine iff_of_true (harmless_of_refused (fun p parent child u hsearch hpass' => ?_) h he) ?_
    · exact hpass ⟨p, parent, child, by rw [hsearch], (Passes.of_search hsearch).mp hpass'⟩
    · intro p parent child hfound hpass'
      exact absurd ⟨p, parent, child, hfound, hpass'⟩ hpass

/-- A contract with the name of another device next to it. -/
def sampleTwin : AddArgs :=
  { input := sampleContract "a" "test/b"
    href := deviceRootHref ++ "test/b".toList
    requesterId := "me".toList
    signUp := true
    faults := Faults.none }

/-- The sign-up of such a contract ends with an error. -/
theorem failed_signUp_harmless_iff_twin :
    ∃ s t, Reachable (fun _ _ => True) s ∧ deviceAdd sampleTwin s = some (.diskIo, t) ∧
      (Harmless s t ↔ Spares sampleTwin s) := by
  have heval : (sampleStart.bind fun s =>
      ((sampleSignUp "a" "test/a").run s).bind fun x =>
        (deviceAdd sampleTwin x.2).map Prod.fst) = some .diskIo := by
    decide +kernel
  have htree : IsTree sampleDisk := isTree_of_entries (by decide +kernel)
  obtain ⟨s₀, hstart, heval⟩ := Option.bind_eq_some_iff.mp heval
  obtain ⟨⟨e, s⟩, hrun, heval⟩ := Option.bind_eq_some_iff.mp heval
  obtain ⟨⟨e', t⟩, hadd, rfl⟩ := Option.map_eq_some_iff.mp heval
  have hs : Filed s := (filed_start htree hstart).request hrun
  exact ⟨s, t, .step (.start hstart) trivial hrun, hadd,
    failed_signUp_harmless_iff hs rfl hadd (by decide)⟩

/-- Then the files of the other device are gone. -/
theorem failed_signUp_harms :
    ∃ s t, Reachable (fun _ _ => True) s ∧ deviceAdd sampleTwin s = some (.diskIo, t) ∧
      ¬ Harmless s t := by
  have heval : (sampleStart.bind fun s =>
      ((sampleSignUp "a" "test/a").run s).bind fun x =>
        (deviceAdd sampleTwin x.2).bind fun y => (x.2.heap 1).map fun dev =>
          (y.1, x.2.disk.stat dev.dir, y.2.disk.stat dev.dir)) =
      some (.diskIo, some .folder, none) := by
    decide +kernel
  obtain ⟨s₀, hstart, heval⟩ := Option.bind_eq_some_iff.mp heval
  obtain ⟨⟨e, s⟩, hrun, heval⟩ := Option.bind_eq_some_iff.mp heval
  obtain ⟨⟨e', t⟩, hadd, heval⟩ := Option.bind_eq_some_iff.mp heval
  obtain ⟨dev, hdev, heq⟩ := Option.map_eq_some_iff.mp heval
  simp only [Prod.mk.injEq] at heq
  obtain ⟨rfl, hbefore, hafter⟩ := heq
  refine ⟨s, t, .step (.start hstart) trivial hrun, hadd, fun hharm => ?_⟩
  have hsame := (hharm 1 dev hdev).2.2.2 dev.dir (by simp [pathsOf])
  rw [hbefore, hafter] at hsame
  cases hsame

end Harmless

end Devices
end Obix
