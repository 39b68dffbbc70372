import Obix.Device.Registry
import Obix.Lib.DiskListing

/-!
# Loading devices from the disk

`obix_devices_init` of `device.c` with the functions that go through the folders of the devices.
The order in which `readdir` lists the names of a folder is a parameter, and so is the number of
folders that may be inside one another.  As with `device_add`, there is no result when a pointer is
used that has no value, or when the folders are too deep.
-/

namespace Obix
namespace Devices

open CString
open History (obixIdDevice)

/-- `device_load_meta` with the call of `lstat`. -/
def deviceLoadMetaAt (disk : Disk) (path : Text) : Except ErrCode (Option MetaInfo) :=
  match disk.lstat path with
  | .enoent => .ok none
  | .enotdir => .error .diskIo
  | .entry .folder => .error .noMem
  | .entry (.file content) => deviceLoadMeta (some content)

/-- `device_load_contract`; `device_search_parent` refuses a missing href. -/
def deviceLoadContract (path : Text) (info : Option MetaInfo) (s : Registry) :
    Option (ErrCode × Registry) :=
  match s.disk.lstat path with
  | .enoent => some (.success, s)
  | .enotdir => some (.diskIo, s)
  | .entry .folder => some (.noMem, s)
  | .entry (.file content) =>
      match xmlReadDoc content, info with
      | none, _ => some (.noMem, s)
      | some _, none => some (.deviceNoSuchUri, s)
      | some root, some info =>
          deviceAdd
            { input := root, href := info.href, requesterId := info.ownerId, signUp := false,
              faults := Faults.none }
            s

section Loop

variable (load : Text → Registry → Option (ErrCode × Registry))

/-- `device_load_child`, with `device_load_files` as a parameter. -/
def deviceLoadChild (dir file : Text) (s : Registry) : Option (Bool × Registry) :=
  match linkPathname dir none (some file) none with
  | none => some (false, s)
  | some path =>
      if s.disk.stat path = some .folder then
        (load path s).map fun r => (decide (r.1 = .success), r.2)
      else some (true, s)

/-- The loop of `for_each_file_name` over the names of a folder. -/
def forEachFileName (dir : Text) : List Text → Registry → Option (Bool × Registry)
  | [], s => some (true, s)
  | name :: names, s =>
      if name = ['.'] ∨ name = ['.', '.'] then forEachFileName dir names s
      else
        match deviceLoadChild load dir name s with
        | some (true, s) => forEachFileName dir names s
        | r => r

end Loop

/-- `device_load_files`. -/
def deviceLoadFiles (readdir : Text → List Text) :
    Nat → Text → Registry → Option (ErrCode × Registry)
  | 0, _, _ => none
  | n + 1, resdir, s =>
      match linkFile resdir serverDbDeviceMeta, linkFile resdir serverDbDeviceContract with
      | some metaFile, some file =>
          match deviceLoadMetaAt s.disk metaFile with
          | .error e => some (e, s)
          | .ok info =>
              match deviceLoadContract file info s with
              | some (.success, s) =>
                  if s.disk.stat resdir = some .folder then
                    (forEachFileName (deviceLoadFiles readdir n) resdir (readdir resdir) s).map
                      fun r => (if r.1 then .success else .diskIo, r.2)
                  else some (.diskIo, s)
              | r => r
      | _, _ => some (.noMem, s)

/-- `obix_devices_init`. -/
def obixDevicesInit
    (readdir : Text → List Text)
    (n : Nat)
    (resdir : Text)
    (tabSize cacheSize : Nat)
    (dom : Xml)
    (disk : Disk) :
    Option (Except ErrCode Registry) :=
  match linkPathname resdir none (some serverDbDevices) none,
      devicesStart resdir tabSize cacheSize dom disk with
  | some dir, some s =>
      (deviceLoadFiles readdir n dir s).map fun r =>
        if r.1 = .success then .ok r.2 else .error .noMem
  | _, _ => some (.error .noMem)

end Devices
end Obix
