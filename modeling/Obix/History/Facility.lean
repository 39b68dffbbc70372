import Obix.History.Store
import Obix.Xml.Dom

/-!
# Creation of history facilities

`handlerHistoryGet`, `__hist_create_dev` and the directory scan at start-up, of
`history.c`.  The `_private` pointer of a node under the history lobby refers to the
descriptor of a facility, which is named here by its `dev_id`.

Memory allocation and file operations do not fail, except that a folder that
exists cannot be created.
-/

namespace Obix
namespace History

open CString

/-- `OBIX_HISTORY_LOBBY`. -/
def obixHistoryLobby : Text := "/obix/historyService/histories/".toList

/-- `DEVICE_ID`. -/
def deviceId : Text := "dev_id".toList

/-- The tag `str`. -/
def objStr : Text := "str".toList

/-- A node of the global DOM tree. -/
abbrev Node := XmlNode Text

/-- An operation of the template of a facility. -/
def stubOp (name contractIn contractOut opId : String) : Node :=
  .element none "op".toList
    [(attrName, name.toList), (attrHref, name.toList), ("in".toList, contractIn.toList),
      ("out".toList, contractOut.toList)]
    [.element none "meta".toList [("op".toList, opId.toList)] []]

/-- `HIST_DEV_STUB`, without its href. -/
def histDevStub : Node :=
  .element none "obj".toList [("is".toList, "obix:HistoryDevLobby".toList)]
    [stubOp "query" "obix:HistoryFilter" "obix:HistoryQueryOut" "11",
      stubOp "append" "obix:HistoryAppendIn" "obix:HistoryAppendOut" "12"]

/-- The document of `HIST_INDEX_SKELETON`. -/
def histIndexSkeleton : Node :=
  .element none objList
    [(attrName, "index".toList), (attrHref, "index".toList),
      ("of".toList, "obix:HistoryFileAbstract".toList)] []

/-- `obix_hist_dev_t`, as far as it identifies a facility. -/
structure Facility where
  devId : Text
  href : Text
  deriving DecidableEq, Repr

/-- A folder of a facility with the document in its index file. -/
structure Folder where
  name : Text
  index : Node

/-- The history subsystem: the histories folder, the list of facilities and the
global DOM tree. -/
structure HistSys where
  disk : List Folder
  devices : List Facility
  dom : Node

/-- `__hist_add_devnode`; `setup` is what is done to the node of the facility then. -/
def histAddDevnode (href : Text) (setup : Node → Node) (dom : Node) : Option Node :=
  if (xmldbGetNode dom href).isSome then some (XmlNode.modifyAt setup (tokens '/' href) dom)
  else xmldbPutNode histDevStub (histDevStub.setProp attrHref href) setup href dom

/-- The index list and the `_private` pointers of the subtree. -/
def setupFacility (devId : Text) (index node : Node) : Node :=
  XmlNode.setupPrivate devId (XmlNode.addChild index node)

/-- Enqueue a facility before the first one with a name at least as long. -/
def enqueueDev (dev : Facility) : List Facility → List Facility
  | [] => [dev]
  | n :: rest =>
      if n.devId.length < dev.devId.length then n :: enqueueDev dev rest else dev :: n :: rest

/-- `__hist_create_dev`. -/
def histCreateDev (devId href : Text) (index : Node) (sys : HistSys) : Option HistSys :=
  (histAddDevnode href (setupFacility devId index) sys.dom).map fun dom =>
    { sys with devices := enqueueDev { devId := devId, href := href } sys.devices, dom := dom }

/-- Join tokens with a delimiter, `get_dev_id_helper` and `hist_get_href`. -/
def joinTokens (delim : Char) : Option Text → Text → Option (Option Text)
  | none, token => some (some token)
  | some str, token => some (some (str ++ [delim] ++ token))

/-- `hist_get_dev_id` without the name of an operation. -/
def histGetDevId (uri : Text) : Option Text :=
  let uri := if obixHistoryLobby <+: uri then uri.drop obixHistoryLobby.length else uri
  let str := if slashFollowed uri then uri.dropLast else uri
  (forEachStrToken '/' str (joinTokens '.') none).join

/-- `mkdir` of a folder in the histories folder. -/
def mkdirAllowed (sys : HistSys) (name : Text) : Prop :=
  name ∉ sys.disk.map Folder.name ∧ name ≠ ".".toList ∧ name ≠ "..".toList

instance (sys : HistSys) (name : Text) : Decidable (mkdirAllowed sys name) :=
  inferInstanceAs (Decidable (_ ∧ _ ∧ _))

/-- `__hist_create_backend`. -/
def histCreateBackend (name : Text) (sys : HistSys) : Option HistSys :=
  if mkdirAllowed sys name then
    some { sys with disk := sys.disk ++ [{ name := name, index := histIndexSkeleton }] }
  else none

def opDeviceRemove : Nat := 0x2

def opDeviceDelete : Nat := 0x4

def opWatchDelete : Nat := 0x200

def opHistoryCreate : Nat := 0x10000

def obixIdDevice : Text := "SERVER:DEVICE".toList

def obixIdWatch : Text := "SERVER:WATCH".toList

def obixIdHistory : Text := "SERVER:HISTORY".toList

/-- `se_lookup`. -/
def seLookup (subject object : Text) (ops : Nat) : Bool :=
  if subject = obixIdDevice ∨ subject = obixIdWatch ∨ subject = obixIdHistory then true
  else if ops &&& opDeviceRemove > 0 then object = obixIdDevice ∨ subject = object
  else if ops &&& opDeviceDelete > 0 ∨ ops &&& opWatchDelete > 0 then subject = object
  else true

/-- What a client gets from `handlerHistoryGet`. -/
inductive GetReply
  | error (code : ErrCode)
  /-- `HIST_GET_OUT_SKELETON`. -/
  | out (devId href : Text)
  deriving DecidableEq, Repr

/-- The href of a facility for a device path. -/
def histHref (subhref : Text) : Text :=
  linkFolder obixHistoryLobby ++ skipSlash subhref

theorem linkPathname_histHref (subhref : Text) :
    linkPathname obixHistoryLobby none (some subhref) none = some (histHref subhref) := by
  have hne : obixHistoryLobby ≠ [] := by decide
  simp only [linkPathname, hne, if_false, Option.elim_none, Option.elim_some, Option.getD_none,
    List.append_nil, histHref]

/-- The device path in the input of History.Get. -/
def subhrefOf (input : Option Xml) : Option Text :=
  input.bind fun node => xmlGetChildVal node objStr deviceId

/-- The part of `handlerHistoryGet` that creates a facility. -/
def getCreate (devId href : Text) (sys : HistSys) : HistSys × GetReply :=
  match histCreateBackend devId sys with
  | none => (sys, .error .diskIo)
  | some sys' =>
      match histCreateDev devId href histIndexSkeleton sys' with
      | none => (sys', .error .noMem)
      | some sys'' => (sys'', .out devId href)

/-- `handlerHistoryGet`. -/
def handlerHistoryGet
    (requester : Text)
    (input : Option Xml)
    (sys : HistSys) :
    HistSys × GetReply :=
  match subhrefOf input with
  | none => (sys, .error .invalidInput)
  | some subhref =>
      match histGetDevId subhref with
      | none => (sys, .error .historyDevid)
      | some devId =>
          if sys.devices.any fun dev => dev.devId = devId then
            (sys, .out devId (histHref subhref))
          else if seLookup requester obixIdHistory opHistoryCreate = false then
            (sys, .error .permDenied)
          else
            getCreate devId (histHref subhref) sys

/-- `skipped_dirs`. -/
def isSkippedDir (name : Text) : Bool := name = "lost+found".toList

/-- `hist_load_dev`; a folder that cannot be loaded fails the start-up. -/
def histLoadDev (folder : Folder) (sys : HistSys) : Option HistSys :=
  if isSkippedDir folder.name then some sys
  else
    match (forEachStrToken '.' folder.name (joinTokens '/') none).join with
    | none => none
    | some subhref => histCreateDev folder.name (histHref subhref) folder.index sys

/-- `obix_hist_init`: load the facilities in the order of the directory scan. -/
def obixHistInit (disk : List Folder) (dom : Node) : Option HistSys :=
  disk.foldlM (fun sys folder => histLoadDev folder sys)
    { disk := disk, devices := [], dom := dom }

end History
end Obix
