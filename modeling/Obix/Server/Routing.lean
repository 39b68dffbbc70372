import Obix.Device.Hierarchy
import Obix.History.Store
import Obix.Utils.Timestamp
import Obix.Watch.Service
import Obix.Xml.Confined

/-!
# Write requests

`obix_server_write` and the update functions of the subsystems.  Which function is called depends
on how the URI begins, while the nodes are found by the tokens of the URI.  The parts of the tree
that belong to a subsystem are changed by its own update function, and the nodes of a device in
the write region of that device, if and only if the URI is spelled so that both agree
(`write_routed_iff`).

Memory is never short, and the watch service is not being shut down.  Notifying watches changes
nothing in the tree and is left out.
-/

namespace Obix
namespace Serving

open CString XmlNode Devices

/-- `obix_root_t`. -/
inductive ObixRoot
  | batch
  | device
  | watch
  | history
  deriving DecidableEq, Repr

/-- `obix_roots[type].root`. -/
def ObixRoot.root : ObixRoot → Text
  | batch => "/obix/batch/".toList
  | device => deviceRootHref
  | watch => Watches.watchRootHref
  | history => "/obix/historyService/".toList

/-- `is_given_type`. -/
def isOfType (href : Text) (type : ObixRoot) : Bool :=
  (trimSlash type.root).isPrefixOf href &&
    ((href.drop (trimSlash type.root).length).head?.all (· = '/'))

theorem isOfType_device (href : Text) : isOfType href .device = isGivenType href := rfl

/-- Where the nodes of the History subsystem are. -/
def historyPath : Path := ["obix".toList, "historyService".toList]

/-- `OBIX_OBJ_BOOL`. -/
def objBool : Text := "bool".toList

/-- `XML_FALSE`. -/
def xmlFalse : Text := "false".toList

/-- The string from an offset of a string on, when the memory behind its end holds `beyond`. -/
def stringFrom (beyond s : Text) (n : Nat) : Text :=
  ((s ++ '\x00' :: beyond).drop n).takeWhile (· ≠ '\x00')

section Watches

/-- `obix_watch_t`, as far as requests for its nodes use it. -/
structure ObixWatch where
  id : Nat
  sync : Tsync
  deriving DecidableEq, Repr

/-- `MAX_WATCHES_PER_FOLDER`. -/
def maxWatchesPerFolder : Nat := 64

/-- `WATCH_ID_PREFIX`. -/
def watchIdStart : Text := "watch".toList

/-- The tokens of `WATCH_URI_TEMPLATE`; the node of a watch is put there. -/
def ObixWatch.path (w : ObixWatch) : Path :=
  ["obix".toList, "watchService".toList, Nat.toDigits 10 (w.id / maxWatchesPerFolder),
    watchIdStart ++ Nat.toDigits 10 w.id]

/-- `watch->href`. -/
def ObixWatch.href (w : ObixWatch) : Text := delimited '/' w.path ++ ['/']

/-- `watch_get_id`; its result is an `int`. -/
def watchGetId (href : Text) : Int :=
  if isOfType href .watch = false ∨ href.length ≤ ObixRoot.watch.root.length then -1
  else
    let rest := href.drop ObixRoot.watch.root.length
    match find watchIdStart rest with
    | none => -1
    | some n =>
        match strToLong (rest.drop (n + watchIdStart.length)) with
        | .ok l => l.bmod (2 ^ 32)
        | .error ret => ret

/-- The way from the node of a watch down to the node of a href. -/
def ObixWatch.nodePath (beyond : Text) (w : ObixWatch) (href : Text) : Path :=
  if isStrIdentical w.href href then [] else tokens '/' (stringFrom beyond href w.href.length)

end Watches

/-- What requests work on. -/
structure Store where
  reg : Registry
  /-- `dev->mtime`. -/
  mtime : Nat → Int
  /-- `_devices->backup_period`. -/
  backupPeriod : Int
  watches : List ObixWatch

/-- Who has changed the tree: an update function, in whose write region. -/
inductive Updater
  | device (i : Nat)
  | watch (id : Nat)
  | xmldb
  deriving DecidableEq, Repr

/-- What an update leads to.  `updater` is kept for the statements. -/
structure Outcome where
  ret : ErrCode
  updater : Option Updater
  store : Store

namespace Store

variable (s : Store)

/-- The DOM tree. -/
def dom : XmlNode Nat := s.reg.dom

/-- The same store with another tree. -/
def withDom (dom : XmlNode Nat) : Store :=
  { s with reg := { s.reg with dom := dom } }

/-- An update that has not got to the tree. -/
def refuse (e : ErrCode) : Outcome :=
  { ret := e, updater := none, store := s }

/-- `device_search` and `device_search_parent`, as they are called for a URI. -/
def deviceFind (href : Text) : Option Nat × Registry :=
  match s.reg.deviceSearch href with
  | (some i, reg) => (some i, reg)
  | (none, reg) => reg.deviceSearchParent href

/-- `device_update_uri`. -/
def deviceUpdateUri (href new : Text) : Option Outcome :=
  match s.deviceFind href with
  | (none, reg) => some (refuse { s with reg := reg } .deviceNoSuchUri)
  | (some i, reg) =>
      (reg.heap i).map fun dev =>
        let out : Store := { s with reg := reg.put i }
        if (reg.sync i).writerRequest.isNone then refuse out .invalidState
        else
          match reg.deviceGetNodeCore i dev href with
          | none => refuse out .deviceNoSuchUri
          | some node =>
              if node.getProp attrVal = some new then refuse out .success
              else
                { ret := .success
                  updater := some (.device i)
                  store := out.withDom (reg.dom.modifyOwn i
                    (modifyAt (setProp attrVal new) (Registry.nodePath dev href))) }

/-- `watch_search`. -/
def watchSearch (href : Text) : Option ObixWatch :=
  if watchGetId href < 0 then none else s.watches.find? fun w => (w.id : Int) = watchGetId href

/-- `__watch_get_node_core`. -/
def watchGetNodeCore (beyond : Text) (w : ObixWatch) (href : Text) : Option (XmlNode Nat) :=
  (s.dom.getAt w.path).bind fun node =>
    if isStrIdentical w.href href then some node
    else xmldbGetNodeCore node (stringFrom beyond href w.href.length)

/-- `watch_update_uri`. -/
def watchUpdateUri (beyond href new : Text) : Outcome :=
  match s.watchSearch href with
  | none => s.refuse .watchNoSuchUri
  | some w =>
      if w.sync.writerRequest.isNone then s.refuse .invalidState
      else
        match s.watchGetNodeCore beyond w href with
        | none => s.refuse .noSuchUri
        | some node =>
            match node.getProp attrVal with
            | none => s.refuse .readonlyHref
            | some old =>
                if old = new then s.refuse .success
                else
                  { ret := .success
                    updater := some (.watch w.id)
                    store := s.withDom
                      (modifyAt (setProp attrVal new) (w.path ++ w.nodePath beyond href) s.dom) }

/-- `xmldb_update_uri`. -/
def xmldbUpdateUri (href val : Text) : Outcome :=
  match xmldbGetNode s.dom href with
  | none => s.refuse .noSuchUri
  | some _ =>
      { ret := .success
        updater := some .xmldb
        store := s.withDom (modifyAt (setProp attrVal val) (tokens '/' href) s.dom) }

/-- The end of `obix_server_write`, from where the function for the URI is chosen. -/
def updateUri (beyond uri val : Text) : Option Outcome :=
  if isOfType uri .device then s.deviceUpdateUri uri val
  else if isOfType uri .watch then some (s.watchUpdateUri beyond uri val)
  else some (s.xmldbUpdateUri uri val)

end Store

/-- Whether the `href` of an input contract is not that of the URI. -/
def otherHref (uri : Text) (input : Xml) : Bool :=
  match input.getProp attrHref with
  | none => false
  | some href => (if slashPreceded href then uri else basename uri) ≠ href

/-- Whether a value does not fit the input contract. -/
def unfit (input : Xml) (val : Text) : Bool :=
  (input.hasName objBool && val ≠ Watches.xmlTrue && val ≠ xmlFalse) ||
    (input.hasName History.objAbstime && !timestampIsValid val)

/-- `obix_server_write` up to the answer.  `beyond` is what the memory behind the URI holds. -/
def obixServerWrite (beyond uri : Text) (input : Option Xml) (s : Store) : Option Outcome :=
  match input with
  | none => some (s.refuse .noInput)
  | some input =>
      if isOfType uri .history then some (s.refuse .readonlyHref)
      else if otherHref uri input then some (s.refuse .invalidHref)
      else
        match input.getProp attrVal with
        | none => some (s.refuse .invalidInput)
        | some val =>
            if unfit input val then some (s.refuse .invalidInput) else s.updateUri beyond uri val

end Serving
end Obix
