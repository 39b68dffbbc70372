import Obix.Server.Routed
import Obix.Watch.Items
import Obix.Xml.Dump

/-!
# Batch requests

`batch.c` with `obix_server_read` and `obix_server_invoke`.  A batch is a list of commands, each
of which reads, writes or invokes the node at a href; `handlerBatch` processes them one after the
other, gathers the answers, and has the device of the first successful write backed up.

The handlers, and reading outside of the Device subsystem, are a parameter (`Workload`): a batch
is about which of them run and not about what they do.  Memory is never short.  The templates of
contracts are those of `server_sys_objects.xml`.
-/

namespace Obix
namespace Serving

open CString XmlNode Devices

section Errors

/-- `OBIX_ATTR_IS`. -/
def attrIs : Text := "is".toList

/-- `OBIX_ATTR_DISPLAY`. -/
def attrDisplay : Text := "display".toList

/-- `OBIX_ATTR_DISPLAY_NAME`. -/
def attrDisplayName : Text := "displayName".toList

/-- `OBIX_OBJ_ERR`. -/
def objErr : Text := "err".toList

/-- The values of `err_msg_t.type`. -/
inductive ErrContract
  | badUri
  | unsupported
  | permission
  | server
  deriving DecidableEq, Repr

def ErrContract.text : ErrContract → Text
  | badUri => "obix:BadUriErr".toList
  | unsupported => "obix:UnsupportedErr".toList
  | permission => "obix:PermissionErr".toList
  | server => "obix:ServerErr".toList

/-- `server_err_msg`; a code for which there is no entry has neither a type nor a text. -/
def serverErrMsg : ErrCode → Option (ErrContract × String)
  | .success => none
  | .noInput => some (.unsupported, "Missing input contract")
  | .noHref => some (.unsupported, "Provided input has no href attribute")
  | .noName => some (.unsupported, "Provided input has no name attribute")
  | .noRequesterId => some (.unsupported, "Relevant request has no REQUESTER_ID environment")
  | .noSuchUri => some (.badUri, "Requested URI could not be found on the server")
  | .noMem => some (.server, "Insufficient memory on the server")
  | .noOpNode => some (.unsupported, "Requested URI is not an operation node")
  | .noMetaNode => some (.server, "Failed to retrieve meta node from relevant node")
  | .invalidInput => some (.unsupported, "Provided input contract is malformed")
  | .invalidHref => some (.badUri, "Provided href is invalid")
  | .invalidMeta => some (.server, "Failed to retrieve required attribute from the meta node")
  | .invalidArgument => some (.server, "Unknown server error: invalid argument")
  | .invalidState =>
      some (.server, "The requested device/facility is being shutting down, abort access")
  | .invalidObj => some (.unsupported, "Provided input contains invalid object model")
  | .tsCompare =>
      some (.server, "Failed to compare timestamps. Malformed? " ++
        "use ts2utc testcase to check timestamp sanity")
  | .tsObsolete =>
      some (.unsupported, "Data list contains records with timestamp older than or " ++
        "equal to that of the last record")
  | .readonlyHref => some (.badUri, "Provided href is read-only")
  | .permDenied => some (.unsupported, "The requested operation is not permitted")
  | .diskIo => some (.server, "Disk I/O failed")
  | .deviceConflictOwner =>
      some (.permission, "Another client already registered a device at the same href")
  | .deviceExists => none
  | .deviceOrphan => some (.server, "Unknown server error: orphan device")
  | .deviceNoSuchUri => some (.badUri, "Provided href doesn't point to a valid device")
  | .deviceChildren => some (.unsupported, "Device contains children")
  | .watchNoSuchUri => some (.badUri, "Provided href does not point to a valid watch object")
  | .watchNoMonitoredUri =>
      some (.badUri, "Provided href is not monitored by relevant watch object")
  | .historyDevid => some (.unsupported, "Failed to get history device ID from request")
  | .historyIo => some (.server, "I/O error while performing history request")
  | .historyData => some (.server, "Data in relevant history facility is corrupted")
  | .historyEmpty => some (.unsupported, "No data in relevant history facility at all")
  | .batchRecursive => some (.unsupported, "Recursive batch commands not supported")
  | .batchHistory =>
      some (.unsupported, "No history related requests via batch supported, " ++
        "please request them through normal POST method directly")
  | .batchPollchanges =>
      some (.unsupported, "No watch.pollChanges requests via batch supported, " ++
        "please request them through normal POST method directly")

/-- `ERROR_STUB`, without its href. -/
def errorStub : Xml :=
  .element none objErr
    [(attrIs, "obix:Err".toList), (attrName, "General error contract".toList)] []

/-- Set an attribute unless there is no value for it. -/
def setPropIf (attr : Text) (value : Option Text) (node : Xml) : Xml :=
  value.elim node fun v => setProp attr v node

/-- `obix_server_generate_error` for an entry of `server_err_msg`. -/
def obixServerGenerateError (href : Option Text) (e : ErrCode) (name : String) : Xml :=
  let msg := serverErrMsg e
  setPropIf attrDisplay (msg.map fun m => m.2.toList)
    (setProp attrDisplayName name.toList
      (setPropIf attrHref href (setPropIf attrIs (msg.map fun m => m.1.text) errorStub)))

theorem hasName_setProp (tag attr value : Text) (n : Xml) :
    (setProp attr value n).hasName tag = n.hasName tag := by
  cases n <;> rfl

/-- An error contract is an `err` object. -/
theorem hasName_obixServerGenerateError (href : Option Text) (e : ErrCode) (name : String) :
    (obixServerGenerateError href e name).hasName objErr = true := by
  have hif : ∀ attr value n, (setPropIf attr value n).hasName objErr = n.hasName objErr := by
    intro attr value n
    cases value with
    | none => rfl
    | some v => exact hasName_setProp objErr attr v n
  rw [obixServerGenerateError, hif, hasName_setProp, hif, hif]
  rfl

end Errors

section Read

mutual

/-- `__device_copy_node` without hidden and meta nodes and comments; `shut` says which devices are
being signed off. -/
def deviceCopyNode (shut : Nat → Bool) (parent : Option Nat) (depth : Nat) :
    XmlNode Nat → Option Xml
  | .element o name attrs cs =>
      if o ≠ parent ∧ o.any shut = true then none
      else if 0 < depth ∧ (Watches.xmlIsHidden (XmlNode.element o name attrs cs) = true ∨
          name = Watches.objMeta) then none
      else some (.element none name attrs (deviceCopyAll shut o (depth + 1) cs))
  | .text o content =>
      if o ≠ parent ∧ o.any shut = true then none else some (.text none content)
  | .comment o content =>
      if o ≠ parent ∧ o.any shut = true then none
      else if 0 < depth then none
      else some (.comment none content)

/-- The loop over the children, with `++depth`. -/
def deviceCopyAll (shut : Nat → Bool) (parent : Option Nat) (depth : Nat) :
    List (XmlNode Nat) → List Xml
  | [] => []
  | c :: cs =>
      (deviceCopyNode shut parent depth c).toList ++ deviceCopyAll shut parent (depth + 1) cs

end

/-- `device_copy_uri`. -/
def Store.deviceCopyUri (s : Store) (href : Text) : Option (Option Xml × Store) :=
  match s.deviceFind href with
  | (none, reg) => some (none, { s with reg := reg })
  | (some i, reg) =>
      (reg.heap i).map fun dev =>
        let shut := fun j => (reg.sync j).readerRequest.isNone
        ((if shut i then none
          else
            (reg.deviceGetNodeCore i dev href).bind (deviceCopyNode shut (some i) 0)),
          { s with reg := reg.put i })

/-- `xmlUnsetProp`. -/
def unsetProp (attr : Text) : Xml → Xml
  | .element o name attrs cs => .element o name (attrs.filter fun a => a.1 ≠ attr) cs
  | node => node

/-- `obix_server_read`; `copyUri` gives the copies outside of the Device subsystem. -/
def obixServerRead (copyUri : Text → Store → Option Xml) (uri : Text) (s : Store) :
    Option (Xml × Store) :=
  (if isOfType uri .device then s.deviceCopyUri uri else some (copyUri uri s, s)).map fun r =>
    match r.1 with
    | none => (obixServerGenerateError (some uri) .noSuchUri "Read", r.2)
    | some copy => (unsetProp Watches.attrHidden (setProp attrHref uri copy), r.2)

end Read

section Invoke

/-- `OBIX_OBJ_OP`. -/
def objOp : Text := "op".toList

/-- `OBIX_META_ATTR_OP`. -/
def attrOp : Text := "op".toList

/-- The functions of `post_handlers`. -/
inductive Handler
  | error
  | watchServiceMake
  | watchAdd
  | watchRemove
  | watchPollChanges
  | watchPollRefresh
  | watchDelete
  | signUp
  | signOff
  | batch
  | historyGet
  | historyQuery
  | historyAppend
  deriving DecidableEq, Repr

/-- `post_handlers`, in the order of their indices. -/
def postHandlers : List Handler :=
  [.error, .watchServiceMake, .watchAdd, .watchRemove, .watchPollChanges, .watchPollRefresh,
    .watchDelete, .signUp, .signOff, .batch, .historyGet, .historyQuery, .historyAppend]

/-- The handler for an id. -/
def postHandler (id : Int) : Handler :=
  if id < 0 then .error else postHandlers.getD id.toNat .error

/-- The handlers that no command of a batch may run. -/
def Handler.limited : Handler → Bool
  | watchPollChanges | batch | historyGet | historyQuery | historyAppend => true
  | _ => false

/-- The handlers that may answer by themselves and then return nothing. -/
def Handler.mayAnswer : Handler → Bool
  | watchPollChanges | historyGet | historyQuery | historyAppend => true
  | _ => false

/-- `xmldb_get_op_id_core`. -/
def xmldbGetOpIdCore {ω : Type} (node : XmlNode ω) : Except ErrCode Int :=
  if node.hasName objOp = false then .error .noOpNode
  else
    match node.findChild (some Watches.objMeta) (some attrOp) none with
    | none => .error .noMetaNode
    | some m =>
        let id := Monitoring.xmlGetLong attrOp m
        if id < 0 then .error .invalidMeta else .ok id

/-- `device_get_op_id`; the id is `0` if there is no node. -/
def Store.deviceGetOpId (s : Store) (href : Text) : Option (Except ErrCode Int × Store) :=
  match s.deviceFind href with
  | (none, reg) => some (.error .deviceNoSuchUri, { s with reg := reg })
  | (some i, reg) =>
      (reg.heap i).map fun dev =>
        ((if (reg.sync i).readerRequest.isNone then .error .invalidState
          else (reg.deviceGetNodeCore i dev href).elim (.ok 0) xmldbGetOpIdCore),
          { s with reg := reg.put i })

/-- `watch_get_op_id`; the id is `0` if there is no node. -/
def Store.watchGetOpId (s : Store) (beyond href : Text) : Except ErrCode Int :=
  match s.watchSearch href with
  | none => .error .watchNoSuchUri
  | some w =>
      if w.sync.readerRequest.isNone then .error .invalidState
      else (s.watchGetNodeCore beyond w href).elim (.ok 0) xmldbGetOpIdCore

/-- `xmldb_get_op_id`. -/
def Store.xmldbGetOpId (s : Store) (uri : Text) : Except ErrCode Int :=
  (xmldbGetNode s.dom uri).elim (.error .noSuchUri) xmldbGetOpIdCore

/-- `WATCH_SERVICE_MAKE`. -/
def watchServiceMake : Text := "/obix/watchService/make/".toList

/-- The id of the operation at a URI, as `obix_server_invoke` looks for it. -/
def Store.getOpId (s : Store) (beyond uri : Text) : Option (Except ErrCode Int × Store) :=
  if isOfType uri .device then s.deviceGetOpId uri
  else if isOfType uri .watch ∧ isStrIdentical uri watchServiceMake = false then
    some (s.watchGetOpId beyond uri, s)
  else some (s.xmldbGetOpId uri, s)

/-- An operation of a handler that no command of a batch may run. -/
def limitedOp {ω : Type} (node : XmlNode ω) : Bool :=
  match xmldbGetOpIdCore node with
  | .ok id => (postHandler id).limited
  | .error _ => false

/-- The tokens of `obix_roots[OBIX_BATCH].root`. -/
def batchPath : Path := ["obix".toList, "batch".toList]

/-- The tokens of `obix_roots[OBIX_WATCH].root`. -/
def watchServicePath : Path := ["obix".toList, "watchService".toList]

/-- Where the templates are. -/
def sysPath : Path := ["sys".toList]

/-- `OBIX_WATCH_POLLCHANGES`. -/
def pollChanges : Text := "pollChanges".toList

/-- Where the operations of such handlers are put: the batch facility, the History subsystem, the
`pollChanges` of watches, the templates and the contracts of devices. -/
def Reserved (p : Path) : Prop :=
  batchPath <+: p ∨ historyPath <+: p ∨
    (watchServicePath <+: p ∧ ∃ t ∈ p, pollChanges <:+: t) ∨ sysPath <+: p ∨ rootTokens <+: p

/-- What the server keeps in order. -/
structure Settled (s : Store) : Prop where
  sound : Sound s
  ops : ∀ p node, s.dom.getAt p = some node → limitedOp node = true → Reserved p

/-- What the handlers and the copies of other subsystems do.  The handlers keep the server in
order. -/
structure Workload where
  copyUri : Text → Store → Option Xml
  reply : Handler → Text → Option Xml → Store → Xml
  /-- Whether a handler answers by itself. -/
  alone : Handler → Text → Option Xml → Store → Bool
  next : Handler → Text → Option Xml → Store → Store
  keeps : ∀ h uri input s, Settled s → Settled (next h uri input s)

/-- What `obix_server_invoke` leads to; `ran` is kept for the statements. -/
structure Invoked where
  answer : Option Xml
  ran : Option Handler
  store : Store

/-- `obix_server_invoke`. -/
def obixServerInvoke (w : Workload) (beyond uri : Text) (input : Option Xml) (s : Store) :
    Option Invoked :=
  (s.getOpId beyond uri).map fun r =>
    match r.1 with
    | .ok id =>
        let h := postHandler id
        { answer :=
            if h.mayAnswer && w.alone h uri input r.2 then none else some (w.reply h uri input r.2)
          ran := some h
          store := w.next h uri input r.2 }
    | .error e =>
        { answer := some (obixServerGenerateError (some uri) e "Invoke"), ran := none, store := r.2 }

end Invoke

section Backup

mutual

/-- A contract without its descriptors. -/
def bare : XmlNode Nat → Xml
  | .element _ name attrs cs => .element none name attrs (bareAll cs)
  | .text _ content => .text none content
  | .comment _ content => .comment none content

def bareAll : List (XmlNode Nat) → List Xml
  | [] => []
  | c :: cs => bare c :: bareAll cs

end

mutual

/-- `__device_copy_no_child`. -/
def deviceCopyNoChild (parent : Nat) : XmlNode Nat → Xml
  | .element _ name attrs cs => .element none name attrs (copyOwnAll parent cs)
  | .text _ content => .text none content
  | .comment _ content => .comment none content

def copyOwnAll (parent : Nat) : List (XmlNode Nat) → List Xml
  | [] => []
  | c :: cs =>
      if c.owner = some parent then deviceCopyNoChild parent c :: copyOwnAll parent cs
      else copyOwnAll parent cs

end

/-- `__device_dump_device`. -/
def deviceDumpDevice (i : Nat) (dev : ObixDev) (node : XmlNode Nat) : Text :=
  if dev.children = [] then xmlDumpNode (bare node) else xmlDumpNode (deviceCopyNoChild i node)

/-- `__device_write_file`. -/
def deviceWriteFile (now : Int) (i : Nat) (dev : ObixDev) (s : Store) : Store :=
  let buf := (s.dom.ownNode i).elim [] (deviceDumpDevice i dev)
  { s with
    reg := { s.reg with disk := (s.reg.disk.write false (dev.file.getD []) (xmlHeader ++ buf)).2 }
    mtime := Function.update s.mtime i now }

/-- `device_backup_uri`; the first component is the device whose contract has been written. -/
def deviceBackupUri (now : Int) (href : Text) (s : Store) : Option (Option Nat × Store) :=
  match s.reg.deviceSearchParent href with
  | (none, reg) => some (none, { s with reg := reg })
  | (some i, reg) =>
      (reg.heap i).map fun dev =>
        let out : Store := { s with reg := reg.put i }
        if (reg.sync i).writerRequest.isNone then (none, out)
        else if now < s.mtime i + s.backupPeriod then (none, out)
        else (some i, deviceWriteFile now i dev out)

end Backup

section Batch

/-- `OBIX_CONTRACT_OP_READ`. -/
def contractOpRead : Text := "obix:Read".toList

/-- `OBIX_CONTRACT_OP_WRITE`. -/
def contractOpWrite : Text := "obix:Write".toList

/-- `OBIX_CONTRACT_OP_INVOKE`. -/
def contractOpInvoke : Text := "obix:Invoke".toList

/-- `OBIX_CONTRACT_BATCH_IN`. -/
def contractBatchIn : Text := "obix:BatchIn".toList

/-- `OBIX_OBJ_URI`. -/
def objUri : Text := "uri".toList

/-- `xmlStrcasecmp(s, t) == 0`. -/
def sameCaseless (s t : Text) : Bool := s.map Char.toLower = t.map Char.toLower

/-- What a command leads to.  `ran` and `host`, the device of the node whose value the command has
changed, are kept for the statements. -/
structure ItemOutcome where
  answer : Option Xml
  ran : Option Handler
  host : Option Nat
  /-- The URI to be backed up. -/
  uri : Option Text
  store : Store

variable (w : Workload)

/-- A command that has got an error contract. -/
def refuseItem (uri href : Option Text) (e : ErrCode) (s : Store) : ItemOutcome :=
  { answer := some (obixServerGenerateError href e "obix:Batch"), ran := none, host := none,
    uri := uri, store := s }

/-- `obix_server_write` with its answer. -/
def writeAnswer (href : Text) (o : Outcome) : Option (Xml × Store) :=
  if o.ret = .success then obixServerRead w.copyUri href o.store
  else some (obixServerGenerateError (some href) o.ret "Write", o.store)

/-- A write command. -/
def writeItem
    (beyond : Text)
    (uri : Option Text)
    (href : Text)
    (input : Option Xml)
    (s : Store) :
    Option ItemOutcome :=
  (obixServerWrite beyond href input s).bind fun o =>
    (writeAnswer w href o).map fun r =>
      { answer := some r.1
        ran := none
        host := o.updater.bind fun u =>
          match u with
          | .device _ => (s.deviceNode href).bind fun n => n.2.owner
          | _ => none
        uri := if uri.isNone && !r.1.hasName objErr then some href else uri
        store := r.2 }

/-- An invoke command. -/
def invokeItem
    (beyond : Text)
    (uri : Option Text)
    (href : Text)
    (input : Option Xml)
    (s : Store) :
    Option ItemOutcome :=
  if isOfType href .batch then some (refuseItem uri (some href) .batchRecursive s)
  else if isOfType href .history then some (refuseItem uri (some href) .batchHistory s)
  else if isOfType href .watch ∧ (find pollChanges href).isSome then
    some (refuseItem uri (some href) .batchPollchanges s)
  else
    (obixServerInvoke w beyond href input s).map fun r =>
      { answer := r.answer, ran := r.ran, host := none, uri := uri, store := r.store }

/-- `obix_batch_process_item`. -/
def obixBatchProcessItem (beyond : Text) (uri : Option Text) (item : Xml) (s : Store) :
    Option ItemOutcome :=
  match item.getProp attrVal with
  | none => some (refuseItem uri none .invalidInput s)
  | some href =>
      if xmlIsValidHref href = false then some (refuseItem uri (some href) .invalidHref s)
      else
        match item.getProp attrIs with
        | none => some (refuseItem uri (some href) .invalidInput s)
        | some contract =>
            if sameCaseless contract contractOpRead then
              (obixServerRead w.copyUri href s).map fun r =>
                { answer := some r.1, ran := none, host := none, uri := uri, store := r.2 }
            else if sameCaseless contract contractOpWrite then
              writeItem w beyond uri href item.children.head? s
            else if sameCaseless contract contractOpInvoke then
              invokeItem w beyond uri href item.children.head? s
            else some (refuseItem uri (some href) .invalidInput s)

/-- What the commands of a batch lead to. -/
structure BatchRun where
  items : List ItemOutcome
  uri : Option Text
  store : Store

/-- The loop of `handlerBatch`; `beyond n` is what the memory behind the href of the `n`-th
command holds. -/
def processItems (beyond : Nat → Text) : Nat → Option Text → List Xml → Store → Option BatchRun
  | _, uri, [], s => some { items := [], uri := uri, store := s }
  | n, uri, item :: rest, s =>
      (obixBatchProcessItem w (beyond n) uri item s).bind fun o =>
        (processItems beyond (n + 1) o.uri rest o.store).map fun r =>
          { r with items := o :: r.items }

/-- A batchIn contract. -/
def isBatchIn (input : Xml) : Bool :=
  input.hasName History.objList && input.getProp attrIs = some contractBatchIn

/-- The commands of a batch. -/
def commands (input : Xml) : List Xml := input.children.filter fun item => item.hasName objUri

/-- `BATCH_OUT_STUB`, without its href, with its answers. -/
def batchOut (answers : List Xml) : Xml :=
  .element none History.objList [(attrIs, "obix:BatchOut".toList)] answers

/-- What a batch leads to; `run` and `backedUp` are kept for the statements. -/
structure BatchOutcome where
  answer : Xml
  run : Option BatchRun
  backedUp : Option Nat
  store : Store

/-- `handlerBatch`. -/
def handlerBatch (beyond : Nat → Text) (now : Int) (uri : Text) (input : Option Xml) (s : Store) :
    Option BatchOutcome :=
  let refuse := fun e =>
    some { answer := obixServerGenerateError (some uri) e "obix:Batch", run := none,
           backedUp := none, store := s }
  match input with
  | none => refuse .noInput
  | some input =>
      if isBatchIn input = false then refuse .invalidInput
      else
        (processItems w beyond 0 none (commands input) s).bind fun r =>
          (r.uri.elim (some (none, r.store)) fun href => deviceBackupUri now href r.store).map
            fun b =>
              { answer := batchOut (r.items.filterMap ItemOutcome.answer), run := some r,
                backedUp := b.1, store := b.2 }

end Batch

end Serving
end Obix
