import Obix.Lib.Runs
import Obix.Xml.Dump

/-!
# Batch objects of a client

A batch object keeps its commands twice: as the children of the `batch.in` document and as the
list of command descriptors.  `obix_batch_remove_command` searches in both on its own.  For the
document and for the list this is the removal of the first occurrence of a href, so that the two
agree after every sequence of calls (`batchIn_lists_cmds`).
-/

namespace Obix
namespace Client

open CString XmlNode

section Model

/-- The return values of the client library. -/
inductive ErrCode
  | success
  | invalidArgument
  | invalidState
  | noMemory
  | serverError
  deriving DecidableEq, Repr

/-- `OBIX_DATA_TYPE`. -/
inductive DataType
  | bool
  | int
  | real
  | str
  | enum
  | abstime
  | reltime
  | uri
  deriving DecidableEq, Repr

/-- `OBIX_DATA_TYPE_NAMES`. -/
def DataType.name : DataType → Text
  | .bool => "bool".toList
  | .int => "int".toList
  | .real => "real".toList
  | .str => "str".toList
  | .enum => "enum".toList
  | .abstime => "abstime".toList
  | .reltime => "reltime".toList
  | .uri => "uri".toList

/-- A registered device with the href that the server has given to it. -/
structure Device where
  name : Text
  href : Text
  deriving DecidableEq, Repr

/-- A connection. -/
structure Connection where
  devices : List Device
  deriving DecidableEq, Repr

/-- `device_get`. -/
def Connection.deviceGet
    (conn : Connection)
    (name : Text) :
    Option Device :=
  conn.devices.find? fun dev => dev.name = name

/-- A command.  `result` is the place of its node among the children of the root of the
`batch.out` document. -/
structure Command where
  dev : Device
  param : Text
  href : Text
  result : Option Nat
  deriving DecidableEq, Repr

/-- A batch object; `batchIn` and `out` are the roots of the two documents. -/
structure Batch where
  batchIn : Xml
  out : Option Xml
  cmds : List Command

/-- `OBIX_OBJ_URI`. -/
def objUri : Text := "uri".toList

/-- `OBIX_ATTR_IS`. -/
def attrIs : Text := "is".toList

/-- `OBIX_CONTRACT_OP_READ`. -/
def contractOpRead : Text := "obix:Read".toList

/-- `OBIX_CONTRACT_OP_WRITE`. -/
def contractOpWrite : Text := "obix:Write".toList

/-- `OBIX_BATCH_IN_NAME`. -/
def batchInName : Text := "in".toList

/-- The root of `OBIX_BATCH_IN_DOC`. -/
def batchInDoc : Xml :=
  .element none "list".toList
    [(attrIs, "obix:BatchIn".toList), ("of".toList, "obix:uri".toList)] []

/-- `obix_batch_create`. -/
def batchCreate : Batch := { batchIn := batchInDoc, out := none, cmds := [] }

/-- `BATCH_CMD_TYPE`; a write has the new value and its type. -/
inductive BatchCmdType
  | writeValue (val : Text) (tag : DataType)
  | read
  deriving DecidableEq, Repr

/-- The node of a command in the `batch.in` document. -/
def BatchCmdType.node (type : BatchCmdType) (href : Text) : Xml :=
  match type with
  | .read => .element none objUri [(attrIs, contractOpRead), (attrVal, href)] []
  | .writeValue val tag =>
      .element none objUri [(attrIs, contractOpWrite), (attrVal, href)]
        [.element none tag.name [(attrName, batchInName), (attrVal, val)] []]

/-- `xmlAddChild`. -/
def addChild (parent child : Xml) : Xml :=
  match parent with
  | .element owner name attrs children => .element owner name attrs (children ++ [child])
  | node => node

/-- `xml_find_child` and `xml_delete_node`, when there is such a child. -/
def deleteChild (parent : Xml) (tag attrName attrVal : Option Text) : Xml :=
  match parent with
  | .element owner name attrs children =>
      .element owner name attrs (children.eraseP (matchesChild tag attrName attrVal))
  | node => node

/-- `obix_batch_add_command`. -/
def Batch.addCommand
    (batch : Batch)
    (conn : Connection)
    (type : BatchCmdType)
    (name param : Text) :
    ErrCode × Batch :=
  match conn.deviceGet name with
  | none => (.invalidArgument, batch)
  | some dev =>
      match linkPathname dev.href none (some param) none with
      | none => (.noMemory, batch)
      | some href =>
          (.success,
            { batch with
              batchIn := addChild batch.batchIn (type.node href)
              cmds := batch.cmds ++ [{ dev := dev, param := param, href := href, result := none }] })

/-- `obix_batch_write_value`. -/
def Batch.writeValue
    (batch : Batch)
    (conn : Connection)
    (name param val : Text)
    (tag : DataType) :
    ErrCode × Batch :=
  batch.addCommand conn (.writeValue val tag) name param

/-- `obix_batch_read`. -/
def Batch.read
    (batch : Batch)
    (conn : Connection)
    (name param : Text) :
    ErrCode × Batch :=
  batch.addCommand conn .read name param

/-- `obix_batch_remove_command`. -/
def Batch.removeCommand
    (batch : Batch)
    (conn : Connection)
    (name param : Text) :
    ErrCode × Batch :=
  match conn.deviceGet name with
  | none => (.invalidArgument, batch)
  | some dev =>
      match linkPathname dev.href none (some param) none with
      | none => (.noMemory, batch)
      | some href =>
          let batchIn := deleteChild batch.batchIn (some objUri) (some attrVal) (some href)
          if batch.cmds.any (fun cmd => cmd.href = href) then
            (.success,
              { batch with
                batchIn := batchIn
                cmds := batch.cmds.eraseP fun cmd => cmd.href = href })
          else (.invalidState, { batch with batchIn := batchIn })

/-- A call on a batch object, with the devices that the connection has at that time. -/
inductive BatchCall
  | writeValue (conn : Connection) (name param val : Text) (tag : DataType)
  | read (conn : Connection) (name param : Text)
  | removeCommand (conn : Connection) (name param : Text)
  deriving DecidableEq, Repr

/-- What a call makes of the batch object. -/
def Batch.step (batch : Batch) : BatchCall → Option Batch
  | .writeValue conn name param val tag => some (batch.writeValue conn name param val tag).2
  | .read conn name param => some (batch.read conn name param).2
  | .removeCommand conn name param => some (batch.removeCommand conn name param).2

end Model

section Agreement

variable {batch t : Batch} {conn : Connection} {name param : Text}

/-- The hrefs of the commands. -/
def Batch.hrefs (batch : Batch) : List Text := batch.cmds.map Command.href

/-- The children of the document are `<uri/>` nodes, and their values are the hrefs of the
commands. -/
structure Batch.Listed (batch : Batch) : Prop where
  root : ∃ owner tag attrs, batch.batchIn = .element owner tag attrs batch.batchIn.children
  uris : ∀ node ∈ batch.batchIn.children, node.hasName objUri = true
  vals : batch.batchIn.children.map (getProp attrVal) = batch.hrefs.map some

@[simp] theorem BatchCmdType.node_hasName
    (type : BatchCmdType)
    (href : Text) :
    (type.node href).hasName objUri = true := by
  cases type <;> rfl

@[simp] theorem BatchCmdType.node_val
    (type : BatchCmdType)
    (href : Text) :
    (type.node href).getProp attrVal = some href := by
  have hattrs : ∀ op : Text, List.lookup attrVal [(attrIs, op), (attrVal, href)] = some href := by
    intro op
    have hne : (attrVal == attrIs) = false := by decide
    simp [List.lookup_cons, hne]
  cases type with
  | writeValue val tag => exact hattrs contractOpWrite
  | read => exact hattrs contractOpRead

theorem batchCreate_listed : batchCreate.Listed where
  root := ⟨_, _, _, rfl⟩
  uris := by simp [batchCreate, batchInDoc, children]
  vals := rfl

/-- A new command goes to the end of both. -/
theorem Batch.Listed.add
    (h : batch.Listed)
    (type : BatchCmdType)
    (cmd : Command) :
    Batch.Listed
      { batch with
        batchIn := addChild batch.batchIn (type.node cmd.href)
        cmds := batch.cmds ++ [cmd] } := by
  obtain ⟨owner, tag, attrs, hroot⟩ := h.root
  have hchildren : (addChild batch.batchIn (type.node cmd.href)).children =
      batch.batchIn.children ++ [type.node cmd.href] := by
    rw [hroot]
    rfl
  refine ⟨⟨owner, tag, attrs, ?_⟩, ?_, ?_⟩
  · dsimp only
    rw [hchildren, hroot]
    rfl
  · intro node hnode
    rcases List.mem_append.mp (hchildren ▸ hnode) with hold | hnew
    · exact h.uris node hold
    · rw [List.mem_singleton.mp hnew]
      exact type.node_hasName cmd.href
  · dsimp only [Batch.hrefs]
    rw [hchildren, List.map_append, List.map_append, List.map_append, h.vals]
    simp [Batch.hrefs]

/-- The search in the command list takes the first occurrence of a href. -/
theorem hrefs_eraseP
    (cmds : List Command)
    (href : Text) :
    (cmds.eraseP fun cmd => cmd.href = href).map Command.href =
      (cmds.map Command.href).erase href := by
  rw [List.erase_eq_eraseP', List.eraseP_map]
  congr 2
  funext cmd
  rw [Function.comp_apply, beq_eq_decide]

/-- The search in the document takes the first occurrence of a value. -/
theorem vals_eraseP
    {nodes : List Xml}
    (huris : ∀ node ∈ nodes, node.hasName objUri = true)
    (href : Text) :
    (nodes.eraseP (matchesChild (some objUri) (some attrVal) (some href))).map (getProp attrVal) =
      (nodes.map (getProp attrVal)).erase (some href) := by
  induction nodes with
  | nil => rfl
  | cons node nodes ih =>
      have huri := huris node List.mem_cons_self
      have hmatches : matchesChild (some objUri) (some attrVal) (some href) node =
          (node.getProp attrVal == some href) := by
        have helement : node.isElement = true := by
          cases node with
          | element owner name attrs children => rfl
          | text owner content => cases huri
          | comment owner content => cases huri
        rw [matchesChild, helement]
        cases hval : node.getProp attrVal with
        | none => simp
        | some val => simp [huri, beq_eq_decide]
      rw [List.map_cons, List.erase_cons, List.eraseP_cons, hmatches]
      cases node.getProp attrVal == some href with
      | true => rfl
      | false =>
          rw [cond_false, List.map_cons, ih fun n hn => huris n (List.mem_cons_of_mem node hn)]
          rfl

/-- Both searches find the same command, or none. -/
theorem Batch.Listed.remove
    (h : batch.Listed)
    (href : Text) :
    Batch.Listed
      { batch with
        batchIn := deleteChild batch.batchIn (some objUri) (some attrVal) (some href)
        cmds := batch.cmds.eraseP fun cmd => cmd.href = href } := by
  obtain ⟨owner, tag, attrs, hroot⟩ := h.root
  have hchildren : (deleteChild batch.batchIn (some objUri) (some attrVal) (some href)).children =
      batch.batchIn.children.eraseP (matchesChild (some objUri) (some attrVal) (some href)) := by
    rw [hroot]
    rfl
  refine ⟨⟨owner, tag, attrs, ?_⟩, ?_, ?_⟩
  · dsimp only
    rw [hchildren, hroot]
    rfl
  · intro node hnode
    exact h.uris node (List.mem_of_mem_eraseP (hchildren ▸ hnode))
  · dsimp only [Batch.hrefs]
    rw [hchildren, vals_eraseP h.uris, hrefs_eraseP, h.vals, Batch.hrefs,
      ← List.map_erase (Option.some_injective Text)]

theorem Batch.Listed.addCommand
    (h : batch.Listed)
    (type : BatchCmdType) :
    (batch.addCommand conn type name param).2.Listed := by
  unfold Batch.addCommand
  cases conn.deviceGet name with
  | none => exact h
  | some dev =>
      dsimp only
      cases linkPathname dev.href none (some param) none with
      | none => exact h
      | some href => exact h.add type { dev := dev, param := param, href := href, result := none }

theorem Batch.Listed.removeCommand
    (h : batch.Listed) :
    (batch.removeCommand conn name param).2.Listed := by
  unfold Batch.removeCommand
  cases conn.deviceGet name with
  | none => exact h
  | some dev =>
      dsimp only
      cases linkPathname dev.href none (some param) none with
      | none => exact h
      | some href =>
          dsimp only
          have hremove := h.remove href
          split
          · exact hremove
          · -- a command that is not found is not taken from the list
            rename_i hany
            have hcmds : (batch.cmds.eraseP fun cmd => cmd.href = href) = batch.cmds :=
              List.eraseP_of_forall_not fun cmd hcmd hhref =>
                hany (List.any_eq_true.mpr ⟨cmd, hcmd, hhref⟩)
            rw [hcmds] at hremove
            exact hremove

theorem Batch.Listed.step
    {call : BatchCall}
    (h : batch.Listed)
    (hstep : batch.step call = some t) :
    t.Listed := by
  cases call with
  | writeValue conn name param val tag =>
      cases hstep
      exact h.addCommand (.writeValue val tag)
  | read conn name param =>
      cases hstep
      exact h.addCommand .read
  | removeCommand conn name param =>
      cases hstep
      exact h.removeCommand

/-- The batch objects that sequences of calls lead to. -/
def Batch.Built (batch : Batch) : Prop :=
  Runs.Reaches Batch.step (fun _ _ => True) batchCreate batch

theorem Batch.Built.listed (h : batch.Built) : batch.Listed :=
  Runs.Reaches.invariant h (fun _ _ _ hs _ hstep => hs.step hstep) batchCreate_listed

/-- The values of the `<uri/>` children of the `batch.in` document are the hrefs of the commands,
in their order. -/
theorem batchIn_lists_cmds
    (h : batch.Built) :
    (batch.batchIn.children.filter (hasName objUri)).map (getProp attrVal) =
      batch.cmds.map fun cmd => some cmd.href := by
  have hlisted := h.listed
  rw [List.filter_eq_self.mpr hlisted.uris, hlisted.vals, Batch.hrefs, List.map_map]
  rfl

/-- One device. -/
def meterConnection : Connection :=
  { devices := [{ name := "meter".toList, href := "/obix/deviceRoot/M1".toList }] }

/-- A parameter that is read twice, and once more after one of the two commands has been
removed. -/
def meterCalls : List BatchCall :=
  [.read meterConnection "meter".toList "kWh".toList,
    .writeValue meterConnection "meter".toList "limit".toList "7".toList .int,
    .read meterConnection "meter".toList "kWh".toList,
    .removeCommand meterConnection "meter".toList "kWh".toList]

theorem batchIn_lists_cmds_meter :
    ∃ batch : Batch, Runs.exec Batch.step batchCreate meterCalls = some batch ∧
      (batch.batchIn.children.filter (hasName objUri)).map (getProp attrVal) =
        [some "/obix/deviceRoot/M1/limit".toList, some "/obix/deviceRoot/M1/kWh".toList] := by
  refine ⟨_, rfl, ?_⟩
  exact (batchIn_lists_cmds (Runs.Reaches.refl.free meterCalls rfl)).trans (by decide +kernel)

end Agreement

end Client
end Obix
