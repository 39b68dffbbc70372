import Obix.History.Store

/-!
# History.Append

`__hist_append_dev` and `hist_append_dev` of `history.c`.  The loop over the
records runs on an explicit state that holds the local variables of the C
function.  Input and output can fail: `IoFaults` says for which positions of the
record list the creation of a fragment or the write of a record fails.
-/

namespace Obix
namespace History

open CString

/-- Positions of the record list at which creating a fragment or writing a record fails. -/
structure IoFaults where
  create : Nat → Bool
  write : Nat → Bool

/-- No failure at all. -/
def noFaults : IoFaults :=
  { create := fun _ => false, write := fun _ => false }

/-- Local variables of `__hist_append_dev`.  The pointer `file` is an index of
`dev.files`, or `none` for `NULL`. -/
structure AppendState where
  dev : HistDev
  file : Option Nat
  latestTs : Text
  count : Nat
  allCount : Nat
  ret : ErrCode

/-- `add_abs_count`. -/
def addAbsCount (added : Nat) (file : HistFile) : HistFile :=
  if file.abstract.count < 0 then file
  else { file with abstract := { file.abstract with count := file.abstract.count + added } }

/-- Fold the number of records written by this call into the current abstract. -/
def foldAbsCount (files : List HistFile) (file : Option Nat) (count : Nat) : List HistFile :=
  if count > 0 then
    match file with
    | none => files
    | some k => files.modify k (addAbsCount count)
  else files

/-- `creat` on the log file of a date truncates a file that exists already. -/
def creatLogfile (date : Text) (files : List HistFile) : List HistFile :=
  files.map fun f => if f.abstract.date = date then { f with records := [] } else f

/-- `__hist_create_fragment`: the new fragment becomes the last one. -/
def histCreateFragment
    (fails : Bool)
    (dev : HistDev)
    (ts : Text) :
    Option HistDev :=
  match timestampGetUtcDate ts with
  | none => none
  | some date =>
      if fails then none
      else
        let fragment : HistFile :=
          { abstract := { date := date, count := 0, start := ts, fin := ts }, records := [] }
        some { dev with files := creatLogfile date dev.files ++ [fragment] }

/-- `write_logfile` followed by the update of the end timestamp in the abstract. -/
def writeLogfile (record : Xml) (ts : Text) (file : HistFile) : HistFile :=
  { abstract := { file.abstract with fin := ts }, records := file.records ++ [record] }

/-- How one round of the record loop ends. -/
inductive AppendRound
  /-- Go on with the next record. -/
  | next (st : AppendState)
  /-- `goto failed`. -/
  | failed (st : AppendState)
  /-- `write_logfile` would dereference a `NULL` file. -/
  | nullFile

/-- Write an accepted record into the current fragment. -/
def appendWrite
    (fails : Bool)
    (record : Xml)
    (ts : Text)
    (st : AppendState) :
    AppendRound :=
  match st.file with
  | none => .nullFile
  | some k =>
      if fails then .failed { st with ret := .historyIo }
      else
        .next
          { dev := { st.dev with files := st.dev.files.modify k (writeLogfile record ts) }
            file := some k
            latestTs := ts
            count := st.count + 1
            allCount := st.allCount + 1
            ret := .success }

/-- One round of the record loop of `__hist_append_dev`. -/
def appendRecord
    (io : IoFaults)
    (i : Nat)
    (record : Xml)
    (st : AppendState) :
    AppendRound :=
  if record.isElement = false then .next st
  else
    match recordTs record with
    | none => .next { st with ret := .tsCompare }
    | some ts =>
        match timestampCompare ts st.latestTs with
        | none => .next { st with ret := .tsCompare }
        | some (.lt, _) => .next { st with ret := .tsObsolete }
        | some (.eq, _) => .next { st with ret := .tsObsolete }
        | some (.gt, false) => appendWrite (io.write i) record ts st
        | some (.gt, true) =>
            let dev :=
              { st.dev with files := foldAbsCount st.dev.files st.file st.count }
            match histCreateFragment (io.create i) dev ts with
            | none =>
                .failed { st with dev := dev, file := none, count := 0, ret := .historyIo }
            | some dev' =>
                appendWrite (io.write i) record ts
                  { st with dev := dev', file := some (dev'.files.length - 1), count := 0 }

/-- The record loop, started at position `i` of the list. -/
def appendLoop (io : IoFaults) : Nat → List Xml → AppendState → AppendRound
  | _, [], st => .next st
  | i, record :: records, st =>
      match appendRecord io i record st with
      | .next st' => appendLoop io (i + 1) records st'
      | .failed st' => .failed st'
      | .nullFile => .nullFile

/-- State at the beginning of the record loop. -/
def appendStart (dev : HistDev) : AppendState :=
  { dev := dev
    file := if dev.files = [] then none else some (dev.files.length - 1)
    latestTs := dev.latestTs
    count := 0
    allCount := 0
    ret := .success }

/-- What the code after the loop makes of the device: the counters are folded in. -/
def settle (st : AppendState) : HistDev :=
  { st.dev with
    count := st.dev.count + st.allCount
    files := foldAbsCount st.dev.files st.file st.count }

/-- Code after the loop: fold the counters and flush the index. -/
def appendFinish (st : AppendState) : HistDev :=
  if st.allCount > 0 then
    { settle st with index := (settle st).files.map HistFile.abstract }
  else settle st

/-- Outcome of `__hist_append_dev`: the device, the return code and `*added`. -/
inductive AppendOutcome
  | returned (dev : HistDev) (ret : ErrCode) (added : Nat)
  | nullFile

/-- `__hist_append_dev` on the children of the data list. -/
def appendRecords (io : IoFaults) (dev : HistDev) (records : List Xml) : AppendOutcome :=
  match appendLoop io 0 records (appendStart dev) with
  | .next st => .returned (appendFinish st) st.ret st.allCount
  | .failed st => .returned st.dev st.ret 0
  | .nullFile => .nullFile

/-- `__hist_append_dev`. -/
def histAppendCore (io : IoFaults) (dev : HistDev) (input : Xml) : AppendOutcome :=
  match input.findChild (some objList) (some attrName) (some histAinData) with
  | none => .returned dev .invalidInput 0
  | some list => appendRecords io dev list.children

/-- A HistoryAppendOut contract. -/
structure AppendOut where
  numAdded : Int
  newCount : Int
  newStart : Text
  newEnd : Text
  deriving DecidableEq, Repr

/-- What a client gets from `hist_append_dev`. -/
inductive AppendReply
  /-- An error contract. -/
  | error (code : ErrCode)
  /-- A HistoryAppendOut contract. -/
  | out (contract : AppendOut)
  /-- No reply: a `NULL` file or the first entry of an empty list is dereferenced. -/
  | undefined
  deriving DecidableEq, Repr

/-- The code of `hist_append_dev` after `__hist_append_dev`. -/
def appendAnswer (dev : HistDev) (ret : ErrCode) (added : Nat) : AppendReply :=
  if ret ≠ .success then .error ret
  else
    match dev.files.head?, dev.files.getLast? with
    | some first, some last =>
        .out
          { numAdded := added
            newCount := dev.count
            newStart := first.abstract.start
            newEnd := last.abstract.fin }
    | _, _ => .undefined

/-- `hist_append_dev`, the facility inside its write region. -/
def histAppendDev (io : IoFaults) (dev : HistDev) (input : Xml) : HistDev × AppendReply :=
  match histAppendCore io dev input with
  | .nullFile => (dev, .undefined)
  | .returned dev' ret added => (dev', appendAnswer dev' ret added)

end History
end Obix
