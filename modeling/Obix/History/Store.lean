import Obix.Xml.Node
import Obix.Utils.Timestamp

/-!
# The history store of one device

Data model of a history facility: the descriptor of the device with its sorted
list of fragments, each fragment with its abstract in the index and with its log
file.  A log file is modelled by the records written into it, in the order of
the writes; its bytes are the concatenation of the serialised records, each
followed by `"\r\n"`.

The serialiser `xml_dump_node` of the XML library is a parameter of the model
wherever bytes are read.
-/

namespace Obix

open CString

/-- Error codes of the server, `errcode_t`. -/
inductive ErrCode
  | success
  | noInput | noHref | noName | noRequesterId | noSuchUri | noMem | noOpNode
  | noMetaNode | invalidInput | invalidHref | invalidMeta | invalidArgument
  | invalidState | invalidObj | tsCompare | tsObsolete | readonlyHref | permDenied
  | diskIo
  | deviceConflictOwner | deviceExists | deviceOrphan | deviceNoSuchUri | deviceChildren
  | watchNoSuchUri | watchNoMonitoredUri
  | historyDevid | historyIo | historyData | historyEmpty
  | batchRecursive | batchHistory | batchPollchanges
  deriving DecidableEq, Repr

namespace History

/-- The tag `abstime`. -/
def objAbstime : Text := "abstime".toList

/-- The tag `list`. -/
def objList : Text := "list".toList

/-- The tag `int`. -/
def objInt : Text := "int".toList

/-- The name of the timestamp of a record, `HIST_REC_TS`. -/
def histRecTs : Text := "timestamp".toList

/-- The name of the list of records of a HistoryAppendIn contract, `HIST_AIN_DATA`. -/
def histAinData : Text := "data".toList

/-- `HIST_RECORD_SEPARATOR`. -/
def histRecordSeparator : Text := "\r\n".toList

/-- The timestamp of a record element. -/
def recordTs (record : Xml) : Option Text :=
  xmlGetChildVal record objAbstime histRecTs

/-- The abstract of a fragment, obix:HistoryFileAbstract. -/
structure Abstract where
  date : Text
  count : Int
  start : Text
  fin : Text
  deriving DecidableEq, Repr

/-- `obix_hist_file_t`: a fragment with the records in its log file. -/
structure HistFile where
  abstract : Abstract
  records : List Xml

/-- `obix_hist_dev_t`, as far as appending and querying use it; `index` is the
index file as last flushed. -/
structure HistDev where
  count : Int
  files : List HistFile
  index : List Abstract

/-- A newly created facility. -/
def emptyDev : HistDev :=
  { count := 0, files := [], index := [] }

/-- All records of a facility in file order. -/
def HistDev.records (dev : HistDev) : List Xml :=
  dev.files.flatMap HistFile.records

/-- The bytes that `write_logfile` appends for a record. -/
def recordText (dump : Xml → Text) (record : Xml) : Text :=
  dump record ++ histRecordSeparator

/-- The bytes of a log file. -/
def HistFile.content (dump : Xml → Text) (file : HistFile) : Text :=
  (file.records.map (recordText dump)).flatten

/-- UTC time of a record, `-1` if it has no valid timestamp. -/
def recordTime (record : Xml) : Int :=
  match recordTs record with
  | none => -1
  | some ts => timestampToUtcTime ts

/-- A record with nothing but a timestamp. -/
def plainRecord (ts : Text) : Xml :=
  .element none "obj".toList [("is".toList, "obix:HistoryRecord".toList)]
    [.element none objAbstime [(attrName, histRecTs), (attrVal, ts)] []]

/-- The HistoryAppendIn contract with the given records. -/
def appendIn (records : List Xml) : Xml :=
  .element none "obj".toList [("is".toList, "obix:HistoryAppendIn".toList)]
    [.element none objList [(attrName, histAinData)] records]

/-- Time of the latest record of a facility as the append loop sees it. -/
def HistDev.latestTs (dev : HistDev) : Text :=
  match dev.files.getLast? with
  | none => histTsInit
  | some file => file.abstract.fin

end History

end Obix
