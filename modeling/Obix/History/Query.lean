import Obix.History.ParseLog

/-!
# History.Query

`__hist_query_dev` of `history.c`.  The program reads the facility, its
environment, anew in every step; the shared state are the static buffers of
`parse_log`.
-/

namespace Obix
namespace History

open CString

def filterStart : Text := "start".toList

def filterEnd : Text := "end".toList

def filterLimit : Text := "limit".toList

/-- The start of the range in a filter. -/
def startOf (input : Xml) : Option Text := xmlGetChildVal input objAbstime filterStart

/-- The end of the range in a filter. -/
def endOf (input : Xml) : Option Text := xmlGetChildVal input objAbstime filterEnd

/-- The limit of a filter; a missing one reads as `-1`. -/
def limitOf (input : Xml) : Int := xmlGetChildLong input objInt filterLimit

/-- `HIST_AIN_TS_UND`. -/
def histAinTsUnd : Text := "UNSPECIFIED".toList

/-- A HistoryQueryOut contract: the values in its header and the data items. -/
structure QueryOut where
  count : Int
  start : Text
  fin : Text
  data : List Text
  deriving DecidableEq, Repr

/-- The response items of a HistoryQueryOut contract, with `HIST_QUERY_OUT_PREFIX`
before the data and `HIST_QUERY_OUT_SUFFIX` behind. -/
def QueryOut.responseItems (out : QueryOut) : List Text :=
  [("<obj is=\"obix:HistoryQueryOut\">\r\n<int name=\"count\" val=\"".toList ++
      showInt out.count ++ "\"/>\r\n<abstime name=\"start\" val=\"".toList ++
      out.start ++ "\"/>\r\n<abstime name=\"end\" val=\"".toList ++
      out.fin ++ "\"/>\r\n<list name=\"data\" of=\"obix:HistoryRecord\">\r\n".toList)] ++
    out.data ++ ["</list>\r\n</obj>\r\n".toList]

/-- What a client gets from `hist_query_dev`. -/
inductive QueryReply
  | error (code : ErrCode)
  | out (contract : QueryOut)
  /-- `parse_log` has written past the end of a static buffer. -/
  | undefined
  deriving DecidableEq, Repr

/-- Local variables of `__hist_query_dev` in the loop over the fragments. -/
structure QueryState where
  start : Text
  fin : Text
  /-- Maximal number of records still to read. -/
  n : Int
  /-- Number of records read. -/
  r : Int
  startTs : Option Text
  endTs : Option Text
  items : List Text

/-- The code from the label `no_matching_data` on. -/
def queryFinish (qs : QueryState) : QueryReply :=
  .out
    { count := qs.r
      start := qs.startTs.getD qs.start
      fin := qs.endTs.getD qs.fin
      data := qs.items }

/-- State without any record read yet. -/
def queryInit (start fin : Text) (n : Int) : QueryState :=
  { start := start, fin := fin, n := n, r := 0, startTs := none, endTs := none, items := [] }

/-- Maximal number of records to read. -/
def queryBudget (dev : HistDev) (input : Xml) : Int :=
  if limitOf input < 0 ∨ limitOf input > dev.count then dev.count else limitOf input

/-- The code before the loop over the fragments. -/
def queryOpen (dev : HistDev) (input : Xml) : QueryReply ⊕ QueryState :=
  match dev.files.head?, dev.files.getLast? with
  | some first, some last =>
      let oldest := first.abstract.start
      let latest := last.abstract.fin
      let start := (startOf input).getD oldest
      let fin := (endOf input).getD latest
      if limitOf input = 0 then .inl (queryFinish (queryInit start fin 0))
      else
        match timestampHasCommon start fin oldest latest with
        | .error => .inl (.error .tsCompare)
        | .startAfter | .endBefore =>
            .inl (queryFinish (queryInit ((startOf input).getD histAinTsUnd)
              ((endOf input).getD histAinTsUnd) (queryBudget dev input)))
        | .common =>
            match timestampFindCommon start fin oldest latest with
            | none => .inl (.error .tsCompare)
            | some (start, fin) => .inr (queryInit start fin (queryBudget dev input))
  | _, _ => .inl (.error .historyEmpty)

/-- What is to be done with a fragment. -/
inductive FileStep
  /-- `continue`. -/
  | skip
  /-- `break`. -/
  | finish
  /-- `goto flush_response` with an error. -/
  | fail (code : ErrCode)
  /-- Return the whole content. -/
  | whole
  /-- Return what `parse_log` leaves of the content. -/
  | parse (args : ParseArgs)

/-- The decision about a fragment in the loop of `__hist_query_dev`. -/
def queryFile (dump : Xml → Text) (qs : QueryState) (file : HistFile) : FileStep :=
  let oldest := file.abstract.start
  let latest := file.abstract.fin
  match timestampHasCommon qs.start qs.fin oldest latest with
  | .error => .fail .tsCompare
  | .startAfter => .skip
  | .endBefore => .finish
  | .common =>
      -- `read_logfile` refuses an empty file
      if file.content dump = [] then .fail .historyIo
      else if timestampHasCommon oldest oldest qs.start qs.fin = .common ∧
          timestampHasCommon latest latest qs.start qs.fin = .common then
        if file.abstract.count ≤ qs.n then .whole
        else .parse { range := none, limit := qs.n, wantStart := qs.startTs.isNone }
      else
        .parse { range := some (qs.start, qs.fin), limit := qs.n, wantStart := qs.startTs.isNone }

/-- Append a response item; an item of length zero cannot be created. -/
def queryItem
    (qs : QueryState)
    (data : Text)
    (count : Int)
    (startTs : Option Text)
    (endTs : Text) :
    Option QueryState :=
  if data = [] then none
  else
    some
      { qs with
        n := qs.n - count
        r := qs.r + count
        startTs := qs.startTs <|> startTs
        endTs := some endTs
        items := qs.items ++ [data] }

/-- Go on after a fragment has been read: `none` is a failure of `queryItem`. -/
def queryNext
    (next : QueryState → Resumption HistDev ParseStatics QueryReply) :
    Option QueryState → Resumption HistDev ParseStatics QueryReply
  | none => .ret (.error .noMem)
  | some qs => if qs.n = 0 then .ret (queryFinish qs) else next qs

/-- Use what `parse_log` has found. -/
def queryParsed
    (qs : QueryState)
    (next : QueryState → Resumption HistDev ParseStatics QueryReply) :
    ParseOutcome → Resumption HistDev ParseStatics QueryReply
  | .ok res => queryNext next (queryItem qs res.data res.count res.startTs res.endTs)
  | .failed => .ret (.error .historyData)
  | .overflow => .ret .undefined

/-- The loop over the fragments, from fragment `i` on, with `left` of them left. -/
def queryFiles
    (dump : Xml → Text) :
    Nat → QueryState → Nat → Resumption HistDev ParseStatics QueryReply
  | 0, qs, _ => .ret (queryFinish qs)
  | left + 1, qs, i =>
      .step false (fun _ st => st) fun dev _ =>
        match dev.files[i]? with
        | none => .ret (queryFinish qs)
        | some file =>
            let next := fun qs' => queryFiles dump left qs' (i + 1)
            match queryFile dump qs file with
            | .skip => next qs
            | .finish => .ret (queryFinish qs)
            | .fail code => .ret (.error code)
            | .whole =>
                queryNext next
                  (queryItem qs (file.content dump) file.abstract.count
                    (some file.abstract.start) file.abstract.fin)
            | .parse args =>
                (parseLog args (file.content dump)).bind (queryParsed qs next)

/-- `__hist_query_dev`. -/
def histQueryCore
    (dump : Xml → Text)
    (input : Xml) :
    Resumption HistDev ParseStatics QueryReply :=
  .step false (fun _ st => st) fun dev _ =>
    match queryOpen dev input with
    | .inl reply => .ret reply
    | .inr qs => queryFiles dump dev.files.length qs 0

end History
end Obix
