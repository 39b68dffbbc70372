import Obix.History.AppendLoop
import Obix.History.QueryAlone
import Obix.Lib.Numerals

/-!
# Loading a history facility from disk

`__hist_create_dev` with `newly_created` 0, `__hist_create_file` and
`__hist_enqueue_file` of `history.c`.  The index file is the list of the nodes below
its root; the log file of a date is the list of its records.

Appending adds to the end of the list of fragments, loading inserts by date.  Both give
the same list for an index that has been flushed, in whatever order its abstracts are
(`histCreateDevFromDisk_of_perm`), and nothing else of a facility decides what appending and
querying do (`SameStore`).
-/

namespace Obix
namespace History

open CString
open Gregorian

/-- The attribute `is`. -/
def attrIs : Text := "is".toList

/-- The tag `obj`. -/
def objObj : Text := "obj".toList

/-- The tag `date`. -/
def objDate : Text := "date".toList

/-- `HIST_ABS_DATE`. -/
def histAbsDate : Text := "date".toList

/-- `HIST_ABS_COUNT`. -/
def histAbsCount : Text := "count".toList

/-- `HIST_ABS_START`. -/
def histAbsStart : Text := "start".toList

/-- `HIST_ABS_END`. -/
def histAbsEnd : Text := "end".toList

/-- `OBIX_CONTRACT_HIST_FILE_ABS`. -/
def contractHistFileAbs : Text := "obix:HistoryFileAbstract".toList

/-- A child of an abstract. -/
def absChild (tag name val : Text) : Xml :=
  .element none tag [(attrName, name), (attrVal, val)] []

/-- The node of an abstract, `HIST_ABS_STUB` with its values filled in. -/
def Abstract.node (a : Abstract) : Xml :=
  .element none objObj [(attrIs, contractHistFileAbs)]
    [absChild objDate histAbsDate a.date,
      absChild objInt histAbsCount (showInt a.count),
      absChild objAbstime histAbsStart a.start,
      absChild objAbstime histAbsEnd a.fin]

/-- What appending and querying read of the node of an abstract.  A timestamp that is
missing, as it is in no flushed index, reads as the empty text. -/
def readAbstract (node : Xml) : Abstract :=
  { date := (xmlGetChildVal node objDate histAbsDate).getD []
    count := xmlGetChildLong node objInt histAbsCount
    start := (xmlGetChildVal node objAbstime histAbsStart).getD []
    fin := (xmlGetChildVal node objAbstime histAbsEnd).getD [] }

/-- The log files of a facility by their date; `none` if there is no such regular file. -/
abbrev LogFiles := Text → Option (List Xml)

/-- `__hist_enqueue_file`. -/
def histEnqueueFile (new : HistFile) : List HistFile → Option (List HistFile)
  | [] => some [new]
  | file :: files =>
      match timestampCompareDate new.abstract.date file.abstract.date with
      | none => none
      | some .eq => none
      | some .lt => some (new :: file :: files)
      | some .gt => (histEnqueueFile new files).map (file :: ·)

/-- `__hist_create_file` for a fragment on disk: the list of fragments with the new one. -/
def histCreateFile (logs : LogFiles) (files : List HistFile) (abstract : Xml) :
    Option (List HistFile) :=
  match xmlGetChildVal abstract objDate histAbsDate with
  | none => none
  | some date =>
      match logs date with
      | none => none
      -- an empty file is refused
      | some [] => none
      | some records => histEnqueueFile { abstract := readAbstract abstract, records := records } files

/-- Whether a node of the index is the abstract of a fragment. -/
def isAbstract (node : Xml) : Bool :=
  node.isElement && node.hasName objObj &&
    (node.getProp attrIs).any fun v => v = contractHistFileAbs

/-- One round of the loop of `__hist_create_dev`; a fragment that cannot be loaded is
left out. -/
def histLoadNode (logs : LogFiles) (dev : HistDev) (node : Xml) : HistDev :=
  if isAbstract node then
    match histCreateFile logs dev.files node with
    | some files =>
        { dev with
          count := dev.count + xmlGetChildLong node objInt histAbsCount
          files := files }
    | none => dev
  else dev

/-- `__hist_create_dev` with `newly_created` 0, for the nodes of the index file. -/
def histCreateDevFromDisk (logs : LogFiles) (nodes : List Xml) : HistDev :=
  nodes.foldl (histLoadNode logs)
    { count := 0, files := [], index := (nodes.filter isAbstract).map readAbstract }

/-- The log files that a facility leaves on disk. -/
def HistDev.logFiles (dev : HistDev) : LogFiles :=
  fun date => (dev.files.find? fun f => f.abstract.date = date).map HistFile.records

section Flushed

variable {dev dev' : HistDev}

/-- The index file is up to date. -/
def Flushed (dev : HistDev) : Prop :=
  dev.index = dev.files.map HistFile.abstract

/-- A run of the record loop that stores nothing leaves the facility as it is. -/
theorem appendLoop_nothing
    {io : IoFaults} {i : Nat} {records : List Xml} {st st' : AppendState}
    (inv : LoopInv st)
    (h : appendLoop io i records st = .next st')
    (hall : st'.allCount = st.allCount) :
    st' = { st with ret := st'.ret } := by
  induction records generalizing i st with
  | nil =>
      simp only [appendLoop, AppendRound.next.injEq] at h
      rw [← h]
  | cons record records ih =>
      by_cases hfresh : Fresh (timestampToUtcTime st.latestTs) record
      · obtain ⟨st₁, hstored, hround | ⟨st₂, hround, -⟩⟩ := appendRecord_fresh_cases inv hfresh io i
        · simp only [appendLoop, hround] at h
          have hmore := (appendLoop_run hstored.inv h).allCount
          have hone := hstored.allCount
          omega
        · simp [appendLoop, hround] at h
      · obtain ⟨code, hround, -, -⟩ := appendRecord_stale inv hfresh io i
        simp only [appendLoop, hround] at h
        have hrest := ih (inv.with_ret code) h hall
        exact hrest

theorem appendRecords_flushed
    {records : List Xml} {ret : ErrCode} {added : Nat}
    (inv : StoreInv dev)
    (hflushed : Flushed dev)
    (hcall : appendRecords noFaults dev records = .returned dev' ret added) :
    Flushed dev' := by
  obtain ⟨hstart, -⟩ := loopInv_appendStart inv
  obtain ⟨st', hloop⟩ := appendLoop_noFaults hstart 0 records
  simp only [appendRecords, hloop, AppendOutcome.returned.injEq] at hcall
  obtain ⟨rfl, -, -⟩ := hcall
  by_cases hstored : st'.allCount > 0
  · simp [Flushed, appendFinish, hstored]
  · have hzero : st'.allCount = 0 := by omega
    have hsame := appendLoop_nothing hstart hloop hzero
    rw [hsame]
    simpa [Flushed, appendFinish, appendStart, settle, foldAbsCount] using hflushed

theorem appendRun_flushed
    {inputs : List Xml}
    (inv : StoreInv dev)
    (hflushed : Flushed dev)
    (hrun : appendRun dev inputs = some dev') :
    Flushed dev' := by
  induction inputs generalizing dev with
  | nil =>
      obtain rfl : dev = dev' := Option.some.inj hrun
      exact hflushed
  | cons input inputs ih =>
      obtain ⟨dev₁, ret, added, hcall, inv₁⟩ := histAppendCore_noFaults inv input
      simp only [appendRun, hcall] at hrun
      refine ih inv₁ ?_ hrun
      unfold histAppendCore at hcall
      split at hcall
      · simp only [AppendOutcome.returned.injEq] at hcall
        rw [← hcall.1]
        exact hflushed
      · exact appendRecords_flushed inv hflushed hcall

end Flushed

section Inserting

/-- The UTC day of a fragment, that of its first record. -/
def HistFile.day (file : HistFile) : Nat :=
  (file.records.head?.map fun r => utcDay (recordTime r)).getD 0

variable {dev : HistDev} {f g : HistFile}

theorem StoreInv.date_eq_showDate
    (inv : StoreInv dev)
    (hf : f ∈ dev.files) :
    ∃ r ∈ f.records, utcDay (recordTime r) = f.day ∧
      f.abstract.date = showDate (civilOfDay (epochDay + utcDay (recordTime r))) := by
  obtain ⟨r, rs, hrs⟩ := List.exists_cons_of_ne_nil (inv.file f hf).nonempty
  have hr : r ∈ dev.records := by
    simp only [HistDev.records, List.mem_flatMap]
    exact ⟨f, hf, by simp [hrs]⟩
  have hpos := inv.positive r hr
  have hdate := (inv.file f hf).date_eq r (by simp [hrs])
  rw [getUtcDate_of_nonneg (by omega)] at hdate
  exact ⟨r, by simp [hrs], by simp [HistFile.day, hrs], (Option.some.inj hdate).symm⟩

/-- The dates of a facility are compared as the days of its fragments are. -/
theorem StoreInv.compareDate
    (inv : StoreInv dev)
    (hf : f ∈ dev.files)
    (hg : g ∈ dev.files) :
    timestampCompareDate f.abstract.date g.abstract.date = some (compare f.day g.day) := by
  obtain ⟨r, -, hr, hdf⟩ := inv.date_eq_showDate hf
  obtain ⟨q, -, hq, hdg⟩ := inv.date_eq_showDate hg
  rw [hdf, hdg, timestampCompareDate_utcDate (recordTime_lt r) (recordTime_lt q), hr, hq]

/-- The fragments of a facility are in the order of their days. -/
theorem StoreInv.days_sorted
    (inv : StoreInv dev) :
    dev.files.Pairwise fun f g => f.day < g.day := by
  refine inv.dates.imp_of_mem ?_
  intro f g hf hg hlt
  rw [inv.compareDate hf hg, Option.some.injEq, Nat.compare_eq_lt] at hlt
  exact hlt

theorem StoreInv.eq_of_day
    (inv : StoreInv dev)
    (hf : f ∈ dev.files)
    (hg : g ∈ dev.files)
    (hday : f.day = g.day) :
    f = g := by
  have hnodup : (dev.files.map HistFile.day).Nodup :=
    List.pairwise_map.mpr (inv.days_sorted.imp fun hlt => ne_of_lt hlt)
  exact List.inj_on_of_nodup_map hnodup hf hg hday

/-- A fragment of a day that is not there yet finds its place. -/
theorem histEnqueueFile_sorted
    {new : HistFile} {files : List HistFile}
    (hcompare : ∀ f ∈ files, timestampCompareDate new.abstract.date f.abstract.date =
      some (compare new.day f.day))
    (hnew : ∀ f ∈ files, f.day ≠ new.day)
    (hsorted : files.Pairwise fun f g => f.day < g.day) :
    ∃ files', histEnqueueFile new files = some files' ∧ files'.Perm (new :: files) ∧
      files'.Pairwise fun f g => f.day < g.day := by
  induction files with
  | nil => exact ⟨[new], rfl, .refl _, by simp⟩
  | cons file files ih =>
      rw [List.pairwise_cons] at hsorted
      obtain ⟨hfirst, hrest⟩ := hsorted
      have hcmp := hcompare file (by simp)
      have hne := hnew file (by simp)
      rcases Nat.lt_or_ge new.day file.day with hlt | hge
      · rw [Nat.compare_eq_lt.mpr hlt] at hcmp
        refine ⟨new :: file :: files, by simp [histEnqueueFile, hcmp], .refl _, ?_⟩
        refine List.pairwise_cons.mpr ⟨?_, List.pairwise_cons.mpr ⟨hfirst, hrest⟩⟩
        intro g hg
        rcases List.mem_cons.mp hg with rfl | hg
        · exact hlt
        · exact lt_trans hlt (hfirst g hg)
      · have hgt : file.day < new.day := by omega
        rw [Nat.compare_eq_gt.mpr hgt] at hcmp
        obtain ⟨files', henq, hperm, hsorted'⟩ := ih (fun f hf => hcompare f (by simp [hf]))
          (fun f hf => hnew f (by simp [hf])) hrest
        refine ⟨file :: files', by simp [histEnqueueFile, hcmp, henq], ?_, ?_⟩
        · exact (hperm.cons file).trans (.swap new file files)
        · refine List.pairwise_cons.mpr ⟨?_, hsorted'⟩
          intro g hg
          rcases List.mem_cons.mp (hperm.mem_iff.mp hg) with rfl | hg
          · exact hgt
          · exact hfirst g hg

end Inserting

section Reading

variable {dev : HistDev}

theorem strToLong_showInt
    {n : Int}
    (hn : 0 ≤ n)
    (hmax : n ≤ longMax) :
    strToLong (showInt n) = .ok n := by
  obtain ⟨k, rfl⟩ := Int.eq_ofNat_of_zero_le hn
  have hread := @strtol_toDigits_append k [] hmax (by simp)
  rw [List.append_nil] at hread
  simp [strToLong, hread]

/-- Increasing times leave room for fewer records than there are seconds. -/
theorem StoreInv.length_le
    (inv : StoreInv dev) :
    dev.records.length ≤ 2 ^ 40 := by
  have hnodup : (dev.records.map recordTime).Nodup := by
    refine List.pairwise_map.mpr (inv.times.imp ?_)
    intro r s hlt
    exact ne_of_lt hlt
  have hsub : (dev.records.map recordTime).toFinset ⊆ Finset.Ico (0 : Int) (2 ^ 40) := by
    intro t ht
    obtain ⟨r, hr, rfl⟩ := List.mem_map.mp (List.mem_toFinset.mp ht)
    have hpos := inv.positive r hr
    have hlt := recordTime_lt r
    exact Finset.mem_Ico.mpr ⟨by omega, hlt⟩
  have hcard := Finset.card_le_card hsub
  rw [List.toFinset_card_of_nodup hnodup, List.length_map, Int.card_Ico] at hcard
  simpa using hcard

theorem StoreInv.count_le_longMax
    (inv : StoreInv dev)
    {f : HistFile}
    (hf : f ∈ dev.files) :
    0 ≤ f.abstract.count ∧ f.abstract.count ≤ longMax := by
  have hsub : f.records.Sublist dev.records := by
    rw [HistDev.records, List.flatMap_def]
    exact List.sublist_flatten_of_mem (List.mem_map_of_mem hf)
  have hlen := hsub.length_le
  have hmax := inv.length_le
  have hlong : longMax = 2 ^ 63 - 1 := rfl
  rw [(inv.file f hf).count_eq]
  omega

theorem Abstract.xmlGetChildLong_node
    {a : Abstract}
    (hn : 0 ≤ a.count)
    (hmax : a.count ≤ longMax) :
    xmlGetChildLong a.node objInt histAbsCount = a.count := by
  have hval : xmlGetChildVal a.node objInt histAbsCount = some (showInt a.count) := rfl
  simp [xmlGetChildLong, hval, strToLong_showInt hn hmax]

/-- What is read of a flushed abstract is what has been written. -/
theorem Abstract.readAbstract_node
    {a : Abstract}
    (hn : 0 ≤ a.count)
    (hmax : a.count ≤ longMax) :
    readAbstract a.node = a := by
  have hdate : xmlGetChildVal a.node objDate histAbsDate = some a.date := rfl
  have hstart : xmlGetChildVal a.node objAbstime histAbsStart = some a.start := rfl
  have hfin : xmlGetChildVal a.node objAbstime histAbsEnd = some a.fin := rfl
  simp [readAbstract, hdate, hstart, hfin, a.xmlGetChildLong_node hn hmax]

theorem Abstract.isAbstract_node (a : Abstract) : isAbstract a.node = true := rfl

/-- The log file of a fragment. -/
theorem StoreInv.logFiles_date
    (inv : StoreInv dev)
    {f : HistFile}
    (hf : f ∈ dev.files) :
    dev.logFiles f.abstract.date = some f.records := by
  unfold HistDev.logFiles
  cases hfind : dev.files.find? fun g => g.abstract.date = f.abstract.date with
  | none =>
      rw [List.find?_eq_none] at hfind
      simpa using hfind f hf
  | some g =>
      have hg := List.mem_of_find?_eq_some hfind
      have hdate : g.abstract.date = f.abstract.date := by simpa using List.find?_some hfind
      -- equal dates are equal days, and the days of the fragments differ
      have hself := inv.compareDate hg hg
      have hother := inv.compareDate hg hf
      rw [← hdate, hself, Option.some.injEq, Nat.compare_eq_eq.mpr rfl] at hother
      have hday : g.day = f.day := Nat.compare_eq_eq.mp hother.symm
      obtain rfl := inv.eq_of_day hg hf hday
      rfl

end Reading

section Loading

variable {dev dev' : HistDev}

/-- Loading some of the fragments of a facility, in any order, after others. -/
theorem foldl_histLoadNode
    (inv : StoreInv dev)
    {files loaded : List HistFile}
    (hfiles : ∀ f ∈ files, f ∈ dev.files)
    (hloaded : ∀ f ∈ loaded, f ∈ dev.files)
    (hnodup : (loaded ++ files).Nodup)
    (hsorted : loaded.Pairwise fun f g => f.day < g.day)
    (hdev : dev'.files = loaded) :
    ∃ files',
      ((files.map fun f => f.abstract.node).foldl (histLoadNode dev.logFiles) dev').files = files' ∧
      files'.Perm (loaded ++ files) ∧ files'.Pairwise (fun f g => f.day < g.day) ∧
      ((files.map fun f => f.abstract.node).foldl (histLoadNode dev.logFiles) dev').count =
        dev'.count + (files.map fun f => f.abstract.count).sum := by
  induction files generalizing loaded dev' with
  | nil => exact ⟨loaded, hdev, by simp, hsorted, by simp⟩
  | cons f files ih =>
      have hf := hfiles f (by simp)
      obtain ⟨hn, hmax⟩ := inv.count_le_longMax hf
      have hfresh : ∀ g ∈ loaded, g.day ≠ f.day := by
        intro g hg hday
        have heq := inv.eq_of_day (hloaded g hg) hf hday
        subst heq
        exact (List.nodup_append.mp hnodup).2.2 g hg g (by simp) rfl
      obtain ⟨loaded', henq, hperm, hsorted'⟩ := histEnqueueFile_sorted
        (fun g hg => inv.compareDate hf (hloaded g hg)) hfresh hsorted
      have hcreate : histCreateFile dev.logFiles dev'.files f.abstract.node = some loaded' := by
        have hdate : xmlGetChildVal f.abstract.node objDate histAbsDate = some f.abstract.date := rfl
        obtain ⟨r, rs, hrs⟩ := List.exists_cons_of_ne_nil (inv.file f hf).nonempty
        have hfile : HistFile.mk f.abstract (r :: rs) = f := by rw [← hrs]
        simp only [histCreateFile, hdate, inv.logFiles_date hf, hrs,
          f.abstract.readAbstract_node hn hmax, hfile, hdev]
        exact henq
      have hround : histLoadNode dev.logFiles dev' f.abstract.node =
          { dev' with count := dev'.count + f.abstract.count, files := loaded' } := by
        simp only [histLoadNode, f.abstract.isAbstract_node, if_true, hcreate,
          f.abstract.xmlGetChildLong_node hn hmax]
      simp only [List.map_cons, List.foldl_cons, hround, List.sum_cons]
      have hmem : ∀ g ∈ loaded', g ∈ dev.files := by
        intro g hg
        rcases List.mem_cons.mp (hperm.mem_iff.mp hg) with rfl | hg
        · exact hf
        · exact hloaded g hg
      have hswap : (loaded' ++ files).Perm (loaded ++ f :: files) :=
        (hperm.append_right files).trans List.perm_middle.symm
      obtain ⟨files', hend, hall, hordered, hcount⟩ :=
        @ih { dev' with count := dev'.count + f.abstract.count, files := loaded' } loaded'
          (fun g hg => hfiles g (by simp [hg])) hmem (hswap.nodup_iff.mpr hnodup) hsorted' rfl
      refine ⟨files', hend, hall.trans hswap, hordered, ?_⟩
      rw [hcount]
      dsimp only
      omega

/-- The loop passes over the other nodes of the index. -/
theorem foldl_histLoadNode_filter
    (logs : LogFiles)
    (nodes : List Xml)
    (d : HistDev) :
    nodes.foldl (histLoadNode logs) d = (nodes.filter isAbstract).foldl (histLoadNode logs) d := by
  induction nodes generalizing d with
  | nil => rfl
  | cons node nodes ih =>
      cases habs : isAbstract node with
      | true => rw [List.filter_cons_of_pos habs, List.foldl_cons, List.foldl_cons, ih]
      | false =>
          rw [List.filter_cons_of_neg (by simp [habs]), List.foldl_cons, ih]
          simp [histLoadNode, habs]

/-- Two facilities with the same fragments and the same total. -/
structure SameStore (dev dev' : HistDev) : Prop where
  files : dev'.files = dev.files
  count : dev'.count = dev.count

/-- Loading an index with the abstracts of a facility in any order. -/
theorem histCreateDevFromDisk_of_perm
    (inv : StoreInv dev)
    {nodes : List Xml}
    (hnodes : (nodes.filter isAbstract).Perm (dev.files.map fun f => f.abstract.node)) :
    SameStore dev (histCreateDevFromDisk dev.logFiles nodes) := by
  obtain ⟨files, heq, hperm⟩ : ∃ files : List HistFile,
      nodes.filter isAbstract = files.map (fun f => f.abstract.node) ∧ files.Perm dev.files := by
    have hcomp := List.eq_map_comp_perm fun f : HistFile => f.abstract.node
    exact (congrFun₂ hcomp _ _).mpr hnodes
  have hnodup : dev.files.Nodup := by
    refine inv.days_sorted.imp ?_
    rintro f g hlt rfl
    exact lt_irrefl _ hlt
  obtain ⟨files', hend, hall, hsorted, hcount⟩ := @foldl_histLoadNode dev
    { count := 0, files := [], index := (nodes.filter isAbstract).map readAbstract }
    inv files [] (fun f hf => hperm.mem_iff.mp hf) (by simp) (hperm.nodup_iff.mpr hnodup)
    (by simp) rfl
  rw [← heq, ← foldl_histLoadNode_filter] at hend hcount
  constructor
  · -- both lists have the same members in the order of their days
    change (nodes.foldl (histLoadNode dev.logFiles) _).files = _
    rw [hend]
    refine List.Perm.eq_of_pairwise ?_ hsorted inv.days_sorted (hall.trans hperm)
    intro f g _ _ hfg hgf
    omega
  · change (nodes.foldl (histLoadNode dev.logFiles) _).count = _
    rw [hcount, inv.total, zero_add]
    exact (hperm.map fun f => f.abstract.count).sum_eq

end Loading

section Behaviour

/-- The same state with another index file. -/
def AppendState.reindex (index : List Abstract) (st : AppendState) : AppendState :=
  { st with dev := { st.dev with index := index } }

def AppendRound.reindex (index : List Abstract) : AppendRound → AppendRound
  | next st => next (st.reindex index)
  | failed st => failed (st.reindex index)
  | nullFile => nullFile

variable {index : List Abstract} {dev dev' : HistDev}

theorem appendWrite_reindex
    (fails : Bool)
    (record : Xml)
    (ts : Text)
    (st : AppendState) :
    appendWrite fails record ts (st.reindex index) =
      (appendWrite fails record ts st).reindex index := by
  unfold appendWrite
  cases hfile : st.file with
  | none => simp [AppendState.reindex, hfile, AppendRound.reindex]
  | some k =>
      cases fails with
      | true => simp [AppendState.reindex, hfile, AppendRound.reindex]
      | false => simp [AppendState.reindex, hfile, AppendRound.reindex]

/-- A round of the record loop does not look at the index file. -/
theorem appendRecord_reindex
    (io : IoFaults)
    (i : Nat)
    (record : Xml)
    (st : AppendState) :
    appendRecord io i record (st.reindex index) =
      (appendRecord io i record st).reindex index := by
  have hlatest : (st.reindex index).latestTs = st.latestTs := rfl
  unfold appendRecord
  rw [hlatest]
  split
  · rfl
  · cases recordTs record with
    | none => rfl
    | some ts =>
        dsimp only
        cases timestampCompare ts st.latestTs with
        | none => rfl
        | some verdict =>
            obtain ⟨order, newDay⟩ := verdict
            cases order with
            | lt => rfl
            | eq => rfl
            | gt =>
                cases newDay with
                | false => exact appendWrite_reindex _ record ts st
                | true =>
                    dsimp only
                    unfold histCreateFragment
                    cases timestampGetUtcDate ts with
                    | none => rfl
                    | some date =>
                        dsimp only
                        cases io.create i with
                        | true => rfl
                        | false =>
                            simp only [Bool.false_eq_true, if_false]
                            rw [← appendWrite_reindex]
                            rfl

theorem appendLoop_reindex
    (io : IoFaults)
    (i : Nat)
    (records : List Xml)
    (st : AppendState) :
    appendLoop io i records (st.reindex index) =
      (appendLoop io i records st).reindex index := by
  induction records generalizing i st with
  | nil => rfl
  | cons record records ih =>
      simp only [appendLoop, appendRecord_reindex]
      cases appendRecord io i record st with
      | next st' => exact ih (i + 1) st'
      | failed st' => rfl
      | nullFile => rfl

theorem SameStore.eq
    (h : SameStore dev dev') :
    dev' = { dev with index := dev'.index } := by
  obtain ⟨count, files, index⟩ := dev
  obtain ⟨count', files', index'⟩ := dev'
  obtain ⟨rfl, rfl⟩ := h
  rfl

theorem appendFinish_reindex (st : AppendState) :
    SameStore (appendFinish st) (appendFinish (st.reindex index)) := by
  unfold appendFinish
  have hall : (st.reindex index).allCount = st.allCount := rfl
  rw [hall]
  split
  · exact ⟨rfl, rfl⟩
  · exact ⟨rfl, rfl⟩

theorem appendAnswer_congr
    (h : SameStore dev dev')
    (ret : ErrCode)
    (added : Nat) :
    appendAnswer dev' ret added = appendAnswer dev ret added := by
  unfold appendAnswer
  rw [h.files, h.count]

/-- Appending depends on the fragments and the total alone. -/
theorem SameStore.append
    (h : SameStore dev dev')
    (io : IoFaults)
    (input : Xml) :
    (histAppendDev io dev' input).2 = (histAppendDev io dev input).2 ∧
      SameStore (histAppendDev io dev input).1 (histAppendDev io dev' input).1 := by
  have hstart : appendStart dev' = (appendStart dev).reindex dev'.index := by
    rw [h.eq]
    rfl
  unfold histAppendDev histAppendCore
  cases input.findChild (some objList) (some attrName) (some histAinData) with
  | none => exact ⟨appendAnswer_congr h .invalidInput 0, h⟩
  | some list =>
      simp only [appendRecords, hstart, appendLoop_reindex]
      cases appendLoop io 0 list.children (appendStart dev) with
      | next st =>
          have hfinish := @appendFinish_reindex dev'.index st
          exact ⟨appendAnswer_congr hfinish st.ret st.allCount, hfinish⟩
      | failed st =>
          have hfailed : SameStore st.dev (st.reindex dev'.index).dev := ⟨rfl, rfl⟩
          exact ⟨appendAnswer_congr hfailed st.ret 0, hfailed⟩
      | nullFile => exact ⟨rfl, h⟩

/-- `parse_log` does not look at the facility. -/
theorem parseLoop_congr
    {ρ : Type} {e e' : ρ}
    (fuel : Nat)
    (args : ParseArgs)
    (loc : ParseLocal)
    (st : ParseStatics) :
    (parseLoop fuel args loc).run e' st = (parseLoop fuel args loc).run e st := by
  induction fuel generalizing loc st with
  | zero => rfl
  | succ fuel ih =>
      simp only [parseLoop, Resumption.run_step]
      cases (parseRound args loc st).1 with
      | done => rfl
      | next loc' => exact ih loc' _
      | stop loc' => rfl
      | failed => rfl
      | overflow => rfl

theorem queryFiles_congr
    (h : SameStore dev dev')
    (dump : Xml → Text)
    (left : Nat)
    (qs : QueryState)
    (i : Nat)
    (st : ParseStatics) :
    (queryFiles dump left qs i).run dev' st = (queryFiles dump left qs i).run dev st := by
  induction left generalizing qs i st with
  | zero => rfl
  | succ left ih =>
      have hnext : ∀ (next : Option QueryState) (st : ParseStatics),
          (queryNext (fun qs' => queryFiles dump left qs' (i + 1)) next).run dev' st =
            (queryNext (fun qs' => queryFiles dump left qs' (i + 1)) next).run dev st := by
        intro next st
        unfold queryNext
        cases next with
        | none => rfl
        | some qs' =>
            dsimp only
            split
            · rfl
            · exact ih qs' (i + 1) st
      simp only [queryFiles, Resumption.run_step, h.files]
      cases dev.files[i]? with
      | none => rfl
      | some file =>
          dsimp only
          cases queryFile dump qs file with
          | skip => exact ih qs (i + 1) st
          | finish => rfl
          | fail code => rfl
          | whole => exact hnext _ st
          | parse args =>
              simp only [Resumption.run_bind, parseLog, @parseLoop_congr _ dev dev']
              cases ((parseLoop ((file.content dump).length + 1) args
                (parseStart (file.content dump))).run dev st).1 with
              | ok res => exact hnext _ _
              | failed => rfl
              | overflow => rfl

/-- Querying depends on the fragments and the total alone, not even on what earlier
queries have left in the static buffers. -/
theorem SameStore.query
    (h : SameStore dev dev')
    (dump : Xml → Text)
    (input : Xml)
    (st st' : ParseStatics) :
    ((histQueryCore dump input).run dev' st').1 = ((histQueryCore dump input).run dev st).1 := by
  have hopen : queryOpen dev' input = queryOpen dev input := by
    rw [h.eq]
    rfl
  have hsame : (histQueryCore dump input).run dev' st' =
      (histQueryCore dump input).run dev st' := by
    simp only [histQueryCore, Resumption.run_step, hopen, h.files]
    cases queryOpen dev input with
    | inl reply => rfl
    | inr qs => exact queryFiles_congr h dump _ qs 0 st'
  rw [hsame]
  exact ((histQueryCore_confined dump input dev).1 rfl).2 st' st

end Behaviour

/-- A facility reached by appends is loaded again as it was, from an index with its
abstracts in any order and any other nodes among them, and goes on as it would have. -/
theorem reload_after_appends
    {inputs : List Xml} {dev : HistDev} {nodes : List Xml}
    (hrun : appendRun emptyDev inputs = some dev)
    (hnodes : (nodes.filter isAbstract).Perm (dev.index.map Abstract.node)) :
    (histCreateDevFromDisk dev.logFiles nodes).files = dev.files ∧
      (histCreateDevFromDisk dev.logFiles nodes).files.Pairwise (fun f g =>
        timestampCompareDate f.abstract.date g.abstract.date = some .lt) ∧
      (histCreateDevFromDisk dev.logFiles nodes).count = dev.count ∧
      (histCreateDevFromDisk dev.logFiles nodes).count =
        ((nodes.filter isAbstract).map fun node => (readAbstract node).count).sum ∧
      (∀ io input,
        (histAppendDev io (histCreateDevFromDisk dev.logFiles nodes) input).2 =
            (histAppendDev io dev input).2 ∧
          SameStore (histAppendDev io dev input).1
            (histAppendDev io (histCreateDevFromDisk dev.logFiles nodes) input).1) ∧
      ∀ dump input st st',
        ((histQueryCore dump input).run (histCreateDevFromDisk dev.logFiles nodes) st').1 =
          ((histQueryCore dump input).run dev st).1 := by
  obtain ⟨dev₀, hrun₀, inv⟩ := appendRun_storeInv inputs
  obtain rfl : dev₀ = dev := Option.some.inj (hrun₀.symm.trans hrun)
  have hindex : dev₀.index = dev₀.files.map HistFile.abstract :=
    appendRun_flushed storeInv_emptyDev rfl hrun
  rw [hindex, List.map_map] at hnodes
  have hsame := histCreateDevFromDisk_of_perm inv hnodes
  have hsum : ((nodes.filter isAbstract).map fun node => (readAbstract node).count).sum =
      dev₀.count := by
    rw [(hnodes.map fun node => (readAbstract node).count).sum_eq, List.map_map, inv.total]
    congr 1
    refine List.map_congr_left ?_
    intro f hf
    obtain ⟨hn, hmax⟩ := inv.count_le_longMax hf
    simp [f.abstract.readAbstract_node hn hmax]
  refine ⟨hsame.files, ?_, hsame.count, hsame.count.trans hsum.symm, hsame.append, ?_⟩
  · rw [hsame.files]
    exact inv.dates
  · intro dump input st st'
    exact hsame.query dump input st st'

/-- Two fragments, loaded from an index that has them the other way round. -/
theorem reload_after_two_days :
    ∃ dev, appendRun emptyDev
        [appendIn [plainRecord "2014-04-25T15:43:50Z".toList,
          plainRecord "2014-04-26T15:43:50Z".toList]] = some dev ∧
      dev.files.length = 2 ∧
      (histCreateDevFromDisk dev.logFiles (dev.index.map Abstract.node).reverse).files = dev.files := by
  have hlength : (appendRun emptyDev
      [appendIn [plainRecord "2014-04-25T15:43:50Z".toList,
        plainRecord "2014-04-26T15:43:50Z".toList]]).map (fun dev => dev.files.length) =
      some 2 := by
    decide +kernel
  obtain ⟨dev, hrun, hfiles⟩ := Option.map_eq_some_iff.mp hlength
  refine ⟨dev, hrun, hfiles, (reload_after_appends hrun ?_).1⟩
  rw [List.filter_eq_self.mpr]
  · exact List.reverse_perm _
  · intro node hnode
    obtain ⟨a, -, rfl⟩ := List.mem_map.mp (List.mem_reverse.mp hnode)
    exact a.isAbstract_node

end History
end Obix
