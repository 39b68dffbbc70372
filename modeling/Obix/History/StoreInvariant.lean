import Obix.History.Append
import Obix.Utils.TimestampOrder

/-!
# The invariant of the history store

`StoreInv` relates the index of a facility to its log files: the abstract of
every fragment describes the records of its file, the total is the sum of the
abstracts, the dates ascend and the times of the records increase strictly over
the whole facility.

An accepted record changes a facility in one of two ways, `extendLast` on the
same UTC day and `addFragment` on a new one.  Both keep the invariant.
-/

namespace Obix
namespace History

open CString
open Gregorian

/-- The abstract of a fragment describes the records of its log file. -/
structure FileInv (file : HistFile) : Prop where
  nonempty : file.records ≠ []
  count_eq : file.abstract.count = file.records.length
  start_eq : file.records.head?.bind recordTs = some file.abstract.start
  fin_eq : file.records.getLast?.bind recordTs = some file.abstract.fin
  date_eq : ∀ r ∈ file.records, getUtcDate (recordTime r) = some file.abstract.date

/-- The index of a facility describes its log files. -/
structure StoreInv (dev : HistDev) : Prop where
  file : ∀ f ∈ dev.files, FileInv f
  total : dev.count = (dev.files.map (fun f => f.abstract.count)).sum
  dates : dev.files.Pairwise fun f g =>
    timestampCompareDate f.abstract.date g.abstract.date = some .lt
  times : dev.records.Pairwise fun r s => recordTime r < recordTime s
  positive : ∀ r ∈ dev.records, 0 < recordTime r

theorem storeInv_emptyDev : StoreInv emptyDev where
  file := by simp [emptyDev]
  total := by simp [emptyDev]
  dates := by simp [emptyDev]
  times := by simp [emptyDev, HistDev.records]
  positive := by simp [emptyDev, HistDev.records]

section Reading

variable {dev : HistDev}

theorem recordTime_of_recordTs
    {r : Xml} {ts : Text}
    (h : recordTs r = some ts) :
    recordTime r = timestampToUtcTime ts := by
  simp [recordTime, h]

theorem recordTime_lt (r : Xml) : recordTime r < 2 ^ 40 := by
  unfold recordTime
  split
  · decide
  · exact timestampToUtcTime_lt _

theorem latestTs_nil
    (h : dev.files = []) :
    dev.latestTs = histTsInit := by
  simp [HistDev.latestTs, h]

theorem latestTs_append
    {init : List HistFile} {last : HistFile}
    (h : dev.files = init ++ [last]) :
    dev.latestTs = last.abstract.fin := by
  simp [HistDev.latestTs, h]

/-- The total number of records is the sum over the abstracts. -/
theorem StoreInv.count_eq_length
    (inv : StoreInv dev) :
    dev.count = dev.records.length := by
  rw [inv.total, HistDev.records, List.length_flatMap]
  have hmap : dev.files.map (fun f => f.abstract.count) =
      (dev.files.map fun f => f.records.length).map (fun n : Nat => (n : Int)) := by
    rw [List.map_map]
    refine List.map_congr_left ?_
    intro f hf
    exact (inv.file f hf).count_eq
  rw [hmap]
  exact (map_list_sum (Nat.castAddMonoidHom Int) _).symm

/-- The last record of a facility carries the end timestamp of the last abstract. -/
theorem StoreInv.last_record
    (inv : StoreInv dev)
    {init : List HistFile} {last : HistFile}
    (h : dev.files = init ++ [last]) :
    ∃ rs r, dev.records = rs ++ [r] ∧ r ∈ last.records ∧
      recordTs r = some last.abstract.fin := by
  have hlast := inv.file last (by simp [h])
  obtain ⟨rs, r, hr⟩ := List.eq_nil_or_concat' last.records |>.resolve_left hlast.nonempty
  refine ⟨init.flatMap HistFile.records ++ rs, r, ?_, ?_, ?_⟩
  · simp [HistDev.records, h, hr]
  · simp [hr]
  · simpa [hr] using hlast.fin_eq

/-- No record is later than the latest timestamp. -/
theorem StoreInv.recordTime_le_latest
    (inv : StoreInv dev)
    {r : Xml}
    (hr : r ∈ dev.records) :
    recordTime r ≤ timestampToUtcTime dev.latestTs := by
  rcases List.eq_nil_or_concat' dev.files with hnil | ⟨init, last, h⟩
  · simp [HistDev.records, hnil] at hr
  · obtain ⟨rs, q, hrs, -, hq⟩ := inv.last_record h
    rw [latestTs_append h, ← recordTime_of_recordTs hq]
    rw [hrs, List.mem_append, List.mem_singleton] at hr
    rcases hr with hr | rfl
    · have hpair := inv.times
      rw [hrs, List.pairwise_append] at hpair
      exact le_of_lt (hpair.2.2 r hr q (by simp))
    · exact le_refl _

/-- The latest timestamp is never before the Epoch, and it is the Epoch only in
an empty facility. -/
theorem StoreInv.latest_nonneg
    (inv : StoreInv dev) :
    0 ≤ timestampToUtcTime dev.latestTs ∧
      (timestampToUtcTime dev.latestTs = 0 ↔ dev.files = []) := by
  rcases List.eq_nil_or_concat' dev.files with hnil | ⟨init, last, h⟩
  · rw [latestTs_nil hnil, timestampToUtcTime_histTsInit]
    simp [hnil]
  · obtain ⟨rs, q, hrs, -, hq⟩ := inv.last_record h
    have hpos := inv.positive q (by simp [hrs])
    rw [latestTs_append h, ← recordTime_of_recordTs hq]
    refine ⟨le_of_lt hpos, ?_⟩
    constructor
    · intro h0
      omega
    · intro hnil
      simp [hnil] at h

end Reading

section Growing

/-- A record of the same UTC day goes to the end of the last fragment. -/
def extendLast (record : Xml) (ts : Text) (last : HistFile) : HistFile :=
  { abstract := { last.abstract with count := last.abstract.count + 1, fin := ts }
    records := last.records ++ [record] }

/-- A record of a new UTC day begins a fragment. -/
def newFragment (record : Xml) (date ts : Text) : HistFile :=
  { abstract := { date := date, count := 1, start := ts, fin := ts }
    records := [record] }

variable {dev dev' : HistDev} {init : List HistFile} {last : HistFile}
variable {record : Xml} {ts date : Text}

theorem fileInv_extendLast
    (inv : FileInv last)
    (hts : recordTs record = some ts)
    (hdate : getUtcDate (recordTime record) = some last.abstract.date) :
    FileInv (extendLast record ts last) where
  nonempty := by simp [extendLast]
  count_eq := by simp [extendLast, inv.count_eq]
  start_eq := by
    obtain ⟨q, qs, hq⟩ := List.exists_cons_of_ne_nil inv.nonempty
    have hstart := inv.start_eq
    simp only [hq, List.head?_cons] at hstart
    simpa [extendLast, hq] using hstart
  fin_eq := by simp [extendLast, hts]
  date_eq := by
    intro r hr
    simp only [extendLast, List.mem_append, List.mem_singleton] at hr
    rcases hr with hr | rfl
    · exact inv.date_eq r hr
    · exact hdate

/-- Strictly later records keep the times of a facility increasing. -/
theorem StoreInv.times_append
    (inv : StoreInv dev)
    (hlater : timestampToUtcTime dev.latestTs < recordTime record) :
    (dev.records ++ [record]).Pairwise fun r s => recordTime r < recordTime s := by
  rw [List.pairwise_append]
  refine ⟨inv.times, by simp, ?_⟩
  intro r hr s hs
  rw [List.mem_singleton] at hs
  subst hs
  exact lt_of_le_of_lt (inv.recordTime_le_latest hr) hlater

theorem StoreInv.positive_append
    (inv : StoreInv dev)
    (hlater : timestampToUtcTime dev.latestTs < recordTime record) :
    ∀ r ∈ dev.records ++ [record], 0 < recordTime r := by
  intro r hr
  rcases List.mem_append.mp hr with hr | hr
  · exact inv.positive r hr
  · rw [List.mem_singleton] at hr
    subst hr
    exact lt_of_le_of_lt inv.latest_nonneg.1 hlater

/-- A later record of the same UTC day keeps the invariant. -/
theorem StoreInv.extendLast
    (inv : StoreInv dev)
    (hfiles : dev.files = init ++ [last])
    (hts : recordTs record = some ts)
    (hlater : timestampToUtcTime dev.latestTs < recordTime record)
    (hday : utcDay (recordTime record) = utcDay (timestampToUtcTime dev.latestTs))
    (hcount : dev'.count = dev.count + 1)
    (hfiles' : dev'.files = init ++ [History.extendLast record ts last]) :
    StoreInv dev' ∧ dev'.records = dev.records ++ [record] := by
  have hrecords : dev'.records = dev.records ++ [record] := by
    simp [HistDev.records, hfiles, hfiles', History.extendLast]
  have hlastInv := inv.file last (by simp [hfiles])
  -- the record shares the day of the last record of the fragment
  obtain ⟨rs, q, hrs, hqmem, hq⟩ := inv.last_record hfiles
  have hqtime : recordTime q = timestampToUtcTime dev.latestTs := by
    rw [latestTs_append hfiles, recordTime_of_recordTs hq]
  have hqpos := inv.positive q (by simp [hrs])
  have hdate : getUtcDate (recordTime record) = some last.abstract.date := by
    rw [← hlastInv.date_eq q hqmem, getUtcDate_of_nonneg (by omega),
      getUtcDate_of_nonneg (by omega), hday, hqtime]
  refine ⟨?_, hrecords⟩
  constructor
  · intro f hf
    rw [hfiles', List.mem_append, List.mem_singleton] at hf
    rcases hf with hf | rfl
    · exact inv.file f (by simp [hfiles, hf])
    · exact fileInv_extendLast hlastInv hts hdate
  · have htotal := inv.total
    rw [hfiles] at htotal
    rw [hcount, htotal, hfiles']
    simp [History.extendLast]
    omega
  · have hdates := inv.dates
    rw [hfiles, List.pairwise_append] at hdates
    rw [hfiles', List.pairwise_append]
    refine ⟨hdates.1, by simp, ?_⟩
    intro f hf g hg
    rw [List.mem_singleton] at hg
    subst hg
    exact hdates.2.2 f hf last (by simp)
  · rw [hrecords]
    exact inv.times_append hlater
  · rw [hrecords]
    exact inv.positive_append hlater

/-- The date of every fragment is before the date of a later record on a new day. -/
theorem StoreInv.date_lt
    (inv : StoreInv dev)
    (hlater : timestampToUtcTime dev.latestTs < recordTime record)
    (hday : NewDay (recordTime record) (timestampToUtcTime dev.latestTs))
    (hdate : getUtcDate (recordTime record) = some date)
    {f : HistFile}
    (hf : f ∈ dev.files) :
    timestampCompareDate f.abstract.date date = some .lt := by
  have hfInv := inv.file f hf
  obtain ⟨q, qs, hqs⟩ := List.exists_cons_of_ne_nil hfInv.nonempty
  have hq : q ∈ dev.records := by
    simp only [HistDev.records, List.mem_flatMap]
    exact ⟨f, hf, by simp [hqs]⟩
  have hqpos := inv.positive q hq
  have hqle := inv.recordTime_le_latest hq
  have hne : timestampToUtcTime dev.latestTs ≠ 0 := by omega
  have hdays : utcDay (recordTime q) < utcDay (recordTime record) := by
    have h1 := utcDay_mono hqle
    have h2 := utcDay_mono (le_of_lt hlater)
    have h3 := hday.resolve_left hne
    omega
  have hqdate := hfInv.date_eq q (by simp [hqs])
  rw [getUtcDate_of_nonneg (by omega)] at hqdate hdate
  rw [← Option.some.inj hqdate, ← Option.some.inj hdate,
    timestampCompareDate_utcDate (recordTime_lt q) (recordTime_lt record)]
  congr 1
  exact Nat.compare_eq_lt.mpr hdays

/-- A later record on a new UTC day keeps the invariant. -/
theorem StoreInv.addFragment
    (inv : StoreInv dev)
    (hts : recordTs record = some ts)
    (hlater : timestampToUtcTime dev.latestTs < recordTime record)
    (hday : NewDay (recordTime record) (timestampToUtcTime dev.latestTs))
    (hdate : getUtcDate (recordTime record) = some date)
    (hcount : dev'.count = dev.count + 1)
    (hfiles' : dev'.files = dev.files ++ [newFragment record date ts]) :
    StoreInv dev' ∧ dev'.records = dev.records ++ [record] := by
  have hrecords : dev'.records = dev.records ++ [record] := by
    simp [HistDev.records, hfiles', newFragment]
  refine ⟨?_, hrecords⟩
  constructor
  · intro f hf
    rw [hfiles', List.mem_append, List.mem_singleton] at hf
    rcases hf with hf | rfl
    · exact inv.file f hf
    · constructor
      · simp [newFragment]
      · simp [newFragment]
      · simp [newFragment, hts]
      · simp [newFragment, hts]
      · simp [newFragment, hdate]
  · rw [hcount, inv.total, hfiles']
    simp [newFragment]
  · rw [hfiles', List.pairwise_append]
    refine ⟨inv.dates, by simp, ?_⟩
    intro f hf g hg
    rw [List.mem_singleton] at hg
    subst hg
    exact inv.date_lt hlater hday hdate hf
  · rw [hrecords]
    exact inv.times_append hlater
  · rw [hrecords]
    exact inv.positive_append hlater

/-- Creating the log file of a new day does not truncate an existing fragment. -/
theorem StoreInv.creatLogfile_eq
    (inv : StoreInv dev)
    (hlater : timestampToUtcTime dev.latestTs < recordTime record)
    (hday : NewDay (recordTime record) (timestampToUtcTime dev.latestTs))
    (hdate : getUtcDate (recordTime record) = some date) :
    creatLogfile date dev.files = dev.files := by
  have hnn : 0 ≤ recordTime record := by
    have := inv.latest_nonneg.1
    omega
  have hself : timestampCompareDate date date = some .eq := by
    rw [getUtcDate_of_nonneg hnn] at hdate
    rw [← Option.some.inj hdate,
      timestampCompareDate_utcDate (recordTime_lt record) (recordTime_lt record)]
    congr 1
    exact Nat.compare_eq_eq.mpr rfl
  unfold creatLogfile
  conv_rhs => rw [← List.map_id dev.files]
  refine List.map_congr_left ?_
  intro f hf
  have hlt := inv.date_lt hlater hday hdate hf
  have hne : f.abstract.date ≠ date := by
    intro he
    rw [he, hself] at hlt
    cases hlt
  simp [hne]

end Growing

end History
end Obix
