import Obix.History.StoreInvariant

/-!
# Runs of the record loop

The record loop updates the counters of the current fragment lazily, so the
store invariant holds between two records only of the settled device, in which
the pending counters have been folded in.  `LoopInv` says so.  `appendRecord` is
described by one lemma for each way it can end; the run lemmas follow by
induction over the list.

`freshRecords` says what an append is for: of a list of records it keeps those
that are later than everything before them.
-/

namespace Obix
namespace History

open CString

/-- A record that is later than `latest`. -/
def Fresh (latest : Int) (record : Xml) : Prop :=
  record.isElement = true ∧ latest < recordTime record

instance (latest : Int) (record : Xml) : Decidable (Fresh latest record) :=
  inferInstanceAs (Decidable (_ ∧ _))

/-- The records of a list that are later than `latest` and than every record before. -/
def freshRecords : Int → List Xml → List Xml
  | _, [] => []
  | latest, record :: records =>
      if Fresh latest record then record :: freshRecords (recordTime record) records
      else freshRecords latest records

/-- Time of the latest record after appending a list of records. -/
def freshLatest : Int → List Xml → Int
  | latest, [] => latest
  | latest, record :: records =>
      if Fresh latest record then freshLatest (recordTime record) records
      else freshLatest latest records

section Abstract

variable {latest : Int} {record : Xml} {records more : List Xml}

theorem freshRecords_append :
    freshRecords latest (records ++ more) =
      freshRecords latest records ++ freshRecords (freshLatest latest records) more := by
  induction records generalizing latest with
  | nil => rfl
  | cons record records ih =>
      simp only [List.cons_append, freshRecords, freshLatest]
      split
      · rw [ih, List.cons_append]
      · exact ih

theorem freshRecords_eq_nil_iff :
    freshRecords latest records = [] ↔ ∀ r ∈ records, ¬ Fresh latest r := by
  induction records with
  | nil => simp [freshRecords]
  | cons record records ih =>
      by_cases hfresh : Fresh latest record
      · simp [freshRecords, hfresh]
      · simp [freshRecords, hfresh, ih]

theorem freshLatest_of_eq_nil
    (h : freshRecords latest records = []) :
    freshLatest latest records = latest := by
  induction records with
  | nil => rfl
  | cons record records ih =>
      by_cases hfresh : Fresh latest record
      · simp [freshRecords, hfresh] at h
      · simp only [freshRecords, if_neg hfresh] at h
        simp only [freshLatest, if_neg hfresh]
        exact ih h

theorem le_freshLatest : latest ≤ freshLatest latest records := by
  induction records generalizing latest with
  | nil => exact le_refl _
  | cons record records ih =>
      simp only [freshLatest]
      split
      · rename_i hfresh
        exact le_trans (le_of_lt hfresh.2) ih
      · exact ih

/-- Every record element of the list is at or before the resulting latest time. -/
theorem recordTime_le_freshLatest
    (hmem : record ∈ records)
    (helement : record.isElement = true) :
    recordTime record ≤ freshLatest latest records := by
  induction records generalizing latest with
  | nil => simp at hmem
  | cons head records ih =>
      simp only [freshLatest]
      rcases List.mem_cons.mp hmem with rfl | hmem
      · split
        · exact le_freshLatest
        · rename_i hstale
          have hle : recordTime record ≤ latest := by
            by_contra hgt
            exact hstale ⟨helement, by omega⟩
          exact le_trans hle le_freshLatest
      · split
        · exact ih hmem
        · exact ih hmem

/-- The resulting latest time is the one at the start or that of a record of the list. -/
theorem freshLatest_eq_or_mem :
    freshLatest latest records = latest ∨
      ∃ r ∈ records, r.isElement = true ∧ freshLatest latest records = recordTime r := by
  induction records generalizing latest with
  | nil => exact .inl rfl
  | cons head records ih =>
      simp only [freshLatest]
      split
      · rename_i hfresh
        rcases @ih (recordTime head) with h | ⟨r, hr, he, h⟩
        · exact .inr ⟨head, by simp, hfresh.1, h⟩
        · exact .inr ⟨r, by simp [hr], he, h⟩
      · rcases @ih latest with h | ⟨r, hr, he, h⟩
        · exact .inl h
        · exact .inr ⟨r, by simp [hr], he, h⟩

end Abstract

section Settling

variable {init : List HistFile} {last : HistFile} {st : AppendState}

theorem modify_last
    (f : HistFile → HistFile) :
    (init ++ [last]).modify init.length f = init ++ [f last] := by
  simp [List.modify_eq_take_drop]

theorem addAbsCount_eq
    (h : 0 ≤ last.abstract.count)
    (n : Nat) :
    addAbsCount n last =
      { last with abstract := { last.abstract with count := last.abstract.count + n } } := by
  have hnot : ¬ last.abstract.count < 0 := by omega
  simp [addAbsCount, hnot]

theorem foldAbsCount_nil (file : Option Nat) (n : Nat) :
    foldAbsCount [] file n = [] := by
  cases file with
  | none => simp [foldAbsCount]
  | some k => simp [foldAbsCount]

theorem foldAbsCount_last
    (h : 0 ≤ last.abstract.count)
    (n : Nat) :
    foldAbsCount (init ++ [last]) (some init.length) n =
      init ++ [{ last with abstract :=
        { last.abstract with count := last.abstract.count + n } }] := by
  unfold foldAbsCount
  split
  · dsimp only
    rw [modify_last, addAbsCount_eq h]
  · have hn : n = 0 := by omega
    simp [hn]

/-- The invariant of the record loop. -/
structure LoopInv (st : AppendState) : Prop where
  store : StoreInv (settle st)
  file_eq : st.file = if st.dev.files = [] then none else some (st.dev.files.length - 1)
  latest_eq : st.latestTs = st.dev.latestTs
  nonneg : ∀ f ∈ st.dev.files, 0 ≤ f.abstract.count

theorem LoopInv.file_last
    (inv : LoopInv st)
    (h : st.dev.files = init ++ [last]) :
    st.file = some init.length := by
  rw [inv.file_eq, h]
  simp

theorem LoopInv.settle_files
    (inv : LoopInv st)
    (h : st.dev.files = init ++ [last]) :
    (settle st).files = init ++ [{ last with abstract :=
        { last.abstract with count := last.abstract.count + st.count } }] := by
  simp only [settle]
  rw [h, inv.file_last h, foldAbsCount_last (inv.nonneg last (by simp [h]))]

theorem LoopInv.settle_latestTs
    (inv : LoopInv st) :
    (settle st).latestTs = st.latestTs := by
  rw [inv.latest_eq]
  rcases List.eq_nil_or_concat' st.dev.files with hnil | ⟨init, last, h⟩
  · rw [latestTs_nil hnil, latestTs_nil]
    simp [settle, hnil, foldAbsCount_nil]
  · rw [latestTs_append h, latestTs_append (inv.settle_files h)]

/-- At the beginning of the loop there is nothing to fold. -/
theorem loopInv_appendStart
    {dev : HistDev}
    (inv : StoreInv dev) :
    LoopInv (appendStart dev) ∧ settle (appendStart dev) = dev := by
  have hsettle : settle (appendStart dev) = dev := by
    simp [settle, appendStart, foldAbsCount]
  refine ⟨?_, hsettle⟩
  constructor
  · rw [hsettle]
    exact inv
  · rfl
  · rfl
  · intro f hf
    rw [(inv.file f hf).count_eq]
    omega

end Settling

section Rounds

variable {st : AppendState} {record : Xml} {ts : Text}
variable {init : List HistFile} {last : HistFile}

/-- What a round that stores its record leaves behind. -/
structure Stored (st : AppendState) (record : Xml) (st' : AppendState) : Prop where
  inv : LoopInv st'
  records : (settle st').records = (settle st).records ++ [record]
  latest : timestampToUtcTime st'.latestTs = recordTime record
  allCount : st'.allCount = st.allCount + 1
  ret : st'.ret = .success

/-- A record that is not later than the latest one only changes the return code. -/
theorem appendRecord_stale
    (inv : LoopInv st)
    (hstale : ¬ Fresh (timestampToUtcTime st.latestTs) record)
    (io : IoFaults)
    (i : Nat) :
    ∃ code, appendRecord io i record st = .next { st with ret := code } ∧
      (record.isElement = false → code = st.ret) ∧
      (record.isElement = true → code ≠ .success) := by
  have hlatest : 0 ≤ timestampToUtcTime st.latestTs := by
    rw [← inv.settle_latestTs]
    exact inv.store.latest_nonneg.1
  unfold appendRecord
  by_cases helement : record.isElement = true
  · simp only [helement, Bool.true_eq_false, if_false, false_implies, true_implies,
      true_and]
    cases hts : recordTs record with
    | none => exact ⟨.tsCompare, rfl, by decide⟩
    | some ts =>
        have htime := recordTime_of_recordTs hts
        have hle : timestampToUtcTime ts ≤ timestampToUtcTime st.latestTs := by
          by_contra hgt
          exact hstale ⟨helement, by omega⟩
        dsimp only
        by_cases hneg : timestampToUtcTime ts < 0
        · rw [timestampCompare_eq_none (.inl hneg)]
          exact ⟨.tsCompare, rfl, by decide⟩
        · rw [timestampCompare_eq (by omega) hlatest]
          rcases lt_or_eq_of_le hle with hlt | heq
          · rw [Int.compare_eq_lt.mpr hlt]
            exact ⟨.tsObsolete, rfl, by decide⟩
          · rw [Int.compare_eq_eq.mpr heq]
            exact ⟨.tsObsolete, rfl, by decide⟩
  · simp only [Bool.not_eq_true] at helement
    simp only [helement, if_true]
    exact ⟨st.ret, rfl, by simp⟩

/-- The state after a record has been written into the last fragment. -/
def written
    (record : Xml)
    (ts : Text)
    (st : AppendState)
    (init : List HistFile)
    (last : HistFile) :
    AppendState :=
  { dev := { st.dev with files := init ++ [writeLogfile record ts last] }
    file := some init.length
    latestTs := ts
    count := st.count + 1
    allCount := st.allCount + 1
    ret := .success }

theorem appendWrite_last
    (hfile : st.file = some init.length)
    (hfiles : st.dev.files = init ++ [last])
    (fails : Bool) :
    appendWrite fails record ts st =
      if fails then .failed { st with ret := .historyIo }
      else .next (written record ts st init last) := by
  cases fails with
  | true => simp [appendWrite, hfile]
  | false => simp [appendWrite, written, hfile, hfiles, modify_last]

theorem settle_written_files
    (hnonneg : 0 ≤ last.abstract.count) :
    (settle (written record ts st init last)).files =
      init ++ [{ abstract :=
                  { last.abstract with count := last.abstract.count + (st.count + 1), fin := ts }
                 records := last.records ++ [record] }] := by
  have hnonneg' : 0 ≤ (writeLogfile record ts last).abstract.count := hnonneg
  simp only [settle, written]
  rw [foldAbsCount_last hnonneg']
  simp [writeLogfile]

/-- A write that keeps the settled device well formed keeps the loop invariant. -/
theorem stored_written
    {st₀ : AppendState}
    (hstore : StoreInv (settle (written record ts st init last)) ∧
      (settle (written record ts st init last)).records = (settle st₀).records ++ [record])
    (hnonneg : ∀ f ∈ init ++ [last], 0 ≤ f.abstract.count)
    (hts : recordTs record = some ts)
    (hall : st.allCount = st₀.allCount) :
    Stored st₀ record (written record ts st init last) := by
  constructor
  · constructor
    · exact hstore.1
    · simp [written]
    · simp [written, HistDev.latestTs, writeLogfile]
    · intro f hf
      simp only [written, List.mem_append, List.mem_singleton] at hf
      rcases hf with hf | rfl
      · exact hnonneg f (by simp [hf])
      · exact hnonneg last (by simp)
  · exact hstore.2
  · exact (recordTime_of_recordTs hts).symm
  · simp [written, hall]
  · rfl

/-- A later record is written, after the creation of a fragment on a new UTC day. -/
theorem appendRecord_fresh
    (inv : LoopInv st)
    (hfresh : Fresh (timestampToUtcTime st.latestTs) record)
    (io : IoFaults)
    (i : Nat) :
    ∃ ts, recordTs record = some ts ∧
      appendRecord io i record st =
        if NewDay (recordTime record) (timestampToUtcTime st.latestTs) then
          match histCreateFragment (io.create i) { st.dev with files := (settle st).files } ts with
          | none =>
              .failed
                { st with
                  dev := { st.dev with files := (settle st).files }
                  file := none
                  count := 0
                  ret := .historyIo }
          | some dev' =>
              appendWrite (io.write i) record ts
                { st with dev := dev', file := some (dev'.files.length - 1), count := 0 }
        else appendWrite (io.write i) record ts st := by
  have hlatest : 0 ≤ timestampToUtcTime st.latestTs := by
    rw [← inv.settle_latestTs]
    exact inv.store.latest_nonneg.1
  obtain ⟨helement, hlater⟩ := hfresh
  cases hts : recordTs record with
  | none =>
      simp only [recordTime, hts] at hlater
      omega
  | some ts =>
      have htime := recordTime_of_recordTs hts
      refine ⟨ts, rfl, ?_⟩
      unfold appendRecord
      simp only [helement, Bool.true_eq_false, if_false, hts]
      rw [timestampCompare_eq (by omega) hlatest, Int.compare_eq_gt.mpr (by omega), ← htime]
      by_cases hday : NewDay (recordTime record) (timestampToUtcTime st.latestTs)
      · simp only [hlater, hday, and_self, decide_true, if_true]
        rfl
      · simp only [hday, and_false, decide_false, if_false]

/-- A later record of the same UTC day is stored unless its write fails. -/
theorem appendRecord_sameDay
    (inv : LoopInv st)
    (hfresh : Fresh (timestampToUtcTime st.latestTs) record)
    (hday : ¬ NewDay (recordTime record) (timestampToUtcTime st.latestTs))
    (io : IoFaults)
    (i : Nat) :
    ∃ st', Stored st record st' ∧
      appendRecord io i record st =
        if io.write i then .failed { st with ret := .historyIo } else .next st' := by
  obtain ⟨ts, hts, hround⟩ := appendRecord_fresh inv hfresh io i
  rw [if_neg hday] at hround
  simp only [NewDay, not_or, ne_eq, not_not] at hday
  -- the latest time is not the Epoch, so there is a last fragment
  rcases List.eq_nil_or_concat' st.dev.files with hnil | ⟨init, last, hfiles⟩
  · exfalso
    apply hday.1
    rw [inv.latest_eq, latestTs_nil hnil, timestampToUtcTime_histTsInit]
  · have hnonneg : ∀ f ∈ init ++ [last], 0 ≤ f.abstract.count := by
      rw [← hfiles]
      exact inv.nonneg
    refine ⟨written record ts st init last, ?_, ?_⟩
    · refine stored_written ?_ hnonneg hts rfl
      refine inv.store.extendLast (inv.settle_files hfiles) hts ?_ ?_ ?_ ?_
      · rw [inv.settle_latestTs]
        exact hfresh.2
      · rw [inv.settle_latestTs]
        exact hday.2
      · simp only [settle, written]
        push_cast
        omega
      · rw [settle_written_files (hnonneg last (by simp))]
        simp [extendLast, add_assoc]
    · rw [hround]
      exact appendWrite_last (inv.file_last hfiles) hfiles _

/-- The fragment that is created for the first record of a new UTC day. -/
def freshFragment (date ts : Text) : HistFile :=
  { abstract := { date := date, count := 0, start := ts, fin := ts }, records := [] }

/-- A later record on a new UTC day is stored in a new fragment unless the
creation of the fragment or the write fails. -/
theorem appendRecord_newDay
    (inv : LoopInv st)
    (hfresh : Fresh (timestampToUtcTime st.latestTs) record)
    (hday : NewDay (recordTime record) (timestampToUtcTime st.latestTs))
    (io : IoFaults)
    (i : Nat) :
    ∃ ts date st', recordTs record = some ts ∧
      getUtcDate (recordTime record) = some date ∧
      Stored st record st' ∧
      appendRecord io i record st =
        if io.create i then
          .failed
            { st with
              dev := { st.dev with files := (settle st).files }
              file := none
              count := 0
              ret := .historyIo }
        else if io.write i then
          .failed
            { st with
              dev := { st.dev with files := (settle st).files ++ [freshFragment date ts] }
              file := some (settle st).files.length
              count := 0
              ret := .historyIo }
        else .next st' := by
  obtain ⟨ts, hts, hround⟩ := appendRecord_fresh inv hfresh io i
  rw [if_pos hday] at hround
  have htime := recordTime_of_recordTs hts
  rw [← inv.settle_latestTs] at hfresh hday
  have hnn : 0 ≤ recordTime record := by
    have hlatest := inv.store.latest_nonneg.1
    have hlater := hfresh.2
    omega
  obtain ⟨date, hdate⟩ : ∃ date, getUtcDate (recordTime record) = some date :=
    ⟨_, getUtcDate_of_nonneg hnn⟩
  have hcreat := inv.store.creatLogfile_eq hfresh.2 hday hdate
  have hnonneg : ∀ f ∈ (settle st).files ++ [freshFragment date ts], 0 ≤ f.abstract.count := by
    intro f hf
    simp only [List.mem_append, List.mem_singleton] at hf
    rcases hf with hf | rfl
    · rw [(inv.store.file f hf).count_eq]
      omega
    · simp [freshFragment]
  have hgetdate : timestampGetUtcDate ts = some date := by
    have hnot : ¬ timestampToUtcTime ts < 0 := by omega
    simp only [timestampGetUtcDate, if_neg hnot]
    rw [← htime, hdate]
  refine ⟨ts, date,
    written record ts { st with count := 0 } (settle st).files (freshFragment date ts),
    hts, hdate, ?_, ?_⟩
  · refine stored_written ?_ hnonneg hts rfl
    refine inv.store.addFragment hts hfresh.2 hday hdate ?_ ?_
    · simp only [settle, written]
      push_cast
      omega
    · rw [settle_written_files (hnonneg _ (by simp))]
      simp [freshFragment, newFragment]
  · rw [hround]
    cases hc : io.create i with
    | true => simp [histCreateFragment, hgetdate]
    | false =>
        simp only [histCreateFragment, hgetdate, hcreat, Bool.false_eq_true, if_false]
        rw [@appendWrite_last _ record ts (settle st).files (freshFragment date ts)
          (by simp) rfl]
        simp [written, freshFragment]

/-- A round with a later record stores it or fails. -/
theorem appendRecord_fresh_cases
    (inv : LoopInv st)
    (hfresh : Fresh (timestampToUtcTime st.latestTs) record)
    (io : IoFaults)
    (i : Nat) :
    ∃ st', Stored st record st' ∧
      (appendRecord io i record st = .next st' ∨
        ∃ st'', appendRecord io i record st = .failed st'' ∧
          (io.create i = true ∨ io.write i = true)) := by
  by_cases hday : NewDay (recordTime record) (timestampToUtcTime st.latestTs)
  · obtain ⟨ts, date, st', -, -, hstored, hround⟩ := appendRecord_newDay inv hfresh hday io i
    refine ⟨st', hstored, ?_⟩
    rw [hround]
    cases hc : io.create i with
    | true => exact .inr ⟨_, rfl, .inl rfl⟩
    | false =>
        cases hw : io.write i with
        | true => exact .inr ⟨_, rfl, .inr rfl⟩
        | false => exact .inl rfl
  · obtain ⟨st', hstored, hround⟩ := appendRecord_sameDay inv hfresh hday io i
    refine ⟨st', hstored, ?_⟩
    rw [hround]
    cases hw : io.write i with
    | true => exact .inr ⟨_, rfl, .inr rfl⟩
    | false => exact .inl rfl

end Rounds

/-- Whether the last record element of a list is stored; `ok` if there is none. -/
def lastStored : Prop → Int → List Xml → Prop
  | ok, _, [] => ok
  | ok, latest, record :: records =>
      if Fresh latest record then lastStored True (recordTime record) records
      else if record.isElement = true then lastStored False latest records
      else lastStored ok latest records

section Runs

variable {st st' st'' : AppendState} {record : Xml} {records : List Xml} {io : IoFaults} {i : Nat}

/-- What a run of the record loop over a list leaves behind. -/
structure LoopRun (st : AppendState) (records : List Xml) (st' : AppendState) : Prop where
  inv : LoopInv st'
  stored : (settle st').records =
    (settle st).records ++ freshRecords (timestampToUtcTime st.latestTs) records
  latest : timestampToUtcTime st'.latestTs =
    freshLatest (timestampToUtcTime st.latestTs) records
  allCount : st'.allCount =
    st.allCount + (freshRecords (timestampToUtcTime st.latestTs) records).length
  ret : st'.ret = .success ↔
    lastStored (st.ret = .success) (timestampToUtcTime st.latestTs) records

theorem LoopRun.nil (inv : LoopInv st) : LoopRun st [] st where
  inv := inv
  stored := by simp [freshRecords]
  latest := rfl
  allCount := rfl
  ret := Iff.rfl

theorem LoopRun.cons_stored
    (hfresh : Fresh (timestampToUtcTime st.latestTs) record)
    (hstored : Stored st record st')
    (hrun : LoopRun st' records st'') :
    LoopRun st (record :: records) st'' := by
  obtain ⟨inv, hrecords, hlatest, hall, hret⟩ := hrun
  rw [hstored.latest] at hrecords hlatest hall hret
  constructor
  · exact inv
  · rw [hrecords, hstored.records, freshRecords, if_pos hfresh]
    simp
  · rw [hlatest, freshLatest, if_pos hfresh]
  · rw [hall, hstored.allCount, freshRecords, if_pos hfresh]
    simp only [List.length_cons]
    omega
  · rw [hret, lastStored, if_pos hfresh, hstored.ret]
    simp only

theorem LoopRun.cons_stale
    {code : ErrCode}
    (hstale : ¬ Fresh (timestampToUtcTime st.latestTs) record)
    (hother : record.isElement = false → code = st.ret)
    (herror : record.isElement = true → code ≠ .success)
    (hrun : LoopRun { st with ret := code } records st'') :
    LoopRun st (record :: records) st'' := by
  obtain ⟨inv, hrecords, hlatest, hall, hret⟩ := hrun
  constructor
  · exact inv
  · rw [freshRecords, if_neg hstale]
    exact hrecords
  · rw [freshLatest, if_neg hstale]
    exact hlatest
  · rw [freshRecords, if_neg hstale]
    exact hall
  · rw [hret, lastStored, if_neg hstale]
    cases helement : record.isElement with
    | true => simp [herror helement]
    | false => simp [hother helement]

theorem LoopInv.with_ret
    (inv : LoopInv st)
    (code : ErrCode) :
    LoopInv { st with ret := code } where
  store := inv.store
  file_eq := inv.file_eq
  latest_eq := inv.latest_eq
  nonneg := inv.nonneg

/-- A run that reaches the end of the list, whatever may have failed elsewhere. -/
theorem appendLoop_run
    (inv : LoopInv st)
    (h : appendLoop io i records st = .next st') :
    LoopRun st records st' := by
  induction records generalizing i st with
  | nil =>
      simp only [appendLoop, AppendRound.next.injEq] at h
      rw [← h]
      exact LoopRun.nil inv
  | cons record records ih =>
      by_cases hfresh : Fresh (timestampToUtcTime st.latestTs) record
      · obtain ⟨st₁, hstored, hround | ⟨st₂, hround, -⟩⟩ := appendRecord_fresh_cases inv hfresh io i
        · simp only [appendLoop, hround] at h
          exact LoopRun.cons_stored hfresh hstored (ih hstored.inv h)
        · simp [appendLoop, hround] at h
      · obtain ⟨code, hround, hother, herror⟩ := appendRecord_stale inv hfresh io i
        simp only [appendLoop, hround] at h
        exact LoopRun.cons_stale hfresh hother herror (ih (inv.with_ret code) h)

/-- Without failures the loop reaches the end of the list. -/
theorem appendLoop_noFaults
    (inv : LoopInv st)
    (i : Nat)
    (records : List Xml) :
    ∃ st', appendLoop noFaults i records st = .next st' := by
  induction records generalizing i st with
  | nil => exact ⟨st, rfl⟩
  | cons record records ih =>
      by_cases hfresh : Fresh (timestampToUtcTime st.latestTs) record
      · obtain ⟨st₁, hstored, hround | ⟨st₂, -, hc | hw⟩⟩ :=
          appendRecord_fresh_cases inv hfresh noFaults i
        · obtain ⟨st', hrest⟩ := ih hstored.inv (i + 1)
          exact ⟨st', by simp only [appendLoop, hround, hrest]⟩
        · simp [noFaults] at hc
        · simp [noFaults] at hw
      · obtain ⟨code, hround, -, -⟩ := appendRecord_stale inv hfresh noFaults i
        obtain ⟨st', hrest⟩ := ih (inv.with_ret code) (i + 1)
        exact ⟨st', by simp only [appendLoop, hround, hrest]⟩

/-- A failing run fails at a record up to which everything went well. -/
theorem appendLoop_failed
    (h : appendLoop io i records st = .failed st') :
    ∃ pre record post st₀, records = pre ++ record :: post ∧
      appendLoop io i pre st = .next st₀ ∧
      appendRecord io (i + pre.length) record st₀ = .failed st' := by
  induction records generalizing i st with
  | nil => simp [appendLoop] at h
  | cons record records ih =>
      cases hround : appendRecord io i record st with
      | next st₁ =>
          simp only [appendLoop, hround] at h
          obtain ⟨pre, r, post, st₀, hsplit, hpre, hfail⟩ := ih h
          refine ⟨record :: pre, r, post, st₀, by simp [hsplit], ?_, ?_⟩
          · simp only [appendLoop, hround, hpre]
          · rw [← hfail]
            congr 1
            simp only [List.length_cons]
            omega
      | failed st₁ =>
          simp only [appendLoop, hround] at h
          exact ⟨[], record, records, st, rfl, rfl, by rw [← h]; exact hround⟩
      | nullFile => simp [appendLoop, hround] at h

end Runs

section Calls

variable {dev dev' : HistDev}

theorem StoreInv.congr
    (inv : StoreInv dev)
    (hcount : dev'.count = dev.count)
    (hfiles : dev'.files = dev.files) :
    StoreInv dev' := by
  obtain ⟨count, files, index⟩ := dev
  obtain ⟨count', files', index'⟩ := dev'
  simp only at hcount hfiles
  subst hcount hfiles
  exact ⟨inv.file, inv.total, inv.dates, inv.times, inv.positive⟩

theorem appendFinish_count (st : AppendState) : (appendFinish st).count = (settle st).count := by
  unfold appendFinish
  split
  · rfl
  · rfl

theorem appendFinish_files (st : AppendState) : (appendFinish st).files = (settle st).files := by
  unfold appendFinish
  split
  · rfl
  · rfl

/-- Appending without failures stores exactly the records that are later than
everything before them, and keeps the invariant. -/
theorem appendRecords_noFaults
    (inv : StoreInv dev)
    (records : List Xml) :
    ∃ dev' ret,
      appendRecords noFaults dev records = .returned dev' ret
        (freshRecords (timestampToUtcTime dev.latestTs) records).length ∧
      StoreInv dev' ∧
      dev'.records = dev.records ++ freshRecords (timestampToUtcTime dev.latestTs) records ∧
      (ret = .success ↔ lastStored True (timestampToUtcTime dev.latestTs) records) := by
  obtain ⟨hstart, hsettle⟩ := loopInv_appendStart inv
  obtain ⟨st', hloop⟩ := appendLoop_noFaults hstart 0 records
  obtain ⟨hinv, hstored, -, hall, hret⟩ := appendLoop_run hstart hloop
  have hlatest : (appendStart dev).latestTs = dev.latestTs := rfl
  rw [hlatest] at hstored hall hret
  rw [hsettle] at hstored
  refine ⟨appendFinish st', st'.ret, ?_, ?_, ?_, ?_⟩
  · have hadded : st'.allCount =
        (freshRecords (timestampToUtcTime dev.latestTs) records).length := by
      rw [hall]
      exact Nat.zero_add _
    simp only [appendRecords, hloop, hadded]
  · exact hinv.store.congr (appendFinish_count st') (appendFinish_files st')
  · rw [← hstored]
    simp only [HistDev.records, appendFinish_files]
  · rw [hret]
    simp [appendStart]

/-- The facility after a sequence of calls of `__hist_append_dev`; `none` if a
call dereferences a `NULL` file. -/
def appendRun (dev : HistDev) : List Xml → Option HistDev
  | [] => some dev
  | input :: inputs =>
      match histAppendCore noFaults dev input with
      | .returned dev' _ _ => appendRun dev' inputs
      | .nullFile => none

theorem histAppendCore_noFaults
    (inv : StoreInv dev)
    (input : Xml) :
    ∃ dev' ret added, histAppendCore noFaults dev input = .returned dev' ret added ∧
      StoreInv dev' := by
  unfold histAppendCore
  split
  · exact ⟨dev, .invalidInput, 0, rfl, inv⟩
  · rename_i list _
    obtain ⟨dev', ret, hcall, inv', -, -⟩ := appendRecords_noFaults inv list.children
    exact ⟨dev', ret, _, hcall, inv'⟩

theorem appendRun_inv
    (inv : StoreInv dev)
    (inputs : List Xml) :
    ∃ dev', appendRun dev inputs = some dev' ∧ StoreInv dev' := by
  induction inputs generalizing dev with
  | nil => exact ⟨dev, rfl, inv⟩
  | cons input inputs ih =>
      obtain ⟨dev₁, ret, added, hcall, inv₁⟩ := histAppendCore_noFaults inv input
      obtain ⟨dev', hrun, inv'⟩ := ih inv₁
      exact ⟨dev', by simp only [appendRun, hcall, hrun], inv'⟩

/-- Every sequence of appends to an empty facility runs without a write into a
missing fragment and ends in a facility whose index describes its files. -/
theorem appendRun_storeInv
    (inputs : List Xml) :
    ∃ dev, appendRun emptyDev inputs = some dev ∧ StoreInv dev :=
  appendRun_inv storeInv_emptyDev inputs

end Calls

end History
end Obix
