import Obix.History.Query
import Obix.History.ParseCorrect
import Obix.History.AppendLoop

/-!
# What a query answers

`__hist_query_dev` walks over the fragments, takes whole log files, prefixes of
log files or the scanned part of a range, and counts down the number of records
wanted.  `QueryAt` relates its variables to the records collected so far.

A fragment is `Hollow` for a range if the range lies between two of its records.
Such a fragment yields a response item of length zero, which cannot be created:
the query fails.  In all other cases the query answers with the first records of
the range up to the limit.
-/

namespace Obix
namespace History

open CString

/-- A fragment that overlaps the range but has no record in it. -/
def Hollow (start fin : Text) (f : HistFile) : Prop :=
  timestampToUtcTime start ≤ timestampToUtcTime f.abstract.fin ∧
  timestampToUtcTime f.abstract.start ≤ timestampToUtcTime fin ∧
  ∀ r ∈ f.records, ¬ InRange (some (start, fin)) r

/-- Fragments that the scanner can read, in ascending order. -/
structure Readable (dump : Xml → Text) (fs : List HistFile) : Prop where
  file : ∀ f ∈ fs, FileInv f
  times : (fs.flatMap HistFile.records).Pairwise fun r s => recordTime r < recordTime s
  positive : ∀ r ∈ fs.flatMap HistFile.records, 0 < recordTime r
  scan : ∀ r ∈ fs.flatMap HistFile.records, Scannable dump r

/-- Fragments in ascending order. -/
structure Sequenced (fs : List HistFile) : Prop where
  file : ∀ f ∈ fs, FileInv f
  times : (fs.flatMap HistFile.records).Pairwise fun r s => recordTime r < recordTime s
  positive : ∀ r ∈ fs.flatMap HistFile.records, 0 < recordTime r

theorem Readable.legible
    {dump : Xml → Text} {fs : List HistFile}
    (h : Readable dump fs) :
    ∀ r ∈ fs.flatMap HistFile.records, Legible dump r :=
  fun r hr => .inl (h.scan r hr)

/-- The answer consists of the records `sel`. -/
structure Answers (dump : Xml → Text) (sel : List Xml) (out : QueryOut) : Prop where
  data : out.data.flatten = logText dump sel
  empty : sel = [] → out.data = []
  count : out.count = sel.length
  start : ∀ r, sel.head? = some r → recordTs r = some out.start
  fin : ∀ r, sel.getLast? = some r → recordTs r = some out.fin

/-- The query has collected the records `sel`. -/
structure QueryAt (dump : Xml → Text) (sel : List Xml) (qs : QueryState) : Prop where
  items : qs.items.flatten = logText dump sel
  items_ne : ∀ d ∈ qs.items, d ≠ []
  count : qs.r = sel.length
  startTs : qs.startTs = sel.head?.bind recordTs
  endTs : qs.endTs = sel.getLast?.bind recordTs
  stamped : ∀ r ∈ sel, ∃ ts, recordTs r = some ts

section Fragments

variable {f : HistFile} {fs : List HistFile}

theorem Sequenced.tail
    (h : Sequenced (f :: fs)) :
    Sequenced fs where
  file := fun g hg => h.file g (by simp [hg])
  times := by
    have htimes := h.times
    rw [List.flatMap_cons, List.pairwise_append] at htimes
    exact htimes.2.1
  positive := fun r hr => h.positive r (List.mem_append_right _ hr)

theorem Sequenced.sorted
    (h : Sequenced fs)
    (hf : f ∈ fs) :
    f.records.Pairwise fun r s => recordTime r < recordTime s := by
  obtain ⟨pre, post, rfl⟩ := List.append_of_mem hf
  have htimes := h.times
  rw [List.flatMap_append, List.flatMap_cons, List.pairwise_append, List.pairwise_append]
    at htimes
  exact htimes.2.1.1

theorem Sequenced.positive_head
    (h : Sequenced (f :: fs))
    {r : Xml}
    (hr : r ∈ f.records) :
    0 < recordTime r :=
  h.positive r (by simp [hr])

/-- Every record of a fragment is earlier than those of the following fragments. -/
theorem Sequenced.lt_tail
    (h : Sequenced (f :: fs))
    {r s : Xml}
    (hr : r ∈ f.records)
    (hs : s ∈ fs.flatMap HistFile.records) :
    recordTime r < recordTime s := by
  have htimes := h.times
  rw [List.flatMap_cons, List.pairwise_append] at htimes
  exact htimes.2.2 r hr s hs

/-- The start of a fragment is the time of its first record. -/
theorem Sequenced.start_record
    (h : Sequenced fs)
    (hf : f ∈ fs) :
    ∃ first ∈ f.records, recordTs first = some f.abstract.start ∧
      recordTime first = timestampToUtcTime f.abstract.start ∧
      ∀ r ∈ f.records, recordTime first ≤ recordTime r := by
  have hinv := h.file f hf
  obtain ⟨first, rest, hrecords⟩ := List.exists_cons_of_ne_nil hinv.nonempty
  have hts : recordTs first = some f.abstract.start := by simpa [hrecords] using hinv.start_eq
  refine ⟨first, by simp [hrecords], hts, recordTime_of_recordTs hts, ?_⟩
  have hsorted := h.sorted hf
  rw [hrecords] at hsorted ⊢
  intro r hr
  rcases List.mem_cons.mp hr with rfl | hr
  · exact le_refl _
  · exact le_of_lt ((List.pairwise_cons.mp hsorted).1 r hr)

/-- The end of a fragment is the time of its last record. -/
theorem Sequenced.fin_record
    (h : Sequenced fs)
    (hf : f ∈ fs) :
    ∃ last ∈ f.records, recordTs last = some f.abstract.fin ∧
      recordTime last = timestampToUtcTime f.abstract.fin ∧
      ∀ r ∈ f.records, recordTime r ≤ recordTime last := by
  have hinv := h.file f hf
  obtain ⟨init, last, hrecords⟩ :=
    (List.eq_nil_or_concat' f.records).resolve_left hinv.nonempty
  have hts : recordTs last = some f.abstract.fin := by simpa [hrecords] using hinv.fin_eq
  refine ⟨last, by simp [hrecords], hts, recordTime_of_recordTs hts, ?_⟩
  have hsorted := h.sorted hf
  rw [hrecords] at hsorted ⊢
  intro r hr
  rcases List.mem_append.mp hr with hr | hr
  · exact le_of_lt ((List.pairwise_append.mp hsorted).2.2 r hr last (by simp))
  · rw [List.mem_singleton.mp hr]

theorem Sequenced.content_ne_nil
    {dump : Xml → Text}
    (h : Sequenced fs)
    (hf : f ∈ fs) :
    f.content dump ≠ [] := by
  obtain ⟨r, rs, hrecords⟩ := List.exists_cons_of_ne_nil (h.file f hf).nonempty
  simp [HistFile.content, hrecords, recordText, histRecordSeparator]

end Fragments

section Collecting

variable {dump : Xml → Text} {sel new : List Xml} {qs : QueryState}

theorem QueryAt.finish
    (h : QueryAt dump sel qs) :
    ∃ out, queryFinish qs = .out out ∧ Answers dump sel out := by
  refine ⟨_, rfl, ?_⟩
  constructor
  · exact h.items
  · intro hnil
    have hflat := h.items
    rw [hnil, logText_nil, List.flatten_eq_nil_iff] at hflat
    rw [List.eq_nil_iff_forall_not_mem]
    intro d hd
    exact h.items_ne d hd (hflat d hd)
  · exact h.count
  · intro r hr
    obtain ⟨ts, hts⟩ := h.stamped r (List.mem_of_mem_head? hr)
    simp [h.startTs, hr, hts]
  · intro r hr
    obtain ⟨ts, hts⟩ := h.stamped r (List.mem_of_mem_getLast? hr)
    simp [h.endTs, hr, hts]

theorem logText_ne_nil
    (h : new ≠ []) :
    logText dump new ≠ [] := by
  obtain ⟨r, rs, rfl⟩ := List.exists_cons_of_ne_nil h
  simp [recordText, histRecordSeparator]

/-- Append the records `new` of a fragment to the answer. -/
theorem QueryAt.item
    {startTs : Option Text} {endTs : Text}
    (h : QueryAt dump sel qs)
    (hnew : new ≠ [])
    (hstamped : ∀ r ∈ new, ∃ ts, recordTs r = some ts)
    (hstart : qs.startTs.isNone = true → ∀ r, new.head? = some r → startTs = recordTs r)
    (hend : ∀ r, new.getLast? = some r → recordTs r = some endTs) :
    ∃ qs', queryItem qs (logText dump new) new.length startTs endTs = some qs' ∧
      QueryAt dump (sel ++ new) qs' ∧
      qs'.n = qs.n - new.length ∧ qs'.start = qs.start ∧ qs'.fin = qs.fin := by
  obtain ⟨first, rest, hfirst⟩ := List.exists_cons_of_ne_nil hnew
  obtain ⟨init, last, hlast⟩ := (List.eq_nil_or_concat' new).resolve_left hnew
  refine ⟨_, if_neg (logText_ne_nil hnew), ?_, rfl, rfl, rfl⟩
  constructor
  · simp [h.items]
  · intro d hd
    simp only [List.mem_append, List.mem_singleton] at hd
    rcases hd with hd | rfl
    · exact h.items_ne d hd
    · exact logText_ne_nil hnew
  · simp [h.count]
  · cases sel with
    | nil =>
        have hnone : qs.startTs = none := by simp [h.startTs]
        have hs := hstart (by simp [hnone]) first (by simp [hfirst])
        simp [hnone, hs, hfirst]
    | cons r rs =>
        obtain ⟨ts, hts⟩ := h.stamped r (by simp)
        have hsome : qs.startTs = some ts := by simp [h.startTs, hts]
        simp [hsome, hts]
  · have hl := hend last (by simp [hlast])
    simp [hlast, hl]
  · intro r hr
    rcases List.mem_append.mp hr with hr | hr
    · exact h.stamped r hr
    · exact hstamped r hr

end Collecting

section Walking

variable {dump : Xml → Text} {f : HistFile} {fs : List HistFile} {qs : QueryState}

/-- The decision about a fragment, in terms of UTC times. -/
theorem queryFile_cases
    (h : Sequenced (f :: fs))
    (hstart : 0 ≤ timestampToUtcTime qs.start)
    (hfin : 0 ≤ timestampToUtcTime qs.fin) :
    (queryFile dump qs f = .skip ∧
      timestampToUtcTime f.abstract.fin < timestampToUtcTime qs.start) ∨
    (queryFile dump qs f = .finish ∧
      timestampToUtcTime qs.fin < timestampToUtcTime f.abstract.start) ∨
    (timestampToUtcTime qs.start ≤ timestampToUtcTime f.abstract.fin ∧
      timestampToUtcTime f.abstract.start ≤ timestampToUtcTime qs.fin ∧
      ((queryFile dump qs f =
          (if f.abstract.count ≤ qs.n then .whole
          else .parse { range := none, limit := qs.n, wantStart := qs.startTs.isNone }) ∧
        ∀ r ∈ f.records, InRange (some (qs.start, qs.fin)) r) ∨
      queryFile dump qs f =
        .parse
          { range := some (qs.start, qs.fin)
            limit := qs.n
            wantStart := qs.startTs.isNone })) := by
  obtain ⟨first, hfirst, -, hfirstTime, hfirstLe⟩ := h.start_record (List.mem_cons_self)
  obtain ⟨last, hlast, -, hlastTime, hlastLe⟩ := h.fin_record (List.mem_cons_self)
  have holdest : 0 ≤ timestampToUtcTime f.abstract.start := by
    have := h.positive_head hfirst
    omega
  have hlatest : 0 ≤ timestampToUtcTime f.abstract.fin := by
    have := h.positive_head hlast
    omega
  unfold queryFile
  simp only [timestampHasCommon_eq hstart hfin holdest hlatest,
    timestampHasCommon_eq holdest holdest hstart hfin,
    timestampHasCommon_eq hlatest hlatest hstart hfin,
    if_neg (h.content_ne_nil (List.mem_cons_self))]
  by_cases h1 : timestampToUtcTime f.abstract.fin < timestampToUtcTime qs.start
  · exact .inl ⟨by simp only [if_pos h1], h1⟩
  · by_cases h2 : timestampToUtcTime qs.fin < timestampToUtcTime f.abstract.start
    · exact .inr (.inl ⟨by simp only [if_neg h1, if_pos h2], h2⟩)
    · refine .inr (.inr ⟨by omega, by omega, ?_⟩)
      simp only [if_neg h1, if_neg h2]
      by_cases hinside : timestampToUtcTime qs.start ≤ timestampToUtcTime f.abstract.start ∧
          timestampToUtcTime f.abstract.fin ≤ timestampToUtcTime qs.fin
      · refine .inl ⟨?_, ?_⟩
        · have h3 : ¬ timestampToUtcTime f.abstract.start < timestampToUtcTime qs.start := by omega
          have h4 : ¬ timestampToUtcTime qs.fin < timestampToUtcTime f.abstract.fin := by omega
          simp only [if_neg h3, if_neg h4, and_self, if_true]
        · intro r hr b hb
          have hrFirst := hfirstLe r hr
          have hrLast := hlastLe r hr
          cases hb
          simp only
          omega
      · refine .inr ?_
        rw [if_neg]
        rintro ⟨hc1, hc2⟩
        refine hinside ⟨?_, ?_⟩
        · by_contra hlt
          rw [if_pos (by omega)] at hc1
          cases hc1
        · by_contra hlt
          rw [if_pos (by omega)] at hc2
          cases hc2

/-- The records of a list of fragments that are in the range, up to the limit. -/
def wanted (qs : QueryState) (records : List Xml) : List Xml :=
  (records.filter (InRange (some (qs.start, qs.fin)) ·)).take qs.n.toNat

theorem wanted_append
    {qs' : QueryState} {records more : List Xml}
    (hn : 0 < qs.n)
    (hstart : qs'.start = qs.start)
    (hfin : qs'.fin = qs.fin)
    (hn' : qs'.n = qs.n - (wanted qs records).length) :
    wanted qs (records ++ more) = wanted qs records ++ wanted qs' more := by
  unfold wanted at hn' ⊢
  rw [List.filter_append, List.take_append, hstart, hfin, hn', List.length_take]
  congr 2
  omega

theorem wanted_eq_nil
    {records : List Xml}
    (h : ∀ r ∈ records, ¬ InRange (some (qs.start, qs.fin)) r) :
    wanted qs records = [] := by
  have hnil : records.filter (InRange (some (qs.start, qs.fin)) ·) = [] := by
    simpa [List.filter_eq_nil_iff] using h
  simp [wanted, hnil]

theorem not_inRange_of_wanted_eq_nil
    {records : List Xml}
    (hn : 0 < qs.n)
    (h : wanted qs records = []) :
    ∀ r ∈ records, ¬ InRange (some (qs.start, qs.fin)) r := by
  unfold wanted at h
  rw [List.take_eq_nil_iff] at h
  have hnil := h.resolve_left (by omega)
  simpa [List.filter_eq_nil_iff] using hnil

theorem wanted_eq_take
    {records : List Xml}
    (h : ∀ r ∈ records, InRange (some (qs.start, qs.fin)) r) :
    wanted qs records = records.take qs.n.toNat := by
  have hall : records.filter (InRange (some (qs.start, qs.fin)) ·) = records := by
    simpa [List.filter_eq_self] using h
  simp [wanted, hall]

theorem mem_of_mem_wanted
    {records : List Xml} {r : Xml}
    (h : r ∈ wanted qs records) :
    r ∈ records ∧ InRange (some (qs.start, qs.fin)) r := by
  have hmem := List.mem_of_mem_take h
  simpa using List.mem_filter.mp hmem

/-- The response item that reading a fragment yields. -/
def ItemFor
    (dump : Xml → Text)
    (sel : List Xml)
    (qs : QueryState)
    (f : HistFile)
    (item : Option QueryState) :
    Prop :=
  (wanted qs f.records = [] → item = none) ∧
  (wanted qs f.records ≠ [] → ∃ qs', item = some qs' ∧
    QueryAt dump (sel ++ wanted qs f.records) qs' ∧
    qs'.n = qs.n - (wanted qs f.records).length ∧
    qs'.start = qs.start ∧ qs'.fin = qs.fin)

theorem Sequenced.wanted_stamped
    (h : Sequenced (f :: fs)) :
    ∀ r ∈ wanted qs f.records, ∃ ts, recordTs r = some ts := by
  intro r hr
  have hpos := h.positive_head (mem_of_mem_wanted hr).1
  cases hts : recordTs r with
  | some ts => exact ⟨ts, rfl⟩
  | none =>
      rw [recordTime, hts] at hpos
      cases hpos

/-- The part of a fragment that `parse_log` selects. -/
theorem queryParsed_item
    {dev : HistDev} {sel : List Xml} {args : ParseArgs}
    (next : QueryState → Resumption HistDev ParseStatics QueryReply)
    (h : Sequenced (f :: fs))
    (hlegible : ∀ r ∈ f.records, Legible dump r)
    (hat : QueryAt dump sel qs)
    (hwant : args.wantStart = qs.startTs.isNone)
    (hvalid : RangeValid args.range)
    (hlimit : 0 < args.limit)
    (hpicked : (f.records.filter (InRange args.range ·)).take args.limit.toNat =
      wanted qs f.records)
    (st : ParseStatics) :
    ((∃ r ∈ f.records, ¬ Scannable dump r) ∧
      (((parseLog args (f.content dump)).bind (queryParsed qs next)).run dev st).1 =
        .undefined) ∨
    ∃ item st',
      ((parseLog args (f.content dump)).bind (queryParsed qs next)).run dev st =
        (queryNext next item).run dev st' ∧
      ItemFor dump sel qs f item := by
  have hcontent : f.content dump = logText dump f.records := rfl
  rw [Resumption.run_bind, hcontent]
  rcases parseLog_legible dev st hvalid hlegible (fun r hr => h.positive_head hr)
      (h.sorted List.mem_cons_self) hlimit with ⟨hnot, hover⟩ | ⟨res, st', hrun, hres⟩
  · rw [hover]
    exact .inl ⟨hnot, rfl⟩
  rw [hpicked] at hres
  refine .inr ⟨queryItem qs res.data res.count res.startTs res.endTs, st', ?_, ?_, ?_⟩
  · rw [hrun]
    rfl
  · intro hnil
    rw [hres.data, hnil]
    rfl
  · intro hne
    rw [hres.data, hres.count]
    refine hat.item hne h.wanted_stamped ?_ hres.endTs
    intro hnone
    exact hres.startTs (by rw [hwant, hnone])

/-- A fragment that overlaps the range is read. -/
theorem queryFiles_read
    {dev : HistDev} {sel : List Xml} {i left : Nat}
    (hidx : dev.files[i]? = some f)
    (h : Sequenced (f :: fs))
    (hlegible : ∀ r ∈ f.records, Legible dump r)
    (hstart : 0 ≤ timestampToUtcTime qs.start)
    (hfin : 0 ≤ timestampToUtcTime qs.fin)
    (hn : 0 < qs.n)
    (hat : QueryAt dump sel qs)
    (hoverlap : timestampToUtcTime qs.start ≤ timestampToUtcTime f.abstract.fin ∧
      timestampToUtcTime f.abstract.start ≤ timestampToUtcTime qs.fin)
    (st : ParseStatics) :
    ((∃ r ∈ f.records, ¬ Scannable dump r) ∧
      ((queryFiles dump (left + 1) qs i).run dev st).1 = .undefined) ∨
    ∃ item st',
      (queryFiles dump (left + 1) qs i).run dev st =
        (queryNext (fun qs' => queryFiles dump left qs' (i + 1)) item).run dev st' ∧
      ItemFor dump sel qs f item := by
  simp only [queryFiles, Resumption.run_step, hidx]
  rcases @queryFile_cases dump f fs qs h hstart hfin with
    ⟨-, hlt⟩ | ⟨-, hlt⟩ | ⟨-, -, ⟨hstep, hall⟩ | hstep⟩
  · omega
  · omega
  · have hinv := h.file f List.mem_cons_self
    by_cases hcount : f.abstract.count ≤ qs.n
    · -- the whole log file
      rw [if_pos hcount] at hstep
      rw [hstep]
      have hwhole : wanted qs f.records = f.records := by
        rw [wanted_eq_take hall, List.take_of_length_le]
        have hlen := hinv.count_eq
        omega
      refine .inr ⟨_, st, rfl, ?_, ?_⟩
      · intro hnil
        exact absurd (hwhole.symm.trans hnil) hinv.nonempty
      · intro hne
        have hitem := @QueryAt.item dump sel (wanted qs f.records) qs (some f.abstract.start)
          f.abstract.fin hat hne h.wanted_stamped ?_ ?_
        · rw [hwhole] at hitem ⊢
          rw [hinv.count_eq]
          exact hitem
        · intro _ r hr
          rw [hwhole] at hr
          have hs := hinv.start_eq
          rw [hr] at hs
          exact hs.symm
        · intro r hr
          rw [hwhole] at hr
          have he := hinv.fin_eq
          rw [hr] at he
          exact he
    · -- a prefix of the log file
      rw [if_neg hcount] at hstep
      rw [hstep]
      refine queryParsed_item _ h hlegible hat rfl (by simp [RangeValid]) hn ?_ st
      rw [wanted_eq_take hall]
      simp [InRange]
  · -- the scanned part of the log file
    rw [hstep]
    refine queryParsed_item _ h hlegible hat rfl ?_ hn rfl st
    intro b hb
    cases hb
    exact ⟨hstart, hfin⟩

/-- If a fragment has a record in the range, no fragment is hollow. -/
theorem Sequenced.not_hollow
    (h : Sequenced (f :: fs))
    {r : Xml}
    (hr : r ∈ f.records)
    (hin : InRange (some (qs.start, qs.fin)) r) :
    ∀ g ∈ f :: fs, ¬ Hollow qs.start qs.fin g := by
  rintro g hg ⟨-, hoverlap, hnone⟩
  rcases List.mem_cons.mp hg with rfl | hg
  · exact hnone r hr hin
  · obtain ⟨first, hfirst, -, htime, -⟩ := h.start_record (List.mem_cons_of_mem _ hg)
    have hlt := h.lt_tail hr (List.mem_flatMap.mpr ⟨g, hg, hfirst⟩)
    have hlow := (hin _ rfl).1
    refine hnone first hfirst ?_
    intro b hb
    cases hb
    simp only at hlow ⊢
    omega

/-- The loop over the fragments fails at a hollow fragment and otherwise answers
with the records of the range up to the limit, if `parse_log` gets over all of them. -/
theorem queryFiles_run
    {dev : HistDev} {done : List HistFile} {sel : List Xml}
    (hfiles : dev.files = done ++ fs)
    (h : Sequenced fs)
    (hlegible : ∀ r ∈ fs.flatMap HistFile.records, Legible dump r)
    (hstart : 0 ≤ timestampToUtcTime qs.start)
    (hfin : 0 ≤ timestampToUtcTime qs.fin)
    (hn : 0 < qs.n)
    (hat : QueryAt dump sel qs)
    (st : ParseStatics) :
    ((∃ f ∈ fs, Hollow qs.start qs.fin f) ∧
      ((queryFiles dump fs.length qs done.length).run dev st).1 = .error .noMem) ∨
    ((∃ r ∈ fs.flatMap HistFile.records, ¬ Scannable dump r) ∧
      ((queryFiles dump fs.length qs done.length).run dev st).1 = .undefined) ∨
    ((∀ f ∈ fs, ¬ Hollow qs.start qs.fin f) ∧
      ∃ qs', ((queryFiles dump fs.length qs done.length).run dev st).1 = queryFinish qs' ∧
        QueryAt dump (sel ++ wanted qs (fs.flatMap HistFile.records)) qs' ∧
        qs'.start = qs.start ∧ qs'.fin = qs.fin) := by
  induction fs generalizing qs sel st done with
  | nil =>
      exact .inr (.inr ⟨by simp, qs, rfl, by simpa [wanted] using hat, rfl, rfl⟩)
  | cons f fs ih =>
      have hidx : dev.files[done.length]? = some f := by simp [hfiles]
      have hfiles' : dev.files = (done ++ [f]) ++ fs := by simp [hfiles]
      have hdone : (done ++ [f]).length = done.length + 1 := by simp
      have hlegible' : ∀ r ∈ fs.flatMap HistFile.records, Legible dump r := fun r hr =>
        hlegible r (by rw [List.flatMap_cons]; exact List.mem_append_right _ hr)
      obtain ⟨first, hfirst, -, hfirstTime, hfirstLe⟩ := h.start_record List.mem_cons_self
      obtain ⟨last, hlast, -, hlastTime, hlastLe⟩ := h.fin_record List.mem_cons_self
      rw [List.flatMap_cons]
      rcases @queryFile_cases dump f fs qs h hstart hfin with
        ⟨hstep, hlt⟩ | ⟨hstep, hlt⟩ | ⟨hle₁, hle₂, -⟩
      · -- the fragment is earlier than the range
        have hnone : ∀ r ∈ f.records, ¬ InRange (some (qs.start, qs.fin)) r := by
          intro r hr hin
          have hlow := (hin _ rfl).1
          have hup := hlastLe r hr
          simp only at hlow
          omega
        have hwanted : wanted qs (f.records ++ fs.flatMap HistFile.records) =
            wanted qs (fs.flatMap HistFile.records) := by
          rw [wanted_append hn rfl rfl (by simp [wanted_eq_nil hnone]), wanted_eq_nil hnone,
            List.nil_append]
        have hrest := ih hfiles' h.tail hlegible' hstart hfin hn hat st
        rw [hdone] at hrest
        simp only [List.length_cons, queryFiles, Resumption.run_step, hidx, hstep, hwanted]
        rcases hrest with ⟨⟨g, hg, hhollow⟩, herr⟩ | ⟨⟨r, hr, hnot⟩, hundef⟩ | ⟨hno, hout⟩
        · exact .inl ⟨⟨g, List.mem_cons_of_mem _ hg, hhollow⟩, herr⟩
        · exact .inr (.inl ⟨⟨r, List.mem_append_right _ hr, hnot⟩, hundef⟩)
        · refine .inr (.inr ⟨?_, hout⟩)
          intro g hg hhollow
          rcases List.mem_cons.mp hg with rfl | hg
          · have hover := hhollow.1
            omega
          · exact hno g hg hhollow
      · -- the fragment and all following ones are later than the range
        have hnone : ∀ r ∈ f.records ++ fs.flatMap HistFile.records,
            ¬ InRange (some (qs.start, qs.fin)) r := by
          intro r hr hin
          have hup := (hin _ rfl).2
          simp only at hup
          rcases List.mem_append.mp hr with hr | hr
          · have hlow := hfirstLe r hr
            omega
          · have hlow := h.lt_tail hfirst hr
            omega
        simp only [List.length_cons, queryFiles, Resumption.run_step, hidx, hstep,
          wanted_eq_nil hnone, List.append_nil]
        refine .inr (.inr ⟨?_, qs, rfl, hat, rfl, rfl⟩)
        rintro g hg ⟨-, hover, -⟩
        rcases List.mem_cons.mp hg with rfl | hg
        · omega
        · obtain ⟨q, hq, -, hqTime, -⟩ := h.start_record (List.mem_cons_of_mem _ hg)
          have hlow := h.lt_tail hfirst (List.mem_flatMap.mpr ⟨g, hg, hq⟩)
          omega
      · -- the fragment overlaps the range
        have hhere : ∀ r ∈ f.records, Legible dump r := fun r hr =>
          hlegible r (by rw [List.flatMap_cons]; exact List.mem_append_left _ hr)
        rcases @queryFiles_read dump f fs qs dev sel done.length fs.length hidx h hhere hstart hfin
            hn hat ⟨hle₁, hle₂⟩ st with
          ⟨⟨r, hr, hnot⟩, hundef⟩ | ⟨item, st', hrun, hitemNone, hitemSome⟩
        · exact .inr (.inl ⟨⟨r, List.mem_append_left _ hr, hnot⟩, hundef⟩)
        rw [List.length_cons, hrun]
        by_cases hnew : wanted qs f.records = []
        · rw [hitemNone hnew]
          exact .inl
            ⟨⟨f, List.mem_cons_self, hle₁, hle₂, not_inRange_of_wanted_eq_nil hn hnew⟩, rfl⟩
        · obtain ⟨qs', rfl, hat', hn', hs', hf'⟩ := hitemSome hnew
          obtain ⟨r, hr⟩ := List.exists_mem_of_ne_nil _ hnew
          obtain ⟨hrmem, hrin⟩ := mem_of_mem_wanted hr
          have hno := h.not_hollow hrmem hrin
          rw [wanted_append hn hs' hf' hn', ← List.append_assoc]
          by_cases hzero : qs'.n = 0
          · refine .inr (.inr ⟨hno, qs', ?_, ?_, hs', hf'⟩)
            · simp only [queryNext, if_pos hzero]
              rfl
            · simpa [wanted, hzero] using hat'
          · have hle : (wanted qs f.records).length ≤ qs.n.toNat := List.length_take_le _ _
            have hpos : 0 < qs'.n := by omega
            have hrest := ih hfiles' h.tail hlegible' (by rwa [hs']) (by rwa [hf']) hpos hat' st'
            rw [hdone] at hrest
            simp only [queryNext, if_neg hzero]
            rcases hrest with ⟨⟨g, hg, hhollow⟩, -⟩ | ⟨⟨r, hr, hnot⟩, hundef⟩ |
              ⟨-, qs'', hout, hat'', hs'', hf''⟩
            · rw [hs', hf'] at hhollow
              exact absurd hhollow (hno g (List.mem_cons_of_mem _ hg))
            · exact .inr (.inl ⟨⟨r, List.mem_append_right _ hr, hnot⟩, hundef⟩)
            · exact .inr (.inr ⟨hno, qs'', hout, hat'', hs''.trans hs', hf''.trans hf'⟩)

end Walking

end History
end Obix
