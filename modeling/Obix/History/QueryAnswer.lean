import Obix.History.QueryCorrect
import Obix.Xml.Dump

/-!
# The answer to a filter

The results about `__hist_query_dev` as a whole, in terms of the filter a client
sends: `Matches` says which records a filter asks for, `limited` how many of
them.  An answer of the query always consists of exactly these records.  Whether
there is an answer depends on the fragments: the query fails if the filter asks
for a range between two records of one fragment.
-/

namespace Obix
namespace History

open CString

/-- The filter asks for a record. -/
def Matches (input record : Xml) : Prop :=
  (∀ s ∈ startOf input, timestampToUtcTime s ≤ recordTime record) ∧
  (∀ e ∈ endOf input, recordTime record ≤ timestampToUtcTime e)

instance (input record : Xml) : Decidable (Matches input record) :=
  inferInstanceAs (Decidable ((∀ s ∈ startOf input, _) ∧ ∀ e ∈ endOf input, _))

/-- The first records of a list up to the limit of a filter. -/
def limited (input : Xml) (records : List Xml) : List Xml :=
  if limitOf input < 0 then records else records.take (limitOf input).toNat

/-- The time span of a fragment meets the range of a filter. -/
def SpanMeets (input : Xml) (f : HistFile) : Prop :=
  (∀ s ∈ startOf input, timestampToUtcTime s ≤ timestampToUtcTime f.abstract.fin) ∧
  (∀ e ∈ endOf input, timestampToUtcTime f.abstract.start ≤ timestampToUtcTime e)

/-- The bounds of a filter are timestamps after the Epoch that fit into the header
of the answer. -/
def FilterValid (input : Xml) : Prop :=
  ∀ ts, startOf input = some ts ∨ endOf input = some ts →
    0 ≤ timestampToUtcTime ts ∧ ts.length ≤ histRecTsMaxLen

/-- A record whose serialised form is the one the scanner is made for. -/
def Canonical (dump : Xml → Text) (record : Xml) : Prop :=
  ∃ ts, recordTs record = some ts ∧ CanonicalText (recordText dump record) ts

theorem Canonical.scannable
    {dump : Xml → Text} {record : Xml}
    (h : Canonical dump record) :
    Scannable dump record := by
  obtain ⟨ts, hts, hcanon⟩ := h
  exact ⟨ts, hts, hcanon.recognised⟩

section Facility

variable {dump : Xml → Text} {dev : HistDev} {input : Xml}

theorem StoreInv.sequenced
    (inv : StoreInv dev) :
    Sequenced dev.files where
  file := inv.file
  times := inv.times
  positive := inv.positive

theorem StoreInv.readable
    (inv : StoreInv dev)
    (hscan : ∀ r ∈ dev.records, Scannable dump r) :
    Readable dump dev.files where
  file := inv.file
  times := inv.times
  positive := inv.positive
  scan := hscan

/-- The first and the last fragment of a facility bound all its records. -/
theorem StoreInv.bounds
    {first last : HistFile}
    (inv : StoreInv dev)
    (hfirst : dev.files.head? = some first)
    (hlast : dev.files.getLast? = some last) :
    0 ≤ timestampToUtcTime first.abstract.start ∧
    0 ≤ timestampToUtcTime last.abstract.fin ∧
    ∀ r ∈ dev.records, timestampToUtcTime first.abstract.start ≤ recordTime r ∧
      recordTime r ≤ timestampToUtcTime last.abstract.fin := by
  have hread := inv.sequenced
  obtain ⟨rest, hfiles⟩ : ∃ rest, dev.files = first :: rest := List.head?_eq_some_iff.mp hfirst
  obtain ⟨init, hfiles'⟩ : ∃ init, dev.files = init ++ [last] := List.getLast?_eq_some_iff.mp hlast
  have hlatest := inv.latest_nonneg.1
  rw [latestTs_append hfiles'] at hlatest
  obtain ⟨q, hq, -, hqTime, hqLe⟩ := hread.start_record (List.mem_of_mem_head? hfirst)
  have hqmem : q ∈ dev.records :=
    List.mem_flatMap.mpr ⟨first, List.mem_of_mem_head? hfirst, hq⟩
  have hqpos := inv.positive q hqmem
  refine ⟨by omega, hlatest, ?_⟩
  intro r hr
  refine ⟨?_, ?_⟩
  · obtain ⟨f, hf, hrf⟩ := List.mem_flatMap.mp hr
    rw [hfiles] at hf hread
    rcases List.mem_cons.mp hf with rfl | hf
    · have := hqLe r hrf
      omega
    · have := hread.lt_tail hq (List.mem_flatMap.mpr ⟨f, hf, hrf⟩)
      omega
  · have hle := inv.recordTime_le_latest hr
    rwa [latestTs_append hfiles'] at hle

/-- The later of two bounds given as texts. -/
def clipStart (start oldest : Text) : Text :=
  if timestampToUtcTime start < timestampToUtcTime oldest then oldest else start

/-- The earlier of two bounds given as texts. -/
def clipEnd (fin latest : Text) : Text :=
  if timestampToUtcTime latest < timestampToUtcTime fin then latest else fin

/-- Clipping the start of the filter changes nothing for times of the facility. -/
theorem clipStart_le_iff
    {oldest : Text} {t : Int}
    (hold : timestampToUtcTime oldest ≤ t) :
    timestampToUtcTime (clipStart ((startOf input).getD oldest) oldest) ≤ t ↔
      ∀ s ∈ startOf input, timestampToUtcTime s ≤ t := by
  unfold clipStart
  cases startOf input with
  | none => simp [hold]
  | some s =>
      simp only [Option.getD_some, Option.mem_def, Option.some.injEq, forall_eq']
      split
      · omega
      · exact Iff.rfl

/-- Clipping the end of the filter changes nothing for times of the facility. -/
theorem le_clipEnd_iff
    {latest : Text} {t : Int}
    (hlat : t ≤ timestampToUtcTime latest) :
    t ≤ timestampToUtcTime (clipEnd ((endOf input).getD latest) latest) ↔
      ∀ e ∈ endOf input, t ≤ timestampToUtcTime e := by
  unfold clipEnd
  cases endOf input with
  | none => simp [hlat]
  | some e =>
      simp only [Option.getD_some, Option.mem_def, Option.some.injEq, forall_eq']
      split
      · omega
      · exact Iff.rfl

/-- A fragment that is hollow for a filter. -/
def HollowFor (input : Xml) (f : HistFile) : Prop :=
  SpanMeets input f ∧ ∀ r ∈ f.records, ¬ Matches input r

variable {oldest latest : Text}

theorem inRange_clipped_iff
    {record : Xml}
    (hold : timestampToUtcTime oldest ≤ recordTime record)
    (hlat : recordTime record ≤ timestampToUtcTime latest) :
    InRange (some (clipStart ((startOf input).getD oldest) oldest,
        clipEnd ((endOf input).getD latest) latest)) record ↔ Matches input record := by
  unfold InRange Matches
  simp only [Option.mem_def, Option.some.injEq, forall_eq']
  rw [clipStart_le_iff hold, le_clipEnd_iff hlat]
  rfl

theorem hollow_clipped_iff
    {f : HistFile}
    (hread : Sequenced dev.files)
    (hbounds : ∀ r ∈ dev.records, timestampToUtcTime oldest ≤ recordTime r ∧
      recordTime r ≤ timestampToUtcTime latest)
    (hf : f ∈ dev.files) :
    Hollow (clipStart ((startOf input).getD oldest) oldest)
        (clipEnd ((endOf input).getD latest) latest) f ↔
      HollowFor input f := by
  have hmem : ∀ r ∈ f.records, r ∈ dev.records := fun r hr => List.mem_flatMap.mpr ⟨f, hf, hr⟩
  obtain ⟨first, hfirst, -, hfirstTime, -⟩ := hread.start_record hf
  obtain ⟨last, hlast, -, hlastTime, -⟩ := hread.fin_record hf
  have hb₁ := hbounds first (hmem first hfirst)
  have hb₂ := hbounds last (hmem last hlast)
  unfold Hollow HollowFor SpanMeets
  rw [clipStart_le_iff (by omega), le_clipEnd_iff (by omega), and_assoc]
  refine and_congr Iff.rfl (and_congr Iff.rfl ?_)
  refine forall₂_congr ?_
  intro r hr
  obtain ⟨h₁, h₂⟩ := hbounds r (hmem r hr)
  rw [inRange_clipped_iff h₁ h₂]

/-- The number of records that the query is to read does not cut off more than the
limit does. -/
theorem wanted_clipped
    (inv : StoreInv dev)
    (hbounds : ∀ r ∈ dev.records, timestampToUtcTime oldest ≤ recordTime r ∧
      recordTime r ≤ timestampToUtcTime latest) :
    wanted
        (queryInit (clipStart ((startOf input).getD oldest) oldest)
          (clipEnd ((endOf input).getD latest) latest)
          (queryBudget dev input))
        dev.records =
      limited input (dev.records.filter (Matches input ·)) := by
  have hfilter : dev.records.filter (InRange (some
        (clipStart ((startOf input).getD oldest) oldest,
          clipEnd ((endOf input).getD latest) latest)) ·) =
      dev.records.filter (Matches input ·) := by
    refine List.filter_congr ?_
    intro r hr
    obtain ⟨h₁, h₂⟩ := hbounds r hr
    simp only [inRange_clipped_iff h₁ h₂]
  have hlen : (dev.records.filter (Matches input ·)).length ≤ dev.records.length :=
    List.length_filter_le _ _
  have hcount := inv.count_eq_length
  unfold wanted limited
  rw [queryInit, hfilter, queryBudget]
  dsimp only
  by_cases hneg : limitOf input < 0
  · simp only [hneg, true_or, if_true]
    exact List.take_of_length_le (by omega)
  · by_cases hbig : limitOf input > dev.count
    · simp only [hbig, hneg, or_true, if_true, if_false]
      rw [List.take_of_length_le (by omega), List.take_of_length_le (by omega)]
    · simp only [hbig, hneg, or_self, if_false]

theorem queryAt_init (start fin : Text) (n : Int) :
    QueryAt dump [] (queryInit start fin n) := by
  constructor
  · rfl
  · simp [queryInit]
  · rfl
  · rfl
  · rfl
  · simp

theorem clipStart_nonneg
    {start : Text}
    (hs : 0 ≤ timestampToUtcTime start)
    (ho : 0 ≤ timestampToUtcTime oldest) :
    0 ≤ timestampToUtcTime (clipStart start oldest) := by
  unfold clipStart
  split
  · exact ho
  · exact hs

theorem clipEnd_nonneg
    {fin : Text}
    (hf : 0 ≤ timestampToUtcTime fin)
    (hl : 0 ≤ timestampToUtcTime latest) :
    0 ≤ timestampToUtcTime (clipEnd fin latest) := by
  unfold clipEnd
  split
  · exact hl
  · exact hf

theorem exists_start_of_lt
    (hle : timestampToUtcTime oldest ≤ timestampToUtcTime latest)
    (hlt : timestampToUtcTime latest < timestampToUtcTime ((startOf input).getD oldest)) :
    ∃ s, startOf input = some s ∧ timestampToUtcTime latest < timestampToUtcTime s := by
  cases hs : startOf input with
  | none =>
      rw [hs, Option.getD_none] at hlt
      omega
  | some s =>
      rw [hs, Option.getD_some] at hlt
      exact ⟨s, rfl, hlt⟩

theorem exists_end_of_lt
    (hle : timestampToUtcTime oldest ≤ timestampToUtcTime latest)
    (hlt : timestampToUtcTime ((endOf input).getD latest) < timestampToUtcTime oldest) :
    ∃ e, endOf input = some e ∧ timestampToUtcTime e < timestampToUtcTime oldest := by
  cases he : endOf input with
  | none =>
      rw [he, Option.getD_none] at hlt
      omega
  | some e =>
      rw [he, Option.getD_some] at hlt
      exact ⟨e, rfl, hlt⟩

theorem queryBudget_pos
    (inv : StoreInv dev)
    (hne : dev.files ≠ [])
    (hlimit : limitOf input ≠ 0) :
    0 < queryBudget dev input := by
  have hcount := inv.count_eq_length
  have hlen : 0 < dev.records.length := by
    rw [List.length_pos_iff]
    obtain ⟨init, last, hconcat⟩ := (List.eq_nil_or_concat' dev.files).resolve_left hne
    obtain ⟨rs, r, hrs, -, -⟩ := inv.last_record hconcat
    simp [hrs]
  unfold queryBudget
  split
  · omega
  · omega

/-- A range outside the facility matches nothing. -/
theorem limited_eq_nil
    (h : ∀ r ∈ dev.records, ¬ Matches input r) :
    limited input (dev.records.filter (Matches input ·)) = [] := by
  have hnil : dev.records.filter (Matches input ·) = [] := by
    simpa [List.filter_eq_nil_iff] using h
  simp [limited, hnil]

/-- Bounds of all records are bounds of all fragments. -/
theorem Sequenced.span_bounds
    {f₀ : HistFile}
    (hread : Sequenced dev.files)
    (hbounds : ∀ r ∈ dev.records, timestampToUtcTime oldest ≤ recordTime r ∧
      recordTime r ≤ timestampToUtcTime latest)
    (hf₀ : f₀ ∈ dev.files) :
    (∀ f ∈ dev.files, timestampToUtcTime oldest ≤ timestampToUtcTime f.abstract.start ∧
      timestampToUtcTime f.abstract.fin ≤ timestampToUtcTime latest) ∧
    timestampToUtcTime oldest ≤ timestampToUtcTime latest := by
  refine ⟨?_, ?_⟩
  · intro f hf
    obtain ⟨q, hq, -, hqTime, -⟩ := hread.start_record hf
    obtain ⟨q', hq', -, hqTime', -⟩ := hread.fin_record hf
    have h₁ := hbounds q (List.mem_flatMap.mpr ⟨f, hf, hq⟩)
    have h₂ := hbounds q' (List.mem_flatMap.mpr ⟨f, hf, hq'⟩)
    omega
  · obtain ⟨q, hq, -, -, -⟩ := hread.start_record hf₀
    have h := hbounds q (List.mem_flatMap.mpr ⟨f₀, hf₀, hq⟩)
    omega

/-- A range outside the facility is answered without looking at the fragments. -/
theorem queryAt_outside
    (hnone : ∀ r ∈ dev.records, ¬ Matches input r)
    (start fin : Text)
    (n : Int) :
    QueryAt dump (limited input (dev.records.filter (Matches input ·)))
      (queryInit start fin n) := by
  rw [limited_eq_nil hnone]
  exact queryAt_init start fin n

/-- With valid bounds the ranges can be compared. -/
theorem exists_invalid_of_error
    (hold : 0 ≤ timestampToUtcTime oldest)
    (hlat : 0 ≤ timestampToUtcTime latest)
    (h : timestampHasCommon ((startOf input).getD oldest) ((endOf input).getD latest)
      oldest latest = .error) :
    ∃ ts, (startOf input = some ts ∨ endOf input = some ts) ∧ timestampToUtcTime ts < 0 := by
  by_contra hvalid
  push Not at hvalid
  have hs : 0 ≤ timestampToUtcTime ((startOf input).getD oldest) := by
    cases hstart : startOf input with
    | none => exact hold
    | some ts => exact hvalid ts (.inl hstart)
  have hf : 0 ≤ timestampToUtcTime ((endOf input).getD latest) := by
    cases hend : endOf input with
    | none => exact hlat
    | some ts => exact hvalid ts (.inr hend)
  rw [timestampHasCommon_eq hs hf hold hlat] at h
  split at h
  · cases h
  · split at h
    · cases h
    · cases h

/-- The bounds in the header of an answer without records. -/
def emptyBounds (input : Xml) (oldest latest : Text) : Text × Text :=
  let start := (startOf input).getD oldest
  let fin := (endOf input).getD latest
  if limitOf input = 0 then (start, fin)
  else
    match timestampHasCommon start fin oldest latest with
    | .startAfter | .endBefore =>
        ((startOf input).getD histAinTsUnd, (endOf input).getD histAinTsUnd)
    | .common | .error => (clipStart start oldest, clipEnd fin latest)

/-- The range of a filter has something in common with the facility: the query looks
at the fragments. -/
def Searches (input : Xml) (oldest latest : Text) : Prop :=
  limitOf input ≠ 0 ∧
  timestampHasCommon ((startOf input).getD oldest) ((endOf input).getD latest) oldest latest =
    .common

/-- The query gets to the header of its answer with the records of the filter. -/
structure Completes (dump : Xml → Text) (dev : HistDev) (input : Xml) (oldest latest : Text)
    (qs : QueryState) : Prop where
  collected : QueryAt dump (limited input (dev.records.filter (Matches input ·))) qs
  bounds : (qs.start, qs.fin) = emptyBounds input oldest latest
  solid : limitOf input = 0 ∨ ∀ f ∈ dev.files, ¬ HollowFor input f

/-- The outcomes of a query on a facility with a fragment. -/
theorem histQueryCore_outcomes
    {first last : HistFile}
    (inv : StoreInv dev)
    (hfirst : dev.files.head? = some first)
    (hlast : dev.files.getLast? = some last)
    (hlegible : Searches input first.abstract.start last.abstract.fin →
      ∀ r ∈ dev.records, Legible dump r)
    (st : ParseStatics) :
    (∃ qs, ((histQueryCore dump input).run dev st).1 = queryFinish qs ∧
      Completes dump dev input first.abstract.start last.abstract.fin qs) ∨
    (((histQueryCore dump input).run dev st).1 = .error .noMem ∧
      limitOf input ≠ 0 ∧ ∃ f ∈ dev.files, HollowFor input f) ∨
    (((histQueryCore dump input).run dev st).1 = .error .tsCompare ∧
      ∃ ts, (startOf input = some ts ∨ endOf input = some ts) ∧ timestampToUtcTime ts < 0) ∨
    (((histQueryCore dump input).run dev st).1 = .undefined ∧
      ∃ r ∈ dev.records, ¬ Scannable dump r) := by
  obtain ⟨hold, hlat, hbounds⟩ := inv.bounds hfirst hlast
  have hseq := inv.sequenced
  have hne : dev.files ≠ [] := by
    intro hnil
    simp [hnil] at hfirst
  obtain ⟨hspan, hle⟩ := hseq.span_bounds hbounds (List.mem_of_mem_head? hfirst)
  simp only [histQueryCore, Resumption.run_step, queryOpen, hfirst, hlast]
  by_cases hlimit : limitOf input = 0
  · rw [if_pos hlimit]
    refine .inl ⟨_, rfl, ?_, ?_, .inl hlimit⟩
    · simpa [limited, hlimit] using (queryAt_init _ _ _ : QueryAt dump [] _)
    · simp [emptyBounds, hlimit, queryInit]
  · rw [if_neg hlimit]
    cases hcommon : timestampHasCommon ((startOf input).getD first.abstract.start)
        ((endOf input).getD last.abstract.fin) first.abstract.start last.abstract.fin with
    | error => exact .inr (.inr (.inl ⟨rfl, exists_invalid_of_error hold hlat hcommon⟩))
    | startAfter =>
        obtain ⟨s, hs, hlt⟩ := exists_start_of_lt hle (lt_of_hasCommon_startAfter hcommon)
        refine .inl ⟨_, rfl, queryAt_outside ?_ _ _ _, ?_, .inr ?_⟩
        · intro r hr hmatch
          have hge := hmatch.1 s hs
          have hle := (hbounds r hr).2
          omega
        · simp [emptyBounds, hlimit, hcommon, queryInit]
        · rintro f hf ⟨hmeets, -⟩
          have hge := hmeets.1 s hs
          have hle := (hspan f hf).2
          omega
    | endBefore =>
        obtain ⟨e, he, hlt⟩ := exists_end_of_lt hle (lt_of_hasCommon_endBefore hcommon)
        refine .inl ⟨_, rfl, queryAt_outside ?_ _ _ _, ?_, .inr ?_⟩
        · intro r hr hmatch
          have hge := hmatch.2 e he
          have hle := (hbounds r hr).1
          omega
        · simp [emptyBounds, hlimit, hcommon, queryInit]
        · rintro f hf ⟨hmeets, -⟩
          have hge := hmeets.2 e he
          have hle := (hspan f hf).1
          omega
    | common =>
        obtain ⟨hs, hf, ho, hl⟩ := nonneg_of_hasCommon_common hcommon
        rw [timestampFindCommon_eq hs hf ho hl]
        have hfiles := @queryFiles_run dump dev.files
          (queryInit
            (clipStart ((startOf input).getD first.abstract.start) first.abstract.start)
            (clipEnd ((endOf input).getD last.abstract.fin) last.abstract.fin)
            (queryBudget dev input))
          dev [] [] rfl hseq (hlegible ⟨hlimit, hcommon⟩) (clipStart_nonneg hs ho)
          (clipEnd_nonneg hf hl) (queryBudget_pos inv hne hlimit) (queryAt_init _ _ _) st
        rcases hfiles with ⟨⟨f, hfmem, hhollow⟩, herr⟩ | ⟨hnot, hundef⟩ |
          ⟨hno, qs, hout, hat, hstart, hfin⟩
        · exact .inr (.inl ⟨herr, hlimit, f, hfmem,
            (hollow_clipped_iff hseq hbounds hfmem).mp hhollow⟩)
        · exact .inr (.inr (.inr ⟨hundef, hnot⟩))
        · refine .inl ⟨qs, hout, ?_, ?_, .inr ?_⟩
          · rw [← wanted_clipped inv hbounds]
            exact hat
          · rw [hstart, hfin]
            simp [emptyBounds, hlimit, hcommon, queryInit]
          · intro f hfmem hhollow
            exact hno f hfmem ((hollow_clipped_iff hseq hbounds hfmem).mpr hhollow)

/-- The outcomes of a query on a facility that the scanner can read. -/
theorem histQueryCore_run
    (inv : StoreInv dev)
    (hne : dev.files ≠ [])
    (hscan : ∀ r ∈ dev.records, Scannable dump r)
    (st : ParseStatics) :
    (∃ out, ((histQueryCore dump input).run dev st).1 = .out out ∧
      Answers dump (limited input (dev.records.filter (Matches input ·))) out ∧
      (limitOf input = 0 ∨ ∀ f ∈ dev.files, ¬ HollowFor input f)) ∨
    (((histQueryCore dump input).run dev st).1 = .error .noMem ∧
      limitOf input ≠ 0 ∧ ∃ f ∈ dev.files, HollowFor input f) ∨
    (((histQueryCore dump input).run dev st).1 = .error .tsCompare ∧
      ∃ ts, (startOf input = some ts ∨ endOf input = some ts) ∧ timestampToUtcTime ts < 0) := by
  obtain ⟨first, rest, hhead⟩ := List.exists_cons_of_ne_nil hne
  obtain ⟨init, last, hconcat⟩ := (List.eq_nil_or_concat' dev.files).resolve_left hne
  have hfirst : dev.files.head? = some first := by simp [hhead]
  have hlast : dev.files.getLast? = some last := by simp [hconcat]
  have hread := inv.readable hscan
  rcases histQueryCore_outcomes inv hfirst hlast (fun _ => hread.legible) st with
    ⟨qs, hrun, hdone⟩ | hmem | hinvalid | ⟨-, r, hr, hnot⟩
  · obtain ⟨out, hout, hans⟩ := hdone.collected.finish
    exact .inl ⟨out, hrun.trans hout, hans, hdone.solid⟩
  · exact .inr (.inl hmem)
  · exact .inr (.inr hinvalid)
  · exact absurd (hread.scan r hr) hnot

/-- An answer to a query consists of the first records that match the filter, up to
its limit. -/
theorem histQuery_answers
    {inputs : List Xml} {st : ParseStatics} {out : QueryOut}
    (hrun : appendRun emptyDev inputs = some dev)
    (hcanon : ∀ r ∈ dev.records, Canonical dump r)
    (hout : ((histQueryCore dump input).run dev st).1 = .out out) :
    Answers dump (limited input (dev.records.filter (Matches input ·))) out := by
  obtain ⟨dev', hrun', inv⟩ := appendRun_inv storeInv_emptyDev inputs
  obtain rfl : dev' = dev := Option.some.inj (hrun'.symm.trans hrun)
  have hscan : ∀ r ∈ dev'.records, Scannable dump r := fun r hr => (hcanon r hr).scannable
  by_cases hne : dev'.files = []
  · simp [histQueryCore, queryOpen, hne] at hout
  · rcases histQueryCore_run inv hne hscan st with
      ⟨out', hout', hans, -⟩ | ⟨herr, -⟩ | ⟨herr, -⟩
    · rw [hout'] at hout
      obtain rfl : out' = out := QueryReply.out.inj hout
      exact hans
    · rw [herr] at hout
      cases hout
    · rw [herr] at hout
      cases hout

/-- A well formed query is answered exactly when its limit is zero or when every
fragment whose time span meets the requested range has a record in the range. -/
theorem histQuery_succeeds_iff
    (inv : StoreInv dev)
    (hne : dev.files ≠ [])
    (hcanon : ∀ r ∈ dev.records, Canonical dump r)
    (hvalid : FilterValid input)
    (st : ParseStatics) :
    (∃ out, ((histQueryCore dump input).run dev st).1 = .out out ∧
      ((∀ r ∈ dev.records, ¬ Matches input r) → out.data = [] ∧ out.count = 0)) ↔
    limitOf input = 0 ∨
      ∀ f ∈ dev.files, SpanMeets input f → ∃ r ∈ f.records, Matches input r := by
  have hscan : ∀ r ∈ dev.records, Scannable dump r := fun r hr => (hcanon r hr).scannable
  have hhollow : (∀ f ∈ dev.files, SpanMeets input f → ∃ r ∈ f.records, Matches input r) ↔
      ∀ f ∈ dev.files, ¬ HollowFor input f := by
    refine forall₂_congr ?_
    intro f _
    simp [HollowFor]
  rw [hhollow]
  rcases histQueryCore_run inv hne hscan st with
    ⟨out, hout, hans, hno⟩ | ⟨herr, hlimit, f, hf, hh⟩ | ⟨-, ts, hts, hneg⟩
  · refine iff_of_true ⟨out, hout, ?_⟩ hno
    intro hnone
    rw [limited_eq_nil hnone] at hans
    exact ⟨hans.empty rfl, hans.count⟩
  · refine iff_of_false ?_ ?_
    · rintro ⟨out, hout, -⟩
      rw [herr] at hout
      cases hout
    · rintro (hzero | hno)
      · exact hlimit hzero
      · exact hno f hf hh
  · have hnn := (hvalid ts hts).1
    omega

end Facility

section Instances

/-- A filter with the given bounds and without a limit. -/
def queryIn (start fin : Text) : Xml :=
  .element none "obj".toList [("is".toList, "obix:HistoryFilter".toList)]
    [.element none objAbstime [(attrName, filterStart), (attrVal, start)] [],
      .element none objAbstime [(attrName, filterEnd), (attrVal, fin)] []]

/-- A facility with two records of one day. -/
def dayDev : HistDev :=
  { count := 2
    files :=
      [{ abstract :=
          { date := "2014-04-25".toList
            count := 2
            start := "2014-04-25T15:43:50Z".toList
            fin := "2014-04-25T15:44:10Z".toList }
         records :=
          [plainRecord "2014-04-25T15:43:50Z".toList, plainRecord "2014-04-25T15:44:10Z".toList] }]
    index := [] }

theorem storeInv_dayDev : StoreInv dayDev where
  file := by
    intro f hf
    rw [dayDev, List.mem_singleton] at hf
    subst hf
    constructor
    · simp
    · rfl
    · decide +kernel
    · decide +kernel
    · decide +kernel
  total := rfl
  dates := by simp [dayDev]
  times := by
    simp only [HistDev.records, dayDev]
    decide +kernel
  positive := by
    simp only [HistDev.records, dayDev]
    decide +kernel

theorem canonical_dayDev : ∀ r ∈ dayDev.records, Canonical xmlDumpNode r := by
  intro r hr
  rcases List.mem_cons.mp hr with rfl | hr
  · refine ⟨"2014-04-25T15:43:50Z".toList, rfl,
      ⟨"\n  ".toList, "/>\n".toList, ?_, ?_⟩, ?_, ?_, ?_, ?_⟩
    all_goals decide +kernel
  · obtain rfl := List.mem_singleton.mp hr
    refine ⟨"2014-04-25T15:44:10Z".toList, rfl,
      ⟨"\n  ".toList, "/>\n".toList, ?_, ?_⟩, ?_, ?_, ?_, ?_⟩
    all_goals decide +kernel

/-- Appending the two records to an empty facility. -/
theorem appendRun_day :
    ∃ dev, appendRun emptyDev [appendIn dayDev.records] = some dev ∧
      dev.records = dayDev.records := by
  obtain ⟨dev, ret, hcall, -, hrecords, -⟩ :=
    appendRecords_noFaults storeInv_emptyDev dayDev.records
  refine ⟨dev, ?_, ?_⟩
  · have hcore : histAppendCore noFaults emptyDev (appendIn dayDev.records) =
        appendRecords noFaults emptyDev dayDev.records := rfl
    simp only [appendRun, hcore, hcall]
  · rw [hrecords]
    have h₁ : Fresh (timestampToUtcTime emptyDev.latestTs)
        (plainRecord "2014-04-25T15:43:50Z".toList) := by
      decide +kernel
    have h₂ : Fresh (recordTime (plainRecord "2014-04-25T15:43:50Z".toList))
        (plainRecord "2014-04-25T15:44:10Z".toList) := by
      decide +kernel
    have hempty : emptyDev.records = [] := rfl
    have hday : dayDev.records = [plainRecord "2014-04-25T15:43:50Z".toList,
        plainRecord "2014-04-25T15:44:10Z".toList] := rfl
    rw [hempty, hday, List.nil_append, freshRecords, if_pos h₁, freshRecords, if_pos h₂,
      freshRecords]

/-- A filter for both records of the day. -/
def dayFilter : Xml :=
  queryIn "2014-04-25T15:43:50Z".toList "2014-04-25T15:44:10Z".toList

theorem matches_dayFilter : ∀ r ∈ dayDev.records, Matches dayFilter r := by
  intro r hr
  rcases List.mem_cons.mp hr with rfl | hr
  · decide +kernel
  · obtain rfl := List.mem_singleton.mp hr
    decide +kernel

/-- A facility with two appended records, asked for both. -/
theorem histQuery_answers_day :
    ∃ dev out, appendRun emptyDev [appendIn dayDev.records] = some dev ∧
      ((histQueryCore xmlDumpNode dayFilter).run dev ⟨[], [], []⟩).1 = .out out ∧
      Answers xmlDumpNode (limited dayFilter (dev.records.filter (Matches dayFilter ·))) out := by
  obtain ⟨dev, hrun, hrecords⟩ := appendRun_day
  have hcanon : ∀ r ∈ dev.records, Canonical xmlDumpNode r := by
    rw [hrecords]
    exact canonical_dayDev
  obtain ⟨dev', hrun', inv⟩ := appendRun_inv storeInv_emptyDev [appendIn dayDev.records]
  obtain rfl : dev' = dev := Option.some.inj (hrun'.symm.trans hrun)
  have hne : dev'.files ≠ [] := by
    intro hnil
    simp [HistDev.records, hnil, dayDev] at hrecords
  rcases histQueryCore_run inv hne (fun r hr => (hcanon r hr).scannable) ⟨[], [], []⟩ with
    ⟨out, hout, -⟩ | ⟨-, -, f, hf, -, hnone⟩ | ⟨-, ts, hts, hneg⟩
  · exact ⟨dev', out, hrun, hout, histQuery_answers hrun hcanon hout⟩
  · obtain ⟨r, rs, hr⟩ := List.exists_cons_of_ne_nil (inv.file f hf).nonempty
    have hmem : r ∈ dev'.records := List.mem_flatMap.mpr ⟨f, hf, by simp [hr]⟩
    rw [hrecords] at hmem
    exact absurd (matches_dayFilter r hmem) (hnone r (by simp [hr]))
  · exfalso
    rcases hts with hts | hts
    · obtain rfl := Option.some.inj hts
      revert hneg
      decide +kernel
    · obtain rfl := Option.some.inj hts
      revert hneg
      decide +kernel

theorem filterValid_queryIn
    {start fin : Text}
    (hstart : 0 ≤ timestampToUtcTime start ∧ start.length ≤ histRecTsMaxLen)
    (hfin : 0 ≤ timestampToUtcTime fin ∧ fin.length ≤ histRecTsMaxLen) :
    FilterValid (queryIn start fin) := by
  rintro ts (hts | hts)
  · obtain rfl := Option.some.inj hts
    exact hstart
  · obtain rfl := Option.some.inj hts
    exact hfin

/-- A query for both records of the day succeeds. -/
theorem histQuery_succeeds_day :
    ∃ out, ((histQueryCore xmlDumpNode dayFilter).run dayDev ⟨[], [], []⟩).1 = .out out ∧
      ((∀ r ∈ dayDev.records, ¬ Matches dayFilter r) → out.data = [] ∧ out.count = 0) := by
  refine (histQuery_succeeds_iff storeInv_dayDev (by simp [dayDev]) canonical_dayDev
    (filterValid_queryIn (by decide +kernel) (by decide +kernel)) _).mpr (.inr ?_)
  intro f hf _
  obtain ⟨r, rs, hr⟩ := List.exists_cons_of_ne_nil (storeInv_dayDev.file f hf).nonempty
  exact ⟨r, by simp [hr], matches_dayFilter r (List.mem_flatMap.mpr ⟨f, hf, by simp [hr]⟩)⟩

/-- A filter for a time between the two records of the day. -/
def gapFilter : Xml :=
  queryIn "2014-04-25T15:44:00Z".toList "2014-04-25T15:44:05Z".toList

/-- A query for a time between two records of one day fails. -/
theorem histQuery_gap_fails :
    StoreInv dayDev ∧ dayDev.files ≠ [] ∧ (∀ r ∈ dayDev.records, Canonical xmlDumpNode r) ∧
      FilterValid gapFilter ∧
      ((histQueryCore xmlDumpNode gapFilter).run dayDev ⟨[], [], []⟩).1 = .error .noMem := by
  refine ⟨storeInv_dayDev, by simp [dayDev], canonical_dayDev,
    filterValid_queryIn (by decide +kernel) (by decide +kernel), ?_⟩
  decide +kernel

end Instances

end History
end Obix
