import Obix.Lib.Sprintf
import Obix.History.QueryAlone
import Obix.History.QueryAnswer

/-!
# The header of an answer

`__hist_query_dev` prints the header of a HistoryQueryOut contract into a buffer
that has room for two timestamps in UTC and nine digits.  What is printed are the
timestamps of the first and the last record of the answer as they are stored;
without records it is the range, part of which is what the client has sent.
`HeaderRoom` says what fits.
-/

namespace Obix
namespace History

open CString

/-- `HIST_FLT_VAL_MAX_BITS`. -/
def histFltValMaxBits : Nat := 9

/-- `HIST_QUERY_OUT_PREFIX`. -/
def histQueryOutPrefix : Text :=
  "<obj is=\"obix:HistoryQueryOut\">\r\n".toList ++
  "<int name=\"count\" val=\"%d\"/>\r\n".toList ++
  "<abstime name=\"start\" val=\"%s\"/>\r\n".toList ++
  "<abstime name=\"end\" val=\"%s\"/>\r\n".toList ++
  "<list name=\"data\" of=\"obix:HistoryRecord\">\r\n".toList

/-- The header of a HistoryQueryOut contract as `sprintf` prints it. -/
def QueryOut.header (out : QueryOut) : Text :=
  sprintf histQueryOutPrefix [showInt out.count, out.start, out.fin]

/-- Number of bytes that `sprintf` writes for the header, with the terminator. -/
def QueryOut.headerWritten (out : QueryOut) : Nat := out.header.length + 1

/-- Number of bytes allocated for the header. -/
def headerAllocated : Nat :=
  histQueryOutPrefix.length + histFltValMaxBits + histRecTsMaxLen * 2 - 6 + 1

/-- The header has room for a number of records and two bounds. -/
def HeaderRoom (count : Nat) (start fin : Text) : Prop :=
  start.length + fin.length ≤ 48 ∧ count < 10 ^ (49 - (start.length + fin.length))

instance (count : Nat) (start fin : Text) : Decidable (HeaderRoom count start fin) :=
  inferInstanceAs (Decidable (_ ∧ _))

/-- The header is the first response item of the answer. -/
theorem head_responseItems (out : QueryOut) : out.responseItems.head? = some out.header := by
  have hformat : histQueryOutPrefix =
      "<obj is=\"obix:HistoryQueryOut\">\r\n<int name=\"count\" val=\"".toList ++ '%' :: 'd' ::
        ("\"/>\r\n<abstime name=\"start\" val=\"".toList ++ '%' :: 's' ::
          ("\"/>\r\n<abstime name=\"end\" val=\"".toList ++ '%' :: 's' ::
            ("\"/>\r\n<list name=\"data\" of=\"obix:HistoryRecord\">\r\n".toList ++ []))) := by
    decide +kernel
  rw [QueryOut.header, hformat, sprintf_append (by decide +kernel), sprintf_decimal,
    sprintf_append (by decide +kernel), sprintf_string, sprintf_append (by decide +kernel),
    sprintf_string, sprintf_append (by decide +kernel)]
  simp only [QueryOut.responseItems, sprintf, List.append_assoc, List.append_nil,
    List.singleton_append]
  rfl

theorem length_header (out : QueryOut) :
    out.header.length + 6 = histQueryOutPrefix.length +
      ((showInt out.count).length + out.start.length + out.fin.length) := by
  have hconv : conversions histQueryOutPrefix = 3 := by decide +kernel
  have h := @length_sprintf histQueryOutPrefix [showInt out.count, out.start, out.fin] hconv
  simp only [List.length_cons, List.length_nil, List.map_cons, List.map_nil, List.sum_cons,
    List.sum_nil] at h
  unfold QueryOut.header
  omega

/-- What the header has room for. -/
theorem headerWritten_le_iff
    {out : QueryOut} {n : Nat}
    (hcount : out.count = n) :
    out.headerWritten ≤ headerAllocated ↔ HeaderRoom n out.start out.fin := by
  have hlen := length_header out
  have hlong : 6 ≤ histQueryOutPrefix.length := by decide +kernel
  have hroom : out.headerWritten ≤ headerAllocated ↔
      (showInt n).length + (out.start.length + out.fin.length) ≤ 49 := by
    rw [← hcount]
    unfold QueryOut.headerWritten headerAllocated histFltValMaxBits histRecTsMaxLen
    omega
  rw [hroom]
  unfold HeaderRoom
  by_cases hbounds : out.start.length + out.fin.length ≤ 48
  · rw [← length_showInt_le_iff (by omega)]
    omega
  · have hpos : 0 < (showInt n).length := by
      rw [showInt_natCast]
      exact Nat.length_toDigits_pos
    omega

/-- The static buffers of `parse_log` hold what fits into them. -/
structure Terminated (st : ParseStatics) : Prop where
  val : st.val.length ≤ histRecTsMaxLen
  valPrev : st.valPrev.length ≤ histRecTsMaxLen
  logStart : st.logStart.length ≤ histRecTsMaxLen

section Scanning

variable {ρ : Type} {e : ρ} {args : ParseArgs} {loc : ParseLocal} {st : ParseStatics}

/-- `parse_log` returns no more than it was asked for, and timestamps that fit into
its buffers. -/
structure Within (args : ParseArgs) (res : ParseResult) : Prop where
  count : (res.count : Int) ≤ args.limit
  startTs : ∀ ts ∈ res.startTs, ts.length ≤ histRecTsMaxLen
  endTs : res.endTs.length ≤ histRecTsMaxLen

theorem Terminated.copied
    {v : Text}
    (h : Terminated st)
    (hv : v.length ≤ histRecTsMaxLen) :
    Terminated (st.copied v) :=
  ⟨hv, h.val, h.logStart⟩

theorem Terminated.finish
    {res : ParseResult}
    (h : Terminated st)
    (hr : (loc.r : Int) ≤ args.limit)
    (hres : ((parseFinish args loc).run e st).1 = .ok res) :
    Within args res := by
  simp only [parseFinish, Resumption.run_step, Resumption.run_ret, ParseOutcome.ok.injEq] at hres
  subst hres
  constructor
  · exact hr
  · intro ts hts
    dsimp only at hts
    split at hts
    · obtain rfl := Option.some.inj hts
      exact h.logStart
    · cases hts
  · dsimp only
    split
    · exact h.valPrev
    · exact h.val

/-- A round of the record loop that ends well keeps to the limit and to the size of
the buffers. -/
theorem parseRound_within
    (h : Terminated st)
    (hr : (loc.r : Int) < args.limit) :
    ((parseRound args loc st).1 = .done → Terminated (parseRound args loc st).2) ∧
    (∀ loc', (parseRound args loc st).1 = .next loc' →
      Terminated (parseRound args loc st).2 ∧ (loc'.r : Int) < args.limit) ∧
    ∀ loc', (parseRound args loc st).1 = .stop loc' →
      Terminated (parseRound args loc st).2 ∧ (loc'.r : Int) ≤ args.limit := by
  rcases parseRound_cases args loc with ⟨-, hround⟩ | hround | hround |
    ⟨v, q, hv, hround | hround | ⟨p, hround⟩⟩
  · rw [hround]
    exact ⟨fun _ => h, by simp, by simp⟩
  · simp [hround]
  · simp [hround]
  · rw [hround]
    refine ⟨by simp, ?_, by simp⟩
    rintro _ ⟨⟩
    exact ⟨h.copied hv, hr⟩
  · rw [hround]
    refine ⟨by simp, by simp, ?_⟩
    rintro _ ⟨⟩
    exact ⟨h.copied hv, le_of_lt hr⟩
  · have hst : Terminated (if loc.isStartSet = false ∧ args.wantStart = true then
        { st.copied v with logStart := v } else st.copied v) := by
      split
      · exact ⟨hv, h.val, hv⟩
      · exact h.copied hv
    have htaken : (takeRecord args p q loc).r = loc.r + 1 := rfl
    rw [hround]
    by_cases hlim : ((takeRecord args p q loc).r : Int) = args.limit
    · simp only [if_pos hlim]
      refine ⟨by simp, by simp, ?_⟩
      rintro _ ⟨⟩
      exact ⟨hst, le_of_eq hlim⟩
    · simp only [if_neg hlim]
      refine ⟨by simp, ?_, by simp⟩
      rintro _ ⟨⟩
      exact ⟨hst, by omega⟩

theorem parseLoop_within
    {res : ParseResult}
    (fuel : Nat)
    (h : Terminated st)
    (hr : (loc.r : Int) < args.limit)
    (hres : ((parseLoop fuel args loc).run e st).1 = .ok res) :
    Within args res := by
  induction fuel generalizing loc st with
  | zero => cases hres
  | succ fuel ih =>
      obtain ⟨hdone, hnext, hstop⟩ := parseRound_within h hr
      simp only [parseLoop, Resumption.run_step] at hres
      cases hround : (parseRound args loc st).1 with
      | done =>
          rw [hround] at hres
          exact (hdone hround).finish (le_of_lt hr) hres
      | next loc' =>
          obtain ⟨hst, hr'⟩ := hnext loc' hround
          rw [hround] at hres
          exact ih hst hr' hres
      | stop loc' =>
          obtain ⟨hst, hr'⟩ := hstop loc' hround
          rw [hround] at hres
          exact hst.finish hr' hres
      | failed =>
          rw [hround] at hres
          cases hres
      | overflow =>
          rw [hround] at hres
          cases hres

/-- Whatever `parse_log` is given, it keeps to the limit and to the size of its buffers. -/
theorem parseLog_within
    {data : Text} {res : ParseResult}
    (h : Terminated st)
    (hlimit : 0 < args.limit)
    (hres : ((parseLog args data).run e st).1 = .ok res) :
    Within args res := by
  have hr : ((parseStart data).r : Int) < args.limit := by simpa [parseStart] using hlimit
  exact parseLoop_within _ h hr hres

end Scanning

section Bounding

variable {dump : Xml → Text} {dev : HistDev} {input : Xml} {budget : Int} {qs : QueryState}
variable {out : QueryOut}

/-- The variables of the query have texts of the size of a timestamp in UTC and count
down from a budget. -/
structure Frugal (budget : Int) (qs : QueryState) : Prop where
  start : qs.start.length ≤ histRecTsMaxLen
  fin : qs.fin.length ≤ histRecTsMaxLen
  startTs : ∀ ts ∈ qs.startTs, ts.length ≤ histRecTsMaxLen
  endTs : ∀ ts ∈ qs.endTs, ts.length ≤ histRecTsMaxLen
  read : 0 ≤ qs.r
  left : 0 ≤ qs.n
  total : qs.r + qs.n ≤ budget

/-- What is printed into the header has the size that the buffer is made for. -/
structure Narrow (budget : Int) (out : QueryOut) : Prop where
  start : out.start.length ≤ histRecTsMaxLen
  fin : out.fin.length ≤ histRecTsMaxLen
  count : 0 ≤ out.count ∧ out.count ≤ budget

theorem frugal_queryInit
    {start fin : Text} {n : Int}
    (hstart : start.length ≤ histRecTsMaxLen)
    (hfin : fin.length ≤ histRecTsMaxLen)
    (hn : 0 ≤ n ∧ n ≤ budget) :
    Frugal budget (queryInit start fin n) where
  start := hstart
  fin := hfin
  startTs := by simp [queryInit]
  endTs := by simp [queryInit]
  read := le_refl _
  left := hn.1
  total := by simpa [queryInit] using hn.2

theorem Frugal.finish
    (h : Frugal budget qs)
    (hout : queryFinish qs = .out out) :
    Narrow budget out := by
  obtain rfl := QueryReply.out.inj hout
  have hleft := h.left
  have htotal := h.total
  constructor
  · dsimp only
    cases hts : qs.startTs with
    | none => exact h.start
    | some ts => exact h.startTs ts hts
  · dsimp only
    cases hts : qs.endTs with
    | none => exact h.fin
    | some ts => exact h.endTs ts hts
  · exact ⟨h.read, by dsimp only; omega⟩

/-- A response item leaves the variables within their bounds. -/
theorem Frugal.item
    {data : Text} {count : Int} {startTs : Option Text} {endTs : Text} {qs' : QueryState}
    (h : Frugal budget qs)
    (hcount : 0 ≤ count ∧ count ≤ qs.n)
    (hstart : ∀ ts ∈ startTs, ts.length ≤ histRecTsMaxLen)
    (hend : endTs.length ≤ histRecTsMaxLen)
    (hitem : queryItem qs data count startTs endTs = some qs') :
    Frugal budget qs' := by
  unfold queryItem at hitem
  split at hitem
  · cases hitem
  · obtain rfl := Option.some.inj hitem
    have hread := h.read
    have htotal := h.total
    constructor
    · exact h.start
    · exact h.fin
    · intro ts hts
      dsimp only at hts
      cases hqs : qs.startTs with
      | none => exact hstart ts (by simpa [hqs] using hts)
      | some ts' => exact h.startTs ts (by simpa [hqs] using hts)
    · intro ts hts
      obtain rfl := Option.some.inj hts
      exact hend
    · dsimp only
      omega
    · dsimp only
      omega
    · dsimp only
      omega

theorem queryNext_narrow
    {next : QueryState → Resumption HistDev ParseStatics QueryReply}
    {item : Option QueryState} {st : ParseStatics}
    (hnext : ∀ qs', Frugal budget qs' → 0 < qs'.n →
      ∀ out, ((next qs').run dev st).1 = .out out → Narrow budget out)
    (hitem : ∀ qs', item = some qs' → Frugal budget qs')
    (hout : ((queryNext next item).run dev st).1 = .out out) :
    Narrow budget out := by
  cases item with
  | none => cases hout
  | some qs' =>
      have hqs := hitem qs' rfl
      have hleft := hqs.left
      simp only [queryNext] at hout
      split at hout
      · exact hqs.finish hout
      · exact hnext qs' hqs (by omega) out hout

/-- The fragments have timestamps of the size of one in UTC. -/
def ShortStamps (dev : HistDev) : Prop :=
  ∀ f ∈ dev.files,
    f.abstract.start.length ≤ histRecTsMaxLen ∧ f.abstract.fin.length ≤ histRecTsMaxLen

theorem count_le_of_whole
    {f : HistFile}
    (h : queryFile dump qs f = .whole) :
    f.abstract.count ≤ qs.n := by
  unfold queryFile at h
  dsimp only at h
  split at h
  · cases h
  · cases h
  · cases h
  · split at h
    · cases h
    · split at h
      · split at h
        · assumption
        · cases h
      · cases h

theorem limit_of_parse
    {f : HistFile} {args : ParseArgs}
    (h : queryFile dump qs f = .parse args) :
    args.limit = qs.n := by
  unfold queryFile at h
  dsimp only at h
  split at h
  · cases h
  · cases h
  · cases h
  · split at h
    · cases h
    · split at h
      · split at h
        · cases h
        · obtain rfl := FileStep.parse.inj h
          rfl
      · obtain rfl := FileStep.parse.inj h
        rfl

/-- Whatever the log files contain, the loop over the fragments stays within the
bounds. -/
theorem queryFiles_narrow
    (inv : StoreInv dev)
    (hshort : ShortStamps dev)
    (left : Nat)
    (i : Nat)
    (h : Frugal budget qs)
    (hn : 0 < qs.n)
    (st : ParseStatics)
    (hout : ((queryFiles dump left qs i).run dev st).1 = .out out) :
    Narrow budget out := by
  induction left generalizing qs i st out with
  | zero => exact h.finish hout
  | succ left ih =>
      -- the reply does not depend on the buffers
      rw [queryFiles_same dump dev (left + 1) qs i st ⟨[], [], []⟩] at hout
      simp only [queryFiles, Resumption.run_step] at hout
      cases hidx : dev.files[i]? with
      | none =>
          rw [hidx] at hout
          exact h.finish hout
      | some f =>
          rw [hidx] at hout
          dsimp only at hout
          have hf : f ∈ dev.files := List.mem_of_getElem? hidx
          have hnext : ∀ st qs', Frugal budget qs' → 0 < qs'.n → ∀ out,
              ((queryFiles dump left qs' (i + 1)).run dev st).1 = .out out → Narrow budget out :=
            fun st qs' hqs hpos out hout => ih (i + 1) hqs hpos st hout
          cases hstep : queryFile dump qs f with
          | skip =>
              rw [hstep] at hout
              exact ih (i + 1) h hn _ hout
          | finish =>
              rw [hstep] at hout
              exact h.finish hout
          | fail code =>
              rw [hstep] at hout
              cases hout
          | whole =>
              rw [hstep] at hout
              obtain ⟨hstart, hfin⟩ := hshort f hf
              have hcount : 0 ≤ f.abstract.count ∧ f.abstract.count ≤ qs.n := by
                refine ⟨?_, count_le_of_whole hstep⟩
                rw [(inv.file f hf).count_eq]
                omega
              refine queryNext_narrow (hnext _) (fun qs' => h.item hcount ?_ hfin) hout
              intro ts hts
              obtain rfl := Option.some.inj hts
              exact hstart
          | parse args =>
              rw [hstep] at hout
              rw [Resumption.run_bind] at hout
              have hterm : Terminated ⟨[], [], []⟩ := ⟨by simp, by simp, by simp⟩
              have hlimit := limit_of_parse hstep
              cases hlog : (parseLog args (f.content dump)).run dev ⟨[], [], []⟩ with
              | mk o st' =>
                  rw [hlog] at hout
                  cases o with
                  | failed => cases hout
                  | overflow => cases hout
                  | ok res =>
                      have hwithin : Within args res :=
                        parseLog_within hterm (by rwa [hlimit]) (by rw [hlog])
                      refine queryNext_narrow (hnext _) (fun qs' => h.item ?_ hwithin.startTs
                        hwithin.endTs) hout
                      have hle := hwithin.count
                      rw [hlimit] at hle
                      exact ⟨by omega, hle⟩

/-- The bounds that are printed without records, the stored timestamps and the number
of records have the sizes that the buffer is made for. -/
structure Moderate (dev : HistDev) (input : Xml) (oldest latest : Text) : Prop where
  start : (emptyBounds input oldest latest).1.length ≤ histRecTsMaxLen
  fin : (emptyBounds input oldest latest).2.length ≤ histRecTsMaxLen
  stamps : ShortStamps dev
  count : dev.count < 10 ^ histFltValMaxBits

theorem queryBudget_bounds
    (inv : StoreInv dev)
    (input : Xml) :
    0 ≤ queryBudget dev input ∧ queryBudget dev input ≤ dev.count := by
  have hcount := inv.count_eq_length
  unfold queryBudget
  split
  · omega
  · omega

/-- Whatever the log files contain, the answer stays within the bounds. -/
theorem histQueryCore_narrow
    {first last : HistFile}
    (inv : StoreInv dev)
    (hfirst : dev.files.head? = some first)
    (hlast : dev.files.getLast? = some last)
    (h : Moderate dev input first.abstract.start last.abstract.fin)
    (st : ParseStatics)
    (hout : ((histQueryCore dump input).run dev st).1 = .out out) :
    Narrow dev.count out := by
  have hstart := h.start
  have hfin := h.fin
  obtain ⟨hnonneg, hbudget⟩ := queryBudget_bounds inv input
  simp only [histQueryCore, Resumption.run_step, queryOpen, hfirst, hlast] at hout
  by_cases hlimit : limitOf input = 0
  · rw [if_pos hlimit] at hout
    simp only [emptyBounds, if_pos hlimit] at hstart hfin
    exact (frugal_queryInit hstart hfin ⟨le_refl _, hnonneg.trans hbudget⟩).finish hout
  · rw [if_neg hlimit] at hout
    simp only [emptyBounds, if_neg hlimit] at hstart hfin
    cases hcommon : timestampHasCommon ((startOf input).getD first.abstract.start)
        ((endOf input).getD last.abstract.fin) first.abstract.start last.abstract.fin with
    | error =>
        rw [hcommon] at hout
        cases hout
    | startAfter =>
        rw [hcommon] at hout hstart hfin
        exact (frugal_queryInit hstart hfin ⟨hnonneg, hbudget⟩).finish hout
    | endBefore =>
        rw [hcommon] at hout hstart hfin
        exact (frugal_queryInit hstart hfin ⟨hnonneg, hbudget⟩).finish hout
    | common =>
        obtain ⟨hs, hf, ho, hl⟩ := nonneg_of_hasCommon_common hcommon
        rw [hcommon] at hout hstart hfin
        rw [timestampFindCommon_eq hs hf ho hl] at hout
        have hne : dev.files ≠ [] := by
          intro hnil
          simp [hnil] at hfirst
        exact queryFiles_narrow inv h.stamps _ _
          (frugal_queryInit hstart hfin ⟨hnonneg, hbudget⟩)
          (queryBudget_pos inv hne hlimit) st hout

theorem Narrow.headerWritten_le
    (h : Narrow budget out)
    (hbudget : budget < 10 ^ histFltValMaxBits) :
    out.headerWritten ≤ headerAllocated := by
  obtain ⟨hnonneg, hle⟩ := h.count
  obtain ⟨n, hn⟩ := Int.eq_ofNat_of_zero_le hnonneg
  have hstart := h.start
  have hfin := h.fin
  unfold histRecTsMaxLen at hstart hfin
  have hpow : (10 : Nat) ^ histFltValMaxBits ≤ 10 ^ (49 - (out.start.length + out.fin.length)) :=
    Nat.pow_le_pow_right (by omega) (by unfold histFltValMaxBits; omega)
  rw [headerWritten_le_iff hn]
  refine ⟨by omega, ?_⟩
  have hlt : n < 10 ^ histFltValMaxBits := by
    have := lt_of_le_of_lt hle hbudget
    rw [hn] at this
    exact_mod_cast this
  omega

/-- The header has room for the answer to a filter. -/
def FilterRoom (dev : HistDev) (input : Xml) (oldest latest : Text) : Prop :=
  let sel := limited input (dev.records.filter (Matches input ·))
  let bounds := emptyBounds input oldest latest
  HeaderRoom sel.length ((sel.head?.bind recordTs).getD bounds.1)
    ((sel.getLast?.bind recordTs).getD bounds.2)

instance (dev : HistDev) (input : Xml) (oldest latest : Text) :
    Decidable (FilterRoom dev input oldest latest) :=
  inferInstanceAs (Decidable (HeaderRoom _ _ _))

theorem Completes.headerWritten_le_iff
    {oldest latest : Text}
    (h : Completes dump dev input oldest latest qs)
    (hout : queryFinish qs = .out out) :
    out.headerWritten ≤ headerAllocated ↔ FilterRoom dev input oldest latest := by
  have hat := h.collected
  obtain ⟨hstart, hfin⟩ := Prod.ext_iff.mp h.bounds
  dsimp only at hstart hfin
  obtain rfl := QueryReply.out.inj hout
  rw [History.headerWritten_le_iff hat.count]
  unfold FilterRoom
  dsimp only
  rw [hat.startTs, hat.endTs, hstart, hfin]

/-- The header of an answer fits into its buffer exactly if there is room for the
number of matching records and for the timestamps of the first and the last of them,
or, if there are none, for the range: of a record of the facility, of the filter or
unspecified.  If the range has something in common with the facility, this holds of
the records that `parse_log` recognises; sizes that the buffer is made for fit
whatever the records are. -/
theorem header_fits_iff
    {first last : HistFile} {st : ParseStatics}
    (inv : StoreInv dev)
    (hfirst : dev.files.head? = some first)
    (hlast : dev.files.getLast? = some last)
    (hout : ((histQueryCore dump input).run dev st).1 = .out out) :
    ((Searches input first.abstract.start last.abstract.fin →
        ∀ r ∈ dev.records, Legible dump r) →
      (out.headerWritten ≤ headerAllocated ↔
        FilterRoom dev input first.abstract.start last.abstract.fin)) ∧
    (Moderate dev input first.abstract.start last.abstract.fin →
      out.headerWritten ≤ headerAllocated) := by
  refine ⟨?_, ?_⟩
  · intro hlegible
    rcases histQueryCore_outcomes inv hfirst hlast hlegible st with
      ⟨qs, hrun, hdone⟩ | ⟨herr, -⟩ | ⟨herr, -⟩ | ⟨hundef, -⟩
    · exact hdone.headerWritten_le_iff (hrun.symm.trans hout)
    · rw [herr] at hout
      cases hout
    · rw [herr] at hout
      cases hout
    · rw [hundef] at hout
      cases hout
  · intro hmoderate
    exact (histQueryCore_narrow inv hfirst hlast hmoderate st hout).headerWritten_le
      hmoderate.count

end Bounding

section Instances

/-- The query for both records of the day has a header that fits. -/
theorem header_fits_iff_day :
    ∃ out, ((histQueryCore xmlDumpNode dayFilter).run dayDev ⟨[], [], []⟩).1 = .out out ∧
      out.headerWritten ≤ headerAllocated := by
  have hout : ((histQueryCore xmlDumpNode dayFilter).run dayDev ⟨[], [], []⟩).1 =
      .out
        { count := 2
          start := "2014-04-25T15:43:50Z".toList
          fin := "2014-04-25T15:44:10Z".toList
          data := [logText xmlDumpNode dayDev.records] } := by
    decide +kernel
  have hlegible : ∀ r ∈ dayDev.records, Legible xmlDumpNode r :=
    fun r hr => .inl (canonical_dayDev r hr).scannable
  exact ⟨_, hout, ((header_fits_iff storeInv_dayDev rfl rfl hout).1 fun _ => hlegible).mpr
    (by decide +kernel)⟩

/-- A filter for no records at all, with a start that has a fraction and an offset. -/
def boundsFilter : Xml :=
  .element none "obj".toList [("is".toList, "obix:HistoryFilter".toList)]
    [.element none objInt [(attrName, filterLimit), (attrVal, "0".toList)] [],
      .element none objAbstime
        [(attrName, filterStart), (attrVal, "2014-04-25T15:43:50.000000+08:00".toList)] []]

/-- The start that a client has sent is too long for the header. -/
theorem header_too_long :
    ¬ ∀ (dev : HistDev) (input : Xml) (st : ParseStatics) (out : QueryOut), StoreInv dev →
      ((histQueryCore xmlDumpNode input).run dev st).1 = .out out →
      out.headerWritten ≤ headerAllocated := by
  intro hall
  have hfits := hall dayDev boundsFilter ⟨[], [], []⟩
    { count := 0
      start := "2014-04-25T15:43:50.000000+08:00".toList
      fin := "2014-04-25T15:44:10Z".toList
      data := [] } storeInv_dayDev (by decide +kernel)
  revert hfits
  decide +kernel

end Instances

end History
end Obix
