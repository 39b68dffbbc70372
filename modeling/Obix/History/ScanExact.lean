import Obix.History.QueryAnswer

/-!
# When the scanner sees what was appended

Append looks for the timestamp of a record in the DOM, the scanner of a query
looks for byte strings in the serialised record.  `parseVisits` lists what the
record loop of `parse_log` visits, `recordVisits` what it should visit: one
visit for each record, with the timestamp append has compared.  The two agree
for all arguments of `parse_log` exactly if every record is recognised.
-/

namespace Obix
namespace History

open CString

/-- A round of the record loop: the offset of the start markup, the timestamp, and
the offset behind the record if it was taken. -/
structure Visit where
  start : Nat
  ts : Text
  fin : Option Nat
  deriving DecidableEq, Repr

def visitOf (loc loc' : ParseLocal) (st' : ParseStatics) : Visit :=
  { start := (strstr loc.buf loc.n recordStart).getD 0
    ts := st'.val
    fin := if loc'.r = loc.r then none else some loc'.n }

/-- The visits of the record loop; `none` if it fails. -/
def parseVisits (args : ParseArgs) : Nat → ParseLocal → ParseStatics → Option (List Visit)
  | 0, _, _ => none
  | fuel + 1, loc, st =>
      match parseRound args loc st with
      | (.done, _) => some []
      | (.next loc', st') => (parseVisits args fuel loc' st').map (visitOf loc loc' st' :: ·)
      | (.stop loc', st') => some [visitOf loc loc' st']
      | (.failed, _) => none
      | (.overflow, _) => none

/-- The visits that a list of records deserves: `off` is the offset of the first of
them and `r` the number of records taken before. -/
def recordVisits (dump : Xml → Text) (args : ParseArgs) : Nat → Nat → List Xml → List Visit
  | _, _, [] => []
  | off, r, record :: records =>
      let ts := (recordTs record).getD []
      let next := off + (recordText dump record).length
      match parseVerdict args.range ts with
      | .error | .endBefore =>
          { start := off, ts := ts, fin := none } :: recordVisits dump args next r records
      | .startAfter => [{ start := off, ts := ts, fin := none }]
      | .common =>
          { start := off, ts := ts, fin := some next } ::
            if ((r + 1 : Nat) : Int) = args.limit then []
            else recordVisits dump args next (r + 1) records

/-- The scanner takes every record of a fragment for exactly one record with its own
timestamp, whatever range and limit are asked for. -/
def ScansRecords (dump : Xml → Text) (f : HistFile) : Prop :=
  ∀ args st,
    parseVisits args ((f.content dump).length + 1) (parseStart (f.content dump)) st =
      some (recordVisits dump args 0 0 f.records)

/-- Scanning the whole fragment returns the whole fragment. -/
def ScansWhole (dump : Xml → Text) (f : HistFile) : Prop :=
  ∀ (args : ParseArgs) (st : ParseStatics) (env : HistDev),
    args.range = none → f.abstract.count ≤ args.limit →
    ∃ res st', (parseLog args (f.content dump)).run env st = (.ok res, st') ∧
      res.data = f.content dump ∧ res.count = f.abstract.count

section Visits

variable {dump : Xml → Text} {args : ParseArgs} {rest : List Xml} {record : Xml}
variable {loc : ParseLocal} {st : ParseStatics} {off fuel : Nat}

theorem visitOf_take
    {n : Nat} {st' : ParseStatics}
    (hstart : strstr loc.buf loc.n recordStart = some off) :
    visitOf loc (takeRecord args off n loc) st' =
      { start := off, ts := st'.val, fin := some n } := by
  simp [visitOf, hstart, takeRecord]

theorem visitOf_skip
    {n : Nat} {st' : ParseStatics}
    (hstart : strstr loc.buf loc.n recordStart = some off) :
    visitOf loc { loc with n := n } st' = { start := off, ts := st'.val, fin := none } := by
  simp [visitOf, hstart]

/-- Recognised records are visited one by one. -/
theorem parseVisits_recognised
    (hscan : ∀ r ∈ rest, Scannable dump r)
    (hfuel : rest.length < fuel)
    (h : ScanAt dump off rest loc) :
    parseVisits args fuel loc st = some (recordVisits dump args off loc.r rest) := by
  induction rest generalizing loc st off fuel with
  | nil =>
      obtain ⟨fuel, rfl⟩ : ∃ k, fuel = k + 1 := ⟨fuel - 1, by omega⟩
      obtain ⟨⟨skip, hquiet, -, hdrop⟩, -, -⟩ := h
      rw [logText_nil, List.append_nil] at hdrop
      rw [← hdrop] at hquiet
      simp only [parseVisits, parseRound_done hquiet, recordVisits]
  | cons record rest ih =>
      obtain ⟨fuel, rfl⟩ : ∃ k, fuel = k + 1 := ⟨fuel - 1, by omega⟩
      obtain ⟨ts, hts, hrec⟩ := hscan record (by simp)
      obtain ⟨v, q, e, hround, he, hw, hoff, hdrop, hskip⟩ := h.scanned hrec
      have hscan' : ∀ r ∈ rest, Scannable dump r := fun r hr => hscan r (by simp [hr])
      have hfuel' : rest.length < fuel := by simpa using hfuel
      have htake := ScanAt.take args hw hoff hdrop
      have hr : (takeRecord args off (off + (recordText dump record).length) loc).r = loc.r + 1 :=
        rfl
      simp only [parseVisits, hround.parseRound_eq, parseRecord, recordVisits, hts, Option.getD_some]
      cases hverdict : parseVerdict args.range ts with
      | error =>
          simp only
          rw [ih hscan' hfuel' hskip, visitOf_skip hround.start]
          rfl
      | endBefore =>
          simp only
          rw [ih hscan' hfuel' hskip, visitOf_skip hround.start]
          rfl
      | startAfter => simp [visitOf, hround.start]
      | common =>
          have hval : (if loc.isStartSet = false ∧ args.wantStart = true then
              ({ valPrev := st.val, val := ts, logStart := ts } : ParseStatics)
              else { st with valPrev := st.val, val := ts }).val = ts := by
            split
            · rfl
            · rfl
          simp only [hround.fin, he, hr]
          by_cases hlimit : ((loc.r + 1 : Nat) : Int) = args.limit
          · simp only [if_pos hlimit, visitOf_take hround.start, hval]
          · simp only [if_neg hlimit, visitOf_take hround.start, hval]
            rw [ih hscan' hfuel' htake, hr]
            rfl

theorem strstr_eq_some
    {buf needle : Text} {n k : Nat}
    (h : strstr buf n needle = some k) :
    ∃ i, find needle (buf.drop n) = some i ∧ k = n + i := by
  obtain ⟨i, hi, rfl⟩ := Option.map_eq_some_iff.mp h
  exact ⟨i, hi, rfl⟩

/-- Offsets found by the scanner delimit the record. -/
theorem delimited_of_offsets
    {buf text ts tail : Text} {t q e : Nat}
    (hdrop : buf.drop off = text ++ tail)
    (hnewline : ∃ s, text = s ++ ['\n'])
    (hstart : strstr buf off recordStart = some off)
    (hstamp : strstr buf off tsValStart = some t)
    (hquote : strstr buf (t + tsValStart.length) tsValEnd = some q)
    (hshort : q - (t + tsValStart.length) ≤ histRecTsMaxLen)
    (hvalue : (buf.drop (t + tsValStart.length)).take (q - (t + tsValStart.length)) = ts)
    (hend : strstr buf q recordEnd = some e)
    (hlen : e + recordEnd.length = off + text.length) :
    Delimited text ts (q - off) := by
  obtain ⟨i₀, hstartAt, hi₀⟩ := strstr_eq_some hstart
  obtain ⟨j, hstampAt, rfl⟩ := strstr_eq_some hstamp
  obtain ⟨k, hquoteAt, rfl⟩ := strstr_eq_some hquote
  obtain ⟨i, hendAt, rfl⟩ := strstr_eq_some hend
  have hk : off + j + tsValStart.length + k - (off + j + tsValStart.length) = k := by omega
  have hposEnd : 0 < recordEnd.length := by decide
  have hlenEnd : tsValEnd.length = 1 := by decide
  rw [hk] at hshort hvalue
  rw [hdrop] at hstartAt hstampAt
  -- everything the scanner found lies in the record
  have hv : buf.drop (off + j + tsValStart.length) = text.drop (j + tsValStart.length) ++ tail := by
    rw [Nat.add_assoc]
    exact drop_of_drop_eq_append hdrop _ (by omega)
  have hq : buf.drop (off + j + tsValStart.length + k) =
      text.drop (j + tsValStart.length + k) ++ tail := by
    have hassoc : off + j + tsValStart.length + k = off + (j + tsValStart.length + k) := by omega
    rw [hassoc]
    exact drop_of_drop_eq_append hdrop _ (by omega)
  rw [hv] at hquoteAt hvalue
  rw [hq] at hendAt
  rw [List.take_append_of_le_length (by rw [List.length_drop]; omega)] at hvalue
  have hts : ts.length = k := by
    rw [← hvalue, List.length_take, List.length_drop]
    omega
  have hoff : off + j + tsValStart.length + k - off = j + tsValStart.length + k := by omega
  rw [hoff]
  refine ⟨?_, by omega, j, i, by omega, ?_, ?_, ?_, ?_, by omega⟩
  · obtain ⟨s, rfl⟩ := hnewline
    have hzero : i₀ = 0 := by omega
    subst hzero
    have hp := prefix_drop_of_find hstartAt
    rw [List.append_assoc, List.singleton_append] at hp
    have hp' := prefix_drop_of_sep (by decide) (Nat.zero_le _) hp
    exact List.prefix_append_of_prefix hp'
  · exact find_of_append hstampAt (by omega)
  · rw [hts]
    exact find_of_append hquoteAt (by rw [List.length_drop]; omega)
  · rw [hts]
    exact hvalue
  · exact find_of_append hendAt (by rw [List.length_drop]; omega)

/-- A range with which no timestamp can be compared. -/
def noRange : ParseArgs := { range := some ([], []), limit := 0, wantStart := false }

/-- All records, without any limit. -/
def allRecords : ParseArgs := { range := none, limit := 0, wantStart := false }

theorem recordText_newline (record : Xml) :
    ∃ s, recordText dump record = s ++ ['\n'] :=
  ⟨dump record ++ ['\r'], by simp [recordText, histRecordSeparator]⟩

/-- A round over all records either takes a record or ends the loop. -/
theorem parseRound_allRecords
    {visits : List Visit} {visit : Visit}
    (h : parseVisits allRecords (fuel + 1) loc st = some (visit :: visits)) :
    ∃ p t q e st',
      strstr loc.buf loc.n recordStart = some p ∧
      strstr loc.buf p tsValStart = some t ∧
      strstr loc.buf (t + tsValStart.length) tsValEnd = some q ∧
      q - (t + tsValStart.length) ≤ histRecTsMaxLen ∧
      (loc.buf.drop (t + tsValStart.length)).take (q - (t + tsValStart.length)) = visit.ts ∧
      strstr loc.buf q recordEnd = some e ∧
      visit.start = p ∧ visit.fin = some (e + recordEnd.length) ∧
      parseVisits allRecords fuel (takeRecord allRecords p (e + recordEnd.length) loc) st' =
        some visits := by
  rw [parseVisits] at h
  cases hp : strstr loc.buf loc.n recordStart with
  | none => simp [parseRound, hp] at h
  | some p =>
      cases ht : strstr loc.buf p tsValStart with
      | none => simp [parseRound, hp, ht] at h
      | some t =>
          cases hq : strstr loc.buf (t + tsValStart.length) tsValEnd with
          | none => simp [parseRound, hp, ht, hq] at h
          | some q =>
              by_cases hlong : histRecTsMaxLen < q - (t + tsValStart.length)
              · simp [parseRound, hp, ht, hq, hlong] at h
              · cases he : strstr loc.buf q recordEnd with
                | none => simp [parseRound, hp, ht, hq, hlong, parseRecord, parseVerdict,
                    allRecords, he] at h
                | some e =>
                    have hround : parseRound allRecords loc st =
                        (.next (takeRecord allRecords p (e + recordEnd.length) loc),
                          { st with
                            valPrev := st.val
                            val := (loc.buf.drop (t + tsValStart.length)).take
                              (q - (t + tsValStart.length)) }) := by
                      simp only [parseRound, hp, ht, hq, if_neg hlong, parseRecord]
                      have hne : ¬ ((loc.r : Int) + 1 = 0) := by omega
                      simp [parseVerdict, allRecords, he, takeRecord, hne]
                    rw [hround] at h
                    obtain ⟨visits', hrest, hcons⟩ := Option.map_eq_some_iff.mp h
                    obtain ⟨rfl, rfl⟩ := List.cons.inj hcons
                    rw [visitOf_take hp]
                    exact ⟨p, t, q, e, _, rfl, ht, hq, by omega, rfl, he, rfl, rfl, hrest⟩

/-- If all records are visited as they should be, each of them is delimited. -/
theorem delimited_of_visits
    (hstamped : ∀ r ∈ rest, ∃ ts, recordTs r = some ts)
    (hdrop : loc.buf.drop loc.n = logText dump rest)
    (hw : loc.w = loc.n)
    (h : parseVisits allRecords fuel loc st =
      some (recordVisits dump allRecords loc.n loc.r rest)) :
    ∀ r ∈ rest, ∃ ts q, recordTs r = some ts ∧ Delimited (recordText dump r) ts q := by
  induction rest generalizing loc st fuel with
  | nil => simp
  | cons record rest ih =>
      obtain ⟨ts, hts⟩ := hstamped record (by simp)
      cases fuel with
      | zero => simp [parseVisits] at h
      | succ fuel =>
          have hvisits : recordVisits dump allRecords loc.n loc.r (record :: rest) =
              { start := loc.n, ts := ts, fin := some (loc.n + (recordText dump record).length) } ::
                recordVisits dump allRecords (loc.n + (recordText dump record).length)
                  (loc.r + 1) rest := by
            have hne : ¬ ((loc.r : Int) + 1 = 0) := by omega
            simp [recordVisits, hts, parseVerdict, allRecords, hne]
          rw [hvisits] at h
          obtain ⟨p, t, q, e, st', hp, ht, hq, hshort, hvalue, he, hstart, hfin, hrest⟩ :=
            parseRound_allRecords h
          simp only at hstart hfin hvalue
          subst hstart
          have hlen : e + recordEnd.length = loc.n + (recordText dump record).length :=
            (Option.some.inj hfin).symm
          rw [logText_cons] at hdrop
          intro r hr
          rcases List.mem_cons.mp hr with rfl | hr
          · exact ⟨ts, q - loc.n, hts, delimited_of_offsets hdrop (recordText_newline r) hp ht hq
              hshort hvalue he hlen⟩
          · rw [hlen] at hrest
            refine ih (fun r hr => hstamped r (by simp [hr])) ?_ ?_ hrest r hr
            · simp only [takeRecord, hw, if_true]
              rw [← List.drop_drop, hdrop, List.drop_left]
            · simp [takeRecord, hw]

theorem parseVerdict_noRange (ts : Text) : parseVerdict noRange.range ts = .error := by
  have hneg : timestampToUtcTime ([] : Text) < 0 := by decide
  simp only [parseVerdict, noRange, timestampHasCommon]
  rw [timestampCompare_eq_none (.inr hneg)]

/-- The loop ends only where there is no further start markup. -/
theorem strstr_of_parseRound_done
    {st' : ParseStatics}
    (h : parseRound args loc st = (.done, st')) :
    strstr loc.buf loc.n recordStart = none := by
  have hdone : (parseRound args loc st).1 = .done := by rw [h]
  rcases parseRound_cases args loc with ⟨hnone, -⟩ | hround | hround |
    ⟨v, q, -, hround | hround | ⟨p, hround⟩⟩
  · exact hnone
  · rw [hround] at hdone
    cases hdone
  · rw [hround] at hdone
    cases hdone
  · rw [hround] at hdone
    cases hdone
  · rw [hround] at hdone
    cases hdone
  · rw [hround] at hdone
    dsimp only at hdone
    split at hdone
    · cases hdone
    · cases hdone

/-- A visit begins at the next start markup. -/
theorem strstr_of_visits
    {visits : List Visit}
    (h : parseVisits args fuel loc st = some visits) :
    strstr loc.buf loc.n recordStart = visits.head?.map Visit.start := by
  cases fuel with
  | zero => simp [parseVisits] at h
  | succ fuel =>
      rw [parseVisits] at h
      cases hround : parseRound args loc st with
      | mk round st' =>
          rw [hround] at h
          cases hp : strstr loc.buf loc.n recordStart with
          | none =>
              have hdone : round = .done := by
                simp only [parseRound, hp, Prod.mk.injEq] at hround
                exact hround.1.symm
              subst hdone
              rw [← Option.some.inj h]
              rfl
          | some p =>
              cases round with
              | done =>
                  rw [strstr_of_parseRound_done hround] at hp
                  cases hp
              | next loc' =>
                  obtain ⟨visits', -, rfl⟩ := Option.map_eq_some_iff.mp h
                  simp [visitOf, hp]
              | stop loc' =>
                  rw [← Option.some.inj h]
                  simp [visitOf, hp]
              | failed => cases h
              | overflow => cases h

/-- If delimited records are visited as they should be when all of them are skipped,
no record starts behind the timestamp of another one. -/
theorem quiet_of_visits
    {skip : Text}
    (hdel : ∀ r ∈ rest, ∃ ts q, recordTs r = some ts ∧ Delimited (recordText dump r) ts q)
    (hskip : skip = [] ∨ ∃ s, skip = s ++ ['\n'])
    (hdrop : loc.buf.drop loc.n = skip ++ logText dump rest)
    (h : parseVisits noRange fuel loc st =
      some (recordVisits dump noRange (loc.n + skip.length) loc.r rest)) :
    find recordStart skip = none ∧ ∀ r ∈ rest, Scannable dump r := by
  induction rest generalizing loc st fuel skip with
  | nil =>
      refine ⟨?_, by simp⟩
      have hend := strstr_of_visits h
      rw [logText_nil, List.append_nil] at hdrop
      rw [strstr, hdrop] at hend
      simpa [recordVisits] using hend
  | cons record rest ih =>
      obtain ⟨ts, q, hts, hrec⟩ := hdel record (by simp)
      rw [logText_cons] at hdrop
      have hvisits : recordVisits dump noRange (loc.n + skip.length) loc.r (record :: rest) =
          { start := loc.n + skip.length, ts := ts, fin := none } ::
            recordVisits dump noRange
              (loc.n + skip.length + (recordText dump record).length) loc.r rest := by
        simp [recordVisits, hts, parseVerdict_noRange]
      rw [hvisits] at h
      have hstart := strstr_of_visits h
      have hnone : find recordStart skip = none := by
        by_contra hne
        obtain ⟨i, hi⟩ := Option.ne_none_iff_exists'.mp hne
        have hle := find_add_length_le hi
        have hpos : 0 < recordStart.length := by decide
        obtain ⟨k, hk, hkeq⟩ := strstr_eq_some hstart
        rw [hdrop, find_append_of_some hi] at hk
        have hik : i = k := Option.some.inj hk
        simp only at hkeq
        omega
      obtain ⟨v, e, hscan, he, -, hqe, hqdrop⟩ := hrec.scanned ⟨hnone, hskip⟩ hdrop
      cases fuel with
      | zero => simp [parseVisits] at h
      | succ fuel =>
          simp only [parseVisits, hscan.parseRound_eq, parseRecord, parseVerdict_noRange] at h
          obtain ⟨visits', hrest, hcons⟩ := Option.map_eq_some_iff.mp h
          rw [(List.cons.inj hcons).2] at hrest
          have hposEnd : 0 < recordEnd.length := by decide
          have hoff : loc.n + skip.length + (recordText dump record).length =
              loc.n + skip.length + q + ((recordText dump record).drop q).length := by
            rw [List.length_drop]
            omega
          rw [hoff] at hrest
          obtain ⟨hquiet, hscan'⟩ :=
            ih (fun r hr => hdel r (by simp [hr])) (.inr hrec.tail_newline) hqdrop hrest
          refine ⟨hnone, ?_⟩
          intro r hr
          rcases List.mem_cons.mp hr with rfl | hr
          · exact ⟨ts, hts, q, hrec, hquiet⟩
          · exact hscan' r hr

end Visits

section Fragments

variable {dump : Xml → Text} {dev : HistDev} {f : HistFile}

theorem StoreInv.stamped
    (inv : StoreInv dev)
    {r : Xml}
    (hr : r ∈ dev.records) :
    ∃ ts, recordTs r = some ts := by
  have hpos := inv.positive r hr
  cases hts : recordTs r with
  | none => simp [recordTime, hts] at hpos
  | some ts => exact ⟨ts, rfl⟩

/-- The scanner sees the records of a fragment as they were appended exactly if each
of them is recognised with its own timestamp. -/
theorem scansRecords_iff
    (inv : StoreInv dev)
    (hf : f ∈ dev.files) :
    ScansRecords dump f ∧ ScansWhole dump f ↔ ∀ r ∈ f.records, Scannable dump r := by
  have hmem : ∀ r ∈ f.records, r ∈ dev.records := fun r hr => List.mem_flatMap.mpr ⟨f, hf, hr⟩
  have hcontent : f.content dump = logText dump f.records := rfl
  constructor
  · rintro ⟨hvisits, -⟩
    have hdel := delimited_of_visits (fun r hr => inv.stamped (hmem r hr)) rfl rfl
      (hvisits allRecords ⟨[], [], []⟩)
    exact (quiet_of_visits hdel (.inl rfl) rfl (hvisits noRange ⟨[], [], []⟩)).2
  · intro hscan
    refine ⟨?_, ?_⟩
    · intro args st
      rw [hcontent]
      exact parseVisits_recognised hscan (length_lt_logText f.records) scanAt_parseStart
    · intro args st env hrange hlimit
      have hinv := inv.file f hf
      have hcount := hinv.count_eq
      have hlen : 0 < f.records.length := List.length_pos_iff.mpr hinv.nonempty
      have hsorted : f.records.Pairwise fun r s => recordTime r < recordTime s := by
        obtain ⟨pre, post, hfiles⟩ := List.append_of_mem hf
        have htimes := inv.times
        rw [HistDev.records, hfiles, List.flatMap_append, List.flatMap_cons,
          List.pairwise_append, List.pairwise_append] at htimes
        exact htimes.2.1.1
      have hvalid : RangeValid args.range := by simp [RangeValid, hrange]
      have hpos : 0 < args.limit := by omega
      obtain ⟨res, st', hrun, hres⟩ := parseLog_run env st hvalid hscan
        (fun r hr => inv.positive r (hmem r hr)) hsorted hpos
      have hall : (f.records.filter (InRange args.range ·)).take args.limit.toNat = f.records := by
        have hfilter : f.records.filter (InRange args.range ·) = f.records := by
          simp [hrange, InRange]
        rw [hfilter, List.take_of_length_le (by omega)]
      rw [hall] at hres
      refine ⟨res, st', by rw [hcontent]; exact hrun, ?_, ?_⟩
      · rw [hres.data, hcontent]
      · rw [hres.count, hcount]

/-- The records of the day are scanned as they were appended. -/
theorem scansRecords_day :
    ∃ f, f ∈ dayDev.files ∧ ScansRecords xmlDumpNode f ∧ ScansWhole xmlDumpNode f := by
  obtain ⟨f, hf⟩ : ∃ f, f ∈ dayDev.files := ⟨_, List.mem_cons_self⟩
  refine ⟨f, hf, (scansRecords_iff storeInv_dayDev hf).mpr ?_⟩
  intro r hr
  exact (canonical_dayDev r (List.mem_flatMap.mpr ⟨f, hf, hr⟩)).scannable

/-- A record with an attribute before `is`. -/
def namedRecord : Xml :=
  .element none "obj".toList
    [("name".toList, "reading".toList), ("is".toList, "obix:HistoryRecord".toList)]
    [.element none objAbstime
      [(attrName, histRecTs), (attrVal, "2014-04-25T15:43:50Z".toList)] []]

/-- A record with an attribute before `is` is appended and not seen by the scanner. -/
theorem namedRecord_not_scanned :
    ∃ dev f, appendRun emptyDev [appendIn [namedRecord]] = some dev ∧ f ∈ dev.files ∧
      f.records = [namedRecord] ∧ ¬ (ScansRecords xmlDumpNode f ∧ ScansWhole xmlDumpNode f) := by
  obtain ⟨dev, ret, hcall, inv, hrecords, -⟩ :=
    appendRecords_noFaults storeInv_emptyDev [namedRecord]
  have hfresh : Fresh (timestampToUtcTime emptyDev.latestTs) namedRecord := by
    decide +kernel
  have hempty : emptyDev.records = [] := rfl
  rw [hempty, List.nil_append, freshRecords, if_pos hfresh, freshRecords] at hrecords
  obtain ⟨f, fs, hfiles⟩ : ∃ f fs, dev.files = f :: fs := by
    refine List.exists_cons_of_ne_nil ?_
    intro hnil
    simp [HistDev.records, hnil] at hrecords
  have hf : f ∈ dev.files := by simp [hfiles]
  have hone : f.records = [namedRecord] := by
    rw [HistDev.records, hfiles, List.flatMap_cons, List.append_eq_singleton_iff] at hrecords
    rcases hrecords with ⟨hnil, -⟩ | ⟨hone, -⟩
    · exact absurd hnil (inv.file f hf).nonempty
    · exact hone
  refine ⟨dev, f, ?_, hf, hone, ?_⟩
  · have hcore : histAppendCore noFaults emptyDev (appendIn [namedRecord]) =
        appendRecords noFaults emptyDev [namedRecord] := rfl
    simp only [appendRun, hcore, hcall]
  · rintro ⟨hvisits, -⟩
    have hbad := hvisits allRecords ⟨[], [], []⟩
    rw [HistFile.content, hone] at hbad
    revert hbad
    decide +kernel

end Fragments

end History
end Obix
