import Obix.History.Recognise
import Obix.History.StoreInvariant

/-!
# What the scanner returns

On a log file whose records are recognised, in ascending order of their times,
`parse_log` returns the first records of the requested range, up to the limit,
and the timestamps of the first and the last of them.

The loop is followed record by record: `ParseAt` relates the local variables and
the static buffers to the records collected so far and to those still to come.
-/

namespace Obix
namespace History

open CString

/-- The bytes of a list of records. -/
def logText (dump : Xml → Text) (records : List Xml) : Text :=
  (records.map (recordText dump)).flatten

/-- A record whose serialised form is recognised with its own timestamp. -/
def Scannable (dump : Xml → Text) (record : Xml) : Prop :=
  ∃ ts, recordTs record = some ts ∧ Recognised (recordText dump record) ts

/-- A record that the scanner recognises or cannot get over. -/
def Legible (dump : Xml → Text) (record : Xml) : Prop :=
  Scannable dump record ∨ Overlong (recordText dump record)

/-- Whether a record is in the requested range; no range is requested by `none`. -/
def InRange (range : Option (Text × Text)) (record : Xml) : Prop :=
  ∀ b ∈ range,
    timestampToUtcTime b.1 ≤ recordTime record ∧ recordTime record ≤ timestampToUtcTime b.2

instance (range : Option (Text × Text)) (record : Xml) : Decidable (InRange range record) :=
  inferInstanceAs (Decidable (∀ b ∈ range, _))

/-- The bounds of the range are valid timestamps. -/
def RangeValid (range : Option (Text × Text)) : Prop :=
  ∀ b ∈ range, 0 ≤ timestampToUtcTime b.1 ∧ 0 ≤ timestampToUtcTime b.2

/-- A record that is earlier than the requested range. -/
def BeforeRange (range : Option (Text × Text)) (record : Xml) : Prop :=
  ∃ b ∈ range, recordTime record < timestampToUtcTime b.1

section Verdicts

variable {range : Option (Text × Text)} {record : Xml} {ts : Text}

@[simp] theorem logText_nil (dump : Xml → Text) : logText dump [] = [] := rfl

@[simp] theorem logText_cons (dump : Xml → Text) (r : Xml) (rs : List Xml) :
    logText dump (r :: rs) = recordText dump r ++ logText dump rs := rfl

@[simp] theorem logText_append (dump : Xml → Text) (rs ss : List Xml) :
    logText dump (rs ++ ss) = logText dump rs ++ logText dump ss := by
  simp [logText]

/-- The three verdicts on a record with a valid timestamp. -/
theorem parseVerdict_cases
    (hvalid : RangeValid range)
    (hts : recordTs record = some ts)
    (hpos : 0 < recordTime record) :
    parseVerdict range ts = .common ∧ InRange range record ∨
    parseVerdict range ts = .endBefore ∧ ¬ InRange range record ∧ BeforeRange range record ∨
    parseVerdict range ts = .startAfter ∧
      ∀ r, recordTime record ≤ recordTime r → ¬ InRange range r := by
  cases range with
  | none => exact .inl ⟨rfl, by simp [InRange]⟩
  | some b =>
      obtain ⟨start, fin⟩ := b
      obtain ⟨hs, hf⟩ := hvalid (start, fin) rfl
      have htime := recordTime_of_recordTs hts
      have hval : 0 ≤ timestampToUtcTime ts := by omega
      simp only at hs hf
      simp only [parseVerdict, timestampHasCommon_eq hval hval hs hf, InRange, BeforeRange,
        Option.mem_def, Option.some.injEq, forall_eq', exists_eq_left', ← htime]
      by_cases hafter : timestampToUtcTime fin < recordTime record
      · refine .inr (.inr ⟨by rw [if_pos hafter], ?_⟩)
        intro r hr hin
        omega
      · by_cases hbefore : recordTime record < timestampToUtcTime start
        · refine .inr (.inl ⟨by rw [if_neg hafter, if_pos hbefore], ?_, hbefore⟩)
          intro hin
          omega
        · exact .inl ⟨by rw [if_neg hafter, if_neg hbefore], by omega, by omega⟩

end Verdicts

/-- The loop is about to look for the records `rest`, the next of which is at `off`. -/
structure ScanAt (dump : Xml → Text) (off : Nat) (rest : List Xml) (loc : ParseLocal) : Prop where
  content : ∃ skip, Quiet skip ∧ off = loc.n + skip.length ∧
    loc.buf.drop loc.n = skip ++ logText dump rest
  within : loc.n ≤ loc.buf.length
  w_le : loc.w ≤ loc.n

/-- The loop has collected `sel` and is about to look for the records `rest`. -/
structure ParseAt
    (dump : Xml → Text)
    (args : ParseArgs)
    (sel rest : List Xml)
    (loc : ParseLocal)
    (st : ParseStatics) :
    Prop where
  scan : ∃ off, ScanAt dump off rest loc
  front : loc.buf.take loc.w = logText dump sel
  count : loc.r = sel.length
  current : loc.useValPrev = false
  startSet : loc.isStartSet = (args.wantStart && !sel.isEmpty)
  val : ∀ r, sel.getLast? = some r → recordTs r = some st.val
  logStart : args.wantStart = true → ∀ r, sel.head? = some r → recordTs r = some st.logStart

/-- The result describes the collected records. -/
structure Collected
    (dump : Xml → Text)
    (args : ParseArgs)
    (sel : List Xml)
    (res : ParseResult) :
    Prop where
  data : res.data = logText dump sel
  count : res.count = sel.length
  startTs : args.wantStart = true → ∀ r, sel.head? = some r → res.startTs = recordTs r
  noStart : args.wantStart = false → res.startTs = none
  endTs : ∀ r, sel.getLast? = some r → recordTs r = some res.endTs

section Loop

variable {dump : Xml → Text} {args : ParseArgs} {sel rest : List Xml} {record : Xml}
variable {loc : ParseLocal} {st : ParseStatics} {ρ : Type}

theorem parseFinish_collected
    (env : ρ)
    (hfront : loc.buf.take loc.w = logText dump sel)
    (hcount : loc.r = sel.length)
    (hstart : args.wantStart = true → ∀ r, sel.head? = some r → recordTs r = some st.logStart)
    (hend : ∀ r, sel.getLast? = some r →
      recordTs r = some (if loc.useValPrev then st.valPrev else st.val)) :
    ∃ res, (parseFinish args loc : Resumption ρ _ _).run env st = (.ok res, st) ∧
      Collected dump args sel res := by
  refine ⟨_, rfl, ?_⟩
  constructor
  · exact hfront
  · exact hcount
  · intro hwant r hr
    simp [hwant, hstart hwant r hr]
  · intro hwant
    simp [hwant]
  · exact hend

/-- The end of the content. -/
theorem ParseAt.finish
    (env : ρ)
    (h : ParseAt dump args sel rest loc st) :
    ∃ res, (parseFinish args loc : Resumption ρ _ _).run env st = (.ok res, st) ∧
      Collected dump args sel res := by
  refine parseFinish_collected env h.front h.count h.logStart ?_
  intro r hr
  rw [h.current]
  exact h.val r hr

/-- The scanner on the next record. -/
theorem ScanAt.scanned
    {off : Nat} {ts : Text}
    (h : ScanAt dump off (record :: rest) loc)
    (hrec : Recognised (recordText dump record) ts) :
    ∃ v q e,
      Scanned loc.buf loc.n off v q e ts ∧
      e + recordEnd.length = off + (recordText dump record).length ∧
      loc.w ≤ off ∧ off ≤ loc.buf.length ∧
      loc.buf.drop off = recordText dump record ++ logText dump rest ∧
      ScanAt dump (off + (recordText dump record).length) rest { loc with n := q } := by
  obtain ⟨⟨skip, hquiet, rfl, hdrop⟩, hwithin, hw⟩ := h
  rw [logText_cons] at hdrop
  obtain ⟨v, q, e, tail, hscan, he, hnq, hqe, htail, hq⟩ := hrec.scanned hquiet hdrop
  have hlen := congrArg List.length hdrop
  have hqlen := congrArg List.length hq
  simp only [List.length_drop, List.length_append] at hlen hqlen
  have hpos : 0 < recordEnd.length := by decide
  refine ⟨v, q, e, hscan, he, by omega, by omega, ?_, ⟨tail, htail, ?_, hq⟩, ?_, ?_⟩
  · rw [drop_of_drop_eq_append hdrop _ (le_refl _)]
    simp
  · simp only
    omega
  · simp only
    omega
  · simp only
    omega

/-- Behind a record that has been taken the scanner stands at the next one. -/
theorem ScanAt.take
    {off : Nat}
    (args : ParseArgs)
    (hw : loc.w ≤ off)
    (hoff : off ≤ loc.buf.length)
    (hdrop : loc.buf.drop off = recordText dump record ++ logText dump rest) :
    ScanAt dump (off + (recordText dump record).length) rest
      (takeRecord args off (off + (recordText dump record).length) loc) := by
  obtain ⟨-, hrest, hlength, hw'⟩ := takeRecord_spec args hw hoff hdrop
  have hlen := congrArg List.length hdrop
  simp only [List.length_drop, List.length_append] at hlen
  refine ⟨⟨[], quiet_nil, by simp [takeRecord], hrest⟩, ?_, ?_⟩
  · rw [hlength]
    simp only [takeRecord]
    omega
  · rw [hw']
    simp only [takeRecord]
    omega

/-- Skip a record that is earlier than the range. -/
theorem ParseAt.skip
    {q off : Nat} {ts : Text}
    (h : ParseAt dump args [] (record :: rest) loc st)
    (hscan : ScanAt dump off rest { loc with n := q }) :
    ParseAt dump args [] rest { loc with n := q } { st with valPrev := st.val, val := ts } where
  scan := ⟨off, hscan⟩
  front := h.front
  count := h.count
  current := h.current
  startSet := h.startSet
  val := by simp
  logStart := by simp

/-- Take a record of the range. -/
theorem ParseAt.take
    {off : Nat} {ts : Text}
    (h : ParseAt dump args sel (record :: rest) loc st)
    (hts : recordTs record = some ts)
    (hw : loc.w ≤ off)
    (hoff : off ≤ loc.buf.length)
    (hdrop : loc.buf.drop off = recordText dump record ++ logText dump rest) :
    ParseAt dump args (sel ++ [record]) rest
      (takeRecord args off (off + (recordText dump record).length) loc)
      (if loc.isStartSet = false ∧ args.wantStart = true then
        { valPrev := st.val, val := ts, logStart := ts }
      else { st with valPrev := st.val, val := ts }) := by
  obtain ⟨hfront, -, -, -⟩ := takeRecord_spec args hw hoff hdrop
  constructor
  · exact ⟨_, ScanAt.take args hw hoff hdrop⟩
  · rw [hfront, h.front]
    simp
  · simp [takeRecord, h.count]
  · exact h.current
  · cases hwant : args.wantStart with
    | true => simp [takeRecord, hwant]
    | false => simp [takeRecord, h.startSet, hwant]
  · intro r hr
    simp only [List.getLast?_append, List.getLast?_singleton, Option.some_or,
      Option.some.injEq] at hr
    subst hr
    split
    · exact hts
    · exact hts
  · intro hwant r hr
    cases sel with
    | nil =>
        simp only [List.nil_append, List.head?_cons, Option.some.injEq] at hr
        subst hr
        have hset : loc.isStartSet = false := by simp [h.startSet]
        simp only [hset, hwant, and_self, if_true]
        exact hts
    | cons first sel =>
        have hset : loc.isStartSet = true := by simp [h.startSet, hwant]
        simp only [hset, Bool.true_eq_false, false_and, if_false]
        exact h.logStart hwant r (by simpa using hr)

/-- The three ways a round can deal with the next record. -/
theorem ParseAt.round_cases
    (hvalid : RangeValid args.range)
    (hscan : Scannable dump record)
    (hpos : 0 < recordTime record)
    (h : ParseAt dump args sel (record :: rest) loc st) :
    (∃ loc' st', InRange args.range record ∧ ParseAt dump args (sel ++ [record]) rest loc' st' ∧
      parseRound args loc st =
        (if ((sel ++ [record]).length : Int) = args.limit then .stop loc' else .next loc', st')) ∨
    (BeforeRange args.range record ∧ ¬ InRange args.range record ∧
      (sel = [] → ∃ loc' st', ParseAt dump args [] rest loc' st' ∧
        parseRound args loc st = (.next loc', st'))) ∨
    ((∀ r, recordTime record ≤ recordTime r → ¬ InRange args.range r) ∧
      ∃ q ts, parseRound args loc st =
        (.stop { loc with n := q, useValPrev := true },
          { st with valPrev := st.val, val := ts })) := by
  obtain ⟨ts, hts, hrec⟩ := hscan
  obtain ⟨off, hat⟩ := h.scan
  obtain ⟨v, q, e, hround, he, hw, hoff, hdrop, hskip⟩ := hat.scanned hrec
  rw [hround.parseRound_eq]
  simp only [parseRecord]
  rcases parseVerdict_cases hvalid hts hpos with
    ⟨hverdict, hin⟩ | ⟨hverdict, hnot, hbefore⟩ | ⟨hverdict, hafter⟩
  · have hat := h.take hts hw hoff hdrop
    refine .inl ⟨_, _, hin, hat, ?_⟩
    simp only [hverdict, hround.fin, he, hat.count]
    split
    · rfl
    · rfl
  · refine .inr (.inl ⟨hbefore, hnot, ?_⟩)
    rintro rfl
    refine ⟨_, { st with valPrev := st.val, val := ts }, h.skip hskip, ?_⟩
    simp only [hverdict]
  · exact .inr (.inr ⟨hafter, q, ts, by simp only [hverdict]⟩)

/-- The records that the loop still collects. -/
def picked (args : ParseArgs) (sel rest : List Xml) : List Xml :=
  (rest.filter (InRange args.range ·)).take (args.limit - sel.length).toNat

theorem picked_cons_of_not_inRange
    (h : ¬ InRange args.range record) :
    picked args sel (record :: rest) = picked args sel rest := by
  simp [picked, h]

theorem picked_eq_nil
    (h : ∀ r ∈ rest, ¬ InRange args.range r) :
    picked args sel rest = [] := by
  have hnil : rest.filter (InRange args.range ·) = [] := by
    simpa [List.filter_eq_nil_iff] using h
  simp [picked, hnil]

theorem picked_cons_of_inRange
    (h : InRange args.range record)
    (hsel : (sel.length : Int) < args.limit) :
    picked args sel (record :: rest) = record :: picked args (sel ++ [record]) rest := by
  have hk : (args.limit - sel.length).toNat =
      (args.limit - (sel ++ [record]).length).toNat + 1 := by
    simp only [List.length_append, List.length_singleton]
    push_cast
    omega
  simp [picked, h, hk]

theorem picked_eq_nil_of_limit
    (h : (sel.length : Int) = args.limit) :
    picked args sel rest = [] := by
  simp [picked, h]

/-- A record that the scanner cannot get over. -/
theorem ScanAt.overlong
    {off : Nat}
    (h : ScanAt dump off (record :: rest) loc)
    (hlong : Overlong (recordText dump record))
    (st : ParseStatics) :
    parseRound args loc st = (.overflow, st) := by
  obtain ⟨⟨skip, hquiet, -, hdrop⟩, -, -⟩ := h
  rw [logText_cons] at hdrop
  exact hlong.parseRound_eq hquiet hdrop args st

/-- The record loop collects the records of the range up to the limit, unless it meets a record
that it cannot get over. -/
theorem parseLoop_run
    {fuel : Nat}
    (env : ρ)
    (hvalid : RangeValid args.range)
    (hlegible : ∀ r ∈ rest, Legible dump r)
    (hpos : ∀ r ∈ rest, 0 < recordTime r)
    (hsorted : rest.Pairwise fun r s => recordTime r < recordTime s)
    (hbelow : sel ≠ [] → ∀ r ∈ rest, ¬ BeforeRange args.range r)
    (hsel : (sel.length : Int) < args.limit)
    (hfuel : rest.length < fuel)
    (h : ParseAt dump args sel rest loc st) :
    ((∃ r ∈ rest, ¬ Scannable dump r) ∧
      ((parseLoop fuel args loc : Resumption ρ _ _).run env st).1 = .overflow) ∨
    ∃ res st', (parseLoop fuel args loc : Resumption ρ _ _).run env st = (.ok res, st') ∧
      Collected dump args (sel ++ picked args sel rest) res := by
  induction rest generalizing sel loc st fuel with
  | nil =>
      obtain ⟨fuel, rfl⟩ : ∃ k, fuel = k + 1 := ⟨fuel - 1, by omega⟩
      obtain ⟨off, ⟨skip, hquiet, -, hdrop⟩, -, -⟩ := h.scan
      rw [logText_nil, List.append_nil] at hdrop
      rw [← hdrop] at hquiet
      obtain ⟨res, hrun, hres⟩ := h.finish env
      refine .inr ⟨res, st, ?_, by simpa [picked] using hres⟩
      simp only [parseLoop, Resumption.run_step, parseRound_done hquiet]
      exact hrun
  | cons record rest ih =>
      obtain ⟨fuel, rfl⟩ : ∃ k, fuel = k + 1 := ⟨fuel - 1, by omega⟩
      have hpos' : ∀ r ∈ rest, 0 < recordTime r := fun r hr => hpos r (by simp [hr])
      have hlegible' : ∀ r ∈ rest, Legible dump r := fun r hr => hlegible r (by simp [hr])
      have hlater' : (∃ r ∈ rest, ¬ Scannable dump r) → ∃ r ∈ record :: rest, ¬ Scannable dump r :=
        fun ⟨r, hr, hnot⟩ => ⟨r, List.mem_cons_of_mem _ hr, hnot⟩
      obtain ⟨hlater, hsorted'⟩ := List.pairwise_cons.mp hsorted
      have hfuel' : rest.length < fuel := by simpa using hfuel
      simp only [parseLoop, Resumption.run_step]
      by_cases hscan : Scannable dump record
      swap
      · -- the timestamp does not fit into the buffer
        obtain ⟨off, hat⟩ := h.scan
        rw [hat.overlong ((hlegible record (by simp)).resolve_left hscan)]
        exact .inl ⟨⟨record, by simp, hscan⟩, rfl⟩
      rcases h.round_cases hvalid hscan (hpos record (by simp)) with
        ⟨loc', st', hin, hat, hround⟩ | ⟨hbefore, hnot, hskip⟩ | ⟨hafter, q, ts, hround⟩
      · -- the record is taken
        rw [hround, picked_cons_of_inRange hin hsel]
        by_cases hlimit : ((sel ++ [record]).length : Int) = args.limit
        · obtain ⟨res, hrun, hres⟩ := hat.finish env
          rw [picked_eq_nil_of_limit hlimit, if_pos hlimit]
          exact .inr ⟨res, st', hrun, hres⟩
        · have hsel' : ((sel ++ [record]).length : Int) < args.limit := by
            rw [List.length_append, List.length_singleton] at hlimit ⊢
            push_cast at hlimit ⊢
            omega
          have hbelow' : ∀ r ∈ rest, ¬ BeforeRange args.range r := by
            rintro r hr ⟨b, hb, hlt⟩
            have hge := (hin b hb).1
            have hgt := hlater r hr
            omega
          rw [if_neg hlimit]
          rcases ih hlegible' hpos' hsorted' (fun _ => hbelow') hsel' hfuel' hat with
            ⟨hnot, hover⟩ | ⟨res, st'', hrun, hres⟩
          · exact .inl ⟨hlater' hnot, hover⟩
          · exact .inr ⟨res, st'', hrun, by simpa using hres⟩
      · -- the record is skipped
        have hnil : sel = [] := by
          by_contra hne
          exact hbelow hne record (by simp) hbefore
        subst hnil
        obtain ⟨loc', st', hat, hround⟩ := hskip rfl
        rw [hround, picked_cons_of_not_inRange hnot]
        rcases ih hlegible' hpos' hsorted' (by simp) hsel hfuel' hat with ⟨hnot, hover⟩ | hrun
        · exact .inl ⟨hlater' hnot, hover⟩
        · exact .inr hrun
      · -- all remaining records are later than the range
        have hnone : picked args sel (record :: rest) = [] := by
          refine picked_eq_nil ?_
          intro r hr
          rcases List.mem_cons.mp hr with rfl | hr
          · exact hafter r (le_refl _)
          · exact hafter r (le_of_lt (hlater r hr))
        rw [hround, hnone, List.append_nil]
        have hlast : ∀ r, sel.getLast? = some r → recordTs r = some st.val := h.val
        obtain ⟨res, hrun, hres⟩ := @parseFinish_collected dump args sel
          { loc with n := q, useValPrev := true } { st with valPrev := st.val, val := ts } ρ env
          h.front h.count h.logStart hlast
        exact .inr ⟨res, _, hrun, hres⟩

theorem scanAt_parseStart
    {records : List Xml} :
    ScanAt dump 0 records (parseStart (logText dump records)) where
  content := ⟨[], quiet_nil, rfl, rfl⟩
  within := Nat.zero_le _
  w_le := Nat.le_refl _

/-- There are enough rounds for all records of a log file. -/
theorem length_lt_logText
    (records : List Xml) :
    records.length < (logText dump records).length + 1 := by
  induction records with
  | nil => simp
  | cons r rs ih =>
      have hr : 2 ≤ (recordText dump r).length := by
        simp [recordText, histRecordSeparator]
      simp only [logText_cons, List.length_append, List.length_cons]
      omega

/-- `parse_log` on a log file with records in ascending order. -/
theorem parseLog_legible
    {records : List Xml}
    (env : ρ)
    (st : ParseStatics)
    (hvalid : RangeValid args.range)
    (hlegible : ∀ r ∈ records, Legible dump r)
    (hpos : ∀ r ∈ records, 0 < recordTime r)
    (hsorted : records.Pairwise fun r s => recordTime r < recordTime s)
    (hlimit : 0 < args.limit) :
    ((∃ r ∈ records, ¬ Scannable dump r) ∧
      ((parseLog args (logText dump records) : Resumption ρ _ _).run env st).1 = .overflow) ∨
    ∃ res st', (parseLog args (logText dump records) : Resumption ρ _ _).run env st =
        (.ok res, st') ∧
      Collected dump args
        ((records.filter (InRange args.range ·)).take args.limit.toNat) res := by
  have hat : ParseAt dump args [] records (parseStart (logText dump records)) st := by
    constructor
    · exact ⟨0, scanAt_parseStart⟩
    · simp [parseStart]
    · rfl
    · rfl
    · simp [parseStart]
    · simp
    · simp
  rcases parseLoop_run env hvalid hlegible hpos hsorted (by simp) (by simpa using hlimit)
      (length_lt_logText records) hat with hover | ⟨res, st', hrun, hres⟩
  · exact .inl hover
  · exact .inr ⟨res, st', hrun, by simpa [picked] using hres⟩

/-- `parse_log` on a log file with recognised records in ascending order. -/
theorem parseLog_run
    {records : List Xml}
    (env : ρ)
    (st : ParseStatics)
    (hvalid : RangeValid args.range)
    (hscan : ∀ r ∈ records, Scannable dump r)
    (hpos : ∀ r ∈ records, 0 < recordTime r)
    (hsorted : records.Pairwise fun r s => recordTime r < recordTime s)
    (hlimit : 0 < args.limit) :
    ∃ res st', (parseLog args (logText dump records) : Resumption ρ _ _).run env st =
        (.ok res, st') ∧
      Collected dump args
        ((records.filter (InRange args.range ·)).take args.limit.toNat) res := by
  rcases parseLog_legible env st hvalid (fun r hr => .inl (hscan r hr)) hpos hsorted hlimit with
    ⟨⟨r, hr, hnot⟩, -⟩ | hrun
  · exact absurd (hscan r hr) hnot
  · exact hrun

end Loop

end History
end Obix
