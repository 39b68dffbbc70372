import Obix.Lib.Sprintf
import Mathlib.Tactic

/-!
# History filters of a client

`obix_create_history_flt`.  The buffer has room for nine digits of a limit and for `false`, so that
a limit of ten digits fits only where `true` is printed (`historyFlt_fits_iff`).
-/

namespace Obix
namespace Client

open CString

section Model

/-- `HIST_FLT_PREFIX`. -/
def histFltPrefix : Text :=
  "<?xml version=\"1.0\" encoding=\"UTF-8\"?>\r\n".toList ++
  "<obj is=\"obix:HistoryFilter\">\r\n".toList

/-- `HIST_FLT_LIMIT_TEMPLATE`. -/
def histFltLimitTemplate : Text := "<int name=\"limit\" val=\"%d\"/>\r\n".toList

/-- `HIST_FLT_START_TEMPLATE`. -/
def histFltStartTemplate : Text := "<abstime name=\"start\" val=\"%s\"/>\r\n".toList

/-- `HIST_FLT_END_TEMPLATE`. -/
def histFltEndTemplate : Text := "<abstime name=\"end\" val=\"%s\"/>\r\n".toList

/-- `HIST_FLT_FMT_TEMPLATE`. -/
def histFltFmtTemplate : Text := "<str name=\"format\" val=\"%s\"/>\r\n".toList

/-- `HIST_FLT_CMPT_TEMPLATE`. -/
def histFltCmptTemplate : Text := "<bool name=\"compact\" val=\"%s\"/>\r\n".toList

/-- `HIST_FLT_SUFFIX`. -/
def histFltSuffix : Text := "</obj>".toList

/-- `HIST_FLT_VAL_MAX_BITS`. -/
def histFltValMaxBits : Nat := 9

/-- `XML_BOOL_MAX_LEN`. -/
def xmlBoolMaxLen : Nat := 5

/-- `XML_TRUE` or `XML_FALSE`. -/
def compactVal (compact : Int32) : Text :=
  if compact = 1 then "true".toList else "false".toList

variable (limit : Int32) (start fin fmt : Option Text) (compact : Int32)

/-- The number of bytes that `obix_create_history_flt` allocates. -/
def historyFltAllocated : Nat :=
  let len := histFltPrefix.length + histFltSuffix.length
  let len :=
    if 0 ≤ limit.toInt then len + (histFltLimitTemplate.length + histFltValMaxBits - 2) else len
  let len := start.elim len fun s => len + (histFltStartTemplate.length + s.length - 2)
  let len := fin.elim len fun s => len + (histFltEndTemplate.length + s.length - 2)
  let len := fmt.elim len fun s => len + (histFltFmtTemplate.length + s.length - 2)
  let len := len + (histFltCmptTemplate.length - 2 + xmlBoolMaxLen)
  len + 1

/-- `obix_create_history_flt`. -/
def obixCreateHistoryFlt : Text :=
  histFltPrefix ++
    (if 0 < limit.toInt then sprintf histFltLimitTemplate [showInt limit.toInt] else []) ++
    start.elim [] (fun s => sprintf histFltStartTemplate [s]) ++
    fin.elim [] (fun s => sprintf histFltEndTemplate [s]) ++
    fmt.elim [] (fun s => sprintf histFltFmtTemplate [s]) ++
    sprintf histFltCmptTemplate [compactVal compact] ++
    histFltSuffix

/-- The number of bytes that it writes, with the terminator. -/
def historyFltWritten : Nat := (obixCreateHistoryFlt limit start fin fmt compact).length + 1

end Model

section Size

variable {limit : Int32} {start fin fmt : Option Text} {compact : Int32}

/-- A template with one conversion. -/
theorem length_template
    {template : Text}
    (h : conversions template = 1)
    (s : Text) :
    (sprintf template [s]).length + 2 = template.length + s.length := by
  have hlength := @length_sprintf template [s] h
  simpa using hlength

/-- An optional part is printed in the room that is counted for it. -/
theorem length_optional
    {template : Text}
    (h : conversions template = 1)
    (hlong : 2 ≤ template.length)
    (value : Option Text)
    (len : Nat) :
    (value.elim len fun s => len + (template.length + s.length - 2)) =
      len + (value.elim [] fun s => sprintf template [s]).length := by
  cases value with
  | none => rfl
  | some s =>
      have hlength := length_template h s
      simp only [Option.elim_some]
      omega

/-- The room for a limit, and what is printed of it. -/
theorem length_limit :
    (if 0 ≤ limit.toInt then histFltLimitTemplate.length + histFltValMaxBits - 2 else 0) +
        (if 0 < limit.toInt then (showInt limit.toInt).length else 0) =
      (if 0 < limit.toInt then sprintf histFltLimitTemplate [showInt limit.toInt] else []).length +
        (if 0 < limit.toInt then histFltValMaxBits else 0) +
        (if limit.toInt = 0 then histFltLimitTemplate.length + histFltValMaxBits - 2 else 0) := by
  have hlength := length_template (show conversions histFltLimitTemplate = 1 by decide +kernel)
    (showInt limit.toInt)
  have hlong : 2 ≤ histFltLimitTemplate.length := by decide +kernel
  by_cases hpos : 0 < limit.toInt
  · rw [if_pos hpos.le, if_pos hpos, if_pos hpos, if_pos hpos, if_neg hpos.ne']
    omega
  · rw [if_neg hpos, if_neg hpos, if_neg hpos]
    by_cases hzero : limit.toInt = 0
    · rw [if_pos hzero.ge, if_pos hzero]
      simp
    · rw [if_neg (by omega), if_neg hzero]
      rfl

/-- What is written does not exceed the buffer unless a limit is longer than the room for it and
for `compact`. -/
theorem historyFltWritten_le_iff :
    historyFltWritten limit start fin fmt compact ≤ historyFltAllocated limit start fin fmt ↔
      (0 < limit.toInt → (showInt limit.toInt).length + (compactVal compact).length ≤
        histFltValMaxBits + xmlBoolMaxLen) := by
  have hcompact := length_template (show conversions histFltCmptTemplate = 1 by decide +kernel)
    (compactVal compact)
  have hlong : 2 ≤ histFltCmptTemplate.length := by decide +kernel
  have hbool : (compactVal compact).length ≤ xmlBoolMaxLen := by
    unfold compactVal
    split
    · decide
    · decide
  have hlimit := @length_limit limit
  unfold historyFltWritten historyFltAllocated obixCreateHistoryFlt
  dsimp only
  rw [length_optional (show conversions histFltStartTemplate = 1 by decide +kernel)
      (by decide +kernel),
    length_optional (show conversions histFltEndTemplate = 1 by decide +kernel)
      (by decide +kernel),
    length_optional (show conversions histFltFmtTemplate = 1 by decide +kernel)
      (by decide +kernel)]
  simp only [List.length_append]
  split_ifs at hlimit ⊢ <;> omega

theorem length_compactVal : (compactVal compact).length = if compact = 1 then 4 else 5 := by
  unfold compactVal
  split
  · rfl
  · rfl

/-- A filter fits into its buffer unless a limit of ten digits stands before `false`. -/
theorem historyFlt_fits_iff (limit : Int32) (start fin fmt : Option Text) (compact : Int32) :
    historyFltWritten limit start fin fmt compact ≤ historyFltAllocated limit start fin fmt ↔
      (compact ≠ 1 → limit.toInt < 1000000000) := by
  rw [historyFltWritten_le_iff, length_compactVal]
  have hlt := limit.toInt_lt
  by_cases hpos : 0 < limit.toInt
  · obtain ⟨n, hn⟩ := Int.eq_ofNat_of_zero_le hpos.le
    have hnine : (showInt n).length ≤ 9 ↔ n < 10 ^ 9 := length_showInt_le_iff (by decide)
    have hten : (showInt n).length ≤ 10 ↔ n < 10 ^ 10 := length_showInt_le_iff (by decide)
    have hroom : histFltValMaxBits + xmlBoolMaxLen = 14 := rfl
    rw [hn] at hlt ⊢
    by_cases hcompact : compact = 1
    · have hfits := hten.mpr (by omega)
      refine iff_of_true (fun _ => ?_) fun hne => absurd hcompact hne
      rw [if_pos hcompact]
      omega
    · rw [if_neg hcompact]
      constructor
      · intro h _
        have hlength := h (hn ▸ hpos)
        have hless := hnine.mp (by omega)
        omega
      · intro h _
        have hless := h hcompact
        have hlength := hnine.mpr (by omega)
        omega
  · exact iff_of_true (fun h => absurd h hpos) fun _ => by omega

/-- The first limit that is too long. -/
theorem historyFlt_overruns :
    ¬ historyFltWritten 1000000000 none none none 0 ≤
      historyFltAllocated 1000000000 none none none := by
  decide +kernel

end Size

end Client
end Obix
