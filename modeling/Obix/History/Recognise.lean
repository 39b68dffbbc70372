import Obix.History.ParseLog

/-!
# Records as the scanner sees them

`Recognised text ts` says that the scanner of `parse_log`, started somewhere
before a record with the serialised form `text`, finds exactly this record with
the timestamp `ts`: the record begins with the start markup, the first timestamp
markup in it holds `ts`, the first end markup behind the timestamp ends the
record (`Delimited`), and no start markup stands behind the timestamp.

The lemmas of this module compute one round of the record loop on such a text.
-/

namespace Obix
namespace History

open CString

/-- The scanner, started at `text`, delimits it as a record with timestamp `ts`; the
quote behind the timestamp has the offset `q`. -/
structure Delimited (text ts : Text) (q : Nat) : Prop where
  start : recordStart <+: text
  short : ts.length ≤ histRecTsMaxLen
  layout : ∃ j e,
    q = j + tsValStart.length + ts.length ∧
    find tsValStart text = some j ∧
    find tsValEnd (text.drop (j + tsValStart.length)) = some ts.length ∧
    (text.drop (j + tsValStart.length)).take ts.length = ts ∧
    find recordEnd (text.drop q) = some e ∧
    q + e + recordEnd.length = text.length

/-- The scanner takes `text` for exactly one record with timestamp `ts`. -/
def Recognised (text ts : Text) : Prop :=
  ∃ q, Delimited text ts q ∧ find recordStart (text.drop q) = none

/-- A part of the content in which no record starts. -/
def Quiet (skip : Text) : Prop :=
  find recordStart skip = none ∧ (skip = [] ∨ ∃ s, skip = s ++ ['\n'])

theorem quiet_nil : Quiet [] := ⟨by decide, .inl rfl⟩

theorem find_quiet_append
    {skip : Text}
    (hquiet : Quiet skip)
    (r : Text) :
    find recordStart (skip ++ r) = (find recordStart r).map (skip.length + ·) := by
  obtain ⟨hnone, rfl | ⟨s, rfl⟩⟩ := hquiet
  · simp
  · rw [find_append_of_sep (by decide) hnone]
    simp

/-- What `parse_log` copies when it starts with a text. -/
def stampIn (text : Text) : Option Text :=
  (strstr text 0 recordStart).bind fun p =>
    (strstr text p tsValStart).bind fun t =>
      (strstr text (t + tsValStart.length) tsValEnd).map fun q =>
        (text.drop (t + tsValStart.length)).take (q - (t + tsValStart.length))

section Scanning

variable {buf skip text ts rest v : Text} {n : Nat}

/-- Offsets that a round computes on a recognised record, relative to the buffer. -/
structure Scanned (buf : Text) (n p ts q e : Nat) (value : Text) : Prop where
  start : strstr buf n recordStart = some p
  stamp : ∃ t, strstr buf p tsValStart = some t ∧ ts = t + tsValStart.length
  quote : strstr buf ts tsValEnd = some q
  value_eq : (buf.drop ts).take (q - ts) = value
  short : ¬ histRecTsMaxLen < q - ts
  fin : strstr buf q recordEnd = some e

theorem strstr_eq_of_drop
    {needle s : Text} {i k : Nat}
    (hdrop : buf.drop n = s ++ rest)
    (hfind : find needle s = some i)
    (hk : k = n + i) :
    strstr buf n needle = some k := by
  simp [strstr, hdrop, find_append_of_some hfind, hk]

theorem drop_of_drop_eq_append
    (hdrop : buf.drop n = skip ++ rest)
    (k : Nat)
    (hk : k ≤ skip.length) :
    buf.drop (n + k) = skip.drop k ++ rest := by
  rw [← List.drop_drop, hdrop, List.drop_append_of_le_length hk]

/-- The scanner on a delimited record. -/
theorem Delimited.scanned
    {q : Nat}
    (h : Delimited text ts q)
    (hquiet : Quiet skip)
    (hdrop : buf.drop n = skip ++ (text ++ rest)) :
    ∃ v e,
      Scanned buf n (n + skip.length) v (n + skip.length + q) e ts ∧
      e + recordEnd.length = n + skip.length + text.length ∧
      0 < q ∧ n + skip.length + q ≤ e ∧
      buf.drop (n + skip.length + q) = text.drop q ++ rest := by
  obtain ⟨hstart, hshort, j, e, rfl, hstamp, hquote, hvalue, hend, hlen⟩ := h
  have hp : buf.drop (n + skip.length) = text ++ rest := by
    rw [drop_of_drop_eq_append hdrop _ (le_refl _)]
    simp
  have hstampLe := find_add_length_le hstamp
  have hv : buf.drop (n + skip.length + (j + tsValStart.length)) =
      text.drop (j + tsValStart.length) ++ rest :=
    drop_of_drop_eq_append hp _ hstampLe
  have hq : buf.drop (n + skip.length + (j + tsValStart.length + ts.length)) =
      text.drop (j + tsValStart.length + ts.length) ++ rest :=
    drop_of_drop_eq_append hp _ (by omega)
  have hpos : 0 < tsValStart.length := by decide
  refine ⟨n + skip.length + (j + tsValStart.length),
    n + skip.length + (j + tsValStart.length + ts.length) + e, ?_, by omega, by omega, by omega, hq⟩
  have hfind0 : find recordStart (text ++ rest) = some 0 :=
    find_of_prefix (List.prefix_append_of_prefix hstart)
  constructor
  · simp [strstr, hdrop, find_quiet_append hquiet, hfind0]
  · exact ⟨n + skip.length + j, strstr_eq_of_drop hp hstamp rfl, by omega⟩
  · exact strstr_eq_of_drop hv hquote (by omega)
  · have hsub : n + skip.length + (j + tsValStart.length + ts.length) -
        (n + skip.length + (j + tsValStart.length)) = ts.length := by omega
    rw [hsub, hv, List.take_append_of_le_length (by simp; omega)]
    exact hvalue
  · omega
  · exact strstr_eq_of_drop hq hend rfl

/-- The part of a delimited record behind the timestamp ends with a newline. -/
theorem Delimited.tail_newline
    {q : Nat}
    (h : Delimited text ts q) :
    ∃ s, text.drop q = s ++ ['\n'] := by
  obtain ⟨-, -, j, e, -, -, -, -, hend, hlen⟩ := h
  have hmark := prefix_drop_of_find hend
  rw [List.drop_drop] at hmark
  have hsuffix : text.drop (q + e) = recordEnd := by
    refine (hmark.eq_of_length ?_).symm
    rw [List.length_drop]
    omega
  refine ⟨(text.drop q).take e ++ "</obj>\r".toList, ?_⟩
  have hsplit := (List.take_append_drop e (text.drop q)).symm
  rw [List.drop_drop, hsuffix] at hsplit
  rw [List.append_assoc]
  exact hsplit

/-- The scanner on a recognised record. -/
theorem Recognised.scanned
    (h : Recognised text ts)
    (hquiet : Quiet skip)
    (hdrop : buf.drop n = skip ++ (text ++ rest)) :
    ∃ v q e tail,
      Scanned buf n (n + skip.length) v q e ts ∧
      e + recordEnd.length = n + skip.length + text.length ∧
      n < q ∧ q ≤ e ∧ Quiet tail ∧ buf.drop q = tail ++ rest := by
  obtain ⟨q, hdel, hnone⟩ := h
  obtain ⟨v, e, hscan, he, hpos, hqe, hq⟩ := hdel.scanned hquiet hdrop
  exact ⟨v, n + skip.length + q, e, text.drop q, hscan, he, by omega, hqe,
    ⟨hnone, .inr hdel.tail_newline⟩, hq⟩

/-- A round that finds a record copies its timestamp and goes on with it. -/
theorem Scanned.parseRound_eq
    {loc : ParseLocal} {p v q e : Nat}
    (h : Scanned loc.buf loc.n p v q e ts)
    (args : ParseArgs)
    (st : ParseStatics) :
    parseRound args loc st =
      parseRecord args p q loc { st with valPrev := st.val, val := ts } := by
  obtain ⟨hstart, ⟨t, hstamp, rfl⟩, hquote, hvalue, hshort, -⟩ := h
  simp only [parseRound, hstart, hstamp, hquote, hvalue, if_neg hshort]

/-- Behind the last record the loop ends. -/
theorem parseRound_done
    {loc : ParseLocal}
    (hquiet : Quiet (loc.buf.drop loc.n))
    (args : ParseArgs)
    (st : ParseStatics) :
    parseRound args loc st = (.done, st) := by
  simp [parseRound, strstr, hquiet.1]

/-- A round of the record loop on a text copies what the scanner finds, or writes past the end
of the buffer. -/
theorem parseRound_eq_of_stampIn
    {loc : ParseLocal}
    (hdrop : loc.buf.drop loc.n = text ++ rest)
    (hstamp : stampIn text = some v)
    (args : ParseArgs)
    (st : ParseStatics) :
    (histRecTsMaxLen < v.length → parseRound args loc st = (.overflow, st)) ∧
      (v.length ≤ histRecTsMaxLen →
        ∃ p q, parseRound args loc st =
          parseRecord args p q loc { st with valPrev := st.val, val := v }) := by
  obtain ⟨p, hp, hstamp⟩ := Option.bind_eq_some_iff.mp hstamp
  obtain ⟨t, ht, hstamp⟩ := Option.bind_eq_some_iff.mp hstamp
  obtain ⟨q, hq, hv⟩ := Option.map_eq_some_iff.mp hstamp
  -- the offsets are found at the same places behind the beginning of the text
  have hfound : ∀ {k m : Nat} {needle : Text}, k ≤ text.length → strstr text k needle = some m →
      strstr loc.buf (loc.n + k) needle = some (loc.n + m) := by
    intro k m needle hk hfind
    obtain ⟨j, hj, rfl⟩ := Option.map_eq_some_iff.mp hfind
    have hcut := drop_of_drop_eq_append hdrop k hk
    exact strstr_eq_of_drop hcut hj (by omega)
  have hwithin : ∀ {k m : Nat} {needle : Text}, k ≤ text.length → strstr text k needle = some m →
      k ≤ m ∧ m + needle.length ≤ text.length := by
    intro k m needle hk hfind
    obtain ⟨j, hj, rfl⟩ := Option.map_eq_some_iff.mp hfind
    have hle := find_add_length_le hj
    rw [List.length_drop] at hle
    omega
  obtain ⟨-, hpLe⟩ := hwithin (Nat.zero_le _) hp
  obtain ⟨hpt, htLe⟩ := hwithin (by omega) ht
  obtain ⟨htq, hqLe⟩ := hwithin htLe hq
  have hp' := hfound (Nat.zero_le _) hp
  have ht' := hfound (by omega) ht
  have hq' := hfound htLe hq
  rw [Nat.add_zero] at hp'
  rw [← Nat.add_assoc] at hq'
  have hlength : loc.n + q - (loc.n + t + tsValStart.length) = v.length := by
    rw [← hv, List.length_take, List.length_drop]
    omega
  have hvalue : (loc.buf.drop (loc.n + t + tsValStart.length)).take v.length = v := by
    have hcut := drop_of_drop_eq_append hdrop (t + tsValStart.length) htLe
    rw [← hlength, Nat.add_assoc, hcut, ← hv, Nat.add_sub_add_left, List.take_append_of_le_length]
    rw [List.length_drop]
    omega
  unfold parseRound
  simp only [hp', ht', hq', hlength, hvalue]
  constructor
  · intro hlong
    rw [if_pos hlong]
  · intro hshort
    rw [if_neg (by omega)]
    exact ⟨_, _, rfl⟩

/-- Before a record there is nothing that the scanner would stop at. -/
theorem stampIn_quiet
    (hquiet : Quiet skip)
    (hstart : recordStart <+: text) :
    stampIn (skip ++ text) = stampIn text := by
  have hskip : strstr (skip ++ text) 0 recordStart = some skip.length := by
    simp [strstr, find_quiet_append hquiet, find_of_prefix hstart]
  have hfirst : strstr text 0 recordStart = some 0 := by
    simp [strstr, find_of_prefix hstart]
  have hshift : ∀ k needle, strstr (skip ++ text) (skip.length + k) needle =
      (strstr text k needle).map (skip.length + ·) := by
    intro k needle
    rw [strstr, strstr, ← List.drop_drop, List.drop_left, Option.map_map]
    congr 1
    funext m
    simp only [Function.comp]
    omega
  have hstamp := hshift 0 tsValStart
  rw [Nat.add_zero] at hstamp
  unfold stampIn
  rw [hskip, hfirst, Option.bind_some, Option.bind_some, hstamp]
  cases strstr text 0 tsValStart with
  | none => rfl
  | some t =>
      have hcut : ∀ q, skip.length + q - (skip.length + (t + tsValStart.length)) =
          q - (t + tsValStart.length) := fun q => Nat.add_sub_add_left _ _ _
      simp only [Option.map_some, Option.bind_some, Nat.add_assoc, hshift, Option.map_map,
        ← List.drop_drop, List.drop_left, Function.comp_def, hcut]

/-- A text that begins like a record and has a timestamp in it that is too long. -/
def Overlong (text : Text) : Prop :=
  recordStart <+: text ∧ ∃ v, stampIn text = some v ∧ histRecTsMaxLen < v.length

/-- The scanner does not get over a timestamp that is too long. -/
theorem Overlong.parseRound_eq
    {loc : ParseLocal}
    (h : Overlong text)
    (hquiet : Quiet skip)
    (hdrop : loc.buf.drop loc.n = skip ++ (text ++ rest))
    (args : ParseArgs)
    (st : ParseStatics) :
    parseRound args loc st = (.overflow, st) := by
  obtain ⟨hstart, v, hv, hlong⟩ := h
  rw [← List.append_assoc] at hdrop
  exact (parseRound_eq_of_stampIn hdrop ((stampIn_quiet hquiet hstart).trans hv) args st).1 hlong

end Scanning

/-- The form that the scanner is made for: one start markup at the beginning, one
timestamp markup with a short value, one end markup at the end. -/
structure CanonicalText (text ts : Text) : Prop where
  shape : ∃ a b,
    text = recordStart ++ (a ++ (tsValStart ++ (ts ++ (tsValEnd ++ (b ++ recordEnd))))) ∧
    ∀ k < text.length, tsValStart <+: text.drop k → k = recordStart.length + a.length
  oneStart : ∀ k < text.length, recordStart <+: text.drop k → k = 0
  oneEnd : ∀ k < text.length, recordEnd <+: text.drop k → k + recordEnd.length = text.length
  noQuote : '"' ∉ ts
  short : ts.length ≤ histRecTsMaxLen

theorem lt_length_of_prefix_drop
    {needle text : Text} {k : Nat}
    (hne : needle ≠ [])
    (h : needle <+: text.drop k) :
    k < text.length := by
  by_contra hge
  rw [List.drop_eq_nil_of_le (by omega), List.prefix_nil] at h
  exact hne h

theorem find_quote
    {ts rest : Text}
    (h : '"' ∉ ts) :
    find tsValEnd (ts ++ (tsValEnd ++ rest)) = some ts.length := by
  refine find_eq_some ?_ (by simp) ?_
  · rw [List.drop_left]
    exact List.prefix_append _ _
  · intro j hj hp
    rw [List.drop_append_of_le_length (by omega), List.drop_eq_getElem_cons hj] at hp
    obtain ⟨r, hr⟩ := hp
    have hc : '"' = ts[j] := (List.cons.inj hr).1
    exact h (hc ▸ List.getElem_mem hj)

/-- What has the canonical form is recognised. -/
theorem CanonicalText.recognised
    {text ts : Text}
    (h : CanonicalText text ts) :
    Recognised text ts := by
  obtain ⟨⟨a, b, hshape, honeStamp⟩, honeStart, honeEnd, hquote, hshort⟩ := h
  have hlen := congrArg List.length hshape
  simp only [List.length_append] at hlen
  have hposStart : 0 < recordStart.length := by decide
  have hposEnd : 0 < recordEnd.length := by decide
  have hposStamp : 0 < tsValStart.length := by decide
  have hstamp : text.drop (recordStart.length + a.length) =
      tsValStart ++ (ts ++ (tsValEnd ++ (b ++ recordEnd))) := by
    rw [hshape, ← List.drop_drop, List.drop_left, List.drop_left]
  have hvalue : text.drop (recordStart.length + a.length + tsValStart.length) =
      ts ++ (tsValEnd ++ (b ++ recordEnd)) := by
    rw [← List.drop_drop, hstamp, List.drop_left]
  have htail : text.drop (recordStart.length + a.length + tsValStart.length + ts.length) =
      tsValEnd ++ (b ++ recordEnd) := by
    rw [← List.drop_drop, hvalue, List.drop_left]
  have hend : (tsValEnd ++ (b ++ recordEnd)).drop (tsValEnd.length + b.length) = recordEnd := by
    rw [← List.drop_drop, List.drop_left, List.drop_left]
  refine ⟨recordStart.length + a.length + tsValStart.length + ts.length,
    ⟨?_, hshort, recordStart.length + a.length, tsValEnd.length + b.length,
      rfl, ?_, ?_, ?_, ?_, by omega⟩, ?_⟩
  · rw [hshape]
    exact List.prefix_append _ _
  · refine find_eq_some ?_ (by omega) ?_
    · rw [hstamp]
      exact List.prefix_append _ _
    · intro j hj hp
      have heq := honeStamp j (lt_length_of_prefix_drop (by decide) hp) hp
      omega
  · rw [hvalue]
    exact find_quote hquote
  · rw [hvalue, List.take_left]
  · rw [htail]
    refine find_eq_some ?_ (by simp) ?_
    · rw [hend]
    · intro j hj hp
      rw [← htail, List.drop_drop] at hp
      have heq := honeEnd _ (lt_length_of_prefix_drop (by decide) hp) hp
      omega
  · refine find_eq_none ?_
    intro j hp
    rw [List.drop_drop] at hp
    have heq := honeStart _ (lt_length_of_prefix_drop (by decide) hp) hp
    omega

section Moving

variable {buf : Text}

/-- The copy loop moves a block to the left. -/
theorem moveBytes_eq
    {k w p : Nat}
    (hw : w ≤ p)
    (hk : p + k ≤ buf.length) :
    moveBytes k buf w p = buf.take w ++ ((buf.drop p).take k ++ buf.drop (w + k)) := by
  induction k generalizing buf w p with
  | zero => simp [moveBytes]
  | succ k ih =>
      have hp : p < buf.length := by omega
      have hget : buf.getD p ' ' = buf[p] := by simp [hp]
      have hdrop : ∀ m, w < m → (buf.set w buf[p]).drop m = buf.drop m := by
        intro m hm
        exact List.drop_set_of_lt hm
      have htake : (buf.set w buf[p]).take (w + 1) = buf.take w ++ [buf[p]] := by
        rw [List.set_eq_take_append_cons_drop, if_pos (by omega), List.take_append]
        simp [List.length_take, Nat.min_eq_left (by omega : w ≤ buf.length)]
      have hcons : (buf.drop p).take (k + 1) = buf[p] :: (buf.drop (p + 1)).take k := by
        rw [List.drop_eq_getElem_cons hp, List.take_succ_cons]
      rw [moveBytes, hget, ih (by omega) (by simp; omega), htake, hdrop (p + 1) (by omega),
        hdrop (w + 1 + k) (by omega), hcons]
      have hshift : w + 1 + k = w + (k + 1) := by omega
      simp [hshift]

/-- Taking a record appends its bytes to the collected ones and leaves the rest of
the content alone. -/
theorem takeRecord_spec
    {loc : ParseLocal} {text rest : Text} {p : Nat}
    (args : ParseArgs)
    (hw : loc.w ≤ p)
    (hp : p ≤ loc.buf.length)
    (hdrop : loc.buf.drop p = text ++ rest) :
    (takeRecord args p (p + text.length) loc).buf.take
        (takeRecord args p (p + text.length) loc).w = loc.buf.take loc.w ++ text ∧
    (takeRecord args p (p + text.length) loc).buf.drop (p + text.length) = rest ∧
    (takeRecord args p (p + text.length) loc).buf.length = loc.buf.length ∧
    (takeRecord args p (p + text.length) loc).w = loc.w + text.length := by
  have hlen : p + text.length ≤ loc.buf.length := by
    have := congrArg List.length hdrop
    rw [List.length_drop, List.length_append] at this
    omega
  have htext : (loc.buf.drop p).take text.length = text := by
    rw [hdrop, List.take_left]
  have hrest : loc.buf.drop (p + text.length) = rest := by
    rw [← List.drop_drop, hdrop, List.drop_left]
  by_cases hwp : loc.w = p
  · simp only [takeRecord, hwp, if_true, and_true]
    refine ⟨?_, hrest⟩
    rw [List.take_add, htext]
  · have hmove := moveBytes_eq hw hlen
    have hk : p + text.length - p = text.length := by omega
    simp only [takeRecord, if_neg hwp, hk, hmove, htext, and_true]
    have htake : (loc.buf.take loc.w).length = loc.w := by
      rw [List.length_take]
      omega
    refine ⟨?_, ?_, ?_⟩
    · rw [← List.append_assoc, List.take_left']
      rw [List.length_append, htake]
    · rw [← List.append_assoc, List.drop_append, List.length_append, htake,
        List.drop_eq_nil_of_le (by rw [List.length_append, htake]; omega), List.nil_append,
        List.drop_drop, ← hrest]
      congr 1
      omega
    · simp only [List.length_append, htake, List.length_drop]
      omega

end Moving

end History
end Obix
