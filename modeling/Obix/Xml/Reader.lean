import Obix.Xml.Node

/-!
# Reading XML documents

`xmlReadFile` with `XML_PARSE_NOBLANKS`, by the grammar of XML 1.0: elements with
quoted attributes, references, character data, CDATA sections, comments and processing
instructions.  There are no document type declarations, so the only entities are the
predefined ones.  A document that is not well formed is refused.

What a reader makes of a text between the quotes of an attribute is that text itself
exactly when all its characters are plain (`readAttValue_of_isPlain` and
`isPlain_of_readAttValue`).
-/

namespace Obix

open CString

/-- The production `Char`. -/
def isXmlChar (c : Char) : Bool :=
  c = '\t' || c = '\n' || c = '\r' ||
    (decide (0x20 ≤ c.toNat) && c.toNat != 0xFFFE && c.toNat != 0xFFFF)

/-- The production `S`. -/
def isWhite (c : Char) : Bool :=
  c = ' ' || c = '\t' || c = '\n' || c = '\r'

/-- The ranges of `NameStartChar` beyond ASCII. -/
def nameStartRanges : List (Nat × Nat) :=
  [(0xC0, 0xD6), (0xD8, 0xF6), (0xF8, 0x2FF), (0x370, 0x37D), (0x37F, 0x1FFF), (0x200C, 0x200D),
    (0x2070, 0x218F), (0x2C00, 0x2FEF), (0x3001, 0xD7FF), (0xF900, 0xFDCF), (0xFDF0, 0xFFFD),
    (0x10000, 0xEFFFF)]

/-- The production `NameStartChar`. -/
def isNameStart (c : Char) : Bool :=
  c.isAlpha || c = ':' || c = '_' ||
    nameStartRanges.any fun r => decide (r.1 ≤ c.toNat) && decide (c.toNat ≤ r.2)

/-- The production `NameChar`. -/
def isNameChar (c : Char) : Bool :=
  isNameStart c || c.isDigit || c = '-' || c = '.' || c.toNat == 0xB7 ||
    (decide (0x300 ≤ c.toNat) && decide (c.toNat ≤ 0x36F)) ||
    (decide (0x203F ≤ c.toNat) && decide (c.toNat ≤ 0x2040))

/-- Normalisation of line ends; the flag says that a carriage return has just been read. -/
def lineEnds : Bool → Text → Text
  | _, [] => []
  | cr, c :: s =>
      if c = '\r' then '\n' :: lineEnds true s
      else if cr ∧ c = '\n' then lineEnds false s
      else c :: lineEnds false s

/-- The value of a digit. -/
def digitValue (c : Char) : Nat :=
  if c.isDigit then c.toNat - '0'.toNat
  else if c.isLower then c.toNat - 'a'.toNat + 10
  else c.toNat - 'A'.toNat + 10

/-- The character of a character reference. -/
def charRef (base : Nat) (digits : Text) : Option Char :=
  let ok := digits.all fun c =>
    c.isDigit || (base == 16 && "abcdefABCDEF".toList.contains c)
  let n := digits.foldl (fun n c => n * base + digitValue c) 0
  if digits ≠ [] ∧ ok ∧ n.isValidChar ∧ isXmlChar (Char.ofNat n) then some (Char.ofNat n) else none

/-- The replacement of a reference, given what is between `&` and `;`. -/
def resolveRef : Text → Option Char
  | ['l', 't'] => some '<'
  | ['g', 't'] => some '>'
  | ['a', 'm', 'p'] => some '&'
  | ['q', 'u', 'o', 't'] => some '"'
  | ['a', 'p', 'o', 's'] => some '\''
  | '#' :: 'x' :: digits => charRef 16 digits
  | '#' :: digits => charRef 10 digits
  | _ => none

/-- Replace references; `white` is what becomes of other characters.  The first argument
is what has been read of a reference. -/
def decode (white : Char → Char) : Option Text → Text → Option Text
  | none, [] => some []
  | some _, [] => none
  | none, c :: s =>
      if c = '&' then decode white (some []) s
      else if c = '<' ∨ isXmlChar c = false then none
      else (decode white none s).map (white c :: ·)
  | some body, c :: s =>
      if c = ';' then (resolveRef body).bind fun r => (decode white none s).map (r :: ·)
      else decode white (some (body ++ [c])) s

/-- White space in an attribute value reads as a space. -/
def attrWhite (c : Char) : Char :=
  if isWhite c then ' ' else c

/-- The production `AttValue`: the value and what follows. -/
def readAttValue : Text → Option (Text × Text)
  | [] => none
  | q :: s =>
      if q = '"' ∨ q = '\'' then
        match s.dropWhile (· ≠ q) with
        | [] => none
        | _ :: rest => (decode attrWhite none (s.takeWhile (· ≠ q))).map fun v => (v, rest)
      else none

/-- The production `Name`. -/
def readName : Text → Option (Text × Text)
  | [] => none
  | c :: s =>
      if isNameStart c then some (c :: s.takeWhile isNameChar, s.dropWhile isNameChar) else none

/-- The production `Eq`. -/
def readEq (s : Text) : Option Text :=
  match s.dropWhile isWhite with
  | '=' :: rest => some (rest.dropWhile isWhite)
  | _ => none

/-- The attributes of a tag, whether it is an empty-element tag, and what follows. -/
def readAttrs : Nat → List (Text × Text) → Text → Option (List (Text × Text) × Bool × Text)
  | 0, _, _ => none
  | fuel + 1, attrs, s =>
      match s.dropWhile isWhite with
      | '>' :: rest => some (attrs, false, rest)
      | '/' :: '>' :: rest => some (attrs, true, rest)
      | t =>
          if s.head?.any isWhite then
            (readName t).bind fun name =>
              (readEq name.2).bind fun u =>
                (readAttValue u).bind fun value =>
                  if (attrs.map Prod.fst).contains name.1 then none
                  else readAttrs fuel (attrs ++ [(name.1, value.1)]) value.2
          else none

/-- What stands before a mark, and what follows the mark. -/
def readUpto (mark s : Text) : Option (Text × Text) :=
  (find mark s).bind fun i =>
    if (s.take i).all isXmlChar then some (s.take i, s.drop (i + mark.length)) else none

/-- A comment behind `<!--`; two hyphens occur only at its end. -/
def readComment (s : Text) : Option (Text × Text) :=
  (readUpto "--".toList s).bind fun r =>
    match r.2 with
    | '>' :: rest => some (r.1, rest)
    | _ => none

/-- Character data.  Blank text nodes are left out. -/
def textNode (content : Text) : List Xml :=
  if content.all isWhite then [] else [.text none content]

/-- The end tag of an element behind its `</`. -/
def readEndTag (name s : Text) : Option Text :=
  (readName s).bind fun close =>
    match close.2.dropWhile isWhite with
    | '>' :: rest => if close.1 = name then some rest else none
    | _ => none

mutual

/-- An element behind its `<`. -/
def readElement : Nat → Text → Option (Xml × Text)
  | 0, _ => none
  | fuel + 1, s =>
      (readName s).bind fun name =>
        (readAttrs (name.2.length + 1) [] name.2).bind fun tag =>
          if tag.2.1 then some (.element none name.1 tag.1 [], tag.2.2)
          else
            (readContent fuel tag.2.2).bind fun content =>
              (readEndTag name.1 content.2).map fun rest =>
                (.element none name.1 tag.1 content.1, rest)

/-- The content of an element up to the `</` of its end tag. -/
def readContent : Nat → Text → Option (List Xml × Text)
  | 0, _ => none
  | _ + 1, [] => none
  | fuel + 1, '<' :: s =>
      match s with
      | '/' :: rest => some ([], rest)
      | '!' :: '-' :: '-' :: rest =>
          (readComment rest).bind fun r =>
            (readContent fuel r.2).map fun more => (.comment none r.1 :: more.1, more.2)
      | '!' :: '[' :: 'C' :: 'D' :: 'A' :: 'T' :: 'A' :: '[' :: rest =>
          (readUpto "]]>".toList rest).bind fun r =>
            (readContent fuel r.2).map fun more => (.text none r.1 :: more.1, more.2)
      | '?' :: rest => (readUpto "?>".toList rest).bind fun r => readContent fuel r.2
      | s =>
          (readElement fuel s).bind fun r =>
            (readContent fuel r.2).map fun more => (r.1 :: more.1, more.2)
  | fuel + 1, c :: s =>
      let data := (c :: s).takeWhile (· ≠ '<')
      if (find "]]>".toList data).isSome then none
      else
        (decode id none data).bind fun content =>
          (readContent fuel ((c :: s).dropWhile (· ≠ '<'))).map fun more =>
            (textNode content ++ more.1, more.2)

end

/-- The production `Misc*`. -/
def skipMisc : Nat → Text → Option Text
  | 0, _ => none
  | fuel + 1, s =>
      match s.dropWhile isWhite with
      | '<' :: '!' :: '-' :: '-' :: rest => (readComment rest).bind fun r => skipMisc fuel r.2
      | '<' :: '?' :: rest => (readUpto "?>".toList rest).bind fun r => skipMisc fuel r.2
      | t => some t

/-- The production `XMLDecl?`. -/
def skipDecl (s : Text) : Option Text :=
  if "<?xml ".toList.isPrefixOf s then (readUpto "?>".toList s).map Prod.snd else some s

/-- `xmlReadFile` and `xmlDocGetRootElement`. -/
def xmlReadDoc (content : Text) : Option Xml :=
  let s := lineEnds false content
  (skipDecl s).bind fun s =>
    (skipMisc (s.length + 1) s).bind fun s =>
      match s with
      | '<' :: rest =>
          (readElement s.length rest).bind fun root =>
            (skipMisc (root.2.length + 1) root.2).bind fun rest =>
              if rest = [] then some root.1 else none
      | _ => none

section Values

variable {white : Char → Char} {s v : Text}

/-- References are not shorter than what they stand for. -/
theorem decode_length_le
    {body : Option Text}
    (h : decode white body s = some v) :
    v.length ≤ s.length := by
  induction s generalizing body v with
  | nil =>
      cases body with
      | none =>
          simp only [decode, Option.some.injEq] at h
          simp [← h]
      | some body => simp [decode] at h
  | cons c s ih =>
      cases body with
      | none =>
          simp only [decode] at h
          split at h
          · have hle := ih h
            simp only [List.length_cons]
            omega
          · split at h
            · cases h
            · obtain ⟨u, hu, rfl⟩ := Option.map_eq_some_iff.mp h
              simpa using ih hu
      | some body =>
          simp only [decode] at h
          split at h
          · obtain ⟨r, -, h⟩ := Option.bind_eq_some_iff.mp h
            obtain ⟨u, hu, rfl⟩ := Option.map_eq_some_iff.mp h
            simpa using ih hu
          · have hle := ih h
            simp only [List.length_cons]
            omega

/-- A character that stands for itself in character data. -/
def isData (c : Char) : Bool :=
  c != '&' && c != '<' && isXmlChar c

theorem decode_of_isData
    (h : ∀ c ∈ s, isData c = true) :
    decode white none s = some (s.map white) := by
  induction s with
  | nil => rfl
  | cons c s ih =>
      have hc := h c (by simp)
      simp only [isData, Bool.and_eq_true, bne_iff_ne, ne_eq] at hc
      obtain ⟨⟨hamp, hlt⟩, hchar⟩ := hc
      rw [decode, if_neg hamp, if_neg (by simp [hlt, hchar]),
        ih fun d hd => h d (List.mem_cons_of_mem _ hd)]
      rfl

/-- A value as long as the text it is read from comes from characters that stand for
themselves. -/
theorem decode_of_length_eq
    (h : decode white none s = some v)
    (hlen : v.length = s.length) :
    (∀ c ∈ s, isData c = true) ∧ v = s.map white := by
  induction s generalizing v with
  | nil =>
      simp only [decode, Option.some.injEq] at h
      simp [← h]
  | cons c s ih =>
      simp only [decode] at h
      split at h
      · -- the mark of a reference is one character more
        have hle := decode_length_le h
        simp only [List.length_cons] at hlen
        omega
      · rename_i hamp
        split at h
        · cases h
        · rename_i hbad
          obtain ⟨u, hu, rfl⟩ := Option.map_eq_some_iff.mp h
          obtain ⟨hdata, rfl⟩ := ih hu (by simpa using hlen)
          refine ⟨?_, rfl⟩
          intro d hd
          rcases List.mem_cons.mp hd with rfl | hd
          · simp only [not_or, Bool.not_eq_false] at hbad
            simp [isData, hamp, hbad.1, hbad.2]
          · exact hdata d hd

theorem lineEnds_length_le (cr : Bool) (s : Text) :
    (lineEnds cr s).length ≤ s.length := by
  induction s generalizing cr with
  | nil => exact le_refl _
  | cons c s ih =>
      have htrue := ih true
      have hfalse := ih false
      rw [lineEnds]
      split
      · simpa using htrue
      · split
        · simp only [List.length_cons]
          omega
        · simpa using hfalse

theorem lineEnds_eq_self
    (h : '\r' ∉ s) :
    lineEnds false s = s := by
  induction s with
  | nil => rfl
  | cons c s ih =>
      simp only [List.mem_cons, not_or] at h
      rw [lineEnds, if_neg (Ne.symm h.1), if_neg (by simp), ih h.2]

/-- Line ends do not reach over other characters. -/
theorem lineEnds_append
    {c : Char}
    (hcr : c ≠ '\r')
    (hlf : c ≠ '\n')
    (cr : Bool)
    (s t : Text) :
    lineEnds cr (s ++ c :: t) = lineEnds cr s ++ c :: lineEnds false t := by
  induction s generalizing cr with
  | nil => simp [lineEnds, hcr, hlf]
  | cons d s ih =>
      rw [List.cons_append, lineEnds, lineEnds, ih true, ih false]
      split
      · rfl
      · split
        · rfl
        · rfl

/-- A character that stands for itself between double quotes. -/
def isPlain (c : Char) : Bool :=
  c != '"' && isData c && !(isWhite c && c != ' ')

theorem not_mem_of_isPlain
    {c : Char}
    (hc : isPlain c = false)
    (h : ∀ d ∈ s, isPlain d = true) :
    c ∉ s := by
  intro hmem
  simp [h c hmem] at hc

theorem attrWhite_of_isPlain
    {c : Char}
    (h : isPlain c = true) :
    attrWhite c = c := by
  unfold attrWhite
  split
  · rename_i hwhite
    simp only [isPlain, hwhite, Bool.true_and, Bool.and_eq_true, Bool.not_eq_true',
      bne_eq_false_iff_eq] at h
    exact h.2.symm
  · rfl

theorem takeWhile_quote
    (h : '"' ∉ s)
    (rest : Text) :
    (s ++ '"' :: rest).takeWhile (· ≠ '"') = s ∧
      (s ++ '"' :: rest).dropWhile (· ≠ '"') = '"' :: rest := by
  have hall : ∀ c ∈ s, decide (c ≠ '"') = true := by
    intro c hc
    simp only [decide_eq_true_eq]
    rintro rfl
    exact h hc
  constructor
  · rw [List.takeWhile_append_of_pos hall]
    simp
  · rw [List.dropWhile_append_of_pos hall]
    simp

theorem takeWhile_quote_length_lt
    (h : '"' ∈ s)
    (rest : Text) :
    ((s ++ rest).takeWhile (· ≠ '"')).length < s.length := by
  induction s with
  | nil => cases h
  | cons c s ih =>
      by_cases hc : c = '"'
      · simp [hc]
      · have hmem : '"' ∈ s := by
          rcases List.mem_cons.mp h with heq | hmem
          · exact absurd heq.symm hc
          · exact hmem
        simpa [hc] using ih hmem

theorem readAttValue_of_isPlain
    (h : ∀ c ∈ s, isPlain c = true)
    (rest : Text) :
    readAttValue ('"' :: (lineEnds false s ++ '"' :: rest)) = some (s, rest) := by
  have hcr : '\r' ∉ s := not_mem_of_isPlain (by decide) h
  have hquote : '"' ∉ s := not_mem_of_isPlain (by decide) h
  have hdata : ∀ c ∈ s, isData c = true := by
    intro c hc
    have hc := h c hc
    simp only [isPlain, Bool.and_eq_true] at hc
    exact hc.1.2
  have hmap : s.map attrWhite = s := by
    conv_rhs => rw [← List.map_id s]
    exact List.map_congr_left fun c hc => attrWhite_of_isPlain (h c hc)
  rw [lineEnds_eq_self hcr, readAttValue, if_pos (.inl rfl), (takeWhile_quote hquote rest).1,
    (takeWhile_quote hquote rest).2, decode_of_isData hdata, hmap]
  rfl

/-- A text that is read back from between double quotes is plain. -/
theorem isPlain_of_readAttValue
    {rest t : Text}
    (h : readAttValue ('"' :: (lineEnds false s ++ '"' :: rest)) = some (s, t)) :
    ∀ c ∈ s, isPlain c = true := by
  rw [readAttValue, if_pos (.inl rfl)] at h
  split at h
  · cases h
  · obtain ⟨v, hv, hpair⟩ := Option.map_eq_some_iff.mp h
    obtain ⟨rfl, -⟩ := Prod.mk.inj hpair
    have hvalue := decode_length_le hv
    have hends := lineEnds_length_le false v
    have hquote : '"' ∉ lineEnds false v := by
      intro hmem
      have hshort := takeWhile_quote_length_lt hmem ('"' :: rest)
      omega
    rw [(takeWhile_quote hquote rest).1] at hv hvalue
    obtain ⟨hdata, hmap⟩ := decode_of_length_eq hv (by omega)
    intro c hc
    rw [hmap] at hc
    obtain ⟨d, hd, rfl⟩ := List.mem_map.mp hc
    unfold attrWhite
    split
    · decide
    · rename_i hwhite
      have hne : d ≠ '"' := fun heq => hquote (heq ▸ hd)
      simp [isPlain, hdata d hd, hwhite, hne]

end Values

section Tags

/-- Further attributes come behind those read already. -/
theorem readAttrs_extends
    {fuel : Nat} {attrs attrs' : List (Text × Text)} {empty : Bool} {s rest : Text}
    (h : readAttrs fuel attrs s = some (attrs', empty, rest)) :
    attrs <+: attrs' := by
  induction fuel generalizing attrs s with
  | zero => cases h
  | succ fuel ih =>
      rw [readAttrs] at h
      split at h
      · obtain ⟨rfl, -⟩ := Prod.mk.inj (Option.some.inj h)
        exact List.prefix_refl _
      · obtain ⟨rfl, -⟩ := Prod.mk.inj (Option.some.inj h)
        exact List.prefix_refl _
      · split at h
        · obtain ⟨name, -, h⟩ := Option.bind_eq_some_iff.mp h
          obtain ⟨u, -, h⟩ := Option.bind_eq_some_iff.mp h
          obtain ⟨value, -, h⟩ := Option.bind_eq_some_iff.mp h
          split at h
          · cases h
          · exact (List.prefix_append attrs _).trans (ih h)
        · cases h

/-- What is known of an element that has been read. -/
theorem readElement_some
    {fuel : Nat} {s rest : Text} {node : Xml}
    (h : readElement (fuel + 1) s = some (node, rest)) :
    ∃ name tag children, readName s = some name ∧
      readAttrs (name.2.length + 1) [] name.2 = some tag ∧
      node = .element none name.1 tag.1 children ∧
      (tag.2.1 = false → ∃ t, readContent fuel tag.2.2 = some (children, t)) := by
  rw [readElement] at h
  obtain ⟨name, hname, h⟩ := Option.bind_eq_some_iff.mp h
  obtain ⟨tag, htag, h⟩ := Option.bind_eq_some_iff.mp h
  split at h
  · rename_i hempty
    obtain ⟨rfl, -⟩ := Prod.mk.inj (Option.some.inj h)
    exact ⟨name, tag, [], hname, htag, rfl, fun hno => by simp [hempty] at hno⟩
  · obtain ⟨content, hcontent, h⟩ := Option.bind_eq_some_iff.mp h
    obtain ⟨t, -, hpair⟩ := Option.map_eq_some_iff.mp h
    obtain ⟨rfl, -⟩ := Prod.mk.inj hpair
    exact ⟨name, tag, content.1, hname, htag, rfl, fun _ => ⟨content.2, hcontent⟩⟩

/-- An empty element. -/
theorem readElement_empty
    {s rest : Text} {name : Text × Text} {attrs : List (Text × Text)}
    (hname : readName s = some name)
    (htag : readAttrs (name.2.length + 1) [] name.2 = some (attrs, true, rest))
    (fuel : Nat) :
    readElement (fuel + 1) s = some (.element none name.1 attrs [], rest) := by
  rw [readElement, hname, Option.bind_some, htag, Option.bind_some]
  rfl

/-- A line end before markup is a blank text node. -/
theorem readContent_blank (fuel : Nat) (s : Text) :
    readContent (fuel + 1) ('\n' :: '<' :: s) = readContent fuel ('<' :: s) := by
  have h : readContent (fuel + 1) ('\n' :: '<' :: s) =
      (readContent fuel ('<' :: s)).map fun more => ([] ++ more.1, more.2) := rfl
  rw [h]
  cases readContent fuel ('<' :: s) with
  | none => rfl
  | some more => rfl

/-- An element in the content of another one. -/
theorem readContent_element
    {c : Char} {s : Text}
    (hc : c ≠ '/' ∧ c ≠ '!' ∧ c ≠ '?')
    (fuel : Nat) :
    readContent (fuel + 1) ('<' :: c :: s) =
      (readElement fuel (c :: s)).bind fun r =>
        (readContent fuel r.2).map fun more => (r.1 :: more.1, more.2) := by
  rw [readContent]
  · intro rest h
    exact hc.1 (List.cons.inj h).1
  · intro rest h
    exact hc.2.1 (List.cons.inj h).1
  · intro rest h
    exact hc.2.1 (List.cons.inj h).1
  · intro rest h
    exact hc.2.2 (List.cons.inj h).1

end Tags

end Obix
