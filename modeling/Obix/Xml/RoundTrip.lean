import Obix.Xml.Legal

/-!
# Reading what has been written

`xmlReadFile` undoes `xmlNodeDump`: the references that are written for a character are read as
that character, the line ends and the indentation between tags are blank text nodes, which are
left out, and a tag is read up to the end that has been written (`readElement_dump`).
-/

namespace Obix

open CString XmlNode

section Characters

variable {c : Char} {s : Text}

theorem escapeAttr_clean (c : Char) :
    '"' ∉ escapeAttr c ∧ '\r' ∉ escapeAttr c := by
  unfold escapeAttr
  repeat' split
  all_goals
    simp_all
  exact ⟨Ne.symm ‹_›, Ne.symm ‹_›⟩

theorem escapeText_clean (c : Char) :
    '<' ∉ escapeText c ∧ '>' ∉ escapeText c ∧ '\r' ∉ escapeText c := by
  unfold escapeText
  repeat' split
  all_goals
    simp_all
  exact ⟨Ne.symm ‹_›, Ne.symm ‹_›, Ne.symm ‹_›⟩

/-- What is written for a character of an attribute is read as that character. -/
theorem decode_escapeAttr
    (hc : isXmlChar c = true)
    (s : Text) :
    decode attrWhite none (escapeAttr c ++ s) = (decode attrWhite none s).map (c :: ·) := by
  unfold escapeAttr
  split
  · subst c; rfl
  split
  · subst c; rfl
  split
  · subst c; rfl
  split
  · subst c; rfl
  split
  · subst c; rfl
  split
  · subst c; rfl
  split
  · subst c; rfl
  · rename_i hamp hlt _ _ hlf hcr htab
    have hwhite : attrWhite c = c := by
      unfold attrWhite
      split
      · rename_i hw
        simp only [isWhite, hlf, hcr, htab, decide_false, Bool.or_false, decide_eq_true_eq] at hw
        exact hw.symm
      · rfl
    rw [List.singleton_append, decode, if_neg hamp, if_neg (by simp [hlt, hc]), hwhite]

theorem decode_escapeText
    (hc : isXmlChar c = true)
    (s : Text) :
    decode id none (escapeText c ++ s) = (decode id none s).map (c :: ·) := by
  unfold escapeText
  split
  · subst c; rfl
  split
  · subst c; rfl
  split
  · subst c; rfl
  split
  · subst c; rfl
  · rename_i hamp hlt _ _
    rw [List.singleton_append, decode, if_neg hamp, if_neg (by simp [hlt, hc])]
    rfl

theorem decode_flatMap_escapeAttr
    (h : ∀ c ∈ s, isXmlChar c = true) :
    decode attrWhite none (s.flatMap escapeAttr) = some s := by
  induction s with
  | nil => rfl
  | cons c s ih =>
      rw [List.flatMap_cons, decode_escapeAttr (h c (by simp)),
        ih fun d hd => h d (List.mem_cons_of_mem _ hd)]
      rfl

theorem decode_flatMap_escapeText
    (h : ∀ c ∈ s, isXmlChar c = true) :
    decode id none (s.flatMap escapeText) = some s := by
  induction s with
  | nil => rfl
  | cons c s ih =>
      rw [List.flatMap_cons, decode_escapeText (h c (by simp)),
        ih fun d hd => h d (List.mem_cons_of_mem _ hd)]
      rfl

end Characters

section Tags

variable {name s : Text} {c : Char}

/-- No mark starts a name. -/
theorem nameStart_spec
    (h : isNameStart c = true) :
    isWhite c = false ∧ c ≠ '>' ∧ c ≠ '/' ∧ c ≠ '!' ∧ c ≠ '?' := by
  have hne : ∀ d, isNameStart d = false → c ≠ d := by
    rintro d hd rfl
    simp [hd] at h
  refine ⟨?_, hne _ (by decide +kernel), hne _ (by decide +kernel), hne _ (by decide +kernel),
    hne _ (by decide +kernel)⟩
  simp [isWhite, hne ' ' (by decide +kernel), hne '\t' (by decide +kernel),
    hne '\n' (by decide +kernel), hne '\r' (by decide +kernel)]

theorem readName_legal
    (hname : isXmlName name = true)
    (hc : isNameChar c = false)
    (s : Text) :
    readName (name ++ c :: s) = some (name, c :: s) := by
  cases name with
  | nil => cases hname
  | cons d name =>
      simp only [isXmlName, Bool.and_eq_true, List.all_eq_true] at hname
      rw [List.cons_append, readName, if_pos hname.1, List.takeWhile_append_of_pos hname.2,
        List.dropWhile_append_of_pos hname.2, List.takeWhile_cons_of_neg (by simp [hc]),
        List.dropWhile_cons_of_neg (by simp [hc]), List.append_nil]

theorem readAttValue_escaped
    (h : ∀ c ∈ s, isXmlChar c = true)
    (rest : Text) :
    readAttValue ('"' :: (s.flatMap escapeAttr ++ '"' :: rest)) = some (s, rest) := by
  have hquote : '"' ∉ s.flatMap escapeAttr := by
    intro hmem
    obtain ⟨c, -, hc⟩ := List.mem_flatMap.mp hmem
    exact (escapeAttr_clean c).1 hc
  rw [readAttValue, if_pos (.inl rfl), (takeWhile_quote hquote rest).1,
    (takeWhile_quote hquote rest).2]
  dsimp only
  rw [decode_flatMap_escapeAttr h]
  rfl

/-- One attribute behind those that have been read. -/
theorem readAttrs_dumpAttr
    {attrs : List (Text × Text)} {a : Text × Text}
    (hname : isXmlName a.1 = true)
    (hval : ∀ c ∈ a.2, isXmlChar c = true)
    (hnew : a.1 ∉ attrs.map Prod.fst)
    (fuel : Nat)
    (rest : Text) :
    readAttrs (fuel + 1) attrs (dumpAttr a ++ rest) = readAttrs fuel (attrs ++ [a]) rest := by
  obtain ⟨attr, val⟩ := a
  cases attr with
  | nil => cases hname
  | cons d attr =>
      have hstart : isNameStart d = true := by
        simp only [isXmlName, Bool.and_eq_true] at hname
        exact hname.1
      obtain ⟨hwhite, hmark⟩ := nameStart_spec hstart
      have hshape : dumpAttr (d :: attr, val) ++ rest =
          ' ' :: (d :: attr ++ '=' :: ('"' :: (val.flatMap escapeAttr ++ '"' :: rest))) := by
        simp [dumpAttr]
      have hdrop : (' ' :: (d :: attr ++ '=' :: ('"' :: (val.flatMap escapeAttr ++ '"' :: rest)))).dropWhile
          isWhite = d :: attr ++ '=' :: ('"' :: (val.flatMap escapeAttr ++ '"' :: rest)) := by
        rw [List.dropWhile_cons_of_pos (by decide), List.cons_append,
          List.dropWhile_cons_of_neg (by simp [hwhite])]
      have hread := readName_legal hname (show isNameChar '=' = false by decide +kernel)
        ('"' :: (val.flatMap escapeAttr ++ '"' :: rest))
      rw [hshape, readAttrs, hdrop]
      split
      · rename_i heq
        exact absurd (List.cons.inj heq).1 hmark.1
      · rename_i heq
        exact absurd (List.cons.inj heq).1 hmark.2.1
      · rw [List.head?_cons, if_pos (by decide), hread, Option.bind_some]
        have heq : readEq ('=' :: '"' :: (val.flatMap escapeAttr ++ '"' :: rest)) =
            some ('"' :: (val.flatMap escapeAttr ++ '"' :: rest)) := rfl
        dsimp only
        rw [heq, Option.bind_some, readAttValue_escaped hval, Option.bind_some, if_neg]
        simpa using hnew

/-- All attributes of a tag. -/
theorem readAttrs_dump
    (result : List (Text × Text) × Bool × Text)
    {attrs more : List (Text × Text)} {rest : Text}
    (hmore : ∀ a ∈ more, isXmlName a.1 = true ∧ ∀ c ∈ a.2, isXmlChar c = true)
    (hnodup : ((attrs ++ more).map Prod.fst).Nodup)
    (hrest : ∀ fuel attrs, 0 < fuel →
      readAttrs fuel attrs rest = some (attrs, result.2.1, result.2.2))
    {fuel : Nat}
    (hfuel : (more.flatMap dumpAttr).length < fuel) :
    readAttrs fuel attrs (more.flatMap dumpAttr ++ rest) =
      some (attrs ++ more, result.2.1, result.2.2) := by
  induction more generalizing attrs fuel with
  | nil =>
      rw [List.flatMap_nil, List.nil_append, hrest fuel attrs (by omega), List.append_nil]
  | cons a more ih =>
      obtain ⟨fuel, rfl⟩ : ∃ k, fuel = k + 1 := ⟨fuel - 1, by omega⟩
      rw [List.flatMap_cons] at hfuel
      have hlen : 1 ≤ (dumpAttr a).length := by simp [dumpAttr]
      rw [List.length_append] at hfuel
      rw [List.append_cons] at hnodup
      have hnew : a.1 ∉ attrs.map Prod.fst := by
        intro hmem
        have := hnodup
        simp only [List.map_append, List.map_cons, List.map_nil] at this
        have := (List.nodup_append.mp (List.nodup_append.mp this).1).2.2 _ hmem a.1 (by simp)
        exact this rfl
      rw [List.flatMap_cons, List.append_assoc,
        readAttrs_dumpAttr (hmore a (by simp)).1 (hmore a (by simp)).2 hnew,
        ih (fun b hb => hmore b (List.mem_cons_of_mem _ hb)) hnodup (by omega)]
      simp

theorem readAttrs_close (fuel : Nat) (attrs : List (Text × Text)) (rest : Text) :
    readAttrs (fuel + 1) attrs ('>' :: rest) = some (attrs, false, rest) :=
  rfl

theorem readAttrs_empty (fuel : Nat) (attrs : List (Text × Text)) (rest : Text) :
    readAttrs (fuel + 1) attrs ('/' :: '>' :: rest) = some (attrs, true, rest) :=
  rfl

end Tags

section Content

variable {s rest : Text} {r : List Xml × Text}

/-- Any fuel that is not less than the length of the content is enough to read it. -/
def ContentReads (s : Text) (r : List Xml × Text) : Prop :=
  ∀ fuel, s.length ≤ fuel → readContent fuel s = some r

/-- The same of an element behind its `<`. -/
def ElementReads (s : Text) (r : Xml × Text) : Prop :=
  ∀ fuel, s.length ≤ fuel → readElement fuel s = some r

theorem contentReads_close (rest : Text) :
    ContentReads ('<' :: '/' :: rest) ([], rest) := by
  intro fuel hfuel
  obtain ⟨fuel, rfl⟩ : ∃ k, fuel = k + 1 := ⟨fuel - 1, by simp at hfuel; omega⟩
  rfl

theorem takeWhile_mark
    (h : '<' ∉ s)
    (rest : Text) :
    (s ++ '<' :: rest).takeWhile (· ≠ '<') = s ∧
      (s ++ '<' :: rest).dropWhile (· ≠ '<') = '<' :: rest := by
  have hall : ∀ c ∈ s, decide (c ≠ '<') = true := by
    intro c hc
    simp only [decide_eq_true_eq]
    rintro rfl
    exact h hc
  constructor
  · rw [List.takeWhile_append_of_pos hall]
    simp
  · rw [List.dropWhile_append_of_pos hall]
    simp

/-- Character data in front of a mark. -/
theorem ContentReads.data
    {data content : Text}
    (h : ContentReads ('<' :: rest) r)
    (hmark : '<' ∉ data)
    (hend : '>' ∉ data)
    (hne : data ≠ [])
    (hdecode : decode id none data = some content) :
    ContentReads (data ++ '<' :: rest) (textNode content ++ r.1, r.2) := by
  intro fuel hfuel
  cases data with
  | nil => exact absurd rfl hne
  | cons c data =>
      obtain ⟨fuel, rfl⟩ : ∃ k, fuel = k + 1 := ⟨fuel - 1, by simp at hfuel; omega⟩
      have hc : c ≠ '<' := fun heq => hmark (heq ▸ List.mem_cons_self)
      have hnone : find "]]>".toList (c :: data) = none := by
        refine find_eq_none fun j hpre => hend ?_
        have hmem : '>' ∈ "]]>".toList := by decide
        exact List.mem_of_mem_drop (hpre.subset hmem)
      obtain ⟨htake, hdrop⟩ := takeWhile_mark hmark rest
      have hrest := h fuel (by
        simp only [List.cons_append, List.length_cons, List.length_append] at hfuel ⊢
        omega)
      rw [List.cons_append] at htake hdrop ⊢
      rw [readContent, htake, hdrop]
      · rw [hnone, hdecode, Option.bind_some, hrest]
        rfl
      · exact hc

/-- Blanks in front of a mark make no node. -/
theorem ContentReads.blanks
    {blanks : Text}
    (h : ContentReads ('<' :: rest) r)
    (hblanks : ∀ c ∈ blanks, isWhite c = true) :
    ContentReads (blanks ++ '<' :: rest) r := by
  by_cases hne : blanks = []
  · rw [hne]
    exact h
  · have hdata : ∀ c ∈ blanks, isData c = true ∧ c ≠ '<' ∧ c ≠ '>' := by
      intro c hc
      have hwhite := hblanks c hc
      simp only [isWhite, Bool.or_eq_true, decide_eq_true_eq] at hwhite
      rcases hwhite with ((rfl | rfl) | rfl) | rfl <;> decide
    have hread := h.data (fun hmem => (hdata _ hmem).2.1 rfl) (fun hmem => (hdata _ hmem).2.2 rfl)
      hne (decode_of_isData fun c hc => (hdata c hc).1)
    rw [List.map_id, textNode, if_pos (List.all_eq_true.mpr hblanks)] at hread
    exact hread

/-- A text node in front of a mark. -/
theorem ContentReads.text
    {content : Text}
    (h : ContentReads ('<' :: rest) r)
    (hchars : ∀ c ∈ content, isXmlChar c = true)
    (hblank : content.all isWhite = false) :
    ContentReads (content.flatMap escapeText ++ '<' :: rest) (.text none content :: r.1, r.2) := by
  have hclean : ∀ c ∈ content.flatMap escapeText, c ≠ '<' ∧ c ≠ '>' := by
    intro c hc
    obtain ⟨d, -, hd⟩ := List.mem_flatMap.mp hc
    exact ⟨fun heq => (escapeText_clean d).1 (heq ▸ hd),
      fun heq => (escapeText_clean d).2.1 (heq ▸ hd)⟩
  have hne : content.flatMap escapeText ≠ [] := by
    intro hnil
    have hempty := decode_flatMap_escapeText hchars
    rw [hnil] at hempty
    obtain rfl := Option.some.inj hempty
    simp at hblank
  have hread := h.data (fun hmem => (hclean _ hmem).1 rfl) (fun hmem => (hclean _ hmem).2 rfl) hne
    (decode_flatMap_escapeText hchars)
  rw [textNode, if_neg (by simp [hblank])] at hread
  exact hread

/-- A comment is read up to its end. -/
theorem readComment_append
    {content : Text}
    (h : isCommentText content = true)
    (rest : Text) :
    readComment (content ++ ('-' :: '-' :: '>' :: rest)) = some (content, rest) := by
  simp only [isCommentText, Bool.and_eq_true, Option.isNone_iff_eq_none] at h
  obtain ⟨⟨hchars, -⟩, hnone⟩ := h
  have hfind : find "--".toList (content ++ ('-' :: '-' :: '>' :: rest)) = some content.length := by
    refine find_eq_some ?_ (by simp) ?_
    · rw [List.drop_left]
      exact ⟨'>' :: rest, rfl⟩
    · intro j hj hpre
      -- an earlier mark would stand in the comment and its first hyphen
      have htake : "--".toList <+: (content ++ ['-']).drop j := by
        have heq : content ++ ('-' :: '-' :: '>' :: rest) =
            (content ++ ['-']) ++ ('-' :: '>' :: rest) := by simp
        rw [heq, List.drop_append_of_le_length (by simp; omega)] at hpre
        refine List.prefix_of_prefix_length_le hpre (List.prefix_append _ _) ?_
        simp
        omega
      exact not_prefix_drop_of_find_none hnone j htake
  rw [readComment, readUpto, hfind, Option.bind_some, List.take_left, if_pos hchars,
    ← List.drop_drop, List.drop_left]
  rfl

theorem ContentReads.comment
    {content : Text}
    (h : ContentReads rest r)
    (hcontent : isCommentText content = true) :
    ContentReads ("<!--".toList ++ content ++ "-->".toList ++ rest)
      (.comment none content :: r.1, r.2) := by
  intro fuel hfuel
  obtain ⟨fuel, rfl⟩ : ∃ k, fuel = k + 1 := ⟨fuel - 1, by simp at hfuel; omega⟩
  have hshape : "<!--".toList ++ content ++ "-->".toList ++ rest =
      '<' :: '!' :: '-' :: '-' :: (content ++ ('-' :: '-' :: '>' :: rest)) := by
    simp
  have hrest := h fuel (by
    simp only [List.length_append] at hfuel
    simp at hfuel
    omega)
  have hstep : readContent (fuel + 1)
      ('<' :: '!' :: '-' :: '-' :: (content ++ ('-' :: '-' :: '>' :: rest))) =
      (readComment (content ++ ('-' :: '-' :: '>' :: rest))).bind fun r =>
        (readContent fuel r.2).map fun more => (.comment none r.1 :: more.1, more.2) := rfl
  rw [hshape, hstep, readComment_append hcontent, Option.bind_some, hrest]
  rfl

theorem ContentReads.element
    {c : Char} {node : Xml}
    (hc : c ≠ '/' ∧ c ≠ '!' ∧ c ≠ '?')
    (hnode : ElementReads (c :: s) (node, rest))
    (h : ContentReads rest r)
    (hrest : rest.length ≤ s.length) :
    ContentReads ('<' :: c :: s) (node :: r.1, r.2) := by
  intro fuel hfuel
  obtain ⟨fuel, rfl⟩ : ∃ k, fuel = k + 1 := ⟨fuel - 1, by simp at hfuel; omega⟩
  simp only [List.length_cons] at hfuel
  have hread := hnode fuel (by simp only [List.length_cons]; omega)
  have hmore := h fuel (by omega)
  rw [readContent_element hc, hread, Option.bind_some, hmore]
  rfl

theorem readEndTag_append
    {name : Text}
    (hname : isXmlName name = true)
    (rest : Text) :
    readEndTag name (name ++ '>' :: rest) = some rest := by
  rw [readEndTag, readName_legal hname (by decide +kernel), Option.bind_some]
  have hdrop : ('>' :: rest).dropWhile isWhite = '>' :: rest :=
    List.dropWhile_cons_of_neg (by decide)
  rw [hdrop]
  exact if_pos rfl

end Content

section Documents

variable {rest : Text}

theorem isWritable_element
    {o : Option Empty} {name : Text} {attrs : List (Text × Text)} {cs : List Xml} :
    (XmlNode.element o name attrs cs).isWritable = true ↔
      isXmlName name = true ∧ isAttrList attrs = true ∧ textsApart cs = true ∧
        ∀ c ∈ cs, c.isWritable = true := by
  rw [isWritable, everywhere_element]
  simp only [isLegible, children, Bool.and_eq_true, and_assoc]
  rfl

theorem not_mem_of_isXmlName
    {name : Text}
    (h : isXmlName name = true) :
    '\r' ∉ name := by
  have hcr : isNameStart '\r' = false ∧ isNameChar '\r' = false := by decide +kernel
  cases name with
  | nil => simp
  | cons c name =>
      simp only [isXmlName, Bool.and_eq_true, List.all_eq_true] at h
      intro hmem
      rcases List.mem_cons.mp hmem with rfl | hmem
      · simp [hcr.1] at h
      · simpa [hcr.2] using h.2 _ hmem

theorem not_mem_dumpAttr
    {attrs : List (Text × Text)}
    (h : isAttrList attrs = true) :
    '\r' ∉ attrs.flatMap dumpAttr := by
  simp only [isAttrList, Bool.and_eq_true, List.all_eq_true] at h
  intro hmem
  obtain ⟨a, ha, hmem⟩ := List.mem_flatMap.mp hmem
  have hname := not_mem_of_isXmlName (h.1 a ha).1
  have hval : '\r' ∉ a.2.flatMap escapeAttr := by
    intro hmem
    obtain ⟨c, -, hc⟩ := List.mem_flatMap.mp hmem
    exact (escapeAttr_clean c).2 hc
  simp [dumpAttr, hname, hval] at hmem

theorem isText_eq (n : Xml) : isText n = n.isTextNode := by
  cases n <;> rfl

theorem isWhite_indentation (level : Nat) : ∀ c ∈ indentation level, isWhite c = true := by
  intro c hc
  rw [indentation] at hc
  rw [(List.mem_replicate.mp hc).2]
  decide

/-- The start tag of an element, up to what ends it. -/
theorem readTag
    (mark : Char)
    (tail : Text)
    {name : Text} {attrs : List (Text × Text)} {empty : Bool}
    (hname : isXmlName name = true)
    (hattrs : isAttrList attrs = true)
    (hmark : isNameChar mark = false)
    (hclose : ∀ fuel attrs, 0 < fuel →
      readAttrs fuel attrs (mark :: tail) = some (attrs, empty, rest)) :
    ∃ u, readName (name ++ (attrs.flatMap dumpAttr ++ mark :: tail)) = some (name, u) ∧
      readAttrs (u.length + 1) [] u = some (attrs, empty, rest) := by
  simp only [isAttrList, Bool.and_eq_true, List.all_eq_true, decide_eq_true_eq] at hattrs
  refine ⟨attrs.flatMap dumpAttr ++ mark :: tail, ?_, ?_⟩
  · cases attrs with
    | nil => exact readName_legal hname hmark tail
    | cons a attrs =>
        have hshape : (a :: attrs).flatMap dumpAttr ++ mark :: tail =
            ' ' :: ((dumpAttr a).tail ++ attrs.flatMap dumpAttr ++ mark :: tail) := by
          simp [dumpAttr]
        rw [hshape]
        exact readName_legal hname (by decide +kernel) _
  · exact readAttrs_dump (attrs, empty, rest) hattrs.1 (by simpa using hattrs.2) hclose
      (by simp)

/-- What is written of a node other than a text starts with a mark. -/
theorem exists_mark_of_dump
    {node : Xml}
    (h : node.isTextNode = false)
    (format : Bool)
    (level : Nat) :
    ∃ s, xmlNodeDump format level node = '<' :: s := by
  cases node with
  | element o name attrs cs =>
      cases cs with
      | nil => exact ⟨_, by rw [xmlNodeDump, List.cons_append, List.cons_append]⟩
      | cons c cs => exact ⟨_, by rw [xmlNodeDump]; simp only [List.cons_append]; rfl⟩
  | text o content => cases h
  | comment o content => exact ⟨"!--".toList ++ content ++ "-->".toList, by rw [xmlNodeDump]; rfl⟩

/-- An element without children. -/
theorem elementReads_empty
    {name : Text} {attrs : List (Text × Text)}
    (hname : isXmlName name = true)
    (hattrs : isAttrList attrs = true)
    (rest : Text) :
    ElementReads (name ++ (attrs.flatMap dumpAttr ++ '/' :: '>' :: rest))
      (.element none name attrs [], rest) := by
  intro fuel hfuel
  obtain ⟨fuel, rfl⟩ : ∃ k, fuel = k + 1 := ⟨fuel - 1, by simp at hfuel; omega⟩
  obtain ⟨u, hread, htag⟩ := readTag '/' ('>' :: rest) hname hattrs
    (by decide +kernel) (by
      intro fuel attrs hpos
      obtain ⟨fuel, rfl⟩ : ∃ k, fuel = k + 1 := ⟨fuel - 1, by omega⟩
      exact readAttrs_empty fuel attrs rest)
  exact readElement_empty hread htag fuel

/-- An element with children, of which the content is known to be read. -/
theorem elementReads_content
    {name content : Text} {attrs : List (Text × Text)} {cs : List Xml}
    (hname : isXmlName name = true)
    (hattrs : isAttrList attrs = true)
    (hcontent : ContentReads content (cs, name ++ '>' :: rest)) :
    ElementReads (name ++ (attrs.flatMap dumpAttr ++ '>' :: content))
      (.element none name attrs cs, rest) := by
  intro fuel hfuel
  obtain ⟨fuel, rfl⟩ : ∃ k, fuel = k + 1 := ⟨fuel - 1, by simp at hfuel; omega⟩
  obtain ⟨u, hread, htag⟩ := readTag '>' content hname hattrs
    (by decide +kernel) (by
      intro fuel attrs hpos
      obtain ⟨fuel, rfl⟩ : ∃ k, fuel = k + 1 := ⟨fuel - 1, by omega⟩
      exact readAttrs_close fuel attrs content)
  have hlen : content.length ≤ fuel := by
    simp only [List.length_append, List.length_cons] at hfuel
    omega
  rw [readElement, hread, Option.bind_some, htag, Option.bind_some, if_neg (by simp),
    hcontent fuel hlen, Option.bind_some, readEndTag_append hname]
  rfl

/-- A node other than a text among the children of an element, with the blanks around it. -/
theorem contentReads_cons
    {node : Xml} {cs : List Xml} {format : Bool} {level : Nat} {before tail : Text}
    (hnode : node.isTextNode = false)
    (hbefore : ∀ c ∈ before, isWhite c = true)
    (hread : ContentReads
      (xmlNodeDump format level node ++ ((if format then "\n".toList else []) ++
        (xmlNodeListDump format level cs ++ tail)))
      (node :: cs, rest)) :
    ContentReads (before ++ (xmlNodeListDump format level (node :: cs) ++ tail))
      (node :: cs, rest) := by
  obtain ⟨s, hs⟩ := exists_mark_of_dump hnode format level
  have hblanks : ∀ c ∈ before ++ (if format then indentation level else []),
      isWhite c = true := by
    intro c hc
    rcases List.mem_append.mp hc with hc | hc
    · exact hbefore c hc
    · split at hc
      · exact isWhite_indentation level c hc
      · cases hc
  rw [hs, List.cons_append] at hread
  have hall := hread.blanks hblanks
  rw [xmlNodeListDump, hs]
  simpa only [List.append_assoc, List.cons_append] using hall

/-- The line end behind a node is a blank. -/
theorem isWhite_lineEnd
    {after : Text}
    (format : Bool)
    (hafter : ∀ c ∈ after, isWhite c = true) :
    ∀ c ∈ (if format then "\n".toList else []) ++ after, isWhite c = true := by
  intro c hc
  rcases List.mem_append.mp hc with hc | hc
  · split at hc
    · rw [List.mem_singleton.mp hc]
      decide
    · cases hc
  · exact hafter c hc

mutual

/-- An element is read back from what is written of it. -/
theorem elementReads_dump :
    ∀ (node : Xml) (format : Bool) (level : Nat) (rest : Text),
      node.isWritable = true → node.isElement = true →
      ∃ c s, xmlNodeDump format level node = '<' :: c :: s ∧ isNameStart c = true ∧
        ElementReads (c :: s ++ rest) (node, rest)
  | .element none [] attrs cs, format, level, rest, h, _ => by
      cases (isWritable_element.mp h).1
  | .element none (c :: name) attrs [], format, level, rest, h, _ => by
      obtain ⟨hname, hattrs, -, -⟩ := isWritable_element.mp h
      refine ⟨c, name ++ attrs.flatMap dumpAttr ++ "/>".toList, rfl, ?_, ?_⟩
      · simp only [isXmlName, Bool.and_eq_true] at hname
        exact hname.1
      · have hread := elementReads_empty hname hattrs rest
        have hshape : c :: (name ++ attrs.flatMap dumpAttr ++ "/>".toList) ++ rest =
            c :: name ++ (attrs.flatMap dumpAttr ++ '/' :: '>' :: rest) := by
          simp
        rw [hshape]
        exact hread
  | .element none (c :: name) attrs (child :: children), format, level, rest, h, _ => by
      obtain ⟨hname, hattrs, hapart, hall⟩ := isWritable_element.mp h
      let inner := format && !(child :: children).any isText
      have hcontent := contentReads_dump (child :: children) inner (level + 1)
        (if inner then "\n".toList else []) (if inner then indentation level else [])
        (c :: name ++ '>' :: rest) hall hapart
        (fun hinner => by
          simp only [inner, Bool.and_eq_true, Bool.not_eq_true'] at hinner
          exact hinner.2)
        (by
          intro d hd
          rcases List.mem_append.mp hd with hd | hd
          · split at hd
            · rw [List.mem_singleton.mp hd]
              decide
            · cases hd
          · split at hd
            · exact isWhite_indentation level d hd
            · cases hd)
        (fun hinner => by simp [hinner])
      have hread := elementReads_content hname hattrs hcontent
      refine ⟨c, _, by rw [xmlNodeDump]; simp only [List.cons_append]; rfl, ?_, ?_⟩
      · simp only [isXmlName, Bool.and_eq_true] at hname
        exact hname.1
      · simpa [inner] using hread
  | .text _ _, _, _, _, _, helem => by cases helem
  | .comment _ _, _, _, _, _, helem => by cases helem

/-- The children of an element are read back, with blanks around them where there is no text. -/
theorem contentReads_dump :
    ∀ (cs : List Xml) (format : Bool) (level : Nat) (before after rest : Text),
      (∀ c ∈ cs, c.isWritable = true) → textsApart cs = true →
      (format = true → cs.any isText = false) →
      (∀ c ∈ before ++ after, isWhite c = true) → (format = false → before = [] ∧ after = []) →
      ContentReads (before ++ (xmlNodeListDump format level cs ++ (after ++ '<' :: '/' :: rest)))
        (cs, rest)
  | [], format, level, before, after, rest, _, _, _, hblanks, _ => by
      rw [xmlNodeListDump, List.nil_append, ← List.append_assoc]
      exact (contentReads_close rest).blanks hblanks
  | .text none content :: cs, format, level, before, after, rest, hall, hapart, hformat, hblanks,
      hplain => by
      have hformat : format = false := by
        cases hf : format with
        | false => rfl
        | true => simpa [isText] using hformat hf
      obtain ⟨rfl, rfl⟩ := hplain hformat
      subst hformat
      simp only [textsApart, isTextNode, isBlankText, Bool.true_and, Bool.and_eq_true,
        Bool.not_eq_true'] at hapart
      have hrest := contentReads_dump cs false level [] [] rest
        (fun d hd => hall d (List.mem_cons_of_mem _ hd)) hapart.2 (by simp) (by simp) (by simp)
      have hlegible := everywhere_head (hall _ List.mem_cons_self)
      simp only [isLegible, Bool.and_eq_true, List.all_eq_true] at hlegible
      obtain ⟨t, ht⟩ : ∃ t, xmlNodeListDump false level cs ++ '<' :: '/' :: rest = '<' :: t := by
        cases cs with
        | nil => exact ⟨_, rfl⟩
        | cons d cs =>
            obtain ⟨t, ht⟩ := exists_mark_of_dump (by simpa using hapart.1.2) false level
            exact ⟨t ++ (xmlNodeListDump false level cs ++ '<' :: '/' :: rest), by
              simp [xmlNodeListDump, ht]⟩
      rw [List.nil_append, List.nil_append, ht] at hrest
      have hread := hrest.text hlegible.1 hapart.1.1
      simpa [xmlNodeListDump, xmlNodeDump, ht] using hread
  | .comment none content :: cs, format, level, before, after, rest, hall, hapart, hformat, hblanks,
      hplain => by
      simp only [textsApart, isTextNode, isBlankText, Bool.false_and, Bool.not_false,
        Bool.true_and] at hapart
      have hrest := contentReads_dump cs format level (if format then "\n".toList else []) after rest
        (fun d hd => hall d (List.mem_cons_of_mem _ hd)) hapart
        (fun hf => by simpa [isText] using hformat hf)
        (isWhite_lineEnd format fun c hc => hblanks c (List.mem_append_right _ hc))
        (fun hf => ⟨by simp [hf], (hplain hf).2⟩)
      have hlegible := everywhere_head (hall _ List.mem_cons_self)
      simp only [Bool.and_eq_true] at hlegible
      refine contentReads_cons rfl (fun c hc => hblanks c (List.mem_append_left _ hc)) ?_
      rw [xmlNodeDump]
      exact hrest.comment hlegible.1
  | .element o name attrs children :: cs, format, level, before, after, rest, hall, hapart, hformat,
      hblanks, hplain => by
      simp only [textsApart, isTextNode, isBlankText, Bool.false_and, Bool.not_false,
        Bool.true_and] at hapart
      have hrest := contentReads_dump cs format level (if format then "\n".toList else []) after rest
        (fun d hd => hall d (List.mem_cons_of_mem _ hd)) hapart
        (fun hf => by simpa [isText] using hformat hf)
        (isWhite_lineEnd format fun c hc => hblanks c (List.mem_append_right _ hc))
        (fun hf => ⟨by simp [hf], (hplain hf).2⟩)
      obtain ⟨c, s, hdump, hstart, hread⟩ := elementReads_dump (.element o name attrs children)
        format level ((if format then "\n".toList else []) ++
          (xmlNodeListDump format level cs ++ (after ++ '<' :: '/' :: rest)))
        (hall _ List.mem_cons_self) rfl
      obtain ⟨-, -, hslash, hbang, hask⟩ := nameStart_spec hstart
      refine contentReads_cons rfl (fun c hc => hblanks c (List.mem_append_left _ hc)) ?_
      rw [hdump, List.cons_append, List.cons_append]
      rw [List.cons_append] at hread
      exact hrest.element ⟨hslash, hbang, hask⟩ hread (by simp)

end

mutual

/-- What is written has no carriage return, so that its line ends are not changed. -/
theorem not_mem_dump :
    ∀ (node : Xml) (format : Bool) (level : Nat), node.isWritable = true →
      '\r' ∉ xmlNodeDump format level node
  | .element o name attrs cs, format, level, h => by
      obtain ⟨hname, hattrs, -, hall⟩ := isWritable_element.mp h
      have hname : '\r' ∉ name := not_mem_of_isXmlName hname
      have hattrs : '\r' ∉ attrs.flatMap dumpAttr := not_mem_dumpAttr hattrs
      cases cs with
      | nil => simp [xmlNodeDump, hname, hattrs]
      | cons child children =>
          have hcontent := not_mem_listDump (child :: children)
            (format && !(child :: children).any isText) (level + 1) hall
          simp only [xmlNodeDump, List.mem_append, List.mem_cons, hname, hattrs, hcontent]
          split <;> simp [indentation]
  | .text o content, format, level, h => by
      rw [xmlNodeDump]
      intro hmem
      obtain ⟨c, -, hc⟩ := List.mem_flatMap.mp hmem
      exact (escapeText_clean c).2.2 hc
  | .comment o content, format, level, h => by
      have hlegible := everywhere_head h
      simp only [isLegible, isCommentText, Bool.and_eq_true, Bool.not_eq_true'] at hlegible
      have hcontent : '\r' ∉ content := by simpa using hlegible.1.1.2
      simp [xmlNodeDump, hcontent]

theorem not_mem_listDump :
    ∀ (cs : List Xml) (format : Bool) (level : Nat), (∀ c ∈ cs, c.isWritable = true) →
      '\r' ∉ xmlNodeListDump format level cs
  | [], _, _, _ => by simp [xmlNodeListDump]
  | c :: cs, format, level, hall => by
      have hnode := not_mem_dump c format level (hall c List.mem_cons_self)
      have hrest := not_mem_listDump cs format level fun d hd => hall d (List.mem_cons_of_mem _ hd)
      simp only [xmlNodeListDump, List.mem_append, hnode, hrest]
      split <;> simp [indentation]

end

variable {node : Xml}

/-- `xmlReadFile` gives back the tree that `xml_dump_node` has written, whatever stands before the
root element without being one. -/
theorem xmlReadDoc_of_dump
    {content : Text}
    (hnode : node.isWritable = true)
    (helem : node.isElement = true)
    (hdecl : skipDecl (lineEnds false content) = some (xmlDumpNode node)) :
    xmlReadDoc content = some node := by
  obtain ⟨c, s, hdump, hstart, hread⟩ := elementReads_dump node true 0 [] hnode helem
  obtain ⟨-, -, -, hbang, hask⟩ := nameStart_spec hstart
  have hmisc : skipMisc (('<' :: c :: s).length + 1) ('<' :: c :: s) = some ('<' :: c :: s) := by
    have hdrop : ('<' :: c :: s).dropWhile isWhite = '<' :: c :: s :=
      List.dropWhile_cons_of_neg (by decide)
    rw [skipMisc, hdrop]
    split
    · rename_i heq
      exact absurd (List.cons.inj (List.cons.inj heq).2).1 hbang
    · rename_i heq
      exact absurd (List.cons.inj (List.cons.inj heq).2).1 hask
    · rfl
  rw [List.append_nil] at hread
  have hroot := hread ('<' :: c :: s).length (by simp)
  unfold xmlReadDoc
  simp only [hdecl, Option.bind_some]
  rw [xmlDumpNode, hdump, hmisc, Option.bind_some]
  show (readElement ('<' :: c :: s).length (c :: s)).bind _ = some node
  rw [hroot]
  rfl

/-- A document without a declaration. -/
theorem xmlReadDoc_dump
    (hnode : node.isWritable = true)
    (helem : node.isElement = true) :
    xmlReadDoc (xmlDumpNode node) = some node := by
  refine xmlReadDoc_of_dump hnode helem ?_
  have hlines : lineEnds false (xmlDumpNode node) = xmlDumpNode node :=
    lineEnds_eq_self (not_mem_dump node true 0 hnode)
  rw [hlines]
  obtain ⟨c, s, hdump, hstart, -⟩ := elementReads_dump node true 0 [] hnode helem
  obtain ⟨-, -, -, -, hask⟩ := nameStart_spec hstart
  rw [skipDecl, xmlDumpNode, hdump, if_neg]
  simp [List.isPrefixOf, Ne.symm hask]

end Documents

end Obix
