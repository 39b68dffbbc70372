import Obix.Xml.Reader
import Obix.Lib.Sprintf

/-!
# Contracts of named values

A contract whose children are empty elements with a name and a value each, one on a line, is read
as what was printed, as long as the names and values stand for themselves between double quotes
(`readContent_items`).
-/

namespace Obix

open CString

/-- An empty element with a name and a value. -/
structure NamedItem where
  tag : Text
  name : Text
  val : Text
  deriving DecidableEq, Repr

namespace NamedItem

variable (x : NamedItem)

/-- The node of an item. -/
def node : Xml := .element none x.tag [(attrName, x.name), (attrVal, x.val)] []

/-- An item behind its `<`, before a text. -/
def before (rest : Text) : Text :=
  x.tag ++ (" name=".toList ++ '"' :: (x.name ++
    '"' :: (" val=".toList ++ '"' :: (x.val ++ '"' :: '/' :: '>' :: rest))))

/-- Everything between the quotes stands for itself. -/
structure Readable : Prop where
  tag : ∃ c t, x.tag = c :: t ∧ isNameStart c = true ∧ ∀ d ∈ t, isNameChar d = true
  name : ∀ c ∈ x.name, isPlain c = true
  val : ∀ c ∈ x.val, isPlain c = true

end NamedItem

/-- The lines of a contract, from the line end before the first one to what is behind the `</` of
the last one. -/
def itemLines (close : Text) : List NamedItem → Text
  | [] => '\n' :: '<' :: '/' :: close
  | x :: xs => '\n' :: '<' :: x.before (itemLines close xs)

section Reading

variable {x : NamedItem} {xs : List NamedItem} {close : Text}

/-- A name before a blank. -/
theorem readName_append
    {c : Char} {t s : Text}
    (hc : isNameStart c = true)
    (ht : ∀ d ∈ t, isNameChar d = true) :
    readName (c :: (t ++ ' ' :: s)) = some (c :: t, ' ' :: s) := by
  have hblank : isNameChar ' ' = false := by decide
  rw [readName, if_pos hc, List.takeWhile_append_of_pos ht, List.dropWhile_append_of_pos ht,
    List.takeWhile_cons_of_neg (by simp [hblank]), List.dropWhile_cons_of_neg (by simp [hblank]),
    List.append_nil]

/-- A value that stands for itself. -/
theorem readAttValue_plain
    {v : Text}
    (hv : ∀ c ∈ v, isPlain c = true)
    (rest : Text) :
    readAttValue ('"' :: (v ++ '"' :: rest)) = some (v, rest) := by
  have hread := readAttValue_of_isPlain hv rest
  rwa [lineEnds_eq_self (not_mem_of_isPlain (by decide) hv)] at hread

theorem readAttrs_name (fuel : Nat) (s : Text) :
    readAttrs (fuel + 1) [] (" name=".toList ++ '"' :: s) =
      (readAttValue ('"' :: s)).bind fun value => readAttrs fuel [(attrName, value.1)] value.2 :=
  rfl

theorem readAttrs_val (fuel : Nat) (name s : Text) :
    readAttrs (fuel + 1) [(attrName, name)] (" val=".toList ++ '"' :: s) =
      (readAttValue ('"' :: s)).bind fun value =>
        readAttrs fuel [(attrName, name), (attrVal, value.1)] value.2 :=
  rfl

/-- An item is read as its node. -/
theorem readElement_item
    (h : x.Readable)
    (fuel : Nat)
    (rest : Text) :
    readElement (fuel + 1) (x.before rest) = some (x.node, rest) := by
  obtain ⟨c, t, htag, hc, ht⟩ := h.tag
  have hname : readName (x.before rest) = some (x.tag, " name=".toList ++ '"' :: (x.name ++
      '"' :: (" val=".toList ++ '"' :: (x.val ++ '"' :: '/' :: '>' :: rest)))) := by
    rw [NamedItem.before, htag]
    exact readName_append hc ht
  refine readElement_empty hname ?_ fuel
  obtain ⟨m, hm⟩ : ∃ m, (" name=".toList ++ '"' :: (x.name ++
      '"' :: (" val=".toList ++ '"' :: (x.val ++ '"' :: '/' :: '>' :: rest)))).length + 1 =
        m + 1 + 1 + 1 := by
    refine ⟨(" name=".toList ++ '"' :: (x.name ++ '"' :: (" val=".toList ++
      '"' :: (x.val ++ '"' :: '/' :: '>' :: rest)))).length - 2, ?_⟩
    simp only [List.length_append, List.length_cons]
    omega
  rw [hm, readAttrs_name, readAttValue_plain h.name, Option.bind_some, readAttrs_val,
    readAttValue_plain h.val]
  rfl

/-- A tag does not begin like an end tag, a comment or an instruction. -/
theorem ne_of_isNameStart
    {c : Char}
    (hc : isNameStart c = true) :
    c ≠ '/' ∧ c ≠ '!' ∧ c ≠ '?' := by
  refine ⟨?_, ?_, ?_⟩
  · rintro rfl
    exact absurd hc (by decide)
  · rintro rfl
    exact absurd hc (by decide)
  · rintro rfl
    exact absurd hc (by decide)

/-- The items of a contract are read as their nodes. -/
theorem readContent_items
    (hall : ∀ x ∈ xs, x.Readable)
    (fuel : Nat) :
    readContent (fuel + 2 * xs.length + 2) (itemLines close xs) =
      some (xs.map NamedItem.node, close) := by
  induction xs generalizing fuel with
  | nil =>
      rw [itemLines, readContent_blank]
      rfl
  | cons x xs ih =>
      have hx := hall x List.mem_cons_self
      obtain ⟨c, t, htag, hc, -⟩ := hx.tag
      obtain ⟨s, hs⟩ : ∃ s, x.before (itemLines close xs) = c :: s := by
        rw [NamedItem.before, htag]
        exact ⟨_, rfl⟩
      have hfuel : fuel + 2 * (x :: xs).length + 2 = fuel + 2 * xs.length + 1 + 1 + 1 + 1 := by
        rw [List.length_cons]
        omega
      rw [hfuel, itemLines, readContent_blank, hs, readContent_element (ne_of_isNameStart hc),
        ← hs, readElement_item hx, Option.bind_some,
        ih (fun y hy => hall y (List.mem_cons_of_mem x hy)) fuel]
      rfl

end Reading

section Printing

variable {x : NamedItem} {xs : List NamedItem}

theorem NamedItem.before_append (x : NamedItem) (s t : Text) :
    x.before (s ++ t) = x.before s ++ t := by
  simp only [before, List.append_assoc, List.cons_append]

/-- A template for an item. -/
def itemTemplate (tag name : Text) (conversion : Char) : Text :=
  '<' :: (tag ++ (" name=\"".toList ++ (name ++ ("\" val=\"".toList ++
    '%' :: conversion :: "\"/>\r\n".toList))))

/-- What a template prints is an item and a line end. -/
theorem sprintf_itemTemplate
    {tag name : Text} {conversion : Char}
    (htag : '%' ∉ tag)
    (hname : '%' ∉ name)
    (hconversion : conversion = 's' ∨ conversion = 'd')
    (val : Text) :
    sprintf (itemTemplate tag name conversion) [val] =
      '<' :: NamedItem.before { tag := tag, name := name, val := val } "\r\n".toList := by
  have hliteral : ∀ s : Text, '%' ∉ s → sprintf s [] = s := by
    intro s hs
    have happend := sprintf_append hs [] []
    rw [List.append_nil] at happend
    rw [happend]
    exact List.append_nil s
  have hval : sprintf ('%' :: conversion :: "\"/>\r\n".toList) [val] =
      val ++ "\"/>\r\n".toList := by
    rcases hconversion with rfl | rfl
    · rw [sprintf_string, hliteral _ (by decide)]
    · rw [sprintf_decimal, hliteral _ (by decide)]
  have hopen : '%' ∉ '<' :: tag := by
    rw [List.mem_cons, not_or]
    exact ⟨by decide, htag⟩
  rw [itemTemplate, ← List.cons_append, sprintf_append hopen, sprintf_append (by decide),
    sprintf_append hname, sprintf_append (by decide), hval]
  simp [NamedItem.before]

/-- A line without a carriage return keeps its characters. -/
theorem lineEnds_line
    {s : Text}
    (h : '\r' ∉ s)
    (t : Text) :
    lineEnds false (s ++ '\r' :: '\n' :: t) = s ++ '\n' :: lineEnds false t := by
  induction s with
  | nil => rfl
  | cons c s ih =>
      obtain ⟨hc, hs⟩ := not_or.mp (mt List.mem_cons.mpr h)
      rw [List.cons_append, lineEnds, if_neg (Ne.symm hc), if_neg (by simp), ih hs]
      rfl

/-- The printed items, with carriage returns. -/
def printedItems (xs : List NamedItem) : Text :=
  xs.flatMap fun x => '<' :: x.before "\r\n".toList

/-- Lines are read without their carriage returns. -/
theorem lineEnds_printedItems
    (hall : ∀ x ∈ xs, x.Readable)
    {close : Text}
    (hclose : '\r' ∉ close) :
    '\n' :: lineEnds false (printedItems xs ++ '<' :: '/' :: close) = itemLines close xs := by
  induction xs with
  | nil =>
      have hend : '\r' ∉ '<' :: '/' :: close := by simpa using hclose
      rw [printedItems, List.flatMap_nil, List.nil_append, lineEnds_eq_self hend, itemLines]
  | cons x xs ih =>
      have hx := hall x List.mem_cons_self
      obtain ⟨c, t, htag, hc, ht⟩ := hx.tag
      have hcr : '\r' ∉ '<' :: x.before [] := by
        have hnotag : '\r' ∉ x.tag := by
          rw [htag, List.mem_cons, not_or]
          refine ⟨?_, fun hmem => absurd (ht _ hmem) (by decide)⟩
          rintro rfl
          exact absurd hc (by decide)
        have hnoname := not_mem_of_isPlain (c := '\r') (by decide) hx.name
        have hnoval := not_mem_of_isPlain (c := '\r') (by decide) hx.val
        simp [NamedItem.before, hnotag, hnoname, hnoval]
      have hline : printedItems (x :: xs) ++ '<' :: '/' :: close =
          ('<' :: x.before []) ++ '\r' :: '\n' :: (printedItems xs ++ '<' :: '/' :: close) := by
        have hrest := x.before_append [] "\r\n".toList
        rw [List.nil_append] at hrest
        rw [printedItems, List.flatMap_cons, ← printedItems, hrest]
        simp
      rw [hline, lineEnds_line hcr, itemLines,
        ← ih (fun y hy => hall y (List.mem_cons_of_mem x hy))]
      rw [List.cons_append, ← x.before_append, List.nil_append]

end Printing

section Lookup

variable {tag nameVal : Text}

theorem matchesChild_node (x : NamedItem) :
    XmlNode.matchesChild (some tag) (some attrName) (some nameVal) x.node =
      (decide (x.tag = tag) && decide (x.name = nameVal)) := by
  unfold XmlNode.matchesChild NamedItem.node
  simp [XmlNode.isElement, XmlNode.hasName, XmlNode.getProp]

/-- The value that is found for a tag and a name is that of the first item with both. -/
theorem xmlGetChildVal_items
    (name : Text)
    (attrs : List (Text × Text))
    (xs : List NamedItem) :
    xmlGetChildVal (.element none name attrs (xs.map NamedItem.node) : Xml) tag nameVal =
      (xs.find? fun x => decide (x.tag = tag) && decide (x.name = nameVal)).map
        NamedItem.val := by
  unfold xmlGetChildVal XmlNode.findChild
  rw [if_neg (by simp)]
  show ((xs.map NamedItem.node).find? _).bind _ = _
  rw [List.find?_map]
  have hmatches : XmlNode.matchesChild (some tag) (some attrName) (some nameVal) ∘
      NamedItem.node = fun x => decide (x.tag = tag) && decide (x.name = nameVal) :=
    funext fun x => matchesChild_node x
  rw [hmatches]
  cases xs.find? fun x => decide (x.tag = tag) && decide (x.name = nameVal) with
  | none => rfl
  | some x => rfl

end Lookup

end Obix
