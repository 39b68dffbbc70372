import Obix.History.Store
import Obix.Xml.Dom
import Obix.Xml.Reader

/-!
# The meta file of a device

`__device_write_meta` and `device_load_meta` of `device.c`.  The owner and the href are
printed between double quotes as they are, so that the reader gives them back only if
all their characters are plain (`deviceLoadMeta_writeMeta_iff`).
-/

namespace Obix
namespace Devices

open CString

/-- `XML_HEADER`. -/
def xmlHeader : Text := "<?xml version=\"1.0\" encoding=\"UTF-8\"?>".toList

/-- `DEVICE_META_CONTRACT` with its two strings filled in. -/
def deviceMetaContract (ownerId href : Text) : Text :=
  "<obj of=\"nextdc:device-meta\">\r\n<str name=\"owner_id\" val=\"".toList ++ ownerId ++
    "\"/>\r\n<uri val=\"".toList ++ href ++ "\"/>\r\n</obj>".toList

/-- The content of the file that `__device_write_meta` writes. -/
def deviceWriteMeta (ownerId href : Text) : Text :=
  xmlHeader ++ deviceMetaContract ownerId href

/-- The tag `str`. -/
def objStr : Text := "str".toList

/-- The tag `uri`. -/
def objUri : Text := "uri".toList

/-- `DEVICE_OWNER_ID`. -/
def deviceOwnerId : Text := "owner_id".toList

/-- `meta_info_t`. -/
structure MetaInfo where
  ownerId : Text
  href : Text
  deriving DecidableEq, Repr

/-- `device_load_meta`; nothing is loaded if there is no file. -/
def deviceLoadMeta (file : Option Text) : Except ErrCode (Option MetaInfo) :=
  match file with
  | none => .ok none
  | some content =>
      match xmlReadDoc content with
      | none => .error .noMem
      | some root =>
          match xmlGetChildVal root objStr deviceOwnerId with
          | none => .error .noMem
          | some ownerId =>
              match (root.findChild (some objUri) none none).bind (XmlNode.getProp attrVal) with
              | none => .error .noMem
              | some href => .ok (some { ownerId := ownerId, href := href })

section RoundTrip

/-- The meta contract as the reader sees it, from the first quote of the owner on. -/
def metaRest (owner href : Text) : Text :=
  '"' :: (owner ++ '"' :: ("/>\n<uri val=".toList ++
    '"' :: (href ++ '"' :: "/>\n</obj>".toList)))

/-- The start of the meta contract up to the quote before the owner, with and without
the carriage return. -/
def metaOpen (eol : Text) : Text :=
  "<obj of=\"nextdc:device-meta\">".toList ++ (eol ++ "<str name=\"owner_id\" val=".toList)

theorem metaOpen_quote :
    "<obj of=\"nextdc:device-meta\">\r\n<str name=\"owner_id\" val=\"".toList =
      metaOpen "\r\n".toList ++ ['"'] := by
  decide +kernel

theorem metaMiddle_quote :
    "\"/>\r\n<uri val=\"".toList = '"' :: ("/>\r\n<uri val=".toList ++ ['"']) := by
  decide +kernel

theorem metaClose_quote :
    "\"/>\r\n</obj>".toList = '"' :: "/>\r\n</obj>".toList := by
  decide +kernel

theorem deviceMetaContract_eq (ownerId href : Text) :
    deviceMetaContract ownerId href =
      metaOpen "\r\n".toList ++
        '"' :: (ownerId ++ '"' :: ("/>\r\n<uri val=".toList ++
          '"' :: (href ++ '"' :: "/>\r\n</obj>".toList))) := by
  unfold deviceMetaContract
  rw [metaOpen_quote, metaMiddle_quote, metaClose_quote]
  simp only [List.append_assoc, List.cons_append, List.nil_append]

theorem lineEnds_deviceWriteMeta (ownerId href : Text) :
    lineEnds false (deviceWriteMeta ownerId href) =
      xmlHeader ++ (metaOpen "\n".toList ++
        metaRest (lineEnds false ownerId) (lineEnds false href)) := by
  have hquote : '"' ≠ '\r' ∧ '"' ≠ '\n' := by decide
  rw [deviceWriteMeta, deviceMetaContract_eq, ← List.append_assoc,
    lineEnds_append hquote.1 hquote.2, lineEnds_append hquote.1 hquote.2,
    lineEnds_append hquote.1 hquote.2, lineEnds_append hquote.1 hquote.2]
  have hhead : lineEnds false (xmlHeader ++ metaOpen "\r\n".toList) =
      xmlHeader ++ metaOpen "\n".toList := by
    decide +kernel
  have hmid : lineEnds false "/>\r\n<uri val=".toList = "/>\n<uri val=".toList := by decide +kernel
  have htail : lineEnds false "/>\r\n</obj>".toList = "/>\n</obj>".toList := by decide +kernel
  rw [hhead, hmid, htail, List.append_assoc, metaRest]

/-- The declaration at the start of the file is skipped. -/
theorem skipDecl_xmlHeader (s : Text) :
    skipDecl (xmlHeader ++ s) = some s := by
  have hhead : "<?xml ".toList.isPrefixOf (xmlHeader ++ s) = true := rfl
  have hfind : find "?>".toList (xmlHeader ++ s) = some 36 :=
    find_append_of_some (show find "?>".toList xmlHeader = some 36 by decide +kernel) s
  have htake : (xmlHeader ++ s).take 36 = xmlHeader.take 36 := rfl
  have hdrop : (xmlHeader ++ s).drop 38 = s := rfl
  have hchars : (xmlHeader.take 36).all isXmlChar = true := by decide +kernel
  rw [skipDecl, if_pos hhead, readUpto, hfind, Option.bind_some, htake, if_pos hchars]
  simp only [Option.map_some]
  exact congrArg some hdrop

/-- A document with a declaration is its root element. -/
theorem xmlReadDoc_of_xmlHeader
    {content s rest : Text}
    (hlines : lineEnds false content = xmlHeader ++ s)
    (hmisc : skipMisc (s.length + 1) s = some ('<' :: rest)) :
    xmlReadDoc content =
      (readElement ('<' :: rest).length rest).bind fun root =>
        (skipMisc (root.2.length + 1) root.2).bind fun rest =>
          if rest = [] then some root.1 else none := by
  unfold xmlReadDoc
  simp only [hlines, skipDecl_xmlHeader, Option.bind_some, hmisc]

/-- The start of the meta contract behind its first `<`. -/
def metaStart : Text := "obj of=\"nextdc:device-meta\">\n<str name=\"owner_id\" val=".toList

/-- The document is its root element. -/
theorem xmlReadDoc_deviceWriteMeta (ownerId href : Text) :
    ∃ fuel, xmlReadDoc (deviceWriteMeta ownerId href) =
      (readElement (fuel + 10)
        (metaStart ++ metaRest (lineEnds false ownerId) (lineEnds false href))).bind fun root =>
          (skipMisc (root.2.length + 1) root.2).bind fun rest =>
            if rest = [] then some root.1 else none := by
  have hmisc : ∀ s, skipMisc ((metaOpen "\n".toList ++ s).length + 1) (metaOpen "\n".toList ++ s) =
      some ('<' :: (metaStart ++ s)) := fun s => rfl
  obtain ⟨fuel, hfuel⟩ : ∃ fuel, ('<' :: (metaStart ++
      metaRest (lineEnds false ownerId) (lineEnds false href))).length = fuel + 10 := by
    refine ⟨_, (Nat.sub_add_cancel ?_).symm⟩
    simp only [List.length_cons, List.length_append]
    have hstart : 10 ≤ metaStart.length := by decide +kernel
    omega
  refine ⟨fuel, ?_⟩
  rw [xmlReadDoc_of_xmlHeader (lineEnds_deviceWriteMeta ownerId href) (hmisc _), hfuel]

/-- The attributes of the `str` element, as far as they are known before its value. -/
theorem readAttrs_str (fuel : Nat) (s : Text) :
    readAttrs (fuel + 2) [] (" name=\"owner_id\" val=".toList ++ '"' :: s) =
      (readAttValue ('"' :: s)).bind fun value =>
        readAttrs fuel [(attrName, deviceOwnerId), (attrVal, value.1)] value.2 :=
  rfl

theorem readAttrs_uri (fuel : Nat) (s : Text) :
    readAttrs (fuel + 1) [] (" val=".toList ++ '"' :: s) =
      (readAttValue ('"' :: s)).bind fun value => readAttrs fuel [(attrVal, value.1)] value.2 :=
  rfl

theorem readName_str (s : Text) :
    readName ("str name=\"owner_id\" val=".toList ++ s) =
      some (objStr, " name=\"owner_id\" val=".toList ++ s) :=
  rfl

theorem readName_uri (s : Text) :
    readName ("uri val=".toList ++ s) = some (objUri, " val=".toList ++ s) :=
  rfl

/-- The `str` element, whatever follows the value. -/
theorem readElement_str
    {fuel : Nat} {s : Text} {r : Xml × Text}
    (h : readElement (fuel + 1) ("str name=\"owner_id\" val=".toList ++ '"' :: s) = some r) :
    ∃ value more children, readAttValue ('"' :: s) = some value ∧
      r.1 = .element none objStr
        ((attrName, deviceOwnerId) :: (attrVal, value.1) :: more) children := by
  obtain ⟨name, tag, children, hname, htag, hnode, -⟩ := readElement_some h
  rw [readName_str] at hname
  obtain rfl := Option.some.inj hname
  obtain ⟨m, hm⟩ : ∃ m, (" name=\"owner_id\" val=".toList ++ '"' :: s).length + 1 = m + 2 :=
    ⟨_, rfl⟩
  rw [hm, readAttrs_str] at htag
  obtain ⟨value, hvalue, hrest⟩ := Option.bind_eq_some_iff.mp htag
  obtain ⟨more, hmore⟩ := readAttrs_extends hrest
  exact ⟨value, more, children, hvalue, by rw [hnode, ← hmore]; rfl⟩

theorem readElement_uri
    {fuel : Nat} {s : Text} {r : Xml × Text}
    (h : readElement (fuel + 1) ("uri val=".toList ++ '"' :: s) = some r) :
    ∃ value more children, readAttValue ('"' :: s) = some value ∧
      r.1 = .element none objUri ((attrVal, value.1) :: more) children := by
  obtain ⟨name, tag, children, hname, htag, hnode, -⟩ := readElement_some h
  rw [readName_uri] at hname
  obtain rfl := Option.some.inj hname
  obtain ⟨m, hm⟩ : ∃ m, (" val=".toList ++ '"' :: s).length + 1 = m + 1 := ⟨_, rfl⟩
  rw [hm, readAttrs_uri] at htag
  obtain ⟨value, hvalue, hrest⟩ := Option.bind_eq_some_iff.mp htag
  obtain ⟨more, hmore⟩ := readAttrs_extends hrest
  exact ⟨value, more, children, hvalue, by rw [hnode, ← hmore]; rfl⟩

/-- The `str` element when the value is followed by the end of its tag. -/
theorem readElement_str_of_value
    {s v rest : Text}
    (h : readAttValue ('"' :: s) = some (v, '/' :: '>' :: rest))
    (fuel : Nat) :
    readElement (fuel + 1) ("str name=\"owner_id\" val=".toList ++ '"' :: s) =
      some (.element none objStr [(attrName, deviceOwnerId), (attrVal, v)] [], rest) := by
  obtain ⟨m, hm⟩ : ∃ m, (" name=\"owner_id\" val=".toList ++ '"' :: s).length + 1 = m + 1 + 2 :=
    ⟨_, rfl⟩
  refine readElement_empty (readName_str ('"' :: s)) ?_ fuel
  rw [hm, readAttrs_str, h]
  rfl

theorem readElement_uri_of_value
    {s v rest : Text}
    (h : readAttValue ('"' :: s) = some (v, '/' :: '>' :: rest))
    (fuel : Nat) :
    readElement (fuel + 1) ("uri val=".toList ++ '"' :: s) =
      some (.element none objUri [(attrVal, v)] [], rest) := by
  obtain ⟨m, hm⟩ : ∃ m, (" val=".toList ++ '"' :: s).length + 1 = m + 1 + 1 := ⟨_, rfl⟩
  refine readElement_empty (readName_uri ('"' :: s)) ?_ fuel
  rw [hm, readAttrs_uri, h]
  rfl

/-- The root element: its start tag is known, its content is still to be read. -/
theorem readElement_metaStart (fuel : Nat) (s : Text) :
    readElement (fuel + 1) (metaStart ++ s) =
      (readContent fuel ('\n' :: '<' :: ("str name=\"owner_id\" val=".toList ++ s))).bind
        fun content =>
          (readEndTag "obj".toList content.2).map fun rest =>
            (.element none "obj".toList [("of".toList, "nextdc:device-meta".toList)] content.1,
              rest) :=
  rfl

/-- The content of the root element begins with the `str` element. -/
theorem readContent_str (fuel : Nat) (s : Text) :
    readContent (fuel + 2) ('\n' :: '<' :: ("str name=\"owner_id\" val=".toList ++ s)) =
      (readElement fuel ("str name=\"owner_id\" val=".toList ++ s)).bind fun r =>
        (readContent fuel r.2).map fun more => (r.1 :: more.1, more.2) := by
  rw [readContent_blank]
  exact readContent_element (by decide) fuel

theorem readContent_uri (fuel : Nat) (s : Text) :
    readContent (fuel + 2) ('\n' :: '<' :: ("uri val=".toList ++ s)) =
      (readElement fuel ("uri val=".toList ++ s)).bind fun r =>
        (readContent fuel r.2).map fun more => (r.1 :: more.1, more.2) := by
  rw [readContent_blank]
  exact readContent_element (by decide) fuel

/-- The value of a plain owner, with what follows it. -/
theorem readAttValue_owner
    {ownerId : Text}
    (howner : ∀ c ∈ ownerId, isPlain c = true)
    (s : Text) :
    readAttValue ('"' :: (lineEnds false ownerId ++ '"' :: ("/>\n<uri val=".toList ++ s))) =
      some (ownerId, '/' :: '>' :: '\n' :: '<' :: ("uri val=".toList ++ s)) :=
  readAttValue_of_isPlain howner _

theorem readAttValue_href
    {href : Text}
    (hhref : ∀ c ∈ href, isPlain c = true) :
    readAttValue ('"' :: (lineEnds false href ++ '"' :: "/>\n</obj>".toList)) =
      some (href, '/' :: '>' :: "\n</obj>".toList) :=
  readAttValue_of_isPlain hhref _

variable {ownerId href : Text}

/-- A meta file with plain strings. -/
theorem xmlReadDoc_of_isPlain
    (howner : ∀ c ∈ ownerId, isPlain c = true)
    (hhref : ∀ c ∈ href, isPlain c = true) :
    xmlReadDoc (deviceWriteMeta ownerId href) =
      some (.element none "obj".toList [("of".toList, "nextdc:device-meta".toList)]
        [.element none objStr [(attrName, deviceOwnerId), (attrVal, ownerId)] [],
          .element none objUri [(attrVal, href)] []]) := by
  obtain ⟨fuel, hread⟩ := xmlReadDoc_deviceWriteMeta ownerId href
  have hstr := readElement_str_of_value
    (readAttValue_owner howner ('"' :: (lineEnds false href ++ '"' :: "/>\n</obj>".toList)))
    (fuel + 6)
  have huri := readElement_uri_of_value (readAttValue_href hhref) (fuel + 4)
  rw [hread, readElement_metaStart, metaRest, readContent_str, hstr, Option.bind_some]
  rw [readContent_uri, huri]
  rfl

/-- What the reader makes of a meta file is made of what it reads in the root element. -/
theorem exists_content_of_xmlReadDoc
    {root : Xml}
    (h : xmlReadDoc (deviceWriteMeta ownerId href) = some root) :
    ∃ fuel content,
      readContent (fuel + 9) ('\n' :: '<' :: ("str name=\"owner_id\" val=".toList ++
        metaRest (lineEnds false ownerId) (lineEnds false href))) = some content ∧
      root = .element none "obj".toList [("of".toList, "nextdc:device-meta".toList)] content.1 := by
  obtain ⟨fuel, hread⟩ := xmlReadDoc_deviceWriteMeta ownerId href
  rw [hread, readElement_metaStart] at h
  obtain ⟨r, hr, h⟩ := Option.bind_eq_some_iff.mp h
  obtain ⟨content, hcontent, hr⟩ := Option.bind_eq_some_iff.mp hr
  obtain ⟨t, -, rfl⟩ := Option.map_eq_some_iff.mp hr
  obtain ⟨rest, -, h⟩ := Option.bind_eq_some_iff.mp h
  split at h
  · exact ⟨fuel, content, hcontent, (Option.some.inj h).symm⟩
  · cases h

/-- What the reader makes of the owner, if it makes anything of the file. -/
theorem xmlGetChildVal_owner
    {root : Xml}
    (h : xmlReadDoc (deviceWriteMeta ownerId href) = some root) :
    ∃ value, readAttValue (metaRest (lineEnds false ownerId) (lineEnds false href)) = some value ∧
      xmlGetChildVal root objStr deviceOwnerId = some value.1 := by
  obtain ⟨fuel, content, hcontent, rfl⟩ := exists_content_of_xmlReadDoc h
  rw [metaRest, readContent_str] at hcontent
  obtain ⟨node, hnode, hcontent⟩ := Option.bind_eq_some_iff.mp hcontent
  obtain ⟨more, -, rfl⟩ := Option.map_eq_some_iff.mp hcontent
  obtain ⟨value, attrs, children, hvalue, heq⟩ := readElement_str hnode
  refine ⟨value, hvalue, ?_⟩
  rw [heq]
  rfl

/-- What the reader makes of the href, if the owner is plain. -/
theorem findChild_uri
    {root : Xml}
    (howner : ∀ c ∈ ownerId, isPlain c = true)
    (h : xmlReadDoc (deviceWriteMeta ownerId href) = some root) :
    ∃ value, readAttValue ('"' :: (lineEnds false href ++ '"' :: "/>\n</obj>".toList)) = some value ∧
      (root.findChild (some objUri) none none).bind (XmlNode.getProp attrVal) = some value.1 := by
  obtain ⟨fuel, content, hcontent, rfl⟩ := exists_content_of_xmlReadDoc h
  have hstr := readElement_str_of_value
    (readAttValue_owner howner ('"' :: (lineEnds false href ++ '"' :: "/>\n</obj>".toList)))
    (fuel + 6)
  rw [metaRest, readContent_str, hstr, Option.bind_some] at hcontent
  obtain ⟨more, hmore, rfl⟩ := Option.map_eq_some_iff.mp hcontent
  rw [readContent_uri] at hmore
  obtain ⟨node, hnode, hmore⟩ := Option.bind_eq_some_iff.mp hmore
  obtain ⟨others, -, rfl⟩ := Option.map_eq_some_iff.mp hmore
  obtain ⟨value, attrs, children, hvalue, heq⟩ := readElement_uri hnode
  refine ⟨value, hvalue, ?_⟩
  rw [heq]
  rfl

/-- A meta file gives back the owner and the href exactly when all their characters
stand for themselves between double quotes. -/
theorem deviceLoadMeta_writeMeta_iff (ownerId href : Text) :
    deviceLoadMeta (some (deviceWriteMeta ownerId href)) =
        .ok (some { ownerId := ownerId, href := href }) ↔
      (∀ c ∈ ownerId, isPlain c = true) ∧ ∀ c ∈ href, isPlain c = true := by
  constructor
  · intro h
    unfold deviceLoadMeta at h
    dsimp only at h
    cases hdoc : xmlReadDoc (deviceWriteMeta ownerId href) with
    | none => simp [hdoc] at h
    | some root =>
        obtain ⟨owner, hvalue, hread⟩ := xmlGetChildVal_owner hdoc
        simp only [hdoc, hread] at h
        cases hval : (root.findChild (some objUri) none none).bind (XmlNode.getProp attrVal) with
        | none => simp [hval] at h
        | some found =>
            simp only [hval, Except.ok.injEq, Option.some.injEq, MetaInfo.mk.injEq] at h
            obtain ⟨rfl, rfl⟩ := h
            have howner : ∀ c ∈ owner.1, isPlain c = true :=
              isPlain_of_readAttValue (t := owner.2) hvalue
            obtain ⟨value, hvalue', hread'⟩ := findChild_uri howner hdoc
            obtain rfl := Option.some.inj (hread'.symm.trans hval)
            exact ⟨howner, isPlain_of_readAttValue (t := value.2) hvalue'⟩
  · rintro ⟨howner, hhref⟩
    simp only [deviceLoadMeta, xmlReadDoc_of_isPlain howner hhref]
    rfl

/-- An ampersand in an accepted href makes the meta file unreadable. -/
theorem deviceLoadMeta_writeMeta_ampersand :
    xmlIsValidHref "/obix/deviceRoot/a&b".toList = true ∧
      deviceLoadMeta (some (deviceWriteMeta "me".toList "/obix/deviceRoot/a&b".toList)) =
        .error .noMem := by
  constructor
  · decide +kernel
  · rw [deviceLoadMeta]
    have hread : xmlReadDoc (deviceWriteMeta "me".toList "/obix/deviceRoot/a&b".toList) = none := by
      decide +kernel
    simp only [hread]

end RoundTrip

end Devices
end Obix
