import Obix.Utils.Strings

/-!
# XML nodes

The part of the DOM that the server reads: elements with attributes and
children, text and comments.  Every node carries the `_private` pointer, here
the optional descriptor `owner` of type `ω`; contracts sent by clients have no
descriptors and are of type `Xml`.

The look-up functions are those of `xml_utils.c`.
-/

namespace Obix

open CString

/-- A node of a DOM tree whose `_private` pointers refer to descriptors of type `ω`. -/
inductive XmlNode (ω : Type)
  | element
      (owner : Option ω)
      (name : Text)
      (attrs : List (Text × Text))
      (children : List (XmlNode ω)) :
      XmlNode ω
  | text (owner : Option ω) (content : Text) : XmlNode ω
  | comment (owner : Option ω) (content : Text) : XmlNode ω

/-- A node of a contract. -/
abbrev Xml := XmlNode Empty

namespace XmlNode

variable {ω : Type}

/-- The `_private` pointer. -/
def owner : XmlNode ω → Option ω
  | element o _ _ _ => o
  | text o _ => o
  | comment o _ => o

/-- The children of a node. -/
def children : XmlNode ω → List (XmlNode ω)
  | element _ _ _ cs => cs
  | text _ _ => []
  | comment _ _ => []

/-- `node->type == XML_ELEMENT_NODE`. -/
def isElement : XmlNode ω → Bool
  | element _ _ _ _ => true
  | text _ _ => false
  | comment _ _ => false

/-- `node->name` of an element. -/
def hasName (tag : Text) : XmlNode ω → Bool
  | element _ name _ _ => name = tag
  | text _ _ => false
  | comment _ _ => false

/-- `xmlGetProp`. -/
def getProp (attr : Text) : XmlNode ω → Option Text
  | element _ _ attrs _ => attrs.lookup attr
  | text _ _ => none
  | comment _ _ => none

/-- Whether `xml_find_child` stops at a node. -/
def matchesChild
    (tag attrName attrVal : Option Text)
    (node : XmlNode ω) :
    Bool :=
  node.isElement &&
    tag.all (fun t => node.hasName t) &&
    match attrName with
    | none => true
    | some a =>
        match node.getProp a with
        | none => false
        | some v => attrVal.all (fun w => v = w)

/-- `xml_find_child`: the first direct child with the tag and the attribute. -/
def findChild
    (parent : XmlNode ω)
    (tag attrName attrVal : Option Text) :
    Option (XmlNode ω) :=
  if attrName.isNone && tag.isNone then none
  else parent.children.find? (matchesChild tag attrName attrVal)

end XmlNode

variable {ω : Type}

/-- The attribute `name`. -/
def attrName : Text := "name".toList

/-- The attribute `val`. -/
def attrVal : Text := "val".toList

/-- The attribute `href`. -/
def attrHref : Text := "href".toList

/-- `xml_get_child_val` with a name: the `val` attribute of the first child with
the tag and the name. -/
def xmlGetChildVal
    (parent : XmlNode ω)
    (tag nameVal : Text) :
    Option Text :=
  (parent.findChild (some tag) (some attrName) (some nameVal)).bind
    (XmlNode.getProp attrVal)

/-- `xml_get_child_long`: a missing value reads as `-1`. -/
def xmlGetChildLong
    (parent : XmlNode ω)
    (tag nameVal : Text) :
    Int :=
  match xmlGetChildVal parent tag nameVal with
  | none => -1
  | some value =>
      match strToLong value with
      | .ok l => l
      | .error ret => ret

end Obix
