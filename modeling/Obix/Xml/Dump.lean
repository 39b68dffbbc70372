import Obix.Xml.Node

/-!
# The serialiser

`xmlNodeDump` of the XML library with indentation, as `xml_dump_node` calls it:
attributes and children in document order, children of an element without text
on lines of their own.  Results about the server take the serialiser as a
parameter; this one is used for concrete documents.
-/

namespace Obix

open CString

/-- A character of an attribute value. -/
def escapeAttr (c : Char) : Text :=
  if c = '&' then "&amp;".toList
  else if c = '<' then "&lt;".toList
  else if c = '>' then "&gt;".toList
  else if c = '\"' then "&quot;".toList
  else if c = '\n' then "&#10;".toList
  else if c = '\r' then "&#13;".toList
  else if c = '\t' then "&#9;".toList
  else [c]

/-- A character of a text node. -/
def escapeText (c : Char) : Text :=
  if c = '&' then "&amp;".toList
  else if c = '<' then "&lt;".toList
  else if c = '>' then "&gt;".toList
  else if c = '\r' then "&#13;".toList
  else [c]

def dumpAttr (attr : Text × Text) : Text :=
  ' ' :: attr.1 ++ "=\"".toList ++ attr.2.flatMap escapeAttr ++ "\"".toList

def indentation (level : Nat) : Text := List.replicate (2 * level) ' '

def isText : Xml → Bool
  | .element _ _ _ _ => false
  | .text _ _ => true
  | .comment _ _ => false

mutual

/-- `xmlNodeDump` at a level of indentation, with or without formatting. -/
def xmlNodeDump : Bool → Nat → Xml → Text
  | _, _, .text _ content => content.flatMap escapeText
  | _, _, .comment _ content => "<!--".toList ++ content ++ "-->".toList
  | _, _, .element _ name attrs [] =>
      '<' :: name ++ attrs.flatMap dumpAttr ++ "/>".toList
  | format, level, .element _ name attrs (child :: children) =>
      let inner := format && !(child :: children).any isText
      '<' :: name ++ attrs.flatMap dumpAttr ++ ">".toList ++
        (if inner then "\n".toList else []) ++
        xmlNodeListDump inner (level + 1) (child :: children) ++
        (if inner then indentation level else []) ++
        "</".toList ++ name ++ ">".toList

/-- The children of a node. -/
def xmlNodeListDump : Bool → Nat → List Xml → Text
  | _, _, [] => []
  | format, level, node :: nodes =>
      (if format then indentation level else []) ++
        xmlNodeDump format level node ++
        (if format then "\n".toList else []) ++
        xmlNodeListDump format level nodes

end

/-- `xml_dump_node`. -/
def xmlDumpNode (node : Xml) : Text := xmlNodeDump true 0 node

end Obix
