import Obix.Xml.Node

/-!
# The global DOM tree

The operations of `xml_storage.c` and `xml_utils.c` that look up nodes by their
href and add nodes.  A node is found by going down from the root to the first
child with the next token as its `href`.

A tree is a value here: what the code does to a node whose address it holds is a
function that is applied at the place of the node.
-/

namespace Obix

open CString

namespace XmlNode

variable {ω : Type}

/-- `xmlSetProp`. -/
def setProp (attr value : Text) : XmlNode ω → XmlNode ω
  | element o name attrs cs =>
      element o name
        (if (attrs.lookup attr).isSome then
          attrs.map fun a => if a.1 = attr then (attr, value) else a
        else attrs ++ [(attr, value)])
        cs
  | node => node

/-- `xmlAddChild`. -/
def addChild (child : XmlNode ω) : XmlNode ω → XmlNode ω
  | element o name attrs cs => element o name attrs (cs ++ [child])
  | node => node

/-- Whether a node is an element with the given `href`. -/
def hasHref (token : Text) (node : XmlNode ω) : Bool :=
  matchesChild none (some attrHref) (some token) node

/-- The child of a node that `xml_find_child` finds for a token of a href. -/
def childAt (node : XmlNode ω) (token : Text) : Option (XmlNode ω) :=
  node.findChild none (some attrHref) (some token)

/-- Replace the first node of a list with a property. -/
def modifyFirst (p : XmlNode ω → Bool) (f : XmlNode ω → XmlNode ω) :
    List (XmlNode ω) → List (XmlNode ω)
  | [] => []
  | c :: cs => if p c then f c :: cs else c :: modifyFirst p f cs

/-- Do `f` to the node at the end of a path. -/
def modifyAt (f : XmlNode ω → XmlNode ω) : List Text → XmlNode ω → XmlNode ω
  | [], node => f node
  | token :: rest, element o name attrs cs =>
      element o name attrs (modifyFirst (hasHref token) (modifyAt f rest) cs)
  | _ :: _, node => node

/-- Do `f` to the node at the end of a path, where missing nodes are created from a
stub, as in `xmldb_create_ancestors`. -/
def ensureAt (stub : XmlNode ω) (f : XmlNode ω → XmlNode ω) :
    List Text → XmlNode ω → XmlNode ω
  | [], node => f node
  | token :: rest, element o name attrs cs =>
      element o name attrs
        (if cs.any (hasHref token) then modifyFirst (hasHref token) (ensureAt stub f rest) cs
        else cs ++ [ensureAt stub f rest (stub.setProp attrHref token)])
  | _ :: _, node => node

mutual

/-- `xml_setup_private`. -/
def setupPrivate (owner : ω) : XmlNode ω → XmlNode ω
  | element _ name attrs cs => element (some owner) name attrs (setupPrivateAll owner cs)
  | text _ content => text (some owner) content
  | comment _ content => comment (some owner) content

def setupPrivateAll (owner : ω) : List (XmlNode ω) → List (XmlNode ω)
  | [] => []
  | c :: cs => setupPrivate owner c :: setupPrivateAll owner cs

end

end XmlNode

variable {ω : Type}

/-- The tag `ref`. -/
def objRef : Text := "ref".toList

/-- `xmldb_set_relative_href_helper`: an absolute href becomes its last token, except
that of a reference.  A href of slashes only is an error and stays. -/
def relativeHref (node : XmlNode ω) : XmlNode ω :=
  match node.getProp attrHref with
  | none => node
  | some href =>
      if node.hasName objRef ∨ slashPreceded href = false ∨ href.all (· = '/') then node
      else node.setProp attrHref (basename href)

/-- `xmldb_get_node_core`. -/
def xmldbGetNodeCore (start : XmlNode ω) (href : Text) : Option (XmlNode ω) :=
  forEachStrToken '/' href XmlNode.childAt start

/-- `xmldb_get_node`. -/
def xmldbGetNode (root : XmlNode ω) (href : Text) : Option (XmlNode ω) :=
  if href = ['/'] then some root else xmldbGetNodeCore root href

/-- `xml_is_valid_href`. -/
def xmlIsValidHref (href : Text) : Bool :=
  !(href = [] || href = ['/'] || href.head?.any isSpace || href.contains '.' ||
    (find "//".toList href).isSome)

/-- `xmldb_put_node` with the option to create ancestors from a stub; `setup` is what
is done to the new node then.  The other hrefs in its subtree are relative. -/
def xmldbPutNode
    (stub node : XmlNode ω)
    (setup : XmlNode ω → XmlNode ω)
    (href : Text)
    (root : XmlNode ω) :
    Option (XmlNode ω) :=
  if xmlIsValidHref href then
    some (XmlNode.ensureAt stub (XmlNode.addChild (setup (relativeHref node)))
      (tokens '/' (dirname href)) root)
  else none

end Obix
