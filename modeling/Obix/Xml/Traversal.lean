import Obix.Xml.Owned

/-!
# The traversal of a subtree

`xml_for_each_node_type` of `xml_utils.c` with the callbacks that the storage hands to it.  A
callback works on one node: it fails, changes the node, or deletes it.  The traversal goes
below a node only after its callback, so that nodes of another type hide what is below them.

That is why `xmldb_delete_comment` finds no comment below an element
(`xmldbDeleteComment_element`).
-/

namespace Obix

open CString

/-- `xmlElementType`, for the nodes of the model. -/
inductive ElementType
  | element
  | text
  | comment
  deriving DecidableEq, Repr

/-- What a callback of the traversal does; it leaves the children of the node alone. -/
inductive NodeVisit (ω : Type)
  | failed
  | kept (node : XmlNode ω)
  | deleted

namespace XmlNode

variable {ω : Type}

/-- `node->type`. -/
def type : XmlNode ω → ElementType
  | element _ _ _ _ => .element
  | text _ _ => .text
  | comment _ _ => .comment

/-- A node with other children. -/
def withChildren (cs : List (XmlNode ω)) : XmlNode ω → XmlNode ω
  | element o name attrs _ => element o name attrs cs
  | text o content => text o content
  | comment o content => comment o content

/-- A node with another `_private` pointer. -/
def withOwner (owner : ω) : XmlNode ω → XmlNode ω
  | element _ name attrs cs => element (some owner) name attrs cs
  | text _ content => text (some owner) content
  | comment _ content => comment (some owner) content

section Traversal

variable (type : Option ElementType) (callback : XmlNode ω → NodeVisit ω)

/-- A node without children. -/
def visitLeaf (node : XmlNode ω) : Option (XmlNode ω) × Bool :=
  if type.any (· ≠ node.type) then (some node, true)
  else
    match callback node with
    | .failed => (some node, false)
    | .kept node => (some node, true)
    | .deleted => (none, true)

mutual

/-- `xml_for_each_node_type` at a node, without its siblings; no type stands for 0.  The second
component is whether all callbacks have succeeded. -/
def forEachNodeType : XmlNode ω → Option (XmlNode ω) × Bool
  | element o name attrs cs =>
      -- a node of another type is skipped with all that is below it
      if type.any (· ≠ .element) then (some (element o name attrs cs), true)
      else
        match callback (element o name attrs cs) with
        | .failed => (some (element o name attrs cs), false)
        | .kept node =>
            let inner := forEachSibling cs
            (some (node.withChildren inner.1), inner.2)
        | .deleted => (none, true)
  | text o content => visitLeaf type callback (text o content)
  | comment o content => visitLeaf type callback (comment o content)

/-- The loop of `xml_for_each_node_type` for a depth above 0. -/
def forEachSibling : List (XmlNode ω) → List (XmlNode ω) × Bool
  | [] => ([], true)
  | c :: cs =>
      let first := forEachNodeType c
      if first.2 then
        let rest := forEachSibling cs
        (first.1.toList ++ rest.1, rest.2)
      else (first.1.toList ++ cs, false)

end

end Traversal

mutual

/-- `xml_setup_private` is a traversal of nodes of all types. -/
theorem forEachNodeType_setupPrivate (owner : ω) :
    ∀ n : XmlNode ω, forEachNodeType none (fun m => .kept (m.withOwner owner)) n =
      (some (setupPrivate owner n), true)
  | element o name attrs cs => by
      rw [forEachNodeType, if_neg (by simp)]
      dsimp only
      rw [forEachSibling_setupPrivate owner cs]
      rfl
  | text o content => rfl
  | comment o content => rfl

theorem forEachSibling_setupPrivate (owner : ω) :
    ∀ cs : List (XmlNode ω), forEachSibling none (fun m => .kept (m.withOwner owner)) cs =
      (setupPrivateAll owner cs, true)
  | [] => rfl
  | c :: cs => by
      rw [forEachSibling, forEachNodeType_setupPrivate owner c]
      dsimp only
      rw [if_pos rfl, forEachSibling_setupPrivate owner cs]
      rfl

end

section Comments

def isComment : XmlNode ω → Bool
  | element _ _ _ _ => false
  | text _ _ => false
  | comment _ _ => true

mutual

/-- The nodes below a node, in document order. -/
def descendants : XmlNode ω → List (XmlNode ω)
  | element _ _ _ cs => descendantsAll cs
  | text _ _ => []
  | comment _ _ => []

def descendantsAll : List (XmlNode ω) → List (XmlNode ω)
  | [] => []
  | c :: cs => c :: (descendants c ++ descendantsAll cs)

end

mutual

/-- A tree without the comments below its root. -/
def withoutComments : XmlNode ω → XmlNode ω
  | element o name attrs cs => element o name attrs (withoutCommentsAll cs)
  | text o content => text o content
  | comment o content => comment o content

def withoutCommentsAll : List (XmlNode ω) → List (XmlNode ω)
  | [] => []
  | c :: cs =>
      if c.isComment then withoutCommentsAll cs
      else withoutComments c :: withoutCommentsAll cs

end

end Comments

end XmlNode

open XmlNode

variable {ω : Type}

/-- `xmldb_delete_comment_helper`. -/
def xmldbDeleteCommentHelper (_ : XmlNode ω) : NodeVisit ω :=
  .deleted

/-- `xmldb_delete_comment`: what is left of the tree. -/
def xmldbDeleteComment (node : XmlNode ω) : Option (XmlNode ω) :=
  (forEachNodeType (some .comment) xmldbDeleteCommentHelper node).1

/-- An element is not a comment, and so the traversal ends with it. -/
theorem xmldbDeleteComment_element
    (o : Option ω)
    (name : Text)
    (attrs : List (Text × Text))
    (cs : List (XmlNode ω)) :
    xmldbDeleteComment (element o name attrs cs) = some (element o name attrs cs) := by
  rw [xmldbDeleteComment, forEachNodeType, if_pos (by decide)]

/-- No comment is left below the root, and the other nodes are there in their order. -/
structure CommentsDeleted
    (root : XmlNode ω)
    (result : Option (XmlNode ω)) :
    Prop where
  gone : ∀ node, result = some node → ∀ n ∈ node.descendants, n.isComment = false
  kept : result.map withoutComments = if root.isComment then none else some root.withoutComments

/-- The comments of a tree are deleted exactly when there is none below its root. -/
theorem xmldbDeleteComment_iff (root : XmlNode ω) :
    CommentsDeleted root (xmldbDeleteComment root) ↔ ∀ n ∈ root.descendants, n.isComment = false := by
  cases root with
  | element o name attrs cs =>
      rw [xmldbDeleteComment_element]
      constructor
      · intro h
        exact h.gone _ rfl
      · intro h
        refine ⟨fun node hnode => ?_, rfl⟩
        rw [← Option.some.inj hnode]
        exact h
  | text o content =>
      refine ⟨fun _ n hn => absurd hn List.not_mem_nil, fun _ => ⟨fun node hnode => ?_, rfl⟩⟩
      rw [← Option.some.inj hnode]
      exact fun n hn => absurd hn List.not_mem_nil
  | comment o content =>
      refine ⟨fun _ n hn => absurd hn List.not_mem_nil, fun _ => ⟨fun node hnode => ?_, rfl⟩⟩
      cases hnode

/-- A comment in an object stays. -/
theorem xmldbDeleteComment_leaves :
    ¬ CommentsDeleted (element none "obj".toList [] [comment none "note".toList] : Xml)
      (xmldbDeleteComment (element none "obj".toList [] [comment none "note".toList])) := by
  intro h
  have hgone := h.gone _ (xmldbDeleteComment_element _ _ _ _) _ List.mem_cons_self
  cases hgone

end Obix
