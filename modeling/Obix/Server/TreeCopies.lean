import Obix.Watch.Service
import Obix.Xml.Traversal

/-!
# The three tree copies

`xml_copy` of `xml_utils.c`, `__device_copy_node` of `device.c` and `__hist_copy_node` of
`history.c` copy a tree without the nodes that the flags exclude.  The latter two change the
read region where the owner of a node is not that of its parent.

All of them build the copy with `xmlAddChild`, which joins a text to a text before it.  What they
build is the pruned tree with its texts joined, and the counters of the readers are in the end
what they were (`tree_copies_agree`).
-/

namespace Obix
namespace Copies

open CString XmlNode
open Watches (CopyFlags excluded)

variable {ω : Type}

section Building

/-- `xmlAddChild` at the end of a list of children: adjacent texts become one. -/
def joinLast (cs : List Xml) (c : Xml) : List Xml :=
  match cs.getLast?, c with
  | some (.text o s), .text _ t => cs.dropLast ++ [.text o (s ++ t)]
  | _, _ => cs ++ [c]

/-- A piece of what a tree says, in document order. -/
inductive Piece
  | opened (name : Text) (attrs : List (Text × Text))
  | character (c : Char)
  | comment (content : Text)
  | closed
  deriving DecidableEq, Repr

mutual

/-- What a tree says. -/
def content : Xml → List Piece
  | .element _ name attrs cs => .opened name attrs :: (contentAll cs ++ [.closed])
  | .text _ s => s.map .character
  | .comment _ s => [.comment s]

def contentAll : List Xml → List Piece
  | [] => []
  | c :: cs => content c ++ contentAll cs

end

theorem contentAll_append
    (cs ds : List Xml) :
    contentAll (cs ++ ds) = contentAll cs ++ contentAll ds := by
  induction cs with
  | nil => rfl
  | cons c cs ih => rw [List.cons_append, contentAll, contentAll, ih, List.append_assoc]

theorem contentAll_singleton (c : Xml) : contentAll [c] = content c := by
  rw [contentAll, contentAll, List.append_nil]

/-- A child is joined or added. -/
theorem joinLast_cases
    (cs : List Xml)
    (c : Xml) :
    joinLast cs c = cs ++ [c] ∨
      ∃ init o s o' t, cs = init ++ [.text o s] ∧ c = .text o' t ∧
        joinLast cs c = init ++ [.text o (s ++ t)] := by
  unfold joinLast
  split
  · rename_i o s o' t hlast
    refine Or.inr ⟨cs.dropLast, o, s, o', t, ?_, rfl, rfl⟩
    exact (List.dropLast_append_getLast? _ hlast).symm
  · exact Or.inl rfl

theorem contentAll_joinLast
    (cs : List Xml)
    (c : Xml) :
    contentAll (joinLast cs c) = contentAll cs ++ content c := by
  rcases joinLast_cases cs c with h | ⟨init, o, s, o', t, rfl, rfl, h⟩
  · rw [h, contentAll_append, contentAll_singleton]
  · rw [h, contentAll_append, contentAll_append, contentAll_singleton, contentAll_singleton]
    simp [content]

end Building

section Spec

variable (flags : CopyFlags)

mutual

/-- A tree without the subtrees below its root that are excluded. -/
def prune : XmlNode ω → Xml
  | .element _ name attrs cs => .element none name attrs (pruneAll cs)
  | .text _ s => .text none s
  | .comment _ s => .comment none s

def pruneAll : List (XmlNode ω) → List Xml
  | [] => []
  | c :: cs => if excluded flags 1 c then pruneAll cs else prune c :: pruneAll cs

end

mutual

/-- A tree with its adjacent texts joined. -/
def joinTexts : Xml → Xml
  | .element o name attrs cs => .element o name attrs (joinTextsAll cs [])
  | .text o s => .text o s
  | .comment o s => .comment o s

def joinTextsAll : List Xml → List Xml → List Xml
  | [], joined => joined
  | c :: cs, joined => joinTextsAll cs (joinLast joined (joinTexts c))

end

mutual

/-- Joining texts changes nothing that a tree says. -/
theorem content_joinTexts : ∀ x : Xml, content (joinTexts x) = content x
  | .element o name attrs cs => by
      rw [joinTexts, content, content, contentAll_joinTextsAll cs []]
      rfl
  | .text _ _ => rfl
  | .comment _ _ => rfl

theorem contentAll_joinTextsAll :
    ∀ cs joined : List Xml, contentAll (joinTextsAll cs joined) = contentAll joined ++ contentAll cs
  | [], joined => by rw [joinTextsAll, contentAll, List.append_nil]
  | c :: cs, joined => by
      rw [joinTextsAll, contentAll_joinTextsAll cs, contentAll_joinLast, content_joinTexts c,
        contentAll, List.append_assoc]

end

end Spec

section XmlCopy

variable (flags : CopyFlags)

mutual

/-- `xml_copy_r`. -/
def xmlCopyR (depth : Nat) : XmlNode ω → Option Xml
  | .element o name attrs cs =>
      if excluded flags depth (XmlNode.element o name attrs cs) then none
      else some (.element none name attrs (xmlCopyChildren depth cs []))
  | .text o s => if excluded flags depth (XmlNode.text o s) then none else some (.text none s)
  | .comment o s =>
      if excluded flags depth (XmlNode.comment o s) then none else some (.comment none s)

/-- The loop of `xml_copy_r`, with the children that the copy has already. -/
def xmlCopyChildren (depth : Nat) : List (XmlNode ω) → List Xml → List Xml
  | [], copied => copied
  | c :: cs, copied =>
      xmlCopyChildren (depth + 1) cs ((xmlCopyR (depth + 1) c).elim copied (joinLast copied))

end

/-- `xml_copy`. -/
def xmlCopy (src : XmlNode ω) : Option Xml :=
  xmlCopyR flags 0 src

/-- Only whether the depth is 0 matters. -/
theorem excluded_succ
    (depth : Nat)
    (n : XmlNode ω) :
    excluded flags (depth + 1) n = excluded flags 1 n := by
  simp [excluded]

theorem excluded_zero (n : XmlNode ω) : excluded flags 0 n = false := by
  simp [excluded]

mutual

/-- What is not excluded is copied without what is excluded below it. -/
theorem xmlCopyR_eq :
    ∀ (depth : Nat) (n : XmlNode ω), xmlCopyR flags depth n =
      if excluded flags depth n then none else some (joinTexts (prune flags n))
  | depth, .element o name attrs cs => by
      rw [xmlCopyR, xmlCopyChildren_eq depth cs, prune, joinTexts]
  | depth, .text o s => rfl
  | depth, .comment o s => rfl

theorem xmlCopyChildren_eq :
    ∀ (depth : Nat) (cs : List (XmlNode ω)) (copied : List Xml),
      xmlCopyChildren flags depth cs copied = joinTextsAll (pruneAll flags cs) copied
  | _, [], _ => rfl
  | depth, c :: cs, copied => by
      rw [xmlCopyChildren, xmlCopyChildren_eq (depth + 1) cs, xmlCopyR_eq (depth + 1) c,
        excluded_succ, pruneAll]
      split
      · rfl
      · rfl

end

end XmlCopy

section Regions

variable [DecidableEq ω]

/-- The counters of the descriptors: the readers in their regions, and the references. -/
@[ext]
structure RegionCounts (ω : Type) where
  readers : ω → Int
  refs : ω → Int

namespace RegionCounts

variable (grant : ω → Bool) (i : ω) (c : RegionCounts ω)

/-- `tsync_reader_entry`, which is granted or not. -/
def enter : RegionCounts ω :=
  if grant i then { c with readers := Function.update c.readers i (c.readers i + 1) } else c

/-- `tsync_reader_exit`. -/
def leave : RegionCounts ω :=
  { c with readers := Function.update c.readers i (c.readers i - 1) }

/-- `device_get`. -/
def get : RegionCounts ω :=
  { c with refs := Function.update c.refs i (c.refs i + 1) }

/-- `device_put`. -/
def put : RegionCounts ω :=
  { c with refs := Function.update c.refs i (c.refs i - 1) }

theorem leave_enter
    (hgrant : grant i = true) :
    (c.enter grant i).leave i = c := by
  ext
  · simp [enter, leave, hgrant]
  · simp [enter, leave, hgrant]

theorem enter_leave
    (hgrant : grant i = true) :
    (c.leave i).enter grant i = c := by
  ext
  · simp [enter, leave, hgrant]
  · simp [enter, leave, hgrant]

theorem put_get : (c.get i).put i = c := by
  ext
  · rfl
  · simp [get, put]

end RegionCounts

variable (grant : ω → Bool) (flags : CopyFlags)

/-- The change of regions in `__device_copy_node`, around what is done in the region of the node. -/
def deviceAcross
    (parent child : ω)
    (body : RegionCounts ω → Option (Option Xml × RegionCounts ω))
    (c : RegionCounts ω) :
    Option (Option Xml × RegionCounts ω) :=
  if child = parent then body c
  else
    let c := (c.leave parent).get child
    if grant child = false then some (none, (c.put child).enter grant parent)
    else
      (body (c.enter grant child)).map fun r =>
        (r.1, ((r.2.leave child).put child).enter grant parent)

mutual

/-- `__device_copy_node`: the copy and the counters; `none` if a node has no descriptor. -/
def deviceCopyNode (parent : ω) (depth : Nat) :
    XmlNode ω → RegionCounts ω → Option (Option Xml × RegionCounts ω)
  | .element o name attrs cs, c =>
      o.bind fun child =>
        deviceAcross grant parent child
          (fun c =>
            if excluded flags depth (XmlNode.element o name attrs cs) then some (none, c)
            else
              (deviceCopyChildren child depth cs [] c).map fun r =>
                (some (.element none name attrs r.1), r.2)) c
  | .text o s, c =>
      o.bind fun child =>
        deviceAcross grant parent child
          (fun c =>
            some (if excluded flags depth (XmlNode.text o s) then none else some (.text none s), c)) c
  | .comment o s, c =>
      o.bind fun child =>
        deviceAcross grant parent child
          (fun c =>
            some (if excluded flags depth (XmlNode.comment o s) then none
              else some (.comment none s), c)) c

/-- The loop of `__device_copy_node`, with the children that the copy has already. -/
def deviceCopyChildren (child : ω) (depth : Nat) :
    List (XmlNode ω) → List Xml → RegionCounts ω → Option (List Xml × RegionCounts ω)
  | [], copied, c => some (copied, c)
  | node :: rest, copied, c =>
      (deviceCopyNode child (depth + 1) node c).bind fun r =>
        deviceCopyChildren child (depth + 1) rest (r.1.elim copied (joinLast copied)) r.2

end

/-- The change of regions in `__hist_copy_node`, where a pointer may be `NULL`. -/
def histAcross
    (previous current : Option ω)
    (body : RegionCounts ω → Option Xml × RegionCounts ω)
    (c : RegionCounts ω) :
    Option Xml × RegionCounts ω :=
  if current = previous then body c
  else
    let c := previous.elim c c.leave
    if current.any fun i => grant i = false then (none, previous.elim c (c.enter grant))
    else
      let r := body (current.elim c (c.enter grant))
      let c := current.elim r.2 r.2.leave
      (r.1, previous.elim c (c.enter grant))

mutual

/-- `__hist_copy_node`: the copy and the counters. -/
def histCopyNode (previous : Option ω) (depth : Nat) :
    XmlNode ω → RegionCounts ω → Option Xml × RegionCounts ω
  | .element current name attrs cs, c =>
      histAcross grant previous current
        (fun c =>
          if excluded flags depth (XmlNode.element current name attrs cs) then (none, c)
          else
            let r := histCopyChildren current depth cs [] c
            (some (.element none name attrs r.1), r.2)) c
  | .text current s, c =>
      histAcross grant previous current
        (fun c =>
          (if excluded flags depth (XmlNode.text current s) then none else some (.text none s), c)) c
  | .comment current s, c =>
      histAcross grant previous current
        (fun c =>
          (if excluded flags depth (XmlNode.comment current s) then none
            else some (.comment none s), c)) c

/-- The loop of `__hist_copy_node`, with the children that the copy has already. -/
def histCopyChildren (current : Option ω) (depth : Nat) :
    List (XmlNode ω) → List Xml → RegionCounts ω → List Xml × RegionCounts ω
  | [], copied, c => (copied, c)
  | node :: rest, copied, c =>
      let r := histCopyNode current (depth + 1) node c
      histCopyChildren current (depth + 1) rest (r.1.elim copied (joinLast copied)) r.2

end

end Regions

section Granted

variable [DecidableEq ω] {grant : ω → Bool}

/-- The regions are changed there and back. -/
theorem deviceAcross_eq
    {copy : Option Xml}
    {body : RegionCounts ω → Option (Option Xml × RegionCounts ω)}
    (hgrant : ∀ i, grant i = true)
    (hbody : ∀ c, body c = some (copy, c))
    (parent child : ω)
    (c : RegionCounts ω) :
    deviceAcross grant parent child body c = some (copy, c) := by
  unfold deviceAcross
  split
  · exact hbody c
  · dsimp only
    rw [if_neg (by simp [hgrant child]), hbody, Option.map_some,
      RegionCounts.leave_enter _ _ _ (hgrant child), RegionCounts.put_get,
      RegionCounts.enter_leave _ _ _ (hgrant parent)]

theorem histAcross_eq
    {copy : Option Xml}
    {body : RegionCounts ω → Option Xml × RegionCounts ω}
    (hgrant : ∀ i, grant i = true)
    (hbody : ∀ c, body c = (copy, c))
    (previous current : Option ω)
    (c : RegionCounts ω) :
    histAcross grant previous current body c = (copy, c) := by
  have hback : previous.elim (previous.elim c c.leave) ((previous.elim c c.leave).enter grant) = c := by
    cases previous with
    | none => rfl
    | some i => exact RegionCounts.enter_leave grant i c (hgrant i)
  unfold histAcross
  split
  · exact hbody c
  · dsimp only
    cases current with
    | none =>
        rw [if_neg (by simp), hbody]
        exact congrArg (Prod.mk copy) hback
    | some i =>
        rw [if_neg (by simp [hgrant i]), hbody]
        dsimp only [Option.elim_some]
        rw [RegionCounts.leave_enter _ _ _ (hgrant i)]
        exact congrArg (Prod.mk copy) hback

variable (flags : CopyFlags)

mutual

/-- The device copy is `xml_copy`, and its regions are even. -/
theorem deviceCopyNode_eq (hgrant : ∀ i, grant i = true) :
    ∀ (parent : ω) (depth : Nat) (n : XmlNode ω), (∀ m ∈ n :: n.descendants, m.owner ≠ none) →
      ∀ c, deviceCopyNode grant flags parent depth n c = some (xmlCopyR flags depth n, c)
  | parent, depth, .element o name attrs cs, howned, c => by
      obtain ⟨child, ho⟩ := Option.ne_none_iff_exists'.mp (howned _ List.mem_cons_self)
      obtain rfl : o = some child := ho
      have hall : ∀ m ∈ descendantsAll cs, m.owner ≠ none :=
        fun m hm => howned m (List.mem_cons_of_mem _ hm)
      rw [deviceCopyNode, Option.bind_some]
      refine deviceAcross_eq hgrant (fun c => ?_) parent child c
      rw [deviceCopyChildren_eq hgrant child depth cs hall [] c, xmlCopyR]
      split
      · rfl
      · rfl
  | parent, depth, .text o s, howned, c => by
      obtain ⟨child, ho⟩ := Option.ne_none_iff_exists'.mp (howned _ List.mem_cons_self)
      obtain rfl : o = some child := ho
      exact deviceAcross_eq hgrant (fun c => rfl) parent child c
  | parent, depth, .comment o s, howned, c => by
      obtain ⟨child, ho⟩ := Option.ne_none_iff_exists'.mp (howned _ List.mem_cons_self)
      obtain rfl : o = some child := ho
      exact deviceAcross_eq hgrant (fun c => rfl) parent child c

theorem deviceCopyChildren_eq (hgrant : ∀ i, grant i = true) :
    ∀ (child : ω) (depth : Nat) (cs : List (XmlNode ω)), (∀ m ∈ descendantsAll cs, m.owner ≠ none) →
      ∀ copied c, deviceCopyChildren grant flags child depth cs copied c =
        some (xmlCopyChildren flags depth cs copied, c)
  | _, _, [], _, _, _ => rfl
  | child, depth, n :: cs, howned, copied, c => by
      have hfirst : ∀ m ∈ n :: n.descendants, m.owner ≠ none := by
        intro m hm
        refine howned m ?_
        rw [descendantsAll, ← List.cons_append]
        exact List.mem_append_left _ hm
      have hrest : ∀ m ∈ descendantsAll cs, m.owner ≠ none := by
        intro m hm
        refine howned m ?_
        rw [descendantsAll, ← List.cons_append]
        exact List.mem_append_right _ hm
      rw [deviceCopyChildren, deviceCopyNode_eq hgrant child (depth + 1) n hfirst c,
        Option.bind_some, deviceCopyChildren_eq hgrant child (depth + 1) cs hrest, xmlCopyChildren]

end

mutual

/-- The history copy is `xml_copy`, and its regions are even. -/
theorem histCopyNode_eq (hgrant : ∀ i, grant i = true) :
    ∀ (previous : Option ω) (depth : Nat) (n : XmlNode ω) (c : RegionCounts ω),
      histCopyNode grant flags previous depth n c = (xmlCopyR flags depth n, c)
  | previous, depth, .element o name attrs cs, c => by
      rw [histCopyNode]
      refine histAcross_eq hgrant (fun c => ?_) previous o c
      rw [histCopyChildren_eq hgrant o depth cs [] c, xmlCopyR]
      split
      · rfl
      · rfl
  | previous, depth, .text o s, c => histAcross_eq hgrant (fun _ => rfl) previous o c
  | previous, depth, .comment o s, c => histAcross_eq hgrant (fun _ => rfl) previous o c

theorem histCopyChildren_eq (hgrant : ∀ i, grant i = true) :
    ∀ (current : Option ω) (depth : Nat) (cs : List (XmlNode ω)) (copied : List Xml)
      (c : RegionCounts ω), histCopyChildren grant flags current depth cs copied c =
        (xmlCopyChildren flags depth cs copied, c)
  | _, _, [], _, _ => rfl
  | current, depth, n :: cs, copied, c => by
      rw [histCopyChildren, histCopyNode_eq hgrant current (depth + 1) n c]
      dsimp only
      rw [histCopyChildren_eq hgrant current (depth + 1) cs, xmlCopyChildren]

end

/-- The three copies of a tree are the same: the pruned tree, which keeps all that it says in its
order.  The copies of device and history nodes leave the counters as they were. -/
theorem tree_copies_agree
    (hgrant : ∀ i, grant i = true)
    (root : XmlNode ω) :
    ∃ copy, xmlCopy flags root = some copy ∧ copy = joinTexts (prune flags root) ∧
      content copy = content (prune flags root) ∧
      (∀ dev, root.owner = some dev → (∀ m ∈ root.descendants, m.owner ≠ none) →
        ∀ c, deviceCopyNode grant flags dev 0 root c = some (some copy, c)) ∧
      ∀ c, histCopyNode grant flags root.owner 0 root c = (some copy, c) := by
  have hcopy : xmlCopyR flags 0 root = some (joinTexts (prune flags root)) := by
    rw [xmlCopyR_eq, excluded_zero]
    rfl
  refine ⟨joinTexts (prune flags root), hcopy, rfl, content_joinTexts _, ?_, ?_⟩
  · intro dev hdev howned c
    rw [deviceCopyNode_eq flags hgrant, hcopy]
    intro m hm
    rcases List.mem_cons.mp hm with rfl | hm
    · rw [hdev]
      exact Option.some_ne_none dev
    · exact howned m hm
  · intro c
    rw [histCopyNode_eq flags hgrant, hcopy]

/-- A device with a child device and a comment, without the comment. -/
theorem tree_copies_agree_child :
    ∃ copy, xmlCopy { excludeHidden := false, excludeMeta := false, excludeComments := true }
        (element (some 1) "obj".toList [] [comment (some 1) "c".toList,
          element (some 2) "obj".toList [] []] : XmlNode Nat) = some copy ∧
      ∀ c, deviceCopyNode (fun _ => true)
        { excludeHidden := false, excludeMeta := false, excludeComments := true } 1 0
        (element (some 1) "obj".toList [] [comment (some 1) "c".toList,
          element (some 2) "obj".toList [] []]) c = some (some copy, c) := by
  obtain ⟨copy, hcopy, -, -, hdevice, -⟩ := tree_copies_agree
    { excludeHidden := false, excludeMeta := false, excludeComments := true }
    (fun i => (rfl : (fun _ : Nat => true) i = true))
    (element (some 1) "obj".toList [] [comment (some 1) "c".toList,
      element (some 2) "obj".toList [] []])
  exact ⟨copy, hcopy, hdevice 1 rfl (by decide)⟩

end Granted

end Copies
end Obix
