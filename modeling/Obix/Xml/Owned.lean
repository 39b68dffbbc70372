import Obix.Xml.Located

/-!
# Nodes of a descriptor

A descriptor points to the root of its own nodes.  All nodes whose `_private` pointer
refers to it are in the subtree of that root, so that the root is the first of them in
document order (`ownNode`), and what is done to it is done at the first of them.

A subtree that is added under a new descriptor and removed again leaves the tree as it
was (`removeOwn_modifyOwn`).
-/

namespace Obix

open CString

namespace XmlNode

variable {ω : Type}

mutual

/-- A contract whose nodes all refer to a descriptor, `xml_setup_private` on a new
contract. -/
def adopt (i : ω) : Xml → XmlNode ω
  | element _ name attrs cs => element (some i) name attrs (adoptAll i cs)
  | text _ content => text (some i) content
  | comment _ content => comment (some i) content

def adoptAll (i : ω) : List Xml → List (XmlNode ω)
  | [] => []
  | c :: cs => adopt i c :: adoptAll i cs

end

mutual

/-- A document whose nodes refer to no descriptor yet. -/
def plain : Xml → XmlNode ω
  | element _ name attrs cs => element none name attrs (plainAll cs)
  | text _ content => text none content
  | comment _ content => comment none content

def plainAll : List Xml → List (XmlNode ω)
  | [] => []
  | c :: cs => plain c :: plainAll cs

end

/-- Whether `xmldb_set_relative_href_helper` fails at a node: its href is absolute and
has slashes only. -/
def relativeFails (node : XmlNode ω) : Bool :=
  !node.hasName objRef &&
    match node.getProp attrHref with
    | none => false
    | some href => slashPreceded href && href.all (· = '/')

mutual

/-- `xmldb_set_relative_href`, which stops at the first failure; the second component
says whether it got to the end. -/
def setRelativeHref : XmlNode ω → XmlNode ω × Bool
  | element o name attrs cs =>
      if relativeFails (element o name attrs cs) then (element o name attrs cs, false)
      else
        let inner := setRelativeHrefAll cs
        (relativeHref (element o name attrs inner.1), inner.2)
  | text o content => (text o content, true)
  | comment o content => (comment o content, true)

def setRelativeHrefAll : List (XmlNode ω) → List (XmlNode ω) × Bool
  | [] => ([], true)
  | c :: cs =>
      let first := setRelativeHref c
      if first.2 then
        let rest := setRelativeHrefAll cs
        (first.1 :: rest.1, rest.2)
      else (first.1 :: cs, false)

end

variable [DecidableEq ω]

mutual

/-- `dev->node`: the first node of a descriptor. -/
def ownNode (i : ω) : XmlNode ω → Option (XmlNode ω)
  | element o name attrs cs =>
      if o = some i then some (element o name attrs cs) else ownNodeAll i cs
  | text o content => if o = some i then some (text o content) else none
  | comment o content => if o = some i then some (comment o content) else none

def ownNodeAll (i : ω) : List (XmlNode ω) → Option (XmlNode ω)
  | [] => none
  | c :: cs => (ownNode i c).orElse fun _ => ownNodeAll i cs

end

mutual

/-- Do `f` to the node of a descriptor. -/
def modifyOwn (i : ω) (f : XmlNode ω → XmlNode ω) : XmlNode ω → XmlNode ω
  | element o name attrs cs =>
      if o = some i then f (element o name attrs cs)
      else element o name attrs (modifyOwnAll i f cs)
  | text o content => if o = some i then f (text o content) else text o content
  | comment o content => if o = some i then f (comment o content) else comment o content

def modifyOwnAll (i : ω) (f : XmlNode ω → XmlNode ω) : List (XmlNode ω) → List (XmlNode ω)
  | [] => []
  | c :: cs =>
      if (ownNode i c).isSome then modifyOwn i f c :: cs else c :: modifyOwnAll i f cs

end

mutual

/-- `xmlUnlinkNode` for the node of a descriptor. -/
def removeOwn (i : ω) : XmlNode ω → XmlNode ω
  | element o name attrs cs => element o name attrs (removeOwnAll i cs)
  | text o content => text o content
  | comment o content => comment o content

def removeOwnAll (i : ω) : List (XmlNode ω) → List (XmlNode ω)
  | [] => []
  | c :: cs =>
      if c.owner = some i then cs
      else if (ownNode i c).isSome then removeOwn i c :: cs
      else c :: removeOwnAll i cs

end

section Fresh

variable {i : ω}

theorem ownNodeAll_eq_none {cs : List (XmlNode ω)} :
    ownNodeAll i cs = none ↔ ∀ c ∈ cs, ownNode i c = none := by
  induction cs with
  | nil => simp [ownNodeAll]
  | cons c cs ih =>
      rw [ownNodeAll, List.forall_mem_cons, ← ih]
      cases ownNode i c <;> simp

theorem ownNode_eq_none {n : XmlNode ω} :
    ownNode i n = none ↔ n.owner ≠ some i ∧ ∀ c ∈ n.children, ownNode i c = none := by
  cases n with
  | element o name attrs cs =>
      rw [ownNode]
      split
      · rename_i ho
        simp [owner, ho]
      · rename_i ho
        simpa [owner, ho, children] using ownNodeAll_eq_none
  | text o content => simp [ownNode, owner, children]
  | comment o content => simp [ownNode, owner, children]

theorem owner_of_ownNode
    {n : XmlNode ω}
    (h : ownNode i n = none) :
    n.owner ≠ some i :=
  (ownNode_eq_none.mp h).1

mutual

theorem ownNode_adopt
    {j : ω}
    (hj : j ≠ i) :
    ∀ n : Xml, ownNode i (adopt j n) = none
  | element _ name attrs cs => by
      simp [adopt, ownNode, hj, ownNodeAll_adoptAll hj cs]
  | text _ content => by simp [adopt, ownNode, hj]
  | comment _ content => by simp [adopt, ownNode, hj]

theorem ownNodeAll_adoptAll
    {j : ω}
    (hj : j ≠ i) :
    ∀ cs : List Xml, ownNodeAll i (adoptAll j cs) = none
  | [] => rfl
  | c :: cs => by
      simp [adoptAll, ownNodeAll, ownNode_adopt hj c, ownNodeAll_adoptAll hj cs]

end

omit [DecidableEq ω] in
@[simp] theorem owner_adopt (j : ω) (n : Xml) : (adopt j n).owner = some j := by
  cases n with
  | element => simp [adopt, owner]
  | text => simp [adopt, owner]
  | comment => simp [adopt, owner]

mutual

theorem ownNode_plain : ∀ n : Xml, ownNode i (plain n) = none
  | element _ name attrs cs => by simp [plain, ownNode, ownNodeAll_plainAll cs]
  | text _ content => by simp [plain, ownNode]
  | comment _ content => by simp [plain, ownNode]

theorem ownNodeAll_plainAll : ∀ cs : List Xml, ownNodeAll i (plainAll cs) = none
  | [] => rfl
  | c :: cs => by simp [plainAll, ownNodeAll, ownNode_plain c, ownNodeAll_plainAll cs]

end

mutual

theorem ownNode_setupPrivate
    {j : ω}
    (hj : j ≠ i) :
    ∀ n : XmlNode ω, ownNode i (setupPrivate j n) = none
  | element _ name attrs cs => by
      simp [setupPrivate, ownNode, hj, ownNodeAll_setupPrivateAll hj cs]
  | text _ content => by simp [setupPrivate, ownNode, hj]
  | comment _ content => by simp [setupPrivate, ownNode, hj]

theorem ownNodeAll_setupPrivateAll
    {j : ω}
    (hj : j ≠ i) :
    ∀ cs : List (XmlNode ω), ownNodeAll i (setupPrivateAll j cs) = none
  | [] => rfl
  | c :: cs => by
      simp [setupPrivateAll, ownNodeAll, ownNode_setupPrivate hj c,
        ownNodeAll_setupPrivateAll hj cs]

end

/-- A change that brings no node of a descriptor into a tree. -/
def KeepsFresh (i : ω) (f : XmlNode ω → XmlNode ω) : Prop :=
  ∀ n, ownNode i n = none → ownNode i (f n) = none

theorem keepsFresh_addChild
    {c : XmlNode ω}
    (hc : ownNode i c = none) :
    KeepsFresh i (addChild c) := by
  intro n hn
  cases n with
  | element o name attrs cs =>
      rw [ownNode_eq_none] at hn ⊢
      refine ⟨hn.1, fun d hd => ?_⟩
      rcases List.mem_append.mp hd with hd | hd
      · exact hn.2 d hd
      · rwa [List.mem_singleton.mp hd]
  | text => exact hn
  | comment => exact hn

theorem KeepsFresh.modifyAt
    {f : XmlNode ω → XmlNode ω}
    (hf : KeepsFresh i f)
    (path : Path) :
    KeepsFresh i (modifyAt f path) := by
  induction path with
  | nil => exact hf
  | cons t rest ih =>
      intro n hn
      rw [ownNode_eq_none] at hn ⊢
      rw [owner_modifyAt_cons, children_modifyAt_cons]
      refine ⟨hn.1, ?_⟩
      rcases modifyFirst_cases (hasHref t) (XmlNode.modifyAt f rest) n.children with
        ⟨-, hsame⟩ | ⟨pre, c, post, heq, -, hmod⟩
      · rw [hsame]
        exact hn.2
      · rw [hmod]
        intro d hd
        have hold : ∀ d ∈ pre ++ c :: post, ownNode i d = none := heq ▸ hn.2
        simp only [List.mem_append, List.mem_cons] at hd hold
        rcases hd with hd | rfl | hd
        · exact hold d (.inl hd)
        · exact ih c (hold c (.inr (.inl rfl)))
        · exact hold d (.inr (.inr hd))

mutual

theorem KeepsFresh.modifyOwn
    {f : XmlNode ω → XmlNode ω}
    (hf : KeepsFresh i f)
    (p : ω) :
    ∀ n, ownNode i n = none → ownNode i (modifyOwn p f n) = none
  | element o name attrs cs, hn => by
      rw [XmlNode.modifyOwn]
      split
      · exact hf _ hn
      · obtain ⟨ho, hcs⟩ := ownNode_eq_none.mp hn
        exact ownNode_eq_none.mpr ⟨ho, ownNodeAll_eq_none.mp
          (hf.modifyOwnAll p cs (ownNodeAll_eq_none.mpr hcs))⟩
  | text o content, hn => by
      rw [XmlNode.modifyOwn]
      split
      · exact hf _ hn
      · exact hn
  | comment o content, hn => by
      rw [XmlNode.modifyOwn]
      split
      · exact hf _ hn
      · exact hn

theorem KeepsFresh.modifyOwnAll
    {f : XmlNode ω → XmlNode ω}
    (hf : KeepsFresh i f)
    (p : ω) :
    ∀ cs, ownNodeAll i cs = none → ownNodeAll i (modifyOwnAll p f cs) = none
  | [], _ => rfl
  | c :: cs, h => by
      have hall := ownNodeAll_eq_none.mp h
      have hcs := ownNodeAll_eq_none.mpr fun d hd => hall d (List.mem_cons_of_mem _ hd)
      rw [XmlNode.modifyOwnAll]
      split
      · have hc := hf.modifyOwn p c (hall c List.mem_cons_self)
        simp [ownNodeAll, hc, hcs]
      · have hrest := hf.modifyOwnAll p cs hcs
        simp [ownNodeAll, hall c List.mem_cons_self, hrest]

end

mutual

theorem ownNode_removeOwn
    (j : ω) :
    ∀ n : XmlNode ω, ownNode i n = none → ownNode i (removeOwn j n) = none
  | element o name attrs cs, hn => by
      obtain ⟨ho, hcs⟩ := ownNode_eq_none.mp hn
      rw [removeOwn]
      exact ownNode_eq_none.mpr ⟨ho, ownNodeAll_eq_none.mp
        (ownNodeAll_removeOwnAll j cs (ownNodeAll_eq_none.mpr hcs))⟩
  | text o content, hn => hn
  | comment o content, hn => hn

theorem ownNodeAll_removeOwnAll
    (j : ω) :
    ∀ cs : List (XmlNode ω), ownNodeAll i cs = none → ownNodeAll i (removeOwnAll j cs) = none
  | [], _ => rfl
  | c :: cs, h => by
      have hall := ownNodeAll_eq_none.mp h
      have hcs := ownNodeAll_eq_none.mpr fun d hd => hall d (List.mem_cons_of_mem _ hd)
      have hc := hall c List.mem_cons_self
      rw [removeOwnAll]
      split
      · exact hcs
      · split
        · simp [ownNodeAll, ownNode_removeOwn j c hc, hcs]
        · simp [ownNodeAll, hc, ownNodeAll_removeOwnAll j cs hcs]

end

end Fresh

section Cancel

variable {i : ω}

mutual

theorem removeOwn_of_fresh :
    ∀ n : XmlNode ω, ownNode i n = none → removeOwn i n = n
  | element o name attrs cs, hn => by
      have hcs := (ownNode_eq_none.mp hn).2
      rw [removeOwn, removeOwnAll_of_fresh cs (ownNodeAll_eq_none.mpr hcs)]
  | text o content, _ => by rw [removeOwn]
  | comment o content, _ => by rw [removeOwn]

theorem removeOwnAll_of_fresh :
    ∀ cs : List (XmlNode ω), ownNodeAll i cs = none → removeOwnAll i cs = cs
  | [], _ => rfl
  | c :: cs, h => by
      have hall := ownNodeAll_eq_none.mp h
      have hc := hall c List.mem_cons_self
      have hcs := ownNodeAll_eq_none.mpr fun d hd => hall d (List.mem_cons_of_mem _ hd)
      rw [removeOwnAll, if_neg (owner_of_ownNode hc)]
      simp [hc, removeOwnAll_of_fresh cs hcs]

end

/-- A change that removing the node of a descriptor takes back. -/
def Cancels (i : ω) (f : XmlNode ω → XmlNode ω) : Prop :=
  ∀ n, ownNode i n = none → (f n).owner = n.owner ∧ removeOwn i (f n) = n

/-- Among siblings the change is taken back where it was made. -/
theorem removeOwnAll_replaced
    {f : XmlNode ω → XmlNode ω} {c : XmlNode ω}
    (hf : Cancels i f) :
    ∀ pre post : List (XmlNode ω), ownNodeAll i (pre ++ c :: post) = none →
      removeOwnAll i (pre ++ f c :: post) = pre ++ c :: post
  | [], post, h => by
      have hall := ownNodeAll_eq_none.mp h
      have hc := hall c List.mem_cons_self
      have hpost := ownNodeAll_eq_none.mpr fun d hd => hall d (List.mem_cons_of_mem _ hd)
      obtain ⟨howner, hremove⟩ := hf c hc
      rw [List.nil_append, List.nil_append, removeOwnAll, if_neg (howner ▸ owner_of_ownNode hc)]
      split
      · rw [hremove]
      · rename_i hnone
        -- without a node of the descriptor there is nothing to take back
        have hsame : f c = c :=
          (removeOwn_of_fresh _ (by simpa using hnone)).symm.trans hremove
        rw [hsame, removeOwnAll_of_fresh post hpost]
  | d :: pre, post, h => by
      have hall := ownNodeAll_eq_none.mp h
      have hd := hall d List.mem_cons_self
      have hrest := ownNodeAll_eq_none.mpr fun d hd => hall d (List.mem_cons_of_mem _ hd)
      rw [List.cons_append, removeOwnAll, if_neg (owner_of_ownNode hd), hd]
      simp [removeOwnAll_replaced hf pre post hrest]

theorem cancels_addChild
    {c : XmlNode ω}
    (hc : c.owner = some i) :
    Cancels i (addChild c) := by
  intro n hn
  cases n with
  | element o name attrs cs =>
      refine ⟨rfl, ?_⟩
      have hcs := ownNodeAll_eq_none.mpr (ownNode_eq_none.mp hn).2
      rw [addChild, removeOwn]
      congr 1
      clear hn
      induction cs with
      | nil => simp [removeOwnAll, hc]
      | cons d ds ih =>
          have hall := ownNodeAll_eq_none.mp hcs
          have hd := hall d List.mem_cons_self
          have hds := ownNodeAll_eq_none.mpr fun e he => hall e (List.mem_cons_of_mem _ he)
          rw [List.cons_append, removeOwnAll, if_neg (owner_of_ownNode hd), hd]
          simp [ih hds]
  | text => exact ⟨rfl, rfl⟩
  | comment => exact ⟨rfl, rfl⟩

theorem Cancels.modifyAt
    {f : XmlNode ω → XmlNode ω}
    (hf : Cancels i f)
    (path : Path) :
    Cancels i (modifyAt f path) := by
  induction path with
  | nil => exact hf
  | cons t rest ih =>
      intro n hn
      refine ⟨owner_modifyAt_cons n, ?_⟩
      cases n with
      | element o name attrs cs =>
          have hcs := ownNodeAll_eq_none.mpr (ownNode_eq_none.mp hn).2
          rw [XmlNode.modifyAt, removeOwn]
          congr 1
          rcases modifyFirst_cases (hasHref t) (XmlNode.modifyAt f rest) cs with
            ⟨-, hsame⟩ | ⟨pre, c, post, rfl, -, hmod⟩
          · rw [hsame]
            exact removeOwnAll_of_fresh cs hcs
          · rw [hmod]
            exact removeOwnAll_replaced ih pre post hcs
      | text => rfl
      | comment => rfl

mutual

theorem Cancels.modifyOwn
    {f : XmlNode ω → XmlNode ω}
    (hf : Cancels i f)
    (p : ω) :
    ∀ n, ownNode i n = none →
      (modifyOwn p f n).owner = n.owner ∧ removeOwn i (modifyOwn p f n) = n
  | element o name attrs cs, hn => by
      rw [XmlNode.modifyOwn]
      split
      · exact hf _ hn
      · refine ⟨rfl, ?_⟩
        have hcs := ownNodeAll_eq_none.mpr (ownNode_eq_none.mp hn).2
        rw [removeOwn, hf.modifyOwnAll p cs hcs]
  | text o content, hn => by
      rw [XmlNode.modifyOwn]
      split
      · exact hf _ hn
      · exact ⟨rfl, by rw [removeOwn]⟩
  | comment o content, hn => by
      rw [XmlNode.modifyOwn]
      split
      · exact hf _ hn
      · exact ⟨rfl, by rw [removeOwn]⟩

theorem Cancels.modifyOwnAll
    {f : XmlNode ω → XmlNode ω}
    (hf : Cancels i f)
    (p : ω) :
    ∀ cs, ownNodeAll i cs = none → removeOwnAll i (modifyOwnAll p f cs) = cs
  | [], _ => rfl
  | c :: cs, h => by
      have hall := ownNodeAll_eq_none.mp h
      have hc := hall c List.mem_cons_self
      have hcs := ownNodeAll_eq_none.mpr fun d hd => hall d (List.mem_cons_of_mem _ hd)
      obtain ⟨howner, hremove⟩ := hf.modifyOwn p c hc
      rw [XmlNode.modifyOwnAll]
      split
      · rw [removeOwnAll, if_neg (howner ▸ owner_of_ownNode hc)]
        split
        · rw [hremove]
        · rename_i hnone
          have hsame : XmlNode.modifyOwn p f c = c :=
            (removeOwn_of_fresh _ (by simpa using hnone)).symm.trans hremove
          rw [hsame, removeOwnAll_of_fresh cs hcs]
      · rw [removeOwnAll, if_neg (owner_of_ownNode hc), hc]
        simp [hf.modifyOwnAll p cs hcs]

end

/-- A subtree that is added and removed again. -/
theorem removeOwn_modifyOwn
    {n c : XmlNode ω}
    (hn : ownNode i n = none)
    (hc : c.owner = some i)
    (p : ω)
    (path : Path) :
    removeOwn i (modifyOwn p (modifyAt (addChild c) path) n) = n :=
  (((cancels_addChild hc).modifyAt path).modifyOwn p n hn).2

end Cancel

end XmlNode

end Obix
