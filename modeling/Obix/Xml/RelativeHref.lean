import Obix.Lib.Tokens
import Obix.Xml.Confined
import Obix.Xml.Traversal

/-!
# Relative hrefs

`xmldb_set_relative_href` makes the last component of an absolute href its value, leaves any other
href alone, and ends at the first href that has slashes only.  The hrefs of a tree become the last
components of what they were exactly when each of them is absolute with a component or is a
component already; then a node is found by the hrefs on the way to it as long as no sibling before
one of them has the same href (`setRelativeHref_relative_iff`).
-/

namespace Obix

open CString XmlNode

variable {ω : Type}

section Code

/-- `xmldb_set_relative_href_helper`. -/
def xmldbSetRelativeHrefHelper (node : XmlNode ω) : NodeVisit ω :=
  if relativeFails node then .failed else .kept (relativeHref node)

/-- `xmldb_set_relative_href`, which ignores whether the traversal has failed. -/
def xmldbSetRelativeHref (node : XmlNode ω) : XmlNode ω :=
  (forEachNodeType (some .element) xmldbSetRelativeHrefHelper node).1.getD node

/-- What the helper does to a node is independent of its children. -/
theorem withChildren_relativeHref
    (o : Option ω)
    (name : Text)
    (attrs : List (Text × Text))
    (cs ds : List (XmlNode ω)) :
    (relativeHref (element o name attrs cs)).withChildren ds =
      relativeHref (element o name attrs ds) := by
  rw [relativeHref, relativeHref]
  cases hlookup : attrs.lookup attrHref with
  | none =>
      have hprop : ∀ es, getProp attrHref (element o name attrs es) = none := fun _ => hlookup
      rw [hprop cs, hprop ds]
      rfl
  | some href =>
      have hprop : ∀ es, getProp attrHref (element o name attrs es) = some href := fun _ => hlookup
      have hname : (element o name attrs ds).hasName objRef =
          (element o name attrs cs).hasName objRef := rfl
      rw [hprop cs, hprop ds, hname]
      dsimp only
      by_cases hkept : (element o name attrs cs).hasName objRef = true ∨
          slashPreceded href = false ∨ (href.all fun c => decide (c = '/')) = true
      · rw [if_pos hkept, if_pos hkept]
        rfl
      · rw [if_neg hkept, if_neg hkept]
        rfl

mutual

/-- The traversal with the helper is `setRelativeHref`. -/
theorem forEachNodeType_setRelativeHref :
    ∀ n : XmlNode ω, forEachNodeType (some .element) xmldbSetRelativeHrefHelper n =
      (some (setRelativeHref n).1, (setRelativeHref n).2)
  | element o name attrs cs => by
      rw [forEachNodeType, if_neg (by decide), setRelativeHref, xmldbSetRelativeHrefHelper]
      by_cases hfails : relativeFails (element o name attrs cs) = true
      · rw [if_pos hfails, if_pos hfails]
      · rw [if_neg hfails, if_neg hfails]
        dsimp only
        rw [forEachSibling_setRelativeHref cs, withChildren_relativeHref]
  | text o content => rfl
  | comment o content => rfl

theorem forEachSibling_setRelativeHref :
    ∀ cs : List (XmlNode ω), forEachSibling (some .element) xmldbSetRelativeHrefHelper cs =
      setRelativeHrefAll cs
  | [] => rfl
  | c :: cs => by
      rw [forEachSibling, forEachNodeType_setRelativeHref c, setRelativeHrefAll]
      dsimp only
      by_cases hend : (setRelativeHref c).2 = true
      · rw [if_pos hend, if_pos hend, forEachSibling_setRelativeHref cs]
        rfl
      · rw [if_neg hend, if_neg hend]
        rfl

end

theorem xmldbSetRelativeHref_eq (node : XmlNode ω) :
    xmldbSetRelativeHref node = (setRelativeHref node).1 := by
  rw [xmldbSetRelativeHref, forEachNodeType_setRelativeHref]
  rfl

end Code

section Spec

/-- The last non-empty component of a href. -/
def lastComponent (href : Text) : Option Text :=
  (tokens '/' href).getLast?

/-- The attributes of an element before and after its href was made relative; those of a reference
stay. -/
def RelativeAttrs
    (name : Text)
    (attrs attrs' : List (Text × Text)) :
    Prop :=
  if name = objRef ∨ attrs.lookup attrHref = none then attrs' = attrs
  else
    (∀ href, attrs.lookup attrHref = some href → ∃ c, lastComponent href = some c ∧
      slashPreceded c = false ∧ slashFollowed c = false ∧ attrs'.lookup attrHref = some c) ∧
    attrs'.filter (fun a => a.1 ≠ attrHref) = attrs.filter fun a => a.1 ≠ attrHref

mutual

/-- A tree before and after its hrefs were made relative. -/
def MadeRelative : XmlNode ω → XmlNode ω → Prop
  | element o name attrs cs, element o' name' attrs' cs' =>
      o' = o ∧ name' = name ∧ RelativeAttrs name attrs attrs' ∧ MadeRelativeAll cs cs'
  | element _ _ _ _, text _ _ => False
  | element _ _ _ _, comment _ _ => False
  | text o content, n => n = text o content
  | comment o content, n => n = comment o content

def MadeRelativeAll : List (XmlNode ω) → List (XmlNode ω) → Prop
  | [], ds => ds = []
  | _ :: _, [] => False
  | c :: cs, d :: ds => MadeRelative c d ∧ MadeRelativeAll cs ds

end

/-- The node at a place, which counts the children on the way. -/
def nodeAtPlace : List Nat → XmlNode ω → Option (XmlNode ω)
  | [], n => some n
  | k :: ks, n => n.children[k]?.bind (nodeAtPlace ks)

/-- The hrefs on the way to a place, if there is one at every node. -/
def hrefsOn : List Nat → XmlNode ω → Option (List Text)
  | [], _ => some []
  | k :: ks, n =>
      n.children[k]?.bind fun c => c.href.bind fun h => (hrefsOn ks c).map (h :: ·)

/-- The place that the first children with the given hrefs lead to. -/
def resolvePlace : List Text → XmlNode ω → Option (List Nat)
  | [], _ => some []
  | t :: ts, n =>
      (n.children.findIdx? (hasHref t)).bind fun k =>
        n.children[k]?.bind fun c => (resolvePlace ts c).map (k :: ·)

/-- Every node with hrefs on the way to it is found by them, and no other node in its place. -/
def Resolvable (root : XmlNode ω) : Prop :=
  ∀ ks hs, ks ≠ [] → hrefsOn ks root = some hs →
    resolvePlace (tokens '/' (delimited '/' hs)) root = some ks ∧
      xmldbGetNodeCore root (delimited '/' hs) = nodeAtPlace ks root

/-- An element whose href, if it has one, is absolute and has a component, or is a component.  A
reference may have any href. -/
def GoodHref (n : XmlNode ω) : Prop :=
  n.hasName objRef = false → ∀ href, n.href = some href →
    (slashPreceded href = true ∧ ∃ c ∈ href, c ≠ '/') ∨ IsToken '/' href

/-- The component that a node adds to a path. -/
def pathName (n : XmlNode ω) : Option Text :=
  if n.hasName objRef then n.href else n.href.bind lastComponent

mutual

/-- The nodes with hrefs on the way to them add components to it, other ones than their siblings
do. -/
def WellNamed : XmlNode ω → Prop
  | element _ _ _ cs => (cs.filterMap pathName).Nodup ∧ WellNamedAll cs
  | text _ _ => True
  | comment _ _ => True

def WellNamedAll : List (XmlNode ω) → Prop
  | [] => True
  | c :: cs => (∀ name, pathName c = some name → IsToken '/' name ∧ WellNamed c) ∧ WellNamedAll cs

end

end Spec

section Attributes

variable {name : Text} {attrs attrs' : List (Text × Text)}

/-- A component is its own last component. -/
theorem lastComponent_of_isToken
    {c : Text}
    (h : IsToken '/' c) :
    lastComponent c = some c := by
  rw [lastComponent, tokens_of_isToken h]
  rfl

theorem isToken_of_lastComponent
    {href c : Text}
    (h : lastComponent href = some c) :
    IsToken '/' c :=
  isToken_of_mem_tokens (List.mem_of_getLast? h)

theorem slashes_of_isToken
    {c : Text}
    (h : IsToken '/' c) :
    slashPreceded c = false ∧ slashFollowed c = false := by
  constructor
  · rw [slashPreceded, decide_eq_false_iff_not]
    exact fun hhead => h.2 (List.mem_of_head? hhead)
  · rw [slashFollowed, decide_eq_false_iff_not]
    exact fun hlast => h.2 (List.mem_of_getLast? hlast)

/-- Only a good href can have become relative by staying what it is. -/
theorem relativeAttrs_self
    {href : Text}
    (hname : name ≠ objRef)
    (hlookup : attrs.lookup attrHref = some href) :
    RelativeAttrs name attrs attrs ↔ IsToken '/' href := by
  rw [RelativeAttrs, if_neg (by simp [hname, hlookup])]
  constructor
  · rintro ⟨h, -⟩
    obtain ⟨c, hc, -, -, hsame⟩ := h href hlookup
    obtain rfl := Option.some.inj (hsame.symm.trans hlookup)
    exact isToken_of_lastComponent hc
  · intro htoken
    obtain ⟨hpre, hpost⟩ := slashes_of_isToken htoken
    refine ⟨fun h hh => ?_, rfl⟩
    obtain rfl := Option.some.inj (hh.symm.trans hlookup)
    exact ⟨h, lastComponent_of_isToken htoken, hpre, hpost, hlookup⟩

/-- A href that is set is the one found, and the other attributes stay. -/
theorem setProp_element
    (o : Option ω)
    (name : Text)
    (attrs : List (Text × Text))
    (cs : List (XmlNode ω))
    (value : Text) :
    ∃ attrs', (element o name attrs cs).setProp attrHref value = element o name attrs' cs ∧
      attrs'.lookup attrHref = some value ∧
      attrs'.filter (fun a => a.1 ≠ attrHref) = attrs.filter fun a => a.1 ≠ attrHref := by
  refine ⟨_, rfl, getProp_setProp (n := element o name attrs cs) rfl attrHref value, ?_⟩
  split
  · exact filter_map_setProp attrHref value attrs
  · simp

/-- The helper makes the href of an element relative exactly when it is a good one. -/
theorem relativeHref_element
    (o : Option ω)
    (name : Text)
    (attrs : List (Text × Text))
    (cs : List (XmlNode ω)) :
    ∃ attrs', relativeHref (element o name attrs cs) = element o name attrs' cs ∧
      (RelativeAttrs name attrs attrs' ↔ GoodHref (element o name attrs cs)) ∧
      (GoodHref (element o name attrs cs) →
        (element o name attrs' cs).href = pathName (element o name attrs cs)) := by
  cases hlookup : attrs.lookup attrHref with
  | none =>
      have hnone : (element o name attrs cs).href = none := hlookup
      refine ⟨attrs, ?_, ?_, fun _ => ?_⟩
      · rw [relativeHref, show getProp attrHref (element o name attrs cs) = none from hlookup]
      · rw [RelativeAttrs, if_pos (.inr hlookup), GoodHref, hnone]
        simp
      · rw [pathName, hnone]
        simp
  | some href =>
      have hsome : (element o name attrs cs).href = some href := hlookup
      rw [relativeHref, show getProp attrHref (element o name attrs cs) = some href from hlookup]
      dsimp only
      by_cases hname : name = objRef
      · have hhas : (element o name attrs cs).hasName objRef = true := decide_eq_true hname
        refine ⟨attrs, if_pos (.inl hhas), ?_, fun _ => ?_⟩
        · rw [RelativeAttrs, if_pos (.inl hname), GoodHref, hhas]
          simp
        · rw [pathName, if_pos hhas]
      have hhas : (element o name attrs cs).hasName objRef = false := decide_eq_false hname
      have hgood : GoodHref (element o name attrs cs) ↔
          (slashPreceded href = true ∧ ∃ c ∈ href, c ≠ '/') ∨ IsToken '/' href := by
        rw [GoodHref, hsome]
        simp [hhas]
      rw [hgood, pathName, hhas, if_neg Bool.false_ne_true, hsome, Option.bind_some]
      by_cases hkept : slashPreceded href = false ∨ (href.all fun c => decide (c = '/')) = true
      · -- the href stays, and is relative only if it is a component
        have hnot : ¬ (slashPreceded href = true ∧ ∃ c ∈ href, c ≠ '/') := by
          rintro ⟨hpre, c, hc, hne⟩
          rcases hkept with hkept | hkept
          · rw [hpre] at hkept
            cases hkept
          · exact hne (of_decide_eq_true (List.all_eq_true.mp hkept c hc))
        refine ⟨attrs, if_pos (.inr hkept), ?_, fun h => ?_⟩
        · rw [relativeAttrs_self hname hlookup]
          exact ⟨.inr, fun h => h.resolve_left hnot⟩
        · rw [lastComponent_of_isToken (h.resolve_left hnot)]
          exact hsome
      · -- an absolute href with a component is replaced by its last one
        rw [not_or, Bool.not_eq_false, List.all_eq_true] at hkept
        have hcomponent : ∃ c ∈ href, c ≠ '/' := by simpa using hkept.2
        have hlast : lastComponent href = some (basename href) := getLast?_tokens hcomponent
        obtain ⟨hpre, hpost⟩ := slashes_of_isToken (isToken_of_lastComponent hlast)
        obtain ⟨attrs', heq, hvalue, hothers⟩ :=
          setProp_element o name attrs cs (basename href)
        refine ⟨attrs', ?_, ?_, fun _ => ?_⟩
        · rw [if_neg]
          · exact heq
          · rw [hkept.1]
            simpa using hcomponent
        · rw [RelativeAttrs, if_neg (by simp [hname, hlookup])]
          refine iff_of_true ⟨fun h hh => ?_, hothers⟩ (.inl ⟨hkept.1, hcomponent⟩)
          obtain rfl := Option.some.inj (hh.symm.trans hlookup)
          exact ⟨basename h, hlast, hpre, hpost, hvalue⟩
        · rw [hlast]
          exact hvalue

/-- Where the helper fails, the href is not a good one. -/
theorem not_goodHref_of_fails
    {o : Option ω} {cs : List (XmlNode ω)}
    (h : relativeFails (element o name attrs cs) = true) :
    ¬ RelativeAttrs name attrs attrs ∧ ¬ GoodHref (element o name attrs cs) := by
  unfold relativeFails at h
  rw [Bool.and_eq_true, Bool.not_eq_true'] at h
  obtain ⟨hhas, hslashes⟩ := h
  have hname : name ≠ objRef := of_decide_eq_false hhas
  cases hlookup : attrs.lookup attrHref with
  | none =>
      rw [show getProp attrHref (element o name attrs cs) = none from hlookup] at hslashes
      cases hslashes
  | some href =>
      rw [show getProp attrHref (element o name attrs cs) = some href from hlookup] at hslashes
      dsimp only at hslashes
      rw [Bool.and_eq_true, List.all_eq_true] at hslashes
      have htoken : ¬ IsToken '/' href := by
        rintro ⟨hne, hfree⟩
        obtain ⟨c, rest, rfl⟩ := List.exists_cons_of_ne_nil hne
        have hc := of_decide_eq_true (hslashes.2 c List.mem_cons_self)
        exact hfree (hc ▸ List.mem_cons_self)
      constructor
      · rw [relativeAttrs_self hname hlookup]
        exact htoken
      · intro hgood
        rcases hgood hhas href hlookup with ⟨-, c, hc, hne⟩ | h
        · exact hne (of_decide_eq_true (hslashes.2 c hc))
        · exact htoken h

end Attributes

section Run

mutual

/-- A tree of good hrefs is made relative to its end. -/
theorem madeRelative_of_good :
    ∀ n : XmlNode ω, (∀ m ∈ n :: n.descendants, GoodHref m) →
      (setRelativeHref n).2 = true ∧ MadeRelative n (setRelativeHref n).1
  | element o name attrs cs, h => by
      obtain ⟨hend, hall⟩ := madeRelativeAll_of_good cs fun m hm => h m (List.mem_cons_of_mem _ hm)
      have hgood := h _ List.mem_cons_self
      have hfails : ¬ relativeFails (element o name attrs cs) = true :=
        fun hfails => (not_goodHref_of_fails hfails).2 hgood
      obtain ⟨attrs', heq, hiff, -⟩ :=
        relativeHref_element o name attrs (setRelativeHrefAll cs).1
      rw [setRelativeHref, if_neg hfails]
      refine ⟨hend, ?_⟩
      dsimp only
      rw [heq]
      exact ⟨rfl, rfl, hiff.mpr hgood, hall⟩
  | text o content, _ => ⟨rfl, rfl⟩
  | comment o content, _ => ⟨rfl, rfl⟩

theorem madeRelativeAll_of_good :
    ∀ cs : List (XmlNode ω), (∀ m ∈ descendantsAll cs, GoodHref m) →
      (setRelativeHrefAll cs).2 = true ∧ MadeRelativeAll cs (setRelativeHrefAll cs).1
  | [], _ => ⟨rfl, rfl⟩
  | c :: cs, h => by
      obtain ⟨hfirst, hc⟩ := madeRelative_of_good c fun m hm => h m (by
        rw [descendantsAll, ← List.cons_append]
        exact List.mem_append_left _ hm)
      obtain ⟨hrest, hcs⟩ := madeRelativeAll_of_good cs fun m hm => h m (by
        rw [descendantsAll, ← List.cons_append]
        exact List.mem_append_right _ hm)
      rw [setRelativeHrefAll]
      dsimp only
      rw [if_pos hfirst]
      exact ⟨hrest, hc, hcs⟩

end

mutual

/-- A tree that was made relative had good hrefs only: the traversal has not ended before. -/
theorem good_of_madeRelative :
    ∀ n : XmlNode ω, MadeRelative n (setRelativeHref n).1 → ∀ m ∈ n :: n.descendants, GoodHref m
  | element o name attrs cs, h => by
      rw [setRelativeHref] at h
      by_cases hfails : relativeFails (element o name attrs cs) = true
      · rw [if_pos hfails] at h
        exact absurd h.2.2.1 (not_goodHref_of_fails hfails).1
      · rw [if_neg hfails] at h
        dsimp only at h
        obtain ⟨attrs', heq, hiff, -⟩ :=
          relativeHref_element o name attrs (setRelativeHrefAll cs).1
        rw [heq] at h
        obtain ⟨-, -, hattrs, hall⟩ := h
        intro m hm
        rcases List.mem_cons.mp hm with rfl | hm
        · exact hiff.mp hattrs
        · exact goodAll_of_madeRelative cs hall m hm
  | text o content, _ => by
      intro m hm
      rw [List.mem_singleton.mp hm]
      intro _ href hhref
      cases hhref
  | comment o content, _ => by
      intro m hm
      rw [List.mem_singleton.mp hm]
      intro _ href hhref
      cases hhref

theorem goodAll_of_madeRelative :
    ∀ cs : List (XmlNode ω), MadeRelativeAll cs (setRelativeHrefAll cs).1 →
      ∀ m ∈ descendantsAll cs, GoodHref m
  | [], _ => fun m hm => absurd hm List.not_mem_nil
  | c :: cs, h => by
      rw [setRelativeHrefAll] at h
      dsimp only at h
      have hc : ∀ m ∈ c :: c.descendants, GoodHref m := by
        refine good_of_madeRelative c ?_
        by_cases hend : (setRelativeHref c).2 = true
        · rw [if_pos hend] at h
          exact h.1
        · rw [if_neg hend] at h
          exact h.1
      rw [if_pos (madeRelative_of_good c hc).1] at h
      intro m hm
      rw [descendantsAll, ← List.cons_append] at hm
      rcases List.mem_append.mp hm with hm | hm
      · exact hc m hm
      · exact goodAll_of_madeRelative cs h.2 m hm

end

end Run

section Resolving

variable {n : XmlNode ω}

/-- The node found by a href is the one at the place its tokens lead to. -/
theorem xmldbGetNodeCore_eq
    {href : Text}
    (h : tokens '/' href ≠ []) :
    xmldbGetNodeCore n href =
      (resolvePlace (tokens '/' href) n).bind fun ks => nodeAtPlace ks n := by
  have hgetAt : ∀ ts (m : XmlNode ω),
      m.getAt ts = (resolvePlace ts m).bind fun ks => nodeAtPlace ks m := by
    intro ts
    induction ts with
    | nil => exact fun m => rfl
    | cons t ts ih =>
        intro m
        rw [getAt_cons, childAt_eq, resolvePlace, List.find?_eq_bind_findIdx?_getElem?]
        cases hidx : m.children.findIdx? (hasHref t) with
        | none => rfl
        | some k =>
            rw [Option.bind_some, Option.bind_some]
            cases hchild : m.children[k]? with
            | none => rfl
            | some c =>
                rw [Option.bind_some, Option.bind_some, ih c]
                cases resolvePlace ts c with
                | none => rfl
                | some ks =>
                    rw [Option.map_some, Option.bind_some, Option.bind_some, nodeAtPlace, hchild]
                    rfl
  rw [xmldbGetNodeCore, forEachStrToken]
  cases htokens : tokens '/' href with
  | nil => exact absurd htokens h
  | cons t ts => exact hgetAt (t :: ts) n

/-- The first node with each href is the node itself exactly when no two have the same one. -/
theorem nodup_hrefs_iff
    {cs : List (XmlNode ω)} :
    (cs.filterMap href).Nodup ↔
      ∀ k c t, cs[k]? = some c → c.href = some t → cs.findIdx? (hasHref t) = some k := by
  rw [List.Nodup, List.pairwise_filterMap, List.pairwise_iff_getElem]
  constructor
  · intro h k c t hc ht
    obtain ⟨hk, rfl⟩ := List.getElem?_eq_some_iff.mp hc
    rw [List.findIdx?_eq_some_iff_getElem]
    exact ⟨hk, hasHref_iff.mpr ht, fun j hj hp =>
      h j k (by omega) hk hj t (hasHref_iff.mp hp) t ht rfl⟩
  · intro h i j hi hj hij t ht u hu heq
    subst heq
    obtain ⟨hlt, -, hfirst⟩ := List.findIdx?_eq_some_iff_getElem.mp
      (h j _ t (List.getElem?_eq_getElem hj) hu)
    exact hfirst i hij (hasHref_iff.mpr ht)

theorem length_of_resolvePlace :
    ∀ (ts : List Text) (n : XmlNode ω) (ks : List Nat), resolvePlace ts n = some ks →
      ks.length = ts.length
  | [], _, ks, h => by
      rw [← Option.some.inj h]
      rfl
  | t :: ts, n, ks, h => by
      rw [resolvePlace] at h
      obtain ⟨k, -, h⟩ := Option.bind_eq_some_iff.mp h
      obtain ⟨c, -, h⟩ := Option.bind_eq_some_iff.mp h
      obtain ⟨js, hjs, rfl⟩ := Option.map_eq_some_iff.mp h
      rw [List.length_cons, List.length_cons, length_of_resolvePlace ts c js hjs]

/-- That the places are found is enough. -/
theorem resolvable_iff_places :
    Resolvable n ↔ ∀ ks hs, ks ≠ [] → hrefsOn ks n = some hs →
      resolvePlace (tokens '/' (delimited '/' hs)) n = some ks := by
  constructor
  · intro h ks hs hks hhs
    exact (h ks hs hks hhs).1
  · intro h ks hs hks hhs
    have hplace := h ks hs hks hhs
    refine ⟨hplace, ?_⟩
    have htokens : tokens '/' (delimited '/' hs) ≠ [] := by
      intro hnil
      have hlength := length_of_resolvePlace _ _ _ hplace
      rw [hnil] at hlength
      exact hks (List.length_eq_zero_iff.mp hlength)
    rw [xmldbGetNodeCore_eq htokens, hplace]
    rfl

/-- What a place below a node means for one of its children. -/
theorem hrefsOn_cons
    {k : Nat} {ks : List Nat} {hs : List Text} :
    hrefsOn (k :: ks) n = some hs ↔
      ∃ c t us, n.children[k]? = some c ∧ c.href = some t ∧ hrefsOn ks c = some us ∧
        hs = t :: us := by
  rw [hrefsOn, Option.bind_eq_some_iff]
  constructor
  · rintro ⟨c, hc, h⟩
    obtain ⟨t, ht, h⟩ := Option.bind_eq_some_iff.mp h
    obtain ⟨us, hus, rfl⟩ := Option.map_eq_some_iff.mp h
    exact ⟨c, t, us, hc, ht, hus, rfl⟩
  · rintro ⟨c, t, us, hc, ht, hus, rfl⟩
    refine ⟨c, hc, ?_⟩
    rw [ht, Option.bind_some, hus]
    rfl

/-- Below a node all is found by its hrefs exactly when this is so below its children, and the
hrefs of these are components and differ. -/
theorem resolvable_iff :
    Resolvable n ↔ (n.children.filterMap href).Nodup ∧
      ∀ c ∈ n.children, ∀ t, c.href = some t → IsToken '/' t ∧ Resolvable c := by
  constructor
  · intro h
    rw [resolvable_iff_places] at h
    -- a child is found by one component, which is its href
    have hchild : ∀ k c t, n.children[k]? = some c → c.href = some t →
        IsToken '/' t ∧ n.children.findIdx? (hasHref t) = some k := by
      intro k c t hc ht
      have hplace := h [k] [t] (List.cons_ne_nil _ _)
        (hrefsOn_cons.mpr ⟨c, t, [], hc, ht, rfl, rfl⟩)
      rw [tokens_delimited_cons, show tokens '/' (delimited '/' []) = [] from rfl,
        List.append_nil] at hplace
      obtain ⟨x, hx⟩ := List.length_eq_one_iff.mp (length_of_resolvePlace _ _ _ hplace).symm
      rw [hx, resolvePlace] at hplace
      obtain ⟨j, hj, hplace⟩ := Option.bind_eq_some_iff.mp hplace
      obtain ⟨d, hd, hplace⟩ := Option.bind_eq_some_iff.mp hplace
      obtain ⟨js, -, hjs⟩ := Option.map_eq_some_iff.mp hplace
      obtain rfl : j = k := List.head_eq_of_cons_eq hjs
      obtain ⟨hlt, hhas, -⟩ := List.findIdx?_eq_some_iff_getElem.mp hj
      rw [(List.getElem?_eq_some_iff.mp hc).2, hasHref_iff, ht] at hhas
      obtain rfl := Option.some.inj hhas
      exact ⟨isToken_of_mem_tokens (hx ▸ List.mem_singleton_self t), hj⟩
    refine ⟨nodup_hrefs_iff.mpr fun k c t hc ht => (hchild k c t hc ht).2, ?_⟩
    intro c hc t ht
    obtain ⟨k, hk⟩ := List.mem_iff_getElem?.mp hc
    obtain ⟨htoken, hidx⟩ := hchild k c t hk ht
    refine ⟨htoken, resolvable_iff_places.mpr fun ks hs _ hhs => ?_⟩
    have hplace := h (k :: ks) (t :: hs) (List.cons_ne_nil _ _)
      (hrefsOn_cons.mpr ⟨c, t, hs, hk, ht, hhs, rfl⟩)
    rw [tokens_delimited_cons, tokens_of_isToken htoken, List.singleton_append, resolvePlace, hidx,
      Option.bind_some, hk, Option.bind_some] at hplace
    obtain ⟨js, hjs, heq⟩ := Option.map_eq_some_iff.mp hplace
    rw [hjs, List.tail_eq_of_cons_eq heq]
  · rintro ⟨hnodup, hall⟩
    rw [resolvable_iff_places]
    intro ks hs hks hhs
    obtain ⟨k, ks, rfl⟩ := List.exists_cons_of_ne_nil hks
    obtain ⟨c, t, us, hc, ht, hus, rfl⟩ := hrefsOn_cons.mp hhs
    obtain ⟨htoken, hc'⟩ := hall c (List.mem_of_getElem? hc) t ht
    have hrest : resolvePlace (tokens '/' (delimited '/' us)) c = some ks := by
      cases ks with
      | nil =>
          rw [← Option.some.inj hus]
          rfl
      | cons j js => exact resolvable_iff_places.mp hc' _ us (List.cons_ne_nil j js) hus
    rw [tokens_delimited_cons, tokens_of_isToken htoken, List.singleton_append, resolvePlace,
      nodup_hrefs_iff.mp hnodup k c t hc ht, Option.bind_some, hc, Option.bind_some, hrest]
    rfl

theorem resolvable_of_no_children
    (h : n.children = []) :
    Resolvable n := by
  rw [resolvable_iff, h]
  exact ⟨List.nodup_nil, fun c hc => absurd hc List.not_mem_nil⟩

theorem href_setRelativeHref
    (h : ∀ m ∈ n :: n.descendants, GoodHref m) :
    (setRelativeHref n).1.href = pathName n := by
  cases n with
  | element o name attrs cs =>
      have hgood := h _ List.mem_cons_self
      obtain ⟨attrs', heq, -, hhref⟩ :=
        relativeHref_element o name attrs (setRelativeHrefAll cs).1
      have hfails : ¬ relativeFails (element o name attrs cs) = true :=
        fun hfails => (not_goodHref_of_fails hfails).2 hgood
      rw [setRelativeHref, if_neg hfails]
      dsimp only
      rw [heq]
      exact hhref hgood
  | text o content => rfl
  | comment o content => rfl

mutual

/-- In a tree of good hrefs the nodes are found by the new ones exactly when it is well named. -/
theorem resolvable_setRelativeHref :
    ∀ n : XmlNode ω, (∀ m ∈ n :: n.descendants, GoodHref m) →
      (Resolvable (setRelativeHref n).1 ↔ WellNamed n)
  | element o name attrs cs, h => by
      obtain ⟨hnames, hall⟩ :=
        resolvable_setRelativeHrefAll cs fun m hm => h m (List.mem_cons_of_mem _ hm)
      have hfails : ¬ relativeFails (element o name attrs cs) = true :=
        fun hfails => (not_goodHref_of_fails hfails).2 (h _ List.mem_cons_self)
      obtain ⟨attrs', heq, -, -⟩ :=
        relativeHref_element o name attrs (setRelativeHrefAll cs).1
      rw [setRelativeHref, if_neg hfails]
      dsimp only
      rw [heq, resolvable_iff, WellNamed, ← hnames, ← hall]
      rfl
  | text o content, _ => iff_of_true (resolvable_of_no_children rfl) trivial
  | comment o content, _ => iff_of_true (resolvable_of_no_children rfl) trivial

theorem resolvable_setRelativeHrefAll :
    ∀ cs : List (XmlNode ω), (∀ m ∈ descendantsAll cs, GoodHref m) →
      (setRelativeHrefAll cs).1.filterMap href = cs.filterMap pathName ∧
        ((∀ c ∈ (setRelativeHrefAll cs).1, ∀ t, c.href = some t → IsToken '/' t ∧ Resolvable c) ↔
          WellNamedAll cs)
  | [], _ => ⟨rfl, iff_of_true (fun c hc => absurd hc List.not_mem_nil) trivial⟩
  | c :: cs, h => by
      have hc : ∀ m ∈ c :: c.descendants, GoodHref m := fun m hm => h m (by
        rw [descendantsAll, ← List.cons_append]
        exact List.mem_append_left _ hm)
      obtain ⟨hnames, hall⟩ := resolvable_setRelativeHrefAll cs fun m hm => h m (by
        rw [descendantsAll, ← List.cons_append]
        exact List.mem_append_right _ hm)
      rw [setRelativeHrefAll]
      dsimp only
      rw [if_pos (madeRelative_of_good c hc).1]
      constructor
      · rw [List.filterMap_cons, List.filterMap_cons, href_setRelativeHref hc, hnames]
      · rw [WellNamedAll, List.forall_mem_cons, href_setRelativeHref hc,
          resolvable_setRelativeHref c hc, hall]

end

end Resolving

/-- The hrefs of a tree are made relative, and lead to its nodes, exactly when all of them are
absolute with a component or a component already and no two of them on one level get the same
name. -/
theorem setRelativeHref_relative_iff (root : XmlNode ω) :
    (MadeRelative root (xmldbSetRelativeHref root) ∧ Resolvable (xmldbSetRelativeHref root)) ↔
      (∀ n ∈ root :: root.descendants, GoodHref n) ∧ WellNamed root := by
  rw [xmldbSetRelativeHref_eq]
  constructor
  · rintro ⟨hmade, hresolvable⟩
    have hgood := good_of_madeRelative root hmade
    exact ⟨hgood, (resolvable_setRelativeHref root hgood).mp hresolvable⟩
  · rintro ⟨hgood, hnamed⟩
    exact ⟨(madeRelative_of_good root hgood).2, (resolvable_setRelativeHref root hgood).mpr hnamed⟩

/-- A relative href keeps the slash at its end. -/
theorem setRelativeHref_leaves_slash :
    ¬ (MadeRelative
        (element none "obj".toList [(attrHref, "/a".toList)]
          [element none "obj".toList [(attrHref, "b/".toList)] []] : Xml)
        (xmldbSetRelativeHref
          (element none "obj".toList [(attrHref, "/a".toList)]
            [element none "obj".toList [(attrHref, "b/".toList)] []])) ∧
      Resolvable
        (xmldbSetRelativeHref
          (element none "obj".toList [(attrHref, "/a".toList)]
            [element none "obj".toList [(attrHref, "b/".toList)] []] : Xml))) := by
  rintro ⟨hmade, -⟩
  rw [xmldbSetRelativeHref_eq] at hmade
  have hgood := good_of_madeRelative _ hmade _ (List.mem_cons_of_mem _ List.mem_cons_self) rfl
    "b/".toList rfl
  rcases hgood with ⟨hpre, -⟩ | ⟨-, hfree⟩
  · cases hpre
  · exact hfree (by decide)

end Obix
