import Obix.Xml.Ensured
import Obix.Xml.Owned

/-!
# Nodes of descriptors in one part of a tree

What is changed at one path is not seen at another one (`getAt_modifyAt_other`).  In a tree where
only the part at a path refers to descriptors (`Confined`), what is done to the nodes of a
descriptor is done in that part.  `hideVal` hides the values of the nodes of some descriptors, and
so tells whether other values have been changed.
-/

namespace Obix

open CString

namespace XmlNode

variable {ω : Type}

section Paths

variable {f : XmlNode ω → XmlNode ω}

/-- The child with a href after a child has been replaced. -/
theorem find?_modifyFirst
    {g : XmlNode ω → XmlNode ω}
    (hg : ∀ m, (g m).href = m.href)
    (t u : Text)
    (cs : List (XmlNode ω)) :
    (modifyFirst (hasHref u) g cs).find? (hasHref t) =
      if t = u then (cs.find? (hasHref t)).map g else cs.find? (hasHref t) := by
  have hsame : ∀ c : XmlNode ω, (g c).hasHref t = c.hasHref t := by
    intro c
    rw [Bool.eq_iff_iff, hasHref_iff, hasHref_iff, hg]
  induction cs with
  | nil => simp [modifyFirst]
  | cons c cs ih =>
      by_cases hu : c.hasHref u = true
      · simp only [modifyFirst, hu, if_true]
        by_cases htu : t = u
        · subst htu
          rw [if_pos rfl, List.find?_cons_of_pos ((hsame c).trans hu), List.find?_cons_of_pos hu]
          rfl
        · have ht : ¬ c.hasHref t = true := by
            intro ht
            exact htu (Option.some.inj ((hasHref_iff.mp ht).symm.trans (hasHref_iff.mp hu)))
          rw [if_neg htu, List.find?_cons_of_neg (by rwa [hsame]), List.find?_cons_of_neg ht]
      · simp only [modifyFirst, hu, if_false, Bool.false_eq_true]
        by_cases ht : c.hasHref t = true
        · have htu : t ≠ u := fun htu => hu (htu ▸ ht)
          rw [List.find?_cons_of_pos ht, List.find?_cons_of_pos ht, if_neg htu]
        · rw [List.find?_cons_of_neg ht, List.find?_cons_of_neg ht, ih]

/-- A change is not seen at a path that does not lead to it. -/
theorem getAt_modifyAt_other
    (hf : ∀ m, (f m).href = m.href)
    {p q : Path}
    (hpq : ¬ p <+: q)
    (hchildren : q <+: p → ∀ m, (f m).children = m.children)
    (n : XmlNode ω) :
    (modifyAt f q n).getAt p = n.getAt p := by
  induction q generalizing p n with
  | nil =>
      cases p with
      | nil => exact absurd List.prefix_rfl hpq
      | cons t p =>
          have hsame : (f n).childAt t = n.childAt t := by
            rw [childAt_eq, childAt_eq, hchildren List.nil_prefix]
          simp only [modifyAt, getAt, List.foldlM_cons, hsame]
  | cons u q ih =>
      cases p with
      | nil => exact absurd List.nil_prefix hpq
      | cons t p =>
          cases n with
          | element o name attrs cs =>
              have hfind := find?_modifyFirst (href_modifyAt hf q) t u cs
              have hchild : ((element o name attrs cs).childAt t) = cs.find? (hasHref t) := rfl
              have hchild' : (modifyAt f (u :: q) (element o name attrs cs)).childAt t =
                  (modifyFirst (hasHref u) (modifyAt f q) cs).find? (hasHref t) := rfl
              simp only [getAt, List.foldlM_cons, hchild, hchild', hfind]
              by_cases htu : t = u
              · subst htu
                rw [if_pos rfl]
                cases hc : cs.find? (hasHref t) with
                | none => rfl
                | some c =>
                    exact ih (fun hp => hpq (List.cons_prefix_cons.mpr ⟨rfl, hp⟩))
                      (fun hq => hchildren (List.cons_prefix_cons.mpr ⟨rfl, hq⟩)) c
              · rw [if_neg htu]
          | text o content => rfl
          | comment o content => rfl

/-- Paths in a tree whose nodes are replaced one by one. -/
theorem getAt_map
    {ω' : Type} {g : XmlNode ω → XmlNode ω'}
    (hchildren : ∀ n, (g n).children = n.children.map g)
    (hhref : ∀ n, (g n).href = n.href)
    (p : Path)
    (n : XmlNode ω) :
    (g n).getAt p = (n.getAt p).map g := by
  induction p generalizing n with
  | nil => rfl
  | cons t p ih =>
      have hchild : (g n).childAt t = (n.childAt t).map g := by
        have hsame : (hasHref t ∘ g : XmlNode ω → Bool) = hasHref t := by
          funext c
          rw [Function.comp, Bool.eq_iff_iff, hasHref_iff, hasHref_iff, hhref]
        rw [childAt_eq, childAt_eq, hchildren, List.find?_map, hsame]
      rw [getAt_cons, getAt_cons, hchild]
      cases n.childAt t with
      | none => rfl
      | some c => exact ih c

theorem getAt_plain (p : Path) (n : Xml) :
    (plain n : XmlNode ω).getAt p = (n.getAt p).map plain := by
  have hall : ∀ cs : List Xml, (plainAll cs : List (XmlNode ω)) = cs.map plain := by
    intro cs
    induction cs with
    | nil => rfl
    | cons c cs ih => rw [plainAll, ih, List.map_cons]
  refine getAt_map (fun n => ?_) (fun n => ?_) p n
  · cases n with
    | element o name attrs cs => exact hall cs
    | text o content => rfl
    | comment o content => rfl
  · cases n <;> rfl

theorem modifyFirst_append
    (p : XmlNode ω → Bool)
    (l₁ l₂ : List (XmlNode ω)) :
    modifyFirst p f (l₁ ++ l₂) =
      if l₁.any p then modifyFirst p f l₁ ++ l₂ else l₁ ++ modifyFirst p f l₂ := by
  induction l₁ with
  | nil => simp
  | cons c l₁ ih =>
      by_cases hc : p c = true
      · simp [modifyFirst, hc]
      · simp only [List.cons_append, modifyFirst, hc, if_false, ih, List.any_cons, Bool.false_or,
          Bool.false_eq_true]
        split <;> rfl

theorem mem_modifyFirst
    {p : XmlNode ω → Bool} {m : XmlNode ω} {l : List (XmlNode ω)}
    (h : m ∈ modifyFirst p f l) :
    m ∈ l ∨ ∃ d ∈ l, m = f d := by
  induction l with
  | nil => cases h
  | cons c l ih =>
      rw [modifyFirst] at h
      split at h
      · rcases List.mem_cons.mp h with rfl | h
        · exact .inr ⟨c, List.mem_cons_self, rfl⟩
        · exact .inl (List.mem_cons_of_mem c h)
      · rcases List.mem_cons.mp h with rfl | h
        · exact .inl List.mem_cons_self
        · rcases ih h with h | ⟨d, hd, rfl⟩
          · exact .inl (List.mem_cons_of_mem c h)
          · exact .inr ⟨d, List.mem_cons_of_mem c hd, rfl⟩

theorem modifyFirst_split
    {t : Text} {pre post : List (XmlNode ω)} {c : XmlNode ω}
    (hc : c.href = some t)
    (hpre : ∀ m ∈ pre, m.href ≠ some t)
    (g : XmlNode ω → XmlNode ω) :
    modifyFirst (hasHref t) g (pre ++ c :: post) = pre ++ g c :: post := by
  induction pre with
  | nil => simp [modifyFirst, hasHref_iff.mpr hc]
  | cons m pre ih =>
      have hm : ¬ m.hasHref t = true := fun hm => hpre m List.mem_cons_self (hasHref_iff.mp hm)
      simp only [List.cons_append, modifyFirst, hm, if_false, Bool.false_eq_true]
      rw [ih fun k hk => hpre k (List.mem_cons_of_mem m hk)]

end Paths

section Values

mutual

/-- A tree without the values of the nodes of some descriptors. -/
def hideVal (hidden : Option ω → Bool) : XmlNode ω → XmlNode ω
  | element o name attrs cs =>
      element o name (if hidden o then attrs.filter fun a => a.1 ≠ attrVal else attrs)
        (hideValAll hidden cs)
  | text o content => text o content
  | comment o content => comment o content

def hideValAll (hidden : Option ω → Bool) : List (XmlNode ω) → List (XmlNode ω)
  | [] => []
  | c :: cs => hideVal hidden c :: hideValAll hidden cs

end

variable {hidden : Option ω → Bool} {f : XmlNode ω → XmlNode ω}

theorem hideValAll_eq (hidden : Option ω → Bool) (cs : List (XmlNode ω)) : hideValAll hidden cs = cs.map (hideVal hidden) := by
  induction cs with
  | nil => rfl
  | cons c cs ih => rw [hideValAll, ih, List.map_cons]

theorem lookup_filter_ne
    {attr other : Text}
    (h : attr ≠ other)
    (attrs : List (Text × Text)) :
    (attrs.filter fun a => a.1 ≠ other).lookup attr = attrs.lookup attr := by
  induction attrs with
  | nil => rfl
  | cons a attrs ih =>
      by_cases ha : a.1 = other
      · have hne : (attr == a.1) = false := by simpa [ha] using h
        rw [List.filter_cons_of_neg (by simpa using ha), ih, List.lookup_cons, hne]
      · rw [List.filter_cons_of_pos (by simpa using ha), List.lookup_cons, List.lookup_cons, ih]

/-- Only values are hidden. -/
theorem getProp_hideVal_other
    {attr : Text}
    (h : attr ≠ attrVal)
    (hidden : Option ω → Bool)
    (n : XmlNode ω) :
    (hideVal hidden n).getProp attr = n.getProp attr := by
  cases n with
  | element o name attrs cs =>
      simp only [hideVal, getProp]
      split
      · exact lookup_filter_ne h attrs
      · rfl
  | text o content => rfl
  | comment o content => rfl

theorem href_hideVal (hidden : Option ω → Bool) (n : XmlNode ω) : (hideVal hidden n).href = n.href :=
  getProp_hideVal_other (by decide) hidden n

theorem getProp_hideVal
    {n : XmlNode ω}
    (hn : hidden n.owner = false)
    (attr : Text) :
    (hideVal hidden n).getProp attr = n.getProp attr := by
  cases n with
  | element o name attrs cs =>
      have ho : hidden o = false := hn
      simp [hideVal, getProp, ho]
  | text o content => rfl
  | comment o content => rfl

/-- Hiding values changes no path. -/
theorem getAt_hideVal (hidden : Option ω → Bool) (p : Path) (n : XmlNode ω) :
    (hideVal hidden n).getAt p = (n.getAt p).map (hideVal hidden) := by
  refine getAt_map (fun n => ?_) (href_hideVal hidden) p n
  cases n with
  | element o name attrs cs => exact hideValAll_eq hidden cs
  | text o content => rfl
  | comment o content => rfl

@[simp] theorem owner_setProp (attr value : Text) (n : XmlNode ω) :
    (setProp attr value n).owner = n.owner := by
  cases n <;> rfl

@[simp] theorem children_setProp (attr value : Text) (n : XmlNode ω) :
    (setProp attr value n).children = n.children := by
  cases n <;> rfl

theorem filter_map_setProp (attr value : Text) (attrs : List (Text × Text)) :
    ((attrs.map fun a => if a.1 = attr then (attr, value) else a).filter fun a => a.1 ≠ attr) =
      attrs.filter fun a => a.1 ≠ attr := by
  induction attrs with
  | nil => rfl
  | cons a attrs ih =>
      by_cases ha : a.1 = attr
      · rw [List.map_cons, if_pos ha, List.filter_cons_of_neg (by simp),
          List.filter_cons_of_neg (by simpa using ha), ih]
      · rw [List.map_cons, if_neg ha, List.filter_cons_of_pos (by simpa using ha),
          List.filter_cons_of_pos (by simpa using ha), ih]

/-- Setting an attribute changes no other one. -/
theorem getProp_setProp_other
    {attr other : Text}
    (h : attr ≠ other)
    (value : Text)
    (n : XmlNode ω) :
    (setProp other value n).getProp attr = n.getProp attr := by
  cases n with
  | element o name attrs cs =>
      have hother : (attr == other) = false := by simpa using h
      simp only [setProp, getProp]
      split
      · rw [← lookup_filter_ne h, filter_map_setProp, lookup_filter_ne h]
      · rw [List.lookup_append, List.lookup_cons, hother]
        simp
  | text o content => rfl
  | comment o content => rfl

theorem href_setProp_val (value : Text) (n : XmlNode ω) :
    (setProp attrVal value n).href = n.href :=
  getProp_setProp_other (by decide) value n

/-- A value of a node of such a descriptor is hidden. -/
theorem hideVal_setProp
    {n : XmlNode ω}
    (hn : hidden n.owner = true)
    (value : Text) :
    hideVal hidden (setProp attrVal value n) = hideVal hidden n := by
  cases n with
  | element o name attrs cs =>
      have ho : hidden o = true := hn
      simp only [setProp, hideVal, ho, if_true]
      congr 1
      split
      · exact filter_map_setProp attrVal value attrs
      · simp
  | text o content => rfl
  | comment o content => rfl

theorem hideValAll_modifyFirst
    {t : Text} {cs : List (XmlNode ω)} {c : XmlNode ω}
    {g : XmlNode ω → XmlNode ω}
    (hfind : cs.find? (hasHref t) = some c)
    (hg : hideVal hidden (g c) = hideVal hidden c) :
    hideValAll hidden (modifyFirst (hasHref t) g cs) = hideValAll hidden cs := by
  induction cs with
  | nil => rfl
  | cons m cs ih =>
      by_cases hm : m.hasHref t = true
      · rw [List.find?_cons_of_pos hm] at hfind
        obtain rfl : m = c := Option.some.inj hfind
        simp only [modifyFirst, hm, if_true]
        rw [hideValAll, hideValAll, hg]
      · rw [List.find?_cons_of_neg hm] at hfind
        simp only [modifyFirst, hm, if_false, Bool.false_eq_true]
        rw [hideValAll, hideValAll, ih hfind]

/-- What is done at a path and hidden there is hidden. -/
theorem hideVal_modifyAt
    {p : Path} {n m : XmlNode ω}
    (hget : n.getAt p = some m)
    (hm : hideVal hidden (f m) = hideVal hidden m) :
    hideVal hidden (modifyAt f p n) = hideVal hidden n := by
  induction p generalizing n with
  | nil =>
      obtain rfl : n = m := Option.some.inj hget
      exact hm
  | cons t rest ih =>
      obtain ⟨c, hfind, hrest⟩ := Option.bind_eq_some_iff.mp hget
      cases n with
      | element o name attrs cs =>
          have hfind : cs.find? (hasHref t) = some c := hfind
          rw [modifyAt, hideVal, hideVal, hideValAll_modifyFirst hfind (ih hrest)]
      | text o content => cases hfind
      | comment o content => cases hfind

end Values

variable [DecidableEq ω]

section Confined

/-- Only the part of a tree at a path refers to descriptors; its top refers to `r`. -/
def Confined (r : ω) : Path → XmlNode ω → Prop
  | [], n => n.owner = some r
  | t :: rest, n => n.owner = none ∧ ∃ pre c post, n.children = pre ++ c :: post ∧
      c.href = some t ∧ (∀ m ∈ pre, m.href ≠ some t) ∧ Confined r rest c ∧
      ∀ m ∈ pre ++ post, ∀ i, ownNode i m = none

variable {r i : ω} {f : XmlNode ω → XmlNode ω}

mutual

theorem modifyOwn_of_fresh (f : XmlNode ω → XmlNode ω) :
    ∀ n : XmlNode ω, ownNode i n = none → modifyOwn i f n = n
  | element o name attrs cs, hn => by
      obtain ⟨ho, hcs⟩ := ownNode_eq_none.mp hn
      have ho : o ≠ some i := ho
      rw [modifyOwn, if_neg ho, modifyOwnAll_of_fresh f cs hcs]
  | text o content, hn => by
      have ho : o ≠ some i := owner_of_ownNode hn
      rw [modifyOwn, if_neg ho]
  | comment o content, hn => by
      have ho : o ≠ some i := owner_of_ownNode hn
      rw [modifyOwn, if_neg ho]

theorem modifyOwnAll_of_fresh (f : XmlNode ω → XmlNode ω) :
    ∀ cs : List (XmlNode ω), (∀ c ∈ cs, ownNode i c = none) → modifyOwnAll i f cs = cs
  | [], _ => rfl
  | c :: cs, h => by
      have hc := h c List.mem_cons_self
      have hrest := modifyOwnAll_of_fresh f cs fun m hm => h m (List.mem_cons_of_mem c hm)
      rw [modifyOwnAll, hc, hrest]
      rfl

end

theorem modifyOwnAll_split
    {pre post : List (XmlNode ω)} {c : XmlNode ω}
    (hpre : ∀ m ∈ pre, ownNode i m = none)
    (hpost : ∀ m ∈ post, ownNode i m = none) :
    modifyOwnAll i f (pre ++ c :: post) = pre ++ modifyOwn i f c :: post := by
  induction pre with
  | nil =>
      rw [List.nil_append, modifyOwnAll]
      split
      · rfl
      · rename_i hnone
        have hc : ownNode i c = none := by simpa using hnone
        rw [modifyOwnAll_of_fresh f post hpost, modifyOwn_of_fresh f c hc]
        rfl
  | cons m pre ih =>
      rw [List.cons_append, modifyOwnAll, hpre m List.mem_cons_self]
      rw [ih fun k hk => hpre k (List.mem_cons_of_mem m hk)]
      rfl

theorem removeOwnAll_split
    {pre post : List (XmlNode ω)} {c : XmlNode ω}
    (hc : c.owner ≠ some i)
    (hpre : ∀ m ∈ pre, ownNode i m = none)
    (hpost : ∀ m ∈ post, ownNode i m = none) :
    removeOwnAll i (pre ++ c :: post) = pre ++ removeOwn i c :: post := by
  induction pre with
  | nil =>
      rw [List.nil_append, removeOwnAll, if_neg hc]
      split
      · rfl
      · rename_i hnone
        have hfresh : ownNode i c = none := by simpa using hnone
        rw [removeOwnAll_of_fresh post (ownNodeAll_eq_none.mpr hpost), removeOwn_of_fresh c hfresh]
        rfl
  | cons m pre ih =>
      have hm := hpre m List.mem_cons_self
      rw [List.cons_append, removeOwnAll, if_neg (owner_of_ownNode hm), hm]
      rw [ih fun k hk => hpre k (List.mem_cons_of_mem m hk)]
      rfl

theorem ownNodeAll_split
    {pre post : List (XmlNode ω)} {c : XmlNode ω}
    (hpre : ∀ m ∈ pre, ownNode i m = none)
    (hpost : ∀ m ∈ post, ownNode i m = none) :
    ownNodeAll i (pre ++ c :: post) = ownNode i c := by
  induction pre with
  | nil =>
      rw [List.nil_append, ownNodeAll, ownNodeAll_eq_none.mpr hpost]
      cases ownNode i c <;> rfl
  | cons m pre ih =>
      rw [List.cons_append, ownNodeAll, hpre m List.mem_cons_self,
        ih fun k hk => hpre k (List.mem_cons_of_mem m hk)]
      rfl

/-- The nodes of descriptors are found in their part of the tree. -/
theorem Confined.ownNode_eq
    {p : Path} {n : XmlNode ω}
    (h : Confined r p n) :
    ownNode i n = (n.getAt p).bind (ownNode i) := by
  induction p generalizing n with
  | nil => rfl
  | cons t rest ih =>
      obtain ⟨howner, pre, c, post, hcs, hc, hpre, hrest, hfresh⟩ := h
      cases n with
      | element o name attrs cs =>
          obtain rfl : cs = pre ++ c :: post := hcs
          obtain rfl : o = none := howner
          have hfind : (element none name attrs (pre ++ c :: post)).childAt t = some c := by
            have hskip : pre.find? (hasHref t) = none := by
              rw [List.find?_eq_none]
              exact fun m hm hmt => hpre m hm (hasHref_iff.mp hmt)
            rw [childAt_eq]
            show (pre ++ c :: post).find? (hasHref t) = some c
            rw [List.find?_append, hskip, List.find?_cons_of_pos (hasHref_iff.mpr hc)]
            rfl
          rw [ownNode, if_neg (by simp), ownNodeAll_split
            (fun m hm => hfresh m (List.mem_append_left _ hm) i)
            (fun m hm => hfresh m (List.mem_append_right _ hm) i), ih hrest, getAt_cons, hfind]
          rfl
      | text o content => simp [children] at hcs
      | comment o content => simp [children] at hcs

/-- The nodes of descriptors are changed in their part of the tree. -/
theorem Confined.modifyOwn_eq
    {p : Path} {n : XmlNode ω}
    (h : Confined r p n) :
    modifyOwn i f n = modifyAt (modifyOwn i f) p n := by
  induction p generalizing n with
  | nil => rfl
  | cons t rest ih =>
      obtain ⟨howner, pre, c, post, hcs, hc, hpre, hrest, hfresh⟩ := h
      cases n with
      | element o name attrs cs =>
          obtain rfl : cs = pre ++ c :: post := hcs
          obtain rfl : o = none := howner
          rw [modifyOwn, if_neg (by simp), modifyAt, modifyFirst_split hc hpre,
            modifyOwnAll_split (fun m hm => hfresh m (List.mem_append_left _ hm) i)
              (fun m hm => hfresh m (List.mem_append_right _ hm) i), ih hrest]
      | text o content => simp [children] at hcs
      | comment o content => simp [children] at hcs

/-- The nodes of a descriptor other than the topmost one are removed in their part of the
tree. -/
theorem Confined.removeOwn_eq
    {p : Path} {n : XmlNode ω}
    (h : Confined r p n)
    (hi : i ≠ r) :
    removeOwn i n = modifyAt (removeOwn i) p n := by
  induction p generalizing n with
  | nil => rfl
  | cons t rest ih =>
      obtain ⟨howner, pre, c, post, hcs, hc, hpre, hrest, hfresh⟩ := h
      have hother : c.owner ≠ some i := by
        cases rest with
        | nil =>
            have htop : c.owner = some r := hrest
            rw [htop]
            exact fun hri => hi (Option.some.inj hri).symm
        | cons u rest =>
            rw [hrest.1]
            simp
      cases n with
      | element o name attrs cs =>
          obtain rfl : cs = pre ++ c :: post := hcs
          rw [removeOwn, modifyAt, modifyFirst_split hc hpre,
            removeOwnAll_split hother (fun m hm => hfresh m (List.mem_append_left _ hm) i)
              (fun m hm => hfresh m (List.mem_append_right _ hm) i), ih hrest]
      | text o content => simp [children] at hcs
      | comment o content => simp [children] at hcs

theorem Confined.modifyAt
    {p : Path} {n : XmlNode ω}
    (h : Confined r p n)
    (hhref : ∀ m, (f m).href = m.href)
    (howner : ∀ m, m.owner = some r → (f m).owner = some r) :
    Confined r p (modifyAt f p n) := by
  induction p generalizing n with
  | nil => exact howner n h
  | cons t rest ih =>
      obtain ⟨hnone, pre, c, post, hcs, hc, hpre, hrest, hfresh⟩ := h
      cases n with
      | element o name attrs cs =>
          obtain rfl : cs = pre ++ c :: post := hcs
          refine ⟨hnone, pre, XmlNode.modifyAt f rest c, post, ?_, ?_, hpre, ih hrest, hfresh⟩
          · exact modifyFirst_split hc hpre _
          · rw [href_modifyAt hhref, hc]
      | text o content => simp [children] at hcs
      | comment o content => simp [children] at hcs

theorem href_modifyOwn
    (hf : ∀ m, (f m).href = m.href)
    (n : XmlNode ω) :
    (modifyOwn i f n).href = n.href := by
  cases n <;> rw [modifyOwn] <;> split <;> first | exact hf _ | rfl

theorem owner_modifyOwn
    (hf : ∀ m, (f m).owner = m.owner)
    (n : XmlNode ω) :
    (modifyOwn i f n).owner = n.owner := by
  cases n <;> rw [modifyOwn] <;> split <;> first | exact hf _ | rfl

/-- Descriptors are referred to in the same part after one of their nodes has been changed. -/
theorem Confined.modifyOwn
    {p : Path} {n : XmlNode ω}
    (h : Confined r p n)
    (hhref : ∀ m, (f m).href = m.href)
    (howner : ∀ m, (f m).owner = m.owner) :
    Confined r p (modifyOwn i f n) := by
  rw [h.modifyOwn_eq]
  exact h.modifyAt (href_modifyOwn hhref) fun m hm => (owner_modifyOwn howner m).trans hm

theorem Confined.removeOwn
    {p : Path} {n : XmlNode ω}
    (h : Confined r p n)
    (hi : i ≠ r) :
    Confined r p (removeOwn i n) := by
  rw [h.removeOwn_eq hi]
  refine h.modifyAt (fun m => ?_) fun m hm => ?_
  · cases m <;> rfl
  · rw [← hm]
    cases m <;> rfl

theorem keepsFresh_setProp (i : ω) (attr value : Text) : KeepsFresh i (setProp attr value) := by
  intro n hn
  rw [ownNode_eq_none] at hn ⊢
  rwa [owner_setProp, children_setProp]

/-- Descriptors are referred to in the same part after an attribute has been set anywhere. -/
theorem Confined.setVal
    {p : Path} {n : XmlNode ω}
    (h : Confined r p n)
    (value : Text)
    (q : Path) :
    Confined r p (XmlNode.modifyAt (setProp attrVal value) q n) := by
  induction p generalizing n q with
  | nil =>
      cases q with
      | nil => exact (owner_setProp attrVal value n).trans h
      | cons u q => exact (owner_modifyAt_cons n).trans h
  | cons t rest ih =>
      obtain ⟨hnone, pre, c, post, hcs, hc, hpre, hrest, hfresh⟩ := h
      have hhref := href_modifyAt (@href_setProp_val ω value)
      -- the other children still refer to no descriptor, and have their hrefs
      have hmem : ∀ q u l, (∀ m ∈ l, m ∈ pre ++ post) →
          ∀ m ∈ modifyFirst (hasHref u) (XmlNode.modifyAt (setProp attrVal value) q) l,
            (∀ i, ownNode i m = none) ∧ ∃ d ∈ l, m.href = d.href := by
        intro q u l hl m hm
        rcases mem_modifyFirst hm with hm | ⟨d, hd, rfl⟩
        · exact ⟨hfresh m (hl m hm), m, hm, rfl⟩
        · exact ⟨fun i => (keepsFresh_setProp i attrVal value).modifyAt q d (hfresh d (hl d hd) i),
            d, hd, hhref q d⟩
      cases q with
      | nil =>
          refine ⟨(owner_setProp attrVal value n).trans hnone, pre, c, post, ?_, hc, hpre, hrest,
            hfresh⟩
          exact (children_setProp attrVal value n).trans hcs
      | cons u q =>
          refine ⟨(owner_modifyAt_cons n).trans hnone, ?_⟩
          rw [children_modifyAt_cons, hcs]
          by_cases hut : u = t
          · subst hut
            rw [modifyFirst_split hc hpre]
            exact ⟨pre, _, post, rfl, (hhref q c).trans hc, hpre, ih hrest q, hfresh⟩
          · have hcu : ¬ c.hasHref u = true := fun hcu =>
              hut (Option.some.inj ((hasHref_iff.mp hcu).symm.trans hc))
            rw [modifyFirst_append]
            split
            · refine ⟨_, c, post, rfl, hc, fun m hm => ?_, hrest, fun m hm => ?_⟩
              · obtain ⟨-, d, hd, hmd⟩ := hmem q u pre (by simp +contextual) m hm
                exact hmd ▸ hpre d hd
              · rcases List.mem_append.mp hm with hm | hm
                · exact (hmem q u pre (by simp +contextual) m hm).1
                · exact hfresh m (by simp [hm])
            · simp only [modifyFirst, hcu, if_false, Bool.false_eq_true]
              refine ⟨pre, c, _, rfl, hc, hpre, hrest, fun m hm => ?_⟩
              rcases List.mem_append.mp hm with hm | hm
              · exact hfresh m (by simp [hm])
              · exact (hmem q u post (by simp +contextual) m hm).1

/-- The part of a document that is set up for descriptors. -/
theorem confined_setupPrivate
    {p : Path} {n m : XmlNode ω}
    (hfresh : ∀ i, ownNode i n = none)
    (hget : n.getAt p = some m) :
    Confined r p (XmlNode.modifyAt (setupPrivate r) p n) := by
  induction p generalizing n with
  | nil => cases n <;> rfl
  | cons t rest ih =>
      obtain ⟨c, hfind, hrest⟩ := Option.bind_eq_some_iff.mp hget
      cases n with
      | element o name attrs cs =>
          have hhref : ∀ k : XmlNode ω, (setupPrivate r k).href = k.href := by
            intro k
            cases k <;> rfl
          have hfind : cs.find? (hasHref t) = some c := hfind
          obtain ⟨hc, pre, post, rfl, hpre⟩ := List.find?_eq_some_iff_append.mp hfind
          have hc := hasHref_iff.mp hc
          have hpre : ∀ k ∈ pre, k.href ≠ some t := by
            intro k hk hkt
            have hnot := hpre k hk
            rw [hasHref_iff.mpr hkt] at hnot
            cases hnot
          have hall : ∀ k ∈ pre ++ c :: post, ∀ i, ownNode i k = none := fun k hk i =>
            (ownNode_eq_none.mp (hfresh i)).2 k hk
          refine ⟨?_, pre, XmlNode.modifyAt (setupPrivate r) rest c, post, ?_, ?_, hpre, ?_, ?_⟩
          · cases ho : o with
            | none => rfl
            | some i => exact absurd (by simp [owner, ho]) (ownNode_eq_none.mp (hfresh i)).1
          · exact modifyFirst_split hc hpre _
          · rw [href_modifyAt hhref, hc]
          · exact ih (hall c (by simp)) hrest
          · intro k hk
            refine hall k ?_
            rcases List.mem_append.mp hk with hk | hk
            · simp [hk]
            · simp [hk]
      | text o content => cases hfind
      | comment o content => cases hfind

end Confined

section OwnValues

variable {hidden : Option ω → Bool} {i : ω} {f : XmlNode ω → XmlNode ω}

theorem ownNode_self
    {n : XmlNode ω}
    (hn : n.owner = some i) :
    ownNode i n = some n := by
  cases n with
  | element o name attrs cs =>
      have ho : o = some i := hn
      rw [ownNode, if_pos ho]
  | text o content =>
      have ho : o = some i := hn
      rw [ownNode, if_pos ho]
  | comment o content =>
      have ho : o = some i := hn
      rw [ownNode, if_pos ho]

mutual

theorem owner_of_ownNode_some {m : XmlNode ω} :
    ∀ n : XmlNode ω, ownNode i n = some m → m.owner = some i
  | element o name attrs cs, hn => by
      rw [ownNode] at hn
      split at hn
      · rename_i ho
        obtain rfl := Option.some.inj hn
        exact ho
      · exact owner_of_ownNodeAll_some cs hn
  | text o content, hn => by
      rw [ownNode] at hn
      split at hn
      · rename_i ho
        obtain rfl := Option.some.inj hn
        exact ho
      · cases hn
  | comment o content, hn => by
      rw [ownNode] at hn
      split at hn
      · rename_i ho
        obtain rfl := Option.some.inj hn
        exact ho
      · cases hn

theorem owner_of_ownNodeAll_some {m : XmlNode ω} :
    ∀ cs : List (XmlNode ω), ownNodeAll i cs = some m → m.owner = some i
  | [], hn => by cases hn
  | c :: cs, hn => by
      rw [ownNodeAll] at hn
      cases hc : ownNode i c with
      | some k =>
          rw [hc] at hn
          obtain rfl : k = m := Option.some.inj hn
          exact owner_of_ownNode_some c hc
      | none =>
          rw [hc] at hn
          exact owner_of_ownNodeAll_some cs hn

end

mutual

theorem ownNode_hideVal : ∀ n : XmlNode ω, ownNode i (hideVal hidden n) = (ownNode i n).map (hideVal hidden)
  | element o name attrs cs => by
      rw [hideVal, ownNode, ownNode]
      split
      · rename_i ho
        rw [Option.map_some, hideVal]
      · exact ownNodeAll_hideVal cs
  | text o content => by
      rw [hideVal, ownNode]
      split <;> rfl
  | comment o content => by
      rw [hideVal, ownNode]
      split <;> rfl

theorem ownNodeAll_hideVal : ∀ cs : List (XmlNode ω),
    ownNodeAll i (hideValAll hidden cs) = (ownNodeAll i cs).map (hideVal hidden)
  | [] => rfl
  | c :: cs => by
      rw [hideValAll, ownNodeAll, ownNodeAll, ownNode_hideVal c, ownNodeAll_hideVal cs]
      cases ownNode i c <;> rfl

end

mutual

/-- What is done to the node of a descriptor and hidden there is hidden. -/
theorem hideVal_modifyOwn {m : XmlNode ω} (hm : hideVal hidden (f m) = hideVal hidden m) :
    ∀ n : XmlNode ω, ownNode i n = some m → hideVal hidden (modifyOwn i f n) = hideVal hidden n
  | element o name attrs cs, hn => by
      rw [ownNode] at hn
      rw [modifyOwn]
      split
      · rename_i ho
        rw [if_pos ho] at hn
        obtain rfl := Option.some.inj hn
        exact hm
      · rename_i ho
        rw [if_neg ho] at hn
        rw [hideVal, hideVal, hideValAll_modifyOwnAll hm cs hn]
  | text o content, hn => by
      rw [ownNode] at hn
      rw [modifyOwn]
      split
      · rename_i ho
        rw [if_pos ho] at hn
        obtain rfl := Option.some.inj hn
        exact hm
      · rfl
  | comment o content, hn => by
      rw [ownNode] at hn
      rw [modifyOwn]
      split
      · rename_i ho
        rw [if_pos ho] at hn
        obtain rfl := Option.some.inj hn
        exact hm
      · rfl

theorem hideValAll_modifyOwnAll {m : XmlNode ω} (hm : hideVal hidden (f m) = hideVal hidden m) :
    ∀ cs : List (XmlNode ω), ownNodeAll i cs = some m →
      hideValAll hidden (modifyOwnAll i f cs) = hideValAll hidden cs
  | [], hn => by cases hn
  | c :: cs, hn => by
      rw [ownNodeAll] at hn
      rw [modifyOwnAll]
      cases hc : ownNode i c with
      | some k =>
          rw [hc] at hn
          obtain rfl : k = m := Option.some.inj hn
          rw [if_pos (by simp), hideValAll, hideValAll, hideVal_modifyOwn hm c hc]
      | none =>
          rw [hc] at hn
          have hn : ownNodeAll i cs = some m := hn
          rw [if_neg (by simp), hideValAll, hideValAll, hideValAll_modifyOwnAll hm cs hn]

end

mutual

/-- The node of a descriptor after it has been changed. -/
theorem ownNode_modifyOwn {m : XmlNode ω} (hm : (f m).owner = some i) :
    ∀ n : XmlNode ω, ownNode i n = some m → ownNode i (modifyOwn i f n) = some (f m)
  | element o name attrs cs, hn => by
      rw [ownNode] at hn
      rw [modifyOwn]
      split
      · rename_i ho
        rw [if_pos ho] at hn
        obtain rfl := Option.some.inj hn
        exact ownNode_self hm
      · rename_i ho
        rw [if_neg ho] at hn
        rw [ownNode, if_neg ho]
        exact ownNodeAll_modifyOwnAll hm cs hn
  | text o content, hn => by
      rw [ownNode] at hn
      rw [modifyOwn]
      split
      · rename_i ho
        rw [if_pos ho] at hn
        obtain rfl := Option.some.inj hn
        exact ownNode_self hm
      · rename_i ho
        rw [if_neg ho] at hn
        cases hn
  | comment o content, hn => by
      rw [ownNode] at hn
      rw [modifyOwn]
      split
      · rename_i ho
        rw [if_pos ho] at hn
        obtain rfl := Option.some.inj hn
        exact ownNode_self hm
      · rename_i ho
        rw [if_neg ho] at hn
        cases hn

theorem ownNodeAll_modifyOwnAll {m : XmlNode ω} (hm : (f m).owner = some i) :
    ∀ cs : List (XmlNode ω), ownNodeAll i cs = some m →
      ownNodeAll i (modifyOwnAll i f cs) = some (f m)
  | [], hn => by cases hn
  | c :: cs, hn => by
      rw [ownNodeAll] at hn
      rw [modifyOwnAll]
      cases hc : ownNode i c with
      | some k =>
          rw [hc] at hn
          obtain rfl : k = m := Option.some.inj hn
          rw [if_pos (by simp), ownNodeAll, ownNode_modifyOwn hm c hc]
          rfl
      | none =>
          rw [hc] at hn
          have hn : ownNodeAll i cs = some m := hn
          rw [if_neg (by simp), ownNodeAll, hc]
          exact ownNodeAll_modifyOwnAll hm cs hn

end

end OwnValues

end XmlNode

end Obix
