import Obix.Xml.Altered
import Obix.Xml.RoundTrip

/-!
# Trees that stay writable

What is done to a tree keeps it writable if no node has more than one text node among its
children: a child that is taken away, or left out of a copy, then never leaves two text nodes side
by side (`isTidy`).
-/

namespace Obix

open CString

namespace XmlNode

variable {ω : Type}

/-- A tree whose nodes can be written, with one text node among the children of a node at most. -/
def isTidy (n : XmlNode ω) : Bool :=
  everywhere (fun m => m.isLegible && fewTexts m.children) n

section Nodes

theorem isTidy_element
    {o : Option ω} {name : Text} {attrs : List (Text × Text)} {cs : List (XmlNode ω)} :
    (element o name attrs cs).isTidy = true ↔
      isXmlName name = true ∧ isAttrList attrs = true ∧ fewTexts cs = true ∧
        ∀ c ∈ cs, c.isTidy = true := by
  rw [isTidy, everywhere_element]
  simp only [isLegible, children, Bool.and_eq_true, and_assoc]
  rfl

theorem fewTexts_sublist
    {υ : Type} {cs : List (XmlNode ω)} {ds : List (XmlNode υ)}
    (h : (ds.filterMap textOf).Sublist (cs.filterMap textOf))
    (hcs : fewTexts cs = true) :
    fewTexts ds = true := by
  simp only [fewTexts, Bool.and_eq_true, decide_eq_true_eq, List.all_eq_true] at hcs ⊢
  exact ⟨le_trans h.length_le hcs.1, fun t ht => hcs.2 t (h.subset ht)⟩

theorem fewTexts_congr
    {υ : Type} {cs : List (XmlNode ω)} {ds : List (XmlNode υ)}
    (h : ds.filterMap textOf = cs.filterMap textOf)
    (hcs : fewTexts cs = true) :
    fewTexts ds = true :=
  fewTexts_sublist (h ▸ List.Sublist.refl _) hcs

/-- One text node has no neighbour that is a text node. -/
theorem textsApart_of_fewTexts
    {cs : List (XmlNode ω)}
    (h : fewTexts cs = true) :
    textsApart cs = true := by
  induction cs with
  | nil => rfl
  | cons c cs ih =>
      have hrest := ih (fewTexts_sublist ((List.sublist_cons_self c cs).filterMap _) h)
      simp only [fewTexts, Bool.and_eq_true, decide_eq_true_eq, List.all_eq_true,
        Bool.not_eq_true'] at h
      obtain ⟨hlen, hblank⟩ := h
      rw [textsApart, hrest]
      cases c with
      | element => simp [isBlankText, isTextNode]
      | comment => simp [isBlankText, isTextNode]
      | text o content =>
          have hwhite : content.all isWhite = false := hblank content (by simp [textOf])
          cases cs with
          | nil => simp [isBlankText, hwhite]
          | cons d cs =>
              cases d with
              | element => simp [isBlankText, isTextNode, hwhite]
              | comment => simp [isBlankText, isTextNode, hwhite]
              | text => simp [textOf] at hlen

mutual

/-- What holds of a node when it holds of its children holds of every tree. -/
theorem children_induction
    {P : XmlNode ω → Prop}
    (step : ∀ n : XmlNode ω, (∀ c ∈ n.children, P c) → P n) :
    ∀ n : XmlNode ω, P n
  | element _ _ _ cs => step _ (children_inductionAll step cs)
  | text _ _ => step _ fun c hc => by cases hc
  | comment _ _ => step _ fun c hc => by cases hc

theorem children_inductionAll
    {P : XmlNode ω → Prop}
    (step : ∀ n : XmlNode ω, (∀ c ∈ n.children, P c) → P n) :
    ∀ cs : List (XmlNode ω), ∀ c ∈ cs, P c
  | [], c, hc => by cases hc
  | d :: cs, c, hc => by
      rcases List.mem_cons.mp hc with hcd | hc
      · rw [hcd]
        exact children_induction step d
      · exact children_inductionAll step cs c hc

end

theorem everywhere_mono
    {p q : XmlNode ω → Bool}
    (hpq : ∀ n, p n = true → q n = true)
    (n : XmlNode ω) :
    everywhere p n = true → everywhere q n = true := by
  induction n using children_induction with
  | step n ih =>
      intro h
      cases n with
      | element o name attrs cs =>
          obtain ⟨hself, hall⟩ := everywhere_element.mp h
          exact everywhere_element.mpr ⟨hpq _ hself, fun c hc => ih c hc (hall c hc)⟩
      | text o content => exact hpq _ h
      | comment o content => exact hpq _ h

theorem isWritable_of_isTidy
    {n : XmlNode ω}
    (h : n.isTidy = true) :
    n.isWritable = true := by
  refine everywhere_mono (fun m hm => ?_) n h
  rw [Bool.and_eq_true] at hm ⊢
  exact ⟨hm.1, textsApart_of_fewTexts hm.2⟩

end Nodes

section Changes

variable {n n' : XmlNode ω}

/-- A change of one node that keeps it tidy, and keeps its text if it is one. -/
theorem Altered.isTidy
    (h : Altered (fun m m' => m.isTidy = true → m'.isTidy = true ∧ m'.textOf = m.textOf) n n')
    (hn : n.isTidy = true) :
    n'.isTidy = true ∧ n'.textOf = n.textOf := by
  induction h with
  | here h => exact h hn
  | inside _ ih =>
      obtain ⟨hname, hattrs, hfew, hall⟩ := isTidy_element.mp hn
      obtain ⟨hc, htext⟩ := ih (hall _ (by simp))
      refine ⟨isTidy_element.mpr ⟨hname, hattrs, fewTexts_congr ?_ hfew, ?_⟩, rfl⟩
      · rw [List.filterMap_append, List.filterMap_append, List.filterMap_cons,
          List.filterMap_cons, htext]
      · intro d hd
        rcases List.mem_append.mp hd with hd | hd
        · exact hall d (List.mem_append_left _ hd)
        · rcases List.mem_cons.mp hd with rfl | hd
          · exact hc
          · exact hall d (List.mem_append_right _ (List.mem_cons_of_mem _ hd))

theorem isAttrList_setProp
    {attr value : Text} {attrs : List (Text × Text)}
    (hattr : isXmlName attr = true)
    (hvalue : value.all isXmlChar = true)
    (h : isAttrList attrs = true) :
    isAttrList (if (attrs.lookup attr).isSome then
        attrs.map fun a => if a.1 = attr then (attr, value) else a
      else attrs ++ [(attr, value)]) = true := by
  simp only [isAttrList, Bool.and_eq_true, List.all_eq_true, decide_eq_true_eq] at h ⊢
  split
  · refine ⟨?_, ?_⟩
    · intro a ha
      obtain ⟨b, hb, rfl⟩ := List.mem_map.mp ha
      split
      · exact ⟨hattr, List.all_eq_true.mp hvalue⟩
      · exact h.1 b hb
    · have hnames : (attrs.map fun a => if a.1 = attr then (attr, value) else a).map Prod.fst =
          attrs.map Prod.fst := by
        rw [List.map_map]
        refine List.map_congr_left fun a _ => ?_
        dsimp only [Function.comp]
        split
        · exact Eq.symm ‹_›
        · rfl
      rw [hnames]
      exact h.2
  · rename_i hnew
    refine ⟨?_, ?_⟩
    · intro a ha
      rcases List.mem_append.mp ha with ha | ha
      · exact h.1 a ha
      · rw [List.mem_singleton.mp ha]
        exact ⟨hattr, List.all_eq_true.mp hvalue⟩
    · rw [List.map_append, List.map_cons, List.map_nil]
      refine List.nodup_append.mpr ⟨h.2, by simp, ?_⟩
      rintro a ha b hb rfl
      obtain rfl := List.mem_singleton.mp hb
      obtain ⟨⟨a, v⟩, hmem, rfl⟩ := List.mem_map.mp ha
      rw [Option.not_isSome_iff_eq_none, List.lookup_eq_none_iff] at hnew
      simpa using hnew (a, v) hmem

theorem isTidy_setProp
    {attr value : Text}
    (hattr : isXmlName attr = true)
    (hvalue : value.all isXmlChar = true)
    (h : n.isTidy = true) :
    (setProp attr value n).isTidy = true ∧ (setProp attr value n).textOf = n.textOf := by
  cases n with
  | element o name attrs cs =>
      obtain ⟨hname, hattrs, hfew, hall⟩ := isTidy_element.mp h
      exact ⟨isTidy_element.mpr ⟨hname, isAttrList_setProp hattr hvalue hattrs, hfew, hall⟩, rfl⟩
  | text o content => exact ⟨h, rfl⟩
  | comment o content => exact ⟨h, rfl⟩

theorem isTidy_addChild
    {c : XmlNode ω}
    (hc : c.isTidy = true)
    (htext : c.textOf = none)
    (h : n.isTidy = true) :
    (addChild c n).isTidy = true ∧ (addChild c n).textOf = n.textOf := by
  cases n with
  | element o name attrs cs =>
      obtain ⟨hname, hattrs, hfew, hall⟩ := isTidy_element.mp h
      refine ⟨isTidy_element.mpr ⟨hname, hattrs, fewTexts_congr (by simp [htext]) hfew, ?_⟩, rfl⟩
      intro d hd
      rcases List.mem_append.mp hd with hd | hd
      · exact hall d hd
      · exact List.mem_singleton.mp hd ▸ hc
  | text o content => exact ⟨h, rfl⟩
  | comment o content => exact ⟨h, rfl⟩

theorem Drops.isTidy
    {P : XmlNode ω → XmlNode ω → Prop}
    (h : Drops P n n')
    (hn : n.isTidy = true) :
    n'.isTidy = true ∧ n'.textOf = n.textOf := by
  cases h with
  | @drop o name attrs pre post c _ =>
      obtain ⟨hname, hattrs, hfew, hall⟩ := isTidy_element.mp hn
      have hsub : (pre ++ post).Sublist (pre ++ c :: post) :=
        (List.sublist_cons_self c post).append_left pre
      exact ⟨isTidy_element.mpr ⟨hname, hattrs, fewTexts_sublist (hsub.filterMap _) hfew,
        fun d hd => hall d (hsub.subset hd)⟩, rfl⟩

mutual

/-- A node in a tidy tree is tidy. -/
theorem isTidy_ownNode
    [DecidableEq ω] {i : ω} {m : XmlNode ω} :
    ∀ n : XmlNode ω, n.isTidy = true → ownNode i n = some m → m.isTidy = true
  | element o name attrs cs, h, hown => by
      rw [ownNode] at hown
      split at hown
      · obtain rfl := Option.some.inj hown
        exact h
      · exact isTidy_ownNodeAll cs (isTidy_element.mp h).2.2.2 hown
  | text o content, h, hown => by
      rw [ownNode] at hown
      split at hown
      · obtain rfl := Option.some.inj hown
        exact h
      · cases hown
  | comment o content, h, hown => by
      rw [ownNode] at hown
      split at hown
      · obtain rfl := Option.some.inj hown
        exact h
      · cases hown

theorem isTidy_ownNodeAll
    [DecidableEq ω] {i : ω} {m : XmlNode ω} :
    ∀ cs : List (XmlNode ω), (∀ c ∈ cs, c.isTidy = true) → ownNodeAll i cs = some m →
      m.isTidy = true
  | [], _, hown => by cases hown
  | c :: cs, h, hown => by
      rw [ownNodeAll] at hown
      cases hc : ownNode i c with
      | some k =>
          rw [hc] at hown
          obtain rfl : k = m := Option.some.inj hown
          exact isTidy_ownNode c (h c List.mem_cons_self) hc
      | none =>
          rw [hc] at hown
          exact isTidy_ownNodeAll cs (fun d hd => h d (List.mem_cons_of_mem _ hd)) hown

end

end Changes

section Copies

variable {υ : Type}

mutual

/-- The same tree with other descriptors. -/
def relabel (f : Option ω → Option υ) : XmlNode ω → XmlNode υ
  | element o name attrs cs => element (f o) name attrs (relabelAll f cs)
  | text o content => text (f o) content
  | comment o content => comment (f o) content

def relabelAll (f : Option ω → Option υ) : List (XmlNode ω) → List (XmlNode υ)
  | [] => []
  | c :: cs => relabel f c :: relabelAll f cs

end

theorem relabelAll_eq_map (f : Option ω → Option υ) (cs : List (XmlNode ω)) :
    relabelAll f cs = cs.map (relabel f) := by
  induction cs with
  | nil => rfl
  | cons c cs ih => rw [relabelAll, ih, List.map_cons]

theorem textOf_relabel (f : Option ω → Option υ) (n : XmlNode ω) :
    (relabel f n).textOf = n.textOf := by
  cases n <;> rfl

/-- Descriptors are not written. -/
theorem isTidy_relabel (f : Option ω → Option υ) (n : XmlNode ω) :
    n.isTidy = true → (relabel f n).isTidy = true := by
  induction n using children_induction with
  | step n ih =>
      intro h
      cases n with
      | element o name attrs cs =>
          obtain ⟨hname, hattrs, hfew, hall⟩ := isTidy_element.mp h
          rw [relabel, relabelAll_eq_map]
          refine isTidy_element.mpr ⟨hname, hattrs, fewTexts_congr ?_ hfew, ?_⟩
          · rw [List.filterMap_map]
            exact List.filterMap_congr fun c _ => textOf_relabel f c
          · intro d hd
            obtain ⟨c, hc, rfl⟩ := List.mem_map.mp hd
            exact ih c hc (hall c hc)
      | text o content => exact h
      | comment o content => exact h

mutual

theorem adopt_eq_relabel (i : ω) : ∀ n : Xml, adopt i n = relabel (fun _ => some i) n
  | element o name attrs cs => by rw [adopt, relabel, adoptAll_eq_relabelAll i cs]
  | text _ _ => rfl
  | comment _ _ => rfl

theorem adoptAll_eq_relabelAll (i : ω) :
    ∀ cs : List Xml, adoptAll i cs = relabelAll (fun _ => some i) cs
  | [] => rfl
  | c :: cs => by rw [adoptAll, relabelAll, adopt_eq_relabel i c, adoptAll_eq_relabelAll i cs]

end

mutual

theorem plain_eq_relabel : ∀ n : Xml, (plain n : XmlNode ω) = relabel (fun _ => none) n
  | element o name attrs cs => by rw [plain, relabel, plainAll_eq_relabelAll cs]
  | text _ _ => rfl
  | comment _ _ => rfl

theorem plainAll_eq_relabelAll :
    ∀ cs : List Xml, (plainAll cs : List (XmlNode ω)) = relabelAll (fun _ => none) cs
  | [] => rfl
  | c :: cs => by rw [plainAll, relabelAll, plain_eq_relabel c, plainAll_eq_relabelAll cs]

end

mutual

theorem setupPrivate_eq_relabel (i : ω) :
    ∀ n : XmlNode ω, setupPrivate i n = relabel (fun _ => some i) n
  | element o name attrs cs => by rw [setupPrivate, relabel, setupPrivateAll_eq_relabelAll i cs]
  | text _ _ => rfl
  | comment _ _ => rfl

theorem setupPrivateAll_eq_relabelAll (i : ω) :
    ∀ cs : List (XmlNode ω), setupPrivateAll i cs = relabelAll (fun _ => some i) cs
  | [] => rfl
  | c :: cs => by
      rw [setupPrivateAll, relabelAll, setupPrivate_eq_relabel i c,
        setupPrivateAll_eq_relabelAll i cs]

end

theorem isTidy_adopt
    {i : ω} {n : Xml}
    (h : n.isTidy = true) :
    (adopt i n).isTidy = true := by
  rw [adopt_eq_relabel]
  exact isTidy_relabel _ n h

theorem isTidy_plain
    {n : Xml}
    (h : n.isTidy = true) :
    (plain n : XmlNode ω).isTidy = true := by
  rw [plain_eq_relabel]
  exact isTidy_relabel _ n h

theorem isTidy_setupPrivate
    {i : ω} {n : XmlNode ω}
    (h : n.isTidy = true) :
    (setupPrivate i n).isTidy = true ∧ (setupPrivate i n).textOf = n.textOf := by
  rw [setupPrivate_eq_relabel]
  exact ⟨isTidy_relabel _ n h, textOf_relabel _ n⟩

/-- The value of an attribute of a tidy node. -/
theorem isXmlChar_getProp
    {n : XmlNode ω} {attr value : Text}
    (h : n.isTidy = true)
    (hprop : n.getProp attr = some value) :
    value.all isXmlChar = true := by
  cases n with
  | element o name attrs cs =>
      have hattrs := (isTidy_element.mp h).2.1
      simp only [isAttrList, Bool.and_eq_true, List.all_eq_true] at hattrs
      have hprop : attrs.lookup attr = some value := hprop
      obtain ⟨pre, post, rfl, -⟩ := List.lookup_eq_some_iff.mp hprop
      exact List.all_eq_true.mpr (hattrs.1 (attr, value) (by simp)).2
  | text o content => cases hprop
  | comment o content => cases hprop

theorem isXmlChar_basename
    {s : Text}
    (h : s.all isXmlChar = true) :
    (basename s).all isXmlChar = true := by
  rw [List.all_eq_true] at h ⊢
  intro c hc
  unfold basename at hc
  dsimp only at hc
  split at hc
  · split at hc
    · rw [List.mem_singleton.mp hc]
      decide
    · rw [List.mem_singleton.mp hc]
      decide
  · have hmem := (List.takeWhile_prefix _).subset (List.mem_reverse.mp hc)
    exact h c (List.mem_reverse.mp ((List.dropWhile_suffix _).subset hmem))

/-- A relative href has no other characters than the absolute one. -/
theorem isTidy_relativeHref
    {n : XmlNode ω}
    (h : n.isTidy = true) :
    (relativeHref n).isTidy = true ∧ (relativeHref n).textOf = n.textOf := by
  rw [relativeHref]
  split
  · exact ⟨h, rfl⟩
  · rename_i href hhref
    split
    · exact ⟨h, rfl⟩
    · exact isTidy_setProp (by decide +kernel) (isXmlChar_basename (isXmlChar_getProp h hhref)) h

mutual

theorem isTidy_setRelativeHref :
    ∀ n : XmlNode ω, n.isTidy = true →
      (setRelativeHref n).1.isTidy = true ∧ (setRelativeHref n).1.textOf = n.textOf
  | element o name attrs cs, h => by
      obtain ⟨hname, hattrs, hfew, hall⟩ := isTidy_element.mp h
      obtain ⟨hcs, htexts⟩ := isTidy_setRelativeHrefAll cs hall
      rw [setRelativeHref]
      split
      · exact ⟨h, rfl⟩
      · exact isTidy_relativeHref
          (isTidy_element.mpr ⟨hname, hattrs, fewTexts_congr htexts hfew, hcs⟩)
  | text o content, h => ⟨h, rfl⟩
  | comment o content, h => ⟨h, rfl⟩

theorem isTidy_setRelativeHrefAll :
    ∀ cs : List (XmlNode ω), (∀ c ∈ cs, c.isTidy = true) →
      (∀ c ∈ (setRelativeHrefAll cs).1, c.isTidy = true) ∧
        (setRelativeHrefAll cs).1.filterMap textOf = cs.filterMap textOf
  | [], _ => ⟨by simp [setRelativeHrefAll], rfl⟩
  | c :: cs, h => by
      obtain ⟨hc, htext⟩ := isTidy_setRelativeHref c (h c List.mem_cons_self)
      obtain ⟨hcs, htexts⟩ := isTidy_setRelativeHrefAll cs fun d hd =>
        h d (List.mem_cons_of_mem _ hd)
      rw [setRelativeHrefAll]
      dsimp only
      split
      · refine ⟨List.forall_mem_cons.mpr ⟨hc, hcs⟩, ?_⟩
        rw [List.filterMap_cons, List.filterMap_cons, htext, htexts]
      · refine ⟨List.forall_mem_cons.mpr ⟨hc, fun d hd => h d (List.mem_cons_of_mem _ hd)⟩, ?_⟩
        rw [List.filterMap_cons, List.filterMap_cons, htext]

end

end Copies

end XmlNode

end Obix
