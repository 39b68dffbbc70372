import Obix.Xml.Confined

/-!
# Borders between the nodes of descriptors

The place of a descriptor is the path of its node.  In a tree that is `Bordered` whoever goes down
from the node of a descriptor gets among the nodes of another one only at the place of that one, so
that the places of both tell whose a node is (`Bordered.owner_getAt`).  In a tree that is `Single`
the nodes of a descriptor are together in one subtree, so that none is left when it is removed.
-/

namespace Obix

open CString

namespace XmlNode

variable {ω : Type}

mutual

theorem adopt_eq (i : ω) : ∀ n : Xml, adopt i n = setupPrivate i (plain n)
  | .element _ name attrs cs => by rw [adopt, plain, setupPrivate, adoptAll_eq i cs]
  | .text _ _ => rfl
  | .comment _ _ => rfl

theorem adoptAll_eq (i : ω) : ∀ cs : List Xml, adoptAll i cs = setupPrivateAll i (plainAll cs)
  | [] => rfl
  | c :: cs => by rw [adoptAll, plainAll, setupPrivateAll, adopt_eq i c, adoptAll_eq i cs]

end

variable [DecidableEq ω]

section Bordered

variable (place : ω → Option Path)

/-- The place of a child below a node of `o` at `ts`: a child of another descriptor is at the
place of that one. -/
def childPlace (o : Option ω) (ts : Option Path) (c : XmlNode ω) : Option Path :=
  if c.owner = o then ts.bind fun u => c.href.map fun t => u ++ [t] else c.owner.bind place

/-- The nodes of another descriptor begin at its place. -/
def Begins (o : Option ω) (ts : Option Path) (c : XmlNode ω) : Prop :=
  c.owner ≠ o → ∀ u t, ts = some u → c.href = some t → '/' ∉ t →
    c.owner.bind place = some (u ++ [t])

mutual

/-- Below a node at `ts` the nodes of other descriptors begin at their places. -/
def Bordered (ts : Option Path) : XmlNode ω → Prop
  | element o _ _ cs => BorderedAll o ts cs
  | text _ _ => True
  | comment _ _ => True

def BorderedAll (o : Option ω) (ts : Option Path) : List (XmlNode ω) → Prop
  | [] => True
  | c :: cs => Begins place o ts c ∧ Bordered (childPlace place o ts c) c ∧ BorderedAll o ts cs

end

variable {place} {o : Option ω} {ts : Option Path} {n c : XmlNode ω}

theorem borderedAll_iff {cs : List (XmlNode ω)} :
    BorderedAll place o ts cs ↔
      ∀ c ∈ cs, Begins place o ts c ∧ Bordered place (childPlace place o ts c) c := by
  induction cs with
  | nil => simp [BorderedAll]
  | cons c cs ih =>
      rw [BorderedAll, ih, List.forall_mem_cons, and_assoc]

theorem bordered_iff :
    Bordered place ts n ↔
      ∀ c ∈ n.children, Begins place n.owner ts c ∧
        Bordered place (childPlace place n.owner ts c) c := by
  cases n with
  | element o name attrs cs => exact borderedAll_iff
  | text o content => simp [Bordered, children]
  | comment o content => simp [Bordered, children]

/-- The place of a child that is found by its href. -/
theorem Begins.childPlace_eq
    {u : Path} {t : Text}
    (h : Begins place o (some u) c)
    (hc : c.href = some t)
    (ht : '/' ∉ t) :
    childPlace place o (some u) c = some (u ++ [t]) := by
  unfold childPlace
  split
  · rw [hc]
    rfl
  · rename_i howner
    exact h howner u t rfl hc ht

/-- Whose the node at a path is: the place of its descriptor is on the way to it. -/
theorem Bordered.owner_getAt
    {u v : Path} {m : XmlNode ω}
    (p : Path)
    (h : Bordered place (some u) n)
    (hv : n.owner.bind place = some v)
    (hvu : v <+: u)
    (hp : ∀ t ∈ p, '/' ∉ t)
    (hget : n.getAt p = some m) :
    ∃ w, m.owner.bind place = some w ∧ v <+: w ∧ w <+: u ++ p := by
  induction p generalizing n u v with
  | nil =>
      obtain rfl : n = m := Option.some.inj hget
      exact ⟨v, hv, List.prefix_rfl, by simpa using hvu⟩
  | cons t p ih =>
      obtain ⟨c, hfind, hrest⟩ := Option.bind_eq_some_iff.mp hget
      have hmem : c ∈ n.children := List.mem_of_find?_eq_some hfind
      have hc : c.href = some t := hasHref_iff.mp (List.find?_some hfind)
      have ht : '/' ∉ t := hp t List.mem_cons_self
      obtain ⟨hbegins, hbelow⟩ := bordered_iff.mp h c hmem
      rw [hbegins.childPlace_eq hc ht] at hbelow
      -- the child belongs to the same descriptor, or to one whose place is here
      obtain ⟨w, hw, hvw, hwu⟩ : ∃ w, c.owner.bind place = some w ∧ v <+: w ∧ w <+: u ++ [t] := by
        by_cases howner : c.owner = n.owner
        · exact ⟨v, howner ▸ hv, List.prefix_rfl, hvu.trans (List.prefix_append u [t])⟩
        · exact ⟨_, hbegins howner u t rfl hc ht, hvu.trans (List.prefix_append u [t]),
            List.prefix_rfl⟩
      obtain ⟨x, hx, hwx, hxp⟩ :=
        ih hbelow hw hwu (fun s hs => hp s (List.mem_cons_of_mem t hs)) hrest
      refine ⟨x, hx, hvw.trans hwx, ?_⟩
      rwa [List.append_assoc, List.singleton_append] at hxp

mutual

/-- Only the places of the descriptors of a tree matter. -/
theorem Bordered.congr {place' : ω → Option Path} :
    ∀ (n : XmlNode ω) {ts : Option Path}, (∀ i, ownNode i n ≠ none → place i = place' i) →
      Bordered place ts n → Bordered place' ts n
  | element o name attrs cs, ts, hsame, h => by
      refine BorderedAll.congr cs (fun i hi => hsame i fun hnone => hi ?_) h
      exact ownNodeAll_eq_none.mpr (ownNode_eq_none.mp hnone).2
  | text _ _, _, _, h => h
  | comment _ _, _, _, h => h

theorem BorderedAll.congr {place' : ω → Option Path} :
    ∀ (cs : List (XmlNode ω)) {o : Option ω} {ts : Option Path},
      (∀ i, ownNodeAll i cs ≠ none → place i = place' i) →
      BorderedAll place o ts cs → BorderedAll place' o ts cs
  | [], _, _, _, _ => trivial
  | c :: cs, o, ts, hsame, ⟨hbegins, hc, hcs⟩ => by
      have hhead : ∀ i, ownNode i c ≠ none → place i = place' i := by
        intro i hi
        refine hsame i fun hnone => hi ?_
        exact ownNodeAll_eq_none.mp hnone c List.mem_cons_self
      have hbind : c.owner.bind place = c.owner.bind place' := by
        cases ho : c.owner with
        | none => rfl
        | some i => exact hhead i (by rw [ownNode_self ho]; simp)
      have hplace : childPlace place o ts c = childPlace place' o ts c := by
        rw [childPlace, childPlace, hbind]
      refine ⟨?_, ?_, BorderedAll.congr cs (fun i hi => hsame i fun hnone => hi ?_) hcs⟩
      · intro howner u t hts hhref ht
        rw [← hbind]
        exact hbegins howner u t hts hhref ht
      · rw [← hplace]
        exact Bordered.congr c hhead hc
      · exact ownNodeAll_eq_none.mpr fun d hd =>
          ownNodeAll_eq_none.mp hnone d (List.mem_cons_of_mem c hd)

end

mutual

/-- A tree of one descriptor has no borders. -/
theorem bordered_setupPrivate (i : ω) :
    ∀ (n : XmlNode ω) (ts : Option Path), Bordered place ts (setupPrivate i n)
  | element _ _ _ cs, ts => borderedAll_setupPrivateAll i cs ts
  | text _ _, _ => trivial
  | comment _ _, _ => trivial

theorem borderedAll_setupPrivateAll (i : ω) :
    ∀ (cs : List (XmlNode ω)) (ts : Option Path),
      BorderedAll place (some i) ts (setupPrivateAll i cs)
  | [], _ => trivial
  | c :: cs, ts => by
      refine ⟨?_, bordered_setupPrivate i c _, borderedAll_setupPrivateAll i cs ts⟩
      intro howner
      exact absurd (owner_setupPrivate c) howner

end

mutual

/-- The node of a descriptor is at its place. -/
theorem Bordered.own {i : ω} {m : XmlNode ω} :
    ∀ (n : XmlNode ω) {ts : Option Path}, (n.owner = some i → ts = place i) →
      Bordered place ts n → ownNode i n = some m → Bordered place (place i) m
  | element o name attrs cs, ts, htop, h, hown => by
      rw [ownNode] at hown
      split at hown
      · rename_i ho
        obtain rfl := Option.some.inj hown
        rw [← htop ho]
        exact h
      · rename_i ho
        exact BorderedAll.own cs ho h hown
  | text o content, ts, htop, h, hown => by
      rw [ownNode] at hown
      split at hown
      · obtain rfl := Option.some.inj hown
        exact trivial
      · cases hown
  | comment o content, ts, htop, h, hown => by
      rw [ownNode] at hown
      split at hown
      · obtain rfl := Option.some.inj hown
        exact trivial
      · cases hown

theorem BorderedAll.own {i : ω} {m : XmlNode ω} :
    ∀ (cs : List (XmlNode ω)) {o : Option ω} {ts : Option Path}, o ≠ some i →
      BorderedAll place o ts cs → ownNodeAll i cs = some m → Bordered place (place i) m
  | [], _, _, _, _, hown => by cases hown
  | c :: cs, o, ts, ho, ⟨hbegins, hc, hcs⟩, hown => by
      rw [ownNodeAll] at hown
      cases hfirst : ownNode i c with
      | some k =>
          rw [hfirst] at hown
          obtain rfl : k = m := Option.some.inj hown
          refine Bordered.own c (fun howner => ?_) hc hfirst
          have hne : c.owner ≠ o := howner ▸ ho.symm
          rw [childPlace, if_neg hne, howner]
          rfl
      | none =>
          rw [hfirst] at hown
          exact BorderedAll.own cs ho hcs hown

end

section Changes

variable {f : XmlNode ω → XmlNode ω} {i : ω}

/-- A change at the end of a path whose tokens are known keeps the borders there. -/
theorem Bordered.modifyAt
    (hhref : ∀ m, (f m).href = m.href)
    (howner : ∀ m, (f m).owner = m.owner)
    (p : Path)
    (hf : ∀ us m, (∀ u, ts = some u → (∀ t ∈ p, '/' ∉ t) → us = some (u ++ p)) →
      Bordered place us m → Bordered place us (f m))
    (h : Bordered place ts n) :
    Bordered place ts (modifyAt f p n) := by
  induction p generalizing ts n with
  | nil => exact hf ts n (fun u hu _ => by rw [hu, List.append_nil]) h
  | cons t p ih =>
      rw [bordered_iff] at h ⊢
      rw [children_modifyAt_cons, owner_modifyAt_cons]
      rcases modifyFirst_cases (hasHref t) (XmlNode.modifyAt f p) n.children with
        ⟨-, hsame⟩ | ⟨pre, c, post, hcs, hct, hmod⟩
      · rw [hsame]
        exact h
      · rw [hmod]
        intro d hd
        have hold : ∀ d ∈ pre ++ c :: post, _ := hcs ▸ h
        have hc := hold c (by simp)
        have howner' : (XmlNode.modifyAt f p c).owner = c.owner := by
          cases p with
          | nil => exact howner c
          | cons u q => exact owner_modifyAt_cons c
        have hhref' := href_modifyAt hhref p c
        simp only [List.mem_append, List.mem_cons] at hd hold
        rcases hd with hd | rfl | hd
        · exact hold d (.inl hd)
        · -- the child that the path leads to
          have hplace : childPlace place n.owner ts (XmlNode.modifyAt f p c) =
              childPlace place n.owner ts c := by
            rw [childPlace, childPlace, howner', hhref']
          refine ⟨?_, ?_⟩
          · rw [Begins, howner', hhref']
            exact hc.1
          · rw [hplace]
            refine ih (fun us m hus => hf us m fun u hu htokens => ?_) hc.2
            subst hu
            have hct := hasHref_iff.mp (List.find?_some hct)
            rw [hus (u ++ [t]) (hc.1.childPlace_eq hct (htokens t List.mem_cons_self))
              fun s hs => htokens s (List.mem_cons_of_mem t hs)]
            simp
        · exact hold d (.inr (.inr hd))

/-- A tree of one descriptor is added at its place. -/
theorem Bordered.addChild
    {u : Path}
    (h : Bordered place (some u) n)
    (hbegins : Begins place n.owner (some u) (setupPrivate i c)) :
    Bordered place (some u) (addChild (setupPrivate i c) n) := by
  cases n with
  | element o name attrs cs =>
      refine borderedAll_iff.mpr fun d hd => ?_
      rcases List.mem_append.mp hd with hd | hd
      · exact borderedAll_iff.mp h d hd
      · rw [List.mem_singleton.mp hd]
        exact ⟨hbegins, bordered_setupPrivate i c _⟩
  | text o content => trivial
  | comment o content => trivial

mutual

/-- A change to the node of a descriptor keeps the borders if it keeps those from the place of
the descriptor on. -/
theorem Bordered.modifyOwn
    (hhref : ∀ m, (f m).href = m.href)
    (howner : ∀ m, (f m).owner = m.owner)
    (hf : ∀ m, m.owner = some i → Bordered place (place i) m → Bordered place (place i) (f m)) :
    ∀ (n : XmlNode ω) {ts : Option Path}, (n.owner = some i → ts = place i) →
      Bordered place ts n → Bordered place ts (modifyOwn i f n)
  | element o name attrs cs, ts, htop, h => by
      rw [XmlNode.modifyOwn]
      split
      · rename_i ho
        rw [htop ho] at h ⊢
        exact hf _ ho h
      · rename_i ho
        exact BorderedAll.modifyOwn hhref howner hf cs ho h
  | text o content, ts, htop, h => by
      rw [XmlNode.modifyOwn]
      split
      · rename_i ho
        rw [htop ho] at h ⊢
        exact hf _ ho h
      · trivial
  | comment o content, ts, htop, h => by
      rw [XmlNode.modifyOwn]
      split
      · rename_i ho
        rw [htop ho] at h ⊢
        exact hf _ ho h
      · trivial

theorem BorderedAll.modifyOwn
    (hhref : ∀ m, (f m).href = m.href)
    (howner : ∀ m, (f m).owner = m.owner)
    (hf : ∀ m, m.owner = some i → Bordered place (place i) m → Bordered place (place i) (f m)) :
    ∀ (cs : List (XmlNode ω)) {o : Option ω} {ts : Option Path}, o ≠ some i →
      BorderedAll place o ts cs → BorderedAll place o ts (modifyOwnAll i f cs)
  | [], _, _, _, _ => trivial
  | c :: cs, o, ts, ho, ⟨hbegins, hc, hcs⟩ => by
      rw [modifyOwnAll]
      split
      · have howner' := owner_modifyOwn (i := i) howner c
        have hhref' := href_modifyOwn (i := i) hhref c
        have hplace : childPlace place o ts (XmlNode.modifyOwn i f c) = childPlace place o ts c := by
          rw [childPlace, childPlace, howner', hhref']
        refine ⟨?_, ?_, hcs⟩
        · rw [Begins, howner', hhref']
          exact hbegins
        · rw [hplace]
          refine Bordered.modifyOwn hhref howner hf c (fun hci => ?_) hc
          have hne : c.owner ≠ o := hci ▸ ho.symm
          rw [childPlace, if_neg hne, hci]
          rfl
      · exact ⟨hbegins, hc, BorderedAll.modifyOwn hhref howner hf cs ho hcs⟩

end

mutual

theorem Bordered.removeOwn (i : ω) :
    ∀ (n : XmlNode ω) {ts : Option Path}, Bordered place ts n → Bordered place ts (removeOwn i n)
  | element _ _ _ cs, _, h => BorderedAll.removeOwn i cs h
  | text _ _, _, _ => trivial
  | comment _ _, _, _ => trivial

theorem BorderedAll.removeOwn (i : ω) :
    ∀ (cs : List (XmlNode ω)) {o : Option ω} {ts : Option Path},
      BorderedAll place o ts cs → BorderedAll place o ts (removeOwnAll i cs)
  | [], _, _, _ => trivial
  | c :: cs, o, ts, ⟨hbegins, hc, hcs⟩ => by
      rw [removeOwnAll]
      split
      · exact hcs
      · split
        · have howner : (XmlNode.removeOwn i c).owner = c.owner := by cases c <;> rfl
          have hhref : (XmlNode.removeOwn i c).href = c.href := by cases c <;> rfl
          have hplace : childPlace place o ts (XmlNode.removeOwn i c) = childPlace place o ts c := by
            rw [childPlace, childPlace, howner, hhref]
          refine ⟨?_, ?_, hcs⟩
          · rw [Begins, howner, hhref]
            exact hbegins
          · rw [hplace]
            exact Bordered.removeOwn i c hc
        · exact ⟨hbegins, hc, BorderedAll.removeOwn i cs hcs⟩

end

end Changes

end Bordered

section Single

mutual

/-- The nodes of a descriptor are together in one subtree. -/
def Single (i : ω) : XmlNode ω → Prop
  | element o _ _ cs => o = some i ∨ SingleAll i cs
  | text _ _ => True
  | comment _ _ => True

def SingleAll (i : ω) : List (XmlNode ω) → Prop
  | [] => True
  | c :: cs => (ownNode i c = none ∨ ownNodeAll i cs = none) ∧ Single i c ∧ SingleAll i cs

end

variable {i : ω} {f : XmlNode ω → XmlNode ω}

mutual

theorem single_of_fresh : ∀ n : XmlNode ω, ownNode i n = none → Single i n
  | element _ _ _ cs, hn =>
      .inr (singleAll_of_fresh cs (ownNodeAll_eq_none.mpr (ownNode_eq_none.mp hn).2))
  | text _ _, _ => trivial
  | comment _ _, _ => trivial

theorem singleAll_of_fresh : ∀ cs : List (XmlNode ω), ownNodeAll i cs = none → SingleAll i cs
  | [], _ => trivial
  | c :: cs, h => by
      have hall := ownNodeAll_eq_none.mp h
      have hc := hall c List.mem_cons_self
      have hcs := ownNodeAll_eq_none.mpr fun d hd => hall d (List.mem_cons_of_mem c hd)
      exact ⟨.inl hc, single_of_fresh c hc, singleAll_of_fresh cs hcs⟩

end

theorem single_of_owner
    {n : XmlNode ω}
    (h : n.owner = some i) :
    Single i n := by
  cases n with
  | element o name attrs cs => exact .inl h
  | text o content => trivial
  | comment o content => trivial

mutual

/-- No node of a descriptor is left. -/
theorem Single.ownNode_removeOwn :
    ∀ n : XmlNode ω, n.owner ≠ some i → Single i n → ownNode i (removeOwn i n) = none
  | element o name attrs cs, ho, h => by
      have ho : o ≠ some i := ho
      rw [removeOwn, ownNode, if_neg ho]
      exact SingleAll.ownNodeAll_removeOwnAll cs (h.resolve_left ho)
  | text o content, ho, _ => by
      have ho : o ≠ some i := ho
      rw [removeOwn, ownNode, if_neg ho]
  | comment o content, ho, _ => by
      have ho : o ≠ some i := ho
      rw [removeOwn, ownNode, if_neg ho]

theorem SingleAll.ownNodeAll_removeOwnAll :
    ∀ cs : List (XmlNode ω), SingleAll i cs → ownNodeAll i (removeOwnAll i cs) = none
  | [], _ => rfl
  | c :: cs, ⟨hone, hc, hcs⟩ => by
      rw [removeOwnAll]
      split
      · rename_i howner
        refine hone.resolve_left ?_
        rw [ownNode_self howner]
        simp
      · rename_i howner
        split
        · rename_i hsome
          have hrest := hone.resolve_left (Option.isSome_iff_ne_none.mp hsome)
          rw [ownNodeAll, Single.ownNode_removeOwn c howner hc, hrest]
          rfl
        · rename_i hnone
          have hfresh : ownNode i c = none := by simpa using hnone
          rw [ownNodeAll, hfresh, SingleAll.ownNodeAll_removeOwnAll cs hcs]
          rfl

end

/-- A change that keeps the nodes of a descriptor together. -/
def KeepsSingle (i : ω) (f : XmlNode ω → XmlNode ω) : Prop :=
  KeepsFresh i f ∧ ∀ n, Single i n → Single i (f n)

mutual

theorem Single.removeOwn (j : ω) :
    ∀ n : XmlNode ω, Single i n → Single i (removeOwn j n)
  | element _ _ _ cs, h => h.imp id (SingleAll.removeOwnAll j cs)
  | text _ _, _ => trivial
  | comment _ _, _ => trivial

theorem SingleAll.removeOwnAll (j : ω) :
    ∀ cs : List (XmlNode ω), SingleAll i cs → SingleAll i (removeOwnAll j cs)
  | [], _ => trivial
  | c :: cs, ⟨hone, hc, hcs⟩ => by
      rw [XmlNode.removeOwnAll]
      split
      · exact hcs
      · split
        · exact ⟨hone.imp (XmlNode.ownNode_removeOwn j c) id, Single.removeOwn j c hc, hcs⟩
        · exact ⟨hone.imp id (ownNodeAll_removeOwnAll j cs), hc, SingleAll.removeOwnAll j cs hcs⟩

end

/-- Among siblings one is replaced. -/
theorem SingleAll.replace
    {c d : XmlNode ω}
    (hfresh : ownNode i c = none → ownNode i d = none)
    (hsingle : Single i c → Single i d) :
    ∀ pre post : List (XmlNode ω), SingleAll i (pre ++ c :: post) → SingleAll i (pre ++ d :: post)
  | [], _, ⟨hone, hc, hcs⟩ => ⟨hone.imp hfresh id, hsingle hc, hcs⟩
  | m :: pre, post, ⟨hone, hm, hcs⟩ => by
      refine ⟨hone.imp id fun hnone => ?_, hm, SingleAll.replace hfresh hsingle pre post hcs⟩
      have hall := ownNodeAll_eq_none.mp hnone
      refine ownNodeAll_eq_none.mpr fun k hk => ?_
      rcases List.mem_append.mp hk with hk | hk
      · exact hall k (List.mem_append_left _ hk)
      · rcases List.mem_cons.mp hk with rfl | hk
        · exact hfresh (hall c (by simp))
        · exact hall k (by simp [hk])

theorem KeepsSingle.addChild
    {c : XmlNode ω}
    (hc : ownNode i c = none) :
    KeepsSingle i (addChild c) := by
  refine ⟨keepsFresh_addChild hc, fun n hn => ?_⟩
  cases n with
  | element o name attrs cs =>
      refine hn.imp id fun hcs => ?_
      clear hn
      induction cs with
      | nil => exact ⟨.inl hc, single_of_fresh c hc, trivial⟩
      | cons d cs ih =>
          obtain ⟨hone, hd, hcs⟩ := hcs
          refine ⟨hone.imp id fun hnone => ?_, hd, ih hcs⟩
          refine ownNodeAll_eq_none.mpr fun k hk => ?_
          rcases List.mem_append.mp hk with hk | hk
          · exact ownNodeAll_eq_none.mp hnone k hk
          · exact List.mem_singleton.mp hk ▸ hc
  | text o content => exact hn
  | comment o content => exact hn

theorem KeepsSingle.setProp (i : ω) (attr value : Text) : KeepsSingle i (setProp attr value) := by
  refine ⟨keepsFresh_setProp i attr value, fun n hn => ?_⟩
  cases n with
  | element o name attrs cs => exact hn
  | text o content => exact hn
  | comment o content => exact hn

theorem KeepsSingle.modifyAt
    (hf : KeepsSingle i f)
    (p : Path) :
    KeepsSingle i (modifyAt f p) := by
  refine ⟨hf.1.modifyAt p, ?_⟩
  induction p with
  | nil => exact hf.2
  | cons t p ih =>
      intro n hn
      cases n with
      | element o name attrs cs =>
          refine hn.imp id fun hcs => ?_
          rcases modifyFirst_cases (hasHref t) (XmlNode.modifyAt f p) cs with
            ⟨-, hsame⟩ | ⟨pre, c, post, rfl, -, hmod⟩
          · rw [hsame]
            exact hcs
          · rw [hmod]
            exact SingleAll.replace (hf.1.modifyAt p c) (ih c) pre post hcs
      | text o content => exact hn
      | comment o content => exact hn

mutual

theorem KeepsSingle.modifyOwn
    (hf : KeepsSingle i f)
    (j : ω) :
    ∀ n : XmlNode ω, Single i n → Single i (modifyOwn j f n)
  | element o name attrs cs, hn => by
      rw [XmlNode.modifyOwn]
      split
      · exact hf.2 _ hn
      · exact hn.imp id (hf.modifyOwnAll j cs)
  | text o content, hn => by
      rw [XmlNode.modifyOwn]
      split
      · exact hf.2 _ hn
      · exact hn
  | comment o content, hn => by
      rw [XmlNode.modifyOwn]
      split
      · exact hf.2 _ hn
      · exact hn

theorem KeepsSingle.modifyOwnAll
    (hf : KeepsSingle i f)
    (j : ω) :
    ∀ cs : List (XmlNode ω), SingleAll i cs → SingleAll i (modifyOwnAll j f cs)
  | [], _ => trivial
  | c :: cs, ⟨hone, hc, hcs⟩ => by
      rw [XmlNode.modifyOwnAll]
      split
      · exact ⟨hone.imp (hf.1.modifyOwn j c) id, hf.modifyOwn j c hc, hcs⟩
      · exact ⟨hone.imp id (hf.1.modifyOwnAll j cs), hc, hf.modifyOwnAll j cs hcs⟩

end

mutual

/-- Whatever is done to the node of a descriptor, its nodes stay together. -/
theorem Single.modifyOwn_self (howner : ∀ m, (f m).owner = m.owner) :
    ∀ n : XmlNode ω, Single i n → Single i (modifyOwn i f n)
  | element o name attrs cs, hn => by
      rw [XmlNode.modifyOwn]
      split
      · rename_i ho
        exact single_of_owner ((howner _).trans ho)
      · exact hn.imp id (SingleAll.modifyOwn_self howner cs)
  | text o content, hn => by
      rw [XmlNode.modifyOwn]
      split
      · rename_i ho
        exact single_of_owner ((howner _).trans ho)
      · exact hn
  | comment o content, hn => by
      rw [XmlNode.modifyOwn]
      split
      · rename_i ho
        exact single_of_owner ((howner _).trans ho)
      · exact hn

theorem SingleAll.modifyOwn_self (howner : ∀ m, (f m).owner = m.owner) :
    ∀ cs : List (XmlNode ω), SingleAll i cs → SingleAll i (modifyOwnAll i f cs)
  | [], _ => trivial
  | c :: cs, ⟨hone, hc, hcs⟩ => by
      rw [XmlNode.modifyOwnAll]
      split
      · rename_i hsome
        have hrest := hone.resolve_left (Option.isSome_iff_ne_none.mp hsome)
        exact ⟨.inr hrest, Single.modifyOwn_self howner c hc, hcs⟩
      · rename_i hnone
        exact ⟨.inl (by simpa using hnone), hc, SingleAll.modifyOwn_self howner cs hcs⟩

end

/-- The nodes of a descriptor are in one of several subtrees. -/
theorem singleAll_split
    {c : XmlNode ω}
    (hc : Single i c) :
    ∀ {pre post : List (XmlNode ω)}, (∀ m ∈ pre, ownNode i m = none) →
      (∀ m ∈ post, ownNode i m = none) → SingleAll i (pre ++ c :: post)
  | [], _, _, hpost =>
      ⟨.inr (ownNodeAll_eq_none.mpr hpost), hc,
        singleAll_of_fresh _ (ownNodeAll_eq_none.mpr hpost)⟩
  | m :: _, _, hpre, hpost =>
      have hm := hpre m List.mem_cons_self
      ⟨.inl hm, single_of_fresh m hm,
        singleAll_split hc (fun k hk => hpre k (List.mem_cons_of_mem m hk)) hpost⟩

/-- The nodes of the topmost descriptor. -/
theorem Confined.single
    {p : Path} {n : XmlNode ω}
    (h : Confined i p n) :
    Single i n := by
  induction p generalizing n with
  | nil => exact single_of_owner h
  | cons t p ih =>
      obtain ⟨-, pre, c, post, hcs, -, -, hrest, hfresh⟩ := h
      cases n with
      | element o name attrs cs =>
          obtain rfl : cs = pre ++ c :: post := hcs
          exact .inr (singleAll_split (ih hrest) (fun m hm => hfresh m (List.mem_append_left _ hm) i)
            fun m hm => hfresh m (List.mem_append_right _ hm) i)
      | text o content => trivial
      | comment o content => trivial

/-- A change that puts the nodes of a new descriptor into one subtree. -/
def Plants (i : ω) (f : XmlNode ω → XmlNode ω) : Prop :=
  ∀ n, ownNode i n = none → Single i (f n)

theorem Plants.addChild
    {c : XmlNode ω}
    (hc : Single i c) :
    Plants i (addChild c) := by
  intro n hn
  cases n with
  | element o name attrs cs =>
      exact .inr (singleAll_split hc (ownNode_eq_none.mp hn).2 (by simp))
  | text o content => trivial
  | comment o content => trivial

theorem Plants.modifyAt
    (hf : Plants i f)
    (p : Path) :
    Plants i (modifyAt f p) := by
  induction p with
  | nil => exact hf
  | cons t p ih =>
      intro n hn
      have hcs := (ownNode_eq_none.mp hn).2
      cases n with
      | element o name attrs cs =>
          refine .inr ?_
          rcases modifyFirst_cases (hasHref t) (XmlNode.modifyAt f p) cs with
            ⟨-, hsame⟩ | ⟨pre, c, post, rfl, -, hmod⟩
          · rw [hsame]
            exact singleAll_of_fresh cs (ownNodeAll_eq_none.mpr hcs)
          · have hall : ∀ m ∈ pre ++ c :: post, ownNode i m = none := hcs
            rw [hmod]
            exact singleAll_split (ih c (hall c (by simp))) (fun m hm => hall m (by simp [hm]))
              fun m hm => hall m (by simp [hm])
      | text o content => trivial
      | comment o content => trivial

mutual

theorem Plants.modifyOwn
    (hf : Plants i f)
    (j : ω) :
    ∀ n : XmlNode ω, ownNode i n = none → Single i (modifyOwn j f n)
  | element o name attrs cs, hn => by
      rw [XmlNode.modifyOwn]
      split
      · exact hf _ hn
      · exact .inr (hf.modifyOwnAll j cs (ownNodeAll_eq_none.mpr (ownNode_eq_none.mp hn).2))
  | text o content, hn => by
      rw [XmlNode.modifyOwn]
      split
      · exact hf _ hn
      · trivial
  | comment o content, hn => by
      rw [XmlNode.modifyOwn]
      split
      · exact hf _ hn
      · trivial

theorem Plants.modifyOwnAll
    (hf : Plants i f)
    (j : ω) :
    ∀ cs : List (XmlNode ω), ownNodeAll i cs = none → SingleAll i (modifyOwnAll j f cs)
  | [], _ => trivial
  | c :: cs, h => by
      have hall := ownNodeAll_eq_none.mp h
      have hc := hall c List.mem_cons_self
      have hcs := ownNodeAll_eq_none.mpr fun d hd => hall d (List.mem_cons_of_mem c hd)
      rw [XmlNode.modifyOwnAll]
      split
      · exact ⟨.inr hcs, hf.modifyOwn j c hc, singleAll_of_fresh cs hcs⟩
      · exact ⟨.inl hc, single_of_fresh c hc, hf.modifyOwnAll j cs hcs⟩

end

end Single

section Territory

/-- The nodes of descriptors in a tree: each descriptor has one subtree, whose borders are at the
places of the descriptors, and there are no nodes of descriptors without a place. -/
structure Territory (place : ω → Option Path) (n : XmlNode ω) : Prop where
  top : n.owner = none
  borders : Bordered place none n
  single : ∀ i, Single i n
  gone : ∀ i, place i = none → ownNode i n = none

variable {place : ω → Option Path} {n : XmlNode ω} {f : XmlNode ω → XmlNode ω} {i d : ω}

theorem Territory.own
    {m : XmlNode ω}
    (h : Territory place n)
    (hown : ownNode i n = some m) :
    Bordered place (place i) m := by
  refine h.borders.own n (fun htop => ?_) hown
  rw [h.top] at htop
  cases htop

theorem owner_eq_none_of_fresh
    (h : ∀ i, ownNode i n = none) :
    n.owner = none := by
  cases ho : n.owner with
  | none => rfl
  | some i => exact absurd ho (owner_of_ownNode (h i))

mutual

/-- A document without descriptors has no borders. -/
theorem bordered_of_fresh :
    ∀ n : XmlNode ω, (∀ i, ownNode i n = none) → Bordered place none n
  | element o name attrs cs, h => by
      have ho : o = none := owner_eq_none_of_fresh h
      rw [Bordered, ho]
      exact borderedAll_of_fresh cs fun i => ownNodeAll_eq_none.mpr (ownNode_eq_none.mp (h i)).2
  | text _ _, _ => trivial
  | comment _ _, _ => trivial

theorem borderedAll_of_fresh :
    ∀ cs : List (XmlNode ω), (∀ i, ownNodeAll i cs = none) → BorderedAll place none none cs
  | [], _ => trivial
  | c :: cs, h => by
      have hc : ∀ i, ownNode i c = none := fun i =>
        ownNodeAll_eq_none.mp (h i) c List.mem_cons_self
      have hcs : ∀ i, ownNodeAll i cs = none := fun i =>
        ownNodeAll_eq_none.mpr fun d hd => ownNodeAll_eq_none.mp (h i) d (List.mem_cons_of_mem c hd)
      have hplace : childPlace place none none c = none := by
        rw [childPlace, if_pos (owner_eq_none_of_fresh hc)]
        rfl
      refine ⟨fun _ u t hu => (by cases hu), ?_, borderedAll_of_fresh cs hcs⟩
      rw [hplace]
      exact bordered_of_fresh c hc

end

/-- In a document without descriptors one part is set up for the first one. -/
theorem bordered_start
    (p : Path)
    (hfresh : ∀ i, ownNode i n = none) :
    Bordered place none (modifyAt (setupPrivate d) p n) := by
  induction p generalizing n with
  | nil => exact bordered_setupPrivate d n none
  | cons t p ih =>
      have howner := owner_eq_none_of_fresh hfresh
      have hcs : ∀ c ∈ n.children, ∀ i, ownNode i c = none := fun c hc i =>
        (ownNode_eq_none.mp (hfresh i)).2 c hc
      have hold : ∀ c ∈ n.children, Begins place none none c ∧
          Bordered place (childPlace place none none c) c := by
        have hborder : Bordered place none n := bordered_of_fresh n hfresh
        have hn := bordered_iff.mp hborder
        rwa [howner] at hn
      rw [bordered_iff, children_modifyAt_cons, owner_modifyAt_cons, howner]
      rcases modifyFirst_cases (hasHref t) (XmlNode.modifyAt (setupPrivate d) p) n.children with
        ⟨-, hsame⟩ | ⟨pre, c, post, heq, -, hmod⟩
      · rw [hsame]
        exact hold
      · rw [hmod]
        intro m hm
        simp only [heq, List.mem_append, List.mem_cons] at hm hold hcs
        rcases hm with hm | rfl | hm
        · exact hold m (.inl hm)
        · refine ⟨fun _ u t hu => (by cases hu), ?_⟩
          have hc := hcs c (.inr (.inl rfl))
          cases p with
          | nil => exact bordered_setupPrivate d c _
          | cons u p =>
              have hplace : childPlace place none none
                  (XmlNode.modifyAt (setupPrivate d) (u :: p) c) = none := by
                rw [childPlace, owner_modifyAt_cons, if_pos (owner_eq_none_of_fresh hc)]
                rfl
              rw [hplace]
              exact ih hc
        · exact hold m (.inr (.inr hm))

/-- Only the places matter. -/
theorem Territory.congr
    {place' : ω → Option Path}
    (h : Territory place n)
    (hplace : ∀ i, place i = place' i) :
    Territory place' n := by
  obtain rfl : place = place' := funext hplace
  exact h

/-- A subtree of a new descriptor is added at its place. -/
theorem Territory.mount
    {u p v : Path} {x : XmlNode ω}
    (h : Territory place n)
    (hd : place d = none)
    (hi : place i = some u)
    (hp : ∀ t ∈ p, '/' ∉ t)
    (hx : ∀ t, x.href = some t → '/' ∉ t → v = u ++ p ++ [t]) :
    Territory (Function.update place d (some v))
      (modifyOwn i (modifyAt (addChild (setupPrivate d x)) p) n) := by
  have hdi : i ≠ d := by
    rintro rfl
    rw [hd] at hi
    cases hi
  have hhref : ∀ m, (addChild (setupPrivate d x) m).href = m.href := href_addChild
  have howner : ∀ m, (modifyAt (addChild (setupPrivate d x)) p m).owner = m.owner := by
    intro m
    cases p with
    | nil => exact owner_addChild m
    | cons t p => exact owner_modifyAt_cons m
  constructor
  case top =>
    rw [owner_modifyOwn howner]
    exact h.top
  case borders =>
    have hsame : ∀ j, ownNode j n ≠ none → place j = Function.update place d (some v) j := by
      intro j hj
      have hjd : j ≠ d := by
        rintro rfl
        exact hj (h.gone j hd)
      rw [Function.update_of_ne hjd]
    refine Bordered.modifyOwn (href_modifyAt hhref p) howner (fun m _ hm => ?_) n
      (fun htop => by rw [h.top] at htop; cases htop) (h.borders.congr n hsame)
    rw [Function.update_of_ne hdi, hi] at hm ⊢
    refine hm.modifyAt hhref owner_addChild p fun us k hus hk => ?_
    obtain rfl := hus u rfl hp
    refine hk.addChild fun _ u' t hu' ht hslash => ?_
    cases hu'
    rw [href_setupPrivate] at ht
    rw [owner_setupPrivate, Option.bind_some, Function.update_self, hx t ht hslash]
  case single =>
    intro j
    by_cases hjd : j = d
    · subst hjd
      exact ((Plants.addChild (single_of_owner (owner_setupPrivate x))).modifyAt p).modifyOwn i n
        (h.gone j hd)
    · have hfresh : ownNode j (setupPrivate d x) = none := ownNode_setupPrivate (Ne.symm hjd) x
      exact ((KeepsSingle.addChild hfresh).modifyAt p).modifyOwn i n (h.single j)
  case gone =>
    intro j hj
    have hjd : j ≠ d := by
      rintro rfl
      simp at hj
    rw [Function.update_of_ne hjd] at hj
    have hfresh : ownNode j (setupPrivate d x) = none := ownNode_setupPrivate (Ne.symm hjd) x
    exact ((keepsFresh_addChild hfresh).modifyAt p).modifyOwn i n (h.gone j hj)

/-- The subtree of a descriptor is removed. -/
theorem Territory.remove
    (h : Territory place n)
    (d : ω) :
    Territory (Function.update place d none) (removeOwn d n) := by
  have hd : ownNode d (removeOwn d n) = none := by
    refine Single.ownNode_removeOwn n ?_ (h.single d)
    rw [h.top]
    simp
  constructor
  case top =>
    rw [← h.top]
    cases n <;> rfl
  case borders =>
    refine (h.borders.removeOwn d n).congr _ fun j hj => ?_
    have hjd : j ≠ d := by
      rintro rfl
      exact hj hd
    rw [Function.update_of_ne hjd]
  case single => exact fun j => (h.single j).removeOwn d n
  case gone =>
    intro j hj
    by_cases hjd : j = d
    · rw [hjd]
      exact hd
    · rw [Function.update_of_ne hjd] at hj
      exact ownNode_removeOwn d n (h.gone j hj)

theorem Bordered.setProp
    {ts : Option Path} {attr value : Text}
    (h : Bordered place ts n) :
    Bordered place ts (setProp attr value n) := by
  cases n with
  | element o name attrs cs => exact h
  | text o content => trivial
  | comment o content => trivial

/-- Values may change anywhere. -/
theorem Territory.setVal
    (h : Territory place n)
    (p : Path)
    (value : Text) :
    Territory place (modifyAt (setProp attrVal value) p n) where
  top := by
    rw [← h.top]
    cases p with
    | nil => exact owner_setProp attrVal value n
    | cons t p => exact owner_modifyAt_cons n
  borders := h.borders.modifyAt (href_setProp_val value) (owner_setProp attrVal value) p
    fun _ _ _ hm => hm.setProp
  single := fun j => ((KeepsSingle.setProp j attrVal value).modifyAt p).2 n (h.single j)
  gone := fun j hj => (keepsFresh_setProp j attrVal value).modifyAt p n (h.gone j hj)

/-- The node of a descriptor is changed, and gets no node of another descriptor. -/
theorem Territory.modifyOwn
    (h : Territory place n)
    (hhref : ∀ m, (f m).href = m.href)
    (howner : ∀ m, (f m).owner = m.owner)
    (hborders : ∀ ts m, Bordered place ts m → Bordered place ts (f m))
    (hfresh : ∀ j, j ≠ i → KeepsSingle j f) :
    Territory place (modifyOwn i f n) where
  top := (owner_modifyOwn howner n).trans h.top
  borders := Bordered.modifyOwn hhref howner (fun m _ hm => hborders _ m hm) n
    (fun htop => by rw [h.top] at htop; cases htop) h.borders
  single := by
    intro j
    by_cases hji : j = i
    · subst hji
      exact Single.modifyOwn_self howner n (h.single j)
    · exact (hfresh j hji).modifyOwn i n (h.single j)
  gone := by
    intro j hj
    by_cases hji : j = i
    · subst hji
      rw [modifyOwn_of_fresh f n (h.gone j hj)]
      exact h.gone j hj
    · exact (hfresh j hji).1.modifyOwn i n (h.gone j hj)

end Territory

end XmlNode

end Obix
