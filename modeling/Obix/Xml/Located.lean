import Obix.Xml.Dom

/-!
# Locations in a DOM tree

The location of a node is the list of the hrefs on the way down to it.  A node
without a href cannot be addressed: it and everything below it belongs to the
location of its parent.

`Marked path n x o` says that the tree `n`, which is located at `path`, has a node at
location `x` whose `_private` pointer is `o`.  `Reaches path n x` says that it has an
addressable node there.  In a tree with unique hrefs (`Uniq`) there is one
addressable node at a location, the one that `xmldb_get_node` finds.
-/

namespace Obix

open CString

/-- A location. -/
abbrev Path := List Text

namespace XmlNode

variable {ω : Type}

/-- The `href` attribute. -/
def href (n : XmlNode ω) : Option Text := n.getProp attrHref

/-- The node at the end of a path, `xmldb_get_node_core` on tokens. -/
def getAt (n : XmlNode ω) (path : Path) : Option (XmlNode ω) :=
  path.foldlM childAt n

/-- Some node of a tree has a `_private` pointer. -/
inductive Carries : XmlNode ω → Option ω → Prop
  | here (n : XmlNode ω) : Carries n n.owner
  | child
      {n c : XmlNode ω} {o : Option ω}
      (hc : c ∈ n.children)
      (h : Carries c o) :
      Carries n o

/-- Some node at a location has a `_private` pointer. -/
inductive Marked : Path → XmlNode ω → Path → Option ω → Prop
  | here (path : Path) (n : XmlNode ω) : Marked path n path n.owner
  | child
      {path x : Path} {n c : XmlNode ω} {t : Text} {o : Option ω}
      (hc : c ∈ n.children)
      (ht : c.href = some t)
      (h : Marked (path ++ [t]) c x o) :
      Marked path n x o
  | loose
      {path : Path} {n c : XmlNode ω} {o : Option ω}
      (hc : c ∈ n.children)
      (ht : c.href = none)
      (h : Carries c o) :
      Marked path n path o

/-- There is an addressable node at a location. -/
inductive Reaches : Path → XmlNode ω → Path → Prop
  | here (path : Path) (n : XmlNode ω) : Reaches path n path
  | child
      {path x : Path} {n c : XmlNode ω} {t : Text}
      (hc : c ∈ n.children)
      (ht : c.href = some t)
      (h : Reaches (path ++ [t]) c x) :
      Reaches path n x

/-- No two children of a node have the same href. -/
inductive Uniq : XmlNode ω → Prop
  | mk
      {n : XmlNode ω}
      (hnodup : (n.children.filterMap href).Nodup)
      (hall : ∀ c ∈ n.children, c.href ≠ none → Uniq c) :
      Uniq n

theorem hasHref_iff {t : Text} {n : XmlNode ω} : n.hasHref t = true ↔ n.href = some t := by
  cases n with
  | element o name attrs cs =>
      simp only [hasHref, matchesChild, isElement, Option.all_none, Bool.and_true, Bool.true_and,
        href]
      cases h : getProp attrHref (element o name attrs cs) with
      | none => simp
      | some v => simp
  | text => simp [hasHref, matchesChild, isElement, href, getProp]
  | comment => simp [hasHref, matchesChild, isElement, href, getProp]

theorem childAt_eq (n : XmlNode ω) (t : Text) : n.childAt t = n.children.find? (hasHref t) := rfl

@[simp] theorem getAt_nil (n : XmlNode ω) : n.getAt [] = some n := rfl

@[simp] theorem getAt_cons (n : XmlNode ω) (t : Text) (rest : Path) :
    n.getAt (t :: rest) = (n.childAt t).bind fun c => c.getAt rest := rfl

theorem getAt_append (n : XmlNode ω) (p q : Path) :
    n.getAt (p ++ q) = (n.getAt p).bind fun m => m.getAt q := by
  simp [getAt, List.foldlM_append]

/-- A node is found only if the nodes above are. -/
theorem getAt_of_isPrefix
    {n m : XmlNode ω} {p q : Path}
    (h : n.getAt q = some m)
    (hpq : p <+: q) :
    ∃ k, n.getAt p = some k := by
  obtain ⟨r, rfl⟩ := hpq
  rw [getAt_append] at h
  obtain ⟨k, hk, -⟩ := Option.bind_eq_some_iff.mp h
  exact ⟨k, hk⟩

theorem getAt_eq_none_of_isPrefix
    {n : XmlNode ω} {p q : Path}
    (h : n.getAt p = none)
    (hpq : p <+: q) :
    n.getAt q = none := by
  cases hget : n.getAt q with
  | none => rfl
  | some m =>
      obtain ⟨k, hk⟩ := getAt_of_isPrefix hget hpq
      rw [h] at hk
      cases hk

theorem Marked.isPrefix_of
    {path x : Path} {n : XmlNode ω} {o : Option ω}
    (h : Marked path n x o) :
    path <+: x := by
  induction h with
  | here path n => exact List.prefix_rfl
  | child hc ht h ih => exact (List.prefix_append _ _).trans ih
  | loose hc ht h => exact List.prefix_rfl

theorem Reaches.marked
    {path x : Path} {n : XmlNode ω}
    (h : Reaches path n x) :
    ∃ o, Marked path n x o := by
  induction h with
  | here path n => exact ⟨_, .here path n⟩
  | child hc ht h ih =>
      obtain ⟨o, ho⟩ := ih
      exact ⟨o, .child hc ht ho⟩

/-- What a node has at its path whenever a child has it at its own one, the root of a tree has when
a found node does. -/
theorem of_getAt
    {P : Path → XmlNode ω → Prop}
    (hup : ∀ {path n c t}, c ∈ n.children → c.href = some t → P (path ++ [t]) c → P path n)
    {n m : XmlNode ω} {q path : Path}
    (hget : n.getAt q = some m)
    (h : P (path ++ q) m) :
    P path n := by
  induction q generalizing n path with
  | nil =>
      obtain rfl := Option.some.inj hget
      rwa [List.append_nil] at h
  | cons t rest ih =>
      obtain ⟨c, hc, hrest⟩ := Option.bind_eq_some_iff.mp hget
      have ht : c.href = some t := hasHref_iff.mp (List.find?_some hc)
      refine hup (List.mem_of_find?_eq_some hc) ht (ih hrest ?_)
      rwa [List.append_assoc]

/-- What is reached from a found node is reached from the root. -/
theorem Reaches.of_getAt
    {n m : XmlNode ω} {q path x : Path}
    (hget : n.getAt q = some m)
    (h : Reaches (path ++ q) m x) :
    Reaches path n x :=
  XmlNode.of_getAt (P := fun path n => Reaches path n x) Reaches.child hget h

/-- The marks of a tree below a found node are marks of the whole tree. -/
theorem Marked.of_getAt
    {n m : XmlNode ω} {q path x : Path} {o : Option ω}
    (hget : n.getAt q = some m)
    (h : Marked (path ++ q) m x o) :
    Marked path n x o :=
  XmlNode.of_getAt (P := fun path n => Marked path n x o) Marked.child hget h

/-- With unique hrefs the child with a href is the one that is found. -/
theorem Uniq.childAt
    {n c : XmlNode ω} {t : Text}
    (h : Uniq n)
    (hc : c ∈ n.children)
    (ht : c.href = some t) :
    n.childAt t = some c := by
  obtain ⟨hnodup, -⟩ := h
  rw [childAt_eq]
  generalize n.children = cs at hnodup hc
  induction cs with
  | nil => cases hc
  | cons d ds ih =>
      by_cases hd : d.hasHref t = true
      · rw [List.find?_cons_of_pos hd]
        rcases List.mem_cons.mp hc with rfl | hmem
        · rfl
        · rw [List.filterMap_cons_some (hasHref_iff.mp hd), List.nodup_cons] at hnodup
          exact absurd (List.mem_filterMap.mpr ⟨c, hmem, ht⟩) hnodup.1
      · rw [List.find?_cons_of_neg hd]
        have hmem : c ∈ ds := by
          rcases List.mem_cons.mp hc with rfl | hmem
          · exact absurd (hasHref_iff.mpr ht) hd
          · exact hmem
        refine ih ?_ hmem
        rw [List.filterMap_cons] at hnodup
        split at hnodup
        · exact hnodup
        · exact (List.nodup_cons.mp hnodup).2

theorem Uniq.of_getAt
    {n m : XmlNode ω} {q : Path}
    (hn : Uniq n)
    (h : n.getAt q = some m) :
    Uniq m := by
  induction q generalizing n with
  | nil =>
      obtain rfl := Option.some.inj h
      exact hn
  | cons t rest ih =>
      obtain ⟨c, hc, hrest⟩ := Option.bind_eq_some_iff.mp h
      have ht : c.href = some t := hasHref_iff.mp (List.find?_some hc)
      obtain ⟨-, hall⟩ := hn
      exact ih (hall c (List.mem_of_find?_eq_some hc) (by simp [ht])) hrest

/-- With unique hrefs every location is found. -/
theorem Uniq.getAt
    {path x : Path} {n : XmlNode ω} {o : Option ω}
    (hn : Uniq n)
    (h : Marked path n x o) :
    ∃ q m, x = path ++ q ∧ n.getAt q = some m := by
  induction h with
  | here path n => exact ⟨[], n, by simp, rfl⟩
  | @child path x n c t o hc ht h ih =>
      have hchild := hn.childAt hc ht
      obtain ⟨-, hall⟩ := hn
      obtain ⟨q, m, rfl, hget⟩ := ih (hall c hc (by simp [ht]))
      refine ⟨t :: q, m, by simp, ?_⟩
      rw [getAt_cons, hchild]
      exact hget
  | @loose path n c o hc ht h => exact ⟨[], n, by simp, rfl⟩

section Modify

variable {f : XmlNode ω → XmlNode ω} {p : XmlNode ω → Bool} {t : Text} {rest : Path}

/-- The list of nodes in which the first one with a property is replaced. -/
theorem modifyFirst_cases (p : XmlNode ω → Bool) (f : XmlNode ω → XmlNode ω)
    (cs : List (XmlNode ω)) :
    (cs.find? p = none ∧ modifyFirst p f cs = cs) ∨
    ∃ pre c post, cs = pre ++ c :: post ∧ cs.find? p = some c ∧
      modifyFirst p f cs = pre ++ f c :: post := by
  induction cs with
  | nil => exact .inl ⟨rfl, rfl⟩
  | cons d ds ih =>
      by_cases hd : p d = true
      · exact .inr ⟨[], d, ds, rfl, List.find?_cons_of_pos hd, by simp [modifyFirst, hd]⟩
      · rcases ih with ⟨hnone, hsame⟩ | ⟨pre, c, post, rfl, hfind, hmod⟩
        · refine .inl ⟨?_, ?_⟩
          · rw [List.find?_cons_of_neg hd, hnone]
          · simp [modifyFirst, hd, hsame]
        · refine .inr ⟨d :: pre, c, post, rfl, ?_, ?_⟩
          · rw [List.find?_cons_of_neg hd, hfind]
          · simp [modifyFirst, hd, hmod]

@[simp] theorem owner_modifyAt_cons (n : XmlNode ω) :
    (modifyAt f (t :: rest) n).owner = n.owner := by
  cases n with
  | element => rfl
  | text => rfl
  | comment => rfl

@[simp] theorem href_modifyAt_cons (n : XmlNode ω) :
    (modifyAt f (t :: rest) n).href = n.href := by
  cases n with
  | element => rfl
  | text => rfl
  | comment => rfl

@[simp] theorem isElement_modifyAt_cons (n : XmlNode ω) :
    (modifyAt f (t :: rest) n).isElement = n.isElement := by
  cases n with
  | element => rfl
  | text => rfl
  | comment => rfl

@[simp] theorem children_modifyAt_cons (n : XmlNode ω) :
    (modifyAt f (t :: rest) n).children =
      modifyFirst (hasHref t) (modifyAt f rest) n.children := by
  cases n with
  | element => rfl
  | text => rfl
  | comment => rfl

theorem href_modifyAt
    (hf : ∀ m, (f m).href = m.href)
    (p : Path)
    (n : XmlNode ω) :
    (modifyAt f p n).href = n.href := by
  cases p with
  | nil => exact hf n
  | cons t rest => exact href_modifyAt_cons n

/-- The marks of a tree in which the child `c` of the root has become `c'`. -/
theorem Marked.of_replaced
    {path x : Path} {n n' c c' : XmlNode ω} {pre post : List (XmlNode ω)} {o : Option ω}
    (h : Marked path n' x o)
    (howner : n'.owner = n.owner)
    (hn : n.children = pre ++ c :: post)
    (hn' : n'.children = pre ++ c' :: post)
    (hc : c.href = some t)
    (hc' : c'.href = some t) :
    (Marked path n x o ∧ (Uniq n → ¬ (path ++ [t]) <+: x)) ∨ Marked (path ++ [t]) c' x o := by
  have hlen : ¬ (path ++ [t]) <+: path := by
    intro hpre
    simpa using hpre.length_le
  cases h with
  | here =>
      refine .inl ⟨?_, fun _ => hlen⟩
      rw [howner]
      exact .here path n
  | @child _ _ _ d u _ hd hu h =>
      rw [hn'] at hd
      by_cases heq : d = c'
      · subst heq
        obtain rfl : u = t := Option.some.inj (hu.symm.trans hc')
        exact .inr h
      · have hmem : d ∈ pre ∨ d ∈ post := by
          rcases List.mem_append.mp hd with hd | hd
          · exact .inl hd
          · rcases List.mem_cons.mp hd with hd | hd
            · exact absurd hd heq
            · exact .inr hd
        have hdn : d ∈ n.children := by
          rw [hn]
          rcases hmem with hd | hd
          · exact List.mem_append_left _ hd
          · exact List.mem_append_right _ (List.mem_cons_of_mem _ hd)
        refine .inl ⟨.child hdn hu h, ?_⟩
        rintro ⟨hnodup, -⟩ hpre
        -- two children with one href
        have hut : u = t := by
          obtain ⟨r₁, h₁⟩ := h.isPrefix_of
          obtain ⟨r₂, h₂⟩ := hpre
          rw [← h₁] at h₂
          simpa using (List.append_inj h₂ (by simp)).1.symm
        subst hut
        rw [hn, List.filterMap_append, List.filterMap_cons_some hc, List.nodup_append] at hnodup
        rcases hmem with hd | hd
        · exact hnodup.2.2 u (List.mem_filterMap.mpr ⟨d, hd, hu⟩) u (by simp) rfl
        · exact (List.nodup_cons.mp hnodup.2.1).1 (List.mem_filterMap.mpr ⟨d, hd, hu⟩)
  | @loose _ _ d _ hd hu h =>
      rw [hn'] at hd
      refine .inl ⟨.loose ?_ hu h, fun _ => hlen⟩
      rw [hn]
      rcases List.mem_append.mp hd with hd | hd
      · exact List.mem_append_left _ hd
      · rcases List.mem_cons.mp hd with rfl | hd
        · rw [hc'] at hu
          cases hu
        · exact List.mem_append_right _ (List.mem_cons_of_mem _ hd)

/-- The marks of a tree with one node changed. -/
theorem marked_modifyAt
    (hf : ∀ m, (f m).href = m.href)
    {p path x : Path} {n : XmlNode ω} {o : Option ω}
    (h : Marked path (modifyAt f p n) x o) :
    (Marked path n x o ∧ (Uniq n → n.getAt p ≠ none → ¬ (path ++ p) <+: x)) ∨
      ∃ m, n.getAt p = some m ∧ Marked (path ++ p) (f m) x o := by
  induction p generalizing n path with
  | nil => exact .inr ⟨n, rfl, by simpa [modifyAt] using h⟩
  | cons t rest ih =>
      rcases modifyFirst_cases (hasHref t) (modifyAt f rest) n.children with
        ⟨hnone, hsame⟩ | ⟨pre, c, post, hn, hfind, hmod⟩
      · refine .inl ⟨?_, ?_⟩
        · have hn : modifyAt f (t :: rest) n = n := by
            cases n with
            | element o name attrs cs =>
                simp only [children] at hsame
                simp [modifyAt, hsame]
            | text => rfl
            | comment => rfl
          rwa [hn] at h
        · intro _ hget
          simp [childAt_eq, hnone] at hget
      · have ht : c.href = some t := hasHref_iff.mp (List.find?_some hfind)
        have hn' : (modifyAt f (t :: rest) n).children = pre ++ modifyAt f rest c :: post := by
          rw [children_modifyAt_cons, hmod]
        have hget : n.getAt (t :: rest) = c.getAt rest := by
          rw [getAt_cons, childAt_eq, hfind]
          rfl
        rcases h.of_replaced (owner_modifyAt_cons n) hn hn' ht
            ((href_modifyAt hf rest c).trans ht) with ⟨hold, hout⟩ | hsub
        · refine .inl ⟨hold, fun huniq _ hpre => hout huniq ?_⟩
          refine List.IsPrefix.trans ?_ hpre
          exact ⟨rest, by simp⟩
        · rcases ih hsub with ⟨hold, hout⟩ | ⟨m, hm, hmark⟩
          · refine .inl ⟨.child (List.mem_of_find?_eq_some hfind) ht hold, ?_⟩
            intro huniq hne
            have hc : Uniq c := by
              obtain ⟨-, hall⟩ := huniq
              exact hall c (List.mem_of_find?_eq_some hfind) (by simp [ht])
            have := hout hc (hget ▸ hne)
            rwa [List.append_assoc] at this
          · refine .inr ⟨m, hget ▸ hm, ?_⟩
            rwa [List.append_assoc] at hmark

/-- The hrefs of the children stay when the child that is found changes below. -/
theorem Uniq.modifyAt
    (hf : ∀ m, (f m).href = m.href)
    {p : Path} {n : XmlNode ω}
    (hn : Uniq n)
    (hnew : ∀ m, n.getAt p = some m → Uniq (f m)) :
    Uniq (modifyAt f p n) := by
  induction p generalizing n with
  | nil => exact hnew n rfl
  | cons t rest ih =>
      obtain ⟨hnodup, hall⟩ := hn
      rcases modifyFirst_cases (hasHref t) (XmlNode.modifyAt f rest) n.children with
        ⟨hnone, hsame⟩ | ⟨pre, c, post, hsplit, hfind, hmod⟩
      · refine ⟨?_, ?_⟩
        · rwa [children_modifyAt_cons, hsame]
        · rwa [children_modifyAt_cons, hsame]
      · have ht : c.href = some t := hasHref_iff.mp (List.find?_some hfind)
        have hget : n.getAt (t :: rest) = c.getAt rest := by
          rw [getAt_cons, childAt_eq, hfind]
          rfl
        have hc : Uniq (XmlNode.modifyAt f rest c) :=
          ih (hall c (List.mem_of_find?_eq_some hfind) (by simp [ht]))
            fun m hm => hnew m (hget.trans hm)
        refine ⟨?_, ?_⟩
        · rw [children_modifyAt_cons, hmod, List.filterMap_append,
            List.filterMap_cons_some ((href_modifyAt hf rest c).trans ht)]
          rwa [hsplit, List.filterMap_append, List.filterMap_cons_some ht] at hnodup
        · intro d hd hdne
          rw [children_modifyAt_cons, hmod] at hd
          rcases List.mem_append.mp hd with hd | hd
          · exact hall d (by simp [hsplit, hd]) hdne
          · rcases List.mem_cons.mp hd with rfl | hd
            · exact hc
            · exact hall d (by simp [hsplit, hd]) hdne

/-- A child that is replaced by a node with the same locations below. -/
theorem Reaches.of_replaced
    {path x : Path} {n n' c c' : XmlNode ω} {pre post : List (XmlNode ω)}
    (h : Reaches path n x)
    (hn : n.children = pre ++ c :: post)
    (hn' : n'.children = pre ++ c' :: post)
    (hc : c.href = some t)
    (hc' : c'.href = some t)
    (hsub : Reaches (path ++ [t]) c x → Reaches (path ++ [t]) c' x) :
    Reaches path n' x := by
  cases h with
  | here => exact .here path n'
  | @child _ _ _ d u hd hu h =>
      rw [hn] at hd
      rcases List.mem_append.mp hd with hd | hd
      · exact .child (by simp [hn', hd]) hu h
      · rcases List.mem_cons.mp hd with rfl | hd
        · obtain rfl : u = t := Option.some.inj (hu.symm.trans hc)
          exact .child (by simp [hn']) hc' (hsub h)
        · exact .child (by simp [hn', hd]) hu h

theorem Reaches.modifyAt
    (hf : ∀ m, (f m).href = m.href)
    (hkeep : ∀ path m x, Reaches path m x → Reaches path (f m) x)
    {p path x : Path} {n : XmlNode ω}
    (h : Reaches path n x) :
    Reaches path (modifyAt f p n) x := by
  induction p generalizing n path with
  | nil => exact hkeep path n x h
  | cons t rest ih =>
      rcases modifyFirst_cases (hasHref t) (XmlNode.modifyAt f rest) n.children with
        ⟨hnone, hsame⟩ | ⟨pre, c, post, hsplit, hfind, hmod⟩
      · cases h with
        | here => exact .here _ _
        | child hd hu h => exact .child (by rwa [children_modifyAt_cons, hsame]) hu h
      · have ht : c.href = some t := hasHref_iff.mp (List.find?_some hfind)
        exact h.of_replaced hsplit ((children_modifyAt_cons n).trans hmod) ht
          ((href_modifyAt hf rest c).trans ht) ih

theorem modifyAt_append (p q : Path) (n : XmlNode ω) :
    modifyAt f (p ++ q) n = modifyAt (modifyAt f q) p n := by
  induction p generalizing n with
  | nil => rfl
  | cons t rest ih =>
      cases n with
      | element => simp [modifyAt, funext ih]
      | text => rfl
      | comment => rfl

/-- The node that is changed is found where it was. -/
theorem getAt_modifyAt
    (hf : ∀ m, (f m).href = m.href)
    {p : Path} {n m : XmlNode ω}
    (h : n.getAt p = some m) :
    (modifyAt f p n).getAt p = some (f m) := by
  induction p generalizing n with
  | nil =>
      obtain rfl := Option.some.inj h
      rfl
  | cons t rest ih =>
      obtain ⟨c, hc, hrest⟩ := Option.bind_eq_some_iff.mp h
      have ht : c.href = some t := hasHref_iff.mp (List.find?_some hc)
      have hfind : ∀ cs : List (XmlNode ω), cs.find? (hasHref t) = some c →
          (modifyFirst (hasHref t) (modifyAt f rest) cs).find? (hasHref t) =
            some (modifyAt f rest c) := by
        intro cs hcs
        induction cs with
        | nil => cases hcs
        | cons d ds ihd =>
            by_cases hd : d.hasHref t = true
            · rw [List.find?_cons_of_pos hd] at hcs
              obtain rfl := Option.some.inj hcs
              simp only [modifyFirst, hd, if_true]
              rw [List.find?_cons_of_pos (hasHref_iff.mpr ((href_modifyAt hf rest d).trans ht))]
            · rw [List.find?_cons_of_neg hd] at hcs
              simp only [modifyFirst, hd, if_false, Bool.false_eq_true]
              rw [List.find?_cons_of_neg hd]
              exact ihd hcs
      rw [getAt_cons, childAt_eq, children_modifyAt_cons, hfind _ hc]
      exact ih hrest

/-- Where the first part of a path is there, nothing is created on it. -/
theorem ensureAt_append
    (stub : XmlNode ω)
    {p : Path} (q : Path) {n m : XmlNode ω}
    (h : n.getAt p = some m) :
    ensureAt stub f (p ++ q) n = modifyAt (ensureAt stub f q) p n := by
  induction p generalizing n with
  | nil => rfl
  | cons t rest ih =>
      obtain ⟨c, hc, hrest⟩ := Option.bind_eq_some_iff.mp h
      cases n with
      | text => cases hc
      | comment => cases hc
      | element o name attrs cs =>
          have hany : cs.any (hasHref t) = true :=
            List.any_eq_true.mpr ⟨c, List.mem_of_find?_eq_some hc, List.find?_some hc⟩
          have hfirst : ∀ ds : List (XmlNode ω), ds.find? (hasHref t) = some c →
              modifyFirst (hasHref t) (ensureAt stub f (rest ++ q)) ds =
                modifyFirst (hasHref t) (modifyAt (ensureAt stub f q) rest) ds := by
            intro ds hds
            induction ds with
            | nil => rfl
            | cons d ds ihd =>
                by_cases hd : d.hasHref t = true
                · rw [List.find?_cons_of_pos hd] at hds
                  obtain rfl := Option.some.inj hds
                  simp only [modifyFirst, hd, if_true, ih hrest]
                · rw [List.find?_cons_of_neg hd] at hds
                  simp only [modifyFirst, hd, if_false, Bool.false_eq_true, ihd hds]
          simp only [List.cons_append, ensureAt, hany, if_true, modifyAt, hfirst cs hc]

end Modify

section Stamp

variable {d : ω}

theorem setupPrivateAll_eq (d : ω) (cs : List (XmlNode ω)) :
    setupPrivateAll d cs = cs.map (setupPrivate d) := by
  induction cs with
  | nil => simp [setupPrivateAll]
  | cons c cs ih => simp [setupPrivateAll, ih]

@[simp] theorem owner_setupPrivate (n : XmlNode ω) : (setupPrivate d n).owner = some d := by
  cases n with
  | element => simp [setupPrivate, owner]
  | text => simp [setupPrivate, owner]
  | comment => simp [setupPrivate, owner]

@[simp] theorem href_setupPrivate (n : XmlNode ω) : (setupPrivate d n).href = n.href := by
  cases n with
  | element => simp [setupPrivate, href, getProp]
  | text => simp [setupPrivate, href, getProp]
  | comment => simp [setupPrivate, href, getProp]

@[simp] theorem children_setupPrivate (n : XmlNode ω) :
    (setupPrivate d n).children = n.children.map (setupPrivate d) := by
  cases n with
  | element => simp [setupPrivate, children, setupPrivateAll_eq]
  | text => simp [setupPrivate, children]
  | comment => simp [setupPrivate, children]

theorem carries_setupPrivate
    {n : XmlNode ω} {o : Option ω}
    (h : Carries (setupPrivate d n) o) :
    o = some d ∧ ∃ o', Carries n o' := by
  refine ⟨?_, _, .here n⟩
  generalize hm : setupPrivate d n = m at h
  induction h generalizing n with
  | here => rw [← hm, owner_setupPrivate]
  | @child m c o hc h ih =>
      rw [← hm, children_setupPrivate] at hc
      obtain ⟨c', -, rfl⟩ := List.mem_map.mp hc
      exact ih rfl

/-- A stamped tree has the locations of the tree and one `_private` pointer. -/
theorem marked_setupPrivate
    {path x : Path} {n : XmlNode ω} {o : Option ω}
    (h : Marked path (setupPrivate d n) x o) :
    o = some d ∧ ∃ o', Marked path n x o' := by
  generalize hm : setupPrivate d n = m at h
  induction h generalizing n with
  | here path m =>
      rw [← hm, owner_setupPrivate]
      exact ⟨rfl, _, .here path n⟩
  | @child path x m c t o hc ht h ih =>
      rw [← hm, children_setupPrivate] at hc
      obtain ⟨c', hc', rfl⟩ := List.mem_map.mp hc
      rw [href_setupPrivate] at ht
      obtain ⟨ho, o', ho'⟩ := ih rfl
      exact ⟨ho, o', .child hc' ht ho'⟩
  | @loose path m c o hc ht h =>
      rw [← hm, children_setupPrivate] at hc
      obtain ⟨c', hc', rfl⟩ := List.mem_map.mp hc
      rw [href_setupPrivate] at ht
      obtain ⟨ho, o', ho'⟩ := carries_setupPrivate h
      exact ⟨ho, o', .loose hc' ht ho'⟩

theorem Reaches.setupPrivate
    {path x : Path} {n : XmlNode ω}
    (h : Reaches path n x) :
    Reaches path (setupPrivate d n) x := by
  induction h with
  | here => exact .here _ _
  | child hc ht h ih =>
      refine .child ?_ ((href_setupPrivate _).trans ht) ih
      rw [children_setupPrivate]
      exact List.mem_map_of_mem hc

theorem Uniq.setupPrivate
    {n : XmlNode ω}
    (h : Uniq n) :
    Uniq (setupPrivate d n) := by
  induction h with
  | @mk n hnodup hall ih =>
      have hhref : (href ∘ XmlNode.setupPrivate d : XmlNode ω → Option Text) = href :=
        funext href_setupPrivate
      refine ⟨?_, ?_⟩
      · rwa [children_setupPrivate, List.filterMap_map, hhref]
      · intro c hc hne
        rw [children_setupPrivate] at hc
        obtain ⟨c', hc', rfl⟩ := List.mem_map.mp hc
        exact ih c' hc' (by simpa using hne)

end Stamp

end XmlNode

/-- `xmldb_get_node` on a href of tokens. -/
theorem xmldbGetNode_delimited
    {ω : Type} {ts : List Text}
    (root : XmlNode ω)
    (hne : ts ≠ [])
    (h : ∀ t ∈ ts, IsToken '/' t) :
    xmldbGetNode root (delimited '/' ts) = root.getAt ts := by
  have htok := tokens_delimited h
  have hslash : delimited '/' ts ≠ ['/'] := by
    intro heq
    rw [heq] at htok
    exact hne (htok.symm.trans (by decide))
  obtain ⟨t, us, rfl⟩ := List.exists_cons_of_ne_nil hne
  simp [xmldbGetNode, hslash, xmldbGetNodeCore, forEachStrToken, htok, XmlNode.getAt]

theorem getAt_of_xmldbGetNodeCore
    {ω : Type} {start node : XmlNode ω} {href : Text}
    (h : xmldbGetNodeCore start href = some node) :
    start.getAt (tokens '/' href) = some node := by
  rw [xmldbGetNodeCore, forEachStrToken] at h
  cases htok : tokens '/' href with
  | nil =>
      rw [htok] at h
      cases h
  | cons t ts =>
      rw [htok] at h
      exact h

theorem getAt_of_xmldbGetNode
    {ω : Type} {root node : XmlNode ω} {href : Text}
    (h : xmldbGetNode root href = some node) :
    root.getAt (tokens '/' href) = some node := by
  rw [xmldbGetNode] at h
  split at h
  · rename_i hslash
    subst hslash
    exact h
  · exact getAt_of_xmldbGetNodeCore h

end Obix
