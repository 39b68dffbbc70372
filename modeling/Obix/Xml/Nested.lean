import Obix.Xml.Altered

/-!
# Descriptors below one another

In a tree that is `Nested` whoever goes down from the nodes of a descriptor gets among those of
another one only at the top of a descriptor whose parent it is.  As nobody is its own ancestor, the
way never leads back (`Nested.fresh_of_rank`), and below a descriptor that is nobody's parent there
are its own nodes only (`Nested.fresh_of_leaf`).

A path is `Seated` with a descriptor when it leads from its node through its own nodes.
-/

namespace Obix

open CString

namespace XmlNode

variable {ω : Type}

section Nested

variable (up : ω → Option ω)

/-- A child is the node of the same descriptor, or the top of one whose parent it is. -/
def Enters (o : Option ω) (c : XmlNode ω) : Prop :=
  c.owner = o ∨ c.href ≠ none ∧ ∃ d, c.owner = some d ∧ up d = o

/-- The descriptors of a tree are below their parents. -/
inductive Nested : XmlNode ω → Prop
  | node
      {n : XmlNode ω}
      (henters : ∀ c ∈ n.children, Enters up n.owner c)
      (hbelow : ∀ c ∈ n.children, Nested c) :
      Nested n

variable {up} {R : XmlNode ω → XmlNode ω → Prop} {n n' m m' c : XmlNode ω} {i : ω}

theorem Nested.enters
    (h : Nested up n)
    (hc : c ∈ n.children) :
    Enters up n.owner c := by
  cases h with
  | node henters _ => exact henters c hc

theorem Nested.child
    (h : Nested up n)
    (hc : c ∈ n.children) :
    Nested up c := by
  cases h with
  | node _ hbelow => exact hbelow c hc

theorem Enters.congr
    {o : Option ω}
    (h : Enters up o c)
    (hsame : SameHead c m) :
    Enters up o m := by
  rw [Enters, hsame.owner, hsame.href]
  exact h

/-- A change that keeps the order below one node keeps it in the tree. -/
theorem Nested.altered
    (hn : Nested up n)
    (h : Altered (fun m m' => SameHead m m' ∧ (Nested up m → Nested up m')) n n') :
    Nested up n' := by
  induction h with
  | here h => exact h.2 hn
  | @inside o name attrs pre post c c' h ih =>
      have hsame := (h.mono fun _ _ hd => hd.1).sameHead
      have hmem : ∀ d ∈ pre ++ c' :: post, d = c' ∨ d ∈ pre ++ c :: post := by
        intro d hd
        rcases List.mem_append.mp hd with hd | hd
        · exact .inr (List.mem_append_left _ hd)
        · exact (List.mem_cons.mp hd).imp id fun hd => by simp [hd]
      refine .node (fun d hd => ?_) fun d hd => ?_
      · rcases hmem d hd with rfl | hd
        · have hc : Enters up o c := hn.enters (List.mem_append_right pre List.mem_cons_self)
          exact hc.congr hsame
        · exact hn.enters hd
      · rcases hmem d hd with rfl | hd
        · exact ih (hn.child (List.mem_append_right pre List.mem_cons_self))
        · exact hn.child hd

/-- What holds of the tree holds of the node that is changed. -/
theorem Nested.attach
    (hn : Nested up n)
    (h : Altered R n n') :
    Altered (fun m m' => Nested up m ∧ R m m') n n' := by
  induction h with
  | here h => exact .here ⟨hn, h⟩
  | inside _ ih => exact .inside (ih (hn.child (List.mem_append_right _ List.mem_cons_self)))

theorem Nested.setProp
    (hn : Nested up n)
    (attr value : Text) :
    Nested up (setProp attr value n) := by
  refine .node (fun c hc => ?_) fun c hc => ?_
  · rw [children_setProp] at hc
    rw [owner_setProp]
    exact hn.enters hc
  · rw [children_setProp] at hc
    exact hn.child hc

/-- A child is added. -/
theorem Nested.addChild
    (hn : Nested up n)
    (henters : Enters up n.owner c)
    (hc : Nested up c) :
    Nested up (addChild c n) := by
  cases n with
  | element o name attrs cs =>
      refine .node (fun d hd => ?_) fun d hd => ?_
      · rcases List.mem_append.mp hd with hd | hd
        · exact hn.enters hd
        · rw [List.mem_singleton.mp hd]
          exact henters
      · rcases List.mem_append.mp hd with hd | hd
        · exact hn.child hd
        · rw [List.mem_singleton.mp hd]
          exact hc
  | text o content => exact hn
  | comment o content => exact hn

/-- A child is taken away. -/
theorem Nested.drop
    {P : XmlNode ω → XmlNode ω → Prop}
    (hn : Nested up n)
    (h : Drops P n n') :
    Nested up n' := by
  cases h with
  | @drop o name attrs pre post c _ =>
      have hmem : ∀ d ∈ pre ++ post, d ∈ pre ++ c :: post := by
        intro d hd
        rcases List.mem_append.mp hd with hd | hd
        · exact List.mem_append_left _ hd
        · exact List.mem_append_right _ (List.mem_cons_of_mem _ hd)
      exact .node (fun d hd => hn.enters (hmem d hd)) fun d hd => hn.child (hmem d hd)

theorem Nested.drops
    {P : XmlNode ω → XmlNode ω → Prop}
    (hn : Nested up n)
    (h : Altered (Drops P) n n') :
    Nested up n' :=
  hn.altered (h.mono fun _ _ hd => ⟨hd.sameHead, fun hm => hm.drop hd⟩)

mutual

/-- A tree of one descriptor. -/
theorem nested_setupPrivate (i : ω) : ∀ n : XmlNode ω, Nested up (setupPrivate i n)
  | element _ name attrs cs =>
      .node (fun c hc => .inl (nested_setupPrivateAll i cs c hc).1)
        fun c hc => (nested_setupPrivateAll i cs c hc).2
  | text _ content => .node (fun c hc => by cases hc) fun c hc => by cases hc
  | comment _ content => .node (fun c hc => by cases hc) fun c hc => by cases hc

theorem nested_setupPrivateAll (i : ω) :
    ∀ cs : List (XmlNode ω), ∀ c ∈ setupPrivateAll i cs, c.owner = some i ∧ Nested up c
  | [], c, hc => by cases hc
  | d :: cs, c, hc => by
      rcases List.mem_cons.mp hc with rfl | hc
      · exact ⟨owner_setupPrivate d, nested_setupPrivate i d⟩
      · exact nested_setupPrivateAll i cs c hc

end

/-- A node without children. -/
theorem nested_of_leaf
    (h : n.children = []) :
    Nested up n :=
  .node (fun c hc => by rw [h] at hc; cases hc) fun c hc => by rw [h] at hc; cases hc

end Nested

variable [DecidableEq ω]

section Own

variable {up : ω → Option ω} {n m c : XmlNode ω} {i : ω}

mutual

/-- A document without descriptors. -/
theorem nested_of_fresh : ∀ n : XmlNode ω, (∀ i, ownNode i n = none) → Nested up n
  | element o name attrs cs, h => by
      have ho : o = none := owner_eq_none_of_fresh h
      have hall := nested_of_freshAll cs fun i =>
        ownNodeAll_eq_none.mpr (ownNode_eq_none.mp (h i)).2
      exact .node (fun c hc => .inl ((hall c hc).1.trans ho.symm)) fun c hc => (hall c hc).2
  | text _ _, _ => nested_of_leaf rfl
  | comment _ _, _ => nested_of_leaf rfl

theorem nested_of_freshAll :
    ∀ cs : List (XmlNode ω), (∀ i, ownNodeAll i cs = none) →
      ∀ c ∈ cs, c.owner = none ∧ Nested up c
  | [], _, c, hc => by cases hc
  | d :: cs, h, c, hc => by
      have hall := fun i => ownNodeAll_eq_none.mp (h i)
      rcases List.mem_cons.mp hc with hcd | hc
      · have hd : ∀ i, ownNode i d = none := fun i => hall i d List.mem_cons_self
        rw [hcd]
        exact ⟨owner_eq_none_of_fresh hd, nested_of_fresh d hd⟩
      · exact nested_of_freshAll cs (fun i => ownNodeAll_eq_none.mpr fun k hk =>
          hall i k (List.mem_cons_of_mem d hk)) c hc

end

/-- In a document without descriptors one part is set up for the first one. -/
theorem nested_start
    {p : Path} {d : ω}
    (hd : up d = none)
    (hfresh : ∀ i, ownNode i n = none) :
    Nested up (modifyAt (setupPrivate d) p n) := by
  induction p generalizing n with
  | nil => exact nested_setupPrivate d n
  | cons t p ih =>
      have hn : Nested up n := nested_of_fresh n hfresh
      have hcs : ∀ c ∈ n.children, ∀ i, ownNode i c = none := fun c hc i =>
        (ownNode_eq_none.mp (hfresh i)).2 c hc
      have hmod : ∀ c ∈ modifyFirst (hasHref t) (modifyAt (setupPrivate d) p) n.children,
          Enters up n.owner c ∧ Nested up c := by
        rcases modifyFirst_cases (hasHref t) (modifyAt (setupPrivate d) p) n.children with
          ⟨-, hsame⟩ | ⟨pre, c, post, heq, hfind, hmod⟩
        · rw [hsame]
          exact fun c hc => ⟨hn.enters hc, hn.child hc⟩
        · have hc : c ∈ n.children := List.mem_of_find?_eq_some hfind
          have hhref := hasHref_iff.mp (List.find?_some hfind)
          rw [hmod]
          intro k hk
          by_cases hkc : k ∈ pre ++ c :: post
          · exact ⟨hn.enters (heq ▸ hkc), hn.child (heq ▸ hkc)⟩
          · -- the child on the way to the part
            obtain rfl : k = modifyAt (setupPrivate d) p c := by
              rcases List.mem_append.mp hk with hk | hk
              · exact absurd (List.mem_append_left _ hk) hkc
              · rcases List.mem_cons.mp hk with hk | hk
                · exact hk
                · exact absurd (List.mem_append_right _ (List.mem_cons_of_mem _ hk)) hkc
            refine ⟨?_, ih (hcs c hc)⟩
            have howner := owner_eq_none_of_fresh hfresh
            cases p with
            | nil =>
                refine .inr ⟨?_, d, owner_setupPrivate c, hd.trans howner.symm⟩
                rw [modifyAt, href_setupPrivate, hhref]
                simp
            | cons u p =>
                refine .inl ?_
                rw [owner_modifyAt_cons, owner_eq_none_of_fresh (hcs c hc), howner]
      refine .node (fun c hc => ?_) fun c hc => ?_
      · rw [children_modifyAt_cons] at hc
        rw [owner_modifyAt_cons]
        exact (hmod c hc).1
      · rw [children_modifyAt_cons] at hc
        exact (hmod c hc).2

/-- The topmost descriptor has a node. -/
theorem Confined.present
    {p : Path}
    (h : Confined i p n) :
    ownNode i n ≠ none := by
  induction p generalizing n with
  | nil =>
      rw [ownNode_self h]
      simp
  | cons t p ih =>
      obtain ⟨-, pre, c, post, hcs, -, -, hrest, -⟩ := h
      intro hnone
      exact ih hrest ((ownNode_eq_none.mp hnone).2 c (by simp [hcs]))

/-- Only the parents of the descriptors of a tree matter. -/
theorem Nested.congr
    {up' : ω → Option ω}
    (hn : Nested up n)
    (hsame : ∀ i, ownNode i n ≠ none → up i = up' i) :
    Nested up' n := by
  induction hn with
  | @node n henters _ ih =>
      have hchild : ∀ c ∈ n.children, ∀ i, ownNode i c ≠ none → up i = up' i := fun c hc i hi =>
        hsame i fun hnone => hi ((ownNode_eq_none.mp hnone).2 c hc)
      refine .node (fun c hc => ?_) fun c hc => ih c hc (hchild c hc)
      refine (henters c hc).imp id fun ⟨hhref, d, hd, hup⟩ => ⟨hhref, d, hd, ?_⟩
      rw [← hchild c hc d (by rw [ownNode_self hd]; simp), hup]

mutual

/-- The node of a descriptor is the top of its nodes. -/
theorem Nested.own :
    ∀ n : XmlNode ω, Nested up n → ownNode i n = some m →
      Nested up m ∧ (n.owner ≠ some i → m.href ≠ none)
  | element o name attrs cs, hn, hown => by
      rw [ownNode] at hown
      split at hown
      · rename_i ho
        obtain rfl := Option.some.inj hown
        exact ⟨hn, fun hne => absurd ho hne⟩
      · rename_i ho
        have hm := NestedAll.own cs (fun c hc => ⟨hn.enters hc, hn.child hc⟩) ho hown
        exact ⟨hm.1, fun _ => hm.2⟩
  | text o content, hn, hown => by
      rw [ownNode] at hown
      split at hown
      · rename_i ho
        obtain rfl := Option.some.inj hown
        exact ⟨hn, fun hne => absurd ho hne⟩
      · cases hown
  | comment o content, hn, hown => by
      rw [ownNode] at hown
      split at hown
      · rename_i ho
        obtain rfl := Option.some.inj hown
        exact ⟨hn, fun hne => absurd ho hne⟩
      · cases hown

theorem NestedAll.own
    {o : Option ω} :
    ∀ cs : List (XmlNode ω), (∀ c ∈ cs, Enters up o c ∧ Nested up c) → o ≠ some i →
      ownNodeAll i cs = some m → Nested up m ∧ m.href ≠ none
  | [], _, _, hown => by cases hown
  | c :: cs, hall, ho, hown => by
      rw [ownNodeAll] at hown
      obtain ⟨henters, hc⟩ := hall c List.mem_cons_self
      cases hfirst : ownNode i c with
      | none =>
          rw [hfirst] at hown
          exact NestedAll.own cs (fun d hd => hall d (List.mem_cons_of_mem c hd)) ho hown
      | some k =>
          rw [hfirst] at hown
          have hkm : k = m := Option.some.inj hown
          have hm := Nested.own c hc (hkm ▸ hfirst)
          refine ⟨hm.1, ?_⟩
          by_cases hself : c.owner = some i
          · rw [ownNode_self hself] at hfirst
            rw [← hkm, ← Option.some.inj hfirst]
            rcases henters with hsame | ⟨hhref, -⟩
            · exact absurd (hsame.symm.trans hself) ho
            · exact hhref
          · exact hm.2 hself

end

/-- No node of a descriptor is below one of its descendants. -/
theorem Nested.fresh_of_rank
    {rank : ω → Nat} {q : ω}
    (hn : Nested up n)
    (hrank : ∀ d p, up d = some p → rank p < rank d)
    (hq : n.owner = some q)
    (hiq : rank i < rank q) :
    ownNode i n = none := by
  induction hn generalizing q with
  | @node n henters _ ih =>
      rw [ownNode_eq_none]
      refine ⟨fun hi => ?_, fun c hc => ?_⟩
      · obtain rfl := Option.some.inj (hq.symm.trans hi)
        exact absurd hiq (lt_irrefl _)
      · rcases henters c hc with hsame | ⟨-, d, hd, hup⟩
        · exact ih c hc (hsame.trans hq) hiq
        · exact ih c hc hd (hiq.trans (hrank d q (hup.trans hq)))

omit [DecidableEq ω] in
/-- Below a descriptor without children there are its own nodes only. -/
theorem Nested.owner_of_leaf
    (hn : Nested up n)
    (hleaf : ∀ d, up d ≠ some i)
    (hi : n.owner = some i)
    (hc : c ∈ n.children) :
    c.owner = some i := by
  rcases hn.enters hc with hsame | ⟨-, d, -, hup⟩
  · exact hsame.trans hi
  · exact absurd (hup.trans hi) (hleaf d)

theorem Nested.fresh_of_leaf
    {q : ω}
    (hn : Nested up n)
    (hleaf : ∀ d, up d ≠ some i)
    (hi : n.owner = some i)
    (hqi : q ≠ i) :
    ownNode q n = none := by
  induction hn with
  | @node n henters hbelow ih =>
      rw [ownNode_eq_none]
      refine ⟨fun hq => hqi (Option.some.inj (hq.symm.trans hi)), fun c hc => ih c hc ?_⟩
      exact (Nested.node henters hbelow).owner_of_leaf hleaf hi hc

end Own

section Seats

variable {q i : ω} {n n' m m' x : XmlNode ω} {p : Path}

/-- A path leads through nodes of a descriptor. -/
def OnWay (q : ω) : Path → XmlNode ω → Prop
  | [], n => n.owner = some q
  | t :: p, n => n.owner = some q ∧ ∃ c, n.childAt t = some c ∧ OnWay q p c

/-- A path leads from the node of a descriptor through its nodes. -/
def Seated (q : ω) (p : Path) (n : XmlNode ω) : Prop :=
  ∃ m, ownNode q n = some m ∧ OnWay q p m

/-- A change after which a path still leads through the nodes of a descriptor if it did before. -/
structure KeepsSeat (q : ω) (m m' : XmlNode ω) : Prop where
  head : SameHead m m'
  fresh : ownNode q m = none → ownNode q m' = none
  way : ∀ p, OnWay q p m → OnWay q p m'
  seated : ∀ p, Seated q p m → Seated q p m'

omit [DecidableEq ω] in
theorem OnWay.owner
    (h : OnWay q p n) :
    n.owner = some q := by
  cases p with
  | nil => exact h
  | cons t p => exact h.1

theorem OnWay.seated
    (h : OnWay q p n) :
    Seated q p n :=
  ⟨n, ownNode_self h.owner, h⟩

omit [DecidableEq ω] in
theorem OnWay.getAt
    (h : OnWay q p n) :
    ∃ m, n.getAt p = some m := by
  induction p generalizing n with
  | nil => exact ⟨n, rfl⟩
  | cons t p ih =>
      obtain ⟨-, c, hc, hway⟩ := h
      obtain ⟨m, hm⟩ := ih hway
      exact ⟨m, by rw [getAt_cons, hc]; exact hm⟩

omit [DecidableEq ω] in
/-- A path that is followed through nodes of one descriptor. -/
theorem onWay_of_getAt
    (hget : n.getAt p = some m)
    (howner : ∀ p' k, p' <+: p → n.getAt p' = some k → k.owner = some q) :
    OnWay q p n := by
  induction p generalizing n with
  | nil => exact howner [] n List.prefix_rfl rfl
  | cons t p ih =>
      obtain ⟨c, hc, hrest⟩ := Option.bind_eq_some_iff.mp hget
      refine ⟨howner [] n List.nil_prefix rfl, c, hc, ih hrest fun p' k hp' hk => ?_⟩
      refine howner (t :: p') k (List.cons_prefix_cons.mpr ⟨rfl, hp'⟩) ?_
      rw [getAt_cons, hc]
      exact hk

theorem ownNodeAll_append (xs ys : List (XmlNode ω)) :
    ownNodeAll q (xs ++ ys) = (ownNodeAll q xs).orElse fun _ => ownNodeAll q ys := by
  induction xs with
  | nil => rfl
  | cons x xs ih =>
      rw [List.cons_append, ownNodeAll, ownNodeAll, ih]
      cases ownNode q x <;> rfl

/-- The node of a descriptor among the children of another one. -/
theorem ownNode_of_ne
    {o : Option ω} {name : Text} {attrs : List (Text × Text)} {cs : List (XmlNode ω)}
    (ho : o ≠ some q) :
    ownNode q (element o name attrs cs) = ownNodeAll q cs := by
  rw [ownNode, if_neg ho]

theorem KeepsSeat.refl (q : ω) (m : XmlNode ω) : KeepsSeat q m m :=
  ⟨⟨rfl, rfl⟩, id, fun _ => id, fun _ => id⟩

/-- The children that are looked for are the same. -/
theorem KeepsSeat.of_children
    (hhead : SameHead m m')
    (hchildren : m'.children = m.children) :
    KeepsSeat q m m' := by
  have hway : ∀ p, OnWay q p m → OnWay q p m' := by
    intro p hp
    cases p with
    | nil => exact hhead.owner.trans hp
    | cons t p =>
        obtain ⟨howner, c, hc, hrest⟩ := hp
        refine ⟨hhead.owner.trans howner, c, ?_, hrest⟩
        rwa [childAt_eq, hchildren, ← childAt_eq]
  have hown : m.owner ≠ some q → ownNode q m' = ownNode q m := by
    intro hne
    have hne' : m'.owner ≠ some q := hhead.owner ▸ hne
    cases m <;> cases m' <;> simp_all [ownNode, XmlNode.owner, children, ownNodeAll]
  refine ⟨hhead, fun hnone => ?_, hway, fun p hp => ?_⟩
  · rw [hown (owner_of_ownNode hnone)]
    exact hnone
  · by_cases hq : m.owner = some q
    · obtain ⟨k, hk, hrest⟩ := hp
      rw [ownNode_self hq] at hk
      obtain rfl := Option.some.inj hk
      exact (hway p hrest).seated
    · rw [Seated, hown hq]
      exact hp

theorem keepsSeat_setProp (value : Text) (m : XmlNode ω) : KeepsSeat q m (setProp attrVal value m) :=
  .of_children ⟨href_setProp_val value m, owner_setProp attrVal value m⟩
    (children_setProp attrVal value m)

theorem ownNode_addChild_ne_none
    (hm : m.isElement = true)
    (hx : x.owner = some i) :
    ownNode i (addChild x m) ≠ none := by
  cases m with
  | element o name attrs cs =>
      intro hnone
      have hfresh := (ownNode_eq_none.mp hnone).2 x
        (List.mem_append_right cs (List.mem_singleton.mpr rfl))
      rw [ownNode_self hx] at hfresh
      cases hfresh
  | text o content => cases hm
  | comment o content => cases hm

/-- What is added comes behind what is there. -/
theorem keepsSeat_addChild
    (hx : ownNode q x = none ∨ m.owner = some q) :
    KeepsSeat q m (addChild x m) := by
  cases m with
  | element o name attrs cs =>
      have hway : ∀ p, OnWay q p (element o name attrs cs) →
          OnWay q p (addChild x (element o name attrs cs)) := by
        intro p hp
        cases p with
        | nil => exact hp
        | cons t p =>
            obtain ⟨howner, c, hc, hrest⟩ := hp
            refine ⟨howner, c, ?_, hrest⟩
            have hc : cs.find? (hasHref t) = some c := hc
            show (cs ++ [x]).find? (hasHref t) = some c
            rw [List.find?_append, hc]
            rfl
      refine ⟨⟨rfl, rfl⟩, fun hnone => ?_, hway, fun p hp => ?_⟩
      · exact keepsFresh_addChild (hx.resolve_right (owner_of_ownNode hnone)) _ hnone
      by_cases ho : o = some q
      · obtain ⟨k, hk, hrest⟩ := hp
        rw [ownNode, if_pos ho] at hk
        obtain rfl := Option.some.inj hk
        exact (hway p hrest).seated
      · obtain ⟨k, hk, hrest⟩ := hp
        rw [ownNode_of_ne ho] at hk
        refine ⟨k, ?_, hrest⟩
        show ownNode q (element o name attrs (cs ++ [x])) = some k
        rw [ownNode_of_ne ho, ownNodeAll_append, hk]
        rfl
  | text o content => exact .refl q _
  | comment o content => exact .refl q _

/-- A child is taken away that no path through nodes of the descriptor leads to. -/
theorem Drops.keepsSeat
    (h : Drops (fun m c => ownNode q c = none ∨ c.href = none ∧ m.owner = some q) m m') :
    KeepsSeat q m m' := by
  have hkeep : ownNode q m = none → ownNode q m' = none := h.ownNode_eq_none
  cases h with
  | @drop o name attrs pre post c hc =>
      have hway : ∀ p, OnWay q p (element o name attrs (pre ++ c :: post)) →
          OnWay q p (element o name attrs (pre ++ post)) := by
        intro p hp
        cases p with
        | nil => exact hp
        | cons t p =>
            obtain ⟨howner, d, hd, hrest⟩ := hp
            refine ⟨howner, d, ?_, hrest⟩
            have hd : (pre ++ c :: post).find? (hasHref t) = some d := hd
            show (pre ++ post).find? (hasHref t) = some d
            -- the child has no href, or is not the one that is found
            have hct : ¬ (pre.find? (hasHref t) = none ∧ c.hasHref t = true) := by
              rintro ⟨hpre, hct⟩
              rw [List.find?_append, hpre, List.find?_cons_of_pos hct] at hd
              obtain rfl : c = d := Option.some.inj hd
              rcases hc with hfresh | ⟨hhref, -⟩
              · exact owner_of_ownNode hfresh hrest.owner
              · rw [hasHref_iff.mp hct] at hhref
                cases hhref
            rw [List.find?_append] at hd ⊢
            cases hpre : pre.find? (hasHref t) with
            | some k =>
                rw [hpre] at hd
                exact hd
            | none =>
                rw [hpre, List.find?_cons_of_neg fun h => hct ⟨hpre, h⟩] at hd
                exact hd
      refine ⟨⟨rfl, rfl⟩, hkeep, hway, fun p hp => ?_⟩
      obtain ⟨k, hk, hrest⟩ := hp
      by_cases ho : o = some q
      · rw [ownNode, if_pos ho] at hk
        obtain rfl := Option.some.inj hk
        exact (hway p hrest).seated
      · have hfresh : ownNode q c = none := hc.resolve_right fun hc => ho hc.2
        refine ⟨k, ?_, hrest⟩
        rw [ownNode_of_ne ho, ownNodeAll_append] at hk ⊢
        rwa [ownNodeAll, hfresh] at hk

/-- The paths are kept in the tree when they are kept below one node. -/
theorem Altered.keepsSeat
    (h : Altered (KeepsSeat q) n n') :
    KeepsSeat q n n' := by
  induction h with
  | here h => exact h
  | @inside o name attrs pre post c c' _ ih =>
      have hhas : ∀ t, c'.hasHref t = c.hasHref t := fun t => by
        rw [Bool.eq_iff_iff, hasHref_iff, hasHref_iff, ih.head.href]
      have hway : ∀ p, OnWay q p (element o name attrs (pre ++ c :: post)) →
          OnWay q p (element o name attrs (pre ++ c' :: post)) := by
        intro p hp
        cases p with
        | nil => exact hp
        | cons t p =>
            obtain ⟨howner, d, hd, hrest⟩ := hp
            refine ⟨howner, ?_⟩
            have hd : (pre ++ c :: post).find? (hasHref t) = some d := hd
            show ∃ d', (pre ++ c' :: post).find? (hasHref t) = some d' ∧ OnWay q p d'
            rw [List.find?_append] at hd ⊢
            cases hpre : pre.find? (hasHref t) with
            | some k =>
                rw [hpre] at hd
                exact ⟨d, hd, hrest⟩
            | none =>
                rw [hpre, Option.none_or] at hd
                rw [Option.none_or]
                by_cases hct : c.hasHref t = true
                · rw [List.find?_cons_of_pos hct] at hd
                  obtain rfl : c = d := Option.some.inj hd
                  exact ⟨c', List.find?_cons_of_pos ((hhas t).trans hct), ih.way p hrest⟩
                · rw [List.find?_cons_of_neg hct] at hd
                  exact ⟨d, by rw [List.find?_cons_of_neg (by rwa [hhas]), hd], hrest⟩
      refine ⟨⟨rfl, rfl⟩, fun hnone => ?_, hway, fun p hp => ?_⟩
      · rw [ownNode_eq_none] at hnone ⊢
        refine ⟨hnone.1, fun d hd => ?_⟩
        have hall : ∀ d ∈ pre ++ c :: post, ownNode q d = none := hnone.2
        rcases List.mem_append.mp hd with hd | hd
        · exact hall d (List.mem_append_left _ hd)
        · rcases List.mem_cons.mp hd with rfl | hd
          · exact ih.fresh (hall c (by simp))
          · exact hall d (by simp [hd])
      · obtain ⟨k, hk, hrest⟩ := hp
        by_cases ho : o = some q
        · rw [ownNode, if_pos ho] at hk
          obtain rfl := Option.some.inj hk
          exact (hway p hrest).seated
        · rw [ownNode_of_ne ho, ownNodeAll_append, ownNodeAll] at hk
          rw [Seated, ownNode_of_ne ho, ownNodeAll_append, ownNodeAll]
          cases hpre : ownNodeAll q pre with
          | some a =>
              rw [hpre] at hk
              exact ⟨k, hk, hrest⟩
          | none =>
              rw [hpre] at hk
              cases hc : ownNode q c with
              | none =>
                  rw [hc] at hk
                  rw [ih.fresh hc]
                  exact ⟨k, hk, hrest⟩
              | some a =>
                  rw [hc] at hk
                  obtain rfl : a = k := Option.some.inj hk
                  obtain ⟨b, hb, hway'⟩ := ih.seated p ⟨a, hc, hrest⟩
                  rw [hb]
                  exact ⟨b, rfl, hway'⟩

/-- A descriptor whose node is put into a node of a tree is in the tree. -/
theorem Altered.gains
    (h : Altered (fun _ m' => ownNode i m' ≠ none) n n') :
    ownNode i n' ≠ none := by
  induction h with
  | here h => exact h
  | inside _ ih =>
      intro hnone
      exact ih ((ownNode_eq_none.mp hnone).2 _ (List.mem_append_right _ List.mem_cons_self))

theorem seated_nil :
    Seated q [] n ↔ ownNode q n ≠ none := by
  constructor
  · rintro ⟨m, hm, -⟩
    rw [hm]
    simp
  · intro h
    obtain ⟨m, hm⟩ := Option.ne_none_iff_exists'.mp h
    exact ⟨m, hm, owner_of_ownNode_some n hm⟩

end Seats

end XmlNode

end Obix
