import Obix.Xml.Borders

/-!
# Trees with one node altered

Most operations change one node of a tree: the one at the end of a path, the one of a descriptor,
or the one whose address is held.  What becomes of the tree follows from what becomes of that node
(`Altered`), so that a property of trees is looked at once, and not once for each operation.
-/

namespace Obix

open CString

namespace XmlNode

variable {ω : Type}

/-- One tree becomes another by a change of one of its nodes. -/
inductive Altered (R : XmlNode ω → XmlNode ω → Prop) : XmlNode ω → XmlNode ω → Prop
  | here
      {n n' : XmlNode ω}
      (h : R n n') :
      Altered R n n'
  | inside
      {o : Option ω} {name : Text} {attrs : List (Text × Text)}
      {pre post : List (XmlNode ω)} {c c' : XmlNode ω}
      (h : Altered R c c') :
      Altered R (element o name attrs (pre ++ c :: post)) (element o name attrs (pre ++ c' :: post))

/-- A child is taken away from a node; `P` is what holds of both. -/
inductive Drops (P : XmlNode ω → XmlNode ω → Prop) : XmlNode ω → XmlNode ω → Prop
  | drop
      {o : Option ω} {name : Text} {attrs : List (Text × Text)}
      {pre post : List (XmlNode ω)} {c : XmlNode ω}
      (h : P (element o name attrs (pre ++ c :: post)) c) :
      Drops P (element o name attrs (pre ++ c :: post)) (element o name attrs (pre ++ post))

/-- What is read of a node from above. -/
structure SameHead (m m' : XmlNode ω) : Prop where
  href : m'.href = m.href
  owner : m'.owner = m.owner

/-- The child number `k` of the node at a place. -/
def childOf (k : Nat) : List Nat → XmlNode ω → Option (XmlNode ω)
  | [], n => n.children[k]?
  | j :: place, n => n.children[j]?.bind (childOf k place)

/-- `xmlUnlinkNode` for the child number `k` of the node at a place. -/
def unlinkAt (k : Nat) : List Nat → XmlNode ω → XmlNode ω
  | [], element o name attrs cs => element o name attrs (cs.eraseIdx k)
  | j :: place, element o name attrs cs => element o name attrs (cs.modify j (unlinkAt k place))
  | _, n => n

section Rules

variable {R S : XmlNode ω → XmlNode ω → Prop} {n n' : XmlNode ω}

theorem Altered.mono
    (h : Altered R n n')
    (hRS : ∀ m m', R m m' → S m m') :
    Altered S n n' := by
  induction h with
  | here h => exact .here (hRS _ _ h)
  | inside _ ih => exact .inside ih

/-- A change within the node that is changed is a change within the tree. -/
theorem Altered.join
    (h : Altered (Altered R) n n') :
    Altered R n n' := by
  induction h with
  | here h => exact h
  | inside _ ih => exact .inside ih

theorem Altered.sameHead
    (h : Altered SameHead n n') :
    SameHead n n' := by
  induction h with
  | here h => exact h
  | inside => exact ⟨rfl, rfl⟩

theorem Drops.sameHead
    {P : XmlNode ω → XmlNode ω → Prop}
    (h : Drops P n n') :
    SameHead n n' := by
  cases h
  exact ⟨rfl, rfl⟩

theorem Drops.mono
    {P Q : XmlNode ω → XmlNode ω → Prop}
    (h : Drops P n n')
    (hPQ : ∀ m c, c ∈ m.children → P m c → Q m c) :
    Drops Q n n' := by
  cases h with
  | drop h => exact .drop (hPQ _ _ (by simp [children]) h)

end Rules

section Places

variable {f : XmlNode ω → XmlNode ω} {n m c : XmlNode ω}

/-- The node at the end of a path is altered. -/
theorem altered_modifyAt
    {p : Path}
    (h : n.getAt p = some m) :
    Altered (fun k k' => k = m ∧ k' = f m) n (modifyAt f p n) := by
  induction p generalizing n with
  | nil =>
      obtain rfl : n = m := Option.some.inj h
      exact .here ⟨rfl, rfl⟩
  | cons t p ih =>
      obtain ⟨c, hfind, hrest⟩ := Option.bind_eq_some_iff.mp h
      cases n with
      | element o name attrs cs =>
          have hfind : cs.find? (hasHref t) = some c := hfind
          obtain ⟨hc, pre, post, rfl, hpre⟩ := List.find?_eq_some_iff_append.mp hfind
          have hpre : ∀ k ∈ pre, k.href ≠ some t := fun k hk hkt => by
            simpa [hasHref_iff.mpr hkt] using hpre k hk
          rw [modifyAt, modifyFirst_split (hasHref_iff.mp hc) hpre]
          exact .inside (ih hrest)
      | text o content => cases hfind
      | comment o content => cases hfind

/-- Where no node is found, nothing is altered. -/
theorem modifyAt_of_missing
    {p : Path}
    (h : n.getAt p = none) :
    modifyAt f p n = n := by
  induction p generalizing n with
  | nil => cases h
  | cons t p ih =>
      cases n with
      | element o name attrs cs =>
          rw [modifyAt]
          rcases modifyFirst_cases (hasHref t) (modifyAt f p) cs with
            ⟨-, hsame⟩ | ⟨pre, c, post, rfl, hfind, hmod⟩
          · rw [hsame]
          · have hfind : (element o name attrs (pre ++ c :: post)).childAt t = some c := hfind
            rw [getAt_cons, hfind] at h
            rw [hmod, ih h]
      | text o content => rfl
      | comment o content => rfl

theorem split_of_getElem?
    {α : Type} {xs : List α} {k : Nat} {x : α}
    (h : xs[k]? = some x) :
    ∃ pre post, xs = pre ++ x :: post ∧ k = pre.length := by
  induction xs generalizing k with
  | nil => cases h
  | cons y xs ih =>
      cases k with
      | zero =>
          obtain rfl : y = x := Option.some.inj h
          exact ⟨[], xs, rfl, rfl⟩
      | succ k =>
          obtain ⟨pre, post, rfl, rfl⟩ := ih h
          exact ⟨y :: pre, post, rfl, rfl⟩

theorem modify_split
    {α : Type}
    (f : α → α)
    (x : α)
    (pre post : List α) :
    (pre ++ x :: post).modify pre.length f = pre ++ f x :: post := by
  induction pre with
  | nil => rfl
  | cons y pre ih =>
      rw [List.cons_append, List.length_cons, List.modify_succ_cons, ih]
      rfl

/-- The node at a place is unlinked. -/
theorem altered_unlinkAt
    {k : Nat} {place : List Nat}
    (h : n.childOf k place = some c) :
    Altered (Drops fun _ d => d = c) n (unlinkAt k place n) := by
  induction place generalizing n with
  | nil =>
      cases n with
      | element o name attrs cs =>
          have h : cs[k]? = some c := h
          obtain ⟨pre, post, rfl, rfl⟩ := split_of_getElem? h
          have herase : (pre ++ c :: post).eraseIdx pre.length = pre ++ post := by
            rw [List.eraseIdx_append_of_length_le le_rfl, Nat.sub_self]
            rfl
          rw [unlinkAt, herase]
          exact .here (.drop rfl)
      | text o content => cases h
      | comment o content => cases h
  | cons j place ih =>
      obtain ⟨d, hd, hrest⟩ := Option.bind_eq_some_iff.mp h
      cases n with
      | element o name attrs cs =>
          have hd : cs[j]? = some d := hd
          obtain ⟨pre, post, rfl, rfl⟩ := split_of_getElem? hd
          rw [unlinkAt, modify_split]
          exact .inside (ih hrest)
      | text o content => cases hd
      | comment o content => cases hd

end Places

variable [DecidableEq ω]

section Own

variable {f : XmlNode ω → XmlNode ω} {i : ω} {m : XmlNode ω}

mutual

/-- The node of a descriptor is altered. -/
theorem altered_modifyOwn :
    ∀ n : XmlNode ω, ownNode i n = some m →
      Altered (fun k k' => k = m ∧ k' = f m) n (modifyOwn i f n)
  | element o name attrs cs, h => by
      rw [ownNode] at h
      rw [modifyOwn]
      split at h
      · rename_i ho
        obtain rfl := Option.some.inj h
        rw [if_pos ho]
        exact .here ⟨rfl, rfl⟩
      · rename_i ho
        obtain ⟨pre, c, post, rfl, hc, hmod⟩ := altered_modifyOwnAll cs h
        rw [if_neg ho, hmod]
        exact .inside hc
  | text o content, h => by
      rw [ownNode] at h
      split at h
      · rename_i ho
        obtain rfl := Option.some.inj h
        rw [modifyOwn, if_pos ho]
        exact .here ⟨rfl, rfl⟩
      · cases h
  | comment o content, h => by
      rw [ownNode] at h
      split at h
      · rename_i ho
        obtain rfl := Option.some.inj h
        rw [modifyOwn, if_pos ho]
        exact .here ⟨rfl, rfl⟩
      · cases h

theorem altered_modifyOwnAll :
    ∀ cs : List (XmlNode ω), ownNodeAll i cs = some m →
      ∃ pre c post, cs = pre ++ c :: post ∧
        Altered (fun k k' => k = m ∧ k' = f m) c (modifyOwn i f c) ∧
        modifyOwnAll i f cs = pre ++ modifyOwn i f c :: post
  | [], h => by cases h
  | c :: cs, h => by
      rw [ownNodeAll] at h
      cases hc : ownNode i c with
      | some k =>
          rw [hc] at h
          have hkm : k = m := Option.some.inj h
          refine ⟨[], c, cs, rfl, altered_modifyOwn c (hkm ▸ hc), ?_⟩
          rw [modifyOwnAll, hc]
          rfl
      | none =>
          rw [hc] at h
          obtain ⟨pre, d, post, rfl, hd, hmod⟩ := altered_modifyOwnAll cs h
          refine ⟨c :: pre, d, post, rfl, hd, ?_⟩
          rw [modifyOwnAll, hc, hmod]
          rfl

end

mutual

/-- The node of a descriptor is taken away. -/
theorem altered_removeOwn :
    ∀ n : XmlNode ω, n.owner ≠ some i → ownNode i n = some m →
      Altered (Drops fun _ c => c = m) n (removeOwn i n)
  | element o name attrs cs, ho, h => by
      have ho : o ≠ some i := ho
      rw [ownNode, if_neg ho] at h
      obtain ⟨pre, c, post, rfl, ⟨hc, hmod⟩ | ⟨hc, hmod⟩⟩ := altered_removeOwnAll cs h
      · rw [removeOwn, hmod]
        exact .here (.drop hc)
      · rw [removeOwn, hmod]
        exact .inside hc
  | text o content, ho, h => by
      have ho : o ≠ some i := ho
      rw [ownNode, if_neg ho] at h
      cases h
  | comment o content, ho, h => by
      have ho : o ≠ some i := ho
      rw [ownNode, if_neg ho] at h
      cases h

theorem altered_removeOwnAll :
    ∀ cs : List (XmlNode ω), ownNodeAll i cs = some m →
      ∃ pre c post, cs = pre ++ c :: post ∧
        ((c = m ∧ removeOwnAll i cs = pre ++ post) ∨
          (Altered (Drops fun _ c => c = m) c (removeOwn i c) ∧
            removeOwnAll i cs = pre ++ removeOwn i c :: post))
  | [], h => by cases h
  | c :: cs, h => by
      rw [ownNodeAll] at h
      by_cases hself : c.owner = some i
      · rw [ownNode_self hself] at h
        obtain rfl : c = m := Option.some.inj h
        refine ⟨[], c, cs, rfl, .inl ⟨rfl, ?_⟩⟩
        rw [removeOwnAll, if_pos hself]
        rfl
      · cases hc : ownNode i c with
        | some k =>
            rw [hc] at h
            have hkm : k = m := Option.some.inj h
            refine ⟨[], c, cs, rfl, .inr ⟨altered_removeOwn c hself (hkm ▸ hc), ?_⟩⟩
            rw [removeOwnAll, if_neg hself, hc]
            rfl
        | none =>
            rw [hc] at h
            obtain ⟨pre, d, post, rfl, hd⟩ := altered_removeOwnAll cs h
            refine ⟨c :: pre, d, post, rfl, ?_⟩
            rw [removeOwnAll, if_neg hself, hc]
            exact hd.imp (fun hd => ⟨hd.1, by rw [hd.2]; rfl⟩) fun hd => ⟨hd.1, by rw [hd.2]; rfl⟩

end

end Own

section Territory

variable {place : ω → Option Path} {n n' : XmlNode ω} {i : ω}

theorem Drops.ownNode_eq_none
    {P : XmlNode ω → XmlNode ω → Prop}
    (h : Drops P n n')
    (hn : ownNode i n = none) :
    ownNode i n' = none := by
  cases h with
  | drop =>
      rw [XmlNode.ownNode_eq_none] at hn ⊢
      refine ⟨hn.1, fun d hd => hn.2 d ?_⟩
      rcases List.mem_append.mp hd with hd | hd
      · exact List.mem_append_left _ hd
      · exact List.mem_append_right _ (List.mem_cons_of_mem _ hd)

/-- A change that brings no node of a descriptor into a node brings none into the tree. -/
theorem Altered.fresh
    (h : Altered (fun m m' => ownNode i m = none → ownNode i m' = none) n n')
    (hn : ownNode i n = none) :
    ownNode i n' = none := by
  induction h with
  | here h => exact h hn
  | @inside o name attrs pre post c c' _ ih =>
      rw [ownNode_eq_none] at hn ⊢
      refine ⟨hn.1, fun d hd => ?_⟩
      have hall : ∀ d ∈ pre ++ c :: post, ownNode i d = none := hn.2
      rcases List.mem_append.mp hd with hd | hd
      · exact hall d (List.mem_append_left _ hd)
      · rcases List.mem_cons.mp hd with rfl | hd
        · exact ih (hall c (by simp))
        · exact hall d (by simp [hd])

/-- A child more or less. -/
theorem singleAll_remove
    {c : XmlNode ω} :
    ∀ pre post : List (XmlNode ω), SingleAll i (pre ++ c :: post) → SingleAll i (pre ++ post)
  | [], _, ⟨_, _, hcs⟩ => hcs
  | m :: pre, post, ⟨hone, hm, hcs⟩ => by
      refine ⟨hone.imp id fun hnone => ?_, hm, singleAll_remove pre post hcs⟩
      have hall := ownNodeAll_eq_none.mp hnone
      refine ownNodeAll_eq_none.mpr fun k hk => hall k ?_
      rcases List.mem_append.mp hk with hk | hk
      · exact List.mem_append_left _ hk
      · exact List.mem_append_right _ (List.mem_cons_of_mem _ hk)

/-- The nodes of descriptors stay together when a node is taken away. -/
theorem Altered.single
    {P : XmlNode ω → XmlNode ω → Prop}
    (h : Altered (Drops P) n n')
    (hn : Single i n) :
    Single i n' := by
  induction h with
  | here h =>
      cases h with
      | drop => exact hn.imp id (singleAll_remove _ _)
  | inside h ih =>
      refine hn.imp id (SingleAll.replace (fun hc => ?_) ih _ _)
      exact (h.mono fun _ _ hd => hd.ownNode_eq_none).fresh hc

/-- The borders stay where they are when a node is taken away. -/
theorem Altered.bordered
    {P : XmlNode ω → XmlNode ω → Prop}
    {ts : Option Path}
    (h : Altered (Drops P) n n')
    (hn : Bordered place ts n) :
    Bordered place ts n' := by
  induction h generalizing ts with
  | here h =>
      cases h with
      | drop =>
          refine borderedAll_iff.mpr fun d hd => borderedAll_iff.mp hn d ?_
          rcases List.mem_append.mp hd with hd | hd
          · exact List.mem_append_left _ hd
          · exact List.mem_append_right _ (List.mem_cons_of_mem _ hd)
  | @inside o name attrs pre post c c' h ih =>
      obtain ⟨hhref, howner⟩ := (h.mono fun _ _ hd => hd.sameHead).sameHead
      have hold := borderedAll_iff.mp hn
      refine borderedAll_iff.mpr fun d hd => ?_
      rcases List.mem_append.mp hd with hd | hd
      · exact hold d (List.mem_append_left _ hd)
      · rcases List.mem_cons.mp hd with rfl | hd
        · obtain ⟨hbegins, hbelow⟩ := hold c (by simp)
          have hplace : childPlace place o ts d = childPlace place o ts c := by
            rw [childPlace, childPlace, howner, hhref]
          refine ⟨?_, ?_⟩
          · rw [Begins, howner, hhref]
            exact hbegins
          · rw [hplace]
            exact ih hbelow
        · exact hold d (by simp [hd])

/-- Every descriptor has its place when a node is taken away. -/
theorem Altered.territory
    {P : XmlNode ω → XmlNode ω → Prop}
    (h : Altered (Drops P) n n')
    (hn : Territory place n) :
    Territory place n' where
  top := (h.mono fun _ _ hd => hd.sameHead).sameHead.owner.trans hn.top
  borders := h.bordered hn.borders
  single := fun i => h.single (hn.single i)
  gone := fun i hi => (h.mono fun _ _ hd => hd.ownNode_eq_none).fresh (hn.gone i hi)

/-- Two splits of a list, at the same place or not. -/
theorem split_cases
    {α : Type} {pre pre' post post' : List α} {c d : α}
    (h : pre ++ c :: post = pre' ++ d :: post') :
    (pre = pre' ∧ c = d ∧ post = post') ∨
      (∃ x, pre' = pre ++ c :: x ∧ post = x ++ d :: post') ∨
      ∃ x, pre = pre' ++ d :: x ∧ post' = x ++ c :: post := by
  rcases List.append_eq_append_iff.mp h with ⟨x, hx, hcx⟩ | ⟨x, hx, hcx⟩
  · cases x with
    | nil =>
        obtain ⟨hcd, hpost⟩ := List.cons.inj hcx
        exact .inl ⟨by simpa using hx.symm, hcd, hpost⟩
    | cons y x =>
        obtain ⟨rfl, hpost⟩ := List.cons.inj hcx
        exact .inr (.inl ⟨x, hx, hpost⟩)
  · cases x with
    | nil =>
        obtain ⟨hcd, hpost⟩ := List.cons.inj hcx
        exact .inl ⟨by simpa using hx, hcd.symm, hpost.symm⟩
    | cons y x =>
        obtain ⟨rfl, hpost⟩ := List.cons.inj hcx
        exact .inr (.inr ⟨x, hx, hpost⟩)

/-- Descriptors are referred to in the same part when a node without a href is taken away. -/
theorem Altered.confined
    {r : ω} {p : Path}
    (h : Altered (Drops fun _ c => c.href = none) n n')
    (hn : Confined r p n) :
    Confined r p n' := by
  induction h generalizing p with
  | here h =>
      cases p with
      | nil => exact h.sameHead.owner.trans hn
      | cons t rest =>
          cases h with
          | @drop o name attrs pre post c hc =>
              obtain ⟨howner, pre', d, post', hcs, hd, hpre, hrest, hfresh⟩ := hn
              rcases split_cases hcs with ⟨-, rfl, -⟩ | ⟨x, rfl, rfl⟩ | ⟨x, rfl, rfl⟩
              · rw [hc] at hd
                cases hd
              · refine ⟨howner, pre ++ x, d, post', by simp [children], hd, fun m hm => ?_, hrest,
                  fun m hm => hfresh m ?_⟩
                · refine hpre m ?_
                  simp only [List.mem_append, List.mem_cons] at hm ⊢
                  exact hm.imp id .inr
                · simp only [List.mem_append, List.mem_cons] at hm ⊢
                  exact hm.imp (.imp id .inr) id
              · refine ⟨howner, pre', d, x ++ post, by simp [children], hd, hpre, hrest,
                  fun m hm => hfresh m ?_⟩
                simp only [List.mem_append, List.mem_cons] at hm ⊢
                exact hm.imp id (.imp id .inr)
  | @inside o name attrs pre post c c' h ih =>
      obtain ⟨hhref, howner⟩ := (h.mono fun _ _ hd => hd.sameHead).sameHead
      cases p with
      | nil => exact hn
      | cons t rest =>
          obtain ⟨htop, pre', d, post', hcs, hd, hpre, hrest, hfresh⟩ := hn
          have hkeeps : ∀ i, ownNode i c = none → ownNode i c' = none := fun i =>
            (h.mono fun _ _ hd => hd.ownNode_eq_none).fresh
          rcases split_cases hcs with ⟨rfl, rfl, rfl⟩ | ⟨x, rfl, rfl⟩ | ⟨x, rfl, rfl⟩
          · exact ⟨htop, pre, c', post, rfl, hhref.trans hd, hpre, ih hrest, hfresh⟩
          · refine ⟨htop, pre ++ c' :: x, d, post', by simp [children], hd, fun m hm => ?_,
              hrest, fun m hm i => ?_⟩
            · rcases List.mem_append.mp hm with hm | hm
              · exact hpre m (List.mem_append_left _ hm)
              · rcases List.mem_cons.mp hm with rfl | hm
                · rw [hhref]
                  exact hpre c (by simp)
                · exact hpre m (by simp [hm])
            · simp only [List.mem_append, List.mem_cons] at hm hfresh
              rcases hm with (hm | rfl | hm) | hm
              · exact hfresh m (.inl (.inl hm)) i
              · exact hkeeps i (hfresh c (.inl (.inr (.inl rfl))) i)
              · exact hfresh m (.inl (.inr (.inr hm))) i
              · exact hfresh m (.inr hm) i
          · refine ⟨htop, pre', d, x ++ c' :: post, by simp [children], hd, hpre, hrest,
              fun m hm i => ?_⟩
            simp only [List.mem_append, List.mem_cons] at hm hfresh
            rcases hm with hm | hm | rfl | hm
            · exact hfresh m (.inl hm) i
            · exact hfresh m (.inr (.inl hm)) i
            · exact hkeeps i (hfresh c (.inr (.inr (.inl rfl))) i)
            · exact hfresh m (.inr (.inr (.inr hm))) i

end Territory

end XmlNode

end Obix
