import Obix.Xml.Located

/-!
# New nodes in a DOM tree

What `xmldb_put_node` does to the locations of a tree: a new child at the end of a
path whose missing nodes are created from a stub (`marked_ensureAt`).
-/

namespace Obix

open CString

namespace XmlNode

variable {ω : Type}

section Ensure

variable {stub new : XmlNode ω} {f : XmlNode ω → XmlNode ω} {t last : Text} {rest : Path}

@[simp] theorem owner_addChild (n : XmlNode ω) : (addChild new n).owner = n.owner := by
  cases n with
  | element => rfl
  | text => rfl
  | comment => rfl

@[simp] theorem href_addChild (n : XmlNode ω) : (addChild new n).href = n.href := by
  cases n with
  | element => rfl
  | text => rfl
  | comment => rfl

theorem children_addChild
    {n : XmlNode ω}
    (hn : n.isElement = true) :
    (addChild new n).children = n.children ++ [new] := by
  cases n with
  | element => rfl
  | text => cases hn
  | comment => cases hn

theorem isElement_of_href
    {n : XmlNode ω}
    (h : n.href = some t) :
    n.isElement = true := by
  cases n with
  | element => rfl
  | text => cases h
  | comment => cases h

theorem isElement_of_getAt
    {p : Path} {n m : XmlNode ω}
    (hp : p ≠ [])
    (h : n.getAt p = some m) :
    m.isElement = true := by
  obtain ⟨ts, t, rfl⟩ := (List.eq_nil_or_concat' p).resolve_left hp
  rw [getAt_append] at h
  obtain ⟨k, -, hm⟩ := Option.bind_eq_some_iff.mp h
  obtain ⟨c, hc, hlast⟩ := Option.bind_eq_some_iff.mp hm
  obtain rfl := Option.some.inj hlast
  exact isElement_of_href (hasHref_iff.mp (List.find?_some hc))

theorem mem_addChild
    {n c : XmlNode ω}
    (hc : c ∈ n.children) :
    c ∈ (addChild new n).children := by
  cases n with
  | element => exact List.mem_append_left _ hc
  | text => cases hc
  | comment => cases hc

/-- The marks of a tree with a new child. -/
theorem marked_addChild
    {path x : Path} {n : XmlNode ω} {o : Option ω}
    (hnew : new.href = some last)
    (h : Marked path (addChild new n) x o) :
    Marked path n x o ∨ Marked (path ++ [last]) new x o := by
  have hmem : ∀ c, c ∈ (addChild new n).children → c ∈ n.children ∨ c = new := by
    intro c hc
    cases n with
    | element o name attrs cs => simpa [addChild, children] using hc
    | text => exact .inl hc
    | comment => exact .inl hc
  cases h with
  | here =>
      rw [owner_addChild]
      exact .inl (.here path n)
  | @child _ _ _ c u _ hc hu h =>
      rcases hmem c hc with hc | rfl
      · exact .inl (.child hc hu h)
      · obtain rfl : u = last := Option.some.inj (hu.symm.trans hnew)
        exact .inr h
  | @loose _ _ c _ hc hu h =>
      rcases hmem c hc with hc | rfl
      · exact .inl (.loose hc hu h)
      · rw [hnew] at hu
        cases hu

theorem Reaches.addChild
    {path x : Path} {n : XmlNode ω}
    (h : Reaches path n x) :
    Reaches path (addChild new n) x := by
  cases h with
  | here => exact .here path _
  | child hc hu h => exact .child (mem_addChild hc) hu h

/-- What `ensureAt` does to an element. -/
theorem ensureAt_cons_cases
    (stub : XmlNode ω)
    (f : XmlNode ω → XmlNode ω)
    (t : Text)
    (rest : Path)
    {n : XmlNode ω}
    (hn : n.isElement = true) :
    (∃ pre c post, n.children = pre ++ c :: post ∧ n.childAt t = some c ∧ c.href = some t ∧
      (ensureAt stub f (t :: rest) n).children = pre ++ ensureAt stub f rest c :: post) ∨
    (n.childAt t = none ∧
      (ensureAt stub f (t :: rest) n).children =
        n.children ++ [ensureAt stub f rest (stub.setProp attrHref t)]) := by
  cases n with
  | text => cases hn
  | comment => cases hn
  | element o name attrs cs =>
      rcases modifyFirst_cases (hasHref t) (ensureAt stub f rest) cs with
        ⟨hnone, -⟩ | ⟨pre, c, post, hsplit, hfind, hmod⟩
      · refine .inr ⟨hnone, ?_⟩
        have hany : cs.any (hasHref t) = false := by
          rw [List.any_eq_false]
          exact fun d hd => List.find?_eq_none.mp hnone d hd
        simp [ensureAt, children, hany]
      · refine .inl ⟨pre, c, post, hsplit, hfind, hasHref_iff.mp (List.find?_some hfind), ?_⟩
        have hany : cs.any (hasHref t) = true :=
          List.any_eq_true.mpr ⟨c, List.mem_of_find?_eq_some hfind, List.find?_some hfind⟩
        simp [ensureAt, children, hany, hmod]

/-- Whether the node at the end of a path is itself created when the path is ensured:
the operations of a stub that is created on the way are there already. -/
def creates (stub : XmlNode ω) : Path → XmlNode ω → Bool
  | [], _ => false
  | [t], n => (n.childAt t).isNone
  | t :: u :: rest, n => creates stub (u :: rest) ((n.childAt t).getD (stub.setProp attrHref t))

theorem creates_of_some
    {n c : XmlNode ω}
    (h : n.childAt t = some c) :
    creates stub (t :: rest) n = creates stub rest c := by
  cases rest with
  | nil => simp [creates, h]
  | cons u rest => simp [creates, h]

theorem creates_of_none
    {n : XmlNode ω}
    (h : n.childAt t = none)
    (hrest : rest = [] ∨ creates stub rest (stub.setProp attrHref t) = true) :
    creates stub (t :: rest) n = true := by
  rcases hrest with rfl | hrest
  · simp [creates, h]
  · cases rest with
    | nil => simp [creates, h]
    | cons u rest => simpa [creates, h] using hrest

/-- A node that is created was not there. -/
theorem getAt_of_creates
    {p : Path} {n : XmlNode ω}
    (h : creates stub p n = true) :
    n.getAt p = none := by
  induction p generalizing n with
  | nil => cases h
  | cons t rest ih =>
      rw [getAt_cons]
      cases hc : n.childAt t with
      | none => rfl
      | some c =>
          rw [creates_of_some hc] at h
          exact ih h

@[simp] theorem owner_ensureAt_cons (n : XmlNode ω) :
    (ensureAt stub f (t :: rest) n).owner = n.owner := by
  cases n with
  | element => rfl
  | text => rfl
  | comment => rfl

theorem owner_ensureAt (stub new : XmlNode ω) (p : Path) (n : XmlNode ω) :
    (ensureAt stub (addChild new) p n).owner = n.owner := by
  cases p with
  | nil => exact owner_addChild n
  | cons t rest => exact owner_ensureAt_cons n

theorem isElement_ensureAt (stub new : XmlNode ω) (p : Path) (n : XmlNode ω) :
    (ensureAt stub (addChild new) p n).isElement = n.isElement := by
  cases p with
  | nil =>
      cases n with
      | element => rfl
      | text => rfl
      | comment => rfl
  | cons t rest =>
      cases n with
      | element => rfl
      | text => rfl
      | comment => rfl

theorem href_ensureAt (stub new : XmlNode ω) (p : Path) (n : XmlNode ω) :
    (ensureAt stub (addChild new) p n).href = n.href := by
  cases p with
  | nil => exact href_addChild n
  | cons t rest =>
      cases n with
      | element => rfl
      | text => rfl
      | comment => rfl

theorem getProp_setProp
    {n : XmlNode ω}
    (hn : n.isElement = true)
    (attr t : Text) :
    (n.setProp attr t).getProp attr = some t := by
  cases n with
  | text => cases hn
  | comment => cases hn
  | element o name attrs cs =>
      show List.lookup attr (if (attrs.lookup attr).isSome then _ else _) = some t
      have hmap : ∀ l : List (Text × Text), (l.lookup attr).isSome →
          (l.map fun a => if a.1 = attr then (attr, t) else a).lookup attr = some t := by
        intro l hl
        induction l with
        | nil => cases hl
        | cons a l ih =>
            obtain ⟨k, v⟩ := a
            by_cases hk : k = attr
            · simp [hk]
            · have hk' : (attr == k) = false := by simpa using fun h => hk h.symm
              simp only [List.lookup_cons, hk'] at hl
              simp only [List.map_cons, hk, if_false, List.lookup_cons, hk']
              exact ih hl
      split
      · rename_i hsome
        exact hmap attrs hsome
      · rename_i hnone
        have hl : attrs.lookup attr = none := Option.not_isSome_iff_eq_none.mp hnone
        simp [List.lookup_append, hl]

theorem href_setProp_href
    {n : XmlNode ω}
    (hn : n.isElement = true)
    (t : Text) :
    (n.setProp attrHref t).href = some t :=
  getProp_setProp hn attrHref t

theorem isElement_setProp (n : XmlNode ω) (attr value : Text) :
    (n.setProp attr value).isElement = n.isElement := by
  cases n with
  | element => rfl
  | text => rfl
  | comment => rfl

/-- The marks of a tree in which a node has been put: old ones, those of the stubs on
the way to it, and its own. -/
theorem marked_ensureAt
    (hstub : stub.isElement = true)
    (hnew : new.href = some last)
    {p path x : Path} {n : XmlNode ω} {o : Option ω}
    (hn : n.isElement = true)
    (h : Marked path (ensureAt stub (addChild new) p n) x o) :
    Marked path n x o ∨
    (∃ q tok, q <+: p ∧ creates stub q n = true ∧
      Marked (path ++ q) (stub.setProp attrHref tok) x o) ∨
    Marked (path ++ p ++ [last]) new x o := by
  induction p generalizing n path with
  | nil =>
      rcases marked_addChild hnew h with hold | hmark
      · exact .inl hold
      · exact .inr (.inr (by simpa using hmark))
  | cons t rest ih =>
      rcases ensureAt_cons_cases stub (addChild new) t rest hn with
        ⟨pre, c, post, hsplit, hget, ht, hchildren⟩ | ⟨hnone, hchildren⟩
      · have hmem : c ∈ n.children := by simp [hsplit]
        have ht' := (href_ensureAt stub new rest c).trans ht
        rcases h.of_replaced (owner_ensureAt_cons n) hsplit hchildren ht ht' with
          ⟨hold, -⟩ | hsub
        · exact .inl hold
        · rcases ih (isElement_of_href ht) hsub with hold | ⟨q, tok, hq, hgq, hmark⟩ | hmark
          · exact .inl (.child hmem ht hold)
          · refine .inr (.inl ⟨t :: q, tok, List.cons_prefix_cons.mpr ⟨rfl, hq⟩, ?_, ?_⟩)
            · rwa [creates_of_some hget]
            · simpa using hmark
          · exact .inr (.inr (by simpa using hmark))
      · have helem : (stub.setProp attrHref t).isElement = true := by
          rw [isElement_setProp, hstub]
        have ht' := (href_ensureAt stub new rest (stub.setProp attrHref t)).trans
            (href_setProp_href hstub t)
        cases h with
        | here =>
            rw [owner_ensureAt_cons]
            exact .inl (.here _ _)
        | @child _ _ _ d u _ hd hu h =>
            rw [hchildren] at hd
            rcases List.mem_append.mp hd with hd | hd
            · exact .inl (.child hd hu h)
            · obtain rfl := List.mem_singleton.mp hd
              obtain rfl : u = t := Option.some.inj (hu.symm.trans ht')
              rcases ih helem h with hold | ⟨q, tok, hq, hgq, hmark⟩ | hmark
              · exact .inr (.inl ⟨[u], u, by simp, creates_of_none hnone (.inl rfl), hold⟩)
              · exact .inr (.inl ⟨u :: q, tok, List.cons_prefix_cons.mpr ⟨rfl, hq⟩,
                  creates_of_none hnone (.inr hgq), by simpa using hmark⟩)
              · exact .inr (.inr (by simpa using hmark))
        | @loose _ _ d _ hd hu h =>
            rw [hchildren] at hd
            rcases List.mem_append.mp hd with hd | hd
            · exact .inl (.loose hd hu h)
            · obtain rfl := List.mem_singleton.mp hd
              rw [ht'] at hu
              cases hu

theorem Uniq.addChild
    {n : XmlNode ω}
    (hn : Uniq n)
    (hnew : Uniq new)
    (hhref : new.href = some last)
    (hnone : n.childAt last = none) :
    Uniq (addChild new n) := by
  cases n with
  | text => exact hn
  | comment => exact hn
  | element o name attrs cs =>
      obtain ⟨hnodup, hall⟩ := hn
      refine ⟨?_, ?_⟩
      · show ((cs ++ [new]).filterMap XmlNode.href).Nodup
        rw [List.filterMap_append, List.filterMap_cons_some hhref, List.filterMap_nil,
          List.nodup_append]
        refine ⟨hnodup, by simp, ?_⟩
        intro u hu v hv huv
        obtain rfl := List.mem_singleton.mp hv
        obtain ⟨c, hc, hcu⟩ := List.mem_filterMap.mp hu
        exact List.find?_eq_none.mp hnone c hc (hasHref_iff.mpr (huv ▸ hcu))
      · intro c hc hne
        rcases List.mem_append.mp (show c ∈ cs ++ [new] from hc) with hc | hc
        · exact hall c hc hne
        · obtain rfl := List.mem_singleton.mp hc
          exact hnew

/-- Putting a node where there is none keeps the hrefs unique, if the stub has no
child of that name. -/
theorem Uniq.ensureAt
    (hstub : stub.isElement = true)
    (hstubUniq : ∀ tok, Uniq (stub.setProp attrHref tok))
    (hflat : ∀ tok q, 2 ≤ q.length → (stub.setProp attrHref tok).getAt q = none)
    (hnewUniq : Uniq new)
    (hnew : new.href = some last)
    {p : Path} {n : XmlNode ω}
    (hn : Uniq n)
    (helem : n.isElement = true)
    (hnone : n.getAt (p ++ [last]) = none)
    (hlast : creates stub p n = true → ∀ tok, (stub.setProp attrHref tok).childAt last = none) :
    Uniq (ensureAt stub (XmlNode.addChild new) p n) := by
  induction p generalizing n with
  | nil =>
      refine hn.addChild hnewUniq hnew ?_
      cases hc : n.childAt last with
      | none => rfl
      | some c => simp [hc] at hnone
  | cons t rest ih =>
      obtain ⟨hnodup, hall⟩ := id hn
      rcases ensureAt_cons_cases stub (XmlNode.addChild new) t rest helem with
        ⟨pre, c, post, hsplit, hget, ht, hchildren⟩ | ⟨hmissing, hchildren⟩
      · have hmem : c ∈ n.children := by simp [hsplit]
        have hgetc : ∀ q, n.getAt (t :: q) = c.getAt q := by
          intro q
          rw [getAt_cons, hget]
          rfl
        have hc : Uniq (XmlNode.ensureAt stub (XmlNode.addChild new) rest c) :=
          ih (hall c hmem (by simp [ht])) (isElement_of_href ht)
            ((hgetc _).symm.trans hnone) fun h => hlast ((creates_of_some hget).trans h)
        have ht' := (href_ensureAt stub new rest c).trans ht
        refine ⟨?_, ?_⟩
        · rw [hchildren, List.filterMap_append, List.filterMap_cons_some ht']
          rwa [hsplit, List.filterMap_append, List.filterMap_cons_some ht] at hnodup
        · intro d hd hdne
          rw [hchildren] at hd
          rcases List.mem_append.mp hd with hd | hd
          · exact hall d (by simp [hsplit, hd]) hdne
          · rcases List.mem_cons.mp hd with rfl | hd
            · exact hc
            · exact hall d (by simp [hsplit, hd]) hdne
      · have hS : Uniq (XmlNode.ensureAt stub (XmlNode.addChild new) rest
            (stub.setProp attrHref t)) := by
          refine ih (hstubUniq t) ?_ ?_ fun h => hlast (creates_of_none hmissing (.inr h))
          · rw [isElement_setProp, hstub]
          · cases rest with
            | nil => simp [hlast (creates_of_none hmissing (.inl rfl)) t]
            | cons u rest => exact hflat t _ (by simp)
        have ht' := (href_ensureAt stub new rest (stub.setProp attrHref t)).trans
            (href_setProp_href hstub t)
        refine ⟨?_, ?_⟩
        · rw [hchildren, List.filterMap_append, List.filterMap_cons_some ht', List.filterMap_nil,
            List.nodup_append]
          refine ⟨hnodup, by simp, ?_⟩
          intro u hu v hv huv
          obtain rfl := List.mem_singleton.mp hv
          obtain ⟨c, hc, hcu⟩ := List.mem_filterMap.mp hu
          exact List.find?_eq_none.mp hmissing c hc (hasHref_iff.mpr (huv ▸ hcu))
        · intro d hd hdne
          rw [hchildren] at hd
          rcases List.mem_append.mp hd with hd | hd
          · exact hall d hd hdne
          · obtain rfl := List.mem_singleton.mp hd
            exact hS

theorem Reaches.ensureAt
    {p path x : Path} {n : XmlNode ω}
    (hn : n.isElement = true)
    (h : Reaches path n x) :
    Reaches path (ensureAt stub (XmlNode.addChild new) p n) x := by
  induction p generalizing n path with
  | nil => exact h.addChild
  | cons t rest ih =>
      rcases ensureAt_cons_cases stub (XmlNode.addChild new) t rest hn with
        ⟨pre, c, post, hsplit, hget, ht, hchildren⟩ | ⟨hmissing, hchildren⟩
      · have ht' := (href_ensureAt stub new rest c).trans ht
        exact h.of_replaced hsplit hchildren ht ht' (ih (isElement_of_href ht))
      · cases h with
        | here => exact .here _ _
        | child hd hu h => exact .child (by simp [hchildren, hd]) hu h

/-- The new node is there, with what is below it. -/
theorem reaches_ensureAt
    (hstub : stub.isElement = true)
    (hnew : new.href = some last)
    {p path x : Path} {n : XmlNode ω}
    (hn : n.isElement = true)
    (h : Reaches (path ++ p ++ [last]) new x) :
    Reaches path (XmlNode.ensureAt stub (XmlNode.addChild new) p n) x := by
  induction p generalizing n path with
  | nil =>
      have hmem : new ∈ (XmlNode.addChild new n).children := by
        rw [children_addChild hn]
        simp
      refine .child hmem hnew ?_
      rwa [List.append_nil] at h
  | cons t rest ih =>
      have hassoc : path ++ t :: rest ++ [last] = path ++ [t] ++ rest ++ [last] := by simp
      rw [hassoc] at h
      rcases ensureAt_cons_cases stub (XmlNode.addChild new) t rest hn with
        ⟨pre, c, post, hsplit, hget, ht, hchildren⟩ | ⟨hmissing, hchildren⟩
      · have ht' := (href_ensureAt stub new rest c).trans ht
        exact .child (by simp [hchildren]) ht' (ih (isElement_of_href ht) h)
      · have ht' := (href_ensureAt stub new rest (stub.setProp attrHref t)).trans
            (href_setProp_href hstub t)
        refine .child (by simp [hchildren]) ht' (ih ?_ h)
        rw [isElement_setProp, hstub]

end Ensure

end XmlNode

end Obix
