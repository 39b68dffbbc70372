import Obix.Xml.Confined

/-!
# Nodes that stay in a DOM tree

What is found at a path is still found there after nodes have been added to the tree
(`Grows`), and after the removal of a node that the path does not pass through
(`isSome_getAt_removeAt`).
-/

namespace Obix

open CString

namespace XmlNode

variable {ω : Type}

/-- Remove the first child with a href. -/
def removeChild (t : Text) : XmlNode ω → XmlNode ω
  | element o name attrs cs => element o name attrs (cs.eraseP (hasHref t))
  | text o content => text o content
  | comment o content => comment o content

/-- `xmldb_delete_node` of the node at the end of a path. -/
def removeAt (p : Path) (n : XmlNode ω) : XmlNode ω :=
  modifyAt (removeChild (p.getLastD [])) p.dropLast n

/-- A change after which a node has its href and is found wherever it was. -/
structure Grows (f : XmlNode ω → XmlNode ω) : Prop where
  href : ∀ n, (f n).href = n.href
  keeps : ∀ n q, (n.getAt q).isSome → ((f n).getAt q).isSome

section Children

variable {f : XmlNode ω → XmlNode ω} {stub : XmlNode ω} {t u : Text} {rest : Path}

@[simp] theorem href_removeChild (n : XmlNode ω) : (removeChild t n).href = n.href := by
  cases n with
  | element => rfl
  | text => rfl
  | comment => rfl

/-- Another child is found as before. -/
theorem childAt_removeChild
    (htu : u ≠ t)
    (n : XmlNode ω) :
    (removeChild t n).childAt u = n.childAt u := by
  cases n with
  | text => rfl
  | comment => rfl
  | element o name attrs cs =>
      show (cs.eraseP (hasHref t)).find? (hasHref u) = cs.find? (hasHref u)
      induction cs with
      | nil => rfl
      | cons c cs ih =>
          by_cases ht : c.hasHref t = true
          · have hu : ¬ c.hasHref u = true := by
              intro hu
              exact htu (Option.some.inj ((hasHref_iff.mp hu).symm.trans (hasHref_iff.mp ht)))
            rw [List.eraseP_cons_of_pos ht, List.find?_cons_of_neg hu]
          · rw [List.eraseP_cons_of_neg ht]
            by_cases hu : c.hasHref u = true
            · rw [List.find?_cons_of_pos hu, List.find?_cons_of_pos hu]
            · rw [List.find?_cons_of_neg hu, List.find?_cons_of_neg hu, ih]

theorem childAt_modifyAt
    (hf : ∀ n, (f n).href = n.href)
    (n : XmlNode ω) :
    (modifyAt f (t :: rest) n).childAt u =
      if u = t then (n.childAt u).map (modifyAt f rest) else n.childAt u := by
  rw [childAt_eq, childAt_eq, children_modifyAt_cons]
  exact find?_modifyFirst (href_modifyAt hf rest) u t n.children

/-- The first node on the way is there or made from the stub. -/
theorem childAt_ensureAt
    (hstub : stub.isElement = true)
    (hf : ∀ n, (f n).href = n.href)
    {n : XmlNode ω}
    (hn : n.isElement = true) :
    (ensureAt stub f (t :: rest) n).childAt u =
      if u = t then some (ensureAt stub f rest ((n.childAt t).getD (stub.setProp attrHref t)))
      else n.childAt u := by
  have href : ∀ m, (ensureAt stub f rest m).href = m.href := by
    intro m
    cases rest with
    | nil => exact hf m
    | cons v rest =>
        cases m with
        | element => rfl
        | text => rfl
        | comment => rfl
  cases n with
  | text => cases hn
  | comment => cases hn
  | element o name attrs cs =>
      have hchild : (element o name attrs cs).childAt t = cs.find? (hasHref t) := rfl
      have hother : (element o name attrs cs).childAt u = cs.find? (hasHref u) := rfl
      rw [hchild, hother]
      by_cases hany : cs.any (hasHref t) = true
      · have hmod : (ensureAt stub f (t :: rest) (element o name attrs cs)).childAt u =
            (modifyFirst (hasHref t) (ensureAt stub f rest) cs).find? (hasHref u) := by
          simp only [ensureAt, hany, if_true, childAt_eq, children]
        rw [hmod, find?_modifyFirst href]
        obtain ⟨c, hc⟩ :=
          Option.isSome_iff_exists.mp (List.find?_isSome.mpr (List.any_eq_true.mp hany))
        by_cases htu : u = t
        · rw [if_pos htu, if_pos htu, htu, hc]
          rfl
        · rw [if_neg htu, if_neg htu]
      · have hnone : cs.find? (hasHref t) = none := by
          rw [List.find?_eq_none]
          intro c hc hct
          exact hany (List.any_eq_true.mpr ⟨c, hc, hct⟩)
        have happ : (ensureAt stub f (t :: rest) (element o name attrs cs)).childAt u =
            (cs ++ [ensureAt stub f rest (stub.setProp attrHref t)]).find? (hasHref u) := by
          simp only [ensureAt, hany, childAt_eq, children, Bool.false_eq_true, if_false]
        have hnew : (ensureAt stub f rest (stub.setProp attrHref t)).href = some t :=
          (href _).trans (href_setProp_href hstub t)
        rw [happ, List.find?_append]
        by_cases htu : u = t
        · have hhas : (ensureAt stub f rest (stub.setProp attrHref t)).hasHref t = true :=
            hasHref_iff.mpr hnew
          rw [if_pos htu, htu, hnone, List.find?_cons_of_pos hhas]
          rfl
        · have hhas : ¬ (ensureAt stub f rest (stub.setProp attrHref t)).hasHref u = true := by
            rw [hasHref_iff, hnew]
            exact fun h => htu (Option.some.inj h).symm
          rw [if_neg htu, List.find?_cons_of_neg hhas, List.find?_nil, Option.or_none]

end Children

section Removal

/-- A node is found as long as no node on the way to it is removed. -/
theorem isSome_getAt_removeAt
    {p q : Path} {n : XmlNode ω}
    (hpq : ¬ p <+: q)
    (h : (n.getAt q).isSome) :
    ((removeAt p n).getAt q).isSome := by
  obtain ⟨ts, t, rfl⟩ : ∃ ts t, p = ts ++ [t] := by
    rcases List.eq_nil_or_concat' p with rfl | hp
    · exact absurd List.nil_prefix hpq
    · exact hp
  rw [removeAt, List.getLastD_concat, List.dropLast_concat]
  induction ts generalizing q n with
  | nil =>
      cases q with
      | nil => rfl
      | cons u us =>
          have htu : u ≠ t := by
            rintro rfl
            exact hpq ⟨us, rfl⟩
          rwa [modifyAt, getAt_cons, childAt_removeChild htu, ← getAt_cons]
  | cons s ts ih =>
      cases q with
      | nil => rfl
      | cons u us =>
          rw [getAt_cons] at h ⊢
          rw [childAt_modifyAt fun m => href_removeChild m]
          by_cases hus : u = s
          · subst hus
            rw [if_pos rfl]
            obtain ⟨m, hm⟩ := Option.isSome_iff_exists.mp h
            obtain ⟨c, hc, hrest⟩ := Option.bind_eq_some_iff.mp hm
            rw [hc]
            exact ih (Option.isSome_iff_exists.mpr ⟨m, hrest⟩)
              fun hp => hpq (List.cons_prefix_cons.mpr ⟨rfl, hp⟩)
          · rwa [if_neg hus]

end Removal

section Growth

variable {f g : XmlNode ω → XmlNode ω} {stub new : XmlNode ω}

theorem Grows.comp
    (hf : Grows f)
    (hg : Grows g) :
    Grows fun n => f (g n) where
  href := fun n => (hf.href _).trans (hg.href n)
  keeps := fun n q h => hf.keeps _ q (hg.keeps n q h)

/-- A child that is found in both trees, the second of which grows. -/
theorem isSome_bind_getAt
    {x y : Option (XmlNode ω)} {q : Path}
    (hxy : ∀ c, x = some c → ∃ d, y = some d ∧ ((c.getAt q).isSome → (d.getAt q).isSome))
    (h : (x.bind fun c => c.getAt q).isSome) :
    (y.bind fun c => c.getAt q).isSome := by
  obtain ⟨m, hm⟩ := Option.isSome_iff_exists.mp h
  obtain ⟨c, rfl, hrest⟩ := Option.bind_eq_some_iff.mp hm
  obtain ⟨d, rfl, hd⟩ := hxy c rfl
  exact hd (Option.isSome_iff_exists.mpr ⟨m, hrest⟩)

theorem grows_addChild (new : XmlNode ω) : Grows (addChild new) where
  href := href_addChild
  keeps := by
    intro n q h
    cases q with
    | nil => rfl
    | cons u us =>
        refine isSome_bind_getAt (fun c hc => ⟨c, ?_, id⟩) h
        cases n with
        | text => cases hc
        | comment => cases hc
        | element o name attrs cs =>
            show (cs ++ [new]).find? (hasHref u) = some c
            rw [List.find?_append, show cs.find? (hasHref u) = some c from hc]
            rfl

theorem grows_setupPrivate (owner : ω) : Grows (setupPrivate owner) where
  href := href_setupPrivate
  keeps := by
    intro n q h
    rwa [getAt_map children_setupPrivate href_setupPrivate, Option.isSome_map]

theorem Grows.modifyAt
    (hf : Grows f) :
    ∀ p, Grows (modifyAt f p)
  | [] => hf
  | t :: p =>
      { href := href_modifyAt hf.href (t :: p)
        keeps := by
          intro n q h
          cases q with
          | nil => rfl
          | cons u us =>
              rw [getAt_cons, childAt_modifyAt hf.href]
              refine isSome_bind_getAt (fun c hc => ?_) h
              by_cases htu : u = t
              · rw [if_pos htu, hc]
                exact ⟨_, rfl, (hf.modifyAt p).keeps c us⟩
              · rw [if_neg htu]
                exact ⟨c, hc, id⟩ }

theorem Grows.ensureAt
    (hstub : stub.isElement = true)
    (hf : Grows f) :
    ∀ p, Grows (ensureAt stub f p)
  | [] => hf
  | t :: p =>
      { href := by
          intro n
          cases n with
          | element => rfl
          | text => rfl
          | comment => rfl
        keeps := by
          intro n q h
          by_cases hn : n.isElement = true
          · cases q with
            | nil => rfl
            | cons u us =>
                rw [getAt_cons, childAt_ensureAt hstub hf.href hn]
                refine isSome_bind_getAt (fun c hc => ?_) h
                by_cases htu : u = t
                · subst htu
                  rw [if_pos rfl, hc]
                  exact ⟨_, rfl, (hf.ensureAt hstub p).keeps c us⟩
                · rw [if_neg htu]
                  exact ⟨c, hc, id⟩
          · cases n with
            | element => cases hn rfl
            | text => exact h
            | comment => exact h }

/-- A node that has been put into a tree is found. -/
theorem isSome_getAt_ensureAt
    {t : Text}
    (hstub : stub.isElement = true)
    (hnew : new.href = some t)
    {p : Path} {n : XmlNode ω}
    (hn : n.isElement = true) :
    ((ensureAt stub (addChild new) p n).getAt (p ++ [t])).isSome := by
  induction p generalizing n with
  | nil =>
      cases n with
      | text => cases hn
      | comment => cases hn
      | element o name attrs cs =>
          have hhas : new.hasHref t = true := hasHref_iff.mpr hnew
          have hsome : ((cs ++ [new]).find? (hasHref t)).isSome :=
            List.find?_isSome.mpr ⟨new, by simp, hhas⟩
          obtain ⟨c, hc⟩ := Option.isSome_iff_exists.mp hsome
          exact Option.isSome_iff_exists.mpr ⟨c, Option.bind_eq_some_iff.mpr ⟨c, hc, rfl⟩⟩
  | cons s p ih =>
      rw [List.cons_append, getAt_cons, childAt_ensureAt hstub (grows_addChild new).href hn,
        if_pos rfl, Option.bind_some]
      apply ih
      cases hc : n.childAt s with
      | none => exact (isElement_setProp stub attrHref s).trans hstub
      | some c => exact isElement_of_href (hasHref_iff.mp (List.find?_some hc))

end Growth

end XmlNode

end Obix
