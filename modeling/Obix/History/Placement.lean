import Obix.History.Nearest

/-!
# What the creation of a facility does to the history lobby

`createFacility_place`: for a device path `__hist_create_dev` succeeds, and the lobby
becomes `place p index lobby`.  Either the node of the facility is there already, or
it is put there together with its missing ancestors; then the index list is added
to it and its whole subtree gets the `_private` pointer.
-/

namespace Obix
namespace History

open CString XmlNode

def opQuery : Text := "query".toList

def opAppend : Text := "append".toList

def indexHref : Text := "index".toList

/-- An index document: no node below its root has a href. -/
structure PlainIndex (index : Node) : Prop where
  href : index.href = some indexHref
  plain : ∀ c ∈ index.children, c.href = none

theorem plainIndex_skeleton : PlainIndex histIndexSkeleton where
  href := by decide
  plain := by
    intro c hc
    cases hc

section Stub

variable {tok : Text} {loc x : Path} {o : Option Text}

theorem isElement_histDevStub : histDevStub.isElement = true := rfl

theorem children_stub (tok : Text) :
    (histDevStub.setProp attrHref tok).children =
      [stubOp "query" "obix:HistoryFilter" "obix:HistoryQueryOut" "11",
        stubOp "append" "obix:HistoryAppendIn" "obix:HistoryAppendOut" "12"] := rfl

theorem owner_stub (tok : Text) : (histDevStub.setProp attrHref tok).owner = none := rfl

/-- The operations of a stub: their href, and a meta node without one. -/
theorem stub_child
    {c : Node}
    (hc : c ∈ (histDevStub.setProp attrHref tok).children) :
    (c.href = some opQuery ∨ c.href = some opAppend) ∧ c.owner = none ∧
      ∀ d ∈ c.children, d.href = none ∧ d.owner = none ∧ d.children = [] := by
  rw [children_stub] at hc
  have hop : ∀ name i u m, (stubOp name i u m).owner = none ∧
      ∀ d ∈ (stubOp name i u m).children, d.href = none ∧ d.owner = none ∧ d.children = [] := by
    intro name i u m
    refine ⟨rfl, ?_⟩
    intro d hd
    obtain rfl := List.mem_singleton.mp hd
    exact ⟨by simp [XmlNode.href, getProp, attrHref, List.lookup_cons], rfl, rfl⟩
  rcases List.mem_cons.mp hc with rfl | hc
  · exact ⟨.inl (by decide), hop ..⟩
  · obtain rfl := List.mem_singleton.mp hc
    exact ⟨.inr (by decide), hop ..⟩

theorem exists_stub_child
    {t : Text}
    (tok : Text)
    (h : t = opQuery ∨ t = opAppend) :
    ∃ c ∈ (histDevStub.setProp attrHref tok).children, c.href = some t := by
  rw [children_stub]
  rcases h with rfl | rfl
  · exact ⟨_, List.mem_cons_self, by decide⟩
  · exact ⟨_, List.mem_cons_of_mem _ List.mem_cons_self, by decide⟩

/-- Nobody owns a new stub. -/
theorem marked_stub
    (h : Marked loc (histDevStub.setProp attrHref tok) x o) :
    o = none ∧ (x = loc ∨ x = loc ++ [opQuery] ∨ x = loc ++ [opAppend]) := by
  cases h with
  | here => exact ⟨owner_stub tok, .inl rfl⟩
  | @child _ _ _ c t _ hc ht h =>
      obtain ⟨hhref, howner, hmeta⟩ := stub_child hc
      have hx : x = loc ++ [t] ∧ o = none := by
        cases h with
        | here => exact ⟨rfl, howner⟩
        | child hd hu h =>
            rw [(hmeta _ hd).1] at hu
            cases hu
        | loose hd hu h =>
            obtain ⟨-, hdo, hdc⟩ := hmeta _ hd
            cases h with
            | here => exact ⟨rfl, hdo⟩
            | child he h =>
                rw [hdc] at he
                cases he
      refine ⟨hx.2, .inr ?_⟩
      rw [ht] at hhref
      rcases hhref with hq | ha
      · left
        rw [hx.1, Option.some.inj hq]
      · right
        rw [hx.1, Option.some.inj ha]
  | loose hc ht h =>
      obtain ⟨hhref, -⟩ := stub_child hc
      rw [ht] at hhref
      rcases hhref with hq | ha
      · cases hq
      · cases ha

theorem uniq_stub (tok : Text) : Uniq (histDevStub.setProp attrHref tok) := by
  refine ⟨?_, ?_⟩
  · rw [children_stub]
    decide
  · intro c hc _
    obtain ⟨-, -, hmeta⟩ := stub_child hc
    refine ⟨?_, ?_⟩
    · have hnil : c.children.filterMap XmlNode.href = [] := by
        rw [List.filterMap_eq_nil_iff]
        exact fun d hd => (hmeta d hd).1
      rw [hnil]
      exact List.nodup_nil
    · intro d hd hne
      exact absurd (hmeta d hd).1 hne

theorem childAt_stub
    {t : Text}
    (hq : t ≠ opQuery)
    (ha : t ≠ opAppend) :
    (histDevStub.setProp attrHref tok).childAt t = none := by
  rw [childAt_eq, List.find?_eq_none]
  intro c hc hhas
  obtain ⟨hhref, -⟩ := stub_child hc
  rw [hasHref_iff.mp hhas] at hhref
  rcases hhref with h | h
  · exact hq (Option.some.inj h)
  · exact ha (Option.some.inj h)

/-- There is nothing to address below the operations of a stub. -/
theorem getAt_stub
    {q : Path}
    (hq : 2 ≤ q.length) :
    (histDevStub.setProp attrHref tok).getAt q = none := by
  match q, hq with
  | t :: u :: rest, _ =>
      rw [getAt_cons, Option.bind_eq_none_iff]
      intro c hc
      obtain ⟨-, -, hmeta⟩ := @stub_child tok c (List.mem_of_find?_eq_some hc)
      have hnone : c.childAt u = none := by
        rw [childAt_eq, List.find?_eq_none]
        intro d hd hhas
        rw [hasHref_iff, (hmeta d hd).1] at hhas
        cases hhas
      rw [getAt_cons, hnone]
      rfl

end Stub

section Setup

variable {d : Text} {index n : Node} {path x : Path} {o : Option Text}

@[simp] theorem href_setupFacility (n : Node) : (setupFacility d index n).href = n.href := by
  simp [setupFacility]

/-- A facility owns everything below its node. -/
theorem marked_setupFacility
    (hindex : PlainIndex index)
    (h : Marked path (setupFacility d index n) x o) :
    o = some d ∧ ((∃ o', Marked path n x o') ∨ x = path ++ [indexHref]) := by
  obtain ⟨ho, o', hmark⟩ := marked_setupPrivate h
  refine ⟨ho, ?_⟩
  rcases marked_addChild hindex.href hmark with hold | hnew
  · exact .inl ⟨o', hold⟩
  · right
    cases hnew with
    | here => rfl
    | child hc ht h =>
        rw [hindex.plain _ hc] at ht
        cases ht
    | loose hc ht h => rfl

theorem reaches_setupFacility
    (h : Reaches path n x) :
    Reaches path (setupFacility d index n) x :=
  h.addChild.setupPrivate

theorem PlainIndex.uniq
    (hindex : PlainIndex index) :
    Uniq index := by
  refine ⟨?_, ?_⟩
  · have hnil : index.children.filterMap XmlNode.href = [] := by
      rw [List.filterMap_eq_nil_iff]
      exact hindex.plain
    rw [hnil]
    exact List.nodup_nil
  · intro c hc hne
    exact absurd (hindex.plain c hc) hne

theorem uniq_setupFacility
    (hindex : PlainIndex index)
    (hn : Uniq n)
    (hnone : n.childAt indexHref = none) :
    Uniq (setupFacility d index n) :=
  (hn.addChild hindex.uniq hindex.href hnone).setupPrivate

theorem reaches_index
    (hindex : PlainIndex index)
    (hn : n.isElement = true)
    (path : Path) :
    Reaches path (setupFacility d index n) (path ++ [indexHref]) := by
  refine Reaches.setupPrivate (.child ?_ hindex.href (.here _ _))
  rw [children_addChild hn]
  simp

end Setup

/-- The history lobby after the facility of a path has been created. -/
def place (p : Path) (index lobby : Node) : Node :=
  if (lobby.getAt p).isSome then
    XmlNode.modifyAt (setupFacility (devIdOf p) index) p lobby
  else
    XmlNode.ensureAt histDevStub
      (XmlNode.addChild (setupFacility (devIdOf p) index
        (histDevStub.setProp attrHref (p.getLastD []))))
      p.dropLast lobby

/-- The node of a facility that is new. -/
def newNode (p : Path) (index : Node) : Node :=
  setupFacility (devIdOf p) index (histDevStub.setProp attrHref (p.getLastD []))

section Place

variable {p x : Path} {index lobby : Node} {o : Option Text}

theorem place_of_some
    {node : Node}
    (h : lobby.getAt p = some node) :
    place p index lobby = modifyAt (setupFacility (devIdOf p) index) p lobby := by
  simp [place, h]

theorem place_of_none
    (h : lobby.getAt p = none) :
    place p index lobby = ensureAt histDevStub (addChild (newNode p index)) p.dropLast lobby := by
  simp [place, h, newNode]

theorem href_newNode (p : Path) (index : Node) :
    (newNode p index).href = some (p.getLastD []) := by
  rw [newNode, href_setupFacility]
  exact href_setProp_href isElement_histDevStub _

theorem dropLast_append_getLastD
    (hp : p ≠ []) :
    p.dropLast ++ [p.getLastD []] = p := by
  obtain ⟨ts, t, rfl⟩ := (List.eq_nil_or_concat' p).resolve_left hp
  simp

theorem isElement_place
    (hp : p ≠ []) :
    (place p index lobby).isElement = lobby.isElement := by
  cases h : lobby.getAt p with
  | some node =>
      obtain ⟨t, rest, rfl⟩ := List.exists_cons_of_ne_nil hp
      rw [place_of_some h, isElement_modifyAt_cons]
  | none => rw [place_of_none h, isElement_ensureAt]

/-- The marks of the lobby after a creation: old ones, those of ancestors that have
been created, and those of the facility. -/
theorem marked_place
    (hp : p ≠ [])
    (hindex : PlainIndex index)
    (hlobby : lobby.isElement = true)
    (h : Marked [] (place p index lobby) x o) :
    (Marked [] lobby x o ∧ (Uniq lobby → ¬ p <+: x)) ∨
    (o = none ∧ ∃ y, y <+: p.dropLast ∧ creates histDevStub y lobby = true ∧
      (x = y ∨ x = y ++ [opQuery] ∨ x = y ++ [opAppend])) ∨
    (o = some (devIdOf p) ∧ p <+: x ∧
      ((∃ o', Marked [] lobby x o') ∨
        x = p ∨ x = p ++ [opQuery] ∨ x = p ++ [opAppend] ∨ x = p ++ [indexHref])) := by
  cases hget : lobby.getAt p with
  | some node =>
      rw [place_of_some hget] at h
      rcases marked_modifyAt href_setupFacility h with ⟨hold, hout⟩ | ⟨m, hm, hmark⟩
      · exact .inl ⟨hold, fun huniq => hout huniq (by simp [hget])⟩
      · rw [List.nil_append] at hmark
        obtain ⟨ho, hx⟩ := marked_setupFacility hindex hmark
        refine .inr (.inr ⟨ho, hmark.isPrefix_of, ?_⟩)
        rcases hx with ⟨o', ho'⟩ | hx
        · exact .inl ⟨o', Marked.of_getAt hm ho'⟩
        · exact .inr (.inr (.inr (.inr hx)))
  | none =>
      rw [place_of_none hget] at h
      rcases marked_ensureAt isElement_histDevStub (href_newNode p index) hlobby h with
        hold | ⟨y, tok, hy, hcreates, hmark⟩ | hmark
      · refine .inl ⟨hold, ?_⟩
        intro huniq hpre
        obtain ⟨q, m, hq, hfound⟩ := huniq.getAt hold
        rw [List.nil_append] at hq
        rw [getAt_eq_none_of_isPrefix hget (hq ▸ hpre)] at hfound
        cases hfound
      · obtain ⟨ho, hx⟩ := marked_stub hmark
        exact .inr (.inl ⟨ho, y, hy, hcreates, hx⟩)
      · rw [List.nil_append, dropLast_append_getLastD hp] at hmark
        obtain ⟨ho, hx⟩ := marked_setupFacility hindex hmark
        refine .inr (.inr ⟨ho, hmark.isPrefix_of, .inr ?_⟩)
        rcases hx with ⟨o', ho'⟩ | hx
        · obtain ⟨-, hx⟩ := marked_stub ho'
          rcases hx with hx | hx | hx
          · exact .inl hx
          · exact .inr (.inl hx)
          · exact .inr (.inr (.inl hx))
        · exact .inr (.inr (.inr hx))

theorem reaches_place
    (hlobby : lobby.isElement = true)
    (h : Reaches [] lobby x) :
    Reaches [] (place p index lobby) x := by
  cases hget : lobby.getAt p with
  | some node =>
      rw [place_of_some hget]
      exact h.modifyAt href_setupFacility fun _ _ _ => reaches_setupFacility
  | none =>
      rw [place_of_none hget]
      exact h.ensureAt hlobby

/-- The index list of a new facility is there. -/
theorem reaches_place_index
    (hp : p ≠ [])
    (hindex : PlainIndex index)
    (hlobby : lobby.isElement = true) :
    Reaches [] (place p index lobby) (p ++ [indexHref]) := by
  cases hget : lobby.getAt p with
  | some node =>
      rw [place_of_some hget]
      exact Reaches.of_getAt (getAt_modifyAt href_setupFacility hget)
        (reaches_index hindex (isElement_of_getAt hp hget) _)
  | none =>
      rw [place_of_none hget]
      refine reaches_ensureAt isElement_histDevStub (href_newNode p index) hlobby ?_
      rw [List.nil_append, dropLast_append_getLastD hp]
      exact reaches_index hindex rfl p

theorem uniq_place
    (hp : p ≠ [])
    (hindex : PlainIndex index)
    (hlobby : lobby.isElement = true)
    (huniq : Uniq lobby)
    (hnone : lobby.getAt (p ++ [indexHref]) = none)
    (hop : creates histDevStub p.dropLast lobby = true →
      p.getLastD [] ≠ opQuery ∧ p.getLastD [] ≠ opAppend) :
    Uniq (place p index lobby) := by
  have hindexStub : ∀ tok, (histDevStub.setProp attrHref tok).childAt indexHref = none := by
    intro tok
    exact childAt_stub (by decide) (by decide)
  cases hget : lobby.getAt p with
  | some node =>
      rw [place_of_some hget]
      refine huniq.modifyAt href_setupFacility ?_
      intro m hm
      refine uniq_setupFacility hindex (huniq.of_getAt hm) ?_
      rw [getAt_append, hm] at hnone
      cases hc : m.childAt indexHref with
      | none => rfl
      | some c => simp [hc] at hnone
  | none =>
      rw [place_of_none hget]
      have hnew : Uniq (newNode p index) := uniq_setupFacility hindex (uniq_stub _) (hindexStub _)
      refine hnew.ensureAt isElement_histDevStub uniq_stub (fun _ _ => getAt_stub)
        (href_newNode p index) huniq hlobby ?_ ?_
      · rwa [dropLast_append_getLastD hp]
      · intro hcreates tok
        obtain ⟨hq, ha⟩ := hop hcreates
        exact childAt_stub hq ha

end Place

/-- `__hist_create_dev` for a device path. -/
def createFacility (p : Path) (index : Node) (sys : HistSys) : Option HistSys :=
  histCreateDev (devIdOf p) (hrefOf p) index sys

section Create

variable {p : Path} {index lobby : Node} {sys : HistSys}

theorem dot_not_mem_hrefOf
    (hp : DevicePath p) :
    '.' ∉ hrefOf p := by
  intro hmem
  rw [hrefOf, delimited, List.flatMap_append, List.mem_append] at hmem
  rcases hmem with hmem | hmem
  · exact absurd hmem (by decide)
  · obtain ⟨t, ht, hmem⟩ := List.mem_flatMap.mp hmem
    rcases List.mem_cons.mp hmem with h | h
    · cases h
    · exact (hp.dot t ht).2 h

theorem xmlIsValidHref_hrefOf
    (hp : DevicePath p) :
    xmlIsValidHref (hrefOf p) = true := by
  have hdouble : find ['/', '/'] (hrefOf p) = none := find_double_delimited hp.isToken
  have hdot := dot_not_mem_hrefOf hp
  obtain ⟨s, hs⟩ : ∃ s, hrefOf p = '/' :: 'o' :: s := ⟨_, rfl⟩
  have hspace : isSpace '/' = false := by decide
  rw [hs] at hdouble hdot ⊢
  simp [xmlIsValidHref, hdouble, hspace, hdot]

theorem xmldbGetNode_hrefOf
    (hp : DevicePath p)
    (hlobby : sys.dom.getAt lobbyTokens = some lobby) :
    xmldbGetNode sys.dom (hrefOf p) = lobby.getAt p := by
  rw [hrefOf, xmldbGetNode_delimited _ (by simp [lobbyTokens]) hp.isToken, getAt_append, hlobby]
  rfl

/-- The parent of the node of a facility. -/
theorem tokens_dirname_hrefOf
    (hp : DevicePath p) :
    tokens '/' (dirname (hrefOf p)) = lobbyTokens ++ p.dropLast := by
  obtain ⟨ts, t, rfl⟩ := (List.eq_nil_or_concat' p).resolve_left hp.ne_nil
  obtain ⟨us, u, hus⟩ := (List.eq_nil_or_concat' (lobbyTokens ++ ts)).resolve_left
    (by simp [lobbyTokens])
  have htok : ∀ v ∈ lobbyTokens ++ ts, IsToken '/' v := by
    intro v hv
    refine hp.isToken v ?_
    rw [← List.append_assoc]
    exact List.mem_append_left _ hv
  have hu : IsToken '/' u := htok u (by simp [hus])
  have ht : IsToken '/' t := hp.slash t (by simp)
  rw [List.dropLast_concat, hrefOf, ← List.append_assoc, hus, dirname_delimited hu ht, ← hus]
  exact tokens_delimited htok

/-- The href of a new node becomes its last component. -/
theorem relativeHref_histDevStub
    {href s : Text}
    (h : href = '/' :: 'o' :: s) :
    relativeHref (histDevStub.setProp attrHref href) =
      (histDevStub.setProp attrHref href).setProp attrHref (basename href) := by
  have hprop : (histDevStub.setProp attrHref href).getProp attrHref = some href :=
    href_setProp_href isElement_histDevStub _
  have hcond : ¬ ((histDevStub.setProp attrHref href).hasName objRef ∨
      slashPreceded href = false ∨ href.all (· = '/')) := by
    rw [h]
    simp [slashPreceded, histDevStub, setProp, hasName, objRef]
  rw [relativeHref, hprop]
  simp only [hcond, if_false]

theorem relativeHref_stub
    (hp : DevicePath p) :
    relativeHref (histDevStub.setProp attrHref (hrefOf p)) =
      histDevStub.setProp attrHref (p.getLastD []) := by
  obtain ⟨ts, t, rfl⟩ := (List.eq_nil_or_concat' p).resolve_left hp.ne_nil
  have hbase : basename (hrefOf (ts ++ [t])) = t := by
    rw [hrefOf, ← List.append_assoc]
    exact basename_delimited (hp.slash t (by simp))
  obtain ⟨s, hs⟩ : ∃ s, hrefOf (ts ++ [t]) = '/' :: 'o' :: s := ⟨_, rfl⟩
  rw [relativeHref_histDevStub hs, hbase, List.getLastD_concat]
  rfl

/-- `__hist_create_dev` succeeds for a device path and changes the history lobby. -/
theorem createFacility_place
    (hp : DevicePath p)
    (hlobby : sys.dom.getAt lobbyTokens = some lobby) :
    ∃ sys', createFacility p index sys = some sys' ∧
      sys'.dom.getAt lobbyTokens = some (place p index lobby) := by
  have hget := xmldbGetNode_hrefOf hp hlobby
  unfold createFacility histCreateDev histAddDevnode place
  rw [hget]
  by_cases hsome : (lobby.getAt p).isSome
  · have htok : tokens '/' (hrefOf p) = lobbyTokens ++ p := tokens_delimited hp.isToken
    rw [if_pos hsome, if_pos hsome, htok]
    refine ⟨_, rfl, ?_⟩
    rw [modifyAt_append]
    exact getAt_modifyAt (href_modifyAt href_setupFacility p) hlobby
  · rw [if_neg hsome, if_neg hsome, xmldbPutNode, if_pos (xmlIsValidHref_hrefOf hp),
      tokens_dirname_hrefOf hp, relativeHref_stub hp]
    refine ⟨_, rfl, ?_⟩
    rw [ensureAt_append _ _ hlobby]
    exact getAt_modifyAt (href_ensureAt _ _ _) hlobby

end Create

end History
end Obix
