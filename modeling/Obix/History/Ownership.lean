import Obix.History.Placement

/-!
# The owner of a node under the history lobby

`__hist_create_dev` sets the `_private` pointers of the whole subtree of the new
facility, and of nothing else.  So a facility that is created above another one
takes over the nodes of the latter, and the nodes that are created on the way down
to a facility belong to nobody, even below another facility.

`Admissible` says when neither happens.  The owners of all nodes are right after a
sequence of creations exactly when every one of them was admissible
(`owned_iff_inOrder`): a wrong owner is never put right again (`Bad.place`).
-/

namespace Obix
namespace History

open CString XmlNode

/-- When a facility may be created: there is none below it; and if its parent is
missing there is none above it either, and its own node is not an operation of the
stub that is created for its parent. -/
structure Admissible (facs : List Path) (lobby : Node) (p : Path) : Prop where
  below : ∀ q ∈ facs, ¬ p <+: q
  above : lobby.getAt p.dropLast = none → ∀ q ∈ facs, ¬ q <+: p
  op : creates histDevStub p.dropLast lobby = true →
    p.getLastD [] ≠ opQuery ∧ p.getLastD [] ≠ opAppend

/-- The locations that creations bring about. -/
def Known (facs : List Path) (x : Path) : Prop :=
  x = [] ∨ ∃ q ∈ facs, x <+: q ∨
    (∃ y, y <+: q ∧ (x = y ++ [opQuery] ∨ x = y ++ [opAppend])) ∨ x = q ++ [indexHref]

/-- The history lobby after admissible creations. -/
structure Good (facs : List Path) (lobby : Node) : Prop where
  isElement : lobby.isElement = true
  owned : ∀ x o, Marked [] lobby x o → o = own facs x
  uniq : Uniq lobby
  known : ∀ x o, Marked [] lobby x o → Known facs x
  indexed : ∀ q ∈ facs, Reaches [] lobby (q ++ [indexHref])

section Good

variable {facs : List Path} {lobby index : Node} {p q x y : Path} {o : Option Text}

theorem Known.mono
    (h : Known facs x) :
    Known (facs ++ [p]) x := by
  rcases h with h | ⟨q, hq, h⟩
  · exact .inl h
  · exact .inr ⟨q, List.mem_append_left _ hq, h⟩

theorem Good.found
    (h : Good facs lobby)
    (hq : q ∈ facs) :
    ∃ node, lobby.getAt q = some node := by
  obtain ⟨o, ho⟩ := (h.indexed q hq).marked
  obtain ⟨r, m, hr, hm⟩ := h.uniq.getAt ho
  rw [List.nil_append] at hr
  exact getAt_of_isPrefix hm (hr ▸ List.prefix_append q _)

/-- A facility that does not exist has no index list. -/
theorem Good.getAt_index
    (h : Good facs lobby)
    (hbelow : ∀ q ∈ facs, ¬ p <+: q) :
    lobby.getAt (p ++ [indexHref]) = none := by
  cases hget : lobby.getAt (p ++ [indexHref]) with
  | none => rfl
  | some node =>
      have hreach : Reaches [] lobby (p ++ [indexHref]) :=
        Reaches.of_getAt hget (.here _ _)
      obtain ⟨o, ho⟩ := hreach.marked
      have hlast : ∀ {z : Path} {t : Text}, p ++ [indexHref] = z ++ [t] → indexHref = t := by
        intro z t heq
        simpa using (List.append_inj' heq rfl).2
      rcases h.known _ _ ho with hnil | ⟨q, hq, hpre | ⟨y, -, heq | heq⟩ | heq⟩
      · simp at hnil
      · exact absurd ((List.prefix_append p _).trans hpre) (hbelow q hq)
      · exact absurd (hlast heq) (by decide)
      · exact absurd (hlast heq) (by decide)
      · obtain rfl := (List.append_inj' heq rfl).1
        exact absurd List.prefix_rfl (hbelow p hq)

/-- Nobody should own the ancestors that an admissible creation brings about. -/
theorem Good.own_ancestor
    (h : Good facs lobby)
    (hp : p ≠ [])
    (hadm : Admissible facs lobby p)
    (hy : y <+: p.dropLast)
    (hcreates : creates histDevStub y lobby = true)
    (hx : x = y ∨ x = y ++ [opQuery] ∨ x = y ++ [opAppend]) :
    own (facs ++ [p]) x = none := by
  have hmissing : ∀ z, y <+: z → lobby.getAt z = none :=
    fun z => getAt_eq_none_of_isPrefix (getAt_of_creates hcreates)
  have hyp : y <+: p := hy.trans (List.dropLast_prefix p)
  have hlen : y.length < p.length := by
    have := hy.length_le
    have := List.length_pos_iff.mpr hp
    rw [List.length_dropLast] at *
    omega
  have hcases : ∀ q, q <+: x → q <+: y ∨ ∃ t, (t = opQuery ∨ t = opAppend) ∧ q = y ++ [t] := by
    intro q hq
    rcases hx with rfl | rfl | rfl
    · exact .inl hq
    · rcases List.prefix_concat_iff.mp hq with hq | hq
      · exact .inr ⟨_, .inl rfl, hq⟩
      · exact .inl hq
    · rcases List.prefix_concat_iff.mp hq with hq | hq
      · exact .inr ⟨_, .inr rfl, hq⟩
      · exact .inl hq
  refine own_eq_none ?_
  intro q hq hpre
  rcases List.mem_append.mp hq with hmem | hmem
  · rcases hcases q hpre with hqy | ⟨t, -, rfl⟩
    · exact hadm.above (hmissing _ hy) q hmem (hqy.trans hyp)
    · obtain ⟨node, hnode⟩ := h.found hmem
      rw [hmissing _ (List.prefix_append y [t])] at hnode
      cases hnode
  · obtain rfl := List.mem_singleton.mp hmem
    rcases hcases q hpre with hqy | ⟨t, ht, rfl⟩
    · have := hqy.length_le
      omega
    · rw [List.dropLast_concat] at hy
      have hop := hadm.op
      rw [List.dropLast_concat, List.getLastD_concat] at hop
      rcases ht with rfl | rfl
      · exact (hop hcreates).1 rfl
      · exact (hop hcreates).2 rfl

/-- An admissible creation. -/
theorem Good.place
    (h : Good facs lobby)
    (hp : p ≠ [])
    (hindex : PlainIndex index)
    (hadm : Admissible facs lobby p) :
    Good (facs ++ [p]) (place p index lobby) where
  isElement := (isElement_place hp).trans h.isElement
  owned := by
    intro x o hmark
    rcases marked_place hp hindex h.isElement hmark with
      ⟨hold, hout⟩ | ⟨rfl, y, hy, hcreates, hx⟩ | ⟨rfl, hpre, -⟩
    · rw [own_of_not_isPrefix (hout h.uniq)]
      exact h.owned x o hold
    · exact (h.own_ancestor hp hadm hy hcreates hx).symm
    · exact (own_of_isPrefix hpre hadm.below).symm
  uniq := uniq_place hp hindex h.isElement h.uniq (h.getAt_index hadm.below) hadm.op
  known := by
    intro x o hmark
    have hmem : p ∈ facs ++ [p] := by simp
    rcases marked_place hp hindex h.isElement hmark with
      ⟨hold, -⟩ | ⟨-, y, hy, -, hx⟩ | ⟨-, -, hx⟩
    · exact (h.known x o hold).mono
    · have hyp : y <+: p := hy.trans (List.dropLast_prefix p)
      refine .inr ⟨p, hmem, ?_⟩
      rcases hx with rfl | hx
      · exact .inl hyp
      · exact .inr (.inl ⟨y, hyp, hx⟩)
    · rcases hx with ⟨o', ho'⟩ | rfl | rfl | rfl | rfl
      · exact (h.known x o' ho').mono
      · exact .inr ⟨x, hmem, .inl List.prefix_rfl⟩
      · exact .inr ⟨p, hmem, .inr (.inl ⟨p, List.prefix_rfl, .inl rfl⟩)⟩
      · exact .inr ⟨p, hmem, .inr (.inl ⟨p, List.prefix_rfl, .inr rfl⟩)⟩
      · exact .inr ⟨p, hmem, .inr (.inr rfl)⟩
  indexed := by
    intro q hq
    rcases List.mem_append.mp hq with hq | hq
    · exact reaches_place h.isElement (h.indexed q hq)
    · obtain rfl := List.mem_singleton.mp hq
      exact reaches_place_index hp hindex h.isElement

end Good

/-- Some node at or above the location `q` has a wrong owner. -/
inductive Strays (facs : List Path) : Path → Node → Path → Prop
  | here
      {path q : Path} {n : Node}
      (howner : n.owner ≠ own facs path)
      (hreach : Reaches path n q) :
      Strays facs path n q
  | child
      {path q : Path} {n c : Node} {t : Text}
      (hc : c ∈ n.children)
      (ht : c.href = some t)
      (h : Strays facs (path ++ [t]) c q) :
      Strays facs path n q

section Strays

variable {facs : List Path} {index n m new : Node} {path p q x : Path} {t last : Text}

theorem Strays.reaches
    (h : Strays facs path n q) :
    Reaches path n q := by
  induction h with
  | here howner hreach => exact hreach
  | child hc ht h ih => exact .child hc ht ih

theorem Strays.marked
    (h : Strays facs path n q) :
    ∃ x o, Marked path n x o ∧ o ≠ own facs x := by
  induction h with
  | @here path q n howner hreach => exact ⟨path, n.owner, .here path n, howner⟩
  | child hc ht h ih =>
      obtain ⟨x, o, hmark, ho⟩ := ih
      exact ⟨x, o, .child hc ht hmark, ho⟩

theorem strays_of_reaches
    (h : Reaches path n q)
    (howner : ∀ o, Marked path n q o → o ≠ own facs q) :
    Strays facs path n q := by
  induction h with
  | here path n => exact .here (howner _ (.here path n)) (.here path n)
  | child hc ht h ih => exact .child hc ht (ih fun o ho => howner o (.child hc ht ho))

theorem Strays.of_getAt
    {r : Path}
    (hget : n.getAt r = some m)
    (h : Strays facs (path ++ r) m q) :
    Strays facs path n q :=
  XmlNode.of_getAt (P := fun path n => Strays facs path n q) Strays.child hget h

/-- A facility that owns nothing in the tree yet does not help. -/
theorem Strays.mono
    (h : Strays facs path n q)
    (hout : ∀ x o, Marked path n x o → o ≠ some (devIdOf p)) :
    Strays (facs ++ [p]) path n q := by
  induction h with
  | @here path q n howner hreach =>
      refine .here ?_ hreach
      rcases own_concat facs p path with h | h
      · rwa [h]
      · rw [h]
        exact hout _ _ (.here path n)
  | child hc ht h ih => exact .child hc ht (ih fun x o ho => hout x o (.child hc ht ho))

/-- Stamping a tree with another facility makes the node of a facility a stray. -/
theorem strays_setupFacility
    (hindex : PlainIndex index)
    (hpq : devIdOf p ≠ devIdOf q)
    (hq : q ∈ facs)
    (h : Reaches path n q) :
    Strays facs path (setupFacility (devIdOf p) index n) q := by
  refine strays_of_reaches (reaches_setupFacility h) ?_
  intro o ho
  obtain ⟨rfl, -⟩ := marked_setupFacility hindex ho
  rw [own_self hq]
  simpa using hpq

/-- A child that is replaced. -/
theorem Strays.of_replaced
    {n' c c' : Node} {pre post : List Node}
    (h : Strays facs path n q)
    (howner : n'.owner = n.owner)
    (hn : n.children = pre ++ c :: post)
    (hn' : n'.children = pre ++ c' :: post)
    (hc : c.href = some t)
    (hc' : c'.href = some t)
    (hlong : ¬ p <+: path)
    (hout : ∀ x o, Marked path n x o → o ≠ some (devIdOf p))
    (hreach : Reaches path n q → Reaches path n' q)
    (hsub : Strays facs (path ++ [t]) c q → Strays (facs ++ [p]) (path ++ [t]) c' q) :
    Strays (facs ++ [p]) path n' q := by
  cases h with
  | here hne hr =>
      refine .here ?_ (hreach hr)
      rwa [howner, own_of_not_isPrefix hlong]
  | @child _ _ _ d u hd hu h =>
      have hkeep := h.mono fun x o ho => hout x o (.child hd hu ho)
      rw [hn] at hd
      rcases List.mem_append.mp hd with hd | hd
      · exact .child (by simp [hn', hd]) hu hkeep
      · rcases List.mem_cons.mp hd with rfl | hd
        · obtain rfl : u = t := Option.some.inj (hu.symm.trans hc)
          exact .child (by simp [hn']) hc' (hsub h)
        · exact .child (by simp [hn', hd]) hu hkeep

theorem not_isPrefix_of_append
    {r s : Path}
    (hr : path ++ s = r)
    (hs : s ≠ []) :
    ¬ r <+: path := by
  intro hpre
  have hlen := hpre.length_le
  have hpos := List.length_pos_iff.mpr hs
  rw [← hr, List.length_append] at hlen
  omega

theorem Strays.modifyAt
    {r : Path}
    (hindex : PlainIndex index)
    (hr : path ++ p = r)
    (hget : n.getAt p = some m)
    (hq : q ∈ facs)
    (hrq : devIdOf r ≠ devIdOf q)
    (hout : ∀ x o, Marked path n x o → o ≠ some (devIdOf r))
    (h : Strays facs path n q) :
    Strays (facs ++ [r]) path (modifyAt (setupFacility (devIdOf r) index) p n) q := by
  induction p generalizing n path with
  | nil => exact strays_setupFacility hindex hrq (List.mem_append_left _ hq) h.reaches
  | cons t rest ih =>
      obtain ⟨c, hc, hrest⟩ := Option.bind_eq_some_iff.mp hget
      have ht : c.href = some t := hasHref_iff.mp (List.find?_some hc)
      have hmem : c ∈ n.children := List.mem_of_find?_eq_some hc
      have hlong : ¬ r <+: path := not_isPrefix_of_append hr (by simp)
      rcases modifyFirst_cases (hasHref t) (XmlNode.modifyAt (setupFacility (devIdOf r) index) rest)
          n.children with ⟨hnone, -⟩ | ⟨pre, c', post, hsplit, hfind, hmod⟩
      · rw [childAt_eq, hnone] at hc
        cases hc
      · obtain rfl : c' = c := Option.some.inj (hfind.symm.trans hc)
        refine h.of_replaced (owner_modifyAt_cons n) hsplit
          ((children_modifyAt_cons n).trans hmod) ht
          ((href_modifyAt href_setupFacility rest c').trans ht) hlong hout
          (fun hreach => hreach.modifyAt href_setupFacility fun _ _ _ => reaches_setupFacility) ?_
        exact ih (by simpa using hr) hrest fun x o ho => hout x o (.child hmem ht ho)

theorem Strays.ensureAt
    {r : Path} {stub : Node}
    (hr : path ++ p ++ [last] = r)
    (hn : n.isElement = true)
    (hout : ∀ x o, Marked path n x o → o ≠ some (devIdOf r))
    (h : Strays facs path n q) :
    Strays (facs ++ [r]) path (ensureAt stub (addChild new) p n) q := by
  induction p generalizing n path with
  | nil =>
      have hlong : ¬ r <+: path := not_isPrefix_of_append (by simpa using hr) (List.cons_ne_nil _ _)
      cases h with
      | here hne hreach =>
          refine .here ?_ hreach.addChild
          rwa [ensureAt, owner_addChild, own_of_not_isPrefix hlong]
      | child hc ht h =>
          exact .child (mem_addChild hc) ht (h.mono fun x o ho => hout x o (.child hc ht ho))
  | cons t rest ih =>
      have hlong : ¬ r <+: path :=
        not_isPrefix_of_append (by simpa using hr) (List.cons_ne_nil t (rest ++ [last]))
      rcases ensureAt_cons_cases stub (addChild new) t rest hn with
        ⟨pre, c, post, hsplit, hget, ht, hchildren⟩ | ⟨-, hchildren⟩
      · have hmem : c ∈ n.children := by simp [hsplit]
        have hout' : ∀ x o, Marked (path ++ [t]) c x o → o ≠ some (devIdOf r) :=
          fun x o ho => hout x o (.child hmem ht ho)
        refine h.of_replaced (owner_ensureAt_cons n) hsplit hchildren ht
          ((href_ensureAt stub new rest c).trans ht) hlong hout (Reaches.ensureAt hn) ?_
        exact ih (by simpa using hr) (isElement_of_href ht) hout'
      · cases h with
        | here hne hreach =>
            refine .here ?_ (hreach.ensureAt hn)
            rwa [owner_ensureAt_cons, own_of_not_isPrefix hlong]
        | child hc ht h =>
            exact .child (by simp [hchildren, hc]) ht
              (h.mono fun x o ho => hout x o (.child hc ht ho))

end Strays

/-- The history lobby after a creation that was not admissible. -/
structure Bad (facs : List Path) (lobby : Node) : Prop where
  isElement : lobby.isElement = true
  owners : ∀ x o, Marked [] lobby x o → o = none ∨ ∃ q ∈ facs, o = some (devIdOf q)
  strays : ∃ q ∈ facs, Strays facs [] lobby q

section Bad

variable {facs : List Path} {lobby index : Node} {p q x y : Path} {o : Option Text}

/-- The owners after a creation. -/
theorem owners_place
    (hp : p ≠ [])
    (hindex : PlainIndex index)
    (hlobby : lobby.isElement = true)
    (howners : ∀ x o, Marked [] lobby x o → o = none ∨ ∃ q ∈ facs, o = some (devIdOf q))
    (h : Marked [] (place p index lobby) x o) :
    o = none ∨ ∃ q ∈ facs ++ [p], o = some (devIdOf q) := by
  rcases marked_place hp hindex hlobby h with ⟨hold, -⟩ | ⟨rfl, -⟩ | ⟨rfl, -⟩
  · rcases howners x o hold with ho | ⟨q, hq, ho⟩
    · exact .inl ho
    · exact .inr ⟨q, List.mem_append_left _ hq, ho⟩
  · exact .inl rfl
  · exact .inr ⟨p, by simp, rfl⟩

/-- A wrong owner is never put right: whoever stamps the node stamps the node of the
facility below it as well. -/
theorem Bad.place
    (h : Bad facs lobby)
    (hfacs : ∀ q ∈ facs, DevicePath q)
    (hp : DevicePath p)
    (hnew : p ∉ facs)
    (hindex : PlainIndex index) :
    Bad (facs ++ [p]) (place p index lobby) := by
  have hne : ∀ q ∈ facs, devIdOf p ≠ devIdOf q := by
    intro q hq heq
    exact hnew (devIdOf_inj hp (hfacs q hq) heq ▸ hq)
  have hout : ∀ x o, Marked [] lobby x o → o ≠ some (devIdOf p) := by
    intro x o ho
    rcases h.owners x o ho with rfl | ⟨q, hq, rfl⟩
    · simp
    · simpa using (hne q hq).symm
  obtain ⟨q, hq, hstrays⟩ := h.strays
  refine ⟨(isElement_place hp.ne_nil).trans h.isElement, ?_, q, List.mem_append_left _ hq, ?_⟩
  · exact fun x o => owners_place hp.ne_nil hindex h.isElement h.owners
  · cases hget : lobby.getAt p with
    | some node =>
        rw [place_of_some hget]
        exact hstrays.modifyAt hindex rfl hget hq (hne q hq) hout
    | none =>
        rw [place_of_none hget]
        exact hstrays.ensureAt (dropLast_append_getLastD hp.ne_nil) h.isElement hout

/-- An ancestor that is created where there is an owner. -/
theorem strays_of_missing
    {path ts : Path} {n new : Node} {last : Text}
    (hnew : new.href = some last)
    (hn : n.isElement = true)
    (hmissing : n.getAt ts = none)
    (howned : ∀ y, y <+: ts → n.getAt y = none → own facs (path ++ y) ≠ none) :
    Strays facs path (ensureAt histDevStub (addChild new) ts n) (path ++ ts ++ [last]) := by
  induction ts generalizing n path with
  | nil => cases hmissing
  | cons t rest ih =>
      have hassoc : path ++ t :: rest ++ [last] = path ++ [t] ++ rest ++ [last] := by simp
      rw [hassoc]
      rcases ensureAt_cons_cases histDevStub (addChild new) t rest hn with
        ⟨pre, c, post, hsplit, hget, ht, hchildren⟩ | ⟨hnone, hchildren⟩
      · have hgetc : ∀ y, n.getAt (t :: y) = c.getAt y := by
          intro y
          rw [getAt_cons, hget]
          rfl
        have ht' := (href_ensureAt histDevStub new rest c).trans ht
        refine .child (by simp [hchildren]) ht'
          (ih (isElement_of_href ht) ((hgetc rest).symm.trans hmissing) ?_)
        intro y hy hgone
        rw [List.append_assoc]
        exact howned (t :: y) (List.cons_prefix_cons.mpr ⟨rfl, hy⟩) ((hgetc y).trans hgone)
      · have ht' := (href_ensureAt histDevStub new rest (histDevStub.setProp attrHref t)).trans
            (href_setProp_href isElement_histDevStub t)
        refine .child (by simp [hchildren]) ht' (.here ?_ ?_)
        · rw [owner_ensureAt, owner_stub]
          have hgone : n.getAt [t] = none := by
            rw [getAt_cons, hnone]
            rfl
          exact (howned [t] (by simp) hgone).symm
        · exact reaches_ensureAt isElement_histDevStub hnew rfl (.here _ _)

/-- The operation of a stub that stands where the node of a facility is put. -/
theorem strays_of_op
    {path ts : Path} {n new : Node} {last : Text}
    (hn : n.isElement = true)
    (hop : last = opQuery ∨ last = opAppend)
    (hcreates : creates histDevStub ts n = true)
    (howned : own facs (path ++ ts ++ [last]) ≠ none) :
    Strays facs path (ensureAt histDevStub (addChild new) ts n) (path ++ ts ++ [last]) := by
  induction ts generalizing n path with
  | nil => cases hcreates
  | cons t rest ih =>
      have hassoc : path ++ t :: rest ++ [last] = path ++ [t] ++ rest ++ [last] := by simp
      rw [hassoc] at howned ⊢
      rcases ensureAt_cons_cases histDevStub (addChild new) t rest hn with
        ⟨pre, c, post, hsplit, hget, ht, hchildren⟩ | ⟨hnone, hchildren⟩
      · have ht' := (href_ensureAt histDevStub new rest c).trans ht
        rw [creates_of_some hget] at hcreates
        exact .child (by simp [hchildren]) ht' (ih (isElement_of_href ht) hcreates howned)
      · have ht' := (href_ensureAt histDevStub new rest (histDevStub.setProp attrHref t)).trans
            (href_setProp_href isElement_histDevStub t)
        refine .child (by simp [hchildren]) ht' ?_
        cases rest with
        | nil =>
            obtain ⟨c, hc, hlast⟩ := exists_stub_child t hop
            obtain ⟨-, howner, -⟩ := stub_child hc
            rw [List.append_nil] at howned ⊢
            refine .child (mem_addChild hc) hlast (.here ?_ (.here _ _))
            rw [howner]
            exact howned.symm
        | cons u rest =>
            simp only [creates, hnone, Option.getD_none] at hcreates
            exact ih rfl hcreates howned

theorem Good.owners
    (h : Good facs lobby)
    (hmark : Marked [] lobby x o) :
    o = none ∨ ∃ q ∈ facs, o = some (devIdOf q) := by
  rw [h.owned x o hmark, own]
  cases hn : nearest facs x with
  | none => exact .inl rfl
  | some q => exact .inr ⟨q, (mem_of_nearest hn).1, rfl⟩

/-- A creation above a facility. -/
theorem strays_place_below
    (h : Good facs lobby)
    (hindex : PlainIndex index)
    (hq : q ∈ facs)
    (hpq : p <+: q)
    (hne : devIdOf p ≠ devIdOf q) :
    Strays (facs ++ [p]) [] (place p index lobby) q := by
  obtain ⟨node, hnode⟩ := h.found hq
  obtain ⟨r, rfl⟩ := hpq
  rw [getAt_append] at hnode
  obtain ⟨m, hm, hr⟩ := Option.bind_eq_some_iff.mp hnode
  rw [place_of_some hm]
  refine Strays.of_getAt (getAt_modifyAt href_setupFacility hm) ?_
  exact strays_setupFacility hindex hne (List.mem_append_left _ hq)
    (Reaches.of_getAt hr (.here _ _))

/-- A creation below a facility whose parent is missing. -/
theorem strays_place_above
    (h : Good facs lobby)
    (hp : p ≠ [])
    (hmissing : lobby.getAt p.dropLast = none)
    (hq : q ∈ facs)
    (hqp : q <+: p) :
    Strays (facs ++ [p]) [] (place p index lobby) p := by
  have hstrays := @strays_of_missing (facs ++ [p]) [] _ _ _ _ (href_newNode p index) h.isElement
    hmissing
  rw [List.nil_append, dropLast_append_getLastD hp] at hstrays
  rw [place_of_none (getAt_eq_none_of_isPrefix hmissing (List.dropLast_prefix p))]
  refine hstrays ?_
  intro y hy hnone
  -- the facility is there, the ancestor is not
  have hqy : q <+: y := by
    rcases List.prefix_or_prefix_of_prefix hqp (hy.trans (List.dropLast_prefix p)) with hqy | hyq
    · exact hqy
    · obtain ⟨node, hnode⟩ := h.found hq
      rw [getAt_eq_none_of_isPrefix hnone hyq] at hnode
      cases hnode
  obtain ⟨r, hr, -⟩ := exists_nearest (List.mem_append_left [p] hq) hqy
  rw [List.nil_append, own, hr]
  simp

/-- A creation at an operation of a new stub. -/
theorem strays_place_op
    (h : Good facs lobby)
    (hp : p ≠ [])
    (hcreates : creates histDevStub p.dropLast lobby = true)
    (hop : p.getLastD [] = opQuery ∨ p.getLastD [] = opAppend) :
    Strays (facs ++ [p]) [] (place p index lobby) p := by
  have hgone := getAt_eq_none_of_isPrefix (getAt_of_creates hcreates) (List.dropLast_prefix p)
  have hstrays := @strays_of_op (facs ++ [p]) [] _ _ (newNode p index) _ h.isElement hop hcreates
  rw [List.nil_append, dropLast_append_getLastD hp] at hstrays
  rw [place_of_none hgone]
  refine hstrays ?_
  rw [own_self (by simp)]
  simp

/-- A creation that is not admissible. -/
theorem bad_of_not_admissible
    (h : Good facs lobby)
    (hfacs : ∀ q ∈ facs, DevicePath q)
    (hp : DevicePath p)
    (hnew : p ∉ facs)
    (hindex : PlainIndex index)
    (hadm : ¬ Admissible facs lobby p) :
    Bad (facs ++ [p]) (place p index lobby) := by
  refine ⟨(isElement_place hp.ne_nil).trans h.isElement, ?_, ?_⟩
  · exact fun x o => owners_place hp.ne_nil hindex h.isElement fun x o => h.owners
  · by_cases hbelow : ∀ q ∈ facs, ¬ p <+: q
    · by_cases habove : lobby.getAt p.dropLast = none → ∀ q ∈ facs, ¬ q <+: p
      · by_cases hop : creates histDevStub p.dropLast lobby = true →
            p.getLastD [] ≠ opQuery ∧ p.getLastD [] ≠ opAppend
        · exact absurd ⟨hbelow, habove, hop⟩ hadm
        · push Not at hop
          obtain ⟨hcreates, hlast⟩ := hop
          refine ⟨p, by simp, strays_place_op h hp.ne_nil hcreates ?_⟩
          by_cases hquery : p.getLastD [] = opQuery
          · exact .inl hquery
          · exact .inr (hlast hquery)
      · push Not at habove
        obtain ⟨hmissing, q, hq, hqp⟩ := habove
        exact ⟨p, by simp, strays_place_above h hp.ne_nil hmissing hq hqp⟩
    · push Not at hbelow
      obtain ⟨q, hq, hpq⟩ := hbelow
      refine ⟨q, List.mem_append_left _ hq, strays_place_below h hindex hq hpq ?_⟩
      intro heq
      exact hnew (devIdOf_inj hp (hfacs q hq) heq ▸ hq)

end Bad

/-- A creation of a facility: its path and the document in its index file. -/
structure Creation where
  path : Path
  index : Node
  isPath : DevicePath path
  plain : PlainIndex index

/-- Create facilities one after the other. -/
def createAll : List Creation → HistSys → Option HistSys
  | [], sys => some sys
  | c :: cs, sys => (createFacility c.path c.index sys).bind (createAll cs)

/-- The history lobby afterwards. -/
def lobbyAfter (cs : List Creation) (sys : HistSys) : Option Node :=
  (createAll cs sys).bind fun sys' => sys'.dom.getAt lobbyTokens

/-- Every creation is admissible when it takes place. -/
def InOrder : List Path → List Creation → HistSys → Prop
  | _, [], _ => True
  | facs, c :: cs, sys =>
      (∀ lobby, sys.dom.getAt lobbyTokens = some lobby → Admissible facs lobby c.path) ∧
        ∀ sys', createFacility c.path c.index sys = some sys' →
          InOrder (facs ++ [c.path]) cs sys'

/-- Every node under the lobby is owned by the nearest facility above it.  Then who
reads the index list of a facility is in the region of the facility, as who appends
to it. -/
structure Owned (facs : List Path) (lobby : Node) : Prop where
  nearest : ∀ x o, Marked [] lobby x o → IsOwner facs x o
  index : ∀ q ∈ facs, ∀ o, Marked [] lobby (q ++ [indexHref]) o → o = some (devIdOf q)

/-- The nodes at the same location have the same owner in two trees. -/
def SameOwners (lobby₁ lobby₂ : Node) : Prop :=
  ∀ x o₁ o₂, Marked [] lobby₁ x o₁ → Marked [] lobby₂ x o₂ → o₁ = o₂

/-- The history lobby as in `server_history.xml`: an empty list. -/
def NewLobby (sys : HistSys) : Prop :=
  ∃ lobby, sys.dom.getAt lobbyTokens = some lobby ∧ lobby.owner = none ∧ lobby.children = []

section Runs

variable {facs : List Path} {lobby : Node} {sys : HistSys} {cs : List Creation}

theorem good_new
    (hlobby : sys.dom.getAt lobbyTokens = some lobby)
    (howner : lobby.owner = none)
    (hchildren : lobby.children = []) :
    Good [] lobby := by
  have hmark : ∀ x o, Marked [] lobby x o → x = [] ∧ o = none := by
    intro x o h
    cases h with
    | here => exact ⟨rfl, howner⟩
    | child hc ht h =>
        rw [hchildren] at hc
        cases hc
    | loose hc ht h =>
        rw [hchildren] at hc
        cases hc
  refine ⟨isElement_of_getAt (by simp [lobbyTokens]) hlobby, ?_, ?_, ?_, ?_⟩
  · exact fun x o h => (hmark x o h).2
  · refine ⟨by simp [hchildren], ?_⟩
    intro c hc
    rw [hchildren] at hc
    cases hc
  · exact fun x o h => .inl (hmark x o h).1
  · intro q hq
    cases hq

theorem lobbyAfter_cons
    {c : Creation} {sys' : HistSys}
    (h : createFacility c.path c.index sys = some sys') :
    lobbyAfter (c :: cs) sys = lobbyAfter cs sys' := by
  rw [lobbyAfter, createAll, h]
  rfl

/-- All creations succeed, and each of them changes the lobby. -/
theorem lobbyAfter_eq
    (hlobby : sys.dom.getAt lobbyTokens = some lobby)
    (cs : List Creation) :
    lobbyAfter cs sys = some (cs.foldl (fun l c => place c.path c.index l) lobby) := by
  induction cs generalizing sys lobby with
  | nil => exact hlobby
  | cons c cs ih =>
      obtain ⟨sys', hsys', hlobby'⟩ := createFacility_place c.isPath hlobby
      rw [lobbyAfter_cons hsys']
      exact ih hlobby'

theorem Good.run
    (h : Good facs lobby)
    (hlobby : sys.dom.getAt lobbyTokens = some lobby)
    (horder : InOrder facs cs sys)
    {lobby' : Node}
    (hafter : lobbyAfter cs sys = some lobby') :
    Good (facs ++ cs.map Creation.path) lobby' := by
  induction cs generalizing facs sys lobby with
  | nil =>
      obtain rfl := Option.some.inj (hlobby.symm.trans hafter)
      simpa using h
  | cons c cs ih =>
      obtain ⟨sys', hsys', hlobby'⟩ := createFacility_place c.isPath hlobby
      rw [lobbyAfter_cons hsys'] at hafter
      obtain ⟨hadm, hrest⟩ := horder
      have hgood := h.place c.isPath.ne_nil c.plain (hadm lobby hlobby)
      simpa using ih hgood hlobby' (hrest sys' hsys') hafter

theorem isPath_concat
    (hfacs : ∀ q ∈ facs, DevicePath q)
    (c : Creation) :
    ∀ q ∈ facs ++ [c.path], DevicePath q := by
  intro q hq
  rcases List.mem_append.mp hq with hq | hq
  · exact hfacs q hq
  · obtain rfl := List.mem_singleton.mp hq
    exact c.isPath

theorem path_not_mem
    {c : Creation}
    (hnodup : (facs ++ (c :: cs).map Creation.path).Nodup) :
    c.path ∉ facs := by
  intro hmem
  exact (List.nodup_append.mp hnodup).2.2 _ hmem _ (by simp) rfl

theorem Bad.run
    (h : Bad facs lobby)
    (hfacs : ∀ q ∈ facs, DevicePath q)
    (hnodup : (facs ++ cs.map Creation.path).Nodup)
    (hlobby : sys.dom.getAt lobbyTokens = some lobby)
    {lobby' : Node}
    (hafter : lobbyAfter cs sys = some lobby') :
    Bad (facs ++ cs.map Creation.path) lobby' := by
  induction cs generalizing facs sys lobby with
  | nil =>
      obtain rfl := Option.some.inj (hlobby.symm.trans hafter)
      simpa using h
  | cons c cs ih =>
      obtain ⟨sys', hsys', hlobby'⟩ := createFacility_place c.isPath hlobby
      rw [lobbyAfter_cons hsys'] at hafter
      have hbad := h.place hfacs c.isPath (path_not_mem hnodup) c.plain
      simpa using ih hbad (isPath_concat hfacs c) (by simpa using hnodup) hlobby' hafter

/-- One creation out of order spoils the lobby for good. -/
theorem bad_of_not_inOrder
    (h : Good facs lobby)
    (hfacs : ∀ q ∈ facs, DevicePath q)
    (hnodup : (facs ++ cs.map Creation.path).Nodup)
    (hlobby : sys.dom.getAt lobbyTokens = some lobby)
    (horder : ¬ InOrder facs cs sys)
    {lobby' : Node}
    (hafter : lobbyAfter cs sys = some lobby') :
    Bad (facs ++ cs.map Creation.path) lobby' := by
  induction cs generalizing facs sys lobby with
  | nil => exact absurd trivial horder
  | cons c cs ih =>
      obtain ⟨sys', hsys', hlobby'⟩ := createFacility_place c.isPath hlobby
      rw [lobbyAfter_cons hsys'] at hafter
      have hnodup' : (facs ++ [c.path] ++ cs.map Creation.path).Nodup := by simpa using hnodup
      by_cases hadm : Admissible facs lobby c.path
      · have hrest : ¬ InOrder (facs ++ [c.path]) cs sys' := by
          intro hin
          refine horder ⟨?_, ?_⟩
          · intro l hl
            obtain rfl := Option.some.inj (hlobby.symm.trans hl)
            exact hadm
          · intro s hs
            obtain rfl := Option.some.inj (hsys'.symm.trans hs)
            exact hin
        have hgood := h.place c.isPath.ne_nil c.plain hadm
        simpa using ih hgood (isPath_concat hfacs c) hnodup' hlobby' hrest hafter
      · have hbad := bad_of_not_admissible h hfacs c.isPath (path_not_mem hnodup) c.plain hadm
        simpa using hbad.run (isPath_concat hfacs c) hnodup' hlobby' hafter

theorem Good.owned_iff
    (h : Good facs lobby)
    (hfacs : ∀ q ∈ facs, DevicePath q) :
    Owned facs lobby ↔ ∀ q ∈ facs, q ++ [indexHref] ∉ facs := by
  constructor
  · intro howned q hq hmem
    obtain ⟨o, ho⟩ := (h.indexed q hq).marked
    have hown := h.owned _ _ ho
    rw [howned.index q hq o ho, own_self hmem] at hown
    have heq := devIdOf_inj (hfacs q hq) (hfacs _ hmem) (Option.some.inj hown)
    simpa using congrArg List.length heq
  · intro hindex
    refine ⟨fun x o ho => isOwner_iff.mpr (h.owned x o ho), ?_⟩
    intro q hq o ho
    rw [h.owned _ _ ho, own, nearest_below hq (hindex q hq)]
    rfl

theorem Bad.not_owned
    (h : Bad facs lobby) :
    ¬ Owned facs lobby := by
  intro howned
  obtain ⟨q, -, hstrays⟩ := h.strays
  obtain ⟨x, o, hmark, ho⟩ := hstrays.marked
  exact ho (isOwner_iff.mp (howned.nearest x o hmark))

/-- Whatever the order of the creations, they succeed; and every node is owned by the
nearest facility exactly when every creation was admissible and no facility has the
place of the index list of another one.  Two such orders lead to the same owners. -/
theorem owned_iff_inOrder
    (cs : List Creation)
    (sys : HistSys)
    (hnew : NewLobby sys)
    (hnodup : (cs.map Creation.path).Nodup) :
    ∃ lobby, lobbyAfter cs sys = some lobby ∧
      (Owned (cs.map Creation.path) lobby ↔
        InOrder [] cs sys ∧
          ∀ q ∈ cs.map Creation.path, q ++ [indexHref] ∉ cs.map Creation.path) ∧
      (InOrder [] cs sys → ∀ cs₂ lobby₂, (cs₂.map Creation.path).Perm (cs.map Creation.path) →
        InOrder [] cs₂ sys → lobbyAfter cs₂ sys = some lobby₂ → SameOwners lobby lobby₂) := by
  obtain ⟨lobby₀, hlobby, howner, hchildren⟩ := hnew
  obtain ⟨lobby, hafter⟩ : ∃ lobby, lobbyAfter cs sys = some lobby :=
    ⟨_, lobbyAfter_eq hlobby cs⟩
  have hgood := good_new hlobby howner hchildren
  have hpaths : ∀ q ∈ cs.map Creation.path, DevicePath q := by
    intro q hq
    obtain ⟨c, -, rfl⟩ := List.mem_map.mp hq
    exact c.isPath
  refine ⟨lobby, hafter, ⟨?_, ?_⟩, ?_⟩
  · intro howned
    by_cases horder : InOrder [] cs sys
    · have hgood' := hgood.run hlobby horder hafter
      rw [List.nil_append] at hgood'
      exact ⟨horder, (hgood'.owned_iff hpaths).mp howned⟩
    · have hbad := bad_of_not_inOrder hgood (by simp) hnodup hlobby horder hafter
      exact absurd howned hbad.not_owned
  · rintro ⟨horder, hindex⟩
    have hgood' := hgood.run hlobby horder hafter
    rw [List.nil_append] at hgood'
    exact (hgood'.owned_iff hpaths).mpr hindex
  · intro horder cs₂ lobby₂ hperm horder₂ hafter₂ x o₁ o₂ h₁ h₂
    have h₁ := isOwner_iff.mpr ((hgood.run hlobby horder hafter).owned x o₁ h₁)
    have h₂ := isOwner_iff.mpr ((hgood.run hlobby horder₂ hafter₂).owned x o₂ h₂)
    exact h₁.unique (fun q => hperm.mem_iff) h₂

end Runs

/-- The creation of a facility by History.Get. -/
def Creation.get (p : Path) (h : DevicePath p) : Creation where
  path := p
  index := histIndexSkeleton
  isPath := h
  plain := plainIndex_skeleton

def creationA : Creation :=
  .get ["a".toList] ⟨by decide, by unfold IsToken; decide, by unfold IsToken; decide⟩

def creationAB : Creation :=
  .get ["a".toList, "b".toList] ⟨by decide, by unfold IsToken; decide, by unfold IsToken; decide⟩

/-- The history lobby of a server without any history facility. -/
def newLobby : Node := .element none objList [(attrHref, "histories".toList)] []

theorem getAt_newHistSys : newHistSys.dom.getAt lobbyTokens = some newLobby := rfl

theorem inOrder_parent_first : InOrder [] [creationA, creationAB] newHistSys := by
  refine ⟨?_, ?_⟩
  · intro lobby _
    exact ⟨by simp, by simp, fun h => by cases h⟩
  · intro sys' hsys'
    refine ⟨?_, fun _ _ => trivial⟩
    intro lobby hlobby
    have hafter := lobbyAfter_eq getAt_newHistSys [creationA]
    rw [lobbyAfter_cons hsys'] at hafter
    obtain rfl := Option.some.inj (hlobby.symm.trans hafter)
    exact ⟨by decide, fun h => absurd h (by decide +kernel), fun h => absurd h (by decide +kernel)⟩

/-- The parent first. -/
theorem owned_parent_first :
    ∃ lobby, lobbyAfter [creationA, creationAB] newHistSys = some lobby ∧
      Owned [["a".toList], ["a".toList, "b".toList]] lobby := by
  obtain ⟨lobby, hafter, howned, -⟩ := owned_iff_inOrder [creationA, creationAB] newHistSys
    ⟨newLobby, getAt_newHistSys, rfl, rfl⟩ (by decide)
  exact ⟨lobby, hafter, howned.mpr ⟨inOrder_parent_first, by decide⟩⟩

/-- The child first: its node belongs to its parent afterwards. -/
theorem not_owned_child_first :
    ∃ lobby, lobbyAfter [creationAB, creationA] newHistSys = some lobby ∧
      ¬ Owned [["a".toList, "b".toList], ["a".toList]] lobby := by
  refine ⟨_, lobbyAfter_eq getAt_newHistSys _, ?_⟩
  intro howned
  have hfound : ((place creationA.path creationA.index
      (place creationAB.path creationAB.index newLobby)).getAt creationAB.path).map owner =
      some (some "a".toList) := by
    decide +kernel
  obtain ⟨node, hnode, howner⟩ := Option.map_eq_some_iff.mp hfound
  have hown := isOwner_iff.mp (howned.nearest _ _ (Marked.of_getAt hnode (.here _ _)))
  rw [howner] at hown
  exact absurd hown (by decide +kernel)

end History
end Obix
