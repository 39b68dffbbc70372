import Obix.Device.Territory
import Obix.Xml.Nested

/-!
# Devices and their nodes, level by level

As long as no device is signed up at a href that has a node in its parent already, the parent of a
device is the nearest device above it, and the nodes of a device begin among those of its parent
(`Nesting`).  The way to a device leads from the node of its parent through nodes of that one.
This is why a href that has no node is above no other device (`Nesting.not_above`).
-/

namespace Obix
namespace Devices

open CString XmlNode

namespace Registry

variable (s : Registry)

/-- The parent of a device. -/
def up (i : Nat) : Option Nat := (s.heap i).bind ObixDev.parent

/-- How far a device is from the root. -/
def depth (i : Nat) : Nat := ((s.heap i).map fun dev => (tokens '/' dev.href).length).getD 0

end Registry

/-- The devices are arranged by their hrefs, and so are their nodes. -/
structure Nesting (s : Registry) : Prop where
  placed : Placed s
  hierarchy : Hierarchy s
  nested : Nested s.up s.dom
  present : ∀ i dev, s.heap i = some dev → s.dom.ownNode i ≠ none
  seated : ∀ j f q e, s.heap j = some f → f.parent = some q → s.heap q = some e →
    ∃ p t, tokens '/' f.href = tokens '/' e.href ++ p ++ [t] ∧ Seated q p s.dom

section Facts

variable {s t : Registry} {i p : Nat} {dev parent : ObixDev} {a : AddArgs}

theorem Registry.up_of_heap
    (h : s.heap i = some dev) :
    s.up i = dev.parent := by
  rw [up, h]
  rfl

theorem Registry.up_eq_some :
    s.up i = some p ↔ ∃ dev, s.heap i = some dev ∧ dev.parent = some p :=
  Option.bind_eq_some_iff

/-- Whoever has a node is registered. -/
theorem Placed.live
    (h : Placed s)
    (hi : s.dom.ownNode i ≠ none) :
    ∃ dev, s.heap i = some dev := by
  refine Option.ne_none_iff_exists'.mp fun hnone => hi (h.settled.gone i ?_)
  rw [Registry.place, hnone]
  rfl

/-- A device is farther from the root than its parent. -/
theorem Nesting.depth_lt
    (h : Nesting s)
    (hup : s.up i = some p) :
    s.depth p < s.depth i := by
  obtain ⟨dev, hdev, hp⟩ := Registry.up_eq_some.mp hup
  obtain ⟨e, he⟩ := h.placed.linked.parent_live hdev hp
  obtain ⟨⟨hpre, hne⟩, -⟩ := h.hierarchy.nearest i dev p e hdev hp he
  rw [Registry.depth, Registry.depth, hdev, he]
  exact lt_of_le_of_ne hpre.length_le fun hlen => hne (hpre.eq_of_length hlen)

/-- A device with an empty list of children is nobody's parent. -/
theorem Linked.leaf
    (h : Linked s)
    (hdev : s.heap i = some dev)
    (hchildren : dev.children = []) :
    ∀ d, s.up d ≠ some i := by
  intro d hup
  obtain ⟨f, hf, hp⟩ := Registry.up_eq_some.mp hup
  have hd : d ≠ deviceRoot := by
    rintro rfl
    obtain ⟨root, hr, hnone, -⟩ := h.root
    obtain rfl := Option.some.inj (hf.symm.trans hr)
    rw [hnone] at hp
    cases hp
  obtain ⟨q, e, hq, he, hmem⟩ := h.parent d f hf hd
  obtain rfl := Option.some.inj (hq.symm.trans hp)
  obtain rfl := Option.some.inj (he.symm.trans hdev)
  rw [hchildren] at hmem
  cases hmem

/-- The node of a device has a href. -/
theorem Nesting.own
    {own : XmlNode Nat}
    (h : Nesting s)
    (hown : s.dom.ownNode i = some own) :
    Nested s.up own ∧ own.isElement = true := by
  obtain ⟨hnested, hhref⟩ := h.nested.own s.dom hown
  refine ⟨hnested, ?_⟩
  obtain ⟨t, ht⟩ := Option.ne_none_iff_exists'.mp (hhref (by rw [h.placed.settled.top]; simp))
  exact isElement_of_href ht

/-- A node is found at a href that the way down from a device leads to. -/
theorem deviceGetNodeCore_of_getAt
    {href : Text} {own m : XmlNode Nat}
    (hown : s.dom.ownNode i = some own)
    (hget : own.getAt (Registry.nodePath dev href) = some m)
    (hne : Registry.nodePath dev href ≠ []) :
    s.deviceGetNodeCore i dev href = some m := by
  rw [Registry.deviceGetNodeCore, hown, Option.bind_some]
  rw [Registry.nodePath] at hget hne
  split
  · rename_i hid
    exact absurd (if_pos hid) hne
  · rename_i hid
    rw [if_neg hid] at hget hne
    obtain ⟨u, us, hus⟩ := List.exists_cons_of_ne_nil hne
    rw [xmldbGetNodeCore, forEachStrToken]
    rw [hus] at hget ⊢
    exact hget

/-- A href at which its parent has no node is above no device. -/
theorem Nesting.not_above
    (h : Nesting s)
    (hpath : ∃ ts, IsPath a.href ts ∧ rootTokens <+: ts)
    (hroot : isDeviceRootHref a.href = false)
    (hlive : s.heap p = some parent)
    (hnear : NearestAbove s parent a.href)
    (hsingle : childWith s parent a.href = none)
    (hnode : s.deviceGetNodeCore p parent a.href = none)
    (n : Nat) :
    ∀ j f, s.heap j = some f → (tokens '/' f.href).length ≤ n → ¬ IsAbove a.href f.href := by
  have hs := h.placed.linked
  have hx := h.placed.indexed
  obtain ⟨ts, hts, hrootTokens⟩ := hpath
  -- by induction on the length of the href, from parent to child
  induction n with
  | zero =>
      rintro j f hf hlen ⟨hpre, hne⟩
      rw [List.length_eq_zero_iff.mp (Nat.le_zero.mp hlen)] at hpre hne
      exact hne (List.prefix_nil.mp hpre)
  | succ n ih =>
      rintro j f hf hlen ⟨hpre, hne⟩
      have hj : j ≠ deviceRoot := by
        rintro rfl
        obtain ⟨root, hr, -, hhref, -⟩ := hs.root
        obtain rfl := Option.some.inj (hf.symm.trans hr)
        rw [hhref, isPath_deviceRootHref.tokens, hts.tokens] at hpre hne
        exact hne (hpre.eq_of_length (le_antisymm hpre.length_le hrootTokens.length_le))
      obtain ⟨q, e, hq, he, -⟩ := hs.parent j f hf hj
      obtain ⟨⟨hqpre, hqne⟩, hqmax⟩ := h.hierarchy.nearest j f q e hf hq he
      by_cases hae : tokens '/' a.href <+: tokens '/' e.href
      · -- the parent of the device is not above the href
        have hlt : (tokens '/' e.href).length < (tokens '/' f.href).length :=
          lt_of_le_of_ne hqpre.length_le fun hlen => hqne (hqpre.eq_of_length hlen)
        refine ih q e he (by omega) ⟨hae, fun heq => ?_⟩
        obtain ⟨us, hus, -⟩ := hx.path q e he
        have hid := h.hierarchy.not_identical hs ⟨ts, hts, hrootTokens⟩ hroot hlive hnear hsingle he
        rw [(hts.isStrIdentical_iff hus).mpr (by rw [← hts.tokens, heq, hus.tokens])] at hid
        cases hid
      · -- the parent of the device is the nearest above the href as well
        have hea : tokens '/' e.href <+: tokens '/' a.href :=
          (List.prefix_or_prefix_of_prefix hpre hqpre).resolve_left hae
        have hle := hnear.2 q e he ⟨hea, fun heq => hae (heq ▸ List.prefix_rfl)⟩
        have hge := hqmax p parent hlive ⟨hnear.1.1.trans hpre, fun heq => ?_⟩
        · have htokens := hle.eq_of_length (le_antisymm hle.length_le hge.length_le)
          obtain rfl : q = p := hx.eq_of_tokens he hlive htokens
          obtain rfl := Option.some.inj (he.symm.trans hlive)
          obtain ⟨r, t, hr, own, hown, hway⟩ := h.seated j f q e hf hq he
          -- so that the href is on the way to the device
          have hdown := nodePath_of_isPath hx hts hlive (hts.tokens ▸ hea)
          rw [← hts.tokens] at hdown
          rw [← hdown, hr, List.append_assoc, List.prefix_append_right_inj] at hpre
          rw [← hdown, hr, List.append_assoc] at hne
          have hle := (List.prefix_concat_iff.mp hpre).resolve_left fun heq => hne (by rw [heq])
          obtain ⟨m, hm⟩ := hway.getAt
          obtain ⟨k, hk⟩ := getAt_of_isPrefix hm hle
          rw [deviceGetNodeCore_of_getAt hown hk] at hnode
          · cases hnode
          · intro hnil
            rw [hnil, List.append_nil] at hdown
            exact hnear.1.2 hdown
        · -- the parent of the href is above it
          have hlen := hpre.length_le
          rw [← heq] at hlen
          exact hnear.1.2 (hnear.1.1.eq_of_length (le_antisymm hnear.1.1.length_le hlen))

/-- The devices are the same, and so are the ways. -/
theorem Nesting.of_dom
    (h : Nesting s)
    (ht : Placed t)
    (hheap : t.heap = s.heap)
    (hnested : Nested s.up s.dom → Nested s.up t.dom)
    (hseat : ∀ q e, s.heap q = some e → KeepsSeat q s.dom t.dom) :
    Nesting t where
  placed := ht
  hierarchy := h.hierarchy.of_back ht.indexed fun j f hj => ⟨f, hheap ▸ hj, rfl, rfl⟩
  nested := by
    have hup : t.up = s.up := by
      funext i
      rw [Registry.up, Registry.up, hheap]
    rw [hup]
    exact hnested h.nested
  present := by
    intro i dev hdev
    rw [hheap] at hdev
    exact seated_nil.mp ((hseat i dev hdev).seated [] (seated_nil.mpr (h.present i dev hdev)))
  seated := by
    intro j f q e hf hq he
    rw [hheap] at hf he
    obtain ⟨p, u, htokens, hway⟩ := h.seated j f q e hf hq he
    exact ⟨p, u, htokens, (hseat q e he).seated p hway⟩

end Facts

section Mount

variable {a : AddArgs} {s t : Registry} {p : Nat} {parent child : ObixDev}

/-- The parents after a device has been mounted. -/
theorem up_deviceMount
    (hs : Linked s)
    (hlive : s.heap p = some parent)
    (j : Nat) :
    (deviceMount a p parent child s).up j = if j = s.next then some p else s.up j := by
  have hne : p ≠ s.next := by
    rintro rfl
    rw [hs.fresh s.next le_rfl] at hlive
    cases hlive
  rw [Registry.up, heap_deviceMount hs hlive]
  by_cases hjp : j = p
  · rw [if_pos hjp, if_neg (hjp ▸ hne), hjp, Registry.up_of_heap hlive]
    rfl
  · rw [if_neg hjp]
    by_cases hj : j = s.next
    · rw [if_pos hj, if_pos hj]
      rfl
    · rw [if_neg hj, if_neg hj]
      rfl

theorem href_adopt (i : Nat) (x : Xml) : (adopt i x).href = x.href := by
  cases x <;> rfl

/-- The way from the node of the parent down to the node that a device is mounted at. -/
theorem Nesting.way_to_mount
    {own m : XmlNode Nat}
    (h : Nesting s)
    (hpath : ∃ ts, IsPath a.href ts ∧ rootTokens <+: ts)
    (hlive : s.heap p = some parent)
    (hnear : NearestAbove s parent a.href)
    (hown : s.dom.ownNode p = some own)
    (hget : own.getAt (Registry.nodePath parent (dirname a.href)) = some m) :
    (∃ u, tokens '/' a.href =
      tokens '/' parent.href ++ Registry.nodePath parent (dirname a.href) ++ [u]) ∧
    OnWay p (Registry.nodePath parent (dirname a.href)) own ∧ m.owner = some p := by
  have hx := h.placed.indexed
  have hdown := nodePath_dirname hx hpath hlive hnear.1
  obtain ⟨ts, u, hts, hdir⟩ := isPath_dirname hpath
  have htokens : tokens '/' a.href =
      tokens '/' parent.href ++ Registry.nodePath parent (dirname a.href) ++ [u] := by
    rw [hdown, hts.tokens, hdir.tokens]
  have howner : ∀ r k, r <+: Registry.nodePath parent (dirname a.href) → own.getAt r = some k →
      k.owner = some p := by
    intro r k hr hk
    refine Registry.owner_on_last hx h.placed.settled hlive hown
      (fun v hv => (Registry.isToken_of_mem_nodePath (hr.subset hv)).2) (fun j f hf hpre => ?_) hk
    have hpre := hpre.trans ((List.prefix_append_right_inj _).mpr hr)
    refine hnear.2 j f hf ⟨htokens ▸ hpre.trans (List.prefix_append _ _), fun heq => ?_⟩
    have hlen := hpre.length_le
    rw [heq, htokens] at hlen
    simp at hlen
  exact ⟨⟨u, htokens⟩, onWay_of_getAt hget howner, howner _ m List.prefix_rfl hget⟩

/-- One node gets the new child. -/
theorem altered_deviceMount
    {own m : XmlNode Nat}
    (hown : s.dom.ownNode p = some own)
    (hget : own.getAt (Registry.nodePath parent (dirname a.href)) = some m) :
    Altered (fun k k' => k = m ∧ k' = addChild (adopt s.next a.node) k)
      s.dom (deviceMount a p parent child s).dom := by
  refine ((altered_modifyOwn s.dom hown).mono ?_).join
  rintro k k' ⟨rfl, rfl⟩
  refine (altered_modifyAt hget).mono ?_
  rintro k k' ⟨rfl, rfl⟩
  exact ⟨rfl, rfl⟩

/-- A device that is mounted where there is no node with its href. -/
theorem Nesting.mount
    (h : Nesting s)
    (hpath : ∃ ts, IsPath a.href ts ∧ rootTokens <+: ts)
    (hroot : isDeviceRootHref a.href = false)
    (hnear : NearestAbove s parent a.href)
    (hpass : Passes a p parent child s)
    (hhref : a.node.href ≠ none)
    (hnode : s.deviceGetNodeCore p parent a.href = none)
    (ht : Placed t)
    (hheap : t.heap = (deviceMount a p parent child s).heap)
    (hdom : t.dom = (deviceMount a p parent child s).dom) :
    Nesting t := by
  have hs := h.placed.linked
  have hlive := hpass.live
  obtain ⟨m, hm⟩ := Option.ne_none_iff_exists'.mp hpass.mount
  obtain ⟨own, hown, hget⟩ := Registry.getAt_of_deviceGetNodeCore hm
  obtain ⟨⟨u, htokens⟩, hway, howner⟩ := h.way_to_mount hpath hlive hnear hown hget
  have hback : ∀ {j f}, t.heap j = some f → _ := fun {j f} hj =>
    @deviceMount_href a s p parent child hs hlive hpass.href.1 j f (hheap ▸ hj)
  have hnext : ∀ q e, s.heap q = some e → s.next ≠ q := by
    rintro q e hq rfl
    rw [hs.fresh s.next le_rfl] at hq
    cases hq
  have haltered : Altered (fun k k' => k = m ∧ k' = addChild (adopt s.next a.node) k)
      s.dom t.dom := by
    rw [hdom]
    exact altered_deviceMount hown hget
  have hseat : ∀ q e, s.heap q = some e → KeepsSeat q s.dom t.dom := by
    intro q e hq
    refine (haltered.mono ?_).keepsSeat
    rintro k k' ⟨-, rfl⟩
    exact keepsSeat_addChild (.inl (ownNode_adopt (hnext q e hq) a.node))
  have hup : ∀ j, t.up j = if j = s.next then some p else s.up j := by
    intro j
    rw [Registry.up, hheap]
    exact up_deviceMount hs hlive j
  constructor
  case placed => exact ht
  case hierarchy =>
    have habove : ∀ j f, s.heap j = some f → ¬ IsAbove a.href f.href := fun j f hf =>
      h.not_above hpath hroot hlive hnear hpass.single hnode _ j f hf le_rfl
    have hmounted := h.hierarchy.mount hs hpath hroot hlive hnear hpass.single hpass.href.1 habove
      t.disk
    exact hmounted.of_back ht.indexed fun j f hj => ⟨f, hheap ▸ hj, rfl, rfl⟩
  case nested =>
    have hold : Nested t.up s.dom := by
      refine h.nested.congr fun i hi => ?_
      obtain ⟨dev, hdev⟩ := h.placed.live hi
      rw [hup, if_neg (hnext i dev hdev).symm]
    refine hold.altered (haltered.mono ?_)
    rintro k k' ⟨rfl, rfl⟩
    refine ⟨⟨href_addChild k, owner_addChild k⟩, fun hk => hk.addChild (.inr ⟨?_, s.next, ?_, ?_⟩) ?_⟩
    · rwa [href_adopt]
    · exact owner_adopt _ _
    · rw [hup, if_pos rfl, howner]
    · rw [adopt_eq]
      exact nested_setupPrivate _ _
  case present =>
    intro j f hj
    rcases hback hj with ⟨f', hf', -⟩ | ⟨rfl, -⟩
    · exact seated_nil.mp ((hseat j f' hf').seated [] (seated_nil.mpr (h.present j f' hf')))
    · refine (haltered.mono ?_).gains
      rintro k k' ⟨rfl, rfl⟩
      refine ownNode_addChild_ne_none ?_ (owner_adopt _ _)
      by_cases hr : Registry.nodePath parent (dirname a.href) = []
      · rw [hr] at hget
        obtain rfl := Option.some.inj hget
        exact (h.own hown).2
      · exact isElement_of_getAt hr hget
  case seated =>
    intro j f q e hj hq he
    have hparent : ∃ e', s.heap q = some e' ∧ e.href = e'.href := by
      rcases hback he with ⟨e', he', hehref, -⟩ | ⟨rfl, -⟩
      · exact ⟨e', he', hehref⟩
      · -- nobody has the new device as its parent
        rcases hback hj with ⟨f', hf', -, hpar⟩ | ⟨-, -, hpar⟩
        · obtain ⟨g, hg⟩ := hs.parent_live hf' (hpar ▸ hq)
          exact absurd rfl (hnext _ g hg)
        · exact absurd (Option.some.inj (hpar.symm.trans hq)).symm (hnext p parent hlive)
    obtain ⟨e', he', hehref⟩ := hparent
    rw [hehref]
    rcases hback hj with ⟨f', hf', hfhref, hpar⟩ | ⟨-, hfhref, hpar⟩
    · obtain ⟨r, v, hr, hseated⟩ := h.seated j f' q e' hf' (hpar ▸ hq) he'
      exact ⟨r, v, hfhref ▸ hr, (hseat q e' he').seated r hseated⟩
    · obtain rfl : p = q := Option.some.inj (hpar.symm.trans hq)
      obtain rfl := Option.some.inj (hlive.symm.trans he')
      exact ⟨_, u, hfhref ▸ htokens, (hseat p parent hlive).seated _ ⟨own, hown, hway⟩⟩

end Mount

section Requests

variable {a : AddArgs} {s t : Registry} {e : ErrCode} {i : Nat} {dev : ObixDev}

/-- A device without children is signed off. -/
theorem Nesting.signOff
    (h : Nesting s)
    (hdev : s.heap i = some dev)
    (hne : i ≠ deviceRoot)
    (hchildren : dev.children = [])
    (ht : Placed (signedOff i dev s)) :
    Nesting (signedOff i dev s) := by
  have hs := h.placed.linked
  have hback := fun j f => @Linked.signedOff_back s i dev hs hdev hne j f
  obtain ⟨own, hown⟩ := Option.ne_none_iff_exists'.mp (h.present i dev hdev)
  have hleaf := hs.leaf hdev hchildren
  -- the node that is taken away has nodes of this device only
  have haltered : Altered (Drops fun _ c => c = own) s.dom (signedOff i dev s).dom := by
    rw [dom_signedOff]
    refine altered_removeOwn s.dom ?_ hown
    rw [h.placed.settled.top]
    simp
  have hseat : ∀ q, q ≠ i → KeepsSeat q s.dom (signedOff i dev s).dom := by
    intro q hq
    refine (haltered.mono fun k k' hk => ?_).keepsSeat
    refine (hk.mono fun _ c _ hc => ?_).keepsSeat
    rw [hc]
    exact .inl ((h.own hown).1.fresh_of_leaf hleaf (owner_of_ownNode_some s.dom hown) hq)
  constructor
  case placed => exact ht
  case hierarchy =>
    refine h.hierarchy.of_back ht.indexed fun j f hj => ?_
    obtain ⟨-, f', hf', rfl⟩ := hback j f hj
    exact ⟨f', hf', rfl, rfl⟩
  case nested =>
    refine (h.nested.drops haltered).congr fun j hj => ?_
    obtain ⟨f, hf⟩ := ht.live hj
    obtain ⟨-, f', hf', rfl⟩ := hback j f hf
    rw [Registry.up_of_heap hf, Registry.up_of_heap hf']
  case present =>
    intro j f hj
    obtain ⟨hji, f', hf', -⟩ := hback j f hj
    exact seated_nil.mp ((hseat j hji).seated [] (seated_nil.mpr (h.present j f' hf')))
  case seated =>
    intro j f q e hj hq he
    obtain ⟨-, f', hf', rfl⟩ := hback j f hj
    obtain ⟨hqi, e', he', rfl⟩ := hback q e he
    obtain ⟨r, u, hr, hseated⟩ := h.seated j f' q e' hf' hq he'
    exact ⟨r, u, hr, (hseat q hqi).seated r hseated⟩

theorem Nesting.deviceAdd
    (h : Nesting s)
    (hvalid : xmlIsValidHref a.href = true)
    (hfitting : (∃ ts, IsPath a.href ts ∧ rootTokens <+: ts) → Fitting a)
    (hhref : a.node.href ≠ none)
    (hfresh : ∀ i dev p f, s.heap i = none → t.heap i = some dev → dev.parent = some p →
      s.heap p = some f → s.deviceGetNodeCore p f dev.href = none)
    (hadd : deviceAdd a s = some (e, t)) :
    Nesting t := by
  have hs := h.placed.linked
  rcases deviceAdd_cases hadd with ⟨-, -, rfl⟩ | ⟨p, u, e', t', hsearch, hout, rfl, -⟩
  · exact h
  · obtain ⟨hu, hroot, -⟩ := hs.deviceSearchParent hsearch
    obtain ⟨hpath, parent, hlive, hnear⟩ := h.placed.indexed.searchParent hs hvalid hsearch
    obtain ⟨cache, hcache⟩ := deviceSearchParent_some hsearch
    have ht := h.placed.deviceAdd hvalid hfitting
      (fun j f hf hid => h.hierarchy.twin hs hpath hroot hf hid) hadd
    have hplaced : Placed u := h.placed.of_heap hu (by rw [hcache]; rfl) (by rw [hcache]; rfl)
      (by rw [hcache]; rfl)
    have hheap : u.heap = s.heap := by rw [hcache]; rfl
    have hdom : u.dom = s.dom := by rw [hcache]; rfl
    have hnesting : Nesting u := h.of_dom hplaced hheap (fun hn => hdom ▸ hn)
      fun q _ _ => hdom ▸ .refl q _
    have hlive : u.heap p = some parent := hheap ▸ hlive
    have hnear : NearestAbove u parent a.href := by rw [hcache]; exact hnear
    cases hout with
    | refused => exact hnesting.of_dom ht rfl id fun q _ _ => .refl q _
    | @added parent' child disk hpass =>
        obtain rfl := Option.some.inj (hlive.symm.trans hpass.live)
        refine hnesting.mount hpath hroot hnear hpass hhref ?_ ht rfl rfl
        have hne : u.next ≠ p := by
          rintro rfl
          rw [hu.fresh u.next le_rfl] at hlive
          cases hlive
        have hentry : (deviceMount a p parent child u).heap u.next =
            some { child with parent := some p } := by
          rw [heap_deviceMount hu hlive, if_neg hne, if_pos rfl]
        have hnew := hfresh u.next { child with parent := some p } p parent
          (hheap ▸ hu.fresh u.next le_rfl) hentry rfl (hheap ▸ hlive)
        rw [Registry.deviceGetNodeCore, hdom]
        rw [hpass.href.1] at hnew
        exact hnew
    | @withdrawn parent' child disk e hpass =>
        have hheap := @heap_withdrawn a u p parent' child hu hpass.live disk
        have hdom := @dom_withdrawn a u p parent' child hu disk
        exact hnesting.of_dom ht hheap (fun hn => hdom.symm ▸ hn) fun q _ _ => hdom.symm ▸ .refl q _

theorem Nesting.deviceDel
    {href requesterId : Text}
    (h : Nesting s)
    (hroot : isDeviceRootHref href = false)
    (hdel : deviceDel Meanwhile.idle href requesterId s = some (e, t)) :
    Nesting t := by
  have ht := h.placed.deviceDel hroot hdel
  obtain ⟨u, hu, hheap, htab, hdom, -, hout⟩ := h.placed.linked.deviceDel_cases hroot hdel
  have hplaced : Placed u := h.placed.of_heap hu hheap htab hdom
  have hnesting : Nesting u := h.of_dom hplaced hheap (fun hn => hdom ▸ hn)
    fun q _ _ => hdom ▸ .refl q _
  rcases hout with ⟨-, rfl⟩ | ⟨i, dev, hne, -, hdev, hchildren, -, rfl⟩
  · exact hnesting
  · exact hnesting.signOff hdev hne hchildren ht

/-- At the start there are the nodes of the device root. -/
theorem nesting_start
    {resdir : Text} {tabSize cacheSize : Nat} {dom : Xml} {disk : Disk}
    (h : devicesStart resdir tabSize cacheSize dom disk = some s) :
    Nesting s := by
  have hheap := fun i dev => @heap_start s resdir tabSize cacheSize dom disk h i dev
  have hdom : s.dom = modifyAt (setupPrivate deviceRoot) (tokens '/' deviceRootHref) (plain dom) := by
    obtain ⟨dir, -, h⟩ := Option.bind_eq_some_iff.mp h
    split at h
    · cases h
    · obtain ⟨root, -, rfl⟩ := Option.map_eq_some_iff.mp h
      rfl
  constructor
  case placed => exact placed_start h
  case hierarchy => exact hierarchy_start h
  case nested =>
    rw [hdom]
    refine nested_start ?_ fun i => ownNode_plain dom
    obtain ⟨root, hr, hnone, -⟩ := (linked_start h).root
    rw [Registry.up_of_heap hr, hnone]
  case present =>
    intro i dev hi
    rw [(hheap i dev hi).1]
    exact (confined_start h).present
  case seated =>
    intro j f q e hj hq _
    rw [(hheap j f hj).2.2] at hq
    cases hq

end Requests

end Devices
end Obix
