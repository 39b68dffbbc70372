import Obix.Watch.ItemLinks

/-!
# Steps of additions, removals and notifications

An item that is added or deleted takes its meta node with it, and what the other items point to
does not change.  A notification that a node is being removed leaves the items that pointed to it
without pointers.
-/

namespace Obix
namespace Monitoring

open CString

section NodeSteps

variable {s : Server} {w : Watch} {item : Item}

theorem isMetaAt_of_mem
    {nodes : List Node} {n : Node} {next : Nat}
    (h : Rooted nodes next)
    (hn : n ∈ nodes)
    (hs : s.nodes = nodes) :
    s.isMetaAt n.addr = n.isMeta := by
  subst hs
  simp [Server.isMetaAt, node?_of_mem h hn]

/-- What an item points to is not affected by other nodes. -/
theorem Server.Fits.keep
    {s' : Server} {id next next' : Nat} {item : Item}
    (h : s.Fits id item)
    (hrooted : Rooted s.nodes next)
    (hrooted' : Rooted s'.nodes next')
    (hnode : ∀ n ∈ s.nodes, n.byItem = false → (item.node = some n.addr ∨
      ∃ p ∈ s.nodes, item.node = some p.addr ∧ n.addr ∈ p.above) → n ∈ s'.nodes)
    (hmeta : ∀ m ∈ s.nodes, m.byItem = true → item.metaNode = some m.addr → m ∈ s'.nodes)
    (hdevice : ∀ n ∈ s.nodes, n.byItem = false → (item.node = some n.addr ∨
      ∃ p ∈ s.nodes, item.node = some p.addr ∧ n.addr ∈ p.above) →
      (s'.deviceAt n.addr).isNone = (s.deviceAt n.addr).isNone) :
    s'.Fits id item := by
  rcases h with hnone | ⟨n, hn, m, hm, hin, him, hni, hmi, hmm, hid, habove, hshown⟩
  · exact .inl hnone
  · -- the nodes on the way up are still there
    have hway : ∀ a ∈ n.addr :: n.above, ∃ p ∈ s.nodes, p.addr = a ∧ p ∈ s'.nodes ∧
        (s'.deviceAt p.addr).isNone = (s.deviceAt p.addr).isNone := by
      intro a ha
      rcases List.mem_cons.mp ha with rfl | ha
      · exact ⟨n, hn, rfl, hnode n hn hni (.inl hin), hdevice n hn hni (.inl hin)⟩
      · obtain ⟨-, p, hp, rfl, hpi, -⟩ := hrooted.mem_above hn ha
        exact ⟨p, hp, rfl, hnode p hp hpi (.inr ⟨n, hn, hin, ha⟩),
          hdevice p hp hpi (.inr ⟨n, hn, hin, ha⟩)⟩
    refine .inr ⟨n, hnode n hn hni (.inl hin), m, hmeta m hm hmi him, hin, him, hni, hmi, hmm, hid,
      habove, ?_⟩
    rw [← hshown]
    refine shown_congr ?_ ?_
    · intro a ha
      obtain ⟨p, -, rfl, -, heq⟩ := hway a ha
      exact heq
    · intro a ha
      obtain ⟨p, hp, rfl, hp', -⟩ := hway a ha
      rw [isMetaAt_of_mem hrooted hp rfl, isMetaAt_of_mem hrooted' hp' rfl]

theorem refs_perm
    {items items' : List Item}
    (h : items.Perm items') :
    (items.filterMap Item.metaNode).Perm (items'.filterMap Item.metaNode) :=
  h.filterMap _

/-- The refs after an item has left its watch. -/
theorem refs_erase
    (h : s.Tied)
    (hw : w ∈ s.watches)
    (hitem : item ∈ w.items) :
    s.refs.Perm (item.metaNode.toList ++
      (s.modifyWatch w.id fun w => { w with items := w.items.erase item }).refs) := by
  obtain ⟨rest, hbefore, hafter⟩ := items_modifyWatch
    (f := fun w => { w with items := w.items.erase item }) h.watchIds hw rfl
  have hperm : s.items.Perm (item ::
      (s.modifyWatch w.id fun w => { w with items := w.items.erase item }).items) := by
    calc
      s.items.Perm (w.items ++ rest) := hbefore
      _ |>.Perm (item :: w.items.erase item ++ rest) :=
        (List.perm_cons_erase hitem).append_right rest
      _ |>.Perm (item :: (s.modifyWatch w.id fun w => { w with items := w.items.erase item }).items) :=
        (hafter.symm.cons item)
  have hrefs := refs_perm hperm
  cases hmeta : item.metaNode with
  | none => rwa [List.filterMap_cons_none hmeta] at hrefs
  | some m => rwa [List.filterMap_cons_some hmeta] at hrefs

theorem detachable_up
    (h : s.detachable item = true)
    {n : Nat}
    (hnode : item.node = some n) :
    (s.deviceFind item.href).any Device.up = true := by
  simp only [Server.detachable, hnode, Option.all_some, Bool.and_eq_true] at h
  exact h.1

section Unlink

variable {m : Node}

/-- The nodes that are left when a meta node has been unlinked. -/
theorem mem_unlinked
    {nodes : List Node} {p : Node} :
    p ∈ nodes.filter (fun p => p.addr ≠ m.addr) ↔ p ∈ nodes ∧ p.addr ≠ m.addr := by
  simp

theorem Server.Grown.addr_ne
    (h : s.Grown)
    (hm : m ∈ s.nodes)
    (hmi : m.byItem = true)
    {p : Node}
    (hp : p ∈ s.nodes)
    (hpi : p.byItem = false) :
    p.addr ≠ m.addr := by
  intro heq
  rw [h.rooted.ext hp hm heq, hmi] at hpi
  cases hpi

/-- The meta node of an item is unlinked and freed. -/
theorem Server.Grown.unlink
    (h : s.Grown)
    (hm : m ∈ s.nodes)
    (hmi : m.byItem = true)
    (watches : List Watch) :
    Server.Grown
      { s with
        nodes := s.nodes.filter fun p => p.addr ≠ m.addr
        frees := Function.update s.frees m.addr (s.frees m.addr + 1)
        watches := watches } := by
  refine ⟨h.rooted.filter ?_, ?_, ?_, ?_, ?_, h.deviceIds, h.deviceNodes, h.deviceKnown, ?_, ?_⟩
  · intro p _ _ q hq _ hqi
    simpa using h.addr_ne hm hmi hq hqi
  · intro p hp
    obtain ⟨hp, hne⟩ := mem_unlinked.mp hp
    simpa [Function.update_of_ne hne] using h.unfreed p hp
  · intro a
    by_cases ha : a = m.addr
    · subst ha
      simp [h.unfreed m hm]
    · simpa [Function.update_of_ne ha] using h.once a
  · intro a ha
    have hlt : m.addr < s.next := h.rooted.known m hm
    have hle : s.next ≤ a := ha
    have hne : a ≠ m.addr := by omega
    simpa [Function.update_of_ne hne] using h.unused a hle
  · intro p hp hpi
    exact h.hrefless p (mem_unlinked.mp hp).1 hpi
  · intro d hd
    obtain ⟨p, hp, hpa, hpi⟩ := h.deviceNode d hd
    exact ⟨p, mem_unlinked.mpr ⟨hp, h.addr_ne hm hmi hp hpi⟩, hpa, hpi⟩
  · intro d hd e he p hp
    exact h.nested d hd e he p (mem_unlinked.mp hp).1

end Unlink

/-- An item leaves its watch; its meta node is unlinked and freed. -/
theorem Server.Tied.deleteItem
    (h : s.Tied)
    (hw : w ∈ s.watches)
    (hitem : item ∈ w.items)
    (hdetach : s.detachable item = true) :
    (s.deleteItem w.id item).Tied := by
  have hperm := refs_erase h hw hitem
  have hids : (s.modifyWatch w.id fun w => { w with items := w.items.erase item }).watches.map
      Watch.id = s.watches.map Watch.id := ids_modifyWatch fun _ => rfl
  have hsub : ∀ v ∈ (s.modifyWatch w.id fun w => { w with items := w.items.erase item }).watches,
      ∀ i ∈ v.items, ∃ u ∈ s.watches, u.id = v.id ∧ i ∈ u.items := by
    intro v hv i hi
    obtain ⟨u, hu, rfl⟩ := List.mem_map.mp hv
    refine ⟨u, hu, ?_, ?_⟩
    · split <;> rfl
    · split at hi
      · exact List.mem_of_mem_erase hi
      · exact hi
  have hnodup := hperm.nodup_iff.mp h.distinct
  rcases h.fits w hw item hitem with ⟨-, hnone⟩ |
    ⟨n, hn, m, hm, hin, him, hni, hmi, -, -, habove, -⟩
  · -- the item has been nullified
    rw [hnone, Option.toList_none, List.nil_append] at hperm hnodup
    simp only [Server.deleteItem, hnone]
    exact h.fewer (hids ▸ h.watchIds) hsub hnodup fun a ha => hperm.mem_iff.mp ha
  · rw [him, Option.toList_some, List.singleton_append] at hperm hnodup
    have hgone := (List.nodup_cons.mp hnodup).1
    have hg := h.grown
    have hup : ((s.modifyWatch w.id fun w => { w with items := w.items.erase item }).deviceFind
        item.href).any Device.up = true := by
      rw [deviceFind_modifyWatch]
      exact detachable_up hdetach hin
    simp only [Server.deleteItem, him, Server.unlinkNode, hup, if_true]
    have hg' := hg.unlink hm hmi
      (s.modifyWatch w.id fun w => { w with items := w.items.erase item }).watches
    refine ⟨hg', hids ▸ h.watchIds, ?_, (List.nodup_cons.mp hnodup).2, ?_, ?_⟩
    · intro v hv i hi
      obtain ⟨u, hu, hid, hi'⟩ := hsub v hv i hi
      rw [← hid]
      refine (h.fits u hu i hi').keep hg.rooted hg'.rooted ?_ ?_ fun _ _ _ _ => rfl
      · intro p hp hpi _
        exact mem_unlinked.mpr ⟨hp, hg.addr_ne hm hmi hp hpi⟩
      · intro q hq _ hmeta
        refine mem_unlinked.mpr ⟨hq, ?_⟩
        intro heq
        refine hgone ?_
        rw [← heq]
        exact List.mem_filterMap.mpr ⟨i, List.mem_flatMap.mpr ⟨v, hv, hi⟩, hmeta⟩
    · intro q hq hqi hquiet
      obtain ⟨hq, hne⟩ := mem_unlinked.mp hq
      have hmem := hperm.mem_iff.mp (h.owned q hq hqi hquiet)
      exact (List.mem_cons.mp hmem).resolve_left hne
    · intro d hd todo htodo
      obtain ⟨hchildless, hwithin, hcomplete⟩ := h.scanned d hd todo htodo
      refine ⟨hchildless, ?_, ?_⟩
      · intro x hx
        obtain ⟨p, hp, hpa, hpw, hpi⟩ := hwithin x hx
        exact ⟨p, mem_unlinked.mpr ⟨hp, hg.addr_ne hm hmi hp hpi⟩, hpa, hpw, hpi⟩
      · intro v hv i hi p hp hnode hpw
        obtain ⟨u, hu, hid, hi'⟩ := hsub v hv i hi
        rw [← hid]
        exact hcomplete u hu i hi' p (mem_unlinked.mp hp).1 hnode hpw

section Link

variable {href : Text} {d : Device} {a : Nat}

theorem deviceSearch_mem
    (h : s.deviceSearch href = some d) :
    d ∈ s.devices := by
  unfold Server.deviceSearch at h
  split at h
  · cases h
  · split at h
    · exact List.mem_of_find?_eq_some h
    · exact List.mem_of_find?_eq_some h

theorem searchUp_mem
    {k : Nat}
    (h : s.searchUp k href = some d) :
    d ∈ s.devices := by
  induction k generalizing href with
  | zero => cases h
  | succ k ih =>
      rw [Server.searchUp] at h
      cases hsearch : s.deviceSearch href with
      | some e =>
          rw [hsearch] at h
          cases h
          exact deviceSearch_mem hsearch
      | none =>
          rw [hsearch] at h
          exact ih h

theorem deviceFind_mem
    (h : s.deviceFind href = some d) :
    d ∈ s.devices := by
  unfold Server.deviceFind at h
  cases hsearch : s.deviceSearch href with
  | some e =>
      rw [hsearch] at h
      cases h
      exact deviceSearch_mem hsearch
  | none =>
      rw [hsearch] at h
      have hparent : s.deviceSearchParent href = some d := h
      unfold Server.deviceSearchParent at hparent
      split at hparent
      · cases hparent
      · exact searchUp_mem hparent

/-- A node of a contract. -/
def Server.Plain (s : Server) (a : Nat) : Prop := ∃ n ∈ s.nodes, n.addr = a ∧ n.byItem = false

/-- A way down by hrefs does not lead to the meta node of an item. -/
theorem Server.Grown.plain_of_way
    {start : Nat}
    (h : s.Grown)
    (ts : List Text)
    (hstart : s.Plain start)
    (hway : ts.foldlM s.childAt start = some a) :
    s.Plain a := by
  induction ts generalizing start with
  | nil =>
      cases hway
      exact hstart
  | cons t ts ih =>
      obtain ⟨b, hb, hrest⟩ := Option.bind_eq_some_iff.mp hway
      refine ih ?_ hrest
      obtain ⟨n, hn, hna, -, hhref⟩ := childAt_mem hb
      refine ⟨n, hn, hna, ?_⟩
      cases hitem : n.byItem with
      | false => rfl
      | true =>
          rw [h.hrefless n hn hitem] at hhref
          cases hhref

theorem Server.Grown.plain_of_linkPlace
    (h : s.Grown)
    (hplace : s.linkPlace href = some (d, a)) :
    s.Plain a := by
  obtain ⟨e, he, hplace⟩ := Option.bind_eq_some_iff.mp hplace
  have hnode : s.Plain e.node := h.deviceNode e (deviceFind_mem he)
  split at hplace
  · obtain ⟨b, hb, heq⟩ := Option.map_eq_some_iff.mp hplace
    cases heq
    unfold Server.deviceGetNodeCore at hb
    split at hb
    · cases hb
      exact hnode
    · unfold forEachStrToken at hb
      split at hb
      · cases hb
      · exact h.plain_of_way _ hnode hb
  · cases hplace

/-- A meta node is linked under a node of a contract. -/
theorem Server.Grown.link
    {n m : Node}
    (h : s.Grown)
    (hn : n ∈ s.nodes)
    (hni : n.byItem = false)
    (haddr : m.addr = s.next)
    (habove : m.above = n.addr :: n.above)
    (hhref : m.href = none)
    (watches : List Watch) :
    Server.Grown { s with nodes := s.nodes ++ [m], next := s.next + 1, watches := watches } := by
  have hlt := h.rooted.known n hn
  refine ⟨?_, ?_, h.once, ?_, ?_, h.deviceIds, h.deviceNodes, ?_, ?_, ?_⟩
  · refine h.rooted.append (by simp) ?_ ?_ (Nat.le_succ _)
    · intro p hp
      rw [List.mem_singleton.mp hp, haddr]
      exact ⟨le_rfl, Nat.lt_succ_self _⟩
    · intro p hp b post hpost
      rw [List.mem_singleton.mp hp] at hpost ⊢
      rw [habove] at hpost
      cases hpost
      exact ⟨by omega, n, List.mem_append_left _ hn, rfl, rfl, hni⟩
  · intro p hp
    rcases List.mem_append.mp hp with hp | hp
    · exact h.unfreed p hp
    · rw [List.mem_singleton.mp hp, haddr]
      exact h.unused _ le_rfl
  · intro b hb
    exact h.unused b (le_trans (Nat.le_succ _) hb)
  · intro p hp hpi
    rcases List.mem_append.mp hp with hp | hp
    · exact h.hrefless p hp hpi
    · rw [List.mem_singleton.mp hp]
      exact hhref
  · intro e he
    exact Nat.lt_succ_of_lt (h.deviceKnown e he)
  · intro e he
    obtain ⟨p, hp, hrest⟩ := h.deviceNode e he
    exact ⟨p, List.mem_append_left _ hp, hrest⟩
  · intro e he e' he' p hp hpa hmem
    rcases List.mem_append.mp hp with hp | hp
    · exact h.nested e he e' he' p hp hpa hmem
    · -- a new address is not the node of a device
      obtain ⟨q, hq, hqa, -⟩ := h.deviceNode e' he'
      have hq' := h.rooted.known q hq
      rw [List.mem_singleton.mp hp] at hpa
      omega

/-- A new item joins its watch; its meta node is linked. -/
theorem Server.Tied.linkItem
    (h : s.Tied)
    (hw : w ∈ s.watches)
    (hplace : s.linkPlace href = some (d, a))
    (hattach : s.attachable a = true) :
    ∃ t, s.linkItem w.id href = some t ∧ t.Tied := by
  refine ⟨_, by rw [Server.linkItem, hplace]; rfl, ?_⟩
  have hg := h.grown
  obtain ⟨n, hn, rfl, hni⟩ := hg.plain_of_linkPlace hplace
  have hchain := chain_of_mem hg.rooted hn
  simp only [Server.attachable, Bool.and_eq_true, hchain] at hattach
  obtain ⟨hshown, hhost⟩ := hattach
  simp only [hchain]
  generalize hm : Node.mark s.next (n.addr :: n.above) d.id w.id = m
  generalize hi : Item.init href n.addr s.next = new
  have hma : m.addr = s.next := by subst hm; rfl
  have hnewNode : new.node = some n.addr := by subst hi; rfl
  have hnewMeta : new.metaNode = some s.next := by subst hi; rfl
  have hids : (s.modifyWatch w.id fun w => { w with items := w.items ++ [new] }).watches.map
      Watch.id = s.watches.map Watch.id := ids_modifyWatch fun _ => rfl
  have hg' := hg.link hn hni hma (by subst hm; rfl) (by subst hm; rfl)
    (s.modifyWatch w.id fun w => { w with items := w.items ++ [new] }).watches
  have hsub : ∀ v ∈ (s.modifyWatch w.id fun w => { w with items := w.items ++ [new] }).watches,
      ∀ i ∈ v.items, (∃ u ∈ s.watches, u.id = v.id ∧ i ∈ u.items) ∨ v.id = w.id ∧ i = new := by
    intro v hv i hi'
    obtain ⟨u, hu, rfl⟩ := List.mem_map.mp hv
    split at hi'
    · rename_i hid
      rw [if_pos hid]
      rcases List.mem_append.mp hi' with hmem | hmem
      · exact .inl ⟨u, hu, rfl, hmem⟩
      · exact .inr ⟨hid, List.mem_singleton.mp hmem⟩
    · rename_i hid
      rw [if_neg hid]
      exact .inl ⟨u, hu, rfl, hi'⟩
  have hperm : (s.modifyWatch w.id fun w => { w with items := w.items ++ [new] }).refs.Perm
      (s.next :: s.refs) := by
    obtain ⟨rest, hbefore, hafter⟩ := items_modifyWatch
      (f := fun w => { w with items := w.items ++ [new] }) h.watchIds hw rfl
    have hitems : (s.modifyWatch w.id fun w => { w with items := w.items ++ [new] }).items.Perm
        (new :: s.items) := by
      refine hafter.trans ?_
      rw [List.append_assoc]
      exact List.perm_middle.trans (hbefore.symm.cons new)
    have hrefs := refs_perm hitems
    rwa [List.filterMap_cons_some hnewMeta] at hrefs
  -- the refs are linked nodes, and the address of the new one is new
  have hfresh : s.next ∉ s.refs := by
    intro hmem
    obtain ⟨i, hmem, hmeta⟩ := List.mem_filterMap.mp hmem
    obtain ⟨v, hv, hmem⟩ := List.mem_flatMap.mp hmem
    rcases h.fits v hv i hmem with ⟨-, hnone⟩ | ⟨-, -, q, hq, -, hqa, -⟩
    · rw [hnone] at hmeta
      cases hmeta
    · rw [hqa] at hmeta
      have hlt := hg.rooted.known q hq
      have heq := Option.some.inj hmeta
      omega
  have hkeep : ∀ v ∈ s.watches, ∀ i ∈ v.items, Server.Fits
      { s with
        nodes := s.nodes ++ [m]
        next := s.next + 1
        watches := (s.modifyWatch w.id fun w => { w with items := w.items ++ [new] }).watches }
      v.id i := by
    intro v hv i hmem
    refine (h.fits v hv i hmem).keep hg.rooted hg'.rooted ?_ ?_ fun _ _ _ _ => rfl
    · exact fun p hp _ _ => List.mem_append_left _ hp
    · exact fun q hq _ _ => List.mem_append_left _ hq
  refine ⟨hg', hids ▸ h.watchIds, ?_, ?_, ?_, ?_⟩
  · intro v hv i hmem
    rcases hsub v hv i hmem with ⟨u, hu, hid, hmem⟩ | ⟨hid, rfl⟩
    · rw [← hid]
      exact hkeep u hu i hmem
    · refine .inr ⟨n, List.mem_append_left _ hn, m, List.mem_append_right _ List.mem_cons_self, ?_⟩
      subst hm
      refine ⟨hnewNode, hnewMeta, hni, rfl, rfl, by rw [hid]; rfl, rfl, ?_⟩
      rw [← hshown]
      refine shown_congr (fun _ _ => rfl) ?_
      intro b hb
      have hb' : ∃ p ∈ s.nodes, p.addr = b := by
        rcases List.mem_cons.mp hb with rfl | hb
        · exact ⟨n, hn, rfl⟩
        · obtain ⟨-, p, hp, hpa, -⟩ := hg.rooted.mem_above hn hb
          exact ⟨p, hp, hpa⟩
      obtain ⟨p, hp, rfl⟩ := hb'
      rw [isMetaAt_of_mem hg.rooted hp rfl]
      exact isMetaAt_of_mem hg'.rooted (List.mem_append_left _ hp) rfl
  · exact hperm.nodup_iff.mpr (List.nodup_cons.mpr ⟨hfresh, h.distinct⟩)
  · intro q hq hqi hquiet
    refine hperm.mem_iff.mpr ?_
    rcases List.mem_append.mp hq with hq | hq
    · exact List.mem_cons_of_mem _ (h.owned q hq hqi hquiet)
    · rw [List.mem_singleton.mp hq, hma]
      exact List.mem_cons_self
  · intro e he todo htodo
    obtain ⟨hchildless, hwithin, hcomplete⟩ := h.scanned e he todo htodo
    refine ⟨hchildless, ?_, ?_⟩
    · intro x hx
      obtain ⟨p, hp, hrest⟩ := hwithin x hx
      exact ⟨p, List.mem_append_left _ hp, hrest⟩
    · intro v hv i hmem p hp hnode hpw
      have hknown : p ∈ s.nodes := by
        rcases List.mem_append.mp hp with hp | hp
        · exact hp
        · -- no item monitors the new meta node
          exfalso
          rw [List.mem_singleton.mp hp, hma] at hnode
          rcases hsub v hv i hmem with ⟨u, hu, -, hmem⟩ | ⟨-, rfl⟩
          · rcases h.fits u hu i hmem with ⟨hnone, -⟩ | ⟨q, hq, -, -, hqa, -⟩
            · rw [hnone] at hnode
              cases hnode
            · rw [hqa] at hnode
              have hlt := hg.rooted.known q hq
              have heq := Option.some.inj hnode
              omega
          · rw [hnewNode] at hnode
            have hlt := hg.rooted.known n hn
            have heq := Option.some.inj hnode
            omega
      rcases hsub v hv i hmem with ⟨u, hu, hid, hmem⟩ | ⟨-, rfl⟩
      · rw [← hid]
        exact hcomplete u hu i hmem p hknown hnode hpw
      · -- the host of the node is not being removed
        exfalso
        rw [hnewNode] at hnode
        have heq : n = p := hg.rooted.ext hn hknown (Option.some.inj hnode)
        subst heq
        rw [hg.hostOf_childless he hchildless hn hpw] at hhost
        simp [Device.up, htodo] at hhost

end Link

/-- A nullified item may be deleted at any time. -/
theorem detachable_nullified
    (h : item.nullified = true) :
    s.detachable item = true := by
  simp only [Item.nullified, Bool.and_eq_true, Option.isNone_iff_eq_none] at h
  simp [Server.detachable, h.2]

theorem Server.Tied.createItem
    {href : Text}
    (h : s.Tied)
    (hw : w ∈ s.watches)
    (hattach : (w.itemOrParent href).1.isSome = true ∨
      ∀ d a, s.linkPlace href = some (d, a) → s.attachable a = true) :
    (s.createItem w href).Tied := by
  unfold Server.createItem
  split
  · exact h
  · rename_i hnone
    have hattach' := hattach.resolve_left (by simp [hnone])
    cases hplace : s.linkPlace href with
    | none =>
        have hlink : s.linkItem w.id href = none := by simp [Server.linkItem, hplace]
        rw [hlink]
        exact h
    | some place =>
        obtain ⟨t, ht, htied⟩ := h.linkItem hw hplace (hattach' _ _ hplace)
        rw [ht]
        exact htied
  · rename_i old hroom
    have hattach' := hattach.resolve_left (by simp [hroom])
    -- the item that makes room has been nullified
    have hold : old ∈ w.items ∧ old.nullified = true := by
      unfold Watch.itemOrParent at hroom
      split at hroom
      · cases hroom
      · rename_i found hfound
        split at hroom
        · rename_i hsame
          cases hroom
          rw [Bool.and_eq_true] at hsame
          exact ⟨List.mem_of_find?_eq_some hfound, hsame.2⟩
        · cases hroom
    have hmeta : old.metaNode = none := by
      have hnull := hold.2
      simp only [Item.nullified, Bool.and_eq_true, Option.isNone_iff_eq_none] at hnull
      exact hnull.1
    have htied := h.deleteItem hw hold.1 (detachable_nullified hold.2)
    have hsame : s.deleteItem w.id old =
        s.modifyWatch w.id fun w => { w with items := w.items.erase old } := by
      simp [Server.deleteItem, hmeta]
    simp only
    rw [hsame] at htied ⊢
    have hw' : { w with items := w.items.erase old } ∈
        (s.modifyWatch w.id fun w => { w with items := w.items.erase old }).watches :=
      mem_modifyWatch.mpr ⟨w, hw, by simp⟩
    cases hplace : s.linkPlace href with
    | none =>
        have hplace' := (linkPlace_modifyWatch w.id
          (fun w => { w with items := w.items.erase old }) href).trans hplace
        have hlink : (s.modifyWatch w.id fun w => { w with items := w.items.erase old }).linkItem
            w.id href = none := by
          simp [Server.linkItem, hplace']
        rw [hlink]
        exact htied
    | some place =>
        have hplace' := (linkPlace_modifyWatch w.id
          (fun w => { w with items := w.items.erase old }) href).trans hplace
        obtain ⟨t, ht, htied'⟩ := htied.linkItem hw' hplace' (hattach' _ _ hplace)
        rw [ht]
        exact htied'

theorem Server.Tied.removeItem
    {href : Text}
    (h : s.Tied)
    (hw : w ∈ s.watches)
    (hdetach : ∀ item ∈ w.items.find? fun item => isStrIdentical item.href href,
      s.detachable item = true) :
    (s.removeItem w href).Tied := by
  unfold Server.removeItem
  split
  · exact h
  · rename_i found hfound
    exact h.deleteItem hw (List.mem_of_find?_eq_some hfound) (hdetach found hfound)

/-- A watch that is not being deleted is notified that a node is being removed. -/
theorem Server.Tied.nullify
    {d : Device} {todo : List (Nat × Nat)} {x : Nat × Nat}
    (h : s.Tied)
    (hd : d ∈ s.devices)
    (htodo : d.signOff = .nullifying todo)
    (hx : x ∈ todo) :
    (s.notify x.1 x.2 true).Tied := by
  have hwatch : ∀ v ∈ (s.notify x.1 x.2 true).watches, ∃ u ∈ s.watches, v.id = u.id ∧
      (v.items = u.items ∨ v.items = u.items.map (Item.notified x.2 true)) := by
    intro v hv
    obtain ⟨u, hu, rfl⟩ := List.mem_map.mp hv
    refine ⟨u, hu, ?_, ?_⟩
    · split <;> rfl
    · split
      · exact .inr rfl
      · exact .inl rfl
  -- an item is the same or has been nullified
  have hitem : ∀ v ∈ (s.notify x.1 x.2 true).watches, ∀ i ∈ v.items,
      ∃ u ∈ s.watches, v.id = u.id ∧ (i ∈ u.items ∨ i.node = none ∧ i.metaNode = none) := by
    intro v hv i hi
    obtain ⟨u, hu, hid, hsame | hmap⟩ := hwatch v hv
    · exact ⟨u, hu, hid, .inl (hsame ▸ hi)⟩
    · rw [hmap] at hi
      obtain ⟨j, hj, rfl⟩ := List.mem_map.mp hi
      refine ⟨u, hu, hid, ?_⟩
      unfold Item.notified
      split
      · exact .inr ⟨rfl, rfl⟩
      · exact .inl hj
  have hsublist : (s.notify x.1 x.2 true).refs.Sublist s.refs := by
    unfold Server.refs Server.items Server.notify
    rw [List.flatMap_map]
    generalize s.watches = watches
    induction watches with
    | nil => simp
    | cons u watches ih =>
        rw [List.flatMap_cons, List.flatMap_cons, List.filterMap_append, List.filterMap_append]
        refine List.Sublist.append ?_ ih
        split
        · exact filterMap_notified x.2 u.items
        · exact List.Sublist.refl _
  refine h.rewatch ?_ ?_ (h.distinct.sublist hsublist) ?_ ?_
  · have hids : (s.watches.map fun w =>
        if w.id = x.1 ∧ w.life = .up then w.notified x.2 true else w).map Watch.id =
        s.watches.map Watch.id := by
      rw [List.map_map]
      refine List.map_congr_left ?_
      intro w _
      simp only [Function.comp]
      split <;> rfl
    exact hids ▸ h.watchIds
  · intro v hv i hi
    obtain ⟨u, hu, hid, hmem | hnone⟩ := hitem v hv i hi
    · rw [hid]
      exact h.fits u hu i hmem
    · exact .inl hnone
  · intro m hm hmi hquiet
    obtain ⟨i, hi, hmeta⟩ := List.mem_filterMap.mp (h.owned m hm hmi hquiet)
    obtain ⟨u, hu, hi⟩ := List.mem_flatMap.mp hi
    -- the meta nodes of the items that have been nullified are being removed
    have hother : i.node ≠ some x.2 := by
      intro hnode
      rcases h.fits u hu i hi with ⟨hnone, -⟩ | ⟨n, hn, q, hq, hin, hiq, -, -, -, -, habove, -⟩
      · rw [hnone] at hnode
        cases hnode
      · have heq : q = m := h.grown.rooted.ext hq hm (Option.some.inj (hiq.symm.trans hmeta))
        obtain ⟨p, hp, hpa, hpw, -⟩ := (h.scanned d hd todo htodo).within x hx
        have hpn : p = n := by
          refine h.grown.rooted.ext hp hn ?_
          rw [hpa]
          exact Option.some.inj (hnode.symm.trans hin)
        refine hquiet d hd ?_ todo htodo
        rw [← heq, habove, ← hpn]
        rcases hpw with hpw | hpw
        · rw [hpw]
          exact List.mem_cons_self
        · exact List.mem_cons_of_mem _ hpw
    refine List.mem_filterMap.mpr ⟨i, List.mem_flatMap.mpr ⟨_, List.mem_map_of_mem hu, ?_⟩, hmeta⟩
    split
    · exact List.mem_map.mpr ⟨i, hi, by simp [Item.notified, hother]⟩
    · exact hi
  · intro e he todo' htodo' v hv i hi n hn hnode hwithin
    obtain ⟨u, hu, hid, hmem | hnone⟩ := hitem v hv i hi
    · rw [hid]
      exact (h.scanned e he todo' htodo').complete u hu i hmem n hn hnode hwithin
    · rw [hnone.1] at hnode
      cases hnode

end NodeSteps

end Monitoring
end Obix
