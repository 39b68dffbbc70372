import Obix.Watch.ItemSteps

/-!
# Runs of additions, removals, deletions and sign-offs

The steps of `device_del` and `device_add`, and the invariant along the runs in which no step
comes into conflict with the removal of a device or of a watch.
-/

namespace Obix
namespace Monitoring

open CString

section DeviceSteps

variable {s : Server}

theorem hasChildren_eq_false_iff {d : Device} :
    s.hasChildren d = false ↔ ∀ e ∈ s.devices, e.parent ≠ some d.id := by
  simp [Server.hasChildren]

theorem device?_mem
    {id : Nat} {d : Device}
    (h : s.device? id = some d) :
    d ∈ s.devices ∧ d.id = id :=
  ⟨List.mem_of_find?_eq_some h, by simpa using List.find?_some h⟩

theorem mem_modifyDevice
    {id : Nat} {so : SignOff} {e : Device} :
    e ∈ (s.modifyDevice id fun d => { d with signOff := so }).devices ↔
      ∃ d ∈ s.devices, (if d.id = id then { d with signOff := so } else d) = e :=
  List.mem_map

/-- A device goes on with its removal. -/
theorem Server.Tied.setSignOff
    (h : s.Tied)
    (id : Nat)
    (so : SignOff)
    (hkeep : ∀ d ∈ s.devices, d.id = id → ∀ todo, d.signOff = .nullifying todo →
      ∃ todo', so = .nullifying todo')
    (hscanned : ∀ d ∈ s.devices, d.id = id → ∀ todo, so = .nullifying todo → s.Scanned d todo) :
    (s.modifyDevice id fun d => { d with signOff := so }).Tied := by
  have hg := h.grown
  -- the devices before and after
  have hback : ∀ e ∈ (s.modifyDevice id fun d => { d with signOff := so }).devices,
      ∃ d ∈ s.devices, e.id = d.id ∧ e.node = d.node ∧ e.parent = d.parent ∧
        (d.id = id ∧ e.signOff = so ∨ e.signOff = d.signOff) := by
    intro e he
    obtain ⟨d, hd, rfl⟩ := mem_modifyDevice.mp he
    refine ⟨d, hd, ?_⟩
    split
    · rename_i hid
      exact ⟨rfl, rfl, rfl, .inl ⟨hid, rfl⟩⟩
    · exact ⟨rfl, rfl, rfl, .inr rfl⟩
  have hforth : ∀ d ∈ s.devices, ∃ e ∈ (s.modifyDevice id fun d => { d with signOff := so }).devices,
      e.id = d.id ∧ e.node = d.node ∧ e.parent = d.parent ∧
        e.signOff = if d.id = id then so else d.signOff := by
    intro d hd
    refine ⟨_, mem_modifyDevice.mpr ⟨d, hd, rfl⟩, ?_⟩
    split <;> exact ⟨rfl, rfl, rfl, rfl⟩
  have hmap : ∀ {α : Type} (f : Device → α), (∀ d : Device, f { d with signOff := so } = f d) →
      (s.modifyDevice id fun d => { d with signOff := so }).devices.map f = s.devices.map f := by
    intro α f hf
    rw [Server.modifyDevice, List.map_map]
    refine List.map_congr_left ?_
    intro d _
    simp only [Function.comp]
    split
    · exact hf d
    · rfl
  have hg' : (s.modifyDevice id fun d => { d with signOff := so }).Grown := by
    refine ⟨hg.rooted, hg.unfreed, hg.once, hg.unused, hg.hrefless, ?_, ?_, ?_, ?_, ?_⟩
    · rw [hmap Device.id fun _ => rfl]
      exact hg.deviceIds
    · rw [hmap Device.node fun _ => rfl]
      exact hg.deviceNodes
    · intro e he
      obtain ⟨d, hd, hid, -⟩ := hback e he
      rw [hid]
      exact hg.deviceKnown d hd
    · intro e he
      obtain ⟨d, hd, -, hnode, -⟩ := hback e he
      rw [hnode]
      exact hg.deviceNode d hd
    · intro e he e' he' n hn haddr habove
      obtain ⟨d, hd, hid, hnode, -⟩ := hback e he
      obtain ⟨d', hd', -, hnode', -⟩ := hback e' he'
      rw [hnode'] at haddr
      rw [hnode] at habove
      obtain ⟨child, hchild, hparent, hwithin⟩ := hg.nested d hd d' hd' n hn haddr habove
      obtain ⟨child', hchild', -, hcn, hcp, -⟩ := hforth child hchild
      refine ⟨child', hchild', by rw [hcp, hparent, hid], ?_⟩
      unfold Node.within
      rw [hcn]
      exact hwithin
  refine ⟨hg', h.watchIds, ?_, h.distinct, ?_, ?_⟩
  · intro w hw item hitem
    refine (h.fits w hw item hitem).keep hg.rooted hg'.rooted (fun _ hn _ _ => hn)
      (fun _ hm _ _ => hm) ?_
    intro n _ _ _
    have hfind : (s.modifyDevice id fun d => { d with signOff := so }).deviceAt n.addr =
        (s.deviceAt n.addr).map fun d => if d.id = id then { d with signOff := so } else d := by
      unfold Server.deviceAt Server.modifyDevice
      rw [List.find?_map]
      congr 2
      funext d
      simp only [Function.comp]
      split <;> rfl
    rw [hfind, Option.isNone_map]
  · intro m hm hmi hquiet
    refine h.owned m hm hmi ?_
    intro d hd habove todo htodo
    obtain ⟨e, he, -, hnode, -, hso⟩ := hforth d hd
    by_cases hid : d.id = id
    · obtain ⟨todo', hso'⟩ := hkeep d hd hid todo htodo
      rw [if_pos hid, hso'] at hso
      exact hquiet e he (hnode.symm ▸ habove) todo' hso
    · rw [if_neg hid, htodo] at hso
      exact hquiet e he (hnode.symm ▸ habove) todo hso
  · intro e he todo htodo
    obtain ⟨d, hd, hid, hnode, -, hso⟩ := hback e he
    have hold : s.Scanned d todo := by
      rcases hso with ⟨hid', hso⟩ | hso
      · exact hscanned d hd hid' todo (hso.symm.trans htodo)
      · exact h.scanned d hd todo (hso.symm.trans htodo)
    have hwithin : ∀ n : Node, n.within e ↔ n.within d := by
      intro n
      unfold Node.within
      rw [hnode]
    refine ⟨?_, ?_, ?_⟩
    · refine hasChildren_eq_false_iff.mpr ?_
      intro c hc
      obtain ⟨c', hc', -, -, hparent, -⟩ := hback c hc
      rw [hparent, hid]
      exact hasChildren_eq_false_iff.mp hold.childless c' hc'
    · intro x hx
      obtain ⟨n, hn, hna, hnw, hni⟩ := hold.within x hx
      exact ⟨n, hn, hna, (hwithin n).mpr hnw, hni⟩
    · intro w hw item hitem n hn hin hnw
      exact hold.complete w hw item hitem n hn hin ((hwithin n).mp hnw)

end DeviceSteps

section Purge

variable {s : Server} {d : Device}

theorem mem_purge {n : Node} : n ∈ (s.purge d).nodes ↔ n ∈ s.nodes ∧ ¬ n.within d := by
  simp [Server.purge, Node.within]

theorem mem_purge_devices {e : Device} : e ∈ (s.purge d).devices ↔ e ∈ s.devices ∧ e.id ≠ d.id := by
  simp [Server.purge]

/-- Whether a node is freed by `__device_purge`. -/
theorem any_subtree (a : Nat) :
    ((s.subtree d.node).any fun n => n.addr = a) = true ↔ ∃ n ∈ s.nodes, n.within d ∧ n.addr = a := by
  simp [Server.subtree, Node.within]

theorem Node.within.below
    {n p : Node}
    (hp : p.within d)
    (h : p.addr ∈ n.above)
    (hsuffix : p.above <:+ n.above) :
    n.within d := by
  rcases hp with hp | hp
  · exact .inr (hp ▸ h)
  · exact .inr (hsuffix.subset hp)

/-- The node of another device is not in the subtree of a device without children. -/
theorem Server.Grown.not_within
    {e : Device} {n : Node}
    (h : s.Grown)
    (hd : d ∈ s.devices)
    (hchildless : s.hasChildren d = false)
    (he : e ∈ s.devices)
    (hne : e.id ≠ d.id)
    (hn : n ∈ s.nodes)
    (hnode : n.addr = e.node) :
    ¬ n.within d := by
  rintro (heq | habove)
  · have hsame := List.inj_on_of_nodup_map h.deviceNodes he hd (hnode.symm.trans heq)
    exact hne (congrArg Device.id hsame)
  · obtain ⟨child, hchild, hparent, -⟩ := h.nested d hd e he n hn hnode habove
    exact hasChildren_eq_false_iff.mp hchildless child hchild hparent

theorem Server.Grown.purge
    (h : s.Grown)
    (hd : d ∈ s.devices)
    (hchildless : s.hasChildren d = false) :
    (s.purge d).Grown := by
  have hfrees : ∀ a, (s.purge d).frees a =
      s.frees a + if (s.subtree d.node).any (fun n => n.addr = a) then 1 else 0 := fun _ => rfl
  refine ⟨?_, ?_, ?_, ?_, ?_, ?_, ?_, ?_, ?_, ?_⟩
  · refine h.rooted.filter ?_
    intro n _ hkept p _ habove _
    simp only [decide_eq_true_eq] at hkept ⊢
    intro hp
    refine hkept ?_
    rw [habove]
    rcases hp with hp | hp
    · exact .inr (hp ▸ List.mem_cons_self)
    · exact .inr (List.mem_cons_of_mem _ hp)
  · intro n hn
    obtain ⟨hn, hout⟩ := mem_purge.mp hn
    have hnone : ¬ ((s.subtree d.node).any fun p => p.addr = n.addr) = true := by
      rw [any_subtree]
      rintro ⟨p, hp, hwithin, heq⟩
      exact hout (h.rooted.ext hp hn heq ▸ hwithin)
    rw [hfrees, if_neg hnone, h.unfreed n hn]
  · intro a
    rw [hfrees]
    split
    · rename_i hsome
      obtain ⟨n, hn, -, rfl⟩ := (any_subtree a).mp hsome
      rw [h.unfreed n hn]
    · exact h.once a
  · intro a ha
    have hle : s.next ≤ a := ha
    have hnone : ¬ ((s.subtree d.node).any fun p => p.addr = a) = true := by
      rw [any_subtree]
      rintro ⟨p, hp, -, rfl⟩
      have hlt := h.rooted.known p hp
      omega
    rw [hfrees, if_neg hnone, h.unused a hle]
  · intro m hm hmi
    exact h.hrefless m (mem_purge.mp hm).1 hmi
  · exact h.deviceIds.sublist (List.filter_sublist.map _)
  · exact h.deviceNodes.sublist (List.filter_sublist.map _)
  · intro e he
    exact h.deviceKnown e (mem_purge_devices.mp he).1
  · intro e he
    obtain ⟨he, hne⟩ := mem_purge_devices.mp he
    obtain ⟨n, hn, hna, hni⟩ := h.deviceNode e he
    exact ⟨n, mem_purge.mpr ⟨hn, h.not_within hd hchildless he hne hn hna⟩, hna, hni⟩
  · intro e he e' he' n hn hna habove
    obtain ⟨he, -⟩ := mem_purge_devices.mp he
    obtain ⟨he', -⟩ := mem_purge_devices.mp he'
    obtain ⟨hn, hout⟩ := mem_purge.mp hn
    obtain ⟨child, hchild, hparent, hwithin⟩ := h.nested e he e' he' n hn hna habove
    refine ⟨child, mem_purge_devices.mpr ⟨hchild, ?_⟩, hparent, hwithin⟩
    intro hid
    rw [List.inj_on_of_nodup_map h.deviceIds hchild hd hid] at hwithin
    exact hout hwithin

/-- A device that no item points into is removed with its subtree. -/
theorem Server.Tied.purge
    (h : s.Tied)
    (hd : d ∈ s.devices)
    (hsignOff : d.signOff = .nullifying []) :
    (s.purge d).Tied := by
  have hg := h.grown
  obtain ⟨hchildless, -, hcomplete⟩ := h.scanned d hd [] hsignOff
  have hg' := hg.purge hd hchildless
  have hout : ∀ w ∈ s.watches, ∀ item ∈ w.items, ∀ n ∈ s.nodes, item.node = some n.addr →
      ¬ n.within d := by
    intro w hw item hitem n hn hnode hwithin
    exact List.not_mem_nil (hcomplete w hw item hitem n hn hnode hwithin)
  -- neither the node of an item nor a node above it is in the subtree
  have hway : ∀ w ∈ s.watches, ∀ item ∈ w.items, ∀ n ∈ s.nodes, (item.node = some n.addr ∨
      ∃ p ∈ s.nodes, item.node = some p.addr ∧ n.addr ∈ p.above) → ¬ n.within d := by
    rintro w hw item hitem n hn (hnode | ⟨p, hp, hnode, habove⟩) hwithin
    · exact hout w hw item hitem n hn hnode hwithin
    · obtain ⟨-, q, hq, hqa, -, hsuffix⟩ := hg.rooted.mem_above hp habove
      obtain rfl := hg.rooted.ext hq hn hqa
      exact hout w hw item hitem p hp hnode (hwithin.below habove hsuffix)
  refine ⟨hg', h.watchIds, ?_, h.distinct, ?_, ?_⟩
  · intro w hw item hitem
    refine (h.fits w hw item hitem).keep hg.rooted hg'.rooted ?_ ?_ ?_
    · intro n hn _ hnode
      exact mem_purge.mpr ⟨hn, hway w hw item hitem n hn hnode⟩
    · intro m hm hmi hmeta
      refine mem_purge.mpr ⟨hm, ?_⟩
      rcases h.fits w hw item hitem with ⟨-, hnone⟩ | ⟨n, hn, q, hq, hin, hiq, -, -, -, -, habove, -⟩
      · rw [hnone] at hmeta
        cases hmeta
      · obtain rfl := hg.rooted.ext hq hm (Option.some.inj (hiq.symm.trans hmeta))
        rintro (heq | hmem)
        · -- the meta node of an item is not the node of a device
          obtain ⟨p, hp, hpa, hpi⟩ := hg.deviceNode d hd
          rw [hg.rooted.ext hm hp (heq.trans hpa.symm), hpi] at hmi
          cases hmi
        · rw [habove] at hmem
          refine hout w hw item hitem n hn hin ?_
          exact (List.mem_cons.mp hmem).imp Eq.symm fun hmem => hmem
    · intro n hn _ hnode
      have hne : d.node ≠ n.addr := fun heq => hway w hw item hitem n hn hnode (.inl heq.symm)
      have hsame : (s.purge d).deviceAt n.addr = none ↔ s.deviceAt n.addr = none := by
        unfold Server.deviceAt
        rw [List.find?_eq_none, List.find?_eq_none]
        constructor
        · intro hall e he
          by_cases hid : e.id = d.id
          · rw [List.inj_on_of_nodup_map hg.deviceIds he hd hid]
            simpa using hne
          · exact hall e (mem_purge_devices.mpr ⟨he, hid⟩)
        · exact fun hall e he => hall e (mem_purge_devices.mp he).1
      cases hold : s.deviceAt n.addr with
      | none => rw [hsame.mpr hold]
      | some e =>
          cases hnew : (s.purge d).deviceAt n.addr with
          | none =>
              rw [hsame.mp hnew] at hold
              cases hold
          | some e' => rfl
  · intro m hm hmi hquiet
    obtain ⟨hm, hnot⟩ := mem_purge.mp hm
    refine h.owned m hm hmi ?_
    intro e he habove
    by_cases hid : e.id = d.id
    · rw [List.inj_on_of_nodup_map hg.deviceIds he hd hid] at habove
      exact absurd (.inr habove) hnot
    · exact hquiet e (mem_purge_devices.mpr ⟨he, hid⟩) habove
  · intro e he todo htodo
    obtain ⟨he, hne⟩ := mem_purge_devices.mp he
    obtain ⟨hchildless', hwithin, hcomplete'⟩ := h.scanned e he todo htodo
    refine ⟨?_, ?_, ?_⟩
    · refine hasChildren_eq_false_iff.mpr ?_
      intro c hc
      exact hasChildren_eq_false_iff.mp hchildless' c (mem_purge_devices.mp hc).1
    · intro x hx
      obtain ⟨n, hn, hna, hnw, hni⟩ := hwithin x hx
      refine ⟨n, mem_purge.mpr ⟨hn, ?_⟩, hna, hnw, hni⟩
      intro hnd
      -- a node has one host
      have hhost := hg.hostOf_childless hd hchildless hn hnd
      rw [hg.hostOf_childless he hchildless' hn hnw] at hhost
      exact hne (congrArg Device.id (Option.some.inj hhost))
    · intro w hw item hitem n hn hnode hnw
      exact hcomplete' w hw item hitem n (mem_purge.mp hn).1 hnode hnw

end Purge

section Mount

variable {s : Server} {p : Device} {n : Node} {href : Text} {contract : Xml}

/-- The way from a node up to its host. -/
theorem hostOf_split
    (h : s.Grown)
    (hn : n ∈ s.nodes)
    (hhost : s.hostOf n.addr = some p) :
    ∃ pre post, n.addr :: n.above = pre ++ p.node :: post ∧ ∀ a ∈ pre, s.deviceAt a = none := by
  rw [Server.hostOf, chain_of_mem h.rooted hn] at hhost
  obtain ⟨pre, a, post, hway, ha, hpre⟩ := List.findSome?_eq_some_iff.mp hhost
  have hnode : p.node = a := by simpa using List.find?_some ha
  exact ⟨pre, post, hnode ▸ hway, hpre⟩

/-- A contract is added below a node of a device. -/
theorem Server.Grown.mount
    (h : s.Grown)
    (hp : p ∈ s.devices)
    (hn : n ∈ s.nodes)
    (hni : n.byItem = false)
    (hhost : s.hostOf n.addr = some p)
    (helement : contract.isElement = true) :
    (s.mount p n.addr href contract).Grown := by
  have hchain := chain_of_mem h.rooted hn
  unfold Server.mount
  rw [hchain]
  generalize hnew : flatten s.next (n.addr :: n.above) (s.next + 1) contract = new
  have haddr : ∀ q ∈ new, s.next + 1 ≤ q.addr ∧ q.addr < s.next + 1 + new.length := by
    intro q hq
    subst hnew
    exact addr_flatten s.next hq
  have hrooted : Rooted (s.nodes ++ new) (s.next + 1 + new.length) := by
    subst hnew
    refine h.rooted.mount s.next (Nat.le_succ _) ?_
    intro a post hway
    cases hway
    exact ⟨n, hn, rfl, rfl, hni⟩
  have hplain : ∀ q ∈ new, q.byItem = false := by
    intro q hq
    subst hnew
    exact (parent_flatten s.next _ _ contract q hq).1
  obtain ⟨root, hroot, hra, hrabove, hri⟩ : ∃ q ∈ new, q.addr = s.next + 1 ∧
      q.above = n.addr :: n.above ∧ q.byItem = false := by
    subst hnew
    exact root_flatten s.next helement
  have hdev : ∀ d ∈ s.devices, d.node < s.next := by
    intro d hd
    obtain ⟨q, hq, hqa, -⟩ := h.deviceNode d hd
    have hlt := h.rooted.known q hq
    omega
  refine ⟨hrooted, ?_, h.once, ?_, ?_, ?_, ?_, ?_, ?_, ?_⟩
  · intro q hq
    rcases List.mem_append.mp hq with hq | hq
    · exact h.unfreed q hq
    · have hge := (haddr q hq).1
      exact h.unused _ (by omega)
  · intro a ha
    have hle : s.next + 1 + new.length ≤ a := ha
    exact h.unused a (by omega)
  · intro q hq hqi
    rcases List.mem_append.mp hq with hq | hq
    · exact h.hrefless q hq hqi
    · rw [hplain q hq] at hqi
      cases hqi
  · rw [List.map_append, List.nodup_append]
    refine ⟨h.deviceIds, by simp, ?_⟩
    intro a ha b hb heq
    obtain ⟨d, hd, rfl⟩ := List.mem_map.mp ha
    have hlt := h.deviceKnown d hd
    have hb' : b = s.next := by simpa using hb
    omega
  · rw [List.map_append, List.nodup_append]
    refine ⟨h.deviceNodes, by simp, ?_⟩
    intro a ha b hb heq
    obtain ⟨d, hd, rfl⟩ := List.mem_map.mp ha
    have hlt := hdev d hd
    have hb' : b = s.next + 1 := by simpa using hb
    omega
  · intro d hd
    simp only
    rcases List.mem_append.mp hd with hd | hd
    · have hlt := h.deviceKnown d hd
      omega
    · rw [List.mem_singleton.mp hd]
      simp only
      omega
  · intro d hd
    rcases List.mem_append.mp hd with hd | hd
    · obtain ⟨q, hq, hrest⟩ := h.deviceNode d hd
      exact ⟨q, List.mem_append_left _ hq, hrest⟩
    · rw [List.mem_singleton.mp hd]
      exact ⟨root, List.mem_append_right _ hroot, hra, hri⟩
  · intro d hd e he q hq hqa habove
    -- a node above a node is an older one
    have hold : d ∈ s.devices ∧ (q ∈ s.nodes ∨ q = root) := by
      have hd' : d.node < q.addr := (hrooted.mem_above hq habove).1
      rcases List.mem_append.mp he with he | he
      · have hlt := hdev e he
        have hq' : q ∈ s.nodes := by
          rcases List.mem_append.mp hq with hq | hq
          · exact hq
          · have hge := (haddr q hq).1
            omega
        refine ⟨?_, .inl hq'⟩
        rcases List.mem_append.mp hd with hd | hd
        · exact hd
        · rw [List.mem_singleton.mp hd] at hd'
          simp only at hd'
          omega
      · rw [List.mem_singleton.mp he] at hqa
        have hq' : q = root :=
          hrooted.ext hq (List.mem_append_right _ hroot) (hqa.trans hra.symm)
        refine ⟨?_, .inr hq'⟩
        rcases List.mem_append.mp hd with hd | hd
        · exact hd
        · rw [List.mem_singleton.mp hd] at hd'
          simp only at hd' hqa
          omega
    obtain ⟨hd, hq | rfl⟩ := hold
    · have he' : e ∈ s.devices := by
        rcases List.mem_append.mp he with he | he
        · exact he
        · rw [List.mem_singleton.mp he] at hqa
          have hlt := h.rooted.known q hq
          simp only at hqa
          omega
      obtain ⟨child, hchild, hparent, hwithin⟩ := h.nested d hd e he' q hq hqa habove
      exact ⟨child, List.mem_append_left _ hchild, hparent, hwithin⟩
    · by_cases hdp : d.id = p.id
      · -- the new device is a child of its parent
        refine ⟨_, List.mem_append_right _ List.mem_cons_self, ?_, .inl hra⟩
        simp only
        rw [hdp]
      · obtain ⟨pre, post, hway, hpre⟩ := hostOf_split h hn hhost
        have hne : d.node ≠ p.node := by
          intro heq
          exact hdp (congrArg Device.id (List.inj_on_of_nodup_map h.deviceNodes hd hp heq))
        have hpost : d.node ∈ post := by
          rw [hrabove, hway] at habove
          rcases List.mem_append.mp habove with hmem | hmem
          · have hnone := hpre _ hmem
            rw [h.deviceAt_node hd] at hnone
            cases hnone
          · exact (List.mem_cons.mp hmem).resolve_left hne
        -- the other devices above it are above its parent
        obtain ⟨q, hq', hqp, hqpost⟩ : ∃ q ∈ s.nodes, q.addr = p.node ∧ q.above = post := by
          cases pre with
          | nil =>
              simp only [List.nil_append, List.cons.injEq] at hway
              exact ⟨n, hn, hway.1, hway.2⟩
          | cons b pre =>
              simp only [List.cons_append, List.cons.injEq] at hway
              obtain ⟨-, q, hq', hqp, hqpost, -⟩ := h.rooted.ancestor hn pre hway.2
              exact ⟨q, hq', hqp, hqpost⟩
        obtain ⟨child, hchild, hparent, hwithin⟩ :=
          h.nested d hd p hp q hq' hqp (hqpost ▸ hpost)
        refine ⟨child, List.mem_append_left _ hchild, hparent, .inr ?_⟩
        rw [hrabove, hway]
        rcases hwithin with hwithin | hwithin
        · rw [← hwithin, hqp]
          simp
        · rw [hqpost] at hwithin
          simp [hwithin]

theorem Server.Tied.mount
    (h : s.Tied)
    (hp : p ∈ s.devices)
    (hup : p.up = true)
    (hn : n ∈ s.nodes)
    (hni : n.byItem = false)
    (hhost : s.hostOf n.addr = some p)
    (helement : contract.isElement = true) :
    (s.mount p n.addr href contract).Tied := by
  have hg := h.grown
  have hg' : (s.mount p n.addr href contract).Grown := hg.mount hp hn hni hhost helement
  have hnodes : ∀ q ∈ (s.mount p n.addr href contract).nodes,
      q ∈ s.nodes ∨ q.byItem = false ∧ s.next < q.addr := by
    intro q hq
    rcases List.mem_append.mp hq with hq | hq
    · exact .inl hq
    · exact .inr ⟨(parent_flatten s.next _ _ contract q hq).1, (addr_flatten s.next hq).1⟩
  have hdevice : ∀ d ∈ (s.mount p n.addr href contract).devices,
      d ∈ s.devices ∨ d.signOff = .no ∧ d.parent = some p.id := by
    intro d hd
    rcases List.mem_append.mp hd with hd | hd
    · exact .inl hd
    · rw [List.mem_singleton.mp hd]
      exact .inr ⟨rfl, rfl⟩
  refine ⟨hg', h.watchIds, ?_, h.distinct, ?_, ?_⟩
  · intro w hw item hitem
    refine (h.fits w hw item hitem).keep hg.rooted hg'.rooted
      (fun q hq _ _ => List.mem_append_left _ hq) (fun q hq _ _ => List.mem_append_left _ hq) ?_
    intro q hq _ _
    have hlt := hg.rooted.known q hq
    have hne : s.next + 1 ≠ q.addr := by omega
    unfold Server.deviceAt Server.mount
    rw [List.find?_append]
    simp [hne]
  · intro m hm hmi hquiet
    rcases hnodes m hm with hm | ⟨hplain, -⟩
    · exact h.owned m hm hmi fun d hd => hquiet d (List.mem_append_left _ hd)
    · rw [hplain] at hmi
      cases hmi
  · intro d hd todo htodo
    rcases hdevice d hd with hd | ⟨hno, -⟩
    · obtain ⟨hchildless, hwithin, hcomplete⟩ := h.scanned d hd todo htodo
      refine ⟨?_, ?_, ?_⟩
      · refine hasChildren_eq_false_iff.mpr ?_
        intro e he
        rcases List.mem_append.mp he with he | he
        · exact hasChildren_eq_false_iff.mp hchildless e he
        · rw [List.mem_singleton.mp he]
          intro hparent
          -- the parent of the new device is not being removed
          have hid : p.id = d.id := Option.some.inj hparent
          rw [List.inj_on_of_nodup_map hg.deviceIds hp hd hid] at hup
          simp [Device.up, htodo] at hup
      · intro x hx
        obtain ⟨q, hq, hrest⟩ := hwithin x hx
        exact ⟨q, List.mem_append_left _ hq, hrest⟩
      · intro w hw item hitem q hq hnode hqw
        rcases hnodes q hq with hq | ⟨-, hlt⟩
        · exact hcomplete w hw item hitem q hq hnode hqw
        · rcases h.fits w hw item hitem with ⟨hnone, -⟩ | ⟨r, hr, -, -, hir, -⟩
          · rw [hnone] at hnode
            cases hnode
          · have hlt' := hg.rooted.known r hr
            have heq := Option.some.inj (hir.symm.trans hnode)
            omega
    · rw [hno] at htodo
      cases htodo

end Mount

section Runs

variable {s t : Server} {x : Step}

/-- The watch that has been notified has no item left for the node. -/
theorem Server.Tied.scanned_erase
    {d : Device} {todo : List (Nat × Nat)} {y : Nat × Nat}
    (h : s.Tied)
    (hd : d ∈ s.devices)
    (htodo : d.signOff = .nullifying todo)
    (hy : y ∈ todo)
    (hup : (s.watch? y.1).all (fun w => decide (w.life = .up)) = true) :
    (s.notify y.1 y.2 true).Scanned d (todo.erase y) := by
  have hnotified := (h.nullify hd htodo hy).scanned d hd todo htodo
  refine ⟨hnotified.childless, fun x hx => hnotified.within x (List.mem_of_mem_erase hx), ?_⟩
  intro w hw item hitem n hn hnode hwithin
  have hmem := hnotified.complete w hw item hitem n hn hnode hwithin
  refine (List.mem_erase_of_ne ?_).mpr hmem
  rintro rfl
  obtain ⟨u, hu, huw⟩ := List.mem_map.mp hw
  have hid : u.id = w.id := by
    rw [← huw]
    split <;> rfl
  have hlife : u.life = .up := by
    have hfind : s.watch? w.id = some u := hid ▸ watch?_of_mem h.watchIds hu
    rw [hfind] at hup
    simpa using hup
  -- so that its items have been notified
  rw [if_pos ⟨hid, hlife⟩] at huw
  rw [← huw] at hitem
  obtain ⟨old, -, rfl⟩ := List.mem_map.mp hitem
  by_cases hold : old.node = some n.addr
  · simp [Item.notified, hold] at hnode
  · simp [Item.notified, hold] at hnode

/-- One orderly step. -/
theorem Server.Tied.step
    (h : s.Tied)
    (hok : s.orderly x = true)
    (hstep : s.step x = some t) :
    t.Tied := by
  cases x with
  | signUp p n href contract =>
      obtain ⟨dev, hdev, hstep⟩ := Option.bind_eq_some_iff.mp hstep
      split at hstep
      · rename_i hcheck
        obtain ⟨hup, hhost, hnode, helement⟩ := hcheck
        cases hstep
        cases hq : s.node? n with
        | none =>
            rw [hq] at hnode
            cases hnode
        | some q =>
            rw [hq] at hnode
            obtain ⟨hmem, rfl⟩ := mem_of_node? hq
            exact h.mount (device?_mem hdev).1 hup hmem (by simpa using hnode) hhost helement
      · cases hstep
  | make id =>
      simp only [Server.step] at hstep
      split at hstep
      · cases hstep
      · rename_i hnone
        cases hstep
        exact h.make (by simpa using hnone)
  | add id href =>
      obtain ⟨w, hw, rfl⟩ := Option.map_eq_some_iff.mp hstep
      obtain ⟨hmem, -⟩ := watch?_mem hw
      split
      · rename_i hlife
        refine h.createItem hmem ?_
        simp only [Server.orderly, hw, Option.all_some, hlife, ne_eq, not_true, decide_false,
          Bool.false_or, Bool.or_eq_true] at hok
        refine hok.imp_right ?_
        intro hall d a hplace
        simpa [hplace] using hall
      · exact h
  | remove id href =>
      obtain ⟨w, hw, rfl⟩ := Option.map_eq_some_iff.mp hstep
      obtain ⟨hmem, -⟩ := watch?_mem hw
      split
      · rename_i hlife
        refine h.removeItem hmem ?_
        simp only [Server.orderly, hw, Option.all_some, hlife, ne_eq, not_true, decide_false,
          Bool.false_or] at hok
        intro item hitem
        rw [Option.mem_def.mp hitem] at hok
        exact hok
      · exact h
  | closeWatch id =>
      obtain ⟨w, -, hstep⟩ := Option.bind_eq_some_iff.mp hstep
      split at hstep <;> cases hstep
      exact h.setLife id .closing
  | unlist id =>
      obtain ⟨w, -, hstep⟩ := Option.bind_eq_some_iff.mp hstep
      split at hstep <;> cases hstep
      exact h.setLife id .unlisted
  | disposeItem id =>
      obtain ⟨w, hw, hstep⟩ := Option.bind_eq_some_iff.mp hstep
      obtain ⟨hmem, rfl⟩ := watch?_mem hw
      split at hstep
      · obtain ⟨item, hitem, rfl⟩ := Option.map_eq_some_iff.mp hstep
        refine h.deleteItem hmem (List.mem_of_mem_head? hitem) ?_
        simpa [Server.orderly, hw, hitem] using hok
      · cases hstep
  | dispose id =>
      obtain ⟨w, hw, hstep⟩ := Option.bind_eq_some_iff.mp hstep
      obtain ⟨hmem, rfl⟩ := watch?_mem hw
      split at hstep
      · rename_i hdone
        cases hstep
        exact h.dispose hmem hdone.2
      · cases hstep
  | closeDevice id =>
      obtain ⟨d, hd, hstep⟩ := Option.bind_eq_some_iff.mp hstep
      obtain ⟨hmem, rfl⟩ := device?_mem hd
      split at hstep
      · rename_i hup
        cases hstep
        refine h.setSignOff d.id .begun ?_ ?_
        · intro e he hid todo htodo
          rw [List.inj_on_of_nodup_map h.grown.deviceIds he hmem hid] at htodo
          simp [Device.up, htodo] at hup
        · intro e _ _ todo htodo
          cases htodo
      · cases hstep
  | revoke id =>
      obtain ⟨d, hd, hstep⟩ := Option.bind_eq_some_iff.mp hstep
      obtain ⟨hmem, rfl⟩ := device?_mem hd
      split at hstep
      · rename_i hbegun
        cases hstep
        refine h.setSignOff d.id .no ?_ ?_
        · intro e he hid todo htodo
          rw [List.inj_on_of_nodup_map h.grown.deviceIds he hmem hid, hbegun.1] at htodo
          cases htodo
        · intro e _ _ todo htodo
          cases htodo
      · cases hstep
  | scan id =>
      obtain ⟨d, hd, hstep⟩ := Option.bind_eq_some_iff.mp hstep
      obtain ⟨hmem, rfl⟩ := device?_mem hd
      split at hstep
      · rename_i hbegun
        cases hstep
        have hchildless : s.hasChildren d = false := by simpa using hbegun.2
        refine h.setSignOff d.id (.nullifying (s.marks d)) ?_ ?_
        · intro e _ _ todo _
          exact ⟨_, rfl⟩
        · intro e he hid todo htodo
          obtain rfl := List.inj_on_of_nodup_map h.grown.deviceIds he hmem hid
          cases htodo
          refine ⟨hchildless, fun y hy => h.grown.within_of_mem_marks hy, ?_⟩
          intro w hw item hitem n hn hnode hwithin
          rcases h.fits w hw item hitem with ⟨hnone, -⟩ |
            ⟨q, hq, m, hm, hiq, -, -, -, hmeta, hid, habove, hshown⟩
          · rw [hnone] at hnode
            cases hnode
          · obtain rfl := h.grown.rooted.ext hq hn (Option.some.inj (hiq.symm.trans hnode))
            exact h.grown.mem_marks hmem hchildless hq hwithin hm hmeta hid habove hshown
      · cases hstep
  | nullify id y =>
      obtain ⟨d, hd, hstep⟩ := Option.bind_eq_some_iff.mp hstep
      obtain ⟨hmem, rfl⟩ := device?_mem hd
      split at hstep
      · rename_i todo htodo
        split at hstep
        · rename_i hy
          cases hstep
          refine (h.nullify hmem htodo hy).setSignOff d.id (.nullifying (todo.erase y)) ?_ ?_
          · intro e _ _ todo' _
            exact ⟨_, rfl⟩
          · intro e he hid todo' htodo'
            obtain rfl := List.inj_on_of_nodup_map h.grown.deviceIds he hmem hid
            cases htodo'
            exact h.scanned_erase hmem htodo hy hok
        · cases hstep
      · cases hstep
  | purge id =>
      obtain ⟨d, hd, hstep⟩ := Option.bind_eq_some_iff.mp hstep
      split at hstep
      · rename_i hnone
        cases hstep
        exact h.purge (device?_mem hd).1 hnone
      · cases hstep

theorem tied_start (placeholders : List Xml) : (Server.start placeholders).Tied := by
  have hrooted : Rooted (Server.start placeholders).nodes (Server.start placeholders).next := by
    have hempty : Rooted [] 0 := ⟨List.nodup_nil, by simp, by simp⟩
    have hmount : Rooted ([] ++ flatten 0 [] 0 (deviceRootNode placeholders))
        (0 + (flatten 0 [] 0 (deviceRootNode placeholders)).length) :=
      hempty.mount 0 le_rfl (by simp)
    simpa [Server.start] using hmount
  have hplain : ∀ n ∈ (Server.start placeholders).nodes, n.byItem = false :=
    fun n hn => (parent_flatten 0 [] 0 (deviceRootNode placeholders) n hn).1
  obtain ⟨root, hroot, hra, -, hri⟩ :
      ∃ n ∈ (Server.start placeholders).nodes, n.addr = 0 ∧ n.above = [] ∧ n.byItem = false :=
    root_flatten 0 rfl
  refine ⟨⟨hrooted, fun _ _ => rfl, fun _ => Nat.zero_le _, fun _ _ => rfl, ?_, ?_, ?_, ?_, ?_, ?_⟩,
    ?_, ?_, ?_, ?_, ?_⟩
  · intro m hm hmi
    rw [hplain m hm] at hmi
    cases hmi
  · exact List.nodup_singleton _
  · exact List.nodup_singleton _
  · intro d hd
    rw [List.mem_singleton.mp hd]
    exact Nat.lt_of_le_of_lt (Nat.zero_le _) (hrooted.known root hroot)
  · intro d hd
    rw [List.mem_singleton.mp hd]
    exact ⟨root, hroot, hra, hri⟩
  · intro d hd e he n hn hna habove
    rw [List.mem_singleton.mp he] at hna
    have hlt := (hrooted.mem_above hn habove).1
    simp only at hna
    omega
  · exact List.nodup_nil
  · intro w hw
    cases hw
  · exact List.nodup_nil
  · intro m hm hmi
    rw [hplain m hm] at hmi
    cases hmi
  · intro d hd todo htodo
    rw [List.mem_singleton.mp hd] at htodo
    cases htodo

/-- Items and meta nodes stay linked in every run in which no item is made or deleted in a device
that is being removed or below a meta node, and no device is removed while a watch with a meta
node in it is being deleted. -/
theorem items_stay_linked
    (s : Server)
    (hs : Reachable (fun s x => s.orderly x = true) s) :
    s.ItemsLinked := by
  have htied : s.Tied := by
    induction hs with
    | start placeholders => exact tied_start placeholders
    | step _ hok hstep ih => exact ih.step hok hstep
  exact htied.itemsLinked

/-- A run of steps. -/
def Server.exec (s : Server) (xs : List Step) : Option Server := xs.foldlM Server.step s

/-- The run meets a condition at each of its steps. -/
def Server.meets (ok : Server → Step → Bool) (s : Server) : List Step → Bool
  | [] => true
  | x :: xs => ok s x && (s.step x).all fun t => t.meets ok xs

theorem Reachable.exec
    {ok : Server → Step → Bool}
    (hs : Reachable (fun s x => ok s x = true) s)
    (xs : List Step)
    (hmeets : s.meets ok xs = true)
    (hexec : s.exec xs = some t) :
    Reachable (fun s x => ok s x = true) t := by
  induction xs generalizing s with
  | nil =>
      cases hexec
      exact hs
  | cons x xs ih =>
      obtain ⟨u, hu, hexec⟩ := Option.bind_eq_some_iff.mp hexec
      rw [Server.meets, Bool.and_eq_true, hu] at hmeets
      exact ih (hs.step hmeets.1 hu) hmeets.2 hexec

/-- A device with one object in it. -/
def lampContract : Xml :=
  .element none "obj".toList [(attrName, "d".toList), (attrHref, "d".toList)]
    [.element none "bool".toList [(attrHref, "x".toList), (attrVal, "false".toList)] []]

def lampHref : Text := "/obix/deviceRoot/d/".toList

/-- The device is signed up and a client monitors it. -/
def watchLamp : List Step := [.signUp 0 0 lampHref lampContract, .make 0, .add 0 lampHref]

theorem items_stay_linked_lamp :
    ∃ s, (Server.start []).exec watchLamp = some s ∧
      s.items.map Item.metaNode = [some 4] ∧ s.ItemsLinked := by
  have hs : Reachable (fun s x => s.orderly x = true) (Server.start []) := .start []
  have hmeets : (Server.start []).meets Server.orderly watchLamp = true := by decide +kernel
  have hsome : ((Server.start []).exec watchLamp).isSome = true := by decide +kernel
  obtain ⟨s, hexec⟩ := Option.isSome_iff_exists.mp hsome
  refine ⟨s, hexec, ?_, items_stay_linked s (hs.exec watchLamp hmeets hexec)⟩
  have hitems : ((Server.start []).exec watchLamp).map (fun s => s.items.map Item.metaNode) =
      some [some 4] := by decide +kernel
  rw [hexec] at hitems
  exact Option.some.inj hitems

/-- The client removes its item while the device is being signed off. -/
def unwatchLeaving : List Step := watchLamp ++ [.closeDevice 1, .remove 0 lampHref]

theorem items_not_linked :
    ¬ ∀ s, Reachable (fun _ _ => True) s → s.ItemsLinked := by
  intro hall
  have hsome : ((Server.start []).exec unwatchLeaving).isSome = true := by decide +kernel
  obtain ⟨s, hexec⟩ := Option.isSome_iff_exists.mp hsome
  have hs : Reachable (fun _ _ => True) s := by
    have hmeets : (Server.start []).meets (fun _ _ => true) unwatchLeaving = true := by
      decide +kernel
    have hreach : Reachable (fun s x => (fun _ _ => true : Server → Step → Bool) s x = true) s :=
      Reachable.exec (.start []) unwatchLeaving hmeets hexec
    simpa using hreach
  -- the meta node is still in the tree
  have hfreed : ((Server.start []).exec unwatchLeaving).map
      (fun s => s.nodes.any fun n => n.addr = 4 ∧ s.frees n.addr = 1) = some true := by
    decide +kernel
  rw [hexec] at hfreed
  obtain ⟨n, hn, hfree⟩ := List.any_eq_true.mp (Option.some.inj hfreed)
  have hzero := (hall s hs).linkedUnfreed n hn
  simp [hzero] at hfree

end Runs

end Monitoring
end Obix
