import Obix.Device.Nesting
import Obix.Server.Owners

/-!
# What a contract file holds

`__device_dump_device` writes the subtree of a device, or a copy of it without the nodes of other
devices when the list of its children is not empty.  Either way exactly the nodes of the device are
written (`deviceDumpDevice_own`), as long as the meta nodes of watches are linked under hrefs that
show the registered devices they lead through.

A second slash leads `Watch.add` to a node of a child, and the meta node that is linked there
belongs to the parent (`deviceDumpDevice_other`).
-/

namespace Obix
namespace Serving

open CString XmlNode Devices

section Lines

variable {ω : Type}

/-- A node of a tree in document order. -/
structure Line (ω : Type) where
  owner : Option ω
  depth : Nat
  /-- What is written of it, besides its children. -/
  label : Xml

mutual

/-- The nodes of a tree in document order. -/
def lines (depth : Nat) : XmlNode ω → List (Line ω)
  | .element o name attrs cs =>
      { owner := o, depth := depth, label := .element none name attrs [] } ::
        linesAll (depth + 1) cs
  | .text o content => [{ owner := o, depth := depth, label := .text none content }]
  | .comment o content => [{ owner := o, depth := depth, label := .comment none content }]

def linesAll (depth : Nat) : List (XmlNode ω) → List (Line ω)
  | [] => []
  | c :: cs => lines depth c ++ linesAll depth cs

end

/-- What is written of a node, and how deep. -/
def Line.entry (l : Line ω) : Nat × Xml := (l.depth, l.label)

/-- A tree without descriptors, node by node. -/
def outline (n : XmlNode ω) : List (Nat × Xml) := (lines 0 n).map Line.entry

variable [DecidableEq ω]

/-- The nodes of a descriptor. -/
def ownLines (i : ω) (depth : Nat) (n : XmlNode ω) : List (Line ω) :=
  (lines depth n).filter fun l => l.owner = some i

def ownLinesAll (i : ω) (depth : Nat) (cs : List (XmlNode ω)) : List (Line ω) :=
  (linesAll depth cs).filter fun l => l.owner = some i

end Lines

section Functions

/-- The tree that `__device_dump_device` writes. -/
def savedTree (i : Nat) (dev : ObixDev) (node : XmlNode Nat) : Xml :=
  if dev.children = [] then bare node else deviceCopyNoChild i node

/-- The file of a device holds its nodes, and nothing else. -/
structure HoldsOwn (s : Store) (i : Nat) (dev : ObixDev) (node : XmlNode Nat) : Prop where
  written : deviceDumpDevice i dev node = xmlDumpNode (savedTree i dev node)
  nodes : outline (savedTree i dev node) = (ownLines i 0 node).map Line.entry
  /-- The device has no other nodes. -/
  complete : (ownLines i 0 s.dom).map Line.label = (ownLines i 0 node).map Line.label
  paths : dev.children = [] → bare node = deviceCopyNoChild i node

/-- A meta node of `watch_item_init` that has been linked. -/
def isWatchMeta : XmlNode Nat → Bool
  | .element (some _) name [(attr, _)] [] =>
      decide (name = Watches.objMeta) && decide (attr = Monitoring.attrWatchId)
  | _ => false

namespace Store

variable (s : Store)

/-- `device_unlink_single_node` without a backup.  The meta node whose address the watch item has is
child number `k` of the node at `place`; without such a node there is no call. -/
def deviceUnlinkSingleNode (href : Text) (k : Nat) (place : List Nat) : Option (ErrCode × Store) :=
  if (s.dom.childOf k place).any isWatchMeta then
    match s.deviceFind href with
    | (none, reg) => some (.deviceNoSuchUri, { s with reg := reg })
    | (some i, reg) =>
        (reg.heap i).map fun _ =>
          let out : Store := { s with reg := reg.put i }
          if (reg.sync i).writerRequest.isNone then (.invalidState, out)
          else (.success, out.withDom (reg.dom.unlinkAt k place))
  else none

end Store

/-- What is done to the devices and to the tree, by watches as well. -/
inductive Doing
  | act (x : Action)
  | unlink (href : Text) (k : Nat) (place : List Nat)

/-- One of these. -/
def Store.perform (s : Store) : Doing → Option Store
  | .act x => s.step x
  | .unlink href k place => (s.deviceUnlinkSingleNode href k place).map Prod.snd

/-- No device is signed up at a href that has a node in its parent already. -/
def Store.SignsUpFresh (s : Store) (x : Doing) : Prop :=
  ∀ t i dev p e, s.perform x = some t → s.reg.heap i = none → t.reg.heap i = some dev →
    dev.parent = some p → s.reg.heap p = some e → s.reg.deviceGetNodeCore p e dev.href = none

/-- A meta node is linked under a node only if its href shows the registered devices that it leads
through. -/
def Store.LinksSpelled (s : Store) : Doing → Prop
  | .act (.link href _) => s.deviceReached href ≠ none → Spelled s.reg href
  | _ => True

/-- Nothing hides a device. -/
def Store.Careful (s : Store) (x : Doing) : Prop :=
  s.SignsUpFresh x ∧ s.LinksSpelled x

end Functions

section Trees

variable {up : Nat → Option Nat} {rank : Nat → Nat} {i : Nat} {n m : XmlNode Nat}

theorem ownLinesAll_cons (i depth : Nat) (c : XmlNode Nat) (cs : List (XmlNode Nat)) :
    ownLinesAll i depth (c :: cs) = ownLines i depth c ++ ownLinesAll i depth cs :=
  List.filter_append ..

mutual

/-- A tree without nodes of a descriptor. -/
theorem ownLines_of_fresh (depth : Nat) :
    ∀ n : XmlNode Nat, ownNode i n = none → ownLines i depth n = []
  | .element o name attrs cs, hn => by
      obtain ⟨ho, hcs⟩ := ownNode_eq_none.mp hn
      have ho : o ≠ some i := ho
      rw [ownLines, lines, List.filter_cons_of_neg (by simpa using ho)]
      exact ownLinesAll_of_fresh (depth + 1) cs (ownNodeAll_eq_none.mpr hcs)
  | .text o content, hn => by
      have ho : o ≠ some i := owner_of_ownNode hn
      rw [ownLines, lines, List.filter_cons_of_neg (by simpa using ho)]
      rfl
  | .comment o content, hn => by
      have ho : o ≠ some i := owner_of_ownNode hn
      rw [ownLines, lines, List.filter_cons_of_neg (by simpa using ho)]
      rfl

theorem ownLinesAll_of_fresh (depth : Nat) :
    ∀ cs : List (XmlNode Nat), ownNodeAll i cs = none → ownLinesAll i depth cs = []
  | [], _ => rfl
  | c :: cs, h => by
      have hall := ownNodeAll_eq_none.mp h
      have hcs := ownNodeAll_eq_none.mpr fun d hd => hall d (List.mem_cons_of_mem c hd)
      rw [ownLinesAll_cons, ownLines_of_fresh depth c (hall c List.mem_cons_self),
        ownLinesAll_of_fresh depth cs hcs]
      rfl

end

mutual

/-- The copy without the nodes of other devices. -/
theorem lines_deviceCopyNoChild
    (hrank : ∀ d p, up d = some p → rank p < rank d)
    (depth : Nat) :
    ∀ n : XmlNode Nat, Nested up n → n.owner = some i →
      (lines depth (deviceCopyNoChild i n)).map Line.entry = (ownLines i depth n).map Line.entry
  | .element o name attrs cs, hn, hi => by
      have ho : o = some i := hi
      have hall : ∀ c ∈ cs, (c.owner = some i ∨ ownNode i c = none) ∧ Nested up c := by
        intro c hc
        have hchild : Nested up c := hn.child hc
        refine ⟨?_, hchild⟩
        rcases hn.enters hc with hsame | ⟨-, d, hd, hup⟩
        · exact .inl (hsame.trans hi)
        · exact .inr (hchild.fresh_of_rank hrank hd (hrank d i (hup.trans hi)))
      have hrest := linesAll_copyOwnAll hrank (depth + 1) cs hall
      rw [deviceCopyNoChild, lines, ownLines, lines, List.filter_cons_of_pos (by simpa using ho),
        List.map_cons, List.map_cons, hrest]
      rfl
  | .text o content, _, hi => by
      have ho : o = some i := hi
      rw [deviceCopyNoChild, lines, ownLines, lines, List.filter_cons_of_pos (by simpa using ho)]
      rfl
  | .comment o content, _, hi => by
      have ho : o = some i := hi
      rw [deviceCopyNoChild, lines, ownLines, lines, List.filter_cons_of_pos (by simpa using ho)]
      rfl

theorem linesAll_copyOwnAll
    (hrank : ∀ d p, up d = some p → rank p < rank d)
    (depth : Nat) :
    ∀ cs : List (XmlNode Nat),
      (∀ c ∈ cs, (c.owner = some i ∨ ownNode i c = none) ∧ Nested up c) →
      (linesAll depth (copyOwnAll i cs)).map Line.entry = (ownLinesAll i depth cs).map Line.entry
  | [], _ => rfl
  | c :: cs, hall => by
      obtain ⟨hc, hnested⟩ := hall c List.mem_cons_self
      have hrest := linesAll_copyOwnAll hrank depth cs fun d hd =>
        hall d (List.mem_cons_of_mem c hd)
      rw [copyOwnAll, ownLinesAll_cons, List.map_append]
      split
      · rename_i hi
        rw [linesAll, List.map_append, lines_deviceCopyNoChild hrank depth c hnested hi, hrest]
      · rename_i hi
        rw [ownLines_of_fresh depth c (hc.resolve_left hi), hrest]
        rfl

end

mutual

/-- A device without children has the whole subtree. -/
theorem deviceCopyNoChild_of_leaf
    (hleaf : ∀ d, up d ≠ some i) :
    ∀ n : XmlNode Nat, Nested up n → n.owner = some i → bare n = deviceCopyNoChild i n
  | .element o name attrs cs, hn, hi => by
      rw [bare, deviceCopyNoChild, copyOwnAll_of_leaf hleaf cs fun c hc =>
        ⟨hn.owner_of_leaf hleaf hi hc, hn.child hc⟩]
  | .text _ _, _, _ => rfl
  | .comment _ _, _, _ => rfl

theorem copyOwnAll_of_leaf
    (hleaf : ∀ d, up d ≠ some i) :
    ∀ cs : List (XmlNode Nat), (∀ c ∈ cs, c.owner = some i ∧ Nested up c) →
      bareAll cs = copyOwnAll i cs
  | [], _ => rfl
  | c :: cs, hall => by
      obtain ⟨hi, hc⟩ := hall c List.mem_cons_self
      rw [bareAll, copyOwnAll, if_pos hi, deviceCopyNoChild_of_leaf hleaf c hc hi,
        copyOwnAll_of_leaf hleaf cs fun d hd => hall d (List.mem_cons_of_mem c hd)]

end

mutual

/-- It does not matter how deep a tree is. -/
theorem label_ownLines (depth depth' : Nat) :
    ∀ n : XmlNode Nat,
      (ownLines i depth n).map Line.label = (ownLines i depth' n).map Line.label
  | .element o name attrs cs => by
      have hrest := label_ownLinesAll (depth + 1) (depth' + 1) cs
      by_cases ho : o = some i
      · rw [ownLines, ownLines, lines, lines, List.filter_cons_of_pos (by simpa using ho),
          List.filter_cons_of_pos (by simpa using ho), List.map_cons, List.map_cons]
        exact congrArg _ hrest
      · rw [ownLines, ownLines, lines, lines, List.filter_cons_of_neg (by simpa using ho),
          List.filter_cons_of_neg (by simpa using ho)]
        exact hrest
  | .text o content => by
      by_cases ho : o = some i <;> simp [ownLines, lines, ho]
  | .comment o content => by
      by_cases ho : o = some i <;> simp [ownLines, lines, ho]

theorem label_ownLinesAll (depth depth' : Nat) :
    ∀ cs : List (XmlNode Nat),
      (ownLinesAll i depth cs).map Line.label = (ownLinesAll i depth' cs).map Line.label
  | [] => rfl
  | c :: cs => by
      rw [ownLinesAll_cons, ownLinesAll_cons, List.map_append, List.map_append,
        label_ownLines depth depth' c, label_ownLinesAll depth depth' cs]

end

mutual

/-- All nodes of a descriptor are below its own. -/
theorem label_ownLines_own (depth : Nat) :
    ∀ n : XmlNode Nat, Single i n → ownNode i n = some m →
      (ownLines i depth n).map Line.label = (ownLines i 0 m).map Line.label
  | .element o name attrs cs, hn, hown => by
      rw [ownNode] at hown
      split at hown
      · obtain rfl := Option.some.inj hown
        exact label_ownLines depth 0 _
      · rename_i ho
        rw [ownLines, lines, List.filter_cons_of_neg (by simpa using ho)]
        exact label_ownLinesAll_own (depth + 1) cs (hn.resolve_left ho) hown
  | .text o content, _, hown => by
      rw [ownNode] at hown
      split at hown
      · obtain rfl := Option.some.inj hown
        exact label_ownLines depth 0 _
      · cases hown
  | .comment o content, _, hown => by
      rw [ownNode] at hown
      split at hown
      · obtain rfl := Option.some.inj hown
        exact label_ownLines depth 0 _
      · cases hown

theorem label_ownLinesAll_own (depth : Nat) :
    ∀ cs : List (XmlNode Nat), SingleAll i cs → ownNodeAll i cs = some m →
      (ownLinesAll i depth cs).map Line.label = (ownLines i 0 m).map Line.label
  | [], _, hown => by cases hown
  | c :: cs, ⟨hone, hc, hcs⟩, hown => by
      rw [ownLinesAll_cons, List.map_append]
      rw [ownNodeAll] at hown
      cases hfirst : ownNode i c with
      | none =>
          rw [hfirst] at hown
          rw [ownLines_of_fresh depth c hfirst, label_ownLinesAll_own depth cs hcs hown]
          rfl
      | some k =>
          rw [hfirst] at hown
          have hkm : k = m := Option.some.inj hown
          have hrest : ownNodeAll i cs = none := hone.resolve_left (by rw [hfirst]; simp)
          rw [ownLinesAll_of_fresh depth cs hrest, label_ownLines_own depth c hc (hkm ▸ hfirst)]
          exact List.append_nil _

end

end Trees

section Steps

variable {s t : Store} {href : Text}

/-- What a store keeps as long as nothing hides a device. -/
structure Arranged (s : Store) : Prop where
  sound : Sound s
  nesting : Nesting s.reg

theorem Arranged.ordered
    (hs : Arranged s) :
    Ordered s :=
  ⟨hs.sound, hs.nesting.placed⟩

/-- The devices are the same, and so are the ways. -/
theorem Arranged.of_dom
    (hs : Arranged s)
    (ht : Ordered t)
    (hheap : t.reg.heap = s.reg.heap)
    (hnested : Nested s.reg.up s.dom → Nested s.reg.up t.dom)
    (hseat : ∀ q e, s.reg.heap q = some e → KeepsSeat q s.dom t.dom) :
    Arranged t :=
  ⟨ht.sound, hs.nesting.of_dom ht.placed hheap hnested hseat⟩

/-- The tree is the same. -/
theorem Arranged.of_same
    (hs : Arranged s)
    (ht : Ordered t)
    (hheap : t.reg.heap = s.reg.heap)
    (hdom : t.dom = s.dom) :
    Arranged t :=
  hs.of_dom ht hheap (fun hn => hdom.symm ▸ hn) fun q _ _ => hdom.symm ▸ .refl q _

/-- The search finds a device, or not; nothing else happens to the devices and the tree. -/
theorem deviceLinkSingleNode_cases
    {x : Xml} {l : Linking}
    (h : s.deviceLinkSingleNode href x = some l) :
    l.store.reg.heap = s.reg.heap ∧
      (l.store.dom = s.dom ∨ ∃ i parent, s.deviceReached href = some (i, parent) ∧
        Altered (fun k k' => k = parent ∧ k' = addChild (stampNode i x) k) s.dom l.store.dom) := by
  rw [Store.deviceLinkSingleNode] at h
  split at h
  · rename_i reg hfind
    obtain ⟨hheap, -, hdom, -⟩ := deviceFind_same hfind
    obtain rfl := Option.some.inj h
    exact ⟨hheap, .inl hdom⟩
  · rename_i i reg hfind
    obtain ⟨hheap, -, hdom, -⟩ := deviceFind_same hfind
    obtain ⟨dev, hdev, rfl⟩ := Option.map_eq_some_iff.mp h
    dsimp only
    split
    · exact ⟨hheap, .inl hdom⟩
    · split
      · exact ⟨hheap, .inl hdom⟩
      · rename_i parent hparent
        refine ⟨hheap, .inr ⟨i, parent, deviceReached_of_node hfind hdev hparent, ?_⟩⟩
        obtain ⟨own, hown, hget⟩ := Registry.getAt_of_deviceGetNodeCore hparent
        show Altered _ s.reg.dom (modifyOwn i _ reg.dom)
        rw [← hdom]
        refine ((altered_modifyOwn reg.dom hown).mono ?_).join
        rintro k k' ⟨rfl, rfl⟩
        refine (altered_modifyAt hget).mono ?_
        rintro k k' ⟨rfl, rfl⟩
        exact ⟨rfl, rfl⟩

/-- A meta node gets into the part of its device. -/
theorem Arranged.link
    {id : Nat} {l : Linking}
    (hs : Arranged s)
    (hspelled : s.deviceReached href ≠ none → Spelled s.reg href)
    (h : s.deviceLinkSingleNode href (watchMeta id) = some l) :
    Arranged l.store := by
  have ht := hs.ordered.link h
  obtain ⟨hheap, hdom | ⟨i, parent, hreached, haltered⟩⟩ := deviceLinkSingleNode_cases h
  · exact hs.of_same ht hheap hdom
  · have howner : parent.owner = some i :=
      (hs.ordered.inRegion (hspelled (by rw [hreached]; simp))).reached i parent hreached
    refine hs.of_dom ht hheap (fun hn => hn.altered (haltered.mono ?_)) fun q _ _ =>
      (haltered.mono ?_).keepsSeat
    · rintro k k' ⟨rfl, rfl⟩
      exact ⟨⟨href_addChild k, owner_addChild k⟩,
        fun hk => hk.addChild (.inl howner.symm) (nested_of_leaf rfl)⟩
    · rintro k k' ⟨rfl, rfl⟩
      refine keepsSeat_addChild ?_
      by_cases hqi : i = q
      · exact .inr (hqi ▸ howner)
      · exact .inl (by simp [stampNode, watchMeta, ownNode, plainAll, ownNodeAll, hqi])

/-- A value changes at one node, or at none. -/
theorem altered_updateUri
    {beyond uri val : Text} {o : Outcome}
    (h : s.updateUri beyond uri val = some o) :
    Altered (fun k k' => k' = k ∨ k' = setProp attrVal val k) s.dom o.store.dom := by
  have hpath : ∀ (p : Path) (n : XmlNode Nat),
      Altered (fun k k' => k' = k ∨ k' = setProp attrVal val k) n
        (modifyAt (setProp attrVal val) p n) := by
    intro p n
    cases hp : n.getAt p with
    | none =>
        rw [modifyAt_of_missing hp]
        exact .here (.inl rfl)
    | some m => exact (altered_modifyAt hp).mono fun _ _ hk => .inr (hk.1 ▸ hk.2)
  rcases (updateUri_cases h).2.2 with hdom | ⟨p, hdom⟩ | ⟨i, p, hdom⟩
  · rw [hdom]
    exact .here (.inl rfl)
  · rw [hdom]
    exact hpath p s.dom
  · rw [hdom]
    cases hown : s.dom.ownNode i with
    | none =>
        rw [modifyOwn_of_fresh _ s.dom hown]
        exact .here (.inl rfl)
    | some own =>
        refine ((altered_modifyOwn s.dom hown).mono ?_).join
        rintro k k' ⟨rfl, rfl⟩
        exact hpath p k

theorem Arranged.updateUri
    {beyond uri val : Text} {o : Outcome}
    (hs : Arranged s)
    (ht : Ordered o.store)
    (h : s.updateUri beyond uri val = some o) :
    Arranged o.store := by
  have haltered := altered_updateUri h
  refine hs.of_dom ht (updateUri_cases h).1 (fun hn => hn.altered (haltered.mono ?_))
    fun q _ _ => (haltered.mono ?_).keepsSeat
  · rintro k k' (rfl | rfl)
    · exact ⟨⟨rfl, rfl⟩, id⟩
    · exact ⟨⟨href_setProp_val val k, owner_setProp attrVal val k⟩, fun hk => hk.setProp _ _⟩
  · rintro k k' (rfl | rfl)
    · exact .refl q k'
    · exact keepsSeat_setProp val k

theorem watchMeta_bare
    {c : XmlNode Nat}
    (h : isWatchMeta c = true) :
    c.href = none ∧ c.children = [] := by
  cases c with
  | text o content => cases h
  | comment o content => cases h
  | element o name attrs cs =>
      cases o with
      | none => cases h
      | some i =>
          cases cs with
          | cons c cs =>
              cases attrs with
              | nil => cases h
              | cons a attrs =>
                  cases attrs with
                  | nil => cases h
                  | cons b attrs => cases h
          | nil =>
              cases attrs with
              | nil => cases h
              | cons a attrs =>
                  cases attrs with
                  | cons b attrs => cases h
                  | nil =>
                      obtain ⟨attr, value⟩ := a
                      simp only [isWatchMeta, Bool.and_eq_true, decide_eq_true_eq] at h
                      refine ⟨?_, rfl⟩
                      rw [h.2]
                      rfl

/-- What `device_unlink_single_node` can do. -/
theorem deviceUnlinkSingleNode_cases
    {k : Nat} {place : List Nat} {e : ErrCode}
    (h : s.deviceUnlinkSingleNode href k place = some (e, t)) :
    ∃ c, s.dom.childOf k place = some c ∧ isWatchMeta c = true ∧
      ((∃ reg, t = { s with reg := reg } ∧ s.deviceFind href = (none, reg)) ∨
        ∃ i reg, s.deviceFind href = (some i, reg) ∧
          (t = { s with reg := reg.put i } ∨
            t = ({ s with reg := reg.put i } : Store).withDom (s.dom.unlinkAt k place))) := by
  rw [Store.deviceUnlinkSingleNode] at h
  split at h
  · rename_i hmeta
    cases hc : s.dom.childOf k place with
    | none =>
        rw [hc] at hmeta
        cases hmeta
    | some c =>
        rw [hc] at hmeta
        refine ⟨c, rfl, hmeta, ?_⟩
        split at h
        · rename_i reg hfind
          cases h
          exact .inl ⟨reg, rfl, hfind⟩
        · rename_i i reg hfind
          obtain ⟨dev, -, h⟩ := Option.map_eq_some_iff.mp h
          refine .inr ⟨i, reg, hfind, ?_⟩
          split at h
          · cases h
            exact .inl rfl
          · cases h
            refine .inr ?_
            have hdom : reg.dom = s.dom := (deviceFind_same hfind).2.2.1
            rw [← hdom]
  · cases h

/-- A meta node is taken away. -/
theorem Arranged.unlink
    {k : Nat} {place : List Nat} {e : ErrCode}
    (hs : Arranged s)
    (h : s.deviceUnlinkSingleNode href k place = some (e, t)) :
    Arranged t := by
  obtain ⟨c, hc, hmeta, ⟨reg, rfl, hfind⟩ | ⟨i, reg, hfind, ht⟩⟩ := deviceUnlinkSingleNode_cases h
  · obtain ⟨hheap, -, hdom, -⟩ := deviceFind_same hfind
    exact hs.of_same (hs.ordered.find hfind) hheap hdom
  · obtain ⟨hheap, -, hdom, -⟩ := deviceFind_same hfind
    have hput : Arranged { s with reg := reg.put i } :=
      hs.of_same ((hs.ordered.find hfind).put i) hheap hdom
    rcases ht with rfl | rfl
    · exact hput
    · obtain ⟨hhref, hchildren⟩ := watchMeta_bare hmeta
      have haltered : Altered (Drops fun _ d => d = c) s.dom (unlinkAt k place s.dom) :=
        altered_unlinkAt hc
      have hfresh : ∀ q, s.dom.ownNode q = none → (unlinkAt k place s.dom).ownNode q = none :=
        fun q => (haltered.mono fun _ _ hd => hd.ownNode_eq_none).fresh
      have hconfined : XmlNode.Confined deviceRoot rootTokens (unlinkAt k place s.dom) :=
        (haltered.mono fun _ _ hd => hd.mono fun _ _ _ hdc => hdc ▸ hhref).confined hs.sound.confined
      have hordered : Ordered
          (({ s with reg := reg.put i } : Store).withDom (unlinkAt k place s.dom)) := by
        refine hput.ordered.of_same (hput.sound.withDom (fun q hq => ?_) hconfined)
          ⟨rfl, rfl, fun pl hpl => ?_⟩
        · have hq : ownNode q reg.dom = none := hq
          rw [hdom] at hq
          exact hfresh q hq
        · have hpl : Territory pl reg.dom := hpl
          rw [hdom] at hpl
          exact haltered.territory hpl
      refine hs.of_dom hordered hheap (fun hn => hn.drops haltered) fun q _ _ => ?_
      -- the node belongs to the device of the node above it
      refine ((hs.nesting.nested.attach haltered).mono ?_).keepsSeat
      rintro m m' ⟨hm, hd⟩
      cases hd with
      | @drop o name attrs pre post d hdc =>
          subst hdc
          refine Drops.keepsSeat (.drop ?_)
          have henters : Enters s.reg.up o d :=
            hm.enters (List.mem_append_right pre List.mem_cons_self)
          have howner : d.owner = o := henters.resolve_right fun hne => hne.1 hhref
          by_cases hq : d.owner = some q
          · exact .inr ⟨hhref, howner.symm.trans hq⟩
          · exact .inl (ownNode_eq_none.mpr ⟨hq, fun x hx => by rw [hchildren] at hx; cases hx⟩)

theorem href_setRelativeHref_ne_none
    {n : Xml}
    (h : n.href ≠ none) :
    (setRelativeHref n).1.href ≠ none := by
  cases n with
  | element o name attrs cs =>
      have hprop : ∀ cs' : List Xml, (element o name attrs cs' : Xml).getProp attrHref ≠ none :=
        fun _ => h
      rw [setRelativeHref]
      split
      · exact h
      · obtain ⟨href, hhref⟩ := Option.ne_none_iff_exists'.mp (hprop (setRelativeHrefAll cs).1)
        dsimp only
        rw [relativeHref, hhref]
        dsimp only
        split
        · exact hprop _
        · have hset := getProp_setProp (n := (element o name attrs (setRelativeHrefAll cs).1 : Xml))
            rfl attrHref (basename href)
          intro hnone
          have hnone : (setProp attrHref (basename href)
            (element o name attrs (setRelativeHrefAll cs).1 : Xml)).getProp attrHref = none := hnone
          rw [hset] at hnone
          cases hnone
  | text o content => exact absurd rfl h
  | comment o content => exact absurd rfl h

/-- A request that signs up no device where there is a node already. -/
theorem Arranged.request
    {r : Request} {e : ErrCode} {reg : Registry}
    (hs : Arranged s)
    (hfresh : ∀ i dev p f, s.reg.heap i = none → reg.heap i = some dev → dev.parent = some p →
      s.reg.heap p = some f → s.reg.deviceGetNodeCore p f dev.href = none)
    (h : r.run s.reg = some (e, reg)) :
    Arranged { s with reg := reg } := by
  refine ⟨hs.sound.request h, ?_⟩
  cases r with
  | signUp requesterId input faults =>
      rcases withHref_cases h with rfl | ⟨id, x, href, -, rfl, hhref, hvalid, -, hadd⟩
      · exact hs.nesting
      · have hinput : (xmlCopy x).href = some href := (getProp_xmlCopy attrHref x).trans hhref
        refine hs.nesting.deviceAdd hvalid (fun hpath => ?_) ?_ hfresh hadd
        · exact fitting_signUp hpath rfl hinput
        · refine href_setRelativeHref_ne_none fun hnone => ?_
          cases hinput.symm.trans hnone
  | signOff requesterId input =>
      rcases withHref_cases h with rfl | ⟨id, x, href, -, -, -, -, hroot, hdel⟩
      · exact hs.nesting
      · exact hs.nesting.deviceDel hroot hdel

theorem Arranged.perform
    {x : Doing}
    (hs : Arranged s)
    (hok : s.Careful x)
    (h : s.perform x = some t) :
    Arranged t := by
  cases x with
  | unlink href k place =>
      obtain ⟨⟨e, u⟩, hunlink, rfl⟩ := Option.map_eq_some_iff.mp h
      exact hs.unlink hunlink
  | act x =>
      cases x with
      | request r =>
          obtain ⟨⟨e, reg⟩, hrun, rfl⟩ := Option.map_eq_some_iff.mp h
          exact hs.request (fun i dev p f => hok.1 _ i dev p f h) hrun
      | write beyond uri input =>
          obtain ⟨o, ho, rfl⟩ := Option.map_eq_some_iff.mp h
          have ht : Ordered o.store := hs.ordered.step (x := .write beyond uri input) trivial h
          rcases @obixServerWrite_cases s uri beyond input with ⟨e, he⟩ | ⟨-, val, hval⟩
          · rw [he] at ho
            obtain rfl := Option.some.inj ho
            exact hs
          · exact hs.updateUri ht (hval ▸ ho)
      | link href id =>
          obtain ⟨l, hl, rfl⟩ := Option.map_eq_some_iff.mp h
          exact hs.link hok.2 hl
      | copy href =>
          obtain ⟨⟨copy, u⟩, hcopy, rfl⟩ := Option.map_eq_some_iff.mp h
          have ht := hs.ordered.copy hcopy
          rw [Store.deviceCopyUri] at hcopy
          split at hcopy
          · rename_i reg hfind
            cases hcopy
            obtain ⟨hheap, -, hdom, -⟩ := deviceFind_same hfind
            exact hs.of_same ht hheap hdom
          · rename_i i reg hfind
            obtain ⟨hheap, -, hdom, -⟩ := deviceFind_same hfind
            obtain ⟨dev, -, heq⟩ := Option.map_eq_some_iff.mp hcopy
            cases heq
            exact hs.of_same ht hheap hdom

/-- The file of every device holds its nodes, and nothing else. -/
theorem Arranged.holdsOwn
    {i : Nat} {dev : ObixDev}
    (hs : Arranged s)
    (hdev : s.reg.heap i = some dev) :
    ∃ node, s.dom.ownNode i = some node ∧ HoldsOwn s i dev node := by
  obtain ⟨node, hown⟩ := Option.ne_none_iff_exists'.mp (hs.nesting.present i dev hdev)
  have hnested := (hs.nesting.own hown).1
  have howner := owner_of_ownNode_some s.reg.dom hown
  have hpaths : dev.children = [] → bare node = deviceCopyNoChild i node := fun hchildren =>
    deviceCopyNoChild_of_leaf (hs.sound.linked.leaf hdev hchildren) node hnested howner
  have hcopy := lines_deviceCopyNoChild (fun _ _ => hs.nesting.depth_lt) 0 node hnested howner
  refine ⟨node, hown, ?_, ?_, ?_, hpaths⟩
  · rw [deviceDumpDevice, savedTree]
    split <;> rfl
  · rw [outline, savedTree]
    split
    · rename_i hchildren
      rw [hpaths hchildren, hcopy]
    · exact hcopy
  · exact label_ownLines_own 0 s.reg.dom (hs.nesting.placed.settled.single i) hown

end Steps

section Runs

variable {s init : Store} {i : Nat} {dev : ObixDev}
variable {resdir : Text} {tabSize cacheSize : Nat} {dom : Xml} {disk : Disk}

theorem arranged_of_reaches
    (hinit : devicesStart resdir tabSize cacheSize dom disk = some init.reg)
    (hs : Runs.Reaches Store.perform Store.Careful init s) :
    Arranged s := by
  refine hs.invariant (fun _ _ _ h hok hstep => h.perform hok hstep) ⟨?_, nesting_start hinit⟩
  exact ⟨linked_start hinit, confined_start hinit⟩

/-- As long as nothing hides a device, a contract file holds exactly the nodes of its device, in
their order, and both ways to write it agree. -/
theorem deviceDumpDevice_own
    (hinit : devicesStart resdir tabSize cacheSize dom disk = some init.reg)
    (hs : Runs.Reaches Store.perform Store.Careful init s)
    (hdev : s.reg.heap i = some dev) :
    ∃ node, s.dom.ownNode i = some node ∧ HoldsOwn s i dev node :=
  (arranged_of_reaches hinit hs).holdsOwn hdev

end Runs

section Sample

variable {s : Store} {reg : Registry}

/-- A contract may be signed up when its parent has no node at its href. -/
theorem signsUpFresh_signUp
    {id : Option Text} {input : Xml} {faults : Faults}
    (hs : Linked s.reg)
    (hfree : ∀ href p u f, input.getProp attrHref = some href →
      s.reg.deviceSearchParent href = (some p, u) → s.reg.heap p = some f →
      s.reg.deviceGetNodeCore p f href = none) :
    s.SignsUpFresh (.act (.request (.signUp id (some input) faults))) := by
  intro t i dev p e hstep hnone hsome hparent he
  obtain ⟨⟨ret, reg⟩, hrun, rfl⟩ := Option.map_eq_some_iff.mp hstep
  have hold : ∀ {r : Registry}, r.heap = s.reg.heap → ¬ r.heap i = some dev := fun hr hi => by
    rw [hr, hnone] at hi
    cases hi
  rcases withHref_cases hrun with rfl | ⟨id, x, href, -, hx, hhref, -, -, hadd⟩
  · exact absurd hsome (hold rfl)
  · obtain rfl := Option.some.inj hx
    rcases deviceAdd_cases hadd with ⟨-, -, rfl⟩ | ⟨q, u, e', t', hsearch, hout, rfl, -⟩
    · exact absurd hsome (hold rfl)
    · obtain ⟨hu, -, -⟩ := hs.deviceSearchParent hsearch
      obtain ⟨cache, hcache⟩ := deviceSearchParent_some hsearch
      have hheap : u.heap = s.reg.heap := by rw [hcache]; rfl
      cases hout with
      | refused => exact absurd hsome (hold hheap)
      | @added parent child disk hpass =>
          rcases deviceMount_href hu hpass.live hpass.href.1 hsome with
            ⟨f, hf, -⟩ | ⟨-, hdev, hq⟩
          · rw [hheap, hnone] at hf
            cases hf
          · obtain rfl := Option.some.inj (hq.symm.trans hparent)
            rw [hdev]
            exact hfree href q u e hhref hsearch he
      | @withdrawn parent child disk e hpass =>
          exact absurd hsome (hold ((heap_withdrawn hu hpass.live disk).trans hheap))

theorem signsUpFresh_link (href : Text) (id : Nat) : s.SignsUpFresh (.act (.link href id)) := by
  intro t i dev p e hstep hnone hsome _ _
  obtain ⟨l, hl, rfl⟩ := Option.map_eq_some_iff.mp hstep
  rw [(deviceLinkSingleNode_cases hl).1, hnone] at hsome
  cases hsome

/-- The first contract is signed up below a placeholder that has no children. -/
theorem signsUpFresh_first
    (hreg : sampleStart = some reg) :
    (sampleDevices reg).SignsUpFresh (.act (.request (sampleSignUp "a" "test/a"))) := by
  refine signsUpFresh_signUp (linked_start hreg) fun href p u f hhref _ hf => ?_
  have hhref : href = "/obix/deviceRoot/test/a".toList := by
    rw [← Option.some.inj hhref]
    decide +kernel
  obtain rfl := (heap_start hreg hf).1
  have heval : (sampleStart.bind fun reg => (reg.heap deviceRoot).map fun f =>
      (reg.deviceGetNodeCore deviceRoot f "/obix/deviceRoot/test/a".toList).isNone) =
      some true := by
    decide +kernel
  have hf : reg.heap deviceRoot = some f := hf
  rw [hreg, Option.bind_some, hf] at heval
  rw [hhref]
  exact Option.isNone_iff_eq_none.mp (Option.some.inj heval)

/-- A watch looks at a device. -/
theorem deviceDumpDevice_own_watched :
    ∃ reg s dev node, sampleStart = some reg ∧
      Runs.exec Store.perform (sampleDevices reg)
        [.act (.request (sampleSignUp "a" "test/a")),
          .act (.link "/obix/deviceRoot/test/a".toList 0)] = some s ∧
      s.reg.heap 1 = some dev ∧ s.dom.ownNode 1 = some node ∧ (ownLines 1 0 node).length = 2 ∧
      HoldsOwn s 1 dev node := by
  have heval : (sampleStart.bind fun reg =>
      (Runs.exec Store.perform (sampleDevices reg)
        [.act (.request (sampleSignUp "a" "test/a")),
          .act (.link "/obix/deviceRoot/test/a".toList 0)]).bind fun s =>
      (s.reg.heap 1).bind fun _ =>
        (s.dom.ownNode 1).map fun node => (ownLines 1 0 node).length) = some 2 := by
    decide +kernel
  obtain ⟨reg, hreg, heval⟩ := Option.bind_eq_some_iff.mp heval
  obtain ⟨s, hexec, heval⟩ := Option.bind_eq_some_iff.mp heval
  obtain ⟨dev, hdev, heval⟩ := Option.bind_eq_some_iff.mp heval
  obtain ⟨node, hnode, hlength⟩ := Option.map_eq_some_iff.mp heval
  obtain ⟨u, hu, hrest⟩ := Option.bind_eq_some_iff.mp hexec
  obtain ⟨v, hv, hlast⟩ := Option.bind_eq_some_iff.mp hrest
  obtain rfl : v = s := Option.some.inj hlast
  have hinit : devicesStart "/srv".toList 2 2 sampleLobby sampleDisk =
      some (sampleDevices reg).reg := hreg
  have hfirst : Runs.Reaches Store.perform Store.Careful (sampleDevices reg) u :=
    Runs.Reaches.refl.tail ⟨signsUpFresh_first hreg, trivial⟩ hu
  have hpath : IsPath "/obix/deviceRoot/test/a".toList
      (rootTokens ++ ["test".toList, "a".toList]) := by
    refine ⟨fun t ht => ?_, by decide, .inl (by decide +kernel)⟩
    simp only [rootTokens, List.cons_append, List.nil_append, List.mem_cons, List.not_mem_nil,
      or_false] at ht
    rcases ht with rfl | rfl | rfl | rfl <;> exact ⟨by decide, by decide⟩
  have hspelled := (arranged_of_reaches hinit hfirst).nesting.placed.indexed.spelled hpath
  obtain ⟨node', hnode', hholds⟩ := deviceDumpDevice_own hinit
    (hfirst.tail ⟨signsUpFresh_link _ 0, fun _ => hspelled⟩ hv) hdev
  obtain rfl := Option.some.inj (hnode.symm.trans hnode')
  exact ⟨reg, v, dev, node, hreg, hexec, hdev, hnode, hlength, hholds⟩

theorem not_holdsOwn
    {i : Nat} {dev : ObixDev} {node : XmlNode Nat}
    (h : (outline (savedTree i dev node)).length ≠ (ownLines i 0 node).length) :
    ¬ HoldsOwn s i dev node := by
  intro hholds
  rw [hholds.nodes, List.length_map] at h
  exact h rfl

/-- With a second slash the meta node of a watch gets among the nodes of a child: it is saved with
the child, and not with the parent that it belongs to. -/
theorem deviceDumpDevice_other :
    ∃ reg s dev node root top, sampleStart = some reg ∧
      Runs.Reaches Store.perform Store.SignsUpFresh (sampleDevices reg) s ∧
      (s.reg.heap 1 = some dev ∧ s.dom.ownNode 1 = some node ∧ ¬ HoldsOwn s 1 dev node) ∧
      s.reg.heap deviceRoot = some root ∧ s.dom.ownNode deviceRoot = some top ∧
        ¬ HoldsOwn s deviceRoot root top := by
  have heval : (sampleStart.bind fun reg =>
      (Runs.exec Store.perform (sampleDevices reg)
        [.act (.request (sampleSignUp "a" "test/a")),
          .act (.link "/obix/deviceRoot/test//a".toList 0)]).bind fun s =>
      (s.reg.heap 1).bind fun dev => (s.dom.ownNode 1).bind fun node =>
      (s.reg.heap deviceRoot).bind fun root => (s.dom.ownNode deviceRoot).map fun top =>
        (((outline (savedTree 1 dev node)).length, (ownLines 1 0 node).length),
          (outline (savedTree deviceRoot root top)).length,
          (ownLines deviceRoot 0 top).length)) = some ((2, 1), 2, 3) := by
    decide +kernel
  obtain ⟨reg, hreg, heval⟩ := Option.bind_eq_some_iff.mp heval
  obtain ⟨s, hexec, heval⟩ := Option.bind_eq_some_iff.mp heval
  obtain ⟨dev, hdev, heval⟩ := Option.bind_eq_some_iff.mp heval
  obtain ⟨node, hnode, heval⟩ := Option.bind_eq_some_iff.mp heval
  obtain ⟨root, hroot, heval⟩ := Option.bind_eq_some_iff.mp heval
  obtain ⟨top, htop, hlengths⟩ := Option.map_eq_some_iff.mp heval
  simp only [Prod.mk.injEq] at hlengths
  obtain ⟨⟨hsaved, hown⟩, hsaved', hown'⟩ := hlengths
  obtain ⟨u, hu, hrest⟩ := Option.bind_eq_some_iff.mp hexec
  obtain ⟨v, hv, hlast⟩ := Option.bind_eq_some_iff.mp hrest
  obtain rfl : v = s := Option.some.inj hlast
  have hreaches : Runs.Reaches Store.perform Store.SignsUpFresh (sampleDevices reg) v :=
    (Runs.Reaches.refl.tail (signsUpFresh_first hreg) hu).tail (signsUpFresh_link _ 0) hv
  refine ⟨reg, v, dev, node, root, top, hreg, hreaches, ⟨hdev, hnode, not_holdsOwn ?_⟩, hroot, htop,
    not_holdsOwn ?_⟩
  · rw [hsaved, hown]
    decide
  · rw [hsaved', hown']
    decide

end Sample

end Serving
end Obix
