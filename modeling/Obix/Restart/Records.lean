import Obix.Restart.Parts

/-!
# Records of devices

What a server knows of a device, without the addresses of descriptors: its href, owner and files,
the href of its parent, and its part of the tree.  A device that is mounted adds its record, one
without children that is signed off takes its own away, and all others stay as they are.
-/

namespace Obix
namespace Serving

open CString XmlNode Devices

/-- A device without the addresses of descriptors. -/
structure Record where
  href : Text
  ownerId : Text
  dir : Text
  file : Option Text
  metaFile : Option Text
  /-- The href of the parent. -/
  parent : Option Text
  part : Option Xml

/-- The record of a descriptor. -/
def recordOf (s : Registry) (i : Nat) (dev : ObixDev) : Record :=
  { href := dev.href
    ownerId := dev.ownerId
    dir := dev.dir
    file := dev.file
    metaFile := dev.metaFile
    parent := dev.parent.bind fun p => (s.heap p).map ObixDev.href
    part := partOf i s.dom }

/-- The record of the device at an address. -/
def record (s : Registry) (i : Nat) : Option Record :=
  (s.heap i).map (recordOf s i)

/-- Some device has a record. -/
def Has (s : Registry) (r : Record) : Prop :=
  ∃ i, record s i = some r

section Records

variable {a : AddArgs} {s t : Registry} {p i j : Nat} {parent child dev : ObixDev} {r r' : Record}

theorem record_of_heap
    (h : s.heap i = some dev) :
    record s i = some (recordOf s i dev) := by
  rw [record, h]
  rfl

theorem has_iff : Has s r ↔ ∃ i dev, s.heap i = some dev ∧ recordOf s i dev = r := by
  constructor
  · rintro ⟨i, hi⟩
    obtain ⟨dev, hdev, rfl⟩ := Option.map_eq_some_iff.mp hi
    exact ⟨i, dev, hdev, rfl⟩
  · rintro ⟨i, dev, hdev, rfl⟩
    exact ⟨i, record_of_heap hdev⟩

theorem has_of_heap
    (h : s.heap i = some dev) :
    Has s (recordOf s i dev) :=
  ⟨i, record_of_heap h⟩

/-- Devices and the tree are all that a record is about. -/
theorem record_congr
    (hheap : t.heap = s.heap)
    (hdom : t.dom = s.dom) :
    record t = record s := by
  funext i
  rw [record, record, hheap]
  cases s.heap i with
  | none => rfl
  | some dev => simp only [Option.map_some, recordOf, hheap, hdom]

/-- `device_search_parent` changes nothing that a record is about. -/
theorem searchParent_same
    {href : Text} {u : Registry}
    (h : s.deviceSearchParent href = (some p, u)) :
    u.heap = s.heap ∧ u.tab = s.tab ∧ u.dom = s.dom ∧ u.disk = s.disk ∧ u.sync = s.sync := by
  obtain ⟨cache, rfl⟩ := deviceSearchParent_some h
  exact ⟨rfl, rfl, rfl, rfl, rfl⟩

theorem has_congr
    (hheap : t.heap = s.heap)
    (hdom : t.dom = s.dom)
    (r : Record) :
    Has t r ↔ Has s r := by
  rw [Has, Has, record_congr hheap hdom]

theorem parent_recordOf
    (hparent : dev.parent = some p)
    (hp : s.heap p = some parent) :
    (recordOf s i dev).parent = some parent.href := by
  simp [recordOf, hparent, hp]

/-- The device that the parent of a record is about. -/
theorem parent_of_recordOf
    {href : Text}
    (h : (recordOf s i dev).parent = some href) :
    ∃ p parent, dev.parent = some p ∧ s.heap p = some parent ∧ parent.href = href := by
  obtain ⟨p, hp, h⟩ := Option.bind_eq_some_iff.mp h
  obtain ⟨parent, hparent, rfl⟩ := Option.map_eq_some_iff.mp h
  exact ⟨p, parent, hp, hparent, rfl⟩

/-- A device has the same record when only its children are others. -/
theorem recordOf_congr
    {dev' : ObixDev}
    (hdev : dev' = { dev with children := dev'.children })
    (hparent : ∀ q f, dev.parent = some q → s.heap q = some f →
      ∃ f', t.heap q = some f' ∧ f'.href = f.href)
    (hlive : ∀ q, dev.parent = some q → s.heap q ≠ none)
    (hpart : partOf i t.dom = partOf i s.dom) :
    recordOf t i dev' = recordOf s i dev := by
  have hup : (dev.parent.bind fun q => (t.heap q).map ObixDev.href) =
      dev.parent.bind fun q => (s.heap q).map ObixDev.href := by
    cases hq : dev.parent with
    | none => rfl
    | some q =>
        obtain ⟨f, hf⟩ := Option.ne_none_iff_exists'.mp (hlive q hq)
        obtain ⟨f', hf', hhref⟩ := hparent q f hq hf
        rw [Option.bind_some, Option.bind_some, hf, hf', Option.map_some, Option.map_some, hhref]
  rw [hdev]
  simp only [recordOf, hup, hpart]

end Records

section Mount

variable {a : AddArgs} {s t : Registry} {p : Nat} {parent child : ObixDev}

/-- What a device brings along when it is mounted. -/
def newRecord (a : AddArgs) (parent child : ObixDev) : Record :=
  { href := child.href
    ownerId := child.ownerId
    dir := child.dir
    file := child.file
    metaFile := child.metaFile
    parent := some parent.href
    part := some a.node }

/-- A new child does not get into the parts of others. -/
theorem partOf_deviceMount
    {own m : XmlNode Nat} {q : Nat}
    (hown : s.dom.ownNode p = some own)
    (hget : own.getAt (Registry.nodePath parent (dirname a.href)) = some m)
    (hq : q ≠ s.next) :
    partOf q (deviceMount a p parent child s).dom = partOf q s.dom := by
  have haltered : Altered _ s.dom (deviceMount a p parent child s).dom :=
    altered_deviceMount hown hget
  refine (keepsPart_of_altered (haltered.mono ?_)).part
  rintro k k' ⟨-, rfl⟩
  exact keepsPart_addChild (ownNode_adopt hq.symm a.node)

/-- The part of a new device is its contract. -/
theorem partOf_new
    {own m : XmlNode Nat}
    (hs : Linked s)
    (hown : s.dom.ownNode p = some own)
    (hget : own.getAt (Registry.nodePath parent (dirname a.href)) = some m)
    (helem : m.isElement = true) :
    partOf s.next (deviceMount a p parent child s).dom = some a.node := by
  have hfresh := hs.freshDom s.next le_rfl
  have haltered : Altered _ s.dom (deviceMount a p parent child s).dom :=
    altered_deviceMount hown hget
  refine partOf_of_altered ((altered_of_fresh haltered hfresh).mono ?_) hfresh
  rintro k k' ⟨hk, rfl, rfl⟩
  rw [partOf_addChild helem hk (owner_adopt _ _), deviceCopyNoChild_adopt]

/-- A device that is mounted has its record, and all others keep theirs. -/
theorem record_deviceMount
    {own m : XmlNode Nat}
    (hs : Linked s)
    (hlive : s.heap p = some parent)
    (hown : s.dom.ownNode p = some own)
    (hget : own.getAt (Registry.nodePath parent (dirname a.href)) = some m)
    (helem : m.isElement = true)
    (j : Nat) :
    record (deviceMount a p parent child s) j =
      if j = s.next then some (newRecord a parent child) else record s j := by
  have hheap := @heap_deviceMount a s p parent child hs hlive
  have hne : p ≠ s.next := by
    rintro rfl
    rw [hs.fresh s.next le_rfl] at hlive
    cases hlive
  by_cases hj : j = s.next
  · have hnew : (deviceMount a p parent child s).heap j = some { child with parent := some p } := by
      rw [hheap, if_neg (hj ▸ hne.symm), if_pos hj]
    have hold : (deviceMount a p parent child s).heap p =
        some { parent with children := parent.children ++ [s.next] } := by
      rw [hheap, if_pos rfl]
    rw [if_pos hj, record_of_heap hnew]
    subst hj
    simp only [recordOf, newRecord, Option.bind_some, hold, Option.map_some,
      partOf_new hs hown hget helem]
  · rw [if_neg hj]
    cases hdev : s.heap j with
    | none =>
        have hgone : (deviceMount a p parent child s).heap j = none := by
          rw [hheap, if_neg hj, hdev, if_neg]
          rintro rfl
          rw [hlive] at hdev
          cases hdev
        rw [record, record, hgone, hdev]
        rfl
    | some dev =>
        -- only the list of the children can be another one
        have hkeep : ∀ q f, s.heap q = some f →
            ∃ f', (deviceMount a p parent child s).heap q = some f' ∧
              f' = { f with children := f'.children } := by
          intro q f hf
          have hq : q ≠ s.next := by
            rintro rfl
            rw [hs.fresh s.next le_rfl] at hf
            cases hf
          rw [hheap]
          split
          · rename_i hqp
            obtain rfl := Option.some.inj (hlive.symm.trans (hqp ▸ hf))
            exact ⟨_, rfl, rfl⟩
          · exact ⟨f, hf, rfl⟩
        obtain ⟨dev', hdev', hsame⟩ := hkeep j dev hdev
        rw [record_of_heap hdev', record_of_heap hdev, recordOf_congr hsame]
        · intro q f hq hf
          obtain ⟨f', hf', hfsame⟩ := hkeep q f hf
          exact ⟨f', hf', by rw [hfsame]⟩
        · intro q hq
          obtain ⟨f, hf⟩ := hs.parent_live hdev hq
          rw [hf]
          simp
        · exact partOf_deviceMount hown hget hj

/-- The records after a device has been mounted. -/
theorem has_deviceMount
    {own m : XmlNode Nat} {r : Record}
    (hs : Linked s)
    (hlive : s.heap p = some parent)
    (hown : s.dom.ownNode p = some own)
    (hget : own.getAt (Registry.nodePath parent (dirname a.href)) = some m)
    (helem : m.isElement = true)
    (hheap : t.heap = (deviceMount a p parent child s).heap)
    (hdom : t.dom = (deviceMount a p parent child s).dom) :
    Has t r ↔ r = newRecord a parent child ∨ Has s r := by
  have hrecord := @record_deviceMount a s p parent child own m hs hlive hown hget helem
  rw [Has, record_congr hheap hdom]
  constructor
  · rintro ⟨j, hj⟩
    rw [hrecord] at hj
    split at hj
    · exact .inl (Option.some.inj hj).symm
    · exact .inr ⟨j, hj⟩
  · rintro (rfl | ⟨j, hj⟩)
    · exact ⟨s.next, by rw [hrecord, if_pos rfl]⟩
    · refine ⟨j, ?_⟩
      rw [hrecord, if_neg, hj]
      rintro rfl
      rw [record, hs.fresh s.next le_rfl] at hj
      cases hj

end Mount

section SignOff

variable {s : Registry} {i : Nat} {dev : ObixDev} {r : Record}

/-- A device without children takes its record with it. -/
theorem record_signedOff
    (hs : Nesting s)
    (hdev : s.heap i = some dev)
    (hne : i ≠ deviceRoot)
    (hchildren : dev.children = [])
    (j : Nat) :
    record (signedOff i dev s) j = if j = i then none else record s j := by
  have hlinked := hs.placed.linked
  have hleaf := hlinked.leaf hdev hchildren
  obtain ⟨own, hown⟩ := Option.ne_none_iff_exists'.mp (hs.present i dev hdev)
  split
  · rename_i hj
    have hgone : (signedOff i dev s).heap j = none := by
      by_contra hlive
      obtain ⟨f, hf⟩ := Option.ne_none_iff_exists'.mp hlive
      exact (hlinked.signedOff_back hdev hne hf).1 hj
    rw [record, hgone]
    rfl
  · rename_i hj
    cases hf : s.heap j with
    | none =>
        have hgone : (signedOff i dev s).heap j = none := by
          by_contra hlive
          obtain ⟨f, hf'⟩ := Option.ne_none_iff_exists'.mp hlive
          obtain ⟨-, f', hf'', -⟩ := hlinked.signedOff_back hdev hne hf'
          rw [hf] at hf''
          cases hf''
        rw [record, record, hgone, hf]
        rfl
    | some f =>
        have hkeep := hlinked.signedOff_keeps hdev hne hf hj
        have haltered : Altered (Drops fun _ c => c = own) s.dom (signedOff i dev s).dom := by
          rw [dom_signedOff]
          refine altered_removeOwn s.dom ?_ hown
          rw [hs.placed.settled.top]
          simp
        rw [record_of_heap hkeep, record_of_heap hf, recordOf_congr rfl]
        · intro q g hq hg
          have hqi : q ≠ i := by
            rintro rfl
            exact hleaf j (by rw [Registry.up_of_heap hf, hq])
          exact ⟨_, hlinked.signedOff_keeps hdev hne hg hqi, rfl⟩
        · intro q hq
          obtain ⟨g, hg⟩ := hlinked.parent_live hf hq
          rw [hg]
          simp
        · refine (keepsPart_of_altered (haltered.mono fun k k' hk => ?_)).part
          refine keepsPart_of_drops (hk.mono fun _ c _ hc => ?_)
          rw [hc]
          exact (hs.own hown).1.fresh_of_leaf hleaf (owner_of_ownNode_some s.dom hown) hj

end SignOff

end Serving
end Obix
