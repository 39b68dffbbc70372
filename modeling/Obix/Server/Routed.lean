import Obix.Device.Territory
import Obix.Server.Routing

/-!
# Which updates are routed

`Sound` is what every store keeps: descriptors are linked, and only the tree below the device root
refers to them.  `Routed` is what write requests should keep to, and `Direct` is the condition on
a URI under which they do.
-/

namespace Obix
namespace Serving

open CString XmlNode Devices

/-- What the registry keeps in order. -/
structure Sound (s : Store) : Prop where
  linked : Linked s.reg
  confined : XmlNode.Confined deviceRoot rootTokens s.dom

/-- A server that is running. -/
structure Server where
  store : Store
  sound : Sound store

section Sound

variable {s : Store}

theorem xmlSetVal_keeps (p : Path) (val : Text) :
    (∀ m : XmlNode Nat, (modifyAt (setProp attrVal val) p m).href = m.href) ∧
      ∀ m : XmlNode Nat, (modifyAt (setProp attrVal val) p m).owner = m.owner := by
  refine ⟨href_modifyAt (href_setProp_val val) p, fun m => ?_⟩
  cases p with
  | nil => exact owner_setProp attrVal val m
  | cons t rest => exact owner_modifyAt_cons m

theorem sound_start
    {resdir : Text} {tabSize cacheSize : Nat} {dom : Xml} {disk : Disk} {reg : Registry}
    (h : devicesStart resdir tabSize cacheSize dom disk = some reg)
    (mtime : Nat → Int)
    (backupPeriod : Int)
    (watches : List ObixWatch) :
    Sound { reg := reg, mtime := mtime, backupPeriod := backupPeriod, watches := watches } :=
  ⟨linked_start h, confined_start h⟩

/-- `device_add` puts a contract among the nodes of a device, if anywhere. -/
theorem confined_deviceAdd
    {a : AddArgs} {reg t : Registry} {e : ErrCode}
    (hlinked : Linked reg)
    (h : XmlNode.Confined deviceRoot rootTokens reg.dom)
    (hadd : deviceAdd a reg = some (e, t)) :
    XmlNode.Confined deviceRoot rootTokens t.dom := by
  rcases deviceAdd_cases hadd with ⟨-, -, rfl⟩ | ⟨p, u, e', t', hsearch, hout, rfl, -⟩
  · exact h
  · obtain ⟨hu, -⟩ := hlinked.deviceSearchParent hsearch
    have hdom : u.dom = reg.dom := by
      obtain ⟨cache, rfl⟩ := deviceSearchParent_some hsearch
      rfl
    rw [← hdom] at h
    show XmlNode.Confined deviceRoot rootTokens t'.dom
    cases hout with
    | refused => exact h
    | @added parent child disk hpass =>
        refine XmlNode.Confined.modifyOwn h (href_modifyAt href_addChild _) fun m => ?_
        cases Registry.nodePath parent (dirname a.href) with
        | nil => exact owner_addChild m
        | cons t rest => exact owner_modifyAt_cons m
    | @withdrawn parent child disk e hpass =>
        rw [← @dom_withdrawn a u p parent child hu disk] at h
        exact h

/-- `device_del` takes nodes of a device out of the tree, if any. -/
theorem confined_deviceDel
    {href requesterId : Text} {reg t : Registry} {e : ErrCode}
    (hlinked : Linked reg)
    (h : XmlNode.Confined deviceRoot rootTokens reg.dom)
    (hroot : isDeviceRootHref href = false)
    (hdel : deviceDel Meanwhile.idle href requesterId reg = some (e, t)) :
    XmlNode.Confined deviceRoot rootTokens t.dom := by
  obtain ⟨u, -, -, -, hdom, -, hout⟩ := hlinked.deviceDel_cases hroot hdel
  rw [← hdom] at h
  rcases hout with ⟨-, rfl⟩ | ⟨i, dev, hne, -, -, -, -, rfl⟩
  · exact h
  · rw [dom_signedOff]
    exact h.removeOwn hne

/-- Signing devices up and off keeps descriptors where they are. -/
theorem Sound.request
    {r : Request} {e : ErrCode} {reg : Registry}
    (hs : Sound s)
    (h : r.run s.reg = some (e, reg)) :
    Sound { s with reg := reg } := by
  refine ⟨hs.linked.request h, ?_⟩
  cases r with
  | signUp requesterId input faults =>
      rcases withHref_cases h with rfl | ⟨id, x, href, -, -, -, -, -, hadd⟩
      · exact hs.confined
      · exact confined_deviceAdd hs.linked hs.confined hadd
  | signOff requesterId input =>
      rcases withHref_cases h with rfl | ⟨id, x, href, -, -, -, -, hroot, hdel⟩
      · exact hs.confined
      · exact confined_deviceDel hs.linked hs.confined hroot hdel

/-- The registries that requests lead to are in order. -/
theorem sound_of_reachable
    {ok : Request → Registry → Prop} {reg : Registry}
    (h : Reachable ok reg)
    (mtime : Nat → Int)
    (backupPeriod : Int)
    (watches : List ObixWatch) :
    Sound { reg := reg, mtime := mtime, backupPeriod := backupPeriod, watches := watches } := by
  induction h with
  | start h => exact sound_start h mtime backupPeriod watches
  | step _ _ h ih => exact ih.request h

end Sound

section Device

variable {s : Store} {uri : Text}

/-- The device that is found for a URI, and the node that the URI leads to in its write region. -/
def Store.deviceNode (s : Store) (uri : Text) : Option (Nat × XmlNode Nat) :=
  match s.deviceFind uri with
  | (none, _) => none
  | (some i, reg) =>
      (reg.heap i).bind fun dev =>
        if (reg.sync i).writerRequest.isNone then none
        else (reg.deviceGetNodeCore i dev uri).map fun node => (i, node)

theorem getAt_of_watchGetNodeCore
    {beyond : Text} {w : ObixWatch} {node : XmlNode Nat}
    (h : s.watchGetNodeCore beyond w uri = some node) :
    s.dom.getAt (w.path ++ w.nodePath beyond uri) = some node := by
  obtain ⟨top, htop, h⟩ := Option.bind_eq_some_iff.mp h
  rw [getAt_append, htop, ObixWatch.nodePath]
  split at h
  · rename_i hid
    rw [if_pos hid]
    exact h
  · rename_i hid
    rw [if_neg hid]
    exact getAt_of_xmldbGetNodeCore h

/-- The searches change only the cache and the references. -/
theorem deviceFind_cases (hs : Linked s.reg) :
    (∃ reg, s.deviceFind uri = (none, reg) ∧ Linked reg ∧ reg.dom = s.dom) ∨
      ∃ i reg dev, s.deviceFind uri = (some i, reg) ∧ Linked reg ∧ reg.dom = s.dom ∧
        reg.heap i = some dev ∧ reg.sync = s.reg.sync := by
  rw [Store.deviceFind]
  cases hfound : s.reg.deviceSearch uri with
  | mk found reg =>
      cases found with
      | some i =>
          obtain ⟨hreg, dev, hdev, -⟩ := hs.deviceSearch hfound
          obtain ⟨cache, rfl⟩ := deviceSearch_some hfound
          exact .inr ⟨i, _, dev, rfl, hreg, rfl, hdev, rfl⟩
      | none =>
          obtain rfl := deviceSearch_none hfound
          dsimp only
          cases hup : s.reg.deviceSearchParent uri with
          | mk found reg =>
              cases found with
              | some i =>
                  obtain ⟨hreg, -, dev, hdev⟩ := hs.deviceSearchParent hup
                  obtain ⟨cache, rfl⟩ := deviceSearchParent_some hup
                  exact .inr ⟨i, _, dev, rfl, hreg, rfl, hdev, rfl⟩
              | none =>
                  rcases deviceSearchParent_spec s.reg uri with ⟨i, cache, hj⟩ | hj
                  · rw [hj] at hup
                    cases hup
                  · rw [hj] at hup
                    cases hup
                    exact .inl ⟨_, rfl, hs, rfl⟩

/-- What `device_update_uri` does. -/
theorem deviceUpdateUri_cases (hs : Linked s.reg) :
    (s.deviceNode uri = none ∧ ∀ new, ∃ e reg, Linked reg ∧ reg.dom = s.dom ∧
      s.deviceUpdateUri uri new = some (Store.refuse { s with reg := reg } e)) ∨
    ∃ i node reg own p, s.deviceNode uri = some (i, node) ∧ Linked reg ∧ reg.dom = s.dom ∧
      s.dom.ownNode i = some own ∧ own.getAt p = some node ∧
      ∀ new, s.deviceUpdateUri uri new = some
        (if node.getProp attrVal = some new then Store.refuse { s with reg := reg } .success
        else
          { ret := .success
            updater := some (.device i)
            store := Store.withDom { s with reg := reg }
              (s.dom.modifyOwn i (modifyAt (setProp attrVal new) p)) }) := by
  rcases @deviceFind_cases s uri hs with
    ⟨reg, hfind, hreg, hdom⟩ | ⟨i, reg, dev, hfind, hreg, hdom, hdev, -⟩
  · refine .inl ⟨by simp [Store.deviceNode, hfind], fun new => ⟨.deviceNoSuchUri, reg, hreg, hdom, ?_⟩⟩
    simp [Store.deviceUpdateUri, hfind]
  · have hput : Linked (reg.put i) := hreg.of_cache hreg.cacheLive
    by_cases hregion : (reg.sync i).writerRequest.isNone = true
    · refine .inl ⟨by simp [Store.deviceNode, hfind, hdev, hregion], fun new =>
        ⟨.invalidState, reg.put i, hput, hdom, ?_⟩⟩
      simp [Store.deviceUpdateUri, hfind, hdev, hregion]
    · cases hnode : reg.deviceGetNodeCore i dev uri with
      | none =>
          refine .inl ⟨by simp [Store.deviceNode, hfind, hdev, hnode], fun new =>
            ⟨.deviceNoSuchUri, reg.put i, hput, hdom, ?_⟩⟩
          simp [Store.deviceUpdateUri, hfind, hdev, hregion, hnode]
      | some node =>
          obtain ⟨own, hown, hget⟩ := Registry.getAt_of_deviceGetNodeCore hnode
          rw [hdom] at hown
          refine .inr ⟨i, node, reg.put i, own, Registry.nodePath dev uri,
            by simp [Store.deviceNode, hfind, hdev, hregion, hnode], hput, hdom, hown, hget,
            fun new => ?_⟩
          rw [Store.deviceUpdateUri, hfind]
          dsimp only
          rw [hdev, Option.map_some, if_neg hregion, hnode]
          dsimp only
          rw [hdom]

end Device

/-- What a write request should keep to: it changes nothing of the history, nodes of devices only
in `device_update_uri`, inside of the write region of their device, and nodes of watches only in
`watch_update_uri`. -/
structure Routed (s : Store) (o : Outcome) : Prop where
  history : o.store.dom.getAt historyPath = s.dom.getAt historyPath
  devices : o.store.dom.getAt rootTokens = s.dom.getAt rootTokens ∨
    ∃ i, o.updater = some (.device i) ∧
      hideVal (fun d => d = some i) o.store.dom = hideVal (fun d => d = some i) s.dom
  watches : ∀ w ∈ s.watches, o.store.dom.getAt w.path = s.dom.getAt w.path ∨
    ∃ id, o.updater = some (.watch id)

/-- A URI is spelled so that its beginning tells where it leads to: a URI of the Device subsystem
leads to a node of the device that is found for it, and any other one that is for none of the
subsystems leads to none of their nodes. -/
structure Direct (s : Store) (uri : Text) : Prop where
  device : isOfType uri .device = true →
    ∀ i node, s.deviceNode uri = some (i, node) → node.owner = some i
  plain : isOfType uri .history = false → isOfType uri .device = false →
    isOfType uri .watch = false → xmldbGetNode s.dom uri ≠ none →
    ¬ historyPath <+: tokens '/' uri ∧ ¬ rootTokens <+: tokens '/' uri ∧
      ∀ w ∈ s.watches, ¬ w.path <+: tokens '/' uri

section Routed

variable {s : Store} {uri : Text}

theorem routed_refuse
    {t : Store}
    (h : t.dom = s.dom)
    (e : ErrCode) :
    Routed s (t.refuse e) where
  history := by rw [Store.refuse, h]
  devices := .inl (by rw [Store.refuse, h])
  watches := fun w _ => .inl (by rw [Store.refuse, h])

theorem rootTokens_history (p : Path) : ¬ historyPath <+: rootTokens ++ p := by
  rw [historyPath, rootTokens, List.cons_append, List.cons_append, List.cons_prefix_cons,
    List.cons_prefix_cons]
  exact fun h => absurd h.2.1 (by decide)

theorem rootTokens_watch (w : ObixWatch) (p : Path) : ¬ w.path <+: rootTokens ++ p := by
  rw [ObixWatch.path, rootTokens, List.cons_append, List.cons_append, List.cons_prefix_cons,
    List.cons_prefix_cons]
  exact fun h => absurd h.2.1 (by decide)

theorem watch_history (w : ObixWatch) (p : Path) : ¬ historyPath <+: w.path ++ p := by
  rw [historyPath, ObixWatch.path, List.cons_append, List.cons_append, List.cons_prefix_cons,
    List.cons_prefix_cons]
  exact fun h => absurd h.2.1 (by decide)

theorem watch_rootTokens (w : ObixWatch) (p : Path) : ¬ rootTokens <+: w.path ++ p := by
  rw [rootTokens, ObixWatch.path, List.cons_append, List.cons_append, List.cons_prefix_cons,
    List.cons_prefix_cons]
  exact fun h => absurd h.2.1 (by decide)

/-- A value that is set is not seen where the path does not lead through. -/
theorem getAt_setVal_other
    {p q : Path}
    (h : ¬ p <+: q)
    (new : Text)
    (n : XmlNode Nat) :
    (modifyAt (setProp attrVal new) q n).getAt p = n.getAt p :=
  getAt_modifyAt_other (href_setProp_val new) h (fun _ => children_setProp attrVal new) n

/-- A new value is seen wherever the path leads through. -/
theorem getAt_setVal_ne
    {p q : Path} {n node : XmlNode Nat} {new : Text}
    (h : p <+: q)
    (hget : n.getAt q = some node)
    (helement : node.isElement = true)
    (hnew : node.getProp attrVal ≠ some new) :
    (modifyAt (setProp attrVal new) q n).getAt p ≠ n.getAt p := by
  intro hsame
  obtain ⟨rest, rfl⟩ := h
  have hafter := getAt_modifyAt (href_setProp_val new) hget
  rw [getAt_append, hsame, ← getAt_append, hget] at hafter
  have hprop := getProp_setProp helement attrVal new
  rw [← Option.some.inj hafter] at hprop
  exact hnew hprop

/-- A value that a node does not have. -/
def otherVal (node : XmlNode Nat) : Text :=
  if node.getProp attrVal = some [] then ['1'] else []

theorem otherVal_ne (node : XmlNode Nat) : node.getProp attrVal ≠ some (otherVal node) := by
  rw [otherVal]
  split
  · rename_i h
    rw [h]
    simp
  · assumption

/-- Nodes of watches are changed by `watch_update_uri` only. -/
theorem watchUpdateUri_routed (beyond new : Text) : Routed s (s.watchUpdateUri beyond uri new) := by
  rw [Store.watchUpdateUri]
  split
  · exact routed_refuse rfl _
  · rename_i w hw
    split
    · exact routed_refuse rfl _
    · split
      · exact routed_refuse rfl _
      · split
        · exact routed_refuse rfl _
        · split
          · exact routed_refuse rfl _
          · constructor
            case history => exact getAt_setVal_other (watch_history w _) new s.dom
            case devices => exact .inl (getAt_setVal_other (watch_rootTokens w _) new s.dom)
            case watches => exact fun _ _ => .inr ⟨w.id, rfl⟩

/-- `xmldb_update_uri` keeps to its part of the tree if the tokens of the URI do. -/
theorem xmldbUpdateUri_routed_iff :
    (∀ new, Routed s (s.xmldbUpdateUri uri new)) ↔
      (xmldbGetNode s.dom uri ≠ none → ¬ historyPath <+: tokens '/' uri ∧
        ¬ rootTokens <+: tokens '/' uri ∧ ∀ w ∈ s.watches, ¬ w.path <+: tokens '/' uri) := by
  cases hnode : xmldbGetNode s.dom uri with
  | none =>
      refine ⟨fun _ h => absurd rfl h, fun _ new => ?_⟩
      rw [Store.xmldbUpdateUri, hnode]
      exact routed_refuse rfl _
  | some node =>
      have hupdate : ∀ new, s.xmldbUpdateUri uri new =
          { ret := .success
            updater := some .xmldb
            store := s.withDom (modifyAt (setProp attrVal new) (tokens '/' uri) s.dom) } := by
        intro new
        rw [Store.xmldbUpdateUri, hnode]
      have hget := getAt_of_xmldbGetNode hnode
      constructor
      · intro h _
        have hroute := h (otherVal node)
        rw [hupdate] at hroute
        have hseen : ∀ p : Path, p ≠ [] →
            (modifyAt (setProp attrVal (otherVal node)) (tokens '/' uri) s.dom).getAt p =
              s.dom.getAt p → ¬ p <+: tokens '/' uri := by
          intro p hp hsame hpath
          have hne : tokens '/' uri ≠ [] := by
            intro hnil
            rw [hnil] at hpath
            exact hp (List.prefix_nil.mp hpath)
          exact getAt_setVal_ne hpath hget (isElement_of_getAt hne hget) (otherVal_ne node) hsame
        refine ⟨hseen _ (by decide) hroute.history, hseen _ (by decide) ?_, fun w hw => ?_⟩
        · rcases hroute.devices with hsame | ⟨i, hi, -⟩
          · exact hsame
          · cases hi
        · refine hseen _ (by simp [ObixWatch.path]) ?_
          rcases hroute.watches w hw with hsame | ⟨id, hid⟩
          · exact hsame
          · cases hid
      · intro h new
        obtain ⟨hhistory, hdevices, hwatches⟩ := h (by simp)
        rw [hupdate]
        exact
          { history := getAt_setVal_other hhistory new s.dom
            devices := .inl (getAt_setVal_other hdevices new s.dom)
            watches := fun w hw => .inl (getAt_setVal_other (hwatches w hw) new s.dom) }

/-- A value of another device has been set in the write region of a device. -/
theorem not_routed_of_owner
    {i : Nat} {node own : XmlNode Nat} {p : Path} {o : Outcome}
    (hs : Sound s)
    (hown : s.dom.ownNode i = some own)
    (hget : own.getAt p = some node)
    (howner : node.owner ≠ some i)
    (hupdater : o.updater = some (.device i))
    (hdom : o.store.dom = s.dom.modifyOwn i (modifyAt (setProp attrVal (otherVal node)) p)) :
    ¬ Routed s o := by
  intro hroute
  have htop := owner_of_ownNode_some s.dom hown
  have hp : p ≠ [] := by
    rintro rfl
    obtain rfl : own = node := Option.some.inj hget
    exact howner htop
  have helement := isElement_of_getAt hp hget
  have hnew := otherVal_ne node
  obtain ⟨hhref, hkeeps⟩ := xmlSetVal_keeps p (otherVal node)
  have hafter : o.store.dom.ownNode i = some (modifyAt (setProp attrVal (otherVal node)) p own) := by
    rw [hdom]
    exact ownNode_modifyOwn ((hkeeps own).trans htop) s.dom hown
  rcases hroute.devices with hsame | ⟨j, hj, hhide⟩
  · -- the node of the device is the same, and so is everything below it
    have hconf : XmlNode.Confined deviceRoot rootTokens o.store.dom := by
      rw [hdom]
      exact hs.confined.modifyOwn hhref hkeeps
    rw [hconf.ownNode_eq, hsame, ← hs.confined.ownNode_eq, hown] at hafter
    have hfix := congrArg (fun n => XmlNode.getAt n p) (Option.some.inj hafter)
    exact getAt_setVal_ne List.prefix_rfl hget helement hnew hfix.symm
  · -- the value is not one of those that are hidden
    obtain rfl : i = j := by simpa [hupdater] using hj
    have hleft := congrArg (ownNode i) hhide
    rw [ownNode_hideVal, ownNode_hideVal, hafter, hown] at hleft
    have hbelow := congrArg (fun n => XmlNode.getAt n p) (Option.some.inj hleft)
    simp only [getAt_hideVal, hget, getAt_modifyAt (href_setProp_val (otherVal node)) hget,
      Option.map_some] at hbelow
    have hval := congrArg (getProp attrVal) (Option.some.inj hbelow)
    rw [getProp_hideVal (by simpa using howner), getProp_hideVal (by simpa using howner),
      getProp_setProp helement] at hval
    exact hnew hval.symm

/-- `device_update_uri` keeps to the device whose write region it is in if the URI leads to one
of its nodes. -/
theorem deviceUpdateUri_routed_iff (hs : Sound s) :
    (∀ new, ∃ o, s.deviceUpdateUri uri new = some o ∧ Routed s o) ↔
      ∀ i node, s.deviceNode uri = some (i, node) → node.owner = some i := by
  rcases @deviceUpdateUri_cases s uri hs.linked with
    ⟨hnone, hupdate⟩ | ⟨i, node, reg, own, p, hnode, -, hdom, hown, hget, hupdate⟩
  · refine ⟨fun _ i node h => ?_, fun _ new => ?_⟩
    · rw [hnone] at h
      cases h
    · obtain ⟨e, reg, -, hdom, hnew⟩ := hupdate new
      exact ⟨_, hnew, @routed_refuse s { s with reg := reg } hdom e⟩
  · constructor
    · intro h j m hjm
      obtain ⟨rfl, rfl⟩ := Prod.mk.inj (Option.some.inj (hnode.symm.trans hjm))
      by_contra howner
      obtain ⟨o, ho, hroute⟩ := h (otherVal node)
      rw [hupdate, if_neg (otherVal_ne node)] at ho
      obtain rfl := Option.some.inj ho
      exact not_routed_of_owner hs hown hget howner rfl rfl hroute
    · intro h new
      refine ⟨_, hupdate new, ?_⟩
      split
      · exact @routed_refuse s { s with reg := reg } hdom _
      · have hother : ∀ q : Path, ¬ q <+: rootTokens → ¬ rootTokens <+: q →
            (s.dom.modifyOwn i (modifyAt (setProp attrVal new) p)).getAt q = s.dom.getAt q := by
          intro q hq hroot
          rw [hs.confined.modifyOwn_eq]
          exact getAt_modifyAt_other (href_modifyOwn (xmlSetVal_keeps p new).1) hq
            (fun h => absurd h hroot) _
        constructor
        case history =>
          exact hother _ (rootTokens_history []) (by decide)
        case devices =>
          refine .inr ⟨i, rfl, hideVal_modifyOwn ?_ _ hown⟩
          exact hideVal_modifyAt hget (hideVal_setProp (by simp [h i node hnode]) new)
        case watches =>
          intro w _
          exact .inl (hother _ (rootTokens_watch w []) (by simpa using watch_rootTokens w []))

theorem device_of_history
    (h : isOfType uri .history = true) :
    isOfType uri .device = false := by
  by_contra hdevice
  rw [Bool.not_eq_false] at hdevice
  simp only [isOfType, Bool.and_eq_true, List.isPrefixOf_iff_prefix] at h hdevice
  exact absurd (List.prefix_of_prefix_length_le hdevice.1 h.1 (by decide)) (by decide)

/-- A write request is refused, or it gets to the update function of its URI. -/
theorem obixServerWrite_cases (beyond : Text) (input : Option Xml) :
    (∃ e, obixServerWrite beyond uri input s = some (s.refuse e)) ∨
      isOfType uri .history = false ∧
        ∃ val, obixServerWrite beyond uri input s = s.updateUri beyond uri val := by
  unfold obixServerWrite
  split
  · exact .inl ⟨_, rfl⟩
  · split
    · exact .inl ⟨_, rfl⟩
    · rename_i hhistory
      split
      · exact .inl ⟨_, rfl⟩
      · split
        · exact .inl ⟨_, rfl⟩
        · rename_i val hval
          split
          · exact .inl ⟨_, rfl⟩
          · exact .inr ⟨by simpa using hhistory, val, rfl⟩

/-- Every value can be written. -/
theorem obixServerWrite_obj
    (beyond val : Text)
    (hhistory : isOfType uri .history = false) :
    obixServerWrite beyond uri (some (.element none "obj".toList [(attrVal, val)] [])) s =
      s.updateUri beyond uri val := by
  have hother : otherHref uri (.element none "obj".toList [(attrVal, val)] []) = false := by
    simp [otherHref, getProp, attrHref, attrVal]
  have hval : getProp attrVal (.element none "obj".toList [(attrVal, val)] [] : Xml) = some val := by
    simp [getProp]
  have hname : ∀ tag, "obj".toList ≠ tag →
      hasName tag (.element none "obj".toList [(attrVal, val)] [] : Xml) = false := by
    intro tag htag
    exact decide_eq_false htag
  have hfit : unfit (.element none "obj".toList [(attrVal, val)] []) val = false := by
    rw [unfit, hname objBool (by decide), hname History.objAbstime (by decide)]
    rfl
  simp only [obixServerWrite, hhistory, hother, hval, hfit, Bool.false_eq_true, if_false]

/-- The updates of a URI are routed if and only if it is direct. -/
theorem updateUri_routed_iff
    (hs : Sound s)
    (hhistory : isOfType uri .history = false) :
    (∀ beyond val, ∃ o, s.updateUri beyond uri val = some o ∧ Routed s o) ↔ Direct s uri := by
  cases hdevice : isOfType uri .device with
  | true =>
      have hupdate : ∀ beyond val, s.updateUri beyond uri val = s.deviceUpdateUri uri val := by
        intro beyond val
        rw [Store.updateUri, if_pos hdevice]
      constructor
      · intro h
        refine ⟨fun _ => (deviceUpdateUri_routed_iff hs).mp fun val => ?_, fun _ hno => ?_⟩
        · rw [← hupdate []]
          exact h [] val
        · rw [hdevice] at hno
          cases hno
      · intro h beyond val
        rw [hupdate]
        exact (deviceUpdateUri_routed_iff hs).mpr (h.device hdevice) val
  | false =>
      cases hwatch : isOfType uri .watch with
      | true =>
          refine ⟨fun _ => ⟨fun hyes => ?_, fun _ _ hno => ?_⟩, fun _ beyond val => ?_⟩
          · rw [hdevice] at hyes
            cases hyes
          · rw [hwatch] at hno
            cases hno
          · refine ⟨s.watchUpdateUri beyond uri val, ?_, watchUpdateUri_routed beyond val⟩
            simp [Store.updateUri, hdevice, hwatch]
      | false =>
          have hupdate : ∀ beyond val, s.updateUri beyond uri val =
              some (s.xmldbUpdateUri uri val) := by
            intro beyond val
            simp [Store.updateUri, hdevice, hwatch]
          constructor
          · intro h
            refine ⟨fun hyes => ?_, fun _ _ _ => xmldbUpdateUri_routed_iff.mp fun val => ?_⟩
            · rw [hdevice] at hyes
              cases hyes
            · obtain ⟨o, ho, hroute⟩ := h [] val
              rw [hupdate] at ho
              obtain rfl := Option.some.inj ho
              exact hroute
          · intro h beyond val
            exact ⟨_, hupdate beyond val,
              xmldbUpdateUri_routed_iff.mpr (h.plain hhistory hdevice hwatch) val⟩

end Routed

section Kept

variable {s : Store} {uri : Text} {o : Outcome}

theorem Sound.withReg
    {reg : Registry}
    (hs : Sound s)
    (hreg : Linked reg)
    (hdom : reg.dom = s.dom) :
    Sound { s with reg := reg } := by
  refine ⟨hreg, ?_⟩
  show XmlNode.Confined deviceRoot rootTokens reg.dom
  rw [hdom]
  exact hs.confined

theorem Sound.withDom
    {dom : XmlNode Nat}
    (hs : Sound s)
    (hfresh : ∀ i, s.dom.ownNode i = none → dom.ownNode i = none)
    (hconfined : XmlNode.Confined deviceRoot rootTokens dom) :
    Sound (s.withDom dom) where
  linked := { hs.linked with freshDom := fun i hi => hfresh i (hs.linked.freshDom i hi) }
  confined := hconfined

/-- Setting a value anywhere keeps descriptors where they are. -/
theorem Sound.setVal
    (hs : Sound s)
    (p : Path)
    (val : Text) :
    Sound (s.withDom (modifyAt (setProp attrVal val) p s.dom)) :=
  hs.withDom (fun i => (keepsFresh_setProp i attrVal val).modifyAt p s.dom)
    (hs.confined.setVal val p)

/-- Updates keep what every store keeps. -/
theorem Sound.updateUri
    {beyond val : Text}
    (hs : Sound s)
    (h : s.updateUri beyond uri val = some o) :
    Sound o.store := by
  rw [Store.updateUri] at h
  split at h
  · rcases @deviceUpdateUri_cases s uri hs.linked with
      ⟨-, hupdate⟩ | ⟨i, node, reg, own, p, -, hreg, hdom, -, -, hupdate⟩
    · obtain ⟨e, reg, hreg, hdom, hval⟩ := hupdate val
      rw [hval] at h
      obtain rfl := Option.some.inj h
      exact hs.withReg hreg hdom
    · rw [hupdate] at h
      obtain rfl := Option.some.inj h
      split
      · exact hs.withReg hreg hdom
      · obtain ⟨hhref, hkeeps⟩ := xmlSetVal_keeps p val
        refine (hs.withReg hreg hdom).withDom (fun j hj => ?_) (hs.confined.modifyOwn hhref hkeeps)
        have hj : reg.dom.ownNode j = none := hj
        rw [hdom] at hj
        exact ((keepsFresh_setProp j attrVal val).modifyAt p).modifyOwn i s.dom hj
  · split at h
    · obtain rfl := Option.some.inj h
      rw [Store.watchUpdateUri]
      split
      · exact hs
      · split
        · exact hs
        · split
          · exact hs
          · split
            · exact hs
            · split
              · exact hs
              · exact hs.setVal _ val
    · obtain rfl := Option.some.inj h
      rw [Store.xmldbUpdateUri]
      split
      · exact hs
      · exact hs.setVal _ val

/-- A server is still one after a write request. -/
theorem Sound.write
    {beyond : Text} {input : Option Xml}
    (hs : Sound s)
    (h : obixServerWrite beyond uri input s = some o) :
    Sound o.store := by
  rcases @obixServerWrite_cases s uri beyond input with ⟨e, he⟩ | ⟨-, val, hval⟩
  · rw [he] at h
    obtain rfl := Option.some.inj h
    exact hs
  · exact hs.updateUri (hval ▸ h)

end Kept

/-- Whatever is written to a URI, each part of the tree is changed by its own update function, and
nodes of devices in the write region of their device, if and only if the URI is direct. -/
theorem write_routed_iff (server : Server) (uri : Text) :
    (∀ beyond input, ∃ o, obixServerWrite beyond uri input server.store = some o ∧
      Routed server.store o) ↔ Direct server.store uri := by
  have hs := server.sound
  cases hhistory : isOfType uri .history with
  | true =>
      have hdevice := device_of_history hhistory
      constructor
      · refine fun _ => ⟨fun hyes => ?_, fun hno => ?_⟩
        · rw [hdevice] at hyes
          cases hyes
        · rw [hhistory] at hno
          cases hno
      · intro _ beyond input
        rcases @obixServerWrite_cases server.store uri beyond input with ⟨e, he⟩ | ⟨hno, -⟩
        · exact ⟨_, he, routed_refuse rfl e⟩
        · rw [hhistory] at hno
          cases hno
  | false =>
      rw [← updateUri_routed_iff hs hhistory]
      constructor
      · intro h beyond val
        rw [← obixServerWrite_obj beyond val hhistory]
        exact h beyond _
      · intro h beyond input
        rcases @obixServerWrite_cases server.store uri beyond input with ⟨e, he⟩ | ⟨-, val, hval⟩
        · exact ⟨_, he, routed_refuse rfl e⟩
        · rw [hval]
          exact h beyond val

section Sample

/-- A lobby with a node for each of the two subsystems. -/
def sampleTree : Xml :=
  .element none "obj".toList [] [.element none "obj".toList [(attrHref, "obix".toList)]
    [.element none "obj".toList [(attrHref, "deviceRoot".toList)] [],
      .element none "obj".toList [(attrHref, "historyService".toList)] []]]

def sampleRegistry : Option Registry :=
  devicesStart "/srv".toList 2 2 sampleTree sampleDisk

theorem isSome_sampleRegistry : sampleRegistry.isSome = true := by decide +kernel

/-- A server that has just been started. -/
def sampleServer : Server where
  store :=
    { reg := sampleRegistry.get isSome_sampleRegistry, mtime := fun _ => 0, backupPeriod := 0,
      watches := [] }
  sound := sound_start (Option.some_get isSome_sampleRegistry).symm _ _ []

/-- A second slash hides from `is_given_type` that a URI leads to the history. -/
theorem write_history :
    ∃ (server : Server) (uri beyond : Text) (input : Option Xml) (o : Outcome),
      obixServerWrite beyond uri input server.store = some o ∧ ¬ Routed server.store o := by
  have hbefore : (sampleServer.store.dom.getAt historyPath).bind (getProp attrVal) = none := by
    decide +kernel
  have hafter : (obixServerWrite [] "/obix//historyService".toList
      (some (.element none "int".toList [(attrVal, "1".toList)] [])) sampleServer.store).map
        (fun o => (o.store.dom.getAt historyPath).bind (getProp attrVal)) =
      some (some "1".toList) := by
    decide +kernel
  obtain ⟨o, ho, hval⟩ := Option.map_eq_some_iff.mp hafter
  refine ⟨sampleServer, _, [], _, o, ho, fun hroute => ?_⟩
  rw [hroute.history, hbefore] at hval
  cases hval

end Sample

end Serving
end Obix
