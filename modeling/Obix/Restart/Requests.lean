import Obix.Restart.Stored

/-!
# Requests and what is stored

A request to sign up or to sign off a device keeps what a restart relies on (`Kept.request`): the
folder of the devices is in order, and the contract and the meta file of each device say what was
signed up, below a parent whose part has the node that the device is mounted at and none with the
href of the device itself.
-/

namespace Obix
namespace Serving

open CString XmlNode Devices Disk
open History (seLookup)

section Functions

/-- The way from the node of a href down to that of a longer one. -/
def wayTo (base href : Text) : Path :=
  if isStrIdentical base href then [] else tokens '/' (href.drop base.length)

/-- What `device_add` needs to find in the files of a device and of its parent: the contracts `x`
and `y`, and the name of the device with the folder `c` that it stands for. -/
structure Reloads (r e : Record) (x y : Xml) (name c : Text) : Prop where
  part : r.part = some x
  upper : e.part = some y
  writable : x.isWritable = true
  hasHref : x.href ≠ none
  fitting : ∀ t, x.href = some t → '/' ∉ t →
    tokens '/' r.href = tokens '/' (dirname r.href) ++ [t]
  named : x.getProp attrName = some name
  oneName : tokens '/' name = [c]
  isName : IsName c
  notFile : c ∉ deviceNames
  dir : linkPathname e.dir none (some name) none = some r.dir
  file : r.file = linkFile r.dir serverDbDeviceContract
  metaFile : r.metaFile = linkFile r.dir serverDbDeviceMeta
  valid : xmlIsValidHref r.href = true
  below : isDeviceRootHref r.href = false
  plainOwner : ∀ d ∈ r.ownerId, isPlain d = true
  plainHref : ∀ d ∈ r.href, isPlain d = true
  allowed : seLookup r.ownerId e.ownerId opDeviceAdd = true
  mounted : y.getAt (wayTo e.href (dirname r.href)) ≠ none
  free : y.getAt (wayTo e.href r.href) = none

/-- Every device can be loaded below its parent. -/
def Reloadable (s : Registry) : Prop :=
  ∀ r href, Has s r → r.parent = some href →
    ∃ e x y name c, Has s e ∧ e.href = href ∧ Reloads r e x y name c

/-- A request whose device can be loaded again: its owner and its href can be written between
quotes, and its name stands for a folder of its own that is not taken for a file of its parent. -/
def Restorable (r : Request) (s : Registry) : Prop :=
  OwnFolder r s ∧
    match r with
    | .signUp (some id) (some input) _ =>
        (∀ d ∈ id, isPlain d = true) ∧
          (∀ href, input.getProp attrHref = some href → ∀ d ∈ href, isPlain d = true) ∧
          ∀ name, input.getProp attrName = some name → ∀ c ∈ tokens '/' name, c ∉ deviceNames
    | _ => True

/-- A request after which the devices can be loaded again, or a reading. -/
def Store.Persisting (s : Store) (x : Doing) : Prop :=
  s.CarefulRead x ∧
    ((∃ r, x = .act (.request r) ∧ Restorable r s.reg) ∨ ∃ href, x = .act (.copy href))

/-- What requests keep. -/
structure Kept (root : Record) (base : List Text) (s : Store) : Prop where
  readable : Readable s
  stored : Stored root base s.reg
  reloadable : Reloadable s.reg

end Functions

section Contracts

variable {ω : Type} {attr : Text}

theorem getProp_relativeHref
    (h : attr ≠ attrHref)
    (n : XmlNode ω) :
    (relativeHref n).getProp attr = n.getProp attr := by
  rw [relativeHref]
  split
  · rfl
  · split
    · rfl
    · exact getProp_setProp_other h _ n

/-- Only hrefs are changed. -/
theorem getProp_setRelativeHref
    (h : attr ≠ attrHref)
    (n : XmlNode ω) :
    (setRelativeHref n).1.getProp attr = n.getProp attr := by
  cases n with
  | element o name attrs cs =>
      rw [setRelativeHref]
      split
      · rfl
      · exact getProp_relativeHref h _
  | text o content => rfl
  | comment o content => rfl

end Contracts

section Ways

variable {a : AddArgs} {s t : Registry} {p : Nat} {parent child : ObixDev}
variable {own m n : XmlNode Nat} {q : Path}

/-- The way through the nodes of a device. -/
theorem owner_of_onWay
    {i : Nat} {r : Path} {k : XmlNode Nat}
    (h : OnWay i q n)
    (hr : r <+: q)
    (hk : n.getAt r = some k) :
    k.owner = some i := by
  induction q generalizing n r with
  | nil =>
      rw [List.prefix_nil.mp hr] at hk
      obtain rfl := Option.some.inj hk
      exact h
  | cons u q ih =>
      obtain ⟨howner, c, hc, hrest⟩ := h
      cases r with
      | nil =>
          obtain rfl := Option.some.inj hk
          exact howner
      | cons v r =>
          obtain ⟨rfl, hr'⟩ := List.cons_prefix_cons.mp hr
          rw [getAt_cons, hc] at hk
          exact ih hrest hr' hk

/-- A place below the way, where a device has no node. -/
theorem getAt_part_free
    {i : Nat} {u : Text}
    (h : OnWay i q n)
    (hfree : n.getAt (q ++ [u]) = none) :
    (deviceCopyNoChild i n).getAt q = (n.getAt q).map (deviceCopyNoChild i) ∧
      (deviceCopyNoChild i n).getAt (q ++ [u]) = none := by
  refine ⟨getAt_deviceCopyNoChild fun r k hr hk => owner_of_onWay h hr hk, ?_⟩
  rw [getAt_deviceCopyNoChild, hfree]
  · rfl
  · intro r k hr hk
    rcases List.prefix_concat_iff.mp hr with rfl | hr
    · rw [hfree] at hk
      cases hk
    · exact owner_of_onWay h hr hk

/-- The way to a device goes one step beyond the way to the node that it is mounted at. -/
theorem wayTo_of_isPath
    {u : Text}
    (hs : Nesting s)
    (hpath : ∃ ts, IsPath a.href ts ∧ rootTokens <+: ts)
    (hlive : s.heap p = some parent)
    (habove : IsAbove parent.href a.href)
    (htokens : tokens '/' a.href =
      tokens '/' parent.href ++ Registry.nodePath parent (dirname a.href) ++ [u]) :
    wayTo parent.href a.href = wayTo parent.href (dirname a.href) ++ [u] := by
  obtain ⟨ts, hts, -⟩ := hpath
  have hdown := nodePath_of_isPath hs.placed.indexed hts hlive (hts.tokens ▸ habove.1)
  rw [← hts.tokens, htokens, List.append_assoc] at hdown
  exact List.append_cancel_left hdown

/-- The part of a device has the node that another one is mounted at, and no node with its href. -/
theorem getAt_part_of_mount
    (hs : Nesting s)
    (hpath : ∃ ts, IsPath a.href ts ∧ rootTokens <+: ts)
    (hlive : s.heap p = some parent)
    (hnear : NearestAbove s parent a.href)
    (hown : s.dom.ownNode p = some own)
    (hget : own.getAt (Registry.nodePath parent (dirname a.href)) = some m)
    (hnode : s.deviceGetNodeCore p parent a.href = none) :
    (deviceCopyNoChild p own).getAt (wayTo parent.href (dirname a.href)) ≠ none ∧
      (deviceCopyNoChild p own).getAt (wayTo parent.href a.href) = none := by
  obtain ⟨⟨u, htokens⟩, hway, -⟩ := hs.way_to_mount hpath hlive hnear hown hget
  have hstep := wayTo_of_isPath hs hpath hlive hnear.1 htokens
  have hfree : own.getAt (Registry.nodePath parent (dirname a.href) ++ [u]) = none := by
    by_contra hsome
    obtain ⟨k, hk⟩ := Option.ne_none_iff_exists'.mp hsome
    have hpathTo : Registry.nodePath parent a.href =
        Registry.nodePath parent (dirname a.href) ++ [u] := hstep
    rw [← hpathTo] at hk
    rw [deviceGetNodeCore_of_getAt hown hk (by rw [hpathTo]; simp)] at hnode
    cases hnode
  obtain ⟨hmount, hnone⟩ := getAt_part_free hway hfree
  refine ⟨?_, by rw [hstep]; exact hnone⟩
  show (deviceCopyNoChild p own).getAt (Registry.nodePath parent (dirname a.href)) ≠ none
  rw [hmount, hget]
  simp

end Ways

section Reloading

variable {root : Record} {base : List Text} {s t : Registry} {r e : Record} {c : Text}

theorem Reloads.tokens_dir
    {x y : Xml} {name : Text}
    (h : Reloads r e x y name c) :
    tokens '/' r.dir = tokens '/' e.dir ++ [c] := by
  rw [tokens_linkPathname h.dir, h.oneName]

/-- Nothing has changed. -/
theorem Reloadable.same
    (h : Reloadable s)
    (hhas : ∀ r, Has t r ↔ Has s r) :
    Reloadable t := by
  intro r href hr hparent
  obtain ⟨e, x, y, name, c, he, hhref, hreloads⟩ := h r href ((hhas r).mp hr) hparent
  exact ⟨e, x, y, name, c, (hhas e).mpr he, hhref, hreloads⟩

/-- One more device can be loaded. -/
theorem Reloadable.add
    {x y : Xml} {name : Text}
    (h : Reloadable s)
    (hhas : ∀ r', Has t r' ↔ r' = r ∨ Has s r')
    (he : Has s e)
    (hparent : r.parent = some e.href)
    (hreloads : Reloads r e x y name c) :
    Reloadable t := by
  intro r' href hr' hparent'
  rcases (hhas r').mp hr' with rfl | hr'
  · exact ⟨e, x, y, name, c, (hhas e).mpr (.inr he),
      Option.some.inj (hparent.symm.trans hparent'), hreloads⟩
  · obtain ⟨e', x', y', name', c', he', hhref, hreloads'⟩ := h r' href hr' hparent'
    exact ⟨e', x', y', name', c', (hhas e').mpr (.inr he'), hhref, hreloads'⟩

/-- A device that is the parent of no other one is not needed. -/
theorem Reloadable.remove
    (h : Reloadable s)
    (hhas : ∀ r', Has t r' ↔ r' ≠ r ∧ Has s r')
    (hleaf : ∀ r', Has s r' → r'.parent ≠ some r.href) :
    Reloadable t := by
  intro r' href hr' hparent
  obtain ⟨-, hr'⟩ := (hhas r').mp hr'
  obtain ⟨e, x, y, name, c, he, hhref, hreloads⟩ := h r' href hr' hparent
  refine ⟨e, x, y, name, c, (hhas e).mpr ⟨?_, he⟩, hhref, hreloads⟩
  rintro rfl
  exact hleaf r' hr' (hhref ▸ hparent)

/-- A folder in the folder of a device is that of one of its children. -/
theorem Reloadable.parent_of_dir
    (h : Reloadable s)
    (hstored : Stored root base s)
    (hr : Has s r)
    (he : Has s e)
    (htokens : tokens '/' r.dir = tokens '/' e.dir ++ [c]) :
    r.parent = some e.href := by
  cases hparent : r.parent with
  | none =>
      obtain ⟨names, -, hnames, -⟩ := hstored.below_dir he
      rw [hstored.top r hr hparent, hnames, List.append_assoc] at htokens
      have hlen := congrArg List.length htokens
      simp at hlen
  | some href =>
      obtain ⟨e', x, y, name, c', he', rfl, hreloads⟩ := h r href hr hparent
      have hsame := List.append_inj' (htokens.symm.trans hreloads.tokens_dir) rfl
      rw [hstored.distinct e e' he he' hsame.1]

end Reloading

section SignUp

variable {root : Record} {base : List Text} {a : AddArgs} {s t : Registry} {p : Nat} {e : ErrCode}
variable {parent child : ObixDev} {own m : XmlNode Nat}

/-- A contract whose device can be loaded again. -/
structure Lasting (a : AddArgs) : Prop where
  signUp : a.signUp = true
  valid : xmlIsValidHref a.href = true
  href : a.input.href = some a.href
  writable : a.node.isWritable = true
  hasHref : a.node.href ≠ none
  plainOwner : ∀ d ∈ a.requesterId, isPlain d = true
  plainHref : ∀ d ∈ a.href, isPlain d = true
  notFile : ∀ name, a.input.getProp attrName = some name → ∀ c ∈ tokens '/' name, c ∉ deviceNames

/-- A device that passes the checks of `device_add` passes them again when it is loaded. -/
theorem Lasting.reloads
    {name c : Text}
    (ha : Lasting a)
    (hs : Nesting s)
    (hpass : Passes a p parent child s)
    (hroot : isDeviceRootHref a.href = false)
    (hpath : ∃ ts, IsPath a.href ts ∧ rootTokens <+: ts)
    (hnear : NearestAbove s parent a.href)
    (hown : s.dom.ownNode p = some own)
    (hget : own.getAt (Registry.nodePath parent (dirname a.href)) = some m)
    (hnode : s.deviceGetNodeCore p parent a.href = none)
    (hname : a.input.getProp attrName = some name)
    (hone : tokens '/' name = [c])
    (hc : IsName c) :
    Reloads (newRecord a parent child) (recordOf s p parent) a.node (deviceCopyNoChild p own) name
      c := by
  obtain ⟨-, hhref, howner, -, -⟩ := dir_deviceInit hpass.init
  obtain ⟨-, hfile, hmetaFile⟩ := hpass.hasFiles hroot
  obtain ⟨hmounted, hfree⟩ := getAt_part_of_mount hs hpath hpass.live hnear hown hget hnode
  constructor
  case part => rfl
  case upper =>
    show (s.dom.ownNode p).map (deviceCopyNoChild p) = _
    rw [hown]
    rfl
  case writable => exact ha.writable
  case hasHref => exact ha.hasHref
  case fitting =>
    show ∀ t, a.node.href = some t → '/' ∉ t →
      tokens '/' child.href = tokens '/' (dirname child.href) ++ [t]
    rw [hhref]
    exact fitting_signUp hpath ha.signUp ha.href
  case named =>
    rw [AddArgs.node, if_pos ha.signUp, getProp_setRelativeHref (by decide +kernel), hname]
  case oneName => exact hone
  case isName => exact hc
  case notFile => exact ha.notFile name hname c (by simp [hone])
  case dir =>
    obtain ⟨name', hname', hlink⟩ := hpass.name
    obtain rfl := Option.some.inj (hname.symm.trans hname')
    exact hlink
  case file => exact hfile
  case metaFile => exact hmetaFile
  case valid =>
    show xmlIsValidHref child.href = true
    rw [hhref]
    exact ha.valid
  case below =>
    show isDeviceRootHref child.href = false
    rw [hhref]
    exact hroot
  case plainOwner =>
    show ∀ d ∈ child.ownerId, isPlain d = true
    rw [howner]
    exact ha.plainOwner
  case plainHref =>
    show ∀ d ∈ child.href, isPlain d = true
    rw [hhref]
    exact ha.plainHref
  case allowed =>
    show seLookup child.ownerId parent.ownerId opDeviceAdd = true
    rw [howner]
    exact hpass.allowed
  case mounted =>
    show (deviceCopyNoChild p own).getAt (wayTo parent.href (dirname child.href)) ≠ none
    rw [hhref]
    exact hmounted
  case free =>
    show (deviceCopyNoChild p own).getAt (wayTo parent.href child.href) = none
    rw [hhref]
    exact hfree

/-- The node that a device is mounted at. -/
theorem isElement_mount
    {q : Path}
    (hs : Nesting s)
    (hown : s.dom.ownNode p = some own)
    (hget : own.getAt q = some m) :
    m.isElement = true := by
  by_cases hq : q = []
  · rw [hq] at hget
    obtain rfl := Option.some.inj hget
    exact (hs.own hown).2
  · exact isElement_of_getAt hq hget

/-- The place of a new folder in the folder of the devices. -/
theorem Stored.place_next
    {names : List Text} {c path : Text}
    (h : Stored root base s)
    (he : Has s (recordOf s p parent))
    (hne : path ≠ [])
    (hnames : ∀ n ∈ names, IsName n)
    (hc : IsName c)
    (hparent : tokens '/' parent.dir = tokens '/' root.dir ++ names)
    (htokens : tokens '/' path = tokens '/' parent.dir ++ [c]) :
    s.disk.resolve path = some (base ++ (names ++ [c])) := by
  rw [← List.append_assoc]
  exact h.rooted.resolve_next hne (by rw [htokens, hparent]) hnames hc (h.folder he hparent)

/-- There is no folder at the place of a new one. -/
theorem Stored.no_folder
    {names : List Text} {c : Text}
    (h : Stored root base s)
    (hreload : Reloadable s)
    (hs : Nesting s)
    (hlive : s.heap p = some parent)
    (hparent : tokens '/' parent.dir = tokens '/' root.dir ++ names)
    (hnotFile : c ∉ deviceNames)
    (hother : ∀ j f, s.heap j = some f → f.parent = some p →
      tokens '/' f.dir ≠ tokens '/' parent.dir ++ [c]) :
    s.disk.entry (base ++ (names ++ [c])) = none := by
  by_contra hentry
  rw [← List.append_assoc] at hentry
  have he := has_of_heap hlive
  rcases h.inside _ names c he hparent hentry with ⟨-, hname⟩ | ⟨r, hr, htokens⟩
  · exact hnotFile hname
  · rw [← hparent] at htokens
    have hup := hreload.parent_of_dir h hr he htokens
    obtain ⟨j, f, hf, rfl⟩ := has_iff.mp hr
    obtain ⟨q, g, hq, hg, hhref⟩ := parent_of_recordOf hup
    have hhref : g.href = parent.href := hhref
    obtain rfl := hs.placed.indexed.unique q p g parent hg hlive (by simp [isStrIdentical, hhref])
    exact hother j f hf hq htokens

/-- A sign-up keeps the folder of the devices in order. -/
theorem kept_deviceAdd
    (ha : Lasting a)
    (hs : Nesting s)
    (hstored : Stored root base s)
    (hreload : Reloadable s)
    (hname : OwnName a.input a.href s)
    (hfresh : ∀ i dev p f, s.heap i = none → t.heap i = some dev → dev.parent = some p →
      s.heap p = some f → s.deviceGetNodeCore p f dev.href = none)
    (h : deviceAdd a s = some (e, t)) :
    Stored root base t ∧ Reloadable t := by
  rcases deviceAdd_cases h with ⟨-, -, rfl⟩ | ⟨p, u, e', t', hsearch, hout, rfl, -⟩
  · exact ⟨hstored, hreload⟩
  obtain ⟨hu, hroot, -⟩ := hs.placed.linked.deviceSearchParent hsearch
  obtain ⟨hpath, parent, hlive, hnear⟩ :=
    hs.placed.indexed.searchParent hs.placed.linked ha.valid hsearch
  obtain ⟨hheap, htab, hdom, hdisk, -⟩ := searchParent_same hsearch
  have hplaced : Placed u := hs.placed.of_heap hu hheap htab hdom
  have hnesting : Nesting u := hs.of_dom hplaced hheap (fun hn => hdom ▸ hn)
    fun q _ _ => hdom ▸ .refl q _
  have hhas := has_congr hheap hdom
  have hstored : Stored root base u := hstored.same hhas fun q => by rw [hdisk]
  have hreload : Reloadable u := hreload.same hhas
  have hlive : u.heap p = some parent := hheap ▸ hlive
  have hnear : NearestAbove u parent a.href := by rw [NearestAbove, hheap]; exact hnear
  suffices ht : Stored root base t' ∧ Reloadable t' from
    ⟨ht.1.same (fun _ => Iff.rfl) fun _ => rfl, ht.2.same fun _ => Iff.rfl⟩
  -- the folder of the new device is in that of its parent
  obtain ⟨name, c, hget, hone, hc, hother⟩ := hname p u parent hsearch (hheap ▸ hlive)
  have hnotFile := ha.notFile name hget c (by simp [hone])
  have he := has_of_heap hlive
  obtain ⟨names, hnames, hparent, -⟩ := hstored.below_dir he
  have hempty : ∀ parent' child, Passes a p parent' child u →
      parent' = parent ∧ tokens '/' child.dir = tokens '/' parent.dir ++ [c] ∧
        u.disk.resolve child.dir = some (base ++ (names ++ [c])) ∧
        u.disk.entry (base ++ (names ++ [c])) = none := by
    intro parent' child hpass
    obtain rfl := Option.some.inj (hlive.symm.trans hpass.live)
    have hdir := hpass.dir hget hone
    refine ⟨rfl, hdir, hstored.place_next he (hpass.hasFiles hroot).dir hnames hc hparent hdir,
      hstored.no_folder hreload hnesting hlive hparent hnotFile fun j f hf hq => ?_⟩
    rw [← hdir]
    refine hpass.own hu (fun k g hk hg hkdir => ?_) hf hq
    exact hother k g (hheap ▸ hk) hg (hkdir.trans hdir)
  cases hout with
  | refused => exact ⟨hstored, hreload⟩
  | @added parent' child disk hpass hfiles =>
      obtain ⟨rfl, hdir, hresolve, hnone⟩ := hempty parent' child hpass
      obtain ⟨m, hm⟩ := Option.ne_none_iff_exists'.mp hpass.mount
      obtain ⟨own, hown, hmget⟩ := Registry.getAt_of_deviceGetNodeCore hm
      have helem := isElement_mount hnesting hown hmget
      have hhas : ∀ r, Has { deviceMount a p parent' child u with disk := disk } r ↔
          r = newRecord a parent' child ∨ Has u r := fun r =>
        has_deviceMount hu hlive hown hmget helem rfl rfl
      have hnode : u.deviceGetNodeCore p parent' a.href = none := by
        have hne : u.next ≠ p := by
          rintro rfl
          rw [hu.fresh u.next le_rfl] at hlive
          cases hlive
        have hentry : (deviceMount a p parent' child u).heap u.next =
            some { child with parent := some p } := by
          rw [heap_deviceMount hu hlive, if_neg hne, if_pos rfl]
        have hnew := hfresh u.next { child with parent := some p } p parent'
          (hheap ▸ hu.fresh u.next le_rfl) hentry rfl (hheap ▸ hlive)
        rw [Registry.deviceGetNodeCore, hdom]
        rw [hpass.href.1] at hnew
        exact hnew
      have hreloads := ha.reloads hnesting hpass hroot hpath hnear hown hmget hnode hget hone hc
      obtain ⟨place, hnew, hset, hfolder, hmetaFile, hfile⟩ :=
        deviceSetupFiles_ok hstored.rooted.tree (hpass.hasFiles hroot) (hfiles ha.signUp)
      obtain rfl := Option.some.inj (hnew.resolve.symm.trans hresolve)
      have htree := isTree_deviceSetupFiles hstored.rooted.tree child a.node a.faults
      rw [hfiles ha.signUp] at htree
      refine ⟨hstored.add hhas (by simp [newRecord]) rfl hnames hc ?_ htree hnone hset
        ⟨hfolder, hmetaFile, hfile⟩, hreload.add hhas he rfl hreloads⟩
      show tokens '/' child.dir = _
      rw [hdir, ← List.append_assoc, ← hparent]
      rfl
  | @withdrawn parent' child disk e hpass hsignUp hfiles =>
      obtain ⟨rfl, hdir, hresolve, hnone⟩ := hempty parent' child hpass
      have hheap := @heap_withdrawn a u p parent' child hu hlive disk
      have hdom := @dom_withdrawn a u p parent' child hu disk
      have hhas := has_congr hheap hdom
      refine ⟨hstored.same hhas fun q => ?_, hreload.same hhas⟩
      have hentry := @entry_withdrawn child u.disk a.node a.faults hstored.rooted.tree
        (hpass.hasFiles hroot) (fun place hplace hfolder => ?_) q
      · rw [hfiles] at hentry
        exact hentry
      · obtain rfl := Option.some.inj (hresolve.symm.trans hplace)
        rw [hnone] at hfolder
        cases hfolder

end SignUp

section SignOff

variable {root : Record} {base : List Text} {s t : Registry} {i : Nat} {dev : ObixDev} {e : ErrCode}

/-- The devices that are left when one without children is signed off. -/
theorem has_signedOff
    {r : Record}
    (hs : Nesting s)
    (hdev : s.heap i = some dev)
    (hne : i ≠ deviceRoot)
    (hchildren : dev.children = []) :
    Has (signedOff i dev s) r ↔ r ≠ recordOf s i dev ∧ Has s r := by
  have hrecord := record_signedOff hs hdev hne hchildren
  constructor
  · rintro ⟨j, hj⟩
    rw [hrecord] at hj
    split at hj
    · cases hj
    · rename_i hji
      refine ⟨?_, j, hj⟩
      rintro rfl
      obtain ⟨f, hf, heq⟩ := Option.map_eq_some_iff.mp hj
      have hhref : f.href = dev.href := congrArg Record.href heq
      exact hji (hs.placed.indexed.unique j i f dev hf hdev (by simp [isStrIdentical, hhref]))
  · rintro ⟨hr, j, hj⟩
    refine ⟨j, ?_⟩
    rw [hrecord, if_neg, hj]
    rintro rfl
    exact hr (Option.some.inj (hj.symm.trans (record_of_heap hdev)))

/-- Nobody has a device without children as its parent. -/
theorem leaf_record
    {r : Record}
    (hs : Nesting s)
    (hdev : s.heap i = some dev)
    (hchildren : dev.children = [])
    (hr : Has s r) :
    r.parent ≠ some dev.href := by
  intro hparent
  obtain ⟨j, f, hf, rfl⟩ := has_iff.mp hr
  obtain ⟨q, g, hq, hg, hhref⟩ := parent_of_recordOf hparent
  obtain rfl := hs.placed.indexed.unique q i g dev hg hdev (by simp [isStrIdentical, hhref])
  exact hs.placed.linked.leaf hdev hchildren j (by rw [Registry.up_of_heap hf, hq])

/-- The files of a device without children are removed with its folder. -/
theorem Stored.entry_signedOff
    (hs : Nesting s)
    (hstored : Stored root base s)
    (hreload : Reloadable s)
    (hdev : s.heap i = some dev)
    (hne : i ≠ deviceRoot)
    (hchildren : dev.children = []) :
    ∃ names, names ≠ [] ∧ tokens '/' dev.dir = tokens '/' root.dir ++ names ∧
      (∀ r c, Has s r → tokens '/' r.dir ≠ tokens '/' dev.dir ++ [c]) ∧
      ∀ q, (signedOff i dev s).disk.entry q =
        if base ++ names <+: q then none else s.disk.entry q := by
  have hr := has_of_heap hdev
  obtain ⟨p, parent, hp, hparent, -⟩ := hs.placed.linked.parent i dev hdev hne
  have hup := @parent_recordOf s p i parent dev hp hparent
  have hchild : (recordOf s i dev).parent ≠ none := by
    rw [hup]
    simp
  have hleafDir : ∀ r c, Has s r → tokens '/' r.dir ≠ tokens '/' dev.dir ++ [c] := fun r c he heq =>
    leaf_record hs hdev hchildren he (hreload.parent_of_dir hstored he hr heq)
  obtain ⟨names, hnil, hnames, htokens⟩ := hstored.below _ hr hchild
  have htokens : tokens '/' dev.dir = tokens '/' root.dir ++ names := htokens
  obtain ⟨f, x, y, name, c, -, -, hreloads⟩ := hreload _ _ hr hup
  have hfiles : HasFiles dev := ⟨ne_nil_of_linkPathname hreloads.dir, hreloads.file, hreloads.metaFile⟩
  have hfolder := hstored.folder hr htokens
  have hresolve : s.disk.resolve dev.dir = some (base ++ names) :=
    hstored.rooted.resolve_below hfiles.dir htokens hnames (by rw [hfolder]; simp)
  have hinside : ∀ name, s.disk.entry (base ++ names ++ [name]) ≠ none →
      name ∈ deviceNames ∧ isFile (s.disk.entry (base ++ names ++ [name])) = true := by
    intro name hentry
    rcases hstored.inside _ names name hr htokens hentry with ⟨-, hname⟩ | ⟨r', hr', htokens'⟩
    · obtain ⟨z, -, hholds⟩ := hstored.files _ names hr hchild htokens
      refine ⟨hname, isFile_iff.mpr ?_⟩
      rcases mem_deviceNames.mp hname with rfl | rfl
      · exact ⟨_, hholds.metaFile⟩
      · exact ⟨_, hholds.file⟩
    · rw [← htokens] at htokens'
      exact absurd htokens' (hleafDir r' name hr')
  have hlast : (tokens '/' dev.dir).getLast? ≠ some ['.'] := by
    rw [htokens, List.getLast?_append_of_ne_nil _ hnil]
    intro hdot
    exact (hnames _ (List.mem_of_getLast? hdot)).2.2.1 rfl
  refine ⟨names, hnil, htokens, hleafDir, fun q => ?_⟩
  rw [disk_signedOff]
  exact entry_removed hfiles hstored.rooted.tree hresolve hfolder (by simp [hnil]) hlast hinside q

/-- The folder of the devices stays in order when a device without children is signed off. -/
theorem kept_signedOff
    (hs : Nesting s)
    (hstored : Stored root base s)
    (hreload : Reloadable s)
    (hdev : s.heap i = some dev)
    (hne : i ≠ deviceRoot)
    (hchildren : dev.children = []) :
    Stored root base (signedOff i dev s) ∧ Reloadable (signedOff i dev s) := by
  have hhas := fun r => @has_signedOff s i dev r hs hdev hne hchildren
  have hr := has_of_heap hdev
  obtain ⟨p, parent, hp, hparent, -⟩ := hs.placed.linked.parent i dev hdev hne
  have hchild : (recordOf s i dev).parent ≠ none := by
    rw [@parent_recordOf s p i parent dev hp hparent]
    simp
  obtain ⟨names, -, htokens, hleafDir, hentry⟩ :=
    hstored.entry_signedOff hs hreload hdev hne hchildren
  refine ⟨hstored.remove hhas hr hchild htokens ?_ ?_ hentry,
    hreload.remove hhas fun r he => leaf_record hs hdev hchildren he⟩
  · intro r c he
    rw [← htokens]
    exact hleafDir r c he
  · rw [disk_signedOff]
    exact isTree_deviceRemoveFiles hstored.rooted.tree dev

/-- A sign-off keeps the folder of the devices in order. -/
theorem kept_deviceDel
    {href requesterId : Text}
    (hs : Nesting s)
    (hstored : Stored root base s)
    (hreload : Reloadable s)
    (hroot : isDeviceRootHref href = false)
    (h : deviceDel Meanwhile.idle href requesterId s = some (e, t)) :
    Stored root base t ∧ Reloadable t := by
  obtain ⟨u, hu, hheap, htab, hdom, hdisk, hout⟩ := hs.placed.linked.deviceDel_cases hroot h
  have hplaced : Placed u := hs.placed.of_heap hu hheap htab hdom
  have hnesting : Nesting u := hs.of_dom hplaced hheap (fun hn => hdom ▸ hn)
    fun q _ _ => hdom ▸ .refl q _
  have hhas := has_congr hheap hdom
  have hstored : Stored root base u := hstored.same hhas fun q => by rw [hdisk]
  have hreload : Reloadable u := hreload.same hhas
  rcases hout with ⟨-, rfl⟩ | ⟨i, dev, hne, -, hdev, hchildren, -, rfl⟩
  · exact ⟨hstored, hreload⟩
  · exact kept_signedOff hnesting hstored hreload hdev hne hchildren

end SignOff

section Runs

variable {root : Record} {base : List Text} {s t init : Store}

/-- A contract from a document that is signed up under a href without its own quotes. -/
theorem lasting_signUp
    {id href : Text} {x : Xml} {faults : Faults}
    (hdelivered : (Doing.act (.request (.signUp (some id) (some x) faults))).Delivered)
    (hok : Restorable (.signUp (some id) (some x) faults) s.reg)
    (hhref : x.getProp attrHref = some href)
    (hvalid : xmlIsValidHref href = true) :
    Lasting
      { input := xmlCopy x, href := href, requesterId := id, signUp := true, faults := faults } := by
  obtain ⟨⟨body, hbody⟩, hfew⟩ := hdelivered
  obtain ⟨-, hid, hplain, hnotFile⟩ := hok
  have hcopy : (xmlCopy x).href = some href := (getProp_xmlCopy attrHref x).trans hhref
  constructor
  case signUp => rfl
  case valid => exact hvalid
  case href => exact hcopy
  case writable =>
    have htidy := isTidy_xmlCopy x (isTidy_of_xmlReadDoc hbody hfew)
    exact isWritable_of_isTidy (isTidy_setRelativeHref _ htidy).1
  case hasHref =>
    refine href_setRelativeHref_ne_none fun hnone => ?_
    cases hcopy.symm.trans hnone
  case plainOwner => exact hid
  case plainHref => exact hplain href hhref
  case notFile =>
    intro name hname
    rw [getProp_xmlCopy] at hname
    exact hnotFile name hname

/-- The searches do nothing on disk. -/
theorem disk_deviceFind
    {href : Text} {found : Option Nat} {reg : Registry}
    (h : s.deviceFind href = (found, reg)) :
    reg.disk = s.reg.disk := by
  rw [Store.deviceFind] at h
  split at h
  · rename_i i u hsearch
    cases h
    obtain ⟨cache, rfl⟩ := deviceSearch_some hsearch
    rfl
  · rename_i u hsearch
    obtain rfl := deviceSearch_none hsearch
    rcases deviceSearchParent_spec s.reg href with ⟨i, cache, hparent⟩ | hparent
    · rw [hparent] at h
      cases h
      rfl
    · rw [hparent] at h
      cases h
      rfl

/-- Requests keep what a restart relies on. -/
theorem Kept.request
    {r : Request} {e : ErrCode} {reg : Registry}
    (hs : Kept root base s)
    (hread : Readable { s with reg := reg })
    (hfresh : ∀ i dev p f, s.reg.heap i = none → reg.heap i = some dev → dev.parent = some p →
      s.reg.heap p = some f → s.reg.deviceGetNodeCore p f dev.href = none)
    (hdelivered : (Doing.act (.request r)).Delivered)
    (hok : Restorable r s.reg)
    (h : r.run s.reg = some (e, reg)) :
    Kept root base { s with reg := reg } := by
  have hnesting := hs.readable.arranged.nesting
  cases r with
  | signUp requesterId input faults =>
      rcases withHref_cases h with rfl | ⟨id, x, href, rfl, rfl, hhref, hvalid, -, hadd⟩
      · exact hs
      · have hname : OwnName (xmlCopy x) href s.reg := by
          intro p u parent hsearch hparent
          rw [getProp_xmlCopy]
          exact hok.1 href hhref p u parent hsearch hparent
        obtain ⟨hstored, hreload⟩ := kept_deviceAdd (lasting_signUp hdelivered hok hhref hvalid)
          hnesting hs.stored hs.reloadable hname hfresh hadd
        exact ⟨hread, hstored, hreload⟩
  | signOff requesterId input =>
      rcases withHref_cases h with rfl | ⟨id, x, href, -, -, -, -, hroot, hdel⟩
      · exact hs
      · obtain ⟨hstored, hreload⟩ := kept_deviceDel hnesting hs.stored hs.reloadable hroot hdel
        exact ⟨hread, hstored, hreload⟩

theorem Kept.perform
    {x : Doing}
    (hs : Kept root base s)
    (hok : s.Persisting x)
    (h : s.perform x = some t) :
    Kept root base t := by
  obtain ⟨⟨hcareful, hdelivered⟩, hwhat⟩ := hok
  have hread : Readable t := ⟨hs.readable.arranged.perform hcareful h,
    hs.readable.tidy.perform hs.readable.arranged hdelivered h⟩
  rcases hwhat with ⟨r, rfl, hrestorable⟩ | ⟨href, rfl⟩
  · obtain ⟨⟨e, reg⟩, hrun, rfl⟩ := Option.map_eq_some_iff.mp h
    exact hs.request hread (fun i dev p f => hcareful.1 _ i dev p f h) hdelivered hrestorable hrun
  · obtain ⟨⟨copy, u⟩, hcopy, rfl⟩ := Option.map_eq_some_iff.mp h
    have hsame : u.reg.heap = s.reg.heap ∧ u.reg.dom = s.reg.dom ∧ u.reg.disk = s.reg.disk := by
      rw [Store.deviceCopyUri] at hcopy
      split at hcopy
      · rename_i reg hfind
        cases hcopy
        obtain ⟨hheap, -, hdom, -⟩ := deviceFind_same hfind
        exact ⟨hheap, hdom, disk_deviceFind hfind⟩
      · rename_i i reg hfind
        obtain ⟨hheap, -, hdom, -⟩ := deviceFind_same hfind
        obtain ⟨dev, -, heq⟩ := Option.map_eq_some_iff.mp hcopy
        cases heq
        have hdisk := disk_deviceFind hfind
        exact ⟨hheap, hdom, hdisk⟩
    obtain ⟨hheap, hdom, hdisk⟩ := hsame
    have hhas := has_congr hheap hdom
    exact ⟨hread, hs.stored.same hhas fun q => by rw [hdisk], hs.reloadable.same hhas⟩

/-- At the start there is the device root, and nothing in the folder of the devices. -/
theorem kept_start
    {resdir dir : Text} {tabSize cacheSize : Nat} {dom : Xml} {disk : Disk} {base : List Text}
    (hlink : linkPathname resdir none (some serverDbDevices) none = some dir)
    (hinit : devicesStart resdir tabSize cacheSize dom disk = some init.reg)
    (htidy : dom.isTidy = true)
    (htree : IsTree disk)
    (hresolve : disk.resolve dir = some base)
    (hfolder : disk.entry base = some .folder)
    (hempty : disk.inside base = []) :
    ∃ root, root.dir = dir ∧ record init.reg deviceRoot = some root ∧ Kept root base init := by
  obtain ⟨dev, hdev, hnone, -, -⟩ := (linked_start hinit).root
  have honly : ∀ r, Has init.reg r → r = recordOf init.reg deviceRoot dev := by
    intro r hr
    obtain ⟨i, f, hf, rfl⟩ := has_iff.mp hr
    obtain ⟨rfl, -, -⟩ := heap_start hinit hf
    obtain rfl := Option.some.inj (hf.symm.trans hdev)
    rfl
  have hdir : dev.dir = dir ∧ init.reg.disk = disk := by
    obtain ⟨dir', hdir', hinit⟩ := Option.bind_eq_some_iff.mp hinit
    obtain rfl := Option.some.inj (hlink.symm.trans hdir')
    split at hinit
    · cases hinit
    · obtain ⟨f, hf, heq⟩ := Option.map_eq_some_iff.mp hinit
      rw [← heq] at hdev ⊢
      obtain rfl : f = dev := by simpa using hdev
      exact ⟨(dir_deviceInit hf).1, rfl⟩
  obtain ⟨hdir, hdisk⟩ := hdir
  have horphan : (recordOf init.reg deviceRoot dev).parent = none := by simp [recordOf, hnone]
  refine ⟨recordOf init.reg deviceRoot dev, hdir, record_of_heap hdev,
    readable_start hinit htidy, ?_, ?_⟩
  · constructor
    case rooted =>
      rw [hdisk]
      show Rooted base dev.dir disk
      rw [hdir]
      exact rooted_of_empty htree hresolve hfolder hempty
    case top => exact fun r hr _ => honly r hr
    case below => exact fun r hr hparent => absurd (honly r hr ▸ horphan) hparent
    case distinct => exact fun r r' hr hr' _ => (honly r hr).trans (honly r' hr').symm
    case files => exact fun r _ hr hparent _ => absurd (honly r hr ▸ horphan) hparent
    case inside =>
      intro r names name hr htokens hentry
      rw [honly r hr] at htokens
      obtain rfl : names = [] := by simpa using htokens
      rw [List.append_nil, hdisk] at hentry
      exact absurd (inside_eq_nil.mp hempty _ (by simp) (by simp)) hentry
  · intro r href hr hparent
    rw [honly r hr, horphan] at hparent
    cases hparent

end Runs

end Serving
end Obix
