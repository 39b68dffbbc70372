import Obix.Device.LoadFiles
import Obix.Restart.Requests

/-!
# Loading one device

A registry that holds some of the devices of another one (`Restoring`) can be given one more, if
the parent is there: `device_add` finds the parent, passes its checks and mounts the device with
the record that it had (`Restoring.add`).
-/

namespace Obix
namespace Serving

open CString XmlNode Devices Disk
open History (seLookup)

/-- A registry with some of the devices of another one, whose files are on disk. -/
structure Restoring (s t : Registry) : Prop where
  nesting : Nesting t
  idle : t.sync = fun _ => Tsync.init
  disk : t.disk = s.disk
  back : ∀ r, Has t r → Has s r

section Search

variable {s t : Registry} {href : Text}

/-- The number of the tokens of a path. -/
theorem length_le_of_isPath
    {ts : List Text}
    (h : IsPath href ts) :
    ts.length ≤ href.length := by
  have hcount : ts.length ≤ (delimited '/' ts).length := by
    clear h
    induction ts with
    | nil => simp
    | cons x xs ih =>
        rw [delimited_cons]
        simp only [List.length_cons, List.length_append]
        omega
  rcases h.eq with heq | heq
  · rwa [heq]
  · rw [heq, List.length_append]
    exact Nat.le_add_right_of_le hcount

/-- A path below the device root is a href of the Device subsystem. -/
theorem isGivenType_of_isPath
    {ts : List Text}
    (hts : IsPath href ts)
    (hroot : rootTokens <+: ts) :
    isGivenType href = true := by
  have hgiven : isGivenType (delimited '/' ts) = true := isGivenType_delimited hroot
  rcases hts.eq with heq | heq
  · rwa [heq]
  · rw [heq]
    simp only [isGivenType, Bool.and_eq_true, List.isPrefixOf_iff_prefix] at hgiven ⊢
    refine ⟨hgiven.1.trans (List.prefix_append _ _), ?_⟩
    obtain ⟨y, hy⟩ := hgiven.1
    rw [← hy, List.append_assoc, List.drop_left]
    rw [← hy, List.drop_left] at hgiven
    cases y with
    | nil => rfl
    | cons c y => exact hgiven.2

/-- Some device is found above a href below the device root. -/
theorem exists_searchParent
    (hs : Linked s)
    (hx : Indexed s)
    (hpath : ∃ ts, IsPath href ts ∧ rootTokens <+: ts)
    (hbelow : isDeviceRootHref href = false) :
    ∃ p u, s.deviceSearchParent href = (some p, u) := by
  obtain ⟨ts, hts, hroot⟩ := hpath
  obtain ⟨us, rfl⟩ := hroot
  obtain ⟨vs, v, rfl⟩ : ∃ vs v, us = vs ++ [v] := by
    rcases List.eq_nil_or_concat us with rfl | ⟨vs, v, rfl⟩
    · rw [List.append_nil] at hts
      rw [(isDeviceRootHref_iff hts).mpr rfl] at hbelow
      cases hbelow
    · exact ⟨vs, v, by simp⟩
  have htype : isGivenType href = true := isGivenType_of_isPath hts (List.prefix_append _ _)
  rw [← List.append_assoc] at hts
  obtain ⟨ws, w, hws⟩ : ∃ ws w, rootTokens ++ vs = ws ++ [w] := by
    rcases List.eq_nil_or_concat (rootTokens ++ vs) with hnil | ⟨ws, w, hws⟩
    · simp [rootTokens] at hnil
    · exact ⟨ws, w, by simpa using hws⟩
  have hdirname : dirname href = delimited '/' (rootTokens ++ vs) := by
    rw [hws] at hts ⊢
    exact hts.dirname
  have hlen := length_le_of_isPath hts
  rw [List.length_append, List.length_singleton] at hlen
  obtain ⟨p, parent, hfound, -⟩ := hx.searchUp hs (href.length + 1)
    (fun x hx => hts.isToken x (List.mem_append_left _ hx)) (List.prefix_append _ _) (by omega)
  refine ⟨p, (s.deviceSearchParent href).2, ?_⟩
  rw [Registry.deviceSearchParent, if_neg (by simp [htype, hbelow]), hdirname]
  exact Prod.ext hfound rfl

end Search

section Parent

variable {s t : Registry} {r e : Record} {x y : Xml} {name c : Text} {p : Nat} {parent : ObixDev}

/-- What `device_load_contract` asks `device_add` for. -/
def loadArgs (r : Record) (x : Xml) : AddArgs :=
  { input := x, href := r.href, requesterId := r.ownerId, signUp := false, faults := Faults.none }

/-- The descriptor that `device_init` makes again. -/
def loadedDev (r : Record) : ObixDev :=
  { href := r.href, ownerId := r.ownerId, dir := r.dir, file := r.file, metaFile := r.metaFile,
    parent := none, children := [] }

/-- A device of the registry that is restored. -/
theorem Restoring.stored
    {j : Nat} {f : ObixDev}
    (h : Restoring s t)
    (hf : t.heap j = some f) :
    ∃ k g, s.heap k = some g ∧ recordOf s k g = recordOf t j f ∧ g.href = f.href := by
  obtain ⟨k, g, hg, heq⟩ := has_iff.mp (h.back _ (has_of_heap hf))
  exact ⟨k, g, hg, heq, congrArg Record.href heq⟩

/-- A device that is not there yet has a href of its own. -/
theorem Restoring.tokens_ne
    {j : Nat} {f : ObixDev}
    (h : Restoring s t)
    (hs : Nesting s)
    (hr : Has s r)
    (hnew : ¬ Has t r)
    (hf : t.heap j = some f) :
    tokens '/' f.href ≠ tokens '/' r.href := by
  intro htokens
  obtain ⟨i, dev, hdev, rfl⟩ := has_iff.mp hr
  obtain ⟨k, g, hg, heq, hhref⟩ := h.stored hf
  rw [← hhref] at htokens
  obtain rfl := hs.placed.indexed.eq_of_tokens hg hdev htokens
  obtain rfl := Option.some.inj (hg.symm.trans hdev)
  exact hnew (heq ▸ has_of_heap hf)

/-- The parent of a device is the nearest one above it, if it is there. -/
theorem Restoring.nearest
    (h : Restoring s t)
    (hs : Nesting s)
    (hr : Has s r)
    (he : Has t e)
    (hparent : r.parent = some e.href) :
    ∃ p parent, t.heap p = some parent ∧ recordOf t p parent = e ∧
      NearestAbove t parent r.href := by
  obtain ⟨p, parent, hlive, rfl⟩ := has_iff.mp he
  obtain ⟨i, dev, hdev, rfl⟩ := has_iff.mp hr
  obtain ⟨q, g, hq, hg, hhref⟩ := parent_of_recordOf hparent
  have hhref : g.href = parent.href := hhref
  obtain ⟨habove, hlast⟩ := hs.hierarchy.nearest i dev q g hdev hq hg
  rw [hhref] at habove hlast
  refine ⟨p, parent, hlive, rfl, habove, fun j f hf hbelow => ?_⟩
  obtain ⟨k, g', hg', -, hhref'⟩ := h.stored hf
  rw [← hhref'] at hbelow ⊢
  exact hlast k g' hg' hbelow

/-- `device_search_parent` finds the parent. -/
theorem Restoring.found
    (h : Restoring s t)
    (hs : Nesting s)
    (hr : Has s r)
    (he : Has t e)
    (hparent : r.parent = some e.href)
    (hvalid : xmlIsValidHref r.href = true)
    (hbelow : isDeviceRootHref r.href = false) :
    ∃ p parent u, t.deviceSearchParent r.href = (some p, u) ∧ t.heap p = some parent ∧
      recordOf t p parent = e ∧ NearestAbove t parent r.href := by
  obtain ⟨q, e', hlive, heq, hnear⟩ := h.nearest hs hr he hparent
  have hpath : ∃ ts, IsPath r.href ts ∧ rootTokens <+: ts := by
    obtain ⟨i, dev, hdev, rfl⟩ := has_iff.mp hr
    exact hs.placed.indexed.path i dev hdev
  have hlinked := h.nesting.placed.linked
  have hindexed := h.nesting.placed.indexed
  obtain ⟨p, u, hsearch⟩ := exists_searchParent hlinked hindexed hpath hbelow
  obtain ⟨-, parent, hfound, hnear'⟩ := hindexed.searchParent hlinked hvalid hsearch
  -- there is only one nearest device
  have htokens : tokens '/' parent.href = tokens '/' e'.href := by
    have hle := hnear.2 p parent hfound hnear'.1
    have hge := hnear'.2 q e' hlive hnear.1
    exact hle.eq_of_length (le_antisymm hle.length_le hge.length_le)
  obtain rfl := hindexed.eq_of_tokens hfound hlive htokens
  obtain rfl := Option.some.inj (hfound.symm.trans hlive)
  exact ⟨p, parent, u, hsearch, hfound, heq, hnear'⟩

end Parent

section Checks

variable {s t : Registry} {r e : Record} {x y : Xml} {name c : Text} {p : Nat} {parent : ObixDev}
variable {own : XmlNode Nat} {a : AddArgs}

/-- On the way to a device that is not there yet are nodes of its parent only. -/
theorem owner_to_new
    {k : XmlNode Nat} {q : Path} {u : Text}
    (ht : Nesting t)
    (hlive : t.heap p = some parent)
    (hnear : NearestAbove t parent a.href)
    (hother : ∀ j f, t.heap j = some f → tokens '/' f.href ≠ tokens '/' a.href)
    (hown : t.dom.ownNode p = some own)
    (htokens : tokens '/' a.href =
      tokens '/' parent.href ++ Registry.nodePath parent (dirname a.href) ++ [u])
    (hq : q <+: Registry.nodePath parent (dirname a.href) ++ [u])
    (hk : own.getAt q = some k) :
    k.owner = some p := by
  have hpre : tokens '/' parent.href ++ q <+: tokens '/' a.href := by
    rw [htokens, List.append_assoc]
    exact (List.prefix_append_right_inj _).mpr hq
  refine Registry.owner_on_last ht.placed.indexed ht.placed.settled hlive hown (fun v hv => ?_)
    (fun j f hf hbelow => hnear.2 j f hf ⟨hbelow.trans hpre, hother j f hf⟩) hk
  have hmem : v ∈ tokens '/' a.href := hpre.subset (List.mem_append_right _ hv)
  exact (isToken_of_mem_tokens hmem).2

/-- The node that a device was mounted at is found again. -/
theorem mount_found
    {q : Text} {m : XmlNode Nat} {ts : List Text}
    (ht : Nesting t)
    (hlive : t.heap p = some parent)
    (hown : t.dom.ownNode p = some own)
    (hpath : IsPath q ts)
    (hdown : tokens '/' parent.href ++ Registry.nodePath parent q = tokens '/' q)
    (hget : own.getAt (Registry.nodePath parent q) = some m) :
    t.deviceGetNodeCore p parent q = some m := by
  by_cases hnil : Registry.nodePath parent q = []
  · -- the device is mounted at the node of its parent
    obtain ⟨us, hus, -⟩ := ht.placed.indexed.path p parent hlive
    rw [hnil, List.append_nil, hus.tokens, hpath.tokens] at hdown
    rw [hnil] at hget
    rw [Registry.deviceGetNodeCore, hown, Option.bind_some,
      if_pos ((hus.isStrIdentical_iff hpath).mpr hdown)]
    exact hget
  · exact deviceGetNodeCore_of_getAt hown hget hnil

/-- A device that is loaded passes the checks of `device_add`, and has the record that it had. -/
theorem Restoring.passes
    (h : Restoring s t)
    (hs : Nesting s)
    (hr : Has s r)
    (hparent : r.parent = some e.href)
    (hreloads : Reloads r e x y name c)
    (hnew : ¬ Has t r)
    (hlive : t.heap p = some parent)
    (heq : recordOf t p parent = e)
    (hnear : NearestAbove t parent r.href) :
    Passes (loadArgs r x) p parent (loadedDev r) t ∧
      newRecord (loadArgs r x) parent (loadedDev r) = r ∧
      t.deviceGetNodeCore p parent r.href = none := by
  have ht := h.nesting
  have hpath : ∃ ts, IsPath (loadArgs r x).href ts ∧ rootTokens <+: ts := by
    obtain ⟨i, dev, hdev, rfl⟩ := has_iff.mp hr
    exact hs.placed.indexed.path i dev hdev
  have hother : ∀ j f, t.heap j = some f → tokens '/' f.href ≠ tokens '/' (loadArgs r x).href :=
    fun j f hf => h.tokens_ne hs hr hnew hf
  have hehref : e.href = parent.href := by rw [← heq]; rfl
  obtain ⟨own, hown⟩ := Option.ne_none_iff_exists'.mp (ht.present p parent hlive)
  -- the part of the parent has the node to mount the device at, and not the one of the device
  have hpart : y = deviceCopyNoChild p own := by
    have hupper : partOf p t.dom = some y := by
      rw [← hreloads.upper, ← heq]
      rfl
    rw [partOf, hown] at hupper
    exact (Option.some.inj hupper).symm
  have hmounted : (deviceCopyNoChild p own).getAt
      (Registry.nodePath parent (dirname (loadArgs r x).href)) ≠ none := by
    have hkept := hreloads.mounted
    rw [hehref, hpart] at hkept
    exact hkept
  have hfree : (deviceCopyNoChild p own).getAt (wayTo parent.href (loadArgs r x).href) = none := by
    have hkept := hreloads.free
    rw [hehref, hpart] at hkept
    exact hkept
  have hdown := nodePath_dirname ht.placed.indexed hpath hlive hnear.1
  obtain ⟨ts, u, hts, hdir⟩ := isPath_dirname hpath
  have htokens : tokens '/' (loadArgs r x).href =
      tokens '/' parent.href ++ Registry.nodePath parent (dirname (loadArgs r x).href) ++ [u] := by
    rw [hdown, hts.tokens, hdir.tokens]
  have hstep := wayTo_of_isPath ht hpath hlive hnear.1 htokens
  have howner : ∀ q k, q <+: Registry.nodePath parent (dirname (loadArgs r x).href) ++ [u] →
      own.getAt q = some k → k.owner = some p := fun q k hq hk =>
    owner_to_new ht hlive hnear hother hown htokens hq hk
  obtain ⟨m, hm⟩ : ∃ m, own.getAt (Registry.nodePath parent (dirname (loadArgs r x).href)) =
      some m := by
    rw [getAt_deviceCopyNoChild fun q k hq => howner q k (hq.trans (List.prefix_append _ _))]
      at hmounted
    refine Option.ne_none_iff_exists'.mp fun hnone => hmounted ?_
    rw [hnone]
    rfl
  have hnode : t.deviceGetNodeCore p parent r.href = none := by
    by_contra hsome
    obtain ⟨k, hk⟩ := Option.ne_none_iff_exists'.mp hsome
    obtain ⟨own', hown', hk⟩ := Registry.getAt_of_deviceGetNodeCore hk
    obtain rfl := Option.some.inj (hown.symm.trans hown')
    have hway : Registry.nodePath parent r.href =
        Registry.nodePath parent (dirname (loadArgs r x).href) ++ [u] := hstep
    have hfree : (deviceCopyNoChild p own).getAt (Registry.nodePath parent r.href) = none := hfree
    rw [getAt_deviceCopyNoChild fun q k hq => howner q k (hway ▸ hq), hk] at hfree
    cases hfree
  obtain ⟨file, hfile⟩ := exists_linkFile (ne_nil_of_linkPathname hreloads.dir) serverDbDeviceContract
  obtain ⟨metaFile, hmetaFile⟩ :=
    exists_linkFile (ne_nil_of_linkPathname hreloads.dir) serverDbDeviceMeta
  have hinit : deviceInit r.href r.dir r.ownerId = some (loadedDev r) := by
    rw [deviceInit, if_neg (by simp [hreloads.below]), hmetaFile, Option.bind_some, hfile,
      Option.map_some, loadedDev, hreloads.file, hreloads.metaFile, hfile, hmetaFile]
  refine ⟨⟨hlive, ⟨name, hreloads.named, ?_⟩, hinit, ?_, ?_, ?_, ?_⟩, ?_, hnode⟩
  · have hdir := hreloads.dir
    rw [← heq] at hdir
    exact hdir
  · have hallowed := hreloads.allowed
    rw [← heq] at hallowed
    exact hallowed
  · rw [h.idle]
    show Tsync.init.writerRequest ≠ none
    decide
  · refine List.find?_eq_none.mpr fun f hf hid => ?_
    obtain ⟨j, -, hj⟩ := List.mem_filterMap.mp hf
    exact hother j f hj (tokens_of_identical hid)
  · rw [mount_found ht hlive hown hdir hdown hm]
    simp
  · have hup : r.parent = some parent.href := hehref ▸ hparent
    rw [newRecord, ← hup]
    show Record.mk r.href r.ownerId r.dir r.file r.metaFile r.parent (some x) = r
    rw [← hreloads.part]

end Checks

section Loading

variable {s t : Registry} {r e : Record} {x y : Xml} {name c : Text}

/-- One more device has been loaded. -/
theorem Restoring.add
    (h : Restoring s t)
    (hs : Nesting s)
    (hr : Has s r)
    (he : Has t e)
    (hparent : r.parent = some e.href)
    (hreloads : Reloads r e x y name c)
    (hnew : ¬ Has t r) :
    ∃ t', deviceAdd (loadArgs r x) t = some (.success, t') ∧ Restoring s t' ∧
      ∀ r', Has t' r' ↔ r' = r ∨ Has t r' := by
  have hlinked := h.nesting.placed.linked
  obtain ⟨p, parent, u, hsearch, hlive, heq, hnear⟩ :=
    h.found hs hr he hparent hreloads.valid hreloads.below
  obtain ⟨hpass, hrecord, hnode⟩ := h.passes hs hr hparent hreloads hnew hlive heq hnear
  have hpass' : Passes (loadArgs r x) p parent (loadedDev r) u := (Passes.of_search hsearch).mpr hpass
  obtain ⟨hu, hroot, -⟩ := hlinked.deviceSearchParent hsearch
  obtain ⟨hheap, -, hdom, hdisk, hsync⟩ := searchParent_same hsearch
  have hadd : deviceAdd (loadArgs r x) t =
      some (.success, (deviceMount (loadArgs r x) p parent (loadedDev r) u).put p) := by
    have hsearch : t.deviceSearchParent (loadArgs r x).href = (some p, u) := hsearch
    rw [deviceAdd, hsearch]
    dsimp only
    rw [hpass'.live, Option.bind_some]
    show Option.map _ (x.getProp attrName) = _
    rw [hreloads.named, Option.map_some, deviceAddUnder_of_passes hpass' hreloads.named]
    rfl
  obtain ⟨m, hm⟩ := Option.ne_none_iff_exists'.mp hpass'.mount
  obtain ⟨own, hown, hget⟩ := Registry.getAt_of_deviceGetNodeCore hm
  have helem : m.isElement = true := isElement_mount h.nesting (hdom ▸ hown) hget
  have hhas : ∀ r', Has ((deviceMount (loadArgs r x) p parent (loadedDev r) u).put p) r' ↔
      r' = r ∨ Has t r' := by
    intro r'
    refine (has_deviceMount hu hpass'.live hown hget helem rfl rfl).trans ?_
    rw [hrecord, has_congr hheap hdom]
  refine ⟨_, hadd, ⟨?_, ?_, ?_, ?_⟩, hhas⟩
  · have hfitting : Fitting (loadArgs r x) := hreloads.fitting
    refine h.nesting.deviceAdd hreloads.valid (fun _ => hfitting) hreloads.hasHref ?_ hadd
    -- the new device is the only one that was not there before
    intro i dev q f hi hdev hq hf
    have hdev : (deviceMount (loadArgs r x) p parent (loadedDev r) u).heap i = some dev := hdev
    rw [heap_deviceMount hu hpass'.live] at hdev
    split at hdev
    · rename_i hip
      rw [hip, hlive] at hi
      cases hi
    · split at hdev
      · obtain rfl := Option.some.inj hdev
        obtain rfl : p = q := Option.some.inj hq
        obtain rfl := Option.some.inj (hlive.symm.trans hf)
        exact hnode
      · rw [hheap, hi] at hdev
        cases hdev
  · show Function.update u.sync u.next Tsync.init = _
    rw [hsync, h.idle, Function.update_eq_self]
  · exact hdisk.trans h.disk
  · intro r' hr'
    rcases (hhas r').mp hr' with rfl | hr'
    · exact hr
    · exact h.back r' hr'

end Loading

end Serving
end Obix
