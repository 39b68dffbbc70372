import Obix.History.DevIds
import Obix.Lib.Runs
import Obix.Xml.Removal

/-!
# Shutdown of the history subsystem

`obix_hist_dispose` walks the list of facilities backwards and deletes the node of each with all
that is below it.  The list is ordered by the lengths of the `dev_id`s.  No node is deleted twice
if no facility is created at or below the node of a facility with a `dev_id` at least as long, or
above the node of one with a shorter `dev_id` (`obixHistDispose_once`).  That is so for the
facilities whose `dev_id` is made of the components of their href (`placed_of_plain`).

Nothing else takes a node from below the history lobby, so that the location of a node tells
which node it is.
-/

namespace Obix
namespace History

open CString XmlNode

/-- The location of the node of a facility. -/
def Facility.location (f : Facility) : Path := tokens '/' f.href

/-- `hist_destroy_dev`.  There is no result if the node is not in the tree any more, since it has
been freed with another one. -/
def histDestroyDev (dev : Facility) (dom : Node) : Option Node :=
  if (dom.getAt dev.location).isSome then some (removeAt dev.location dom) else none

/-- `obix_hist_dispose`. -/
def obixHistDispose (sys : HistSys) : Option Node :=
  sys.devices.reverse.foldlM (fun dom dev => histDestroyDev dev dom) sys.dom

/-- What creates facilities. -/
inductive HistEvent
  /-- A folder in the directory scan at start-up. -/
  | load (folder : Folder)
  /-- A History.Get. -/
  | get (requester : Text) (input : Option Xml)

/-- A folder that cannot be loaded fails the start-up. -/
def histStep (sys : HistSys) : HistEvent → Option HistSys
  | .load folder => histLoadDev folder sys
  | .get requester input => some (handlerHistoryGet requester input sys).1

/-- `__hist_add_devnode` finds the node of a href or can create it. -/
def nodeAllowed (sys : HistSys) (href : Text) : Bool :=
  (xmldbGetNode sys.dom href).isSome || xmlIsValidHref href

/-- The facility that is created. -/
def created (sys : HistSys) : HistEvent → Option Facility
  | .load folder =>
      if isSkippedDir folder.name then none
      else
        (forEachStrToken '.' folder.name (joinTokens '/') none).join.bind fun subhref =>
          if nodeAllowed sys (histHref subhref) then some ⟨folder.name, histHref subhref⟩ else none
  | .get _ input =>
      (subhrefOf input).bind fun subhref =>
        (histGetDevId subhref).bind fun devId =>
          if (∀ dev ∈ sys.devices, dev.devId ≠ devId) ∧ mkdirAllowed sys devId ∧
              nodeAllowed sys (histHref subhref) then
            some ⟨devId, histHref subhref⟩
          else none

/-- A facility is created neither at or above the node of one with a shorter `dev_id`, nor at or
below the node of one with a `dev_id` at least as long. -/
def Placed (sys : HistSys) (ev : HistEvent) : Prop :=
  ∀ f ∈ created sys ev, ∀ g ∈ sys.devices,
    (g.devId.length < f.devId.length → ¬ f.location <+: g.location) ∧
    (f.devId.length ≤ g.devId.length → ¬ g.location <+: f.location)

/-- No facility has its node at or above that of one that is before it. -/
def AncestorsFirst (devices : List Facility) : Prop :=
  devices.Pairwise fun f g => ¬ g.location <+: f.location

/-- The list is ordered by the lengths of the `dev_id`s. -/
def ByLength (devices : List Facility) : Prop :=
  devices.Pairwise fun f g => f.devId.length ≤ g.devId.length

section Queue

variable {f : Facility} {devices : List Facility}

/-- A facility is enqueued behind those with a shorter `dev_id` and before the others. -/
theorem pairwise_enqueueDev_iff
    {R : Facility → Facility → Prop}
    (hsorted : ByLength devices) :
    (enqueueDev f devices).Pairwise R ↔
      devices.Pairwise R ∧
        ∀ g ∈ devices, (g.devId.length < f.devId.length → R g f) ∧
          (f.devId.length ≤ g.devId.length → R f g) := by
  induction devices with
  | nil => simp [enqueueDev]
  | cons n rest ih =>
      obtain ⟨hn, hrest⟩ := List.pairwise_cons.mp hsorted
      rw [enqueueDev]
      split
      · rename_i hlt
        have hmem : (∀ g ∈ enqueueDev f rest, R n g) ↔ R n f ∧ ∀ g ∈ rest, R n g := by
          simp only [mem_enqueueDev, forall_eq_or_imp]
        rw [List.pairwise_cons, ih hrest, hmem, List.pairwise_cons, List.forall_mem_cons]
        have hle : ¬ f.devId.length ≤ n.devId.length := by omega
        tauto
      · rename_i hge
        have hbehind : ∀ g ∈ n :: rest, ¬ g.devId.length < f.devId.length := by
          intro g hg
          rcases List.mem_cons.mp hg with rfl | hg
          · exact hge
          · have := hn g hg
            omega
        rw [List.pairwise_cons]
        constructor
        · rintro ⟨hfirst, hold⟩
          exact ⟨hold, fun g hg => ⟨fun hlt => absurd hlt (hbehind g hg), fun _ => hfirst g hg⟩⟩
        · rintro ⟨hold, hall⟩
          exact ⟨fun g hg => (hall g hg).2 (not_lt.mp (hbehind g hg)), hold⟩

theorem byLength_enqueueDev
    (h : ByLength devices) :
    ByLength (enqueueDev f devices) :=
  (pairwise_enqueueDev_iff h).mpr ⟨h, fun _ _ => ⟨fun hlt => hlt.le, fun hle => hle⟩⟩

end Queue

section Nodes

variable {sys sys' : HistSys} {devId subhref : Text} {index : Node}

theorem grows_setupFacility (devId : Text) (index : Node) :
    Grows (setupFacility devId index) :=
  (grows_setupPrivate devId).comp (grows_addChild index)

theorem tokens_histHref (subhref : Text) :
    tokens '/' (histHref subhref) = lobbyTokens ++ tokens '/' (skipSlash subhref) := by
  have hlobby : linkFolder obixHistoryLobby = obixHistoryLobby := by decide
  rw [histHref, hlobby, tokens_lobby]

theorem isElement_of_lobby
    {dom : Node}
    (h : (dom.getAt lobbyTokens).isSome) :
    dom.isElement = true := by
  cases dom with
  | element => rfl
  | text => cases h
  | comment => cases h

/-- A new node has the last component of its href. -/
theorem href_relativeHref_stub
    (subhref : Text) :
    (relativeHref (histDevStub.setProp attrHref (histHref subhref))).href =
      some (basename (histHref subhref)) := by
  obtain ⟨s, hs⟩ : ∃ s, histHref subhref = '/' :: 'o' :: s := ⟨_, rfl⟩
  rw [relativeHref_histDevStub hs]
  exact href_setProp_href ((isElement_setProp _ _ _).trans isElement_histDevStub) _

/-- The node of a facility that is created is there, and so are those that were there. -/
theorem getAt_histCreateDev
    (hlobby : (sys.dom.getAt lobbyTokens).isSome)
    (h : histCreateDev devId (histHref subhref) index sys = some sys') :
    sys'.devices = enqueueDev ⟨devId, histHref subhref⟩ sys.devices ∧
      (∀ q, (sys.dom.getAt q).isSome → (sys'.dom.getAt q).isSome) ∧
      (sys'.dom.getAt (tokens '/' (histHref subhref))).isSome := by
  have hsetup := grows_setupFacility devId index
  obtain ⟨dom, hdom, rfl⟩ := Option.map_eq_some_iff.mp h
  refine ⟨rfl, ?_⟩
  unfold histAddDevnode at hdom
  split at hdom
  · rename_i hget
    obtain rfl := Option.some.inj hdom
    have hgrows := hsetup.modifyAt (tokens '/' (histHref subhref))
    obtain ⟨m, hm⟩ := Option.isSome_iff_exists.mp hget
    exact ⟨hgrows.keeps _, hgrows.keeps _ _
      (Option.isSome_iff_exists.mpr ⟨m, getAt_of_xmldbGetNode hm⟩)⟩
  · unfold xmldbPutNode at hdom
    split at hdom
    · rename_i hvalid
      obtain rfl := Option.some.inj hdom
      have hpath := isPath_of_valid hvalid rfl
      obtain ⟨ts, u, t, hts⟩ : ∃ ts u t, tokens '/' (histHref subhref) = ts ++ [u] ++ [t] := by
        rw [tokens_histHref]
        rcases List.eq_nil_or_concat' (tokens '/' (skipSlash subhref)) with hnil | ⟨us, t, hus⟩
        · rw [hnil]
          exact ⟨["obix".toList], "historyService".toList, "histories".toList, rfl⟩
        · rw [hus]
          rcases List.eq_nil_or_concat' us with rfl | ⟨vs, u, rfl⟩
          · exact ⟨["obix".toList, "historyService".toList], "histories".toList, t, rfl⟩
          · exact ⟨lobbyTokens ++ vs, u, t, by simp⟩
      rw [hts] at hpath ⊢
      have hdir : tokens '/' (dirname (histHref subhref)) = ts ++ [u] := by
        rw [hpath.dirname]
        exact tokens_delimited fun v hv => hpath.isToken v (List.mem_append_left _ hv)
      have hnew := (hsetup.href _).trans (href_relativeHref_stub subhref)
      rw [hpath.basename] at hnew
      rw [hdir]
      exact ⟨((grows_addChild _).ensureAt isElement_histDevStub _).keeps _,
        isSome_getAt_ensureAt isElement_histDevStub hnew (isElement_of_lobby hlobby)⟩
    · cases hdom

theorem histCreateDev_isSome
    (devId href : Text)
    (index : Node)
    (sys : HistSys) :
    (histCreateDev devId href index sys).isSome = nodeAllowed sys href := by
  unfold nodeAllowed
  cases hc : histCreateDev devId href index sys with
  | none =>
      obtain ⟨hget, hvalid⟩ := histCreateDev_eq_none_iff.mp hc
      simp [hget, hvalid]
  | some sys' =>
      have hne : ¬ (xmldbGetNode sys.dom href = none ∧ xmlIsValidHref href = false) := by
        intro hnone
        rw [histCreateDev_eq_none_iff.mpr hnone] at hc
        cases hc
      cases hget : xmldbGetNode sys.dom href with
      | none => simpa [hget] using hne
      | some node => simp

end Nodes

section Steps

variable {sys sys' : HistSys} {ev : HistEvent}

/-- An event creates one facility or none. -/
theorem histStep_cases
    (h : histStep sys ev = some sys') :
    (created sys ev = none ∧ sys'.devices = sys.devices ∧ sys'.dom = sys.dom) ∨
      ∃ devId subhref index sys₁, created sys ev = some ⟨devId, histHref subhref⟩ ∧
        sys₁.devices = sys.devices ∧ sys₁.dom = sys.dom ∧
        histCreateDev devId (histHref subhref) index sys₁ = some sys' := by
  cases ev with
  | load folder =>
      unfold histStep histLoadDev at h
      dsimp only at h
      split at h
      · rename_i hskip
        cases h
        exact .inl ⟨by simp [created, hskip], rfl, rfl⟩
      · rename_i hskip
        split at h
        · cases h
        · rename_i subhref hsub
          have hallowed : nodeAllowed sys (histHref subhref) = true := by
            rw [← histCreateDev_isSome, h, Option.isSome_some]
          exact .inr ⟨_, _, _, _, by simp [created, hskip, hsub, hallowed], rfl, rfl, h⟩
  | get requester input =>
      obtain rfl := Option.some.inj h
      cases hsub : subhrefOf input with
      | none => exact .inl ⟨by simp [created, hsub], by simp [handlerHistoryGet, hsub]⟩
      | some subhref =>
          cases hid : histGetDevId subhref with
          | none =>
              exact .inl ⟨by simp [created, hsub, hid], by simp [handlerHistoryGet, hsub, hid]⟩
          | some devId =>
              by_cases hnew : ∀ dev ∈ sys.devices, dev.devId ≠ devId
              · rw [handlerHistoryGet_create hsub hid hnew]
                by_cases hmkdir : mkdirAllowed sys devId
                · simp only [getCreate, histCreateBackend, hmkdir, if_true]
                  have hsame := histCreateDev_isSome devId (histHref subhref) histIndexSkeleton
                    { sys with
                      disk := sys.disk ++ [{ name := devId, index := histIndexSkeleton }] }
                  cases hcreate : histCreateDev devId (histHref subhref) histIndexSkeleton
                      { sys with
                        disk := sys.disk ++ [{ name := devId, index := histIndexSkeleton }] }
                  with
                  | none =>
                      have hallowed : nodeAllowed sys (histHref subhref) = false :=
                        hsame.symm.trans (congrArg Option.isSome hcreate)
                      exact .inl ⟨by simp [created, hsub, hid, hallowed], rfl, rfl⟩
                  | some sys'' =>
                      have hallowed : nodeAllowed sys (histHref subhref) = true :=
                        hsame.symm.trans (congrArg Option.isSome hcreate)
                      refine .inr ⟨devId, subhref, histIndexSkeleton, { sys with
                        disk := sys.disk ++ [{ name := devId, index := histIndexSkeleton }] },
                        ?_, rfl, rfl, hcreate⟩
                      simp only [created, hsub, hid, Option.bind_some]
                      rw [if_pos ⟨hnew, hmkdir, hallowed⟩]
                · exact .inl ⟨by simp [created, hsub, hid, hmkdir],
                    by simp [getCreate, histCreateBackend, hmkdir]⟩
              · have hany : (sys.devices.any fun dev => dev.devId = devId) = true := by
                  push Not at hnew
                  simpa using hnew
                refine .inl ⟨?_, by simp [handlerHistoryGet, hsub, hid, hany]⟩
                simp only [created, hsub, hid, Option.bind_some]
                rw [if_neg fun hc => hnew hc.1]

/-- What a step does to the list of facilities and to the nodes. -/
theorem histStep_spec
    (hlobby : (sys.dom.getAt lobbyTokens).isSome)
    (h : histStep sys ev = some sys') :
    (∀ q, (sys.dom.getAt q).isSome → (sys'.dom.getAt q).isSome) ∧
      ((created sys ev = none ∧ sys'.devices = sys.devices) ∨
        ∃ f, created sys ev = some f ∧ sys'.devices = enqueueDev f sys.devices ∧
          (sys'.dom.getAt f.location).isSome) := by
  rcases histStep_cases h with ⟨hnone, hdevices, hdom⟩ |
    ⟨devId, subhref, index, sys₁, hsome, hdevices, hdom, hcreate⟩
  · exact ⟨fun q hq => hdom ▸ hq, .inl ⟨hnone, hdevices⟩⟩
  · obtain ⟨hqueue, hkeeps, hnode⟩ := getAt_histCreateDev (hdom ▸ hlobby) hcreate
    rw [hdevices] at hqueue
    rw [hdom] at hkeeps
    exact ⟨hkeeps, .inr ⟨_, hsome, hqueue, hnode⟩⟩

/-- The order is kept by the creations that meet the condition, and by no others. -/
theorem ancestorsFirst_step_iff
    (hlobby : (sys.dom.getAt lobbyTokens).isSome)
    (hsorted : ByLength sys.devices)
    (h : histStep sys ev = some sys') :
    AncestorsFirst sys'.devices ↔ AncestorsFirst sys.devices ∧ Placed sys ev := by
  obtain ⟨-, ⟨hnone, hdevices⟩ | ⟨f, hsome, hdevices, -⟩⟩ := histStep_spec hlobby h
  · rw [hdevices]
    have hplaced : Placed sys ev := by
      intro f hf
      rw [hnone] at hf
      cases hf
    exact ⟨fun hold => ⟨hold, hplaced⟩, fun hboth => hboth.1⟩
  · have hplaced : Placed sys ev ↔ ∀ g ∈ sys.devices,
        (g.devId.length < f.devId.length → ¬ f.location <+: g.location) ∧
        (f.devId.length ≤ g.devId.length → ¬ g.location <+: f.location) := by
      simp only [Placed, hsome, Option.mem_some_iff, forall_eq']
    rw [hdevices, hplaced]
    exact pairwise_enqueueDev_iff hsorted

end Steps

section Disposal

/-- The facilities in the order in which they are disposed of. -/
theorem foldlM_histDestroyDev
    {devices : List Facility} {dom : Node}
    (horder : devices.Pairwise fun f g => ¬ f.location <+: g.location)
    (hnodes : ∀ f ∈ devices, (dom.getAt f.location).isSome) :
    (devices.foldlM (fun dom dev => histDestroyDev dev dom) dom).isSome := by
  induction devices generalizing dom with
  | nil => rfl
  | cons f devices ih =>
      obtain ⟨hfirst, hrest⟩ := List.pairwise_cons.mp horder
      have hdestroy : histDestroyDev f dom = some (removeAt f.location dom) := by
        rw [histDestroyDev, if_pos (hnodes f List.mem_cons_self)]
      rw [List.foldlM_cons, hdestroy]
      apply ih hrest
      intro g hg
      exact isSome_getAt_removeAt (hfirst g hg) (hnodes g (List.mem_cons_of_mem f hg))

/-- No node is freed twice when ancestors are before their descendants. -/
theorem obixHistDispose_isSome
    {sys : HistSys}
    (horder : AncestorsFirst sys.devices)
    (hnodes : ∀ f ∈ sys.devices, (sys.dom.getAt f.location).isSome) :
    (obixHistDispose sys).isSome := by
  apply foldlM_histDestroyDev
  · exact List.pairwise_reverse.mpr horder
  · exact fun f hf => hnodes f (List.mem_reverse.mp hf)

end Disposal

section Plain

variable {p q : Path}

/-- A facility whose `dev_id` is made of the components of its href. -/
def Plain (f : Facility) : Prop :=
  ∃ p, p ≠ [] ∧ f.devId = devIdOf p ∧ f.location = lobbyTokens ++ p

theorem length_devIdOf
    (hp : p ≠ []) :
    (devIdOf p).length + 1 = (delimited '.' p).length := by
  rw [← delimited_tail hp, List.length_cons, devIdOf]

/-- An ancestor has a shorter `dev_id`. -/
theorem length_devIdOf_lt
    (hp : p ≠ [])
    (hpq : p <+: q)
    (hne : p ≠ q) :
    (devIdOf p).length < (devIdOf q).length := by
  obtain ⟨r, rfl⟩ := hpq
  obtain ⟨t, ts, rfl⟩ : ∃ t ts, r = t :: ts := by
    apply List.exists_cons_of_ne_nil
    rintro rfl
    exact hne (List.append_nil p).symm
  have hlen := length_devIdOf hp
  have hlen' := length_devIdOf (p := p ++ t :: ts) (by simp)
  have happ : delimited '.' (p ++ t :: ts) = delimited '.' p ++ delimited '.' (t :: ts) :=
    List.flatMap_append
  rw [happ, List.length_append, delimited_cons, List.length_cons] at hlen'
  omega

/-- The facilities of device paths are put in the right order. -/
theorem placed_of_plain
    {sys : HistSys} {ev : HistEvent}
    (hplain : ∀ g ∈ sys.devices, Plain g)
    (hnew : ∀ f ∈ created sys ev, Plain f ∧ ∀ g ∈ sys.devices, g.devId ≠ f.devId) :
    Placed sys ev := by
  intro f hf g hg
  obtain ⟨⟨p, hp, hfid, hfloc⟩, hids⟩ := hnew f hf
  obtain ⟨q, hq, hgid, hgloc⟩ := hplain g hg
  have hne : q ≠ p := by
    rintro rfl
    exact hids g hg (hgid.trans hfid.symm)
  rw [hfid, hgid, hfloc, hgloc, List.prefix_append_right_inj, List.prefix_append_right_inj]
  constructor
  · intro hlt hpre
    have := length_devIdOf_lt hp hpre hne.symm
    omega
  · intro hle hpre
    have := length_devIdOf_lt hq hpre hne
    omega

end Plain

/-- The nodes of the facilities are in the tree and the list is in order. -/
structure InOrderSys (sys : HistSys) : Prop where
  lobby : (sys.dom.getAt lobbyTokens).isSome
  sorted : ByLength sys.devices
  order : AncestorsFirst sys.devices
  nodes : ∀ f ∈ sys.devices, (sys.dom.getAt f.location).isSome

theorem InOrderSys.step
    {sys sys' : HistSys} {ev : HistEvent}
    (hs : InOrderSys sys)
    (hok : Placed sys ev)
    (hstep : histStep sys ev = some sys') :
    InOrderSys sys' := by
  have horder := (ancestorsFirst_step_iff hs.lobby hs.sorted hstep).mpr ⟨hs.order, hok⟩
  obtain ⟨hkeeps, ⟨-, hdevices⟩ | ⟨f, -, hdevices, hnode⟩⟩ := histStep_spec hs.lobby hstep
  · refine ⟨hkeeps _ hs.lobby, hdevices ▸ hs.sorted, horder, fun g hg => hkeeps _ ?_⟩
    exact hs.nodes g (hdevices ▸ hg)
  · refine ⟨hkeeps _ hs.lobby, hdevices ▸ byLength_enqueueDev hs.sorted, horder, ?_⟩
    intro g hg
    rw [hdevices, mem_enqueueDev] at hg
    rcases hg with rfl | hg
    · exact hnode
    · exact hkeeps _ (hs.nodes g hg)

/-- Facilities that are created in any order are ordered by the lengths of their `dev_id`s.
Ancestors are before their descendants and the shutdown frees every node once, if every creation
meets the condition. -/
theorem obixHistDispose_once
    {sys₀ sys : HistSys}
    (hlobby : (sys₀.dom.getAt lobbyTokens).isSome)
    (hnone : sys₀.devices = [])
    (hs : Runs.Reaches histStep Placed sys₀ sys) :
    ByLength sys.devices ∧ AncestorsFirst sys.devices ∧ (obixHistDispose sys).isSome := by
  have hinv : InOrderSys sys := hs.invariant (fun _ _ _ hs hok hstep => hs.step hok hstep)
    ⟨hlobby, by simp [hnone, ByLength], by simp [hnone, AncestorsFirst], by simp [hnone]⟩
  exact ⟨hinv.sorted, hinv.order, obixHistDispose_isSome hinv.order hinv.nodes⟩

section Sample

/-- A History.Get of a client. -/
def getEvent (path : String) : HistEvent := .get "client".toList (getIn path)

/-- The server with the facilities of some paths. -/
def afterGets (paths : List String) : HistSys :=
  paths.foldl (fun sys path => (handlerHistoryGet "client".toList (getIn path) sys).1) newHistSys

theorem histStep_getEvent (paths : List String) (path : String) :
    histStep (afterGets paths) (getEvent path) = some (afterGets (paths ++ [path])) := by
  simp only [afterGets, List.foldl_append]
  rfl

/-- A facility is created below another one, and then one above. -/
theorem obixHistDispose_once_nested :
    (newHistSys.dom.getAt lobbyTokens).isSome ∧ newHistSys.devices = [] ∧
      ByLength (afterGets ["M1/CB01", "M1"]).devices ∧
      AncestorsFirst (afterGets ["M1/CB01", "M1"]).devices ∧
      (obixHistDispose (afterGets ["M1/CB01", "M1"])).isSome := by
  have hfirst : Placed (afterGets []) (getEvent "M1/CB01") := by
    unfold Placed
    decide +kernel
  have hsecond : Placed (afterGets ["M1/CB01"]) (getEvent "M1") := by
    unfold Placed
    decide +kernel
  have hlobby : (newHistSys.dom.getAt lobbyTokens).isSome := by decide +kernel
  have hreaches : Runs.Reaches histStep Placed newHistSys (afterGets ["M1/CB01", "M1"]) :=
    (Runs.Reaches.refl.tail hfirst (histStep_getEvent [] _)).tail hsecond
      (histStep_getEvent ["M1/CB01"] _)
  exact ⟨hlobby, rfl, obixHistDispose_once hlobby rfl hreaches⟩

/-- A path that begins with the lobby gets a short `dev_id`. -/
theorem obixHistDispose_twice :
    ¬ ∀ sys₀ sys : HistSys, (sys₀.dom.getAt lobbyTokens).isSome → sys₀.devices = [] →
      Runs.Reaches histStep (fun _ _ => True) sys₀ sys →
      ByLength sys.devices ∧ AncestorsFirst sys.devices ∧ (obixHistDispose sys).isSome := by
  intro hall
  have hreaches : Runs.Reaches histStep (fun _ _ => True) newHistSys
      (afterGets ["obix", "/obix/historyService/histories/a"]) :=
    (Runs.Reaches.refl.tail trivial (histStep_getEvent [] _)).tail trivial
      (histStep_getEvent ["obix"] _)
  have honce := (hall newHistSys _ (by decide +kernel) rfl hreaches).2.2
  have htwice : (obixHistDispose
      (afterGets ["obix", "/obix/historyService/histories/a"])).isSome = false := by
    decide +kernel
  rw [htwice] at honce
  cases honce

end Sample

end History
end Obix
