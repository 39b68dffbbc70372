import Obix.Device.SearchLoop
import Obix.Lib.Tokens
import Obix.Xml.Borders

/-!
# Whose nodes a href leads to

`device_search` and `device_search_parent` look at the spelling of a href, `__device_get_node_core`
at its tokens.  Where the spelling shows every registered device that the tokens lead through
(`Spelled`), the device that is found is the last of them, and the node belongs to it
(`Registry.owner_of_node`).
-/

namespace Obix
namespace Devices

open CString XmlNode

section Tokens

variable {x : Text}

theorem tokens_append_slash (s t : Text) : tokens '/' (s ++ '/' :: t) = tokens '/' s ++ tokens '/' t :=
  tokensAux_append_delim [] t s

theorem tokens_trimSlash (s : Text) : tokens '/' (trimSlash s) = tokens '/' s := by
  rcases trimSlash_cases s with ⟨-, htrim⟩ | htrim
  · rw [htrim]
  · have hcut := tokensAux_append_slash [] (trimSlash s)
    rw [← htrim] at hcut
    exact hcut.symm

theorem tokens_of_identical
    {s t : Text}
    (h : isStrIdentical s t = true) :
    tokens '/' s = tokens '/' t := by
  simp only [isStrIdentical, decide_eq_true_eq] at h
  rw [← tokens_trimSlash s, h, tokens_trimSlash]

theorem Further.append
    (hx : Further x)
    (y : Text) :
    Further (x ++ y) := by
  obtain ⟨c, hc, hne⟩ := hx.component
  refine ⟨?_, c, List.mem_append_left y hc, hne⟩
  rw [List.head?_append_of_ne_nil _ hx.ne_nil]
  exact hx.head

theorem further_delimited
    {ts : List Text}
    (hts : ∀ t ∈ ts, IsToken '/' t)
    (hne : ts ≠ []) :
    Further (delimited '/' ts) := by
  obtain ⟨t, ts, rfl⟩ := List.exists_cons_of_ne_nil hne
  obtain ⟨htne, hslash⟩ := hts t List.mem_cons_self
  obtain ⟨c, t, rfl⟩ := List.exists_cons_of_ne_nil htne
  rw [delimited_cons]
  refine ⟨rfl, c, by simp, ?_⟩
  rintro rfl
  exact hslash List.mem_cons_self

end Tokens

section Found

variable {s : Registry} {href x : Text} {ts us : List Text} {i : Nat} {dev : ObixDev}

/-- The way down from a device to a href that begins with that of the device. -/
theorem nodePath_of_append
    (hpath : IsPath dev.href us)
    (hx : x = [] ∨ Further x) :
    Registry.nodePath dev (delimited '/' us ++ x) = tokens '/' x := by
  have htokens : tokens '/' (delimited '/' us ++ x) = us ++ tokens '/' x := by
    rcases hx with rfl | hx
    · rw [List.append_nil, tokens_delimited hpath.isToken]
      simp [tokens, tokensAux]
    · obtain ⟨c, x, rfl⟩ := List.exists_cons_of_ne_nil hx.ne_nil
      obtain rfl : c = '/' := by simpa using hx.head
      rw [tokens_append_slash, tokens_delimited hpath.isToken]
      rfl
  unfold Registry.nodePath
  split
  · -- nothing follows the href of the device
    rename_i hid
    have hsame := tokens_of_identical hid
    rw [hpath.tokens, htokens] at hsame
    simpa using hsame
  · rename_i hid
    rcases hpath.eq with heq | heq
    · rw [heq, List.drop_left]
    · rcases hx with rfl | hx
      · rw [List.append_nil, (hpath.isStrIdentical_iff (isPath_delimited hpath.isToken hpath.ne_nil))] at hid
        exact absurd rfl hid
      · obtain ⟨c, x, rfl⟩ := List.exists_cons_of_ne_nil hx.ne_nil
        obtain rfl : c = '/' := by simpa using hx.head
        have hsplit : delimited '/' us ++ '/' :: x = delimited '/' us ++ ['/'] ++ x := by simp
        rw [hsplit, heq, List.drop_left]
        rfl

/-- `device_search_parent` stops between a registered device above a href and the href. -/
theorem searchUp_between
    {d : Text} {n : Nat} {t : Registry}
    (hd : d ≠ [])
    (hfollowed : slashFollowed d = false)
    (hfound : (s.deviceSearch d).1 ≠ none)
    (hx : x = [] ∨ Further x ∧ slashFollowed x = false)
    (h : Registry.searchUp n (d ++ x) s = (some i, t)) :
    ∃ y z, x = y ++ z ∧ (y = [] ∨ Further y ∧ slashFollowed y = false) ∧ (z = [] ∨ Further z) ∧
      (s.deviceSearch (d ++ y)).1 = some i := by
  induction n generalizing x with
  | zero => cases h
  | succ n ih =>
      unfold Registry.searchUp at h
      split at h
      · rename_i j u hsearch
        cases h
        exact ⟨x, [], by simp, hx, .inl rfl, by rw [hsearch]⟩
      · rename_i u hsearch
        obtain rfl := deviceSearch_none hsearch
        -- the search goes on, so that there is something behind the device
        have hfurther : Further x := by
          refine (hx.resolve_left fun hnil => hfound ?_).1
          rw [hnil, List.append_nil] at hsearch
          rw [hsearch]
        obtain ⟨y, z, hxyz, hz, hdir, hy⟩ := dirname_further hd hfollowed hfurther
        rw [hdir] at h
        obtain ⟨v, w, hyvw, hv, hw, hvi⟩ := ih hy h
        refine ⟨v, w ++ z, by rw [hxyz, hyvw, List.append_assoc], hv, .inr ?_, hvi⟩
        rcases hw with rfl | hw
        · exact hz
        · exact hw.append z

/-- Every registered device that the tokens of a href lead through is spelled at its beginning. -/
def Spelled (s : Registry) (href : Text) : Prop :=
  ∀ j f, s.heap j = some f → tokens '/' f.href <+: tokens '/' href →
    isStrIdentical href f.href = true ∨ ∃ x, href = trimSlash f.href ++ x ∧ Further x

/-- A href without repeated slashes is spelled as it should be. -/
theorem Indexed.spelled
    (hx : Indexed s)
    (hpath : IsPath href ts) :
    Spelled s href := by
  intro j f hf hpre
  obtain ⟨us, hus, -⟩ := hx.path j f hf
  rw [hus.tokens, hpath.tokens] at hpre
  obtain ⟨vs, rfl⟩ := hpre
  by_cases hvs : vs = []
  · subst hvs
    exact .inl ((hpath.isStrIdentical_iff hus).mpr (by simp))
  · right
    have hfurther := further_delimited
      (fun t ht => hpath.isToken t (List.mem_append_right us ht)) hvs
    rw [hus.trimSlash]
    have hsplit : delimited '/' (us ++ vs) = delimited '/' us ++ delimited '/' vs := by
      rw [delimited, delimited, delimited, List.flatMap_append]
    rcases hpath.eq with heq | heq
    · exact ⟨delimited '/' vs, by rw [heq, hsplit], hfurther⟩
    · exact ⟨delimited '/' vs ++ ['/'], by rw [heq, hsplit, List.append_assoc], hfurther.append _⟩

/-- The device that is found for a href, by `device_search` or else `device_search_parent`. -/
def FoundFor (s : Registry) (href : Text) (i : Nat) : Prop :=
  (s.deviceSearch href).1 = some i ∨
    (s.deviceSearch href).1 = none ∧ (s.deviceSearchParent href).1 = some i

/-- `device_search_parent` finds nothing above a registered device that is spelled. -/
theorem Indexed.parent_between
    {j : Nat} {f : ObixDev}
    (hs : Linked s)
    (hx : Indexed s)
    (hf : s.heap j = some f)
    (hfurther : Further x)
    (h : (s.deviceSearchParent (trimSlash f.href ++ x)).1 = some i) :
    ∃ y z, x = y ++ z ∧ (y = [] ∨ Further y ∧ slashFollowed y = false) ∧ Further z ∧
      (s.deviceSearch (trimSlash f.href ++ y)).1 = some i := by
  obtain ⟨us, hus, hroot⟩ := hx.path j f hf
  rw [hus.trimSlash] at h ⊢
  have hne : delimited '/' us ≠ [] := by
    obtain ⟨t, us, rfl⟩ := List.exists_cons_of_ne_nil hus.ne_nil
    simp [delimited_cons]
  have hfollowed := slashFollowed_delimited hus.isToken
  have hself : (s.deviceSearch (delimited '/' us)).1 ≠ none := by
    rw [hx.search_of_tokens hs hus.isToken hroot hf hus.tokens]
    simp
  unfold Registry.deviceSearchParent at h
  split at h
  · cases h
  · obtain ⟨v, w, hxvw, hw, hdir, hv⟩ := dirname_further hne hfollowed hfurther
    rw [hdir] at h
    obtain ⟨y, z, hvyz, hy, hz, hsearch⟩ :=
      searchUp_between hne hfollowed hself hv (Prod.ext h rfl)
    refine ⟨y, z ++ w, by rw [hxvw, hvyz, List.append_assoc], hy, ?_, hsearch⟩
    rcases hz with rfl | hz
    · exact hw
    · exact hz.append w

/-- The tokens of a href go on in whatever follows it. -/
theorem tokens_isPrefix_trimSlash
    (hx : x = [] ∨ Further x)
    (href : Text) :
    tokens '/' href <+: tokens '/' (trimSlash href ++ x) := by
  rcases hx with rfl | hx
  · rw [List.append_nil, tokens_trimSlash]
  · obtain ⟨c, x, rfl⟩ := List.exists_cons_of_ne_nil hx.ne_nil
    obtain rfl : c = '/' := by simpa using hx.head
    rw [tokens_append_slash, tokens_trimSlash]
    exact List.prefix_append _ _

/-- The hrefs that `device_search_parent` looks at are those below the device root. -/
theorem isGivenType_of_found
    (h : (s.deviceSearchParent href).1 = some i) :
    isGivenType href = true := by
  unfold Registry.deviceSearchParent at h
  split at h
  · cases h
  · rename_i hcond
    push Not at hcond
    simpa using hcond.1

theorem tokens_root_isPrefix
    (h : isGivenType href = true) :
    tokens '/' deviceRootHref <+: tokens '/' href := by
  simp only [isGivenType, Bool.and_eq_true, List.isPrefixOf_iff_prefix] at h
  obtain ⟨⟨x, rfl⟩, hnext⟩ := h
  rw [List.drop_left] at hnext
  rw [← tokens_trimSlash]
  cases x with
  | nil => rw [List.append_nil]
  | cons c x =>
      obtain rfl : c = '/' := by simpa using hnext
      rw [tokens_append_slash]
      exact List.prefix_append _ _

/-- What is found above a href is between it and any device that its tokens lead through. -/
theorem Indexed.found_between
    {j : Nat} {f : ObixDev}
    (hs : Linked s)
    (hx : Indexed s)
    (hspelled : Spelled s href)
    (hmiss : (s.deviceSearch href).1 = none)
    (hfound : (s.deviceSearchParent href).1 = some i)
    (hf : s.heap j = some f)
    (hpre : tokens '/' f.href <+: tokens '/' href) :
    ∃ y z, href = trimSlash f.href ++ y ++ z ∧ (y = [] ∨ Further y ∧ slashFollowed y = false) ∧
      Further z ∧ (s.deviceSearch (trimSlash f.href ++ y)).1 = some i := by
  rcases hspelled j f hf hpre with hid | ⟨x, rfl, hfurther⟩
  · rw [hx.search_of_identical hs (isGivenType_of_found hfound) hf hid] at hmiss
    cases hmiss
  · obtain ⟨y, z, rfl, hy, hz, hsearch⟩ := hx.parent_between hs hf hfurther hfound
    exact ⟨y, z, by rw [List.append_assoc], hy, hz, hsearch⟩

/-- A device that is found for the beginning of a href leads on to it by the rest. -/
theorem Indexed.nodePath_found
    {y z : Text}
    (hx : Indexed s)
    (hy : y = [] ∨ Further y ∧ slashFollowed y = false)
    (hz : Further z)
    (hdev : s.heap i = some dev)
    (hid : isStrIdentical dev.href (trimSlash deviceRootHref ++ y) = true) :
    tokens '/' dev.href ++ Registry.nodePath dev (trimSlash deviceRootHref ++ y ++ z) =
      tokens '/' (trimSlash deviceRootHref ++ y ++ z) := by
  obtain ⟨us, hus, -⟩ := hx.path i dev hdev
  -- what is found does not end with a slash
  have hfollowed : slashFollowed (trimSlash deviceRootHref ++ y) = false := by
    rcases hy with rfl | ⟨hy, hyslash⟩
    · decide
    · simp only [slashFollowed, decide_eq_false_iff_not] at hyslash ⊢
      rwa [List.getLast?_append_of_ne_nil _ hy.ne_nil]
  have hbegin : delimited '/' us = trimSlash deviceRootHref ++ y := by
    simp only [isStrIdentical, decide_eq_true_eq] at hid
    rw [← hus.trimSlash, hid, trimSlash, hfollowed]
    rfl
  rw [← hbegin, nodePath_of_append hus (.inr hz), hus.tokens]
  obtain ⟨c, z, rfl⟩ := List.exists_cons_of_ne_nil hz.ne_nil
  obtain rfl : c = '/' := by simpa using hz.head
  rw [tokens_append_slash, tokens_delimited hus.isToken]
  rfl

/-- The device that is found is the last one that the tokens lead through. -/
theorem Indexed.found_last
    (hs : Linked s)
    (hx : Indexed s)
    (hspelled : Spelled s href)
    (hfound : FoundFor s href i) :
    ∃ dev, s.heap i = some dev ∧
      tokens '/' dev.href ++ Registry.nodePath dev href = tokens '/' href ∧
      ∀ j f, s.heap j = some f → tokens '/' f.href <+: tokens '/' href →
        tokens '/' f.href <+: tokens '/' dev.href := by
  rcases hfound with hfound | ⟨hmiss, hfound⟩
  · obtain ⟨-, dev, hdev, hid, -⟩ :=
      hs.deviceSearch (Prod.ext hfound rfl : s.deviceSearch href = (some i, _))
    have hsame := tokens_of_identical hid
    refine ⟨dev, hdev, ?_, fun j f _ hpre => hsame ▸ hpre⟩
    rw [Registry.nodePath, if_pos hid, List.append_nil, hsame]
  · obtain ⟨root, hr, -, hhref, -⟩ := hs.root
    have hpre := tokens_root_isPrefix (isGivenType_of_found hfound)
    rw [← hhref] at hpre
    obtain ⟨y, z, hyz, hy, hz, hsearch⟩ :=
      hx.found_between hs hspelled hmiss hfound hr hpre
    rw [hhref] at hyz hsearch
    obtain ⟨-, dev, hdev, hid, -⟩ := hs.deviceSearch
      (Prod.ext hsearch rfl : s.deviceSearch (trimSlash deviceRootHref ++ y) = (some i, _))
    refine ⟨dev, hdev, ?_, fun j f hf hfpre => ?_⟩
    · rw [hyz]
      exact hx.nodePath_found hy hz hdev hid
    · obtain ⟨v, w, -, hv, -, hsearch'⟩ := hx.found_between hs hspelled hmiss hfound hf hfpre
      obtain ⟨-, dev', hdev', hid', -⟩ := hs.deviceSearch
        (Prod.ext hsearch' rfl : s.deviceSearch (trimSlash f.href ++ v) = (some i, _))
      obtain rfl := Option.some.inj (hdev.symm.trans hdev')
      rw [tokens_of_identical hid']
      exact tokens_isPrefix_trimSlash (hv.imp id And.left) f.href

end Found

namespace Registry

/-- The place of a device in the tree. -/
def place (s : Registry) (i : Nat) : Option Path :=
  (s.heap i).map fun dev => tokens '/' dev.href

/-- The nodes of each device are where its href says, and nowhere else. -/
def Settled (s : Registry) : Prop :=
  Territory s.place s.dom

variable {s t : Registry} {href : Text} {i : Nat} {dev : ObixDev} {node : XmlNode Nat}

theorem place_of_heap
    (h : s.heap i = some dev) :
    s.place i = some (tokens '/' dev.href) := by
  rw [place, h]
  rfl

theorem getAt_of_deviceGetNodeCore
    (h : s.deviceGetNodeCore i dev href = some node) :
    ∃ own, s.dom.ownNode i = some own ∧ own.getAt (nodePath dev href) = some node := by
  obtain ⟨own, hown, h⟩ := Option.bind_eq_some_iff.mp h
  refine ⟨own, hown, ?_⟩
  rw [nodePath]
  split at h
  · rename_i hid
    rw [if_pos hid]
    exact h
  · rename_i hid
    rw [if_neg hid]
    exact getAt_of_xmldbGetNodeCore h

theorem isToken_of_mem_nodePath
    {u : Text}
    (h : u ∈ nodePath dev href) :
    IsToken '/' u := by
  rw [nodePath] at h
  split at h
  · cases h
  · exact isToken_of_mem_tokens h

/-- A node below a device belongs to it when no other device is on the way. -/
theorem owner_on_last
    {p : Path} {own : XmlNode Nat}
    (hx : Indexed s)
    (ht : s.Settled)
    (hdev : s.heap i = some dev)
    (hown : s.dom.ownNode i = some own)
    (hp : ∀ u ∈ p, '/' ∉ u)
    (hlast : ∀ j f, s.heap j = some f → tokens '/' f.href <+: tokens '/' dev.href ++ p →
      tokens '/' f.href <+: tokens '/' dev.href)
    (hnode : own.getAt p = some node) :
    node.owner = some i := by
  have hplace := place_of_heap hdev
  have hbelow := ht.own hown
  rw [hplace] at hbelow
  obtain ⟨w, hw, hlow, hhigh⟩ := hbelow.owner_getAt p
    (by rw [owner_of_ownNode_some s.dom hown]; exact hplace) List.prefix_rfl hp hnode
  obtain ⟨j, hj, hjw⟩ := Option.bind_eq_some_iff.mp hw
  obtain ⟨f, hf, rfl⟩ := Option.map_eq_some_iff.mp hjw
  -- the tokens of the owner are on the way, but not behind those of the device
  have hle := hlast j f hf hhigh
  have heq : tokens '/' f.href = tokens '/' dev.href :=
    hle.eq_of_length (le_antisymm hle.length_le hlow.length_le)
  rw [hj, hx.eq_of_tokens hf hdev heq]

/-- Every node on the way down from the device that is found belongs to that device. -/
theorem owner_on_way
    {p : Path} {own : XmlNode Nat}
    (hs : Linked s)
    (hx : Indexed s)
    (ht : s.Settled)
    (hspelled : Spelled s href)
    (hfound : FoundFor s href i)
    (hdev : s.heap i = some dev)
    (hown : s.dom.ownNode i = some own)
    (hp : p <+: nodePath dev href)
    (hnode : own.getAt p = some node) :
    node.owner = some i := by
  obtain ⟨dev', hdev', htokens, hlast⟩ := hx.found_last hs hspelled hfound
  obtain rfl := Option.some.inj (hdev.symm.trans hdev')
  refine owner_on_last hx ht hdev hown
    (fun u hu => (isToken_of_mem_nodePath (hp.subset hu)).2) (fun j f hf hpre => ?_) hnode
  refine hlast j f hf (hpre.trans ?_)
  rw [← htokens]
  exact (List.prefix_append_right_inj _).mpr hp

/-- The node that a href leads to belongs to the device that is found for it. -/
theorem owner_of_node
    (hs : Linked s)
    (hx : Indexed s)
    (ht : s.Settled)
    (hspelled : Spelled s href)
    (hfound : FoundFor s href i)
    (hdev : s.heap i = some dev)
    (hnode : s.deviceGetNodeCore i dev href = some node) :
    node.owner = some i := by
  obtain ⟨own, hown, hget⟩ := getAt_of_deviceGetNodeCore hnode
  exact owner_on_way hs hx ht hspelled hfound hdev hown List.prefix_rfl hget

end Registry

section Steps

variable {a : AddArgs} {s t : Registry} {p : Nat} {parent child : ObixDev}

/-- The tree that devices are put into when the server starts. -/
theorem confined_start
    {resdir : Text} {tabSize cacheSize : Nat} {dom : Xml} {disk : Disk}
    (h : devicesStart resdir tabSize cacheSize dom disk = some s) :
    XmlNode.Confined deviceRoot rootTokens s.dom := by
  obtain ⟨dir, -, h⟩ := Option.bind_eq_some_iff.mp h
  split at h
  · cases h
  · rename_i hsizes
    push Not at hsizes
    obtain ⟨root, -, rfl⟩ := Option.map_eq_some_iff.mp h
    have hpath : tokens '/' deviceRootHref = rootTokens := by decide +kernel
    have hroot : xmldbGetNode dom deviceRootHref = dom.getAt rootTokens := by
      have hne : deviceRootHref ≠ ['/'] := by decide
      rw [xmldbGetNode, if_neg hne, xmldbGetNodeCore, forEachStrToken, hpath]
      rfl
    obtain ⟨m, hm⟩ : ∃ m, dom.getAt rootTokens = some m := by
      rw [← hroot]
      exact Option.ne_none_iff_exists'.mp (by simpa using hsizes.2.2)
    show XmlNode.Confined deviceRoot rootTokens
      (modifyAt (setupPrivate deviceRoot) (tokens '/' deviceRootHref) (plain dom))
    rw [hpath]
    exact confined_setupPrivate (fun i => ownNode_plain dom) (m := plain m)
      (by rw [getAt_plain, hm]; rfl)

theorem settled_start
    {resdir : Text} {tabSize cacheSize : Nat} {dom : Xml} {disk : Disk}
    (h : devicesStart resdir tabSize cacheSize dom disk = some s) :
    s.Settled := by
  have hs := linked_start h
  have hconfined := confined_start h
  have hnext : s.next = deviceRoot + 1 ∧
      s.dom = modifyAt (setupPrivate deviceRoot) (tokens '/' deviceRootHref) (plain dom) := by
    obtain ⟨dir, -, h⟩ := Option.bind_eq_some_iff.mp h
    split at h
    · cases h
    · obtain ⟨root, -, rfl⟩ := Option.map_eq_some_iff.mp h
      exact ⟨rfl, rfl⟩
  have hfresh : ∀ i, i ≠ deviceRoot → s.dom.ownNode i = none := by
    intro i hi
    refine hs.freshDom i ?_
    rw [hnext.1]
    have : deviceRoot = 0 := rfl
    omega
  constructor
  case top => exact hconfined.1
  case borders =>
    rw [hnext.2]
    exact bordered_start _ fun i => ownNode_plain dom
  case single =>
    intro i
    by_cases hi : i = deviceRoot
    · rw [hi]
      exact hconfined.single
    · exact single_of_fresh s.dom (hfresh i hi)
  case gone =>
    intro i hi
    refine hfresh i ?_
    rintro rfl
    obtain ⟨root, hr, -⟩ := hs.root
    rw [Registry.place_of_heap hr] at hi
    cases hi

/-- The same devices and the same tree. -/
theorem Registry.Settled.of_heap
    (h : s.Settled)
    (hheap : t.heap = s.heap)
    (hdom : t.dom = s.dom) :
    t.Settled := by
  unfold Registry.Settled Registry.place at *
  rw [hheap, hdom]
  exact h

/-- The contract of a device is found by the last token of the href of the device, if at all. -/
def Fitting (a : AddArgs) : Prop :=
  ∀ t, a.node.href = some t → '/' ∉ t → tokens '/' a.href = tokens '/' (dirname a.href) ++ [t]

/-- A href without its last token. -/
theorem isPath_dirname
    {href : Text}
    (hpath : ∃ ts, IsPath href ts ∧ rootTokens <+: ts) :
    ∃ ts t, IsPath href (ts ++ [t]) ∧ IsPath (dirname href) ts := by
  obtain ⟨ts, hts, us, rfl⟩ := hpath
  obtain ⟨ws, u, t, hsplit⟩ : ∃ ws u t, rootTokens ++ us = ws ++ [u] ++ [t] := by
    rcases List.eq_nil_or_concat us with rfl | ⟨us, t, rfl⟩
    · exact ⟨[], _, _, rfl⟩
    · rcases List.eq_nil_or_concat (rootTokens ++ us) with hnil | ⟨ws, u, hws⟩
      · simp [rootTokens] at hnil
      · exact ⟨ws, u, t, by rw [List.concat_eq_append, ← List.append_assoc, hws]; simp⟩
  rw [hsplit] at hts
  refine ⟨ws ++ [u], t, hts, ?_⟩
  rw [hts.dirname]
  exact isPath_delimited (fun x hx => hts.isToken x (List.mem_append_left _ hx)) (by simp)

/-- A contract that is signed up gets the last token of its href as its relative href. -/
theorem fitting_signUp
    (hpath : ∃ ts, IsPath a.href ts ∧ rootTokens <+: ts)
    (hsignUp : a.signUp = true)
    (hhref : a.input.href = some a.href) :
    Fitting a := by
  obtain ⟨ts, t, hts, hdir⟩ := isPath_dirname hpath
  have hslash : '/' ∈ a.href := by
    rcases hts.eq with heq | heq <;>
    · rw [heq]
      simp [delimited]
  intro v hv hnot
  -- an absolute href is no token
  have habsolute : v ≠ a.href := by
    rintro rfl
    exact hnot hslash
  have hbase : v = basename a.href := by
    rw [AddArgs.node, if_pos hsignUp] at hv
    cases hinput : a.input with
    | element o name attrs cs =>
        rw [hinput] at hv hhref
        rw [setRelativeHref] at hv
        split at hv
        · exact absurd (Option.some.inj (hv.symm.trans hhref)) habsolute
        · have hprop : (element o name attrs (setRelativeHrefAll cs).1 : Xml).getProp attrHref =
              some a.href := hhref
          dsimp only at hv
          rw [relativeHref, hprop] at hv
          dsimp only at hv
          split at hv
          · exact absurd (Option.some.inj (hv.symm.trans hhref)) habsolute
          · have hset := getProp_setProp (n := (element o name attrs (setRelativeHrefAll cs).1 : Xml))
              rfl attrHref (basename a.href)
            exact Option.some.inj (hv.symm.trans hset)
    | text o content =>
        rw [hinput] at hhref
        cases hhref
    | comment o content =>
        rw [hinput] at hhref
        cases hhref
  rw [hbase, hts.basename, hts.tokens, hdir.tokens]

/-- The way down from a device to a href that its tokens lead to. -/
theorem nodePath_of_isPath
    {href : Text} {ts : List Text} {i : Nat} {dev : ObixDev}
    (hx : Indexed s)
    (hpath : IsPath href ts)
    (hdev : s.heap i = some dev)
    (hpre : tokens '/' dev.href <+: ts) :
    tokens '/' dev.href ++ Registry.nodePath dev href = ts := by
  obtain ⟨us, hus, -⟩ := hx.path i dev hdev
  rcases hx.spelled hpath i dev hdev (by rwa [hpath.tokens]) with hid | ⟨x, hhref, hfurther⟩
  · rw [Registry.nodePath, if_pos (by rwa [isStrIdentical_comm]), List.append_nil, ← hpath.tokens,
      tokens_of_identical hid]
  · rw [hus.trimSlash] at hhref
    rw [← hpath.tokens, hhref, nodePath_of_append hus (.inr hfurther), hus.tokens]
    obtain ⟨c, x, rfl⟩ := List.exists_cons_of_ne_nil hfurther.ne_nil
    obtain rfl : c = '/' := by simpa using hfurther.head
    rw [tokens_append_slash, tokens_delimited hus.isToken]
    rfl

/-- The way down from a device to the node that another one below it is mounted at. -/
theorem nodePath_dirname
    (hx : Indexed s)
    (hpath : ∃ ts, IsPath a.href ts ∧ rootTokens <+: ts)
    (hlive : s.heap p = some parent)
    (habove : IsAbove parent.href a.href) :
    tokens '/' parent.href ++ Registry.nodePath parent (dirname a.href) =
      tokens '/' (dirname a.href) := by
  obtain ⟨ts, t, hts, hdir⟩ := isPath_dirname hpath
  obtain ⟨hpre, hne⟩ := habove
  rw [hts.tokens] at hpre hne
  rw [hdir.tokens]
  exact nodePath_of_isPath hx hdir hlive ((List.prefix_concat_iff.mp hpre).resolve_left hne)

/-- A new device is put at its place. -/
theorem Registry.Settled.mount
    (hs : Linked s)
    (hx : Indexed s)
    (h : s.Settled)
    (hpath : ∃ ts, IsPath a.href ts ∧ rootTokens <+: ts)
    (hlive : s.heap p = some parent)
    (habove : IsAbove parent.href a.href)
    (hhref : child.href = a.href)
    (hfitting : Fitting a)
    (disk : Disk) :
    Registry.Settled { deviceMount a p parent child s with disk := disk } := by
  have hheap := @heap_deviceMount a s p parent child hs hlive
  have hne : s.next ≠ p := by
    intro hp
    rw [← hp, hs.fresh s.next le_rfl] at hlive
    cases hlive
  have hnext : s.place s.next = none := by
    rw [Registry.place, hs.fresh s.next le_rfl]
    rfl
  have hmounted := Territory.mount (x := plain a.node) (v := tokens '/' a.href) h hnext
    (Registry.place_of_heap hlive) (fun u hu => (Registry.isToken_of_mem_nodePath hu).2)
    (fun t ht hslash => by
      have hnode : a.node.href = some t := by
        rw [← ht]
        cases a.node <;> rfl
      rw [nodePath_dirname hx hpath hlive habove]
      exact hfitting t hnode hslash)
  rw [← adopt_eq] at hmounted
  refine hmounted.congr fun j => ?_
  show _ = ((deviceMount a p parent child s).heap j).map _
  rw [hheap, Function.update_apply]
  split
  · rename_i hj
    rw [if_neg (hj ▸ hne), Option.map_some, hhref]
  · rename_i hj
    split
    · rename_i hjp
      rw [hjp, Registry.place_of_heap hlive]
      rfl
    · rfl

/-- A device is signed off with all of its nodes. -/
theorem Registry.Settled.signOff
    {i : Nat} {dev : ObixDev}
    (hs : Linked s)
    (h : s.Settled)
    (hdev : s.heap i = some dev)
    (hne : i ≠ deviceRoot) :
    (signedOff i dev s).Settled := by
  have hremoved := Territory.remove h i
  rw [← dom_signedOff i dev] at hremoved
  refine hremoved.congr fun j => ?_
  rw [Function.update_apply]
  split
  · rename_i hj
    have hgone : (signedOff i dev s).heap j = none := by
      by_contra hlive
      obtain ⟨f, hf⟩ := Option.ne_none_iff_exists'.mp hlive
      exact (hs.signedOff_back hdev hne hf).1 hj
    rw [Registry.place, hgone]
    rfl
  · rename_i hj
    cases hf : s.heap j with
    | none =>
        have hgone : (signedOff i dev s).heap j = none := by
          by_contra hlive
          obtain ⟨f, hf'⟩ := Option.ne_none_iff_exists'.mp hlive
          obtain ⟨-, f', hf'', -⟩ := hs.signedOff_back hdev hne hf'
          rw [hf] at hf''
          cases hf''
        rw [Registry.place, Registry.place, hf, hgone]
    | some f =>
        rw [Registry.place_of_heap hf, Registry.place_of_heap (hs.signedOff_keeps hdev hne hf hj)]

end Steps

section Requests

variable {a : AddArgs} {s t : Registry} {e : ErrCode}

/-- What a registry keeps in order as long as no href is registered twice. -/
structure Placed (s : Registry) : Prop where
  linked : Linked s
  indexed : Indexed s
  settled : s.Settled

/-- Whoever has a href already is found among the children of the nearest device above it. -/
def RefusesTwin (s : Registry) (href : Text) : Prop :=
  ∀ j f, s.heap j = some f → isStrIdentical f.href href = true →
    ∃ p e, f.parent = some p ∧ s.heap p = some e ∧ NearestAbove s e href

theorem Placed.of_heap
    (h : Placed s)
    (hlinked : Linked t)
    (hheap : t.heap = s.heap)
    (htab : t.tab = s.tab)
    (hdom : t.dom = s.dom) :
    Placed t where
  linked := hlinked
  indexed := h.indexed.of_back (fun _ f hj => ⟨f, hheap ▸ hj, rfl⟩) fun j f hj hne =>
    htab ▸ h.indexed.known j f (hheap ▸ hj) hne
  settled := h.settled.of_heap hheap hdom

theorem Placed.deviceAdd
    (h : Placed s)
    (hvalid : xmlIsValidHref a.href = true)
    (hfitting : (∃ ts, IsPath a.href ts ∧ rootTokens <+: ts) → Fitting a)
    (htwin : RefusesTwin s a.href)
    (hadd : deviceAdd a s = some (e, t)) :
    Placed t := by
  have hlinked := h.linked.deviceAdd hadd
  rcases deviceAdd_cases hadd with ⟨-, -, rfl⟩ | ⟨p, u, e', t', hsearch, hout, rfl, -⟩
  · exact h
  · obtain ⟨hu, hroot, -⟩ := h.linked.deviceSearchParent hsearch
    obtain ⟨hpath, parent, hlive, hnear⟩ := h.indexed.searchParent h.linked hvalid hsearch
    obtain ⟨cache, hcache⟩ := deviceSearchParent_some hsearch
    have hplaced : Placed u := h.of_heap hu (by rw [hcache]; rfl) (by rw [hcache]; rfl)
      (by rw [hcache]; rfl)
    have hlive : u.heap p = some parent := by rw [hcache]; exact hlive
    have hnear : NearestAbove u parent a.href := by rw [hcache]; exact hnear
    have htwin : RefusesTwin u a.href := by rw [hcache]; exact htwin
    suffices ht : Indexed t' ∧ t'.Settled from ⟨hlinked, ht.1.of_back (fun j f hj => ⟨f, hj, rfl⟩)
      ht.1.known, ht.2.of_heap rfl rfl⟩
    cases hout with
    | refused => exact ⟨hplaced.indexed, hplaced.settled⟩
    | added hpass =>
        obtain rfl := Option.some.inj (hlive.symm.trans hpass.live)
        have hnew := fun j f => @Indexed.not_identical a u p parent hu hplaced.indexed hlive hnear
          hpass.single htwin j f
        exact ⟨hplaced.indexed.mount hu hpath hlive hpass.href.1 hnew _,
          hplaced.settled.mount hu hplaced.indexed hpath hlive hnear.1 hpass.href.1
            (hfitting hpath) _⟩
    | @withdrawn parent' child disk e hpass =>
        obtain rfl := Option.some.inj (hlive.symm.trans hpass.live)
        obtain ⟨hhref, hchildren⟩ := hpass.href
        have hnew := fun j f => @Indexed.not_identical a u p parent hu hplaced.indexed hlive hnear
          hpass.single htwin j f
        exact ⟨hplaced.indexed.withdraw hu hlive (hhref ▸ hroot) hchildren (hhref ▸ hnew) disk,
          hplaced.settled.of_heap (heap_withdrawn hu hlive disk) (dom_withdrawn hu disk)⟩

theorem Placed.deviceDel
    {href requesterId : Text}
    (h : Placed s)
    (hroot : isDeviceRootHref href = false)
    (hdel : deviceDel Meanwhile.idle href requesterId s = some (e, t)) :
    Placed t := by
  have hlinked := h.linked.deviceDel hroot hdel
  obtain ⟨u, hu, hheap, htab, hdom, -, hout⟩ := h.linked.deviceDel_cases hroot hdel
  have hplaced : Placed u := h.of_heap hu hheap htab hdom
  rcases hout with ⟨-, rfl⟩ | ⟨i, dev, hne, -, hdev, -, -, rfl⟩
  · exact hplaced
  · exact ⟨hlinked, hplaced.indexed.signOff hu hdev hne, hplaced.settled.signOff hu hdev hne⟩

theorem placed_start
    {resdir : Text} {tabSize cacheSize : Nat} {dom : Xml} {disk : Disk}
    (h : devicesStart resdir tabSize cacheSize dom disk = some s) :
    Placed s :=
  ⟨linked_start h, (hierarchy_start h).indexed, settled_start h⟩

end Requests

end Devices
end Obix
