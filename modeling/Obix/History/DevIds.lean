import Obix.History.Placement
import Obix.Lib.Tokens
import Obix.Xml.Href

/-!
# Device paths, their ids and the operations of a facility

`hist_get_dev_id` turns the slashes of a path into dots, and the directory scan at start-up turns
them back.  The two are inverse to each other for every spelling of a path, but a spelling that
begins with the history lobby loses the lobby, and a folder `lost+found` is not loaded
(`devId_href_correspond`).

For an operation the name of the operation is looked for in the request URI.  The facility is
found if and only if no component of its path has that name in it, and the path was not given
with the lobby before it (`history_op_finds_iff`).
-/

namespace Obix
namespace History

open CString

section Spellings

variable {p q : Path} {path : Text}

instance (p : Path) : Decidable (DevicePath p) :=
  decidable_of_iff
    (p ≠ [] ∧ (∀ t ∈ p, t ≠ [] ∧ '/' ∉ t) ∧ ∀ t ∈ p, t ≠ [] ∧ '.' ∉ t)
    ⟨fun h => ⟨h.1, h.2.1, h.2.2⟩, fun h => ⟨h.ne_nil, h.slash, h.dot⟩⟩

theorem intercalate_eq_tail (delim : Char) (p : Path) :
    [delim].intercalate p = (delimited delim p).tail := by
  cases p with
  | nil => rfl
  | cons t ts =>
      rw [delimited_cons, List.tail_cons]
      induction ts generalizing t with
      | nil => simp [delimited]
      | cons u us ih => simp [List.intercalate_cons_cons, delimited_cons, ih]

theorem tokens_trimSlash (path : Text) : tokens '/' (trimSlash path) = tokens '/' path := by
  rcases trimSlash_cases path with ⟨-, htrim⟩ | hpath
  · rw [htrim]
  · have htrim : tokens '/' (trimSlash path ++ ['/']) = tokens '/' (trimSlash path) :=
      tokensAux_append_slash [] _
    rw [← hpath] at htrim
    exact htrim.symm

/-- `hist_get_dev_id` for a path that does not begin with the lobby. -/
theorem histGetDevId_eq
    (hlobby : ¬ obixHistoryLobby <+: path)
    (hne : tokens '/' path ≠ []) :
    histGetDevId path = some (devIdOf (tokens '/' path)) := by
  unfold histGetDevId
  simp only [hlobby, if_false]
  exact forEachStrToken_joinTokens hne (tokens_trimSlash path)

theorem devicePath_tokens
    (hne : tokens '/' path ≠ [])
    (hdot : '.' ∉ path) :
    DevicePath (tokens '/' path) where
  ne_nil := hne
  slash := fun _ ht => isToken_of_mem_tokens ht
  dot := fun _ ht =>
    ⟨(isToken_of_mem_tokens ht).1, fun hmem => hdot ((isInfix_of_mem_tokens ht).subset hmem)⟩

/-- The directory scan gets the path back. -/
theorem join_devIdOf
    (hp : DevicePath p) :
    (forEachStrToken '.' (devIdOf p) (joinTokens '/') none).join = some (subhrefOfPath p) :=
  forEachStrToken_joinTokens hp.ne_nil (tokens_devIdOf hp)

end Spellings

section Restart

variable {p : Path} {sys sys' : HistSys}

theorem mem_enqueueDev
    {dev f : Facility} {devices : List Facility} :
    f ∈ enqueueDev dev devices ↔ f = dev ∨ f ∈ devices := by
  induction devices with
  | nil => simp [enqueueDev]
  | cons n rest ih =>
      rw [enqueueDev]
      split
      · rw [List.mem_cons, ih, List.mem_cons]
        tauto
      · simp

/-- A folder is skipped, or its facility gets the href that its name stands for. -/
theorem histLoadDev_devices
    {folder : Folder}
    (h : histLoadDev folder sys = some sys') :
    (isSkippedDir folder.name = true ∧ sys' = sys) ∨
      (isSkippedDir folder.name = false ∧ ∃ subhref,
        (forEachStrToken '.' folder.name (joinTokens '/') none).join = some subhref ∧
        sys'.devices = enqueueDev ⟨folder.name, histHref subhref⟩ sys.devices) := by
  unfold histLoadDev at h
  split at h
  · rename_i hskip
    cases h
    exact .inl ⟨hskip, rfl⟩
  · rename_i hskip
    split at h
    · cases h
    · rename_i subhref hsub
      obtain ⟨dom, -, rfl⟩ := Option.map_eq_some_iff.mp h
      exact .inr ⟨by simpa using hskip, subhref, hsub, rfl⟩

/-- The facilities after the scan of some folders: those from before, and one for each folder
that is not skipped. -/
theorem mem_devices_foldlM
    {disk : List Folder} {f : Facility}
    (h : disk.foldlM (fun sys folder => histLoadDev folder sys) sys = some sys') :
    f ∈ sys'.devices ↔ f ∈ sys.devices ∨ ∃ folder ∈ disk, isSkippedDir folder.name = false ∧
      ∃ subhref, (forEachStrToken '.' folder.name (joinTokens '/') none).join = some subhref ∧
        f = ⟨folder.name, histHref subhref⟩ := by
  induction disk generalizing sys with
  | nil =>
      cases h
      simp
  | cons folder disk ih =>
      obtain ⟨mid, hmid, hrest⟩ := Option.bind_eq_some_iff.mp h
      rw [ih hrest]
      rcases histLoadDev_devices hmid with ⟨hskip, rfl⟩ | ⟨hskip, subhref, hsub, hdevices⟩
      · simp [hskip]
      · rw [hdevices, mem_enqueueDev]
        simp only [List.mem_cons, exists_eq_or_imp, hskip, hsub, true_and, Option.some.injEq,
          exists_eq_left']
        tauto

/-- After a restart the facility of a path has the href of the path. -/
theorem mem_devices_obixHistInit
    {disk : List Folder} {dom : Node}
    (hp : DevicePath p)
    (hskip : isSkippedDir (devIdOf p) = false)
    (h : obixHistInit disk dom = some sys) :
    (∀ index, ⟨devIdOf p, index⟩ ∈ disk → ⟨devIdOf p, hrefOf p⟩ ∈ sys.devices) ∧
      ∀ dev ∈ sys.devices, dev.devId = devIdOf p → dev.href = hrefOf p := by
  have hmem := fun f => @mem_devices_foldlM _ sys disk f h
  have hjoin := join_devIdOf hp
  refine ⟨fun index hindex => ?_, fun dev hdev hid => ?_⟩
  · refine (hmem _).mpr (.inr ⟨_, hindex, hskip, _, hjoin, ?_⟩)
    rw [histHref_path hp]
  · rcases (hmem dev).mp hdev with hnone | ⟨folder, -, -, subhref, hsub, rfl⟩
    · cases hnone
    · have hid : folder.name = devIdOf p := hid
      rw [hid, hjoin] at hsub
      rw [← Option.some.inj hsub]
      exact histHref_path hp

end Restart

/-- For every spelling of a path that does not begin with the history lobby, the id is made of
the components with dots between them, and splitting the id at its dots gives the path back.  So
two spellings have one id only if they have the same components, and a restart gives a facility
the href of its components, unless it is called `lost+found`. -/
theorem devId_href_correspond
    {p : Path} {path : Text}
    (hp : DevicePath p)
    (hpath : tokens '/' path = p)
    (hlobby : ¬ obixHistoryLobby <+: path) :
    histGetDevId path = some (['.'].intercalate p) ∧
    (forEachStrToken '.' (['.'].intercalate p) (joinTokens '/') none).join =
      some (['/'].intercalate p) ∧
    (∀ q path', DevicePath q → tokens '/' path' = q → ¬ obixHistoryLobby <+: path' →
      (histGetDevId path = histGetDevId path' ↔ p = q)) ∧
    ∀ disk dom sys, ['.'].intercalate p ≠ "lost+found".toList → obixHistInit disk dom = some sys →
      (∀ index, ⟨['.'].intercalate p, index⟩ ∈ disk →
        ⟨['.'].intercalate p, obixHistoryLobby ++ ['/'].intercalate p⟩ ∈ sys.devices) ∧
      ∀ dev ∈ sys.devices, dev.devId = ['.'].intercalate p →
        dev.href = obixHistoryLobby ++ ['/'].intercalate p := by
  have hid : ∀ {q path'}, DevicePath q → tokens '/' path' = q → ¬ obixHistoryLobby <+: path' →
      histGetDevId path' = some (devIdOf q) := by
    rintro q path' hq rfl hlobby'
    exact histGetDevId_eq hlobby' hq.ne_nil
  have hhref : obixHistoryLobby ++ ['/'].intercalate p = hrefOf p := by
    rw [intercalate_eq_tail, ← histHref_path hp, histHref, skipSlash, hp.head_subhref]
    rfl
  have hdots : ['.'].intercalate p = devIdOf p := intercalate_eq_tail '.' p
  have hslashes : ['/'].intercalate p = subhrefOfPath p := intercalate_eq_tail '/' p
  rw [hhref, hdots, hslashes]
  refine ⟨hid hp hpath hlobby, join_devIdOf hp, fun q path' hq hpath' hlobby' => ?_, ?_⟩
  · rw [hid hp hpath hlobby, hid hq hpath' hlobby', Option.some.injEq]
    constructor
    · exact devIdOf_inj hp hq
    · rintro rfl
      rfl
  · intro disk dom sys hskip h
    exact mem_devices_obixHistInit hp (decide_eq_false hskip) h

/-- A path with slashes at both ends and in a row. -/
theorem devId_href_correspond_spelling :
    histGetDevId "//M1/DH1//CB01/".toList = some "M1.DH1.CB01".toList ∧
    (forEachStrToken '.' "M1.DH1.CB01".toList (joinTokens '/') none).join =
      some "M1/DH1/CB01".toList := by
  have hp : DevicePath ["M1".toList, "DH1".toList, "CB01".toList] := by
    decide
  have hboth := devId_href_correspond hp
    (by decide : tokens '/' "//M1/DH1//CB01/".toList = _) (by decide)
  exact ⟨hboth.1, hboth.2.1⟩

/-- A path whose first components are those of the lobby. -/
theorem devId_loses_lobby :
    ¬ ∀ (p : Path) (path : Text), (∀ t ∈ p, IsToken '/' t ∧ IsToken '.' t) →
      tokens '/' path = p → histGetDevId path = some (['.'].intercalate p) := by
  intro hall
  have hid := hall (lobbyTokens ++ ["M1".toList]) "/obix/historyService/histories/M1".toList
    (by unfold IsToken; decide) (by decide)
  have hshort : histGetDevId "/obix/historyService/histories/M1".toList = some "M1".toList := by
    decide
  rw [hshort] at hid
  exact absurd hid (by decide)

section Operations

variable {p q : Path} {path op uri sub : Text}

/-- `hist_get_dev_id` with the name of an operation.  The length of what precedes the name and
its slash is -1 if the name is found at the very beginning, and then `strndup` takes all. -/
def histGetDevIdOf (opName uri : Text) : Option Text :=
  let uri := if obixHistoryLobby <+: uri then uri.drop obixHistoryLobby.length else uri
  (find opName uri).bind fun i =>
    let str := if i = 0 then uri else uri.take (i - 1)
    (forEachStrToken '/' str (joinTokens '.') none).join

/-- A device path with single slashes between its components, with or without one at either
end. -/
def Spelled (p : Path) (path : Text) : Prop :=
  ∃ front back : Text, (front = [] ∨ front = ['/']) ∧ (back = [] ∨ back = ['/']) ∧
    path = front ++ subhrefOfPath p ++ back

theorem tokens_of_spelled
    (hp : DevicePath p)
    (h : Spelled p path) :
    tokens '/' path = p := by
  obtain ⟨front, back, hfront, hback, rfl⟩ := h
  have hback : tokens '/' (subhrefOfPath p ++ back) = p := by
    rcases hback with rfl | rfl
    · rw [List.append_nil, tokens_subhrefOfPath hp]
    · rw [tokens, tokensAux_append_slash]
      exact tokens_subhrefOfPath hp
  rcases hfront with rfl | rfl
  · exact hback
  · rw [List.append_assoc, List.singleton_append, tokens_delim_cons, hback]

/-- The request URI of an operation, behind the lobby. -/
theorem linkFolder_histHref
    (hp : DevicePath p)
    (h : Spelled p path) :
    linkFolder (histHref path) = obixHistoryLobby ++ (subhrefOfPath p ++ ['/']) := by
  obtain ⟨front, back, hfront, hback, rfl⟩ := h
  have hne : subhrefOfPath p ≠ [] := by
    intro hnil
    have htokens := tokens_subhrefOfPath hp
    rw [hnil] at htokens
    exact hp.ne_nil htokens.symm
  have hskip : skipSlash (front ++ subhrefOfPath p ++ back) = subhrefOfPath p ++ back := by
    rcases hfront with rfl | rfl
    · obtain ⟨c, cs, hcs⟩ := List.exists_cons_of_ne_nil hne
      have hhead := hp.head_subhref
      rw [hcs] at hhead ⊢
      simpa [skipSlash, slashPreceded] using hhead
    · simp [skipSlash, slashPreceded]
  have hlobby : linkFolder obixHistoryLobby = obixHistoryLobby := by decide
  rw [histHref, hskip, hlobby]
  rcases hback with rfl | rfl
  · have hlast : slashFollowed (obixHistoryLobby ++ (subhrefOfPath p ++ [])) = false := by
      have hsub := hp.last_subhref
      simp only [slashFollowed, decide_eq_false_iff_not, List.append_nil] at hsub ⊢
      rwa [List.getLast?_append_of_ne_nil _ hne]
    rw [linkFolder, hlast]
    simp
  · have hlast : slashFollowed (obixHistoryLobby ++ (subhrefOfPath p ++ ['/'])) = true := by
      simp [slashFollowed]
    rw [linkFolder, hlast]
    simp

/-- What `hist_get_dev_id` makes of that URI. -/
theorem histGetDevIdOf_eq (op sub : Text) :
    histGetDevIdOf op (obixHistoryLobby ++ sub) =
      (find op sub).bind fun i =>
        (forEachStrToken '/' (if i = 0 then sub else sub.take (i - 1)) (joinTokens '.') none).join := by
  have hpre : obixHistoryLobby <+: obixHistoryLobby ++ sub := List.prefix_append _ _
  unfold histGetDevIdOf
  simp only [hpre, if_true, List.drop_left]

/-- The id of a string is that of a path only if its tokens are the path. -/
theorem join_eq_devIdOf_iff
    {str : Text}
    (hp : DevicePath p)
    (hdot : '.' ∉ str) :
    (forEachStrToken '/' str (joinTokens '.') none).join = some (devIdOf p) ↔
      tokens '/' str = p := by
  constructor
  · intro h
    have hne : tokens '/' str ≠ [] := by
      intro hnil
      simp [forEachStrToken, hnil] at h
    rw [forEachStrToken_joinTokens hne rfl, Option.some.injEq] at h
    exact devIdOf_inj (devicePath_tokens hne hdot) hp h
  · rintro h
    exact forEachStrToken_joinTokens hp.ne_nil h

theorem dot_not_mem_subhref
    (hp : DevicePath p) :
    '.' ∉ subhrefOfPath p := by
  intro hmem
  have hmem : '.' ∈ delimited '/' p := List.mem_of_mem_tail hmem
  simp only [delimited, List.mem_flatMap, List.mem_cons] at hmem
  obtain ⟨t, ht, hmem⟩ := hmem
  rcases hmem with hmem | hmem
  · exact absurd hmem (by decide)
  · exact (hp.dot t ht).2 hmem

/-- A part of the path without slashes lies in one component. -/
theorem isInfix_subhref_iff
    (hp : DevicePath p)
    (hop : IsToken '/' op) :
    op <:+: subhrefOfPath p ↔ ∃ t ∈ p, op <:+: t := by
  rw [← isInfix_delimited_iff hop, ← delimited_tail hp.ne_nil, ← subhrefOfPath,
    ← List.nil_append ('/' :: subhrefOfPath p), isInfix_append_delim hop]
  simp [hop.1]

/-- The name of an operation that is in no component is found behind the path. -/
theorem find_op
    (hop : IsToken '/' op)
    (hsub : ¬ op <:+: sub) :
    find op (sub ++ '/' :: op) = some (sub.length + 1) := by
  have hnone : find op (sub ++ ['/']) = none := by
    refine find_eq_none fun j hj => hsub ?_
    have hpart : op <:+: sub ++ ['/'] := hj.isInfix.trans (List.drop_suffix j _).isInfix
    rw [isInfix_append_delim hop] at hpart
    simpa [hop.1] using hpart
  have hskip := find_append_of_sep hop.2 hnone op
  have hhead : find op op = some 0 := find_of_prefix List.prefix_rfl
  rw [hhead] at hskip
  simpa using hskip

theorem histGetDevIdOf_free
    (hp : DevicePath p)
    (hop : IsToken '/' op)
    (hfree : ∀ t ∈ p, ¬ op <:+: t) :
    histGetDevIdOf op (obixHistoryLobby ++ (subhrefOfPath p ++ '/' :: op)) = some (devIdOf p) := by
  have hsub : ¬ op <:+: subhrefOfPath p := by
    rw [isInfix_subhref_iff hp hop]
    push Not
    exact hfree
  rw [histGetDevIdOf_eq, find_op hop hsub, Option.bind_some, if_neg (by omega),
    Nat.add_sub_cancel, List.take_left]
  exact forEachStrToken_joinTokens hp.ne_nil (tokens_subhrefOfPath hp)

/-- Otherwise it is found in the path, and the id is that of what precedes it there, or of the
path together with the operation. -/
theorem histGetDevIdOf_cut
    (hp : DevicePath p)
    (hq : DevicePath q)
    (hop : IsToken '/' op)
    (hdot : '.' ∉ op)
    (h : histGetDevIdOf op (obixHistoryLobby ++ (subhrefOfPath p ++ '/' :: op)) =
      some (devIdOf q)) :
    (∀ t ∈ q, ¬ op <:+: t) ∨ q = p ++ [op] := by
  have hdots : '.' ∉ subhrefOfPath p ++ '/' :: op := by
    simp [dot_not_mem_subhref hp, hdot]
  rw [histGetDevIdOf_eq] at h
  obtain ⟨i, hi, h⟩ := Option.bind_eq_some_iff.mp h
  split at h
  · right
    rw [join_eq_devIdOf_iff hq hdots, tokens, tokensAux_append_delim, ← tokens,
      tokens_subhrefOfPath hp] at h
    have hself := @tokens_delimited '/' [op] (by simpa using hop)
    rw [delimited_cons, tokens_delim_cons] at hself
    rw [← h, show tokens '/' op = [op] by simpa [delimited] using hself]
  · rename_i hpos
    left
    rw [join_eq_devIdOf_iff hq fun hmem => hdots (List.mem_of_mem_take hmem)] at h
    intro t ht hpart
    -- the name would be found earlier
    rw [← h] at ht
    have hpart := hpart.trans (isInfix_of_mem_tokens ht)
    obtain ⟨j, hj, hpre⟩ := isInfix_iff_exists_drop.mp hpart
    have hlen := hpre.length_le
    have hlt := List.length_pos_iff.mpr hop.1
    rw [List.length_drop, List.length_take] at hlen
    refine not_prefix_drop_of_lt_find hi (j := j) (by omega) ?_
    refine hpre.trans ?_
    rw [List.drop_take]
    exact List.take_prefix _ _

theorem tokens_lobby (rest : Text) :
    tokens '/' (obixHistoryLobby ++ rest) = lobbyTokens ++ tokens '/' rest := by
  have hbare : obixHistoryLobby = trimSlash obixHistoryLobby ++ ['/'] := by decide
  have htokens : tokens '/' (trimSlash obixHistoryLobby) = lobbyTokens := by decide
  rw [hbare, List.append_assoc, List.singleton_append, tokens, tokensAux_append_delim, ← tokens,
    htokens]

theorem histGetDevId_lobby (rest : Text) :
    histGetDevId (obixHistoryLobby ++ rest) =
      (forEachStrToken '/' (trimSlash rest) (joinTokens '.') none).join := by
  have hpre : obixHistoryLobby <+: obixHistoryLobby ++ rest := List.prefix_append _ _
  unfold histGetDevId
  simp only [hpre, if_true, List.drop_left]
  rfl

/-- The id that History.Get gives to a path. -/
theorem histGetDevId_spelled
    {devId : Text}
    (hp : DevicePath p)
    (h : Spelled p path)
    (hid : histGetDevId path = some devId) :
    ∃ q, DevicePath q ∧ devId = devIdOf q ∧
      (¬ obixHistoryLobby <+: path ∧ p = q ∨ obixHistoryLobby <+: path ∧ p = lobbyTokens ++ q) := by
  have htokens := tokens_of_spelled hp h
  have hdots : '.' ∉ path := by
    obtain ⟨front, back, hfront, hback, rfl⟩ := h
    have hsub := dot_not_mem_subhref hp
    rcases hfront with rfl | rfl <;> rcases hback with rfl | rfl <;> simp [hsub]
  by_cases hlobby : obixHistoryLobby <+: path
  · obtain ⟨rest, rfl⟩ := hlobby
    rw [tokens_lobby] at htokens
    rw [histGetDevId_lobby] at hid
    have hne : tokens '/' rest ≠ [] := by
      intro hnil
      rw [← tokens_trimSlash] at hnil
      simp [forEachStrToken, hnil] at hid
    rw [forEachStrToken_joinTokens hne (tokens_trimSlash rest)] at hid
    exact ⟨tokens '/' rest,
      devicePath_tokens hne fun hmem => hdots (List.mem_append_right _ hmem),
      (Option.some.inj hid).symm, .inr ⟨List.prefix_append _ _, htokens.symm⟩⟩
  · rw [histGetDevId_eq hlobby (htokens ▸ hp.ne_nil), htokens, Option.some.injEq] at hid
    exact ⟨p, hp, hid.symm, .inl ⟨hlobby, rfl⟩⟩

/-- An answer of History.Get has the id and the href of the path in it. -/
theorem devId_of_handlerHistoryGet
    {requester devId href : Text} {input : Option Xml} {sys sys' : HistSys}
    (hsub : subhrefOf input = some path)
    (h : handlerHistoryGet requester input sys = (sys', .out devId href)) :
    histGetDevId path = some devId ∧ href = histHref path := by
  unfold handlerHistoryGet at h
  rw [hsub] at h
  dsimp only at h
  split at h
  · cases h
  · rename_i id hid
    split at h
    · cases h
      exact ⟨hid, rfl⟩
    · split at h
      · cases h
      · unfold getCreate at h
        split at h
        · cases h
        · split at h
          · cases h
          · cases h
            exact ⟨hid, rfl⟩

theorem isToken_op
    (hop : op = opAppend ∨ op = opQuery) :
    IsToken '/' op ∧ '.' ∉ op ∧ ∀ t ∈ lobbyTokens, ¬ op <:+: t := by
  rcases hop with rfl | rfl
  · exact ⟨⟨by decide, by decide⟩, by decide, by decide⟩
  · exact ⟨⟨by decide, by decide⟩, by decide, by decide⟩

/-- The request URI of an operation leads to the facility that History.Get gave for a path, if
and only if the path does not begin with the history lobby and the name of the operation is in
none of its components. -/
theorem history_op_finds_iff
    {requester devId href : Text} {input : Option Xml} {sys sys' : HistSys}
    (hp : DevicePath p)
    (hpath : Spelled p path)
    (hsub : subhrefOf input = some path)
    (hget : handlerHistoryGet requester input sys = (sys', .out devId href))
    (hop : op = opAppend ∨ op = opQuery) :
    histGetDevIdOf op (linkFolder href ++ op) = some devId ↔
      ¬ obixHistoryLobby <+: path ∧ ∀ t ∈ p, ¬ op <:+: t := by
  obtain ⟨htoken, hdot, hlobbyFree⟩ := isToken_op hop
  obtain ⟨hid, rfl⟩ := devId_of_handlerHistoryGet hsub hget
  obtain ⟨q, hq, rfl, hcases⟩ := histGetDevId_spelled hp hpath hid
  have huri : linkFolder (histHref path) ++ op =
      obixHistoryLobby ++ (subhrefOfPath p ++ '/' :: op) := by
    rw [linkFolder_histHref hp hpath]
    simp
  rw [huri]
  constructor
  · intro h
    have hcut := histGetDevIdOf_cut hp hq htoken hdot h
    rcases hcases with ⟨hlobby, rfl⟩ | ⟨-, rfl⟩
    · refine ⟨hlobby, hcut.resolve_right fun heq => ?_⟩
      simpa using congrArg List.length heq
    · -- the id lacks the components of the lobby
      exfalso
      rcases hcut with hfree | heq
      · have hall : ∀ t ∈ lobbyTokens ++ q, ¬ op <:+: t := by
          intro t ht
          rcases List.mem_append.mp ht with ht | ht
          · exact hlobbyFree t ht
          · exact hfree t ht
        rw [histGetDevIdOf_free hp htoken hall, Option.some.injEq] at h
        have hlen := congrArg List.length (devIdOf_inj hp hq h)
        simp [lobbyTokens] at hlen
        omega
      · have hlen := congrArg List.length heq
        simp [lobbyTokens] at hlen
        omega
  · rintro ⟨hlobby, hfree⟩
    rcases hcases with ⟨-, rfl⟩ | ⟨hpre, -⟩
    · exact histGetDevIdOf_free hp htoken hfree
    · exact absurd hpre hlobby

/-- The operations of a facility whose path ends with a slash. -/
theorem history_op_finds_append :
    ∃ sys', handlerHistoryGet "client".toList (getIn "/M1/CB01/") newHistSys =
        (sys', .out "M1.CB01".toList "/obix/historyService/histories/M1/CB01/".toList) ∧
      histGetDevIdOf opAppend "/obix/historyService/histories/M1/CB01/append".toList =
        some "M1.CB01".toList := by
  have hp : DevicePath ["M1".toList, "CB01".toList] := by
    decide
  have hget : (handlerHistoryGet "client".toList (getIn "/M1/CB01/") newHistSys).2 =
      .out "M1.CB01".toList "/obix/historyService/histories/M1/CB01/".toList := by
    decide +kernel
  have hpath : Spelled ["M1".toList, "CB01".toList] "/M1/CB01/".toList :=
    ⟨['/'], ['/'], .inr rfl, .inr rfl, by decide +kernel⟩
  refine ⟨_, Prod.ext rfl hget, ?_⟩
  exact (history_op_finds_iff hp hpath (by decide +kernel) (Prod.ext rfl hget) (.inl rfl)).mpr
    ⟨by decide +kernel, by decide +kernel⟩

/-- A component that begins with the name of an operation. -/
theorem history_op_misses :
    ¬ ∀ (p : Path) (path requester devId href op : Text) (input : Option Xml)
      (sys sys' : HistSys), DevicePath p → Spelled p path → subhrefOf input = some path →
        handlerHistoryGet requester input sys = (sys', .out devId href) →
        op = opAppend ∨ op = opQuery → histGetDevIdOf op (linkFolder href ++ op) = some devId := by
  intro hall
  have hp : DevicePath ["M1".toList, "queryPump".toList] := by
    decide
  have hget : (handlerHistoryGet "client".toList (getIn "M1/queryPump") newHistSys).2 =
      .out "M1.queryPump".toList "/obix/historyService/histories/M1/queryPump".toList := by
    decide +kernel
  have hid := hall _ "M1/queryPump".toList _ _ _ opQuery (getIn "M1/queryPump") newHistSys _ hp
    ⟨[], [], .inl rfl, .inl rfl, by decide +kernel⟩ (by decide +kernel) (Prod.ext rfl hget)
    (.inr rfl)
  have hcut : histGetDevIdOf opQuery
      (linkFolder "/obix/historyService/histories/M1/queryPump".toList ++ opQuery) =
      some "M1".toList := by
    decide +kernel
  rw [hcut] at hid
  exact absurd hid (by decide +kernel)

end Operations

end History
end Obix
