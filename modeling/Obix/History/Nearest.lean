import Obix.History.GetFailure
import Obix.Xml.Ensured

/-!
# Device paths and the facility a node belongs to

A device path is a list of tokens.  The tokens make up the href of its facility, and
joined by dots its `dev_id`.  Both History.Get and the directory scan create the
facility of a path under these names (`handlerHistoryGet_path`, `histLoadDev_path`).

`nearest facs x` is the longest of the paths `facs` that is a prefix of the location
`x` of a node; `IsOwner` says which `_private` pointer the node should have.
-/

namespace Obix
namespace History

open CString

/-- The location of the history lobby in the DOM tree. -/
def lobbyTokens : List Text :=
  ["obix".toList, "historyService".toList, "histories".toList]

/-- The href of the facility of a device path. -/
def hrefOf (p : Path) : Text := delimited '/' (lobbyTokens ++ p)

/-- The `dev_id` of a device path. -/
def devIdOf (p : Path) : Text := (delimited '.' p).tail

/-- A device path: the tokens have neither slashes nor dots. -/
structure DevicePath (p : Path) : Prop where
  ne_nil : p ≠ []
  slash : ∀ t ∈ p, IsToken '/' t
  dot : ∀ t ∈ p, IsToken '.' t

section Names

variable {p q : Path}

theorem lobbyTokens_isToken : ∀ t ∈ lobbyTokens, IsToken '/' t := by
  unfold IsToken
  decide

theorem DevicePath.isToken
    (hp : DevicePath p) :
    ∀ t ∈ lobbyTokens ++ p, IsToken '/' t := by
  intro t ht
  rcases List.mem_append.mp ht with ht | ht
  · exact lobbyTokens_isToken t ht
  · exact hp.slash t ht

theorem delimited_tail
    {delim : Char}
    (hp : p ≠ []) :
    delim :: (delimited delim p).tail = delimited delim p := by
  obtain ⟨t, ts, rfl⟩ := List.exists_cons_of_ne_nil hp
  rw [delimited_cons]
  rfl

theorem tokens_devIdOf
    (hp : DevicePath p) :
    tokens '.' (devIdOf p) = p := by
  rw [← tokens_delim_cons, devIdOf, delimited_tail hp.ne_nil]
  exact tokens_delimited hp.dot

theorem devIdOf_inj
    (hp : DevicePath p)
    (hq : DevicePath q)
    (h : devIdOf p = devIdOf q) :
    p = q := by
  rw [← tokens_devIdOf hp, h, tokens_devIdOf hq]

/-- The device path as a client writes it. -/
def subhrefOfPath (p : Path) : Text := (delimited '/' p).tail

theorem tokens_subhrefOfPath
    (hp : DevicePath p) :
    tokens '/' (subhrefOfPath p) = p := by
  rw [← tokens_delim_cons, subhrefOfPath, delimited_tail hp.ne_nil]
  exact tokens_delimited hp.slash

theorem foldlM_joinTokens (delim : Char) (ts : List Text) (s : Text) :
    ts.foldlM (joinTokens delim) (some s) = some (some (s ++ delimited delim ts)) := by
  induction ts generalizing s with
  | nil => simp [delimited]
  | cons t ts ih => simp [joinTokens, ih, delimited_cons]

/-- Both conversions join the tokens of the path. -/
theorem forEachStrToken_joinTokens
    {d e : Char} {s : Text}
    (hp : p ≠ [])
    (hs : tokens d s = p) :
    (forEachStrToken d s (joinTokens e) none).join = some (delimited e p).tail := by
  obtain ⟨t, ts, rfl⟩ := List.exists_cons_of_ne_nil hp
  simp [forEachStrToken, hs, joinTokens, foldlM_joinTokens, delimited_cons]

theorem DevicePath.head_subhref
    (hp : DevicePath p) :
    slashPreceded (subhrefOfPath p) = false := by
  obtain ⟨t, ts, rfl⟩ := List.exists_cons_of_ne_nil hp.ne_nil
  obtain ⟨hne, hslash⟩ := hp.slash t (by simp)
  obtain ⟨c, cs, rfl⟩ := List.exists_cons_of_ne_nil hne
  have hc : c ≠ '/' := by
    rintro rfl
    exact hslash (by simp)
  simp [slashPreceded, subhrefOfPath, delimited_cons, hc]

theorem DevicePath.last_subhref
    (hp : DevicePath p) :
    slashFollowed (subhrefOfPath p) = false := by
  obtain ⟨ts, t, rfl⟩ := (List.eq_nil_or_concat' p).resolve_left hp.ne_nil
  obtain ⟨c, s, hrev, hc, -⟩ := @delimited_reverse '/' ts t (hp.slash t (by simp))
  have hlast : (delimited '/' (ts ++ [t])).getLast? = some c := by
    rw [List.getLast?_eq_head?_reverse, hrev]
    rfl
  have hsub : subhrefOfPath (ts ++ [t]) ≠ [] := by
    intro hnil
    have htok := tokens_subhrefOfPath hp
    rw [hnil] at htok
    exact hp.ne_nil htok.symm
  rw [← delimited_tail hp.ne_nil, ← subhrefOfPath, List.getLast?_cons] at hlast
  cases hl : (subhrefOfPath (ts ++ [t])).getLast? with
  | none => exact absurd (List.getLast?_eq_none_iff.mp hl) hsub
  | some c' =>
      rw [hl] at hlast
      obtain rfl : c' = c := Option.some.inj hlast
      simpa [slashFollowed, hl] using hc

theorem histGetDevId_path
    (hp : DevicePath p) :
    histGetDevId (subhrefOfPath p) = some (devIdOf p) := by
  have hlobby : ¬ obixHistoryLobby <+: subhrefOfPath p := by
    rintro ⟨s, hs⟩
    have hhead := hp.head_subhref
    rw [← hs] at hhead
    -- the lobby begins with a slash
    cases hhead
  unfold histGetDevId
  simp only [hlobby, if_false, hp.last_subhref, Bool.false_eq_true]
  exact forEachStrToken_joinTokens hp.ne_nil (tokens_subhrefOfPath hp)

theorem histHref_path
    (hp : DevicePath p) :
    histHref (subhrefOfPath p) = hrefOf p := by
  have hlobby : linkFolder obixHistoryLobby = delimited '/' lobbyTokens ++ ['/'] := by decide
  calc
    histHref (subhrefOfPath p) = delimited '/' lobbyTokens ++ ('/' :: subhrefOfPath p) := by
      simp [histHref, skipSlash, hp.head_subhref, hlobby]
    _ = delimited '/' lobbyTokens ++ delimited '/' p := by
      rw [subhrefOfPath, delimited_tail hp.ne_nil]
    _ = hrefOf p := by
      simp [hrefOf, delimited]

/-- History.Get creates the facility of a path under the names of the path. -/
theorem handlerHistoryGet_path
    {requester : Text} {input : Option Xml} {sys : HistSys}
    (hp : DevicePath p)
    (hsub : subhrefOf input = some (subhrefOfPath p))
    (hnew : ∀ dev ∈ sys.devices, dev.devId ≠ devIdOf p) :
    handlerHistoryGet requester input sys = getCreate (devIdOf p) (hrefOf p) sys := by
  rw [handlerHistoryGet_create hsub (histGetDevId_path hp) hnew, histHref_path hp]

/-- So does the directory scan at start-up. -/
theorem histLoadDev_path
    {index : Node} {sys : HistSys}
    (hp : DevicePath p)
    (hskip : isSkippedDir (devIdOf p) = false) :
    histLoadDev { name := devIdOf p, index := index } sys =
      histCreateDev (devIdOf p) (hrefOf p) index sys := by
  have hjoin := @forEachStrToken_joinTokens p '.' '/' _ hp.ne_nil (tokens_devIdOf hp)
  have hhref := histHref_path hp
  rw [subhrefOfPath] at hhref
  simp only [histLoadDev, hskip, hjoin, hhref, Bool.false_eq_true, if_false]

end Names

section Nearest

variable {facs : List Path} {p q x : Path}

/-- The longer one of two paths. -/
def longer (o : Option Path) (q : Path) : Option Path :=
  if o.any fun r => q.length ≤ r.length then o else some q

/-- The longest path that is a prefix of a location. -/
def nearest (facs : List Path) (x : Path) : Option Path :=
  (facs.filter (· <+: x)).foldl longer none

/-- The `_private` pointer a node should have. -/
def own (facs : List Path) (x : Path) : Option Text := (nearest facs x).map devIdOf

theorem nearest_concat (facs : List Path) (p x : Path) :
    nearest (facs ++ [p]) x =
      if p <+: x then longer (nearest facs x) p else nearest facs x := by
  unfold nearest
  rw [List.filter_append, List.foldl_append]
  by_cases h : p <+: x
  · simp [h]
  · simp [h]

theorem mem_of_nearest
    (h : nearest facs x = some q) :
    q ∈ facs ∧ q <+: x := by
  induction facs using List.reverseRecOn generalizing q with
  | nil => cases h
  | append_singleton facs p ih =>
      rw [nearest_concat] at h
      by_cases hp : p <+: x
      · rw [if_pos hp, longer] at h
        split at h
        · obtain ⟨hmem, hpre⟩ := ih h
          exact ⟨List.mem_append_left _ hmem, hpre⟩
        · obtain rfl := Option.some.inj h
          exact ⟨by simp, hp⟩
      · rw [if_neg hp] at h
        obtain ⟨hmem, hpre⟩ := ih h
        exact ⟨List.mem_append_left _ hmem, hpre⟩

theorem exists_nearest
    (hq : q ∈ facs)
    (hpre : q <+: x) :
    ∃ r, nearest facs x = some r ∧ q.length ≤ r.length := by
  induction facs using List.reverseRecOn with
  | nil => cases hq
  | append_singleton facs p ih =>
      have hold : q ∈ facs → ∃ r, nearest (facs ++ [p]) x = some r ∧ q.length ≤ r.length := by
        intro hmem
        obtain ⟨r, hr, hlen⟩ := ih hmem
        rw [nearest_concat, hr]
        by_cases hp : p <+: x
        · rw [if_pos hp, longer]
          split
          · exact ⟨r, rfl, hlen⟩
          · rename_i hnot
            exact ⟨p, rfl, by simp at hnot; omega⟩
        · rw [if_neg hp]
          exact ⟨r, rfl, hlen⟩
      rcases List.mem_append.mp hq with hmem | hmem
      · exact hold hmem
      · obtain rfl := List.mem_singleton.mp hmem
        rw [nearest_concat, if_pos hpre, longer]
        split
        · rename_i hany
          obtain ⟨r, hr, hlen⟩ := (Option.any_eq_true _ _).mp hany
          exact ⟨r, hr, by simpa using hlen⟩
        · exact ⟨q, rfl, le_rfl⟩

/-- At the location of a facility. -/
theorem nearest_self
    (hq : q ∈ facs) :
    nearest facs q = some q := by
  obtain ⟨r, hr, hlen⟩ := exists_nearest hq List.prefix_rfl
  have hpre := (mem_of_nearest hr).2
  rw [hr, hpre.eq_of_length_le hlen]

/-- At a location right below a facility. -/
theorem nearest_below
    {t : Text}
    (hq : q ∈ facs)
    (ht : q ++ [t] ∉ facs) :
    nearest facs (q ++ [t]) = some q := by
  obtain ⟨r, hr, hlen⟩ := exists_nearest hq (List.prefix_append q [t])
  obtain ⟨hmem, hpre⟩ := mem_of_nearest hr
  rcases List.prefix_concat_iff.mp hpre with rfl | hpre
  · exact absurd hmem ht
  · rw [hr, hpre.eq_of_length_le hlen]

theorem nearest_eq_none
    (h : ∀ q ∈ facs, ¬ q <+: x) :
    nearest facs x = none := by
  cases hn : nearest facs x with
  | none => rfl
  | some q =>
      obtain ⟨hmem, hpre⟩ := mem_of_nearest hn
      exact absurd hpre (h q hmem)

/-- A new facility does not matter at locations that are not below it. -/
theorem nearest_of_not_isPrefix
    (h : ¬ p <+: x) :
    nearest (facs ++ [p]) x = nearest facs x := by
  rw [nearest_concat, if_neg h]

/-- A new facility without facilities below it owns everything below it. -/
theorem nearest_of_isPrefix
    (h : p <+: x)
    (hbelow : ∀ q ∈ facs, ¬ p <+: q) :
    nearest (facs ++ [p]) x = some p := by
  rw [nearest_concat, if_pos h, longer]
  split
  · rename_i hany
    obtain ⟨r, hr, hlen⟩ := (Option.any_eq_true _ _).mp hany
    obtain ⟨hmem, hpre⟩ := mem_of_nearest hr
    exact absurd (List.prefix_of_prefix_length_le h hpre (by simpa using hlen)) (hbelow r hmem)
  · rfl

theorem own_self
    (hq : q ∈ facs) :
    own facs q = some (devIdOf q) := by
  rw [own, nearest_self hq]
  rfl

theorem own_of_isPrefix
    (h : p <+: x)
    (hbelow : ∀ q ∈ facs, ¬ p <+: q) :
    own (facs ++ [p]) x = some (devIdOf p) := by
  rw [own, nearest_of_isPrefix h hbelow]
  rfl

theorem own_of_not_isPrefix
    (h : ¬ p <+: x) :
    own (facs ++ [p]) x = own facs x := by
  rw [own, own, nearest_of_not_isPrefix h]

/-- A new facility becomes the owner of a location, or its owner stays. -/
theorem own_concat (facs : List Path) (p x : Path) :
    own (facs ++ [p]) x = own facs x ∨ own (facs ++ [p]) x = some (devIdOf p) := by
  rw [own, nearest_concat]
  by_cases h : p <+: x
  · rw [if_pos h, longer]
    split
    · exact .inl rfl
    · exact .inr rfl
  · rw [if_neg h]
    exact .inl rfl

theorem own_eq_none
    (h : ∀ q ∈ facs, ¬ q <+: x) :
    own facs x = none := by
  rw [own, nearest_eq_none h]
  rfl

/-- The owner a node at a location should have: the facility with the longest path
that is a prefix of the location, or nobody. -/
def IsOwner (facs : List Path) (x : Path) (o : Option Text) : Prop :=
  (o = none ∧ ∀ q ∈ facs, ¬ q <+: x) ∨
    ∃ q ∈ facs, q <+: x ∧ o = some (devIdOf q) ∧ ∀ r ∈ facs, r <+: x → r.length ≤ q.length

theorem isOwner_iff
    {o : Option Text} :
    IsOwner facs x o ↔ o = own facs x := by
  constructor
  · rintro (⟨rfl, hnone⟩ | ⟨q, hq, hpre, rfl, hmax⟩)
    · rw [own, nearest_eq_none hnone]
      rfl
    · obtain ⟨r, hr, hlen⟩ := exists_nearest hq hpre
      obtain ⟨hmem, hpre'⟩ := mem_of_nearest hr
      have hqr : q = r :=
        (List.prefix_of_prefix_length_le hpre hpre' hlen).eq_of_length_le (hmax r hmem hpre')
      rw [own, hr, hqr]
      rfl
  · rintro rfl
    cases hn : nearest facs x with
    | none =>
        refine .inl ⟨by rw [own, hn]; rfl, ?_⟩
        intro q hq hpre
        obtain ⟨r, hr, -⟩ := exists_nearest hq hpre
        rw [hn] at hr
        cases hr
    | some q =>
        obtain ⟨hq, hpre⟩ := mem_of_nearest hn
        refine .inr ⟨q, hq, hpre, by rw [own, hn]; rfl, ?_⟩
        intro r hr hpre'
        obtain ⟨q', hq', hlen⟩ := exists_nearest hr hpre'
        obtain rfl : q' = q := Option.some.inj (hq'.symm.trans hn)
        exact hlen

/-- The owner depends on the set of the facilities only. -/
theorem IsOwner.unique
    {facs' : List Path} {o o' : Option Text}
    (h : IsOwner facs x o)
    (hmem : ∀ q, q ∈ facs' ↔ q ∈ facs)
    (h' : IsOwner facs' x o') :
    o = o' := by
  have h'' : IsOwner facs x o' := by
    simpa only [IsOwner, hmem] using h'
  rw [isOwner_iff.mp h, isOwner_iff.mp h'']

end Nearest

end History
end Obix
