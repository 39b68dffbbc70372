import Obix.History.Shutdown
import Obix.Server.Routing

/-!
# The facility that a href leads to

`hist_search` walks the list of facilities backwards and takes the first one whose href occurs
anywhere in the given one.  A facility hosts a href if its own is the given one or an ancestor of
it, where a slash at the end does not count.  The nearest host is found if and only if its href
does occur and no facility behind it in the list has a href that occurs; where there is no host,
no href may occur (`histSearch_nearest_iff`).

For the facilities of device paths that comes down to the hrefs that end within a component of
the given one (`histSearch_paths_iff`).
-/

namespace Obix
namespace Serving

open CString History

/-- `hist_search`. -/
def histSearch (devices : List Facility) (href : Text) : Option Facility :=
  if isOfType href .history = false then none
  else devices.reverse.find? fun dev => (find dev.href href).isSome

/-- The href of a facility is a path on the way to a href, or that href, but for a slash at the
end of either. -/
def Hosts
    (f : Facility)
    (href : Text) :
    Prop :=
  trimSlash f.href = trimSlash href ∨ trimSlash f.href ++ ['/'] <+: href

/-- A host with the longest href. -/
structure NearestHost
    (devices : List Facility)
    (href : Text)
    (f : Facility) :
    Prop where
  mem : f ∈ devices
  hosts : Hosts f href
  longest : ∀ g ∈ devices, Hosts g href → (trimSlash g.href).length ≤ (trimSlash f.href).length

/-- The nearest host is found, and nothing if there is none. -/
def FindsNearest
    (devices : List Facility)
    (href : Text) :
    Prop :=
  (∀ f, histSearch devices href = some f → NearestHost devices href f) ∧
    (histSearch devices href = none → ∀ f ∈ devices, ¬ Hosts f href)

section Search

variable {devices : List Facility} {href : Text} {f : Facility}

theorem find_isSome_iff
    {needle s : Text} :
    (find needle s).isSome = true ↔ needle <:+: s := by
  refine ⟨fun h => ?_, find_of_isInfix⟩
  obtain ⟨i, hi⟩ := Option.isSome_iff_exists.mp h
  exact (prefix_drop_of_find hi).isInfix.trans (List.drop_suffix i s).isInfix

/-- The last facility in the list whose href occurs. -/
theorem histSearch_eq_some_iff
    (htype : isOfType href .history = true) :
    histSearch devices href = some f ↔
      ∃ before behind, devices = before ++ f :: behind ∧ f.href <:+: href ∧
        ∀ g ∈ behind, ¬ g.href <:+: href := by
  unfold histSearch
  rw [if_neg (by simp [htype]), List.find?_eq_some_iff_append]
  simp only [find_isSome_iff, Bool.not_eq_true', Bool.eq_false_iff, ne_eq]
  constructor
  · rintro ⟨hocc, behind, before, hsplit, hnone⟩
    refine ⟨before.reverse, behind.reverse, ?_, hocc, fun g hg => hnone g (List.mem_reverse.mp hg)⟩
    rw [← List.reverse_reverse devices, hsplit]
    simp
  · rintro ⟨before, behind, rfl, hocc, hnone⟩
    exact ⟨hocc, behind.reverse, before.reverse, by simp,
      fun g hg => hnone g (List.mem_reverse.mp hg)⟩

theorem histSearch_eq_none_iff
    (htype : isOfType href .history = true) :
    histSearch devices href = none ↔ ∀ f ∈ devices, ¬ f.href <:+: href := by
  unfold histSearch
  rw [if_neg (by simp [htype]), List.find?_eq_none]
  simp only [find_isSome_iff, List.mem_reverse]

/-- The href of a host occurs, unless it has a slash at the end that the given one lacks. -/
theorem Hosts.occurs_iff
    (h : Hosts f href) :
    f.href <:+: href ↔ f.href ≠ href ++ ['/'] := by
  constructor
  · intro hocc heq
    have hlen := hocc.length_le
    rw [heq, List.length_append, List.length_singleton] at hlen
    omega
  · intro hne
    rcases h with h | h
    · rcases isStrIdentical_cases (decide_eq_true h) with heq | ⟨-, heq⟩ | ⟨-, heq⟩
      · rw [heq]
      · exact absurd heq hne
      · rw [heq]
        exact (List.prefix_append _ _).isInfix
    · rcases trimSlash_cases f.href with ⟨-, htrim⟩ | htrim
      · rw [htrim] at h
        exact ((List.prefix_append _ _).trans h).isInfix
      · rw [← htrim] at h
        exact h.isInfix

end Search

/-- The nearest host is found if it does not have a slash that the href lacks and no facility
behind it has a href that occurs; where there is no host, nothing is found if no href occurs. -/
theorem histSearch_nearest_iff
    (devices : List Facility)
    (href : Text)
    (htype : isOfType href .history = true) :
    FindsNearest devices href ↔
      (∀ g ∈ devices, ¬ Hosts g href ∧ ¬ g.href <:+: href) ∨
      ∃ before f behind, devices = before ++ f :: behind ∧ NearestHost devices href f ∧
        f.href ≠ href ++ ['/'] ∧ ∀ g ∈ behind, ¬ g.href <:+: href := by
  constructor
  · rintro ⟨hsome, hnone⟩
    cases hsearch : histSearch devices href with
    | none =>
        have hocc := (histSearch_eq_none_iff htype).mp hsearch
        exact .inl fun g hg => ⟨hnone hsearch g hg, hocc g hg⟩
    | some f =>
        have hnear := hsome f hsearch
        obtain ⟨before, behind, hsplit, hocc, hbehind⟩ := (histSearch_eq_some_iff htype).mp hsearch
        exact .inr ⟨before, f, behind, hsplit, hnear, hnear.hosts.occurs_iff.mp hocc, hbehind⟩
  · rintro (hall | ⟨before, f, behind, hsplit, hnear, hslash, hbehind⟩)
    · have hsearch := (histSearch_eq_none_iff htype).mpr fun g hg => (hall g hg).2
      refine ⟨fun f hf => ?_, fun _ g hg => (hall g hg).1⟩
      rw [hsearch] at hf
      cases hf
    · have hsearch := (histSearch_eq_some_iff htype).mpr
        ⟨before, behind, hsplit, hnear.hosts.occurs_iff.mpr hslash, hbehind⟩
      refine ⟨fun g hg => ?_, fun hnone => ?_⟩
      · rw [hsearch] at hg
        obtain rfl := Option.some.inj hg
        exact hnear
      · rw [hsearch] at hnone
        cases hnone

section Paths

variable {devices : List Facility} {href : Text} {f g : Facility}

/-- The facility of a device path. -/
def OfPath (f : Facility) : Prop :=
  ∃ p, DevicePath p ∧ f.devId = devIdOf p ∧ f.href = hrefOf p

theorem OfPath.trimSlash_href
    (hf : OfPath f) :
    trimSlash f.href = f.href := by
  obtain ⟨p, hp, -, hhref⟩ := hf
  have hpath : IsPath f.href (lobbyTokens ++ p) :=
    ⟨hp.isToken, by simp [hp.ne_nil], .inl hhref⟩
  rw [hpath.trimSlash, hhref, hrefOf]

/-- Hrefs are as long as the `dev_id`s, but for the lobby. -/
theorem OfPath.length_href
    (hf : OfPath f) :
    f.href.length = obixHistoryLobby.length + f.devId.length := by
  obtain ⟨p, hp, hid, hhref⟩ := hf
  have hlen : (devIdOf p).length + 1 = (delimited '.' p).length := length_devIdOf hp.ne_nil
  have hsame : (delimited '/' p).length = (delimited '.' p).length := by
    simp [delimited, List.length_flatMap]
  have hlobby : obixHistoryLobby.length = (delimited '/' lobbyTokens).length + 1 := by decide
  have happ : hrefOf p = delimited '/' lobbyTokens ++ delimited '/' p := List.flatMap_append
  rw [hhref, happ, hid, List.length_append]
  omega

theorem OfPath.lobby_prefix
    (hf : OfPath f) :
    obixHistoryLobby <+: f.href := by
  obtain ⟨p, hp, -, hhref⟩ := hf
  have hlobby : obixHistoryLobby = delimited '/' lobbyTokens ++ ['/'] := by decide
  have happ : hrefOf p = delimited '/' lobbyTokens ++ delimited '/' p := List.flatMap_append
  rw [hhref, happ, hlobby, List.prefix_append_right_inj, ← delimited_tail hp.ne_nil]
  exact ⟨_, rfl⟩

/-- Where the lobby is only at the beginning of a href, so is the href of a facility. -/
theorem OfPath.occurs_iff
    (hf : OfPath f)
    (honce : ¬ obixHistoryLobby <:+: href.tail) :
    f.href <:+: href ↔ f.href <+: href := by
  refine ⟨fun hocc => ?_, List.IsPrefix.isInfix⟩
  obtain ⟨j, -, hj⟩ := isInfix_iff_exists_drop.mp hocc
  cases j with
  | zero => exact hj
  | succ j =>
      refine absurd ?_ honce
      rw [← List.drop_one]
      rw [Nat.add_comm, ← List.drop_drop] at hj
      exact (hf.lobby_prefix.trans hj).isInfix.trans (List.drop_suffix j _).isInfix

theorem OfPath.prefix_of_hosts
    (hf : OfPath f)
    (h : Hosts f href) :
    f.href <+: href := by
  rw [Hosts, hf.trimSlash_href] at h
  rcases h with h | h
  · rw [h]
    exact List.isPrefixOf_iff_prefix.mp (trimSlash_isPrefix href)
  · exact (List.prefix_append _ _).trans h

/-- Of the facilities of device paths the nearest host of a href is found, if and only if every
facility whose href ends within a component of it is shorter than a host. -/
theorem histSearch_paths_iff
    (htype : isOfType href .history = true)
    (honce : ¬ obixHistoryLobby <:+: href.tail)
    (hsorted : ByLength devices)
    (hpaths : ∀ f ∈ devices, OfPath f) :
    FindsNearest devices href ↔
      ∀ g ∈ devices, g.href <+: href →
        Hosts g href ∨ ∃ f ∈ devices, Hosts f href ∧ g.href.length < f.href.length := by
  have hoccurs : ∀ f ∈ devices, (f.href <:+: href ↔ f.href <+: href) :=
    fun f hf => (hpaths f hf).occurs_iff honce
  constructor
  · rintro ⟨hsome, -⟩ g hg hpre
    cases hsearch : histSearch devices href with
    | none =>
        exact absurd ((hoccurs g hg).mpr hpre) ((histSearch_eq_none_iff htype).mp hsearch g hg)
    | some f =>
        have hnear := hsome f hsearch
        obtain ⟨before, behind, hsplit, hocc, hbehind⟩ := (histSearch_eq_some_iff htype).mp hsearch
        have hfpre := (hoccurs f hnear.mem).mp hocc
        rw [or_iff_not_imp_left]
        intro hhost
        refine ⟨f, hnear.mem, hnear.hosts, ?_⟩
        have hmem : g ∈ before := by
          rw [hsplit, List.mem_append, List.mem_cons] at hg
          rcases hg with hg | rfl | hg
          · exact hg
          · exact absurd hnear.hosts hhost
          · exact absurd hpre.isInfix (hbehind g hg)
        have hle : g.devId.length ≤ f.devId.length := by
          rw [hsplit, ByLength, List.pairwise_append] at hsorted
          exact hsorted.2.2 g hmem f List.mem_cons_self
        have hgh := (hpaths g hg).length_href
        have hfh := (hpaths f hnear.mem).length_href
        have hne : g.href.length ≠ f.href.length := by
          intro hlen
          have heq : g.href = f.href :=
            (List.prefix_of_prefix_length_le hpre hfpre hlen.le).eq_of_length hlen
          exact hhost (by rw [Hosts, heq]; exact hnear.hosts)
        omega
  · intro hall
    refine ⟨fun f hf => ?_, fun hnone f hf hhost => ?_⟩
    · obtain ⟨before, behind, hsplit, hocc, hbehind⟩ := (histSearch_eq_some_iff htype).mp hf
      have hmem : f ∈ devices := by simp [hsplit]
      -- a longer host would be behind
      have hlonger : ∀ g ∈ devices, Hosts g href → g.href.length ≤ f.href.length := by
        intro g hg hhost
        by_contra hlt
        have hgh := (hpaths g hg).length_href
        have hfh := (hpaths f hmem).length_href
        rw [hsplit, ByLength, List.pairwise_append] at hsorted
        rw [hsplit, List.mem_append, List.mem_cons] at hg
        rcases hg with hg | rfl | hg
        · have := hsorted.2.2 g hg f List.mem_cons_self
          omega
        · omega
        · have hpre := OfPath.prefix_of_hosts (hpaths g (by simp [hsplit, hg])) hhost
          exact hbehind g hg hpre.isInfix
      have hhosts : Hosts f href := by
        rcases hall f hmem ((hoccurs f hmem).mp hocc) with hhost | ⟨g, hg, hhost, hlt⟩
        · exact hhost
        · have := hlonger g hg hhost
          omega
      refine ⟨hmem, hhosts, fun g hg hhost => ?_⟩
      rw [(hpaths g hg).trimSlash_href, (hpaths f hmem).trimSlash_href]
      exact hlonger g hg hhost
    · have hpre := (hpaths f hf).prefix_of_hosts hhost
      exact (histSearch_eq_none_iff htype).mp hnone f hf hpre.isInfix

end Paths

section Sample

/-- A facility and one below it. -/
def sampleFacilities : List Facility :=
  [⟨"M1".toList, "/obix/historyService/histories/M1".toList⟩,
    ⟨"M1.CB01".toList, "/obix/historyService/histories/M1/CB01".toList⟩]

/-- An operation of the facility below. -/
theorem histSearch_nearest_iff_query :
    isOfType "/obix/historyService/histories/M1/CB01/query".toList .history = true ∧
      (FindsNearest sampleFacilities "/obix/historyService/histories/M1/CB01/query".toList ↔
        (∀ g ∈ sampleFacilities, ¬ Hosts g "/obix/historyService/histories/M1/CB01/query".toList ∧
          ¬ g.href <:+: "/obix/historyService/histories/M1/CB01/query".toList) ∨
        ∃ before f behind, sampleFacilities = before ++ f :: behind ∧
          NearestHost sampleFacilities "/obix/historyService/histories/M1/CB01/query".toList f ∧
          f.href ≠ "/obix/historyService/histories/M1/CB01/query".toList ++ ['/'] ∧
          ∀ g ∈ behind, ¬ g.href <:+: "/obix/historyService/histories/M1/CB01/query".toList) := by
  have htype : isOfType "/obix/historyService/histories/M1/CB01/query".toList .history = true := by
    decide +kernel
  exact ⟨htype, histSearch_nearest_iff sampleFacilities _ htype⟩

/-- A facility is found by a href whose last component begins like its own. -/
theorem histSearch_within_component :
    ¬ ∀ (devices : List Facility) (href : Text), isOfType href .history = true →
      FindsNearest devices href := by
  intro hall
  have hfinds := hall sampleFacilities "/obix/historyService/histories/M1query".toList
    (by decide +kernel)
  have hsearch : histSearch sampleFacilities "/obix/historyService/histories/M1query".toList =
      some ⟨"M1".toList, "/obix/historyService/histories/M1".toList⟩ := by
    decide +kernel
  have hhosts := (hfinds.1 _ hsearch).hosts
  unfold Hosts at hhosts
  revert hhosts
  decide +kernel

end Sample

end Serving
end Obix
