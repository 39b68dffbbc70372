import Obix.Lib.Numerals
import Obix.Server.Routing

/-!
# Which watch a href leads to

`watch_search` finds a watch by the number behind the first `watch` of a href.  The watch that
a href belongs to is found; a watch that it does not belong to is found as well when that number
is its id, whatever stands around the number (`watchSearch_owns_iff`).
-/

namespace Obix
namespace Serving

open CString Devices

/-- The href of a watch, with or without its slash, or a href below it. -/
def ObixWatch.Owns
    (w : ObixWatch)
    (href : Text) :
    Prop :=
  isStrIdentical href w.href = true ∨
    ∃ more, more ≠ [] ∧ href = trimSlash w.href ++ '/' :: more

/-- In a href of the watch service the first `watch` is followed by a number that is an id when
it is reduced to an `int`. -/
def ShowsId
    (href : Text)
    (id : Nat) :
    Prop :=
  ∃ before after n, href = ObixRoot.watch.root ++ (before ++ (watchIdStart ++ after)) ∧
    (∀ j < before.length, ¬ watchIdStart <+: (before ++ (watchIdStart ++ after)).drop j) ∧
    ReadsNumber after n ∧ longMin ≤ n ∧ n ≤ longMax ∧ n.bmod (2 ^ 32) = id

section Numbers

variable {w : ObixWatch} {href : Text} {id : Nat}

theorem strToLong_eq_ok_iff
    {s : Text} {n : Int} :
    strToLong s = .ok n ↔ ReadsNumber s n ∧ longMin ≤ n ∧ n ≤ longMax := by
  rw [← strtol_eq_iff]
  unfold strToLong
  cases herange : (strtol s).erange <;> cases hconv : (strtol s).converted <;> simp [herange, hconv]

/-- The root of the watch service with its slash. -/
theorem watchRoot_eq : ObixRoot.watch.root = trimSlash ObixRoot.watch.root ++ ['/'] := by
  decide

theorem isOfType_watch_iff
    (hlen : ObixRoot.watch.root.length < href.length) :
    isOfType href .watch = true ↔ ObixRoot.watch.root <+: href := by
  unfold isOfType
  rw [Bool.and_eq_true, List.isPrefixOf_iff_prefix]
  have hroot := watchRoot_eq
  have hlength := congrArg List.length hroot
  rw [List.length_append, List.length_singleton] at hlength
  generalize trimSlash ObixRoot.watch.root = t at hroot hlength ⊢
  rw [hroot]
  constructor
  · rintro ⟨⟨r, rfl⟩, hslash⟩
    rw [List.drop_left] at hslash
    cases r with
    | nil =>
        rw [List.append_nil] at hlen
        omega
    | cons c r =>
        obtain rfl : c = '/' := by simpa using hslash
        exact ⟨r, by simp⟩
  · rintro ⟨r, rfl⟩
    rw [List.append_assoc]
    exact ⟨List.prefix_append _ _, by simp⟩

/-- The id that `watch_get_id` reads from what stands behind the root of the watches. -/
def watchIdIn (rest : Text) : Int :=
  match find watchIdStart rest with
  | none => -1
  | some n =>
      match strToLong (rest.drop (n + watchIdStart.length)) with
      | .ok l => l.bmod (2 ^ 32)
      | .error ret => ret

theorem watchGetId_append
    {rest : Text}
    (hne : rest ≠ []) :
    watchGetId (ObixRoot.watch.root ++ rest) = watchIdIn rest := by
  have hlen : ObixRoot.watch.root.length < (ObixRoot.watch.root ++ rest).length := by
    have := List.length_pos_of_ne_nil hne
    simp
    omega
  have htype : isOfType (ObixRoot.watch.root ++ rest) .watch = true :=
    (isOfType_watch_iff hlen).mpr (List.prefix_append _ _)
  have hrest : ¬ (isOfType (ObixRoot.watch.root ++ rest) .watch = false ∨
      (ObixRoot.watch.root ++ rest).length ≤ ObixRoot.watch.root.length) := by
    simp only [htype, Bool.true_eq_false, false_or, not_le]
    exact hlen
  have hread : watchGetId (ObixRoot.watch.root ++ rest) =
      watchIdIn ((ObixRoot.watch.root ++ rest).drop ObixRoot.watch.root.length) := if_neg hrest
  rw [hread, List.drop_left]

/-- The first `watch` is the one that is found. -/
theorem find_watchIdStart
    {before after : Text}
    (hfirst : ∀ j < before.length,
      ¬ watchIdStart <+: (before ++ (watchIdStart ++ after)).drop j) :
    find watchIdStart (before ++ (watchIdStart ++ after)) = some before.length := by
  refine find_eq_some ?_ (by simp) hfirst
  rw [List.drop_left]
  exact List.prefix_append _ _

/-- An id is read from a href when the href shows it. -/
theorem watchGetId_eq_iff :
    watchGetId href = id ↔ ShowsId href id := by
  constructor
  · intro h
    have hok : ¬ (isOfType href .watch = false ∨ href.length ≤ ObixRoot.watch.root.length) := by
      intro hbad
      rw [watchGetId, if_pos hbad] at h
      omega
    rw [not_or, Bool.not_eq_false, not_le] at hok
    obtain ⟨rest, rfl⟩ := (isOfType_watch_iff hok.2).mp hok.1
    have hne : rest ≠ [] := by
      rintro rfl
      simp at hok
    rw [watchGetId_append hne, watchIdIn] at h
    cases hfind : find watchIdStart rest with
    | none =>
        rw [hfind] at h
        dsimp only at h
        omega
    | some n =>
        rw [hfind] at h
        dsimp only at h
        obtain ⟨after, hafter⟩ := prefix_drop_of_find hfind
        have hle := find_add_length_le hfind
        have hdrop : rest.drop (n + watchIdStart.length) = after := by
          rw [← List.drop_drop, ← hafter, List.drop_left]
        have hsplit : rest = rest.take n ++ (watchIdStart ++ after) := by
          rw [hafter, List.take_append_drop]
        have hfirst : ∀ j < (rest.take n).length, ¬ watchIdStart <+: rest.drop j := by
          intro j hj
          rw [List.length_take] at hj
          exact not_prefix_drop_of_lt_find hfind (by omega)
        rw [hdrop] at h
        cases hlong : strToLong after with
        | error ret =>
            rw [hlong] at h
            dsimp only at h
            exfalso
            unfold strToLong at hlong
            dsimp only at hlong
            split at hlong
            · cases hlong
              omega
            · split at hlong
              · cases hlong
                omega
              · cases hlong
        | ok l =>
            rw [hlong] at h
            obtain ⟨hreads, hmin, hmax⟩ := strToLong_eq_ok_iff.mp hlong
            exact ⟨rest.take n, after, l, congrArg _ hsplit,
              fun j hj => by rw [← hsplit]; exact hfirst j hj, hreads, hmin, hmax, h⟩
  · rintro ⟨before, after, n, rfl, hfirst, hreads, hmin, hmax, hid⟩
    have hne : before ++ (watchIdStart ++ after) ≠ [] := by
      simp [watchIdStart]
    have hdrop : (before ++ (watchIdStart ++ after)).drop (before.length + watchIdStart.length) =
        after := by
      rw [← List.drop_drop, List.drop_left, List.drop_left]
    rw [watchGetId_append hne, watchIdIn, find_watchIdStart hfirst]
    dsimp only
    rw [hdrop, strToLong_eq_ok_iff.mpr ⟨hreads, hmin, hmax⟩]
    exact hid

/-- What a href of a watch is made of. -/
theorem owns_cases
    (h : w.Owns href) :
    ∃ tail : Text, (∀ c, tail.head? = some c → c.isDigit = false) ∧
      href = delimited '/' w.path ++ tail := by
  have htrim : trimSlash w.href = delimited '/' w.path := trimSlash_append_slash _
  rcases h with h | ⟨more, -, rfl⟩
  · simp only [isStrIdentical, decide_eq_true_eq] at h
    rw [htrim] at h
    rcases trimSlash_cases href with ⟨-, heq⟩ | heq
    · exact ⟨[], by simp, by rw [← heq, h, List.append_nil]⟩
    · refine ⟨['/'], ?_, by rw [← h]; exact heq⟩
      intro c hc
      obtain rfl := Option.some.inj hc
      decide
  · refine ⟨'/' :: more, ?_, by rw [htrim]⟩
    intro c hc
    obtain rfl := Option.some.inj hc
    decide

/-- A href of a watch shows its id. -/
theorem showsId_of_owns
    (hint : w.id < 2 ^ 31)
    (h : w.Owns href) :
    ShowsId href w.id := by
  obtain ⟨tail, htail, rfl⟩ := owns_cases h
  have hdigits : ∀ n : Nat, ∀ c ∈ Nat.toDigits 10 n, c.isDigit = true :=
    fun n c hc => Nat.isDigit_of_mem_toDigits (by omega) (by omega) hc
  have hhref : delimited '/' w.path ++ tail = ObixRoot.watch.root ++
      ((Nat.toDigits 10 (w.id / maxWatchesPerFolder) ++ ['/']) ++
        (watchIdStart ++ (Nat.toDigits 10 w.id ++ tail))) := by
    have hroot : ObixRoot.watch.root =
        '/' :: ("obix".toList ++ '/' :: ("watchService".toList ++ ['/'])) := by decide
    have hnil : delimited '/' [] = [] := rfl
    simp only [hroot, ObixWatch.path, delimited_cons, hnil, List.append_nil, List.cons_append,
      List.append_assoc, List.nil_append]
  have hfirst : ∀ j < (Nat.toDigits 10 (w.id / maxWatchesPerFolder) ++ ['/']).length,
      ¬ watchIdStart <+: ((Nat.toDigits 10 (w.id / maxWatchesPerFolder) ++ ['/']) ++
        (watchIdStart ++ (Nat.toDigits 10 w.id ++ tail))).drop j := by
    intro j hj hpre
    rw [List.drop_append_of_le_length hj.le] at hpre
    cases hcut : (Nat.toDigits 10 (w.id / maxWatchesPerFolder) ++ ['/']).drop j with
    | nil =>
        rw [List.drop_eq_nil_iff] at hcut
        omega
    | cons c cs =>
        rw [hcut] at hpre
        have hw : 'w' = c := (List.cons_prefix_cons.mp hpre).1
        have hmem : c ∈ Nat.toDigits 10 (w.id / maxWatchesPerFolder) ++ ['/'] :=
          List.mem_of_mem_drop (hcut ▸ List.mem_cons_self)
        rw [← hw] at hmem
        rcases List.mem_append.mp hmem with hmem | hmem
        · exact absurd (hdigits _ _ hmem) (by decide)
        · exact absurd hmem (by decide)
  have hreads : ReadsNumber (Nat.toDigits 10 w.id ++ tail) w.id :=
    ⟨[], [], Nat.toDigits 10 w.id, tail, rfl, by simp, Or.inl rfl, Nat.toDigits_ne_nil,
      hdigits _, htail, by simp [Nat.ofDigitChars_ten_toDigits]⟩
  have hrange : longMin ≤ (w.id : Int) ∧ (w.id : Int) ≤ longMax := by
    have hmin : longMin = -2 ^ 63 := rfl
    have hmax : longMax = 2 ^ 63 - 1 := rfl
    omega
  have hnarrow : Int.bmod w.id (2 ^ 32) = w.id := by
    apply Int.bmod_eq_of_le <;> omega
  exact ⟨_, _, _, hhref, hfirst, hreads, hrange.1, hrange.2, hnarrow⟩

end Numbers

/-- A watch is found by the id that a href shows. -/
theorem watchSearch_eq_some_iff
    {s : Store} {href : Text} {w : ObixWatch}
    (hids : (s.watches.map ObixWatch.id).Nodup) :
    s.watchSearch href = some w ↔ w ∈ s.watches ∧ ShowsId href w.id := by
  rw [← watchGetId_eq_iff]
  unfold Store.watchSearch
  by_cases hneg : watchGetId href < 0
  · rw [if_pos hneg]
    constructor
    · intro h
      cases h
    · rintro ⟨-, hid⟩
      omega
  · rw [if_neg hneg]
    constructor
    · intro h
      have hid := List.find?_some h
      simp only [decide_eq_true_eq] at hid
      exact ⟨List.mem_of_find?_eq_some h, hid.symm⟩
    · rintro ⟨hw, hid⟩
      obtain ⟨v, hv⟩ : ∃ v, s.watches.find? (fun v => (v.id : Int) = watchGetId href) = some v := by
        rw [← Option.isSome_iff_exists, List.find?_isSome]
        exact ⟨w, hw, decide_eq_true hid.symm⟩
      have hvid : v.id = w.id := by
        have hfound := List.find?_some hv
        simp only [decide_eq_true_eq] at hfound
        omega
      rw [hv]
      exact congrArg some (List.inj_on_of_nodup_map hids (List.mem_of_find?_eq_some hv) hw hvid)

/-- A watch is found for the hrefs that belong to it, and for no others, when every live watch
whose id a href shows is the one it belongs to. -/
theorem watchSearch_owns_iff
    (s : Store)
    (href : Text)
    (hids : (s.watches.map ObixWatch.id).Nodup)
    (hint : ∀ w ∈ s.watches, w.id < 2 ^ 31) :
    (∀ w, s.watchSearch href = some w ↔ w ∈ s.watches ∧ w.Owns href) ↔
      ∀ w ∈ s.watches, ShowsId href w.id → w.Owns href := by
  have hsearch := fun w => @watchSearch_eq_some_iff s href w hids
  constructor
  · intro h w hw hshows
    exact ((h w).mp ((hsearch w).mpr ⟨hw, hshows⟩)).2
  · intro h w
    rw [hsearch w]
    constructor
    · rintro ⟨hw, hshows⟩
      exact ⟨hw, h w hw hshows⟩
    · rintro ⟨hw, howns⟩
      exact ⟨hw, showsId_of_owns (hint w hw) howns⟩

section Sample

theorem isSome_sampleStart : sampleStart.isSome = true := by decide +kernel

/-- A server with three watches, in the order in which they have been found. -/
def sampleWatches : Store :=
  { reg := sampleStart.get isSome_sampleStart, mtime := fun _ => 0, backupPeriod := 0,
    watches := [⟨3, Tsync.init⟩, ⟨64, Tsync.init⟩, ⟨0, Tsync.init⟩] }

/-- A node of a watch in the second folder. -/
theorem watchSearch_owns_iff_second :
    (sampleWatches.watches.map ObixWatch.id).Nodup ∧
      (∀ w ∈ sampleWatches.watches, w.id < 2 ^ 31) ∧
      ((∀ w, sampleWatches.watchSearch "/obix/watchService/1/watch64/lease".toList = some w ↔
          w ∈ sampleWatches.watches ∧ w.Owns "/obix/watchService/1/watch64/lease".toList) ↔
        ∀ w ∈ sampleWatches.watches, ShowsId "/obix/watchService/1/watch64/lease".toList w.id →
          w.Owns "/obix/watchService/1/watch64/lease".toList) :=
  ⟨by decide, by decide, watchSearch_owns_iff sampleWatches _ (by decide) (by decide)⟩

/-- A watch is found in a folder where it is not. -/
theorem watchSearch_wrong_folder :
    (sampleWatches.watches.map ObixWatch.id).Nodup ∧
      (∀ w ∈ sampleWatches.watches, w.id < 2 ^ 31) ∧
      ¬ ∀ w, sampleWatches.watchSearch "/obix/watchService/7/watch3/".toList = some w ↔
        w ∈ sampleWatches.watches ∧ w.Owns "/obix/watchService/7/watch3/".toList := by
  refine ⟨by decide, by decide, fun h => ?_⟩
  have hfound : sampleWatches.watchSearch "/obix/watchService/7/watch3/".toList =
      some ⟨3, Tsync.init⟩ := by decide +kernel
  obtain ⟨tail, -, hhref⟩ := owns_cases ((h _).mp hfound).2
  have hpre := List.isPrefixOf_iff_prefix.mpr ⟨tail, hhref.symm⟩
  exact absurd hpre (by decide +kernel)

end Sample

end Serving
end Obix
