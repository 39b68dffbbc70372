import Obix.Utils.Strings
import Mathlib.Tactic

/-!
# The paths that `link_pathname` builds

The length is computed in a first pass over the parts, with tests of its own for their slashes,
and the parts are printed in a second one.  Both agree, and the parts that are printed have one
slash between them (`linkPathname_joins`).  Lengths are unbounded.
-/

namespace Obix

open CString

section Spec

/-- A part without one slash at its end. -/
def dropSlash (s : Text) : Text := if slashFollowed s then s.dropLast else s

/-- The length that `link_pathname` allocates memory for, besides the terminator. -/
def linkLength
    (root : Text)
    (parent file sfx : Option Text) :
    Int :=
  let len : Int := root.length
  let len := if slashFollowed root then len else len + 1
  let len := parent.elim len fun q =>
    let len := len + q.length
    let len := if slashPreceded q then len - 1 else len
    if slashFollowed q then len else len + 1
  let len := file.elim len fun f =>
    let len := len + f.length
    if slashPreceded f then len - 1 else len
  sfx.elim len fun s => len + s.length

/-- A part of a path and what is printed of it between slashes. -/
structure LinkPart where
  given : Text
  printed : Text

/-- The folder that a parent is; a single slash is none. -/
def parentPart (parent : Option Text) : List LinkPart :=
  (parent.filter fun q => q ≠ ['/']).toList.map fun q =>
    { given := q, printed := dropSlash (skipSlash q) }

/-- The parts of a path.  Without a file there is nothing behind the last slash. -/
def linkParts
    (root : Text)
    (parent file : Option Text) :
    List LinkPart :=
  { given := root, printed := dropSlash root } :: parentPart parent ++
    [{ given := file.getD [], printed := skipSlash (file.getD []) }]

/-- What `link_pathname` makes of its parts. -/
structure Joined
    (root : Text)
    (parent file sfx : Option Text)
    (text : Text) : Prop where
  /-- As much is printed as memory was allocated for. -/
  room : (text.length : Int) = linkLength root parent file sfx
  /-- There is one slash between two parts, and the suffix follows. -/
  joined : text =
    ['/'].intercalate ((linkParts root parent file).map LinkPart.printed) ++ sfx.getD []
  /-- It is the only one at a joint at which no part has more than one slash. -/
  single : ∀ x y, [x, y] <:+: linkParts root parent file → ¬ ['/', '/'] <:+ x.given →
    ¬ ['/', '/'] <+: y.given → x.printed.getLast? ≠ some '/' ∧ y.printed.head? ≠ some '/'

end Spec

section Slashes

variable {s : Text}

theorem slashFollowed_eq_true : slashFollowed s = true ↔ ∃ t, s = t ++ ['/'] := by
  unfold slashFollowed
  rw [decide_eq_true_iff, List.getLast?_eq_some_iff]

theorem slashPreceded_eq_true : slashPreceded s = true ↔ ∃ t, s = '/' :: t := by
  unfold slashPreceded
  rw [decide_eq_true_iff, List.head?_eq_some_iff]

/-- A folder is printed with one slash more than what is left of it. -/
theorem linkFolder_eq (s : Text) : linkFolder s = dropSlash s ++ ['/'] := by
  unfold linkFolder dropSlash
  by_cases hfollowed : slashFollowed s = true
  · obtain ⟨t, rfl⟩ := slashFollowed_eq_true.mp hfollowed
    rw [if_pos hfollowed, if_pos hfollowed, List.dropLast_concat]
  · rw [if_neg hfollowed, if_neg hfollowed]

theorem length_linkFolder (s : Text) :
    ((linkFolder s).length : Int) = if slashFollowed s then (s.length : Int) else s.length + 1 := by
  unfold linkFolder
  by_cases hfollowed : slashFollowed s = true
  · rw [if_pos hfollowed, if_pos hfollowed]
  · rw [if_neg hfollowed, if_neg hfollowed]
    simp

theorem length_skipSlash (s : Text) :
    ((skipSlash s).length : Int) = if slashPreceded s then (s.length : Int) - 1 else s.length := by
  unfold skipSlash
  by_cases hpreceded : slashPreceded s = true
  · obtain ⟨t, rfl⟩ := slashPreceded_eq_true.mp hpreceded
    rw [if_pos hpreceded, if_pos hpreceded]
    simp
  · rw [if_neg hpreceded, if_neg hpreceded]

/-- Only a single slash leaves nothing. -/
theorem skipSlash_eq_nil
    (hne : s ≠ []) :
    skipSlash s = [] ↔ s = ['/'] := by
  unfold skipSlash
  by_cases hpreceded : slashPreceded s = true
  · obtain ⟨t, rfl⟩ := slashPreceded_eq_true.mp hpreceded
    rw [if_pos hpreceded]
    simp
  · rw [if_neg hpreceded]
    constructor
    · intro h
      exact absurd h hne
    · rintro rfl
      exact absurd rfl hpreceded

/-- The slash before a part is not the one after it, unless it is a single slash. -/
theorem slashFollowed_skipSlash
    (hne : skipSlash s ≠ []) :
    slashFollowed (skipSlash s) = slashFollowed s := by
  unfold skipSlash at hne ⊢
  by_cases hpreceded : slashPreceded s = true
  · obtain ⟨t, rfl⟩ := slashPreceded_eq_true.mp hpreceded
    rw [if_pos hpreceded, List.tail_cons] at hne ⊢
    obtain ⟨c, u, rfl⟩ := List.exists_cons_of_ne_nil hne
    rw [slashFollowed, slashFollowed, List.getLast?_cons_cons]
  · rw [if_neg hpreceded]

theorem skipSlash_isSuffix (s : Text) : skipSlash s <:+ s := by
  unfold skipSlash
  split
  · exact List.tail_suffix s
  · exact List.suffix_rfl

/-- One slash at the end is all that has to be dropped. -/
theorem getLast?_dropSlash
    (h : ¬ ['/', '/'] <:+ s) :
    (dropSlash s).getLast? ≠ some '/' := by
  unfold dropSlash
  by_cases hfollowed : slashFollowed s = true
  · obtain ⟨t, rfl⟩ := slashFollowed_eq_true.mp hfollowed
    rw [if_pos hfollowed, List.dropLast_concat]
    intro hlast
    obtain ⟨u, rfl⟩ := List.getLast?_eq_some_iff.mp hlast
    exact h ⟨u, by simp⟩
  · rw [if_neg hfollowed]
    intro hlast
    exact hfollowed (decide_eq_true hlast)

theorem head?_skipSlash
    (h : ¬ ['/', '/'] <+: s) :
    (skipSlash s).head? ≠ some '/' := by
  unfold skipSlash
  by_cases hpreceded : slashPreceded s = true
  · obtain ⟨t, rfl⟩ := slashPreceded_eq_true.mp hpreceded
    rw [if_pos hpreceded, List.tail_cons]
    intro hhead
    obtain ⟨u, rfl⟩ := List.head?_eq_some_iff.mp hhead
    exact h ⟨u, rfl⟩
  · rw [if_neg hpreceded]
    intro hhead
    exact hpreceded (decide_eq_true hhead)

theorem head?_dropSlash
    (h : s.head? ≠ some '/') :
    (dropSlash s).head? ≠ some '/' := by
  unfold dropSlash
  split
  · cases s with
    | nil => exact h
    | cons c t =>
        cases t with
        | nil => simp
        | cons d t => exact h
  · exact h

end Slashes

section Results

variable {root : Text} {parent file sfx : Option Text}

/-- What is printed of a parent. -/
def parentText (parent : Option Text) : Text :=
  parent.elim [] fun q => if skipSlash q = [] then [] else linkFolder (skipSlash q)

theorem linkPathname_eq
    (hroot : root ≠ []) :
    linkPathname root parent file sfx =
      some (linkFolder root ++ parentText parent ++ file.elim [] skipSlash ++ sfx.getD []) :=
  if_neg hroot

/-- A parent is a part, or nothing is printed of it. -/
theorem parent_cases
    (hparent : parent ≠ some []) :
    (parentText parent = [] ∧ parentPart parent = []) ∨
      ∃ q, parentText parent = dropSlash (skipSlash q) ++ ['/'] ∧
        parentPart parent = [{ given := q, printed := dropSlash (skipSlash q) }] := by
  cases parent with
  | none => exact .inl ⟨rfl, rfl⟩
  | some q =>
      have hne : q ≠ [] := fun h => hparent (h ▸ rfl)
      by_cases hslash : q = ['/']
      · subst hslash
        exact .inl ⟨rfl, rfl⟩
      · right
        refine ⟨q, ?_, ?_⟩
        · rw [parentText, Option.elim_some, if_neg ((skipSlash_eq_nil hne).not.mpr hslash),
            linkFolder_eq]
        · rw [parentPart, Option.filter_some_pos (by simpa using hslash)]
          rfl

/-- The first pass counts what is printed of a parent. -/
theorem length_parentText
    (hparent : parent ≠ some [])
    (len : Int) :
    len + (parentText parent).length = parent.elim len fun q =>
      let len := len + q.length
      let len := if slashPreceded q then len - 1 else len
      if slashFollowed q then len else len + 1 := by
  cases parent with
  | none => simp [parentText]
  | some q =>
      have hne : q ≠ [] := fun h => hparent (h ▸ rfl)
      rw [parentText, Option.elim_some, Option.elim_some]
      by_cases hnil : skipSlash q = []
      · obtain rfl := (skipSlash_eq_nil hne).mp hnil
        simp [skipSlash, slashPreceded, slashFollowed]
      · have hlength := length_skipSlash q
        rw [if_neg hnil, length_linkFolder, slashFollowed_skipSlash hnil, hlength]
        dsimp only
        split_ifs
        · omega
        · omega
        · omega
        · omega

theorem linkLength_eq
    (hparent : parent ≠ some []) :
    linkLength root parent file sfx =
      ((linkFolder root ++ parentText parent ++ file.elim [] skipSlash ++ sfx.getD []).length :
        Int) := by
  have hroot := length_linkFolder root
  have hlength := length_parentText hparent ((linkFolder root).length : Int)
  have hfile : ∀ len : Int, len + (file.elim [] skipSlash).length = file.elim len fun f =>
      let len := len + f.length
      if slashPreceded f then len - 1 else len := by
    intro len
    cases file with
    | none => simp
    | some f =>
        have hskip := length_skipSlash f
        rw [Option.elim_some, Option.elim_some, hskip]
        dsimp only
        split_ifs
        · omega
        · rfl
  have hsfx : ∀ len : Int, len + (sfx.getD []).length = sfx.elim len fun s => len + s.length := by
    intro len
    cases sfx with
    | none => simp
    | some s => rfl
  unfold linkLength
  dsimp only
  rw [← hroot, ← hlength, ← hfile, ← hsfx]
  simp only [List.length_append, Nat.cast_add]

/-- `link_pathname` joins its parts with one slash, in the memory that it allocated. -/
theorem linkPathname_joins
    (hroot : root ≠ [])
    (hparent : parent ≠ some []) :
    ∃ text, linkPathname root parent file sfx = some text ∧ Joined root parent file sfx text := by
  refine ⟨_, linkPathname_eq hroot, (linkLength_eq hparent).symm, ?_, ?_⟩
  · have hname : file.elim [] skipSlash = skipSlash (file.getD []) := by
      cases file with
      | none => rfl
      | some f => rfl
    rw [linkFolder_eq, hname]
    rcases parent_cases hparent with ⟨htext, hpart⟩ | ⟨q, htext, hpart⟩
    · rw [htext, linkParts, hpart]
      simp [List.intercalate]
    · rw [htext, linkParts, hpart]
      simp [List.intercalate]
  · intro x y hxy hx hy
    -- the first of two parts is a folder, and the second one is a folder or the file
    have hfolder : ∀ q : Text, ¬ ['/', '/'] <:+ q →
        (dropSlash (skipSlash q)).getLast? ≠ some '/' := fun q hq =>
      getLast?_dropSlash fun hdouble => hq (hdouble.trans (skipSlash_isSuffix q))
    rcases parent_cases hparent with ⟨-, hpart⟩ | ⟨q, -, hpart⟩
    · rw [linkParts, hpart] at hxy
      obtain ⟨rfl, rfl⟩ : x = { given := root, printed := dropSlash root } ∧
          y = { given := file.getD [], printed := skipSlash (file.getD []) } := by
        simpa [List.infix_cons_iff, List.prefix_cons_iff] using hxy
      exact ⟨getLast?_dropSlash hx, head?_skipSlash hy⟩
    · rw [linkParts, hpart] at hxy
      have hpair : (x = { given := root, printed := dropSlash root } ∧
          y = { given := q, printed := dropSlash (skipSlash q) }) ∨
          (x = { given := q, printed := dropSlash (skipSlash q) } ∧
            y = { given := file.getD [], printed := skipSlash (file.getD []) }) := by
        simpa [List.infix_cons_iff, List.prefix_cons_iff] using hxy
      rcases hpair with ⟨rfl, rfl⟩ | ⟨rfl, rfl⟩
      · exact ⟨getLast?_dropSlash hx, head?_dropSlash (head?_skipSlash hy)⟩
      · exact ⟨hfolder q hx, head?_skipSlash hy⟩

/-- A folder with slashes on both sides. -/
theorem linkPathname_joins_histories :
    ∃ text, linkPathname "/var/obix/".toList (some "/histories/".toList)
        (some "2014-10-14".toList) (some ".xml".toList) = some text ∧
      Joined "/var/obix/".toList (some "/histories/".toList) (some "2014-10-14".toList)
        (some ".xml".toList) text :=
  linkPathname_joins (by decide) (by decide)

end Results

end Obix
