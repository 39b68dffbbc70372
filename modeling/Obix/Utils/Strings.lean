import Obix.Lib.CString

/-!
# String helpers of the common library

The helpers of `obix_utils.c` that the server modules share: slash tests,
`link_pathname`, the tokenizing loop `for_each_str_token` and `str_to_long`.
Memory allocation never fails in the model.
-/

namespace Obix

open CString

/-- `slash_preceded`. -/
def slashPreceded (s : Text) : Bool :=
  s.head? = some '/'

/-- `slash_followed`. -/
def slashFollowed (s : Text) : Bool :=
  s.getLast? = some '/'

/-- A folder name as `link_pathname` prints it, with exactly one slash after it. -/
def linkFolder (s : Text) : Text :=
  if slashFollowed s then s else s ++ ['/']

/-- A name without one preceding slash. -/
def skipSlash (s : Text) : Text :=
  if slashPreceded s then s.tail else s

/--
`link_pathname`: root folder, optional parent folder, optional file name and
optional suffix joined into one path.  The result is `none` for an empty root.
-/
def linkPathname
    (root : Text)
    (parent file sfx : Option Text) :
    Option Text :=
  if root = [] then none
  else
    let p := parent.elim [] fun q =>
      -- a parent that is just "/" adds nothing
      if skipSlash q = [] then [] else linkFolder (skipSlash q)
    let f := file.elim [] skipSlash
    some (linkFolder root ++ p ++ f ++ sfx.getD [])

/--
`for_each_str_token`: the callback runs over the tokens from left to right and
stops at its first failure.  A string without any token is a failure as well.
-/
def forEachStrToken
    {σ : Type}
    (delimiter : Char)
    (str : Text)
    (cb : σ → Text → Option σ)
    (arg : σ) :
    Option σ :=
  match tokens delimiter str with
  | [] => none
  | t :: ts => (t :: ts).foldlM cb arg

/-- `str_to_long`: the value, or the negative code of the failure. -/
def strToLong (str : Text) : Except Int Int :=
  let r := strtol str
  if r.erange then .error (-1)
  else if r.converted = false then .error (-2)
  else .ok r.value

end Obix
