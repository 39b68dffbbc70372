import Obix.Server.ContractReading

/-!
# The parts of devices

The part of a device is its subtree without the nodes of other devices, as `__device_copy_no_child`
copies it.  A change that has to do with the nodes of other devices only keeps it
(`keepsPart_of_altered`).  As long as a path does not lead to another device, it leads to the same
nodes in a device and in its part (`getAt_deviceCopyNoChild`).
-/

namespace Obix
namespace Serving

open CString XmlNode Devices

/-- The part of a device. -/
def partOf (q : Nat) (n : XmlNode Nat) : Option Xml :=
  (n.ownNode q).map (deviceCopyNoChild q)

def partOfAll (q : Nat) (cs : List (XmlNode Nat)) : Option Xml :=
  (ownNodeAll q cs).map (deviceCopyNoChild q)

/-- A change that keeps the part of a device. -/
structure KeepsPart (q : Nat) (m m' : XmlNode Nat) : Prop where
  owner : m'.owner = m.owner
  part : partOf q m' = partOf q m

section Parts

variable {q i : Nat} {o : Option Nat} {name : Text} {attrs : List (Text × Text)}
variable {n n' m m' c c' x : XmlNode Nat} {pre post : List (XmlNode Nat)}

theorem partOf_self
    (ho : n.owner = some q) :
    partOf q n = some (deviceCopyNoChild q n) := by
  rw [partOf, ownNode_self ho]
  rfl

theorem partOf_of_eq
    {cs : List (XmlNode Nat)}
    (ho : o = some q) :
    partOf q (.element o name attrs cs) = some (.element none name attrs (copyOwnAll q cs)) :=
  partOf_self ho

theorem partOf_of_fresh
    (h : n.ownNode q = none) :
    partOf q n = none := by
  rw [partOf, h]
  rfl

theorem partOf_of_ne
    {cs : List (XmlNode Nat)}
    (ho : o ≠ some q) :
    partOf q (.element o name attrs cs) = partOfAll q cs := by
  rw [partOf, ownNode_of_ne ho]
  rfl

theorem partOfAll_cons (c : XmlNode Nat) (cs : List (XmlNode Nat)) :
    partOfAll q (c :: cs) = (partOf q c).orElse fun _ => partOfAll q cs := by
  rw [partOfAll, ownNodeAll, partOf, partOfAll]
  cases ownNode q c <;> rfl

theorem partOfAll_append (xs ys : List (XmlNode Nat)) :
    partOfAll q (xs ++ ys) = (partOfAll q xs).orElse fun _ => partOfAll q ys := by
  rw [partOfAll, ownNodeAll_append, partOfAll, partOfAll]
  cases ownNodeAll q xs <;> rfl

theorem copyOwnAll_append (xs ys : List (XmlNode Nat)) :
    copyOwnAll q (xs ++ ys) = copyOwnAll q xs ++ copyOwnAll q ys := by
  induction xs with
  | nil => rfl
  | cons x xs ih =>
      rw [List.cons_append, copyOwnAll, copyOwnAll, ih]
      split <;> rfl

theorem KeepsPart.refl (q : Nat) (m : XmlNode Nat) : KeepsPart q m m :=
  ⟨rfl, rfl⟩

theorem KeepsPart.symm
    (h : KeepsPart q m m') :
    KeepsPart q m' m :=
  ⟨h.owner.symm, h.part.symm⟩

theorem KeepsPart.copy
    (h : KeepsPart q m m')
    (ho : m.owner = some q) :
    deviceCopyNoChild q m' = deviceCopyNoChild q m := by
  have hpart := h.part
  rw [partOf_self ho, partOf_self (h.owner.trans ho)] at hpart
  exact Option.some.inj hpart

/-- A part is kept when it is kept in one of the children. -/
theorem KeepsPart.inside
    (h : KeepsPart q c c') :
    KeepsPart q (.element o name attrs (pre ++ c :: post))
      (.element o name attrs (pre ++ c' :: post)) := by
  refine ⟨rfl, ?_⟩
  by_cases ho : o = some q
  · -- the child is copied with its device, or not at all
    have hcopy : copyOwnAll q (c' :: post) = copyOwnAll q (c :: post) := by
      rw [copyOwnAll, copyOwnAll, h.owner]
      split
      · rename_i hc
        rw [h.copy hc]
      · rfl
    rw [partOf_of_eq ho, partOf_of_eq ho, copyOwnAll_append, copyOwnAll_append, hcopy]
  · rw [partOf_of_ne ho, partOf_of_ne ho, partOfAll_append, partOfAll_append, partOfAll_cons,
      partOfAll_cons, h.part]

theorem keepsPart_of_altered
    (h : Altered (KeepsPart q) n n') :
    KeepsPart q n n' := by
  induction h with
  | here h => exact h
  | inside _ ih => exact ih.inside

/-- A child without nodes of the device is taken away. -/
theorem keepsPart_drop
    (hc : c.ownNode q = none) :
    KeepsPart q (.element o name attrs (pre ++ c :: post)) (.element o name attrs (pre ++ post)) := by
  refine ⟨rfl, ?_⟩
  by_cases ho : o = some q
  · rw [partOf_of_eq ho, partOf_of_eq ho, copyOwnAll_append, copyOwnAll_append, copyOwnAll,
      if_neg (owner_of_ownNode hc)]
  · rw [partOf_of_ne ho, partOf_of_ne ho, partOfAll_append, partOfAll_append, partOfAll_cons,
      partOf_of_fresh hc]
    rfl

theorem keepsPart_of_drops
    (h : Drops (fun _ c => c.ownNode q = none) m m') :
    KeepsPart q m m' := by
  cases h with
  | drop hc => exact keepsPart_drop hc

theorem keepsPart_addChild
    (hx : x.ownNode q = none) :
    KeepsPart q m (addChild x m) := by
  cases m with
  | element o name attrs cs =>
      have hdrop := @keepsPart_drop q o name attrs x cs [] hx
      rw [List.append_nil] at hdrop
      exact hdrop.symm
  | text o content => exact .refl q _
  | comment o content => exact .refl q _

/-- A device gets its part with a child of a node. -/
theorem partOf_addChild
    (hm : m.isElement = true)
    (hfresh : m.ownNode i = none)
    (hx : x.owner = some i) :
    partOf i (addChild x m) = some (deviceCopyNoChild i x) := by
  cases m with
  | element o name attrs cs =>
      obtain ⟨ho, hcs⟩ := ownNode_eq_none.mp hfresh
      have ho : o ≠ some i := ho
      have hcs : ownNodeAll i cs = none := ownNodeAll_eq_none.mpr hcs
      have hnone : partOfAll i cs = none := by rw [partOfAll, hcs]; rfl
      show partOf i (.element o name attrs (cs ++ [x])) = _
      rw [partOf_of_ne ho, partOfAll_append, hnone, partOfAll_cons, partOf_self hx]
      rfl
  | text o content => cases hm
  | comment o content => cases hm

/-- A device that has no nodes in a tree has none in the node that is changed. -/
theorem altered_of_fresh
    {R : XmlNode Nat → XmlNode Nat → Prop}
    (h : Altered R n n')
    (hn : n.ownNode i = none) :
    Altered (fun m m' => m.ownNode i = none ∧ R m m') n n' := by
  induction h with
  | here h => exact .here ⟨hn, h⟩
  | inside _ ih => exact .inside (ih ((ownNode_eq_none.mp hn).2 _ (by simp [children])))

/-- What a device gets in one node it gets in the tree. -/
theorem partOf_of_altered
    {y : Xml}
    (h : Altered (fun _ m' => partOf i m' = some y) n n')
    (hn : n.ownNode i = none) :
    partOf i n' = some y := by
  induction h with
  | here h => exact h
  | @inside o name attrs pre post c c' _ ih =>
      obtain ⟨ho, hcs⟩ := ownNode_eq_none.mp hn
      have ho : o ≠ some i := ho
      have hcs : ∀ d ∈ pre ++ c :: post, ownNode i d = none := hcs
      have hpre : partOfAll i pre = none := by
        rw [partOfAll, ownNodeAll_eq_none.mpr fun d hd => hcs d (List.mem_append_left _ hd)]
        rfl
      rw [partOf_of_ne ho, partOfAll_append, hpre, partOfAll_cons, ih (hcs c (by simp))]
      rfl

end Parts

section Paths

variable {q : Nat} {n : XmlNode Nat} {p : Path} {t : Text}

theorem href_deviceCopyNoChild (n : XmlNode Nat) :
    (deviceCopyNoChild q n).href = n.href := by
  cases n <;> rfl

/-- The children that are copied are looked up as before, when the one that is found is. -/
theorem find?_copyOwnAll (cs : List (XmlNode Nat)) :
    (∀ c, cs.find? (hasHref t) = some c → c.owner = some q) →
      (copyOwnAll q cs).find? (hasHref t) = (cs.find? (hasHref t)).map (deviceCopyNoChild q) := by
  induction cs with
  | nil => intro _; rfl
  | cons c cs ih =>
      intro hfirst
      have hsame : (deviceCopyNoChild q c).hasHref t = c.hasHref t := by
        rw [Bool.eq_iff_iff, hasHref_iff, hasHref_iff, href_deviceCopyNoChild]
      rw [copyOwnAll]
      by_cases hc : c.hasHref t = true
      · have howner := hfirst c (List.find?_cons_of_pos hc)
        rw [if_pos howner, List.find?_cons_of_pos (hsame.trans hc), List.find?_cons_of_pos hc]
        rfl
      · rw [List.find?_cons_of_neg hc] at hfirst ⊢
        have hrest := ih hfirst
        split
        · rw [List.find?_cons_of_neg (by rwa [hsame]), hrest]
        · exact hrest

/-- A path that leads to no other device leads to the same nodes in the part of a device. -/
theorem getAt_deviceCopyNoChild
    (howner : ∀ r k, r <+: p → n.getAt r = some k → k.owner = some q) :
    (deviceCopyNoChild q n).getAt p = (n.getAt p).map (deviceCopyNoChild q) := by
  induction p generalizing n with
  | nil => rfl
  | cons t p ih =>
      have hchild : (deviceCopyNoChild q n).childAt t = (n.childAt t).map (deviceCopyNoChild q) := by
        cases n with
        | element o name attrs cs =>
            refine find?_copyOwnAll cs fun c hc => ?_
            refine howner [t] c (List.cons_prefix_cons.mpr ⟨rfl, List.nil_prefix⟩) ?_
            rw [getAt_cons]
            show (cs.find? (hasHref t)).bind _ = _
            rw [hc]
            rfl
        | text o content => rfl
        | comment o content => rfl
      rw [getAt_cons, getAt_cons, hchild]
      cases hc : n.childAt t with
      | none => rfl
      | some c =>
          refine ih fun r k hr hk => howner (t :: r) k (List.cons_prefix_cons.mpr ⟨rfl, hr⟩) ?_
          rw [getAt_cons, hc]
          exact hk

end Paths

section Copies

mutual

/-- The part of a contract that has been given to a device. -/
theorem deviceCopyNoChild_adopt (i : Nat) :
    ∀ x : Xml, deviceCopyNoChild i (adopt i x) = x
  | .element none name attrs cs => by
      rw [adopt, deviceCopyNoChild, copyOwnAll_adoptAll i cs]
  | .text none content => rfl
  | .comment none content => rfl

theorem copyOwnAll_adoptAll (i : Nat) :
    ∀ cs : List Xml, copyOwnAll i (adoptAll i cs) = cs
  | [] => rfl
  | c :: cs => by
      rw [adoptAll, copyOwnAll, if_pos (owner_adopt i c), deviceCopyNoChild_adopt i c,
        copyOwnAll_adoptAll i cs]

end

end Copies

end Serving
end Obix
