import Mathlib.Data.List.TakeWhile
import Mathlib.Logic.Function.Basic
import Obix.Lib.Rings

/-!
# Lists of the kernel

The operations of `list.h` that the server and the client use, as assignments to the pointers of
`struct list_head`.  An access through a poisoned pointer is a page fault (`none`).

A list is the ring of its head and its entries.  Each operation does to the rings what its comment
says (`lists_run`), the loops go over the entries in their order, and a loop that is safe against
removal goes over all entries there were, whichever of them its body takes out.
-/

namespace Obix
namespace Kernel

open Rings

/-- The address of a `struct list_head`, or one of the two values that `list_del` leaves behind. -/
inductive Ptr (ι : Type)
  | node (i : ι)
  | poison1
  | poison2
  deriving DecidableEq

namespace Ptr

variable {ι : Type}

/-- An address at which there is a `struct list_head`. -/
def valid : Ptr ι → Bool
  | node _ => true
  | poison1 => false
  | poison2 => false

end Ptr

/-- All `struct list_head`. -/
abbrev ListHeads (ι : Type) := Pointers (Ptr ι)

section Operations

variable {ι : Type} [DecidableEq ι]

/-- `a->next = v`. -/
def setNext (a v : Ptr ι) (k : ListHeads ι) : Option (ListHeads ι) :=
  if a.valid then some { k with next := Function.update k.next a v } else none

/-- `a->prev = v`. -/
def setPrev (a v : Ptr ι) (k : ListHeads ι) : Option (ListHeads ι) :=
  if a.valid then some { k with prev := Function.update k.prev a v } else none

/-- `a->next`. -/
def getNext (a : Ptr ι) (k : ListHeads ι) : Option (Ptr ι) :=
  if a.valid then some (k.next a) else none

/-- `a->prev`. -/
def getPrev (a : Ptr ι) (k : ListHeads ι) : Option (Ptr ι) :=
  if a.valid then some (k.prev a) else none

/-- `INIT_LIST_HEAD`. -/
def initListHead (list : Ptr ι) (k : ListHeads ι) : Option (ListHeads ι) := do
  let k ← setNext list list k
  setPrev list list k

/-- `__list_add`. -/
def listAddBetween (new prev next : Ptr ι) (k : ListHeads ι) : Option (ListHeads ι) := do
  let k ← setPrev next new k
  let k ← setNext new next k
  let k ← setPrev new prev k
  setNext prev new k

/-- `list_add`. -/
def listAdd (new head : Ptr ι) (k : ListHeads ι) : Option (ListHeads ι) := do
  let next ← getNext head k
  listAddBetween new head next k

/-- `list_add_tail`. -/
def listAddTail (new head : Ptr ι) (k : ListHeads ι) : Option (ListHeads ι) := do
  let prev ← getPrev head k
  listAddBetween new prev head k

/-- `__list_del`. -/
def listDelBetween (prev next : Ptr ι) (k : ListHeads ι) : Option (ListHeads ι) := do
  let k ← setPrev next prev k
  setNext prev next k

/-- `list_del`. -/
def listDel (entry : Ptr ι) (k : ListHeads ι) : Option (ListHeads ι) := do
  let prev ← getPrev entry k
  let next ← getNext entry k
  let k ← listDelBetween prev next k
  let k ← setNext entry .poison1 k
  setPrev entry .poison2 k

/-- `list_empty`. -/
def listEmpty (head : Ptr ι) (k : ListHeads ι) : Option Bool :=
  (getNext head k).map fun next => decide (next = head)

/-- `list_is_last`. -/
def listIsLast (list head : Ptr ι) (k : ListHeads ι) : Option Bool :=
  (getNext list k).map fun next => decide (next = head)

/-- `list_for_each`: the entries that the loop goes over from a cursor on. -/
def listForEach (head : Ptr ι) (k : ListHeads ι) : Nat → Ptr ι → Option (List (Ptr ι))
  | 0, _ => none
  | fuel + 1, pos =>
      if pos = head then some []
      else do
        let next ← getNext pos k
        let rest ← listForEach head k fuel next
        some (pos :: rest)

/-- `list_for_each_prev`. -/
def listForEachPrev (head : Ptr ι) (k : ListHeads ι) : Nat → Ptr ι → Option (List (Ptr ι))
  | 0, _ => none
  | fuel + 1, pos =>
      if pos = head then some []
      else do
        let prev ← getPrev pos k
        let rest ← listForEachPrev head k fuel prev
        some (pos :: rest)

/-- `list_for_each_safe`, where the body may change the pointers: the entries that it is run for,
and the pointers at the end. -/
def listForEachSafe
    (body : Ptr ι → ListHeads ι → Option (ListHeads ι))
    (head : Ptr ι) :
    Nat → Ptr ι → Ptr ι → ListHeads ι → Option (List (Ptr ι) × ListHeads ι)
  | 0, _, _, _ => none
  | fuel + 1, pos, n, k =>
      if pos = head then some ([], k)
      else do
        let k ← body pos k
        let next ← getNext n k
        let rest ← listForEachSafe body head fuel n next k
        some (pos :: rest.1, rest.2)

/-- The loop by which a node gets into a sorted list: before the first entry that is to come
behind it, or at the end. -/
def listInsert
    (behind : Ptr ι → Bool)
    (new head : Ptr ι)
    (k : ListHeads ι) :
    Nat → Ptr ι → Option (ListHeads ι)
  | 0, _ => none
  | fuel + 1, pos =>
      if pos = head then listAddTail new head k
      else if behind pos then do
        let prev ← getPrev pos k
        listAddBetween new prev pos k
      else do
        let next ← getNext pos k
        listInsert behind new head k fuel next

end Operations

/-- Rings whose nodes are all in memory. -/
structure Lists {ι : Type} (k : ListHeads ι) (rings : List (List (Ptr ι))) : Prop extends
    Holds k rings where
  valid : ∀ a ∈ rings.flatten, a.valid = true

section Assignments

variable {ι : Type} [DecidableEq ι] {k : ListHeads ι} {a b c h v : Ptr ι}

theorem initListHead_eq
    (hh : h.valid = true) :
    initListHead h k =
      some { next := Function.update k.next h h, prev := Function.update k.prev h h } := by
  simp [initListHead, setNext, setPrev, hh]

theorem listAddBetween_eq
    (ha : a.valid = true)
    (hb : b.valid = true)
    (hc : c.valid = true) :
    listAddBetween a b c k =
      some
        { next := Function.update (Function.update k.next a c) b a
          prev := Function.update (Function.update k.prev c a) a b } := by
  simp [listAddBetween, setNext, setPrev, ha, hb, hc]

theorem listDel_eq
    (ha : a.valid = true)
    (hprev : (k.prev a).valid = true)
    (hnext : (k.next a).valid = true) :
    listDel a k =
      some
        { next := Function.update (Function.update k.next (k.prev a) (k.next a)) a .poison1
          prev := Function.update (Function.update k.prev (k.next a) (k.prev a)) a .poison2 } := by
  simp [listDel, listDelBetween, getPrev, getNext, setNext, setPrev, ha, hprev, hnext]

/-- A node that has been taken out cannot be taken out again. -/
theorem listDel_poisoned
    (h : k.prev a = .poison2) :
    listDel a k = none := by
  unfold listDel getPrev
  split
  · rw [h]
    cases hnext : getNext a k with
    | none => simp
    | some next =>
        simp only [Option.bind_eq_bind, Option.bind_some, listDelBetween, setPrev, setNext]
        cases next <;> simp [Ptr.valid]
  · rfl

end Assignments

section Lists

variable {ι : Type} [DecidableEq ι] {k : ListHeads ι} {rings others : List (List (Ptr ι))}
variable {h n e : Ptr ι} {l l₁ l₂ : List (Ptr ι)}

omit [DecidableEq ι] in
theorem Lists.perm
    (hk : Lists k rings)
    (hperm : rings.Perm others) :
    Lists k others :=
  ⟨hk.toHolds.perm hperm, fun a ha => hk.valid a (hperm.flatten.mem_iff.mpr ha)⟩

omit [DecidableEq ι] in
theorem Lists.forget
    (hk : Lists k (l :: rings)) :
    Lists k rings :=
  ⟨hk.toHolds.forget, fun a ha => hk.valid a (by
    rw [List.flatten_cons]
    exact List.mem_append_right _ ha)⟩

/-- A new head gets an empty list. -/
theorem Lists.init
    (hk : Lists k rings)
    (hh : h.valid = true)
    (hfresh : h ∉ rings.flatten) :
    ∃ k', initListHead h k = some k' ∧ Lists k' ([h] :: rings) ∧ SameOutside [h] k k' := by
  have hsame : SameOutside [h] k
      { next := Function.update k.next h h, prev := Function.update k.prev h h } := by
    intro a ha
    have hne : a ≠ h := fun heq => ha (List.mem_singleton.mpr heq)
    exact ⟨Function.update_of_ne hne _ _, Function.update_of_ne hne _ _⟩
  refine ⟨_, initListHead_eq hh, ⟨hk.toHolds.change ?_ (by simp) ?_ ?_, ?_⟩, hsame⟩
  · exact ⟨by simp, by simp⟩
  · intro a ha
    exact List.mem_singleton.mp ha ▸ hfresh
  · exact fun a ha => hsame a fun hmem => hfresh (List.mem_singleton.mp hmem ▸ ha)
  · intro a ha
    rw [List.flatten_cons, List.singleton_append] at ha
    rcases List.mem_cons.mp ha with rfl | ha
    · exact hh
    · exact hk.valid a ha

/-- A node is put in before an entry of a ring. -/
theorem Lists.insert
    (l₁ : List (Ptr ι))
    (e : Ptr ι)
    (l₂ : List (Ptr ι))
    (hk : Lists k ((l₁ ++ e :: l₂) :: rings))
    (hn : n.valid = true)
    (hfresh : n ∉ ((l₁ ++ e :: l₂) :: rings).flatten) :
    ∃ k', listAddBetween n (k.prev e) e k = some k' ∧
      Lists k' ((l₁ ++ n :: e :: l₂) :: rings) ∧ SameOutside (l₁ ++ n :: e :: l₂) k k' := by
  obtain ⟨hring, hnodup, hapart⟩ := hk.toHolds.head
  have hturn : Ring k (e :: (l₂ ++ l₁)) := hring.rotate
  have hperm : (e :: (l₂ ++ l₁)).Perm (l₁ ++ e :: l₂) :=
    show ((e :: l₂) ++ l₁).Perm _ from List.perm_append_comm
  have hprev := hturn.prev
  have hmem : k.prev e ∈ l₁ ++ e :: l₂ := by
    rw [hprev]
    exact hperm.mem_iff.mp (List.getLast_mem _)
  have hvalid : ∀ a ∈ l₁ ++ e :: l₂, a.valid = true := fun a ha =>
    hk.valid a (by rw [List.flatten_cons]; exact List.mem_append_left _ ha)
  rw [List.flatten_cons, List.mem_append, not_or] at hfresh
  have hswap : (l₁ ++ n :: e :: l₂).Perm (n :: (l₁ ++ e :: l₂)) := List.perm_middle
  have hsame : SameOutside (l₁ ++ n :: e :: l₂) k
      { next := Function.update (Function.update k.next n e) (k.prev e) n
        prev := Function.update (Function.update k.prev e n) n (k.prev e) } := by
    intro a ha
    rw [hswap.mem_iff, List.mem_cons, not_or] at ha
    have hae : a ≠ e := fun heq => ha.2 (heq ▸ by simp)
    have hap : a ≠ k.prev e := fun heq => ha.2 (heq ▸ hmem)
    simp [Function.update_of_ne, ha.1, hae, hap]
  have hout : ∀ a ∈ l₁ ++ n :: e :: l₂, a ∉ rings.flatten := by
    intro a ha
    rcases List.mem_cons.mp (hswap.mem_iff.mp ha) with rfl | ha
    · exact hfresh.2
    · exact hapart a ha
  refine ⟨_, listAddBetween_eq hn (hvalid _ hmem) (hvalid e (by simp)), ⟨?_, ?_⟩, hsame⟩
  · refine hk.toHolds.forget.change ?_ ?_ hout fun a ha => hsame a fun hin => hout a hin ha
    · have hadd : Ring
          { next := Function.update (Function.update k.next n e) (k.prev e) n
            prev := Function.update (Function.update k.prev e n) n (k.prev e) }
          (e :: (l₂ ++ l₁ ++ [n])) := by
        refine hturn.insert (hperm.nodup_iff.mpr hnodup)
          (fun hin => hfresh.1 (hperm.mem_iff.mp hin)) ?_ ?_
        · intro a _
          rw [← hprev]
          simp only [Function.update_apply]
        · intro a _
          rw [← hprev]
          simp only [Function.update_apply]
      have hback := (show Ring _ ((e :: l₂) ++ (l₁ ++ [n])) by simpa using hadd).rotate
      simpa using hback
    · exact hswap.nodup_iff.mpr (List.nodup_cons.mpr ⟨hfresh.1, hnodup⟩)
  · intro a ha
    rw [List.flatten_cons] at ha
    rcases List.mem_append.mp ha with ha | ha
    · rcases List.mem_append.mp ha with ha | ha
      · exact hvalid a (List.mem_append_left _ ha)
      · rcases List.mem_cons.mp ha with rfl | ha
        · exact hn
        · exact hvalid a (List.mem_append_right _ ha)
    · exact hk.valid a (by rw [List.flatten_cons]; exact List.mem_append_right _ ha)

/-- An entry is put in behind the head. -/
theorem Lists.add
    (hk : Lists k ((h :: l) :: rings))
    (hn : n.valid = true)
    (hfresh : n ∉ ((h :: l) :: rings).flatten) :
    ∃ k', listAdd n h k = some k' ∧ Lists k' ((h :: n :: l) :: rings) ∧
      SameOutside (h :: n :: l) k k' := by
  have hh : h.valid = true := hk.valid h (by simp)
  have hring := hk.ring (h :: l) List.mem_cons_self
  have hnext := hring.next
  cases l with
  | nil =>
      -- the entry behind the head is the head
      obtain ⟨k', hk', hlists, hsame⟩ := Lists.insert [] h [] hk hn hfresh
      have hprev : k.prev h = h := hring.prev
      have hback : k.next h = h := hnext
      refine ⟨k', ?_, ?_, fun a ha => hsame a (by simpa [or_comm] using ha)⟩
      · rw [← hk', listAdd, getNext, if_pos hh]
        simp [hback, hprev]
      · have hturn : Ring k' ([n] ++ [h]) := hlists.ring _ List.mem_cons_self
        refine ⟨hlists.toHolds.forget.change hturn.rotate ?_ ?_ fun _ _ => ⟨rfl, rfl⟩, ?_⟩
        · have hnodup := hlists.toHolds.head.2.1
          simpa [eq_comm] using hnodup
        · intro a ha
          exact hlists.toHolds.head.2.2 a (by simpa [or_comm] using ha)
        · intro a ha
          exact hlists.valid a (by simpa [or_comm, or_assoc, or_left_comm] using ha)
  | cons z l =>
      have hnext : k.next h = z := hnext
      have hprev : k.prev z = h := ((show Ring k ([h] ++ z :: l) from hring).rotate).prev.trans (by simp)
      obtain ⟨k', hk', hlists, hsame⟩ := Lists.insert [h] z l hk hn hfresh
      refine ⟨k', ?_, hlists, hsame⟩
      rw [← hk', listAdd, getNext, if_pos hh]
      simp [hnext, hprev]

/-- An entry is put in before the head. -/
theorem Lists.addTail
    (hk : Lists k ((h :: l) :: rings))
    (hn : n.valid = true)
    (hfresh : n ∉ ((h :: l) :: rings).flatten) :
    ∃ k', listAddTail n h k = some k' ∧ Lists k' ((h :: (l ++ [n])) :: rings) ∧
      SameOutside (h :: (l ++ [n])) k k' := by
  have hh : h.valid = true := hk.valid h (by simp)
  have hperm : (h :: (l ++ [n])).Perm (n :: h :: l) :=
    show ((h :: l) ++ [n]).Perm _ from List.perm_append_comm
  obtain ⟨k', hk', hlists, hsame⟩ := Lists.insert [] h l hk hn hfresh
  refine ⟨k', ?_, ?_, fun a ha => hsame a fun hin => ha (hperm.mem_iff.mpr hin)⟩
  · rw [← hk', listAddTail, getPrev, if_pos hh]
    rfl
  · have hturn : Ring k' ([n] ++ (h :: l)) := hlists.ring _ List.mem_cons_self
    refine ⟨hlists.toHolds.forget.change hturn.rotate ?_ ?_ fun _ _ => ⟨rfl, rfl⟩, ?_⟩
    · exact hperm.nodup_iff.mpr hlists.toHolds.head.2.1
    · intro a ha
      exact hlists.toHolds.head.2.2 a (hperm.mem_iff.mp ha)
    · intro a ha
      refine hlists.valid a ?_
      rw [List.flatten_cons] at ha ⊢
      rcases List.mem_append.mp ha with ha | ha
      · exact List.mem_append_left _ (hperm.mem_iff.mp ha)
      · exact List.mem_append_right _ ha

/-- An entry is taken out. -/
theorem Lists.del
    (hk : Lists k ((l₁ ++ e :: l₂) :: rings))
    (hne : l₁ ++ l₂ ≠ []) :
    ∃ k', listDel e k = some k' ∧ Lists k' ((l₁ ++ l₂) :: rings) ∧
      SameOutside (l₁ ++ e :: l₂) k k' ∧ k'.prev e = .poison2 := by
  obtain ⟨hring, hnodup, hapart⟩ := hk.toHolds.head
  have hturn : Ring k (e :: (l₂ ++ l₁)) := hring.rotate
  have hperm : (e :: (l₂ ++ l₁)).Perm (l₁ ++ e :: l₂) :=
    show ((e :: l₂) ++ l₁).Perm _ from List.perm_append_comm
  obtain ⟨z, m, hzm⟩ : ∃ z m, l₂ ++ l₁ = z :: m :=
    List.exists_cons_of_ne_nil fun hnil => hne (by simpa [and_comm] using hnil)
  have hprev := hturn.prev
  have hnext := hturn.next
  have hnodup' := hperm.nodup_iff.mpr hnodup
  rw [hzm] at hturn hperm hnext hprev hnodup'
  have hnext : k.next e = z := hnext
  have hlast : k.prev e = (z :: m).getLast (List.cons_ne_nil z m) := by
    rw [hprev, List.getLast_cons (List.cons_ne_nil z m)]
  have hvalid : ∀ a ∈ l₁ ++ e :: l₂, a.valid = true := fun a ha =>
    hk.valid a (by rw [List.flatten_cons]; exact List.mem_append_left _ ha)
  have hz : z ∈ l₁ ++ e :: l₂ := hperm.mem_iff.mp (by simp)
  have hp : k.prev e ∈ l₁ ++ e :: l₂ := by
    rw [hlast]
    exact hperm.mem_iff.mp (List.mem_cons_of_mem _ (List.getLast_mem _))
  have hsub : ∀ a ∈ l₁ ++ l₂, a ∈ l₁ ++ e :: l₂ := fun a ha => by
    rcases List.mem_append.mp ha with ha | ha
    · exact List.mem_append_left _ ha
    · exact List.mem_append_right _ (List.mem_cons_of_mem _ ha)
  have hsame : SameOutside (l₁ ++ e :: l₂) k
      { next := Function.update (Function.update k.next (k.prev e) (k.next e)) e .poison1
        prev := Function.update (Function.update k.prev (k.next e) (k.prev e)) e .poison2 } := by
    intro a ha
    have hae : a ≠ e := fun heq => ha (heq ▸ by simp)
    have hap : a ≠ k.prev e := fun heq => ha (heq ▸ hp)
    have haz : a ≠ k.next e := fun heq => ha (heq ▸ hnext ▸ hz)
    simp [Function.update_of_ne, hae, hap, haz]
  refine ⟨_, listDel_eq (hvalid e (by simp)) (hvalid _ hp) (hnext ▸ hvalid z hz), ⟨?_, ?_⟩, hsame,
    by simp⟩
  · refine hk.toHolds.forget.change ?_ ?_ (fun a ha => hapart a (hsub a ha))
      fun a ha => hsame a fun hin => hapart a hin ha
    · have hdel : Ring
          { next := Function.update (Function.update k.next (k.prev e) (k.next e)) e .poison1
            prev := Function.update (Function.update k.prev (k.next e) (k.prev e)) e .poison2 }
          (z :: m) := by
        have hother : ∀ a ∈ z :: m, a ≠ e := fun a ha heq =>
          (List.nodup_cons.mp hnodup').1 (heq ▸ ha)
        refine hturn.remove hnodup' ?_ ?_
        · intro a ha
          rw [← hlast, hnext]
          simp only [Function.update_apply, if_neg (hother a ha)]
        · intro a ha
          rw [← hlast, hnext]
          simp only [Function.update_apply, if_neg (hother a ha)]
      rw [← hzm] at hdel
      exact hdel.rotate
    · have hsublist : (l₁ ++ l₂).Sublist (l₁ ++ e :: l₂) :=
        (List.sublist_cons_self e l₂).append_left l₁
      exact hnodup.sublist hsublist
  · intro a ha
    rw [List.flatten_cons] at ha
    rcases List.mem_append.mp ha with ha | ha
    · exact hvalid a (hsub a ha)
    · exact hk.valid a (by rw [List.flatten_cons]; exact List.mem_append_right _ ha)

/-- A node that is alone is taken out of its own ring. -/
theorem Lists.delAlone
    (hk : Lists k ([e] :: rings)) :
    ∃ k', listDel e k = some k' ∧ Lists k' rings ∧ SameOutside [e] k k' ∧
      k'.prev e = .poison2 := by
  obtain ⟨hring, -, hapart⟩ := hk.toHolds.head
  have he : e.valid = true := hk.valid e (by simp)
  have hprev : k.prev e = e := hring.prev
  have hnext : k.next e = e := hring.next
  have hsame : SameOutside [e] k
      { next := Function.update (Function.update k.next (k.prev e) (k.next e)) e .poison1
        prev := Function.update (Function.update k.prev (k.next e) (k.prev e)) e .poison2 } := by
    intro a ha
    have hae : a ≠ e := fun heq => ha (List.mem_singleton.mpr heq)
    rw [hprev, hnext]
    simp [Function.update_of_ne, hae]
  refine ⟨_, listDel_eq he (by rwa [hprev]) (by rwa [hnext]),
    ⟨⟨fun c hc => ?_, hk.forget.nodup⟩, hk.forget.valid⟩, hsame, by simp⟩
  exact (hk.forget.ring c hc).congr fun a ha =>
    hsame a fun hin => hapart a hin (List.mem_flatten_of_mem hc ha)

end Lists

section Loops

variable {ι : Type} [DecidableEq ι] {k : ListHeads ι} {rings : List (List (Ptr ι))}
variable {h n x y : Ptr ι} {l : List (Ptr ι)} {fuel : Nat}

omit [DecidableEq ι] in
/-- What is known of the entry at a place of a list. -/
theorem Lists.entry
    {pre todo : List (Ptr ι)}
    (hk : Lists k ((h :: (pre ++ x :: todo)) :: rings)) :
    x.valid = true ∧ x ≠ h ∧ k.next x = todo.head?.getD h ∧
      k.prev x = (h :: pre).getLast (List.cons_ne_nil h pre) := by
  have hring : Ring k ((h :: pre) ++ x :: todo) := hk.ring _ List.mem_cons_self
  have hnodup := hk.toHolds.head.2.1
  refine ⟨hk.valid x (by simp), ?_, ?_, ?_⟩
  · rintro rfl
    exact (List.nodup_cons.mp hnodup).1 (by simp)
  · have hnext := hring.rotate.next
    rw [hnext]
    cases todo <;> rfl
  · obtain ⟨hseg, -⟩ := seg_append.mp (show Seg k h (pre ++ x :: todo) h from hring)
    exact hseg.prev

omit [DecidableEq ι] in
theorem Lists.head
    (hk : Lists k ((h :: l) :: rings)) :
    h.valid = true ∧ k.next h = l.head?.getD h ∧
      k.prev h = (h :: l).getLast (List.cons_ne_nil h l) := by
  have hring := hk.ring (h :: l) List.mem_cons_self
  exact ⟨hk.valid h (by simp), hring.next, hring.prev⟩

/-- The loop goes over the entries that are left. -/
theorem listForEach_of_lists
    (pre : List (Ptr ι))
    {todo : List (Ptr ι)}
    (hk : Lists k ((h :: (pre ++ todo)) :: rings))
    (hfuel : todo.length < fuel) :
    listForEach h k fuel (todo.head?.getD h) = some todo := by
  induction todo generalizing pre fuel with
  | nil =>
      obtain ⟨fuel, rfl⟩ : ∃ m, fuel = m + 1 := ⟨fuel - 1, by simp at hfuel; omega⟩
      simp [listForEach]
  | cons x todo ih =>
      obtain ⟨fuel, rfl⟩ : ∃ m, fuel = m + 1 := ⟨fuel - 1, by simp at hfuel; omega⟩
      obtain ⟨hvalid, hne, hnext, -⟩ := hk.entry
      have hrest := ih (pre ++ [x]) (by simpa using hk) (by simp at hfuel; omega)
      have hpos : ((x :: todo).head?.getD h) = x := rfl
      rw [hpos, listForEach, if_neg hne, getNext, if_pos hvalid, hnext]
      simp [hrest]

/-- The same backwards. -/
theorem listForEachPrev_of_lists
    (done : List (Ptr ι))
    {todo : List (Ptr ι)}
    (hk : Lists k ((h :: (todo.reverse ++ done)) :: rings))
    (hfuel : todo.length < fuel) :
    listForEachPrev h k fuel (todo.head?.getD h) = some todo := by
  induction todo generalizing done fuel with
  | nil =>
      obtain ⟨fuel, rfl⟩ : ∃ m, fuel = m + 1 := ⟨fuel - 1, by simp at hfuel; omega⟩
      simp [listForEachPrev]
  | cons x todo ih =>
      obtain ⟨fuel, rfl⟩ : ∃ m, fuel = m + 1 := ⟨fuel - 1, by simp at hfuel; omega⟩
      have hk' : Lists k ((h :: (todo.reverse ++ x :: done)) :: rings) := by simpa using hk
      obtain ⟨hvalid, hne, -, hprev⟩ := hk'.entry
      have hrest := ih (x :: done) hk' (by simp at hfuel; omega)
      have hback : k.prev x = todo.head?.getD h := by
        rw [hprev]
        cases todo with
        | nil => rfl
        | cons z todo => simp
      have hpos : ((x :: todo).head?.getD h) = x := rfl
      rw [hpos, listForEachPrev, if_neg hne, getPrev, if_pos hvalid, hback]
      simp [hrest]

/-- A loop that is safe against removal, with what its body keeps: the entries it has left in the
list, and those that it has still to go over. -/
theorem listForEachSafe_rule
    (body : Ptr ι → ListHeads ι → Option (ListHeads ι))
    (Inv : List (Ptr ι) → List (Ptr ι) → ListHeads ι → Prop)
    (hlists : ∀ pre todo k, Inv pre todo k → ∃ rings, Lists k ((h :: (pre ++ todo)) :: rings))
    (hbody : ∀ pre pos todo k, Inv pre (pos :: todo) k →
      ∃ k' pre', body pos k = some k' ∧ Inv pre' todo k')
    (pre todo : List (Ptr ι))
    (hk : Inv pre todo k)
    (hfuel : todo.length < fuel) :
    ∃ k' pre', listForEachSafe body h fuel (todo.head?.getD h) (k.next (todo.head?.getD h)) k =
      some (todo, k') ∧ Inv pre' [] k' := by
  induction todo generalizing pre k fuel with
  | nil =>
      obtain ⟨fuel, rfl⟩ : ∃ m, fuel = m + 1 := ⟨fuel - 1, by simp at hfuel; omega⟩
      exact ⟨k, pre, by simp [listForEachSafe], hk⟩
  | cons x todo ih =>
      obtain ⟨fuel, rfl⟩ : ∃ m, fuel = m + 1 := ⟨fuel - 1, by simp at hfuel; omega⟩
      obtain ⟨others, hold⟩ := hlists _ _ _ hk
      obtain ⟨-, hne, hnext, -⟩ := hold.entry
      obtain ⟨k', pre', hrun, hinv⟩ := hbody _ _ _ _ hk
      obtain ⟨others', hnew⟩ := hlists _ _ _ hinv
      have hvalid : (todo.head?.getD h).valid = true := by
        refine hnew.valid _ ?_
        cases todo with
        | nil => simp
        | cons z todo => simp
      obtain ⟨k'', pre'', hrest, hend⟩ := ih pre' hinv (by simp at hfuel; omega)
      refine ⟨k'', pre'', ?_, hend⟩
      have hpos : ((x :: todo).head?.getD h) = x := rfl
      rw [hpos, hnext, listForEachSafe, if_neg hne, hrun]
      simp [getNext, hvalid, hrest]

/-- The body may take entries out: it is run for all of them all the same. -/
theorem listForEachSafe_del
    (takeOut : Ptr ι → Bool)
    (hk : Lists k ((h :: l) :: rings))
    (hfuel : l.length < fuel) :
    ∃ k', listForEachSafe (fun pos k => if takeOut pos then listDel pos k else some k) h fuel
        (k.next h) (k.next (k.next h)) k = some (l, k') ∧
      Lists k' ((h :: l.filter fun pos => !takeOut pos) :: rings) := by
  obtain ⟨k', pre, hrun, hinv, seen, hseen, rfl⟩ := listForEachSafe_rule
    (fun pos k => if takeOut pos then listDel pos k else some k)
    (fun pre todo k => Lists k ((h :: (pre ++ todo)) :: rings) ∧
      ∃ seen, l = seen ++ todo ∧ pre = seen.filter fun pos => !takeOut pos)
    (fun _ _ _ hinv => ⟨rings, hinv.1⟩)
    (by
      rintro pre pos todo k ⟨hinv, seen, rfl, rfl⟩
      cases hout : takeOut pos with
      | true =>
          obtain ⟨k', hdel, hnew, -⟩ := Lists.del
            (show Lists k ((h :: seen.filter (fun pos => !takeOut pos) ++ pos :: todo) :: rings)
              from hinv) (by simp)
          refine ⟨k', _, by simpa [hout] using hdel, hnew, seen ++ [pos], by simp, ?_⟩
          simp [hout]
      | false =>
          refine ⟨k, _, by simp, ?_, seen ++ [pos], by simp, rfl⟩
          simpa [hout] using hinv)
    [] l ⟨hk, [], rfl, rfl⟩ hfuel
  have hseen : l = seen := by simpa using hseen
  subst hseen
  refine ⟨k', ?_, by simpa using hinv⟩
  rw [hk.head.2.1]
  exact hrun

/-- The insertion loop: the new entry is in front of the first one that is to come behind it. -/
theorem listInsert_of_lists
    (behind : Ptr ι → Bool)
    (pre : List (Ptr ι))
    {todo : List (Ptr ι)}
    (hk : Lists k ((h :: (pre ++ todo)) :: rings))
    (hn : n.valid = true)
    (hfresh : n ∉ ((h :: (pre ++ todo)) :: rings).flatten)
    (hfuel : todo.length < fuel) :
    ∃ k', listInsert behind n h k fuel (todo.head?.getD h) = some k' ∧
      Lists k' ((h :: (pre ++ (todo.takeWhile (fun pos => !behind pos) ++
        n :: todo.dropWhile (fun pos => !behind pos)))) :: rings) ∧
      SameOutside (n :: h :: (pre ++ todo)) k k' := by
  induction todo generalizing pre fuel with
  | nil =>
      obtain ⟨fuel, rfl⟩ : ∃ m, fuel = m + 1 := ⟨fuel - 1, by simp at hfuel; omega⟩
      rw [List.append_nil] at hk hfresh
      obtain ⟨k', hadd, hnew, hsame⟩ := hk.addTail hn hfresh
      refine ⟨k', by simpa [listInsert] using hadd, by simpa using hnew, fun a ha => hsame a ?_⟩
      simpa [or_comm, or_left_comm] using ha
  | cons x todo ih =>
      obtain ⟨fuel, rfl⟩ : ∃ m, fuel = m + 1 := ⟨fuel - 1, by simp at hfuel; omega⟩
      obtain ⟨hvalid, hne, hnext, -⟩ := hk.entry
      have hpos : ((x :: todo).head?.getD h) = x := rfl
      rw [hpos, listInsert, if_neg hne]
      cases hbehind : behind x with
      | true =>
          obtain ⟨k', hadd, hnew, hsame⟩ := Lists.insert (h :: pre) x todo hk hn hfresh
          refine ⟨k', by simpa [getPrev, hvalid] using hadd, ?_, fun a ha => hsame a fun hin => ha ?_⟩
          · simpa [List.takeWhile_cons, List.dropWhile_cons, hbehind] using hnew
          · have hperm : (h :: pre ++ n :: x :: todo).Perm (n :: (h :: pre ++ x :: todo)) :=
              List.perm_middle
            simpa using hperm.mem_iff.mp hin
      | false =>
          obtain ⟨k', hins, hnew, hsame⟩ := ih (pre ++ [x]) (by simpa using hk)
            (by simpa using hfresh) (by simp at hfuel; omega)
          refine ⟨k', by simpa [getNext, hvalid, hnext] using hins, ?_, by simpa using hsame⟩
          simpa [List.takeWhile_cons, List.dropWhile_cons, hbehind] using hnew

end Loops

section Runs

variable {ι : Type} [DecidableEq ι]

/-- What is done to lists. -/
inductive ListOp (ι : Type)
  | init (head : Ptr ι)
  | add (new head : Ptr ι)
  | addTail (new head : Ptr ι)
  /-- `__list_add(new, pos->prev, pos)`. -/
  | addBefore (new pos : Ptr ι)
  | insert (behind : Ptr ι → Bool) (new head : Ptr ι) (fuel : Nat)
  | del (entry : Ptr ι)
  /-- A safe loop that takes out entries. -/
  | delEach (takeOut : Ptr ι → Bool) (head : Ptr ι) (fuel : Nat)

/-- One operation. -/
def ListOp.exec (k : ListHeads ι) : ListOp ι → Option (ListHeads ι)
  | init head => initListHead head k
  | add new head => listAdd new head k
  | addTail new head => listAddTail new head k
  | addBefore new pos => (getPrev pos k).bind fun prev => listAddBetween new prev pos k
  | insert behind new head fuel =>
      (getNext head k).bind fun pos => listInsert behind new head k fuel pos
  | del entry => listDel entry k
  | delEach takeOut head fuel =>
      (getNext head k).bind fun pos =>
        (getNext pos k).bind fun n =>
          (listForEachSafe (fun pos k => if takeOut pos then listDel pos k else some k)
            head fuel pos n k).map Prod.snd

/-- A node that may be put into a list: it is in none, or alone in its own ring. -/
def Free (n : Ptr ι) (rings others : List (List (Ptr ι))) : Prop :=
  n.valid = true ∧ (n ∉ rings.flatten ∧ rings.Perm others ∨ rings.Perm ([n] :: others))

/-- What an operation does to the lists, and when it may be used. -/
inductive ListOp.Spec :
    ListOp ι → List (List (Ptr ι)) → List (List (Ptr ι)) → Prop
  | init
      {h : Ptr ι} {rings others : List (List (Ptr ι))}
      (hfree : Free h rings others) :
      Spec (init h) rings ([h] :: others)
  | add
      {n h : Ptr ι} {l : List (Ptr ι)} {rings others : List (List (Ptr ι))}
      (hfree : Free n rings ((h :: l) :: others)) :
      Spec (add n h) rings ((h :: n :: l) :: others)
  | addTail
      {n h : Ptr ι} {l : List (Ptr ι)} {rings others : List (List (Ptr ι))}
      (hfree : Free n rings ((h :: l) :: others)) :
      Spec (addTail n h) rings ((h :: (l ++ [n])) :: others)
  | addBefore
      {n h e : Ptr ι} {l₁ l₂ : List (Ptr ι)} {rings others : List (List (Ptr ι))}
      (hfree : Free n rings ((h :: (l₁ ++ e :: l₂)) :: others)) :
      Spec (addBefore n e) rings ((h :: (l₁ ++ n :: e :: l₂)) :: others)
  | insert
      {behind : Ptr ι → Bool} {n h : Ptr ι} {l : List (Ptr ι)} {fuel : Nat}
      {rings others : List (List (Ptr ι))}
      (hfree : Free n rings ((h :: l) :: others))
      (hfuel : l.length < fuel) :
      Spec (insert behind n h fuel) rings
        ((h :: (l.takeWhile (fun pos => !behind pos) ++
          n :: l.dropWhile (fun pos => !behind pos))) :: others)
  | del
      {h e : Ptr ι} {l₁ l₂ : List (Ptr ι)} {rings others : List (List (Ptr ι))}
      (hperm : rings.Perm ((h :: (l₁ ++ e :: l₂)) :: others)) :
      Spec (del e) rings ((h :: (l₁ ++ l₂)) :: others)
  | delAlone
      {e : Ptr ι} {rings others : List (List (Ptr ι))}
      (hperm : rings.Perm ([e] :: others)) :
      Spec (del e) rings others
  | delEach
      {takeOut : Ptr ι → Bool} {h : Ptr ι} {l : List (Ptr ι)} {fuel : Nat}
      {rings others : List (List (Ptr ι))}
      (hperm : rings.Perm ((h :: l) :: others))
      (hfuel : l.length < fuel) :
      Spec (delEach takeOut h fuel) rings ((h :: l.filter fun pos => !takeOut pos) :: others)

/-- Operations one after the other, each used as it may be. -/
inductive ListRun : List (ListOp ι) → List (List (Ptr ι)) → List (List (Ptr ι)) → Prop
  | nil {rings : List (List (Ptr ι))} : ListRun [] rings rings
  | cons
      {op : ListOp ι} {ops : List (ListOp ι)} {rings mid rings' : List (List (Ptr ι))}
      (hop : op.Spec rings mid)
      (hops : ListRun ops mid rings') :
      ListRun (op :: ops) rings rings'

variable {k : ListHeads ι} {rings rings' others : List (List (Ptr ι))} {n : Ptr ι}

omit [DecidableEq ι] in
theorem Lists.of_free
    (hk : Lists k rings)
    (hfree : Free n rings others) :
    Lists k others ∧ n ∉ others.flatten := by
  obtain ⟨-, ⟨hfresh, hperm⟩ | hperm⟩ := hfree
  · exact ⟨hk.perm hperm, fun hmem => hfresh (hperm.flatten.mem_iff.mpr hmem)⟩
  · have hall := hk.perm hperm
    exact ⟨hall.forget, hall.toHolds.head.2.2 n (by simp)⟩

/-- An operation that is used as it may be does not fault, and does what it is for. -/
theorem Lists.exec
    {op : ListOp ι}
    (hk : Lists k rings)
    (hop : op.Spec rings rings') :
    ∃ k', op.exec k = some k' ∧ Lists k' rings' := by
  cases hop with
  | init hfree =>
      obtain ⟨hothers, hfresh⟩ := hk.of_free hfree
      obtain ⟨k', hinit, hnew, -⟩ := hothers.init hfree.1 hfresh
      exact ⟨k', hinit, hnew⟩
  | add hfree =>
      obtain ⟨hothers, hfresh⟩ := hk.of_free hfree
      obtain ⟨k', hadd, hnew, -⟩ := hothers.add hfree.1 hfresh
      exact ⟨k', hadd, hnew⟩
  | addTail hfree =>
      obtain ⟨hothers, hfresh⟩ := hk.of_free hfree
      obtain ⟨k', hadd, hnew, -⟩ := hothers.addTail hfree.1 hfresh
      exact ⟨k', hadd, hnew⟩
  | @addBefore n h e l₁ l₂ _ others hfree =>
      obtain ⟨hothers, hfresh⟩ := hk.of_free hfree
      obtain ⟨k', hadd, hnew, -⟩ := Lists.insert (h :: l₁) e l₂ hothers hfree.1 hfresh
      refine ⟨k', ?_, hnew⟩
      rw [ListOp.exec, getPrev, if_pos hothers.entry.1]
      exact hadd
  | insert hfree hfuel =>
      obtain ⟨hothers, hfresh⟩ := hk.of_free hfree
      obtain ⟨k', hins, hnew, -⟩ := listInsert_of_lists _ [] hothers hfree.1 hfresh hfuel
      refine ⟨k', ?_, hnew⟩
      obtain ⟨hvalid, hnext, -⟩ := hothers.head
      rw [ListOp.exec, getNext, if_pos hvalid, hnext]
      exact hins
  | @del h e l₁ l₂ _ others hperm =>
      obtain ⟨k', hdel, hnew, -⟩ := Lists.del
        (show Lists k ((h :: l₁ ++ e :: l₂) :: others) from hk.perm hperm) (by simp)
      exact ⟨k', hdel, hnew⟩
  | delAlone hperm =>
      obtain ⟨k', hdel, hnew, -⟩ := (hk.perm hperm).delAlone
      exact ⟨k', hdel, hnew⟩
  | @delEach takeOut h l fuel _ others hperm hfuel =>
      have hall := hk.perm hperm
      obtain ⟨k', hrun, hnew⟩ := listForEachSafe_del takeOut hall hfuel
      refine ⟨k', ?_, hnew⟩
      obtain ⟨hvalid, hnext, -⟩ := hall.head
      have hfirst : (k.next h).valid = true := by
        rw [hnext]
        cases l with
        | nil => exact hvalid
        | cons z l => exact hall.valid z (by simp)
      rw [ListOp.exec, getNext, if_pos hvalid, Option.bind_some, getNext, if_pos hfirst,
        Option.bind_some, hrun]
      rfl

/-- What the tests and loops of `list.h` see of a list. -/
structure SeenAs (k : ListHeads ι) (h : Ptr ι) (l : List (Ptr ι)) : Prop where
  empty : listEmpty h k = some (decide (l = []))
  last : ∀ e ∈ l, listIsLast e h k = some (decide (l.getLast? = some e))
  forward : ∀ fuel, l.length < fuel →
    ((getNext h k).bind fun pos => listForEach h k fuel pos) = some l
  backward : ∀ fuel, l.length < fuel →
    ((getPrev h k).bind fun pos => listForEachPrev h k fuel pos) = some l.reverse

theorem Lists.seenAs
    {h : Ptr ι} {l : List (Ptr ι)}
    (hk : Lists k ((h :: l) :: rings)) :
    SeenAs k h l := by
  obtain ⟨hvalid, hnext, hprev⟩ := hk.head
  have hnodup := hk.toHolds.head.2.1
  constructor
  case empty =>
    rw [listEmpty, getNext, if_pos hvalid, hnext]
    cases l with
    | nil => simp
    | cons z l =>
        have hne : z ≠ h := by
          rintro rfl
          exact (List.nodup_cons.mp hnodup).1 (by simp)
        simp [hne]
  case last =>
    intro e he
    obtain ⟨pre, post, rfl⟩ := List.append_of_mem he
    obtain ⟨hev, hne, hen, -⟩ := hk.entry
    rw [listIsLast, getNext, if_pos hev, hen]
    cases post with
    | nil => simp
    | cons z post =>
        have hz : z ≠ h := by
          rintro rfl
          exact (List.nodup_cons.mp hnodup).1 (by simp)
        have hlast : (z :: post).getLast? ≠ some e := by
          intro hsome
          have hinner := (List.nodup_append.mp (List.nodup_cons.mp hnodup).2).2.1
          exact (List.nodup_cons.mp hinner).1 (List.mem_of_getLast? hsome)
        simp [hz, hlast]
  case forward =>
    intro fuel hfuel
    rw [getNext, if_pos hvalid, Option.bind_some, hnext]
    exact listForEach_of_lists [] hk hfuel
  case backward =>
    intro fuel hfuel
    have hback : k.prev h = l.reverse.head?.getD h := by
      rw [hprev, List.head?_reverse]
      cases l with
      | nil => rfl
      | cons z l =>
          rw [List.getLast_cons (List.cons_ne_nil z l),
            List.getLast?_eq_some_getLast (List.cons_ne_nil z l)]
          rfl
    rw [getPrev, if_pos hvalid, Option.bind_some, hback]
    exact listForEachPrev_of_lists [] (by simpa using hk) (by simpa using hfuel)

/-- After any run of operations that are used as they may be, without a fault, the tests and the
loops see of each list the entries that have been put there and not been taken out, in their
order. -/
theorem lists_run
    {ops : List (ListOp ι)}
    (k : ListHeads ι)
    (hrun : ListRun ops [] rings) :
    ∃ k', ops.foldlM (fun k op => op.exec k) k = some k' ∧
      ∀ h l, h :: l ∈ rings → SeenAs k' h l := by
  suffices hall : ∀ start, Lists k start → ListRun ops start rings →
      ∃ k', ops.foldlM (fun k op => op.exec k) k = some k' ∧ Lists k' rings by
    obtain ⟨k', hexec, hlists⟩ := hall [] ⟨⟨by simp, List.nodup_nil⟩, by simp⟩ hrun
    refine ⟨k', hexec, fun h l hmem => ?_⟩
    obtain ⟨pre, post, rfl⟩ := List.append_of_mem hmem
    exact (hlists.perm List.perm_middle).seenAs
  clear hrun
  intro start hstart hrun
  induction hrun generalizing k with
  | nil => exact ⟨k, rfl, hstart⟩
  | cons hop _ ih =>
      obtain ⟨k₁, hk₁, hlists⟩ := hstart.exec hop
      obtain ⟨k', hexec, hend⟩ := ih k₁ hlists
      exact ⟨k', by rw [List.foldlM_cons, hk₁]; exact hexec, hend⟩

/-- Three entries, of which the one in the middle is taken out again. -/
theorem lists_run_del :
    ∃ k' : ListHeads Nat,
      [ListOp.init (.node 0), .addTail (.node 1) (.node 0), .add (.node 2) (.node 0),
        .addBefore (.node 3) (.node 1), .del (.node 3)].foldlM (fun k op => op.exec k)
          ⟨id, id⟩ = some k' ∧
      ∀ h l, h :: l ∈ [[Ptr.node 0, .node 2, .node 1]] → SeenAs k' h l := by
  refine lists_run ⟨id, id⟩ ?_
  have hnew : ∀ n rings, (Ptr.node n : Ptr Nat) ∉ rings.flatten →
      Free (Ptr.node n) rings rings := fun n rings hfresh => ⟨rfl, .inl ⟨hfresh, .refl _⟩⟩
  refine .cons (.init (hnew 0 [] (by decide))) ?_
  refine .cons (.addTail (hnew 1 [[.node 0]] (by decide))) ?_
  refine .cons (.add (hnew 2 [[.node 0, .node 1]] (by decide))) ?_
  refine .cons (@ListOp.Spec.addBefore Nat (.node 3) (.node 0) (.node 1) [.node 2] [] _ _
    (hnew 3 [[.node 0, .node 2, .node 1]] (by decide))) ?_
  exact .cons (@ListOp.Spec.del Nat (.node 0) (.node 3) [.node 2] [.node 1] _ _ (.refl _)) .nil

end Runs

end Kernel
end Obix
