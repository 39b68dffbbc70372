import Mathlib.Data.List.Nodup
import Mathlib.Data.List.Basic
import Mathlib.Tactic.Cases

/-!
# Rings of pointers

A circular doubly linked list is a ring: the pointers of each node lead to its neighbours, and
those of the last node back to the first one.  The rules say which pointers have to change when a
node is put into a ring or taken out of it, and that a ring does not notice what happens to nodes
outside it.  A memory holds several rings at once if none of their nodes are the same (`Holds`).
-/

namespace Rings

variable {α : Type}

/-- The pointers of all nodes. -/
structure Pointers (α : Type) where
  next : α → α
  prev : α → α

/-- From one node through others to a last one, along the pointers and back. -/
def Seg (k : Pointers α) : α → List α → α → Prop
  | x, [], y => k.next x = y ∧ k.prev y = x
  | x, z :: l, y => k.next x = z ∧ k.prev z = x ∧ Seg k z l y

/-- The nodes of a ring, from one of them on. -/
def Ring (k : Pointers α) : List α → Prop
  | [] => False
  | x :: l => Seg k x l x

/-- Rings without common nodes. -/
structure Holds (k : Pointers α) (rings : List (List α)) : Prop where
  ring : ∀ c ∈ rings, Ring k c
  nodup : rings.flatten.Nodup

/-- Only nodes of `c` have other pointers than before. -/
def SameOutside (c : List α) (k k' : Pointers α) : Prop :=
  ∀ a, a ∉ c → k'.next a = k.next a ∧ k'.prev a = k.prev a

section Segments

variable {k k' : Pointers α} {x y z w : α} {l m : List α}

theorem seg_append :
    Seg k x (l ++ z :: m) y ↔ Seg k x l z ∧ Seg k z m y := by
  induction l generalizing x with
  | nil => simp [Seg, and_assoc]
  | cons a l ih => simp [Seg, ih, and_assoc]

theorem Seg.congr
    (h : Seg k x l y)
    (hnext : ∀ a ∈ x :: l, k'.next a = k.next a)
    (hprev : ∀ a ∈ l ++ [y], k'.prev a = k.prev a) :
    Seg k' x l y := by
  induction l generalizing x with
  | nil =>
      obtain ⟨hn, hp⟩ := h
      exact ⟨by rw [hnext x (by simp), hn], by rw [hprev y (by simp), hp]⟩
  | cons z l ih =>
      obtain ⟨hn, hp, hrest⟩ := h
      refine ⟨by rw [hnext x (by simp), hn], by rw [hprev z (by simp), hp], ih hrest ?_ ?_⟩
      · exact fun a ha => hnext a (List.mem_cons_of_mem _ ha)
      · exact fun a ha => hprev a (List.mem_cons_of_mem _ ha)

/-- The last node of a segment gets another successor. -/
theorem Seg.retarget
    (h : Seg k x l y)
    (hnodup : (x :: l).Nodup)
    (hlast : k'.next ((x :: l).getLast (List.cons_ne_nil x l)) = w)
    (hback : k'.prev w = (x :: l).getLast (List.cons_ne_nil x l))
    (hnext : ∀ a ∈ x :: l, a ≠ (x :: l).getLast (List.cons_ne_nil x l) → k'.next a = k.next a)
    (hprev : ∀ a ∈ l, k'.prev a = k.prev a) :
    Seg k' x l w := by
  induction l generalizing x with
  | nil => exact ⟨hlast, hback⟩
  | cons z l ih =>
      obtain ⟨hn, hp, hrest⟩ := h
      have hx : x ≠ (x :: z :: l).getLast (List.cons_ne_nil x _) := by
        intro heq
        have hmem : x ∈ z :: l := by
          rw [List.getLast_cons (List.cons_ne_nil z l)] at heq
          exact heq ▸ List.getLast_mem _
        exact (List.nodup_cons.mp hnodup).1 hmem
      refine ⟨by rw [hnext x (by simp) hx, hn], by rw [hprev z (by simp), hp],
        ih hrest (List.nodup_cons.mp hnodup).2 hlast hback ?_ ?_⟩
      · exact fun a ha hne => hnext a (List.mem_cons_of_mem _ ha) hne
      · exact fun a ha => hprev a (List.mem_cons_of_mem _ ha)

theorem Seg.next
    (h : Seg k x l y) :
    k.next x = l.head?.getD y := by
  cases l with
  | nil => exact h.1
  | cons z l => exact h.1

theorem Seg.prev
    (h : Seg k x l y) :
    k.prev y = (x :: l).getLast (List.cons_ne_nil x l) := by
  induction l generalizing x with
  | nil => exact h.2
  | cons z l ih => exact ih h.2.2

end Segments

section Single

variable {k k' : Pointers α} {x y z n : α} {c l m : List α}

theorem Ring.ne_nil
    (h : Ring k c) :
    c ≠ [] := by
  rintro rfl
  exact h

theorem Ring.congr
    (h : Ring k c)
    (hsame : ∀ a ∈ c, k'.next a = k.next a ∧ k'.prev a = k.prev a) :
    Ring k' c := by
  cases c with
  | nil => exact h
  | cons x l =>
      refine Seg.congr h (fun a ha => (hsame a ha).1) fun a ha => (hsame a ?_).2
      rcases List.mem_append.mp ha with ha | ha
      · exact List.mem_cons_of_mem _ ha
      · exact List.mem_singleton.mp ha ▸ List.mem_cons_self

/-- A ring has no first node. -/
theorem Ring.rotate
    (h : Ring k (l ++ m)) :
    Ring k (m ++ l) := by
  cases l with
  | nil => simpa using h
  | cons x l =>
      cases m with
      | nil => simpa using h
      | cons y m =>
          have h : Seg k x (l ++ y :: m) x := h
          obtain ⟨hl, hm⟩ := seg_append.mp h
          exact seg_append.mpr ⟨hm, hl⟩

/-- The pointers of the first node of a ring. -/
theorem Ring.next
    (h : Ring k (x :: l)) :
    k.next x = l.head?.getD x :=
  Seg.next h

theorem Ring.prev
    (h : Ring k (x :: l)) :
    k.prev x = (x :: l).getLast (List.cons_ne_nil x l) :=
  Seg.prev h

variable [DecidableEq α]

/-- A node is put in between the last node of a ring and the first one. -/
theorem Ring.insert
    (h : Ring k (y :: m))
    (hnodup : (y :: m).Nodup)
    (hfresh : n ∉ y :: m)
    (hnext : ∀ a ∈ n :: y :: m, k'.next a =
      if a = (y :: m).getLast (List.cons_ne_nil y m) then n else if a = n then y else k.next a)
    (hprev : ∀ a ∈ n :: y :: m, k'.prev a =
      if a = n then (y :: m).getLast (List.cons_ne_nil y m) else if a = y then n else k.prev a) :
    Ring k' (y :: (m ++ [n])) := by
  have hlast := List.getLast_mem (List.cons_ne_nil y m)
  have hne : ∀ a ∈ y :: m, a ≠ n := fun a ha heq => hfresh (heq ▸ ha)
  refine seg_append.mpr ⟨?_, ?_, ?_⟩
  · refine Seg.retarget h hnodup ?_ ?_ ?_ ?_
    · rw [hnext _ (List.mem_cons_of_mem _ hlast), if_pos rfl]
    · rw [hprev n (by simp), if_pos rfl]
    · intro a ha hother
      rw [hnext a (List.mem_cons_of_mem _ ha), if_neg hother, if_neg (hne a ha)]
    · intro a ha
      have hy : a ≠ y := fun heq => (List.nodup_cons.mp hnodup).1 (heq ▸ ha)
      rw [hprev a (List.mem_cons_of_mem _ (List.mem_cons_of_mem _ ha)),
        if_neg (hne a (List.mem_cons_of_mem _ ha)), if_neg hy]
  · rw [hnext n (by simp), if_neg (Ne.symm (hne _ hlast)), if_pos rfl]
  · rw [hprev y (by simp), if_neg (hne y (by simp)), if_pos rfl]

/-- The first node of a ring is taken out. -/
theorem Ring.remove
    (h : Ring k (x :: z :: m))
    (hnodup : (x :: z :: m).Nodup)
    (hnext : ∀ a ∈ z :: m, k'.next a =
      if a = (z :: m).getLast (List.cons_ne_nil z m) then z else k.next a)
    (hprev : ∀ a ∈ z :: m, k'.prev a =
      if a = z then (z :: m).getLast (List.cons_ne_nil z m) else k.prev a) :
    Ring k' (z :: m) := by
  obtain ⟨-, -, h⟩ : k.next x = z ∧ k.prev z = x ∧ Seg k z m x := h
  have hnodup : (z :: m).Nodup := (List.nodup_cons.mp hnodup).2
  refine Seg.retarget h hnodup ?_ ?_ ?_ ?_
  · rw [hnext _ (List.getLast_mem _), if_pos rfl]
  · rw [hprev z (by simp), if_pos rfl]
  · intro a ha hother
    rw [hnext a ha, if_neg hother]
  · intro a ha
    have hz : a ≠ z := fun heq => (List.nodup_cons.mp hnodup).1 (heq ▸ ha)
    rw [hprev a (List.mem_cons_of_mem _ ha), if_neg hz]

end Single

section Several

variable {k k' : Pointers α} {rings rings' : List (List α)} {c c' : List α}

theorem Holds.perm
    (h : Holds k rings)
    (hperm : rings.Perm rings') :
    Holds k rings' where
  ring := fun c hc => h.ring c (hperm.mem_iff.mpr hc)
  nodup := (hperm.flatten.nodup_iff).mp h.nodup

/-- A ring that is no longer of interest. -/
theorem Holds.forget
    (h : Holds k (c :: rings)) :
    Holds k rings where
  ring := fun d hd => h.ring d (List.mem_cons_of_mem _ hd)
  nodup := (List.nodup_append.mp h.nodup).2.1

theorem Holds.head
    (h : Holds k (c :: rings)) :
    Ring k c ∧ c.Nodup ∧ ∀ a ∈ c, a ∉ rings.flatten :=
  ⟨h.ring c List.mem_cons_self, (List.nodup_append.mp h.nodup).1,
    fun a ha hrest => (List.nodup_append.mp h.nodup).2.2 a ha a hrest rfl⟩

/-- One ring changes, and the others do not notice. -/
theorem Holds.change
    (h : Holds k rings)
    (hring : Ring k' c')
    (hnodup : c'.Nodup)
    (hapart : ∀ a ∈ c', a ∉ rings.flatten)
    (hframe : ∀ a ∈ rings.flatten, k'.next a = k.next a ∧ k'.prev a = k.prev a) :
    Holds k' (c' :: rings) where
  ring := by
    intro d hd
    rcases List.mem_cons.mp hd with rfl | hd
    · exact hring
    · exact (h.ring d hd).congr fun a ha => hframe a (List.mem_flatten_of_mem hd ha)
  nodup := by
    rw [List.flatten_cons]
    refine List.nodup_append.mpr ⟨hnodup, h.nodup, ?_⟩
    rintro a ha b hb rfl
    exact hapart a ha hb

end Several

end Rings
