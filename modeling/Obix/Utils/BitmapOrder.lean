import Obix.Lib.Runs
import Obix.Utils.Bitmap

/-!
# Recycling of watch ids

One thread after the other.  `__bitmap_insert_notfull` does not insert a node that belongs behind
all nodes of the list, so that its clear bits are forgotten.  As long as no id is put that lies
behind all listed nodes, the list holds the nodes with clear bits in ascending order, and the
smallest id that is not held is returned (`bitmap_ids_recycled`).
-/

namespace Obix

/-- `bitmap_get_id`: the id, unless it fails, and the new bitmap. -/
def Bitmap.getId (b : Bitmap) (malloc : Bool) : Option (Option Int × Bitmap) :=
  match b.getUnused with
  | some (id, b) => some (some id, b)
  | none =>
      if malloc then
        b.createInsertNode.map fun b =>
          match b.getUnused with
          | some (id, b) => (some id, b)
          | none => (none, b)
      else some (none, b)

/-- A call. -/
inductive IdCall
  | get (malloc : Bool)
  | put (id : Int)
  deriving DecidableEq, Repr

/-- What a call does; only ids that are held are put. -/
def Issuer.serve (d : Issuer) : IdCall → Option Issuer
  | .get malloc =>
      (d.bitmap.getId malloc).map fun r => { bitmap := r.2, held := r.1.toList ++ d.held }
  | .put id =>
      if id ∈ d.held then some { bitmap := d.bitmap.putId id, held := d.held.erase id } else none

/-- The id does not lie behind all nodes of `nodes_notfull`, unless this list is empty. -/
def Issuer.reinserts (d : Issuer) : IdCall → Bool
  | .get _ => true
  | .put id =>
      d.bitmap.nodesNotfull.isEmpty ||
        d.bitmap.nodesNotfull.any fun pos =>
          (d.bitmap.nodesAll[pos]?).any fun node => id < node.start + 64

/-- Ids are recycled in ascending order: nodes with a clear bit are listed once, the list is
ascending, `bitmap_get_id` returns the smallest id that is not held, and it extends the bitmap
only when all ids are held. -/
structure Issuer.Recycled (d : Issuer) : Prop where
  listed : ∀ (i : Nat) (node : BitmapNode), d.bitmap.nodesAll[i]? = some node →
    node.map ≠ mapFull → d.bitmap.nodesNotfull.count i = 1
  ascending : d.bitmap.nodesNotfull.Pairwise fun i j => ∀ m n : BitmapNode,
    d.bitmap.nodesAll[i]? = some m → d.bitmap.nodesAll[j]? = some n → m.start < n.start
  smallest : ∀ malloc id b, d.bitmap.getId malloc = some (some id, b) →
    0 ≤ id ∧ id ∉ d.held ∧ ∀ j, 0 ≤ j → j < id → j ∈ d.held
  returned : ∀ r, d.bitmap.getId true = some r → r.1.isSome = true
  extended : ∀ malloc r, d.bitmap.getId malloc = some r → r.2.highest ≠ d.bitmap.highest →
    ∀ id, 0 ≤ id → id ≤ d.bitmap.highest → id ∈ d.held

/-- The invariant of the runs. -/
structure Issuer.Ordered (d : Issuer) : Prop where
  kept : d.Kept
  listed : ∀ (i : Nat) (node : BitmapNode), d.bitmap.nodesAll[i]? = some node →
    (i ∈ d.bitmap.nodesNotfull ↔ node.map ≠ mapFull)
  known : ∀ i ∈ d.bitmap.nodesNotfull, i < d.bitmap.nodesAll.length
  ascending : d.bitmap.nodesNotfull.Pairwise (· < ·)

section Insert

variable {b : Bitmap} {i j : Nat} {l : List Nat}

/-- The comparison in `__bitmap_insert_notfull`. -/
theorem Bitmap.Laid.before_iff
    (h : b.Laid)
    (hj : j < b.nodesAll.length) :
    ((b.nodesAll[j]?).any fun node => 64 * (i : Int) < node.start) = true ↔ i < j := by
  rw [List.getElem?_eq_getElem hj, Option.any_some, decide_eq_true_eq,
    h.start j _ (List.getElem?_eq_getElem hj)]
  omega

theorem Bitmap.mem_of_mem_insertBefore
    {start : Int}
    (hj : j ∈ b.insertBefore start i l) :
    j = i ∨ j ∈ l := by
  induction l with
  | nil => cases hj
  | cons pos rest ih =>
      rw [Bitmap.insertBefore] at hj
      split at hj
      · exact List.mem_cons.mp hj
      · rcases List.mem_cons.mp hj with rfl | hj
        · exact .inr List.mem_cons_self
        · exact (ih hj).imp_right (List.mem_cons_of_mem _)

/-- A node that is not behind all others is inserted. -/
theorem Bitmap.Laid.mem_insertBefore
    (h : b.Laid)
    (hknown : ∀ pos ∈ l, pos < b.nodesAll.length)
    (hbehind : ∃ pos ∈ l, i < pos) :
    j ∈ b.insertBefore (64 * i) i l ↔ j = i ∨ j ∈ l := by
  refine ⟨Bitmap.mem_of_mem_insertBefore, ?_⟩
  induction l with
  | nil => simp at hbehind
  | cons pos rest ih =>
      intro hj
      have hbefore := h.before_iff (hknown pos List.mem_cons_self) (i := i)
      rw [Bitmap.insertBefore]
      split
      · exact List.mem_cons.mpr hj
      · rename_i hnot
        have hrest : ∃ pos ∈ rest, i < pos := by
          obtain ⟨q, hq, hlt⟩ := hbehind
          rcases List.mem_cons.mp hq with rfl | hq
          · exact absurd (hbefore.mpr hlt) hnot
          · exact ⟨q, hq, hlt⟩
        have ih := ih (fun q hq => hknown q (List.mem_cons_of_mem _ hq)) hrest
        rcases hj with rfl | hj
        · exact List.mem_cons_of_mem _ (ih (.inl rfl))
        · rcases List.mem_cons.mp hj with rfl | hj
          · exact List.mem_cons_self
          · exact List.mem_cons_of_mem _ (ih (.inr hj))

theorem Bitmap.Laid.ascending_insertBefore
    (h : b.Laid)
    (hknown : ∀ pos ∈ l, pos < b.nodesAll.length)
    (hascending : l.Pairwise (· < ·))
    (hi : i ∉ l) :
    (b.insertBefore (64 * i) i l).Pairwise (· < ·) := by
  induction l with
  | nil => exact List.Pairwise.nil
  | cons pos rest ih =>
      have hbefore := h.before_iff (hknown pos List.mem_cons_self) (i := i)
      obtain ⟨hpos, hrest⟩ := List.pairwise_cons.mp hascending
      rw [Bitmap.insertBefore]
      split
      · rename_i hlt
        have hlt := hbefore.mp hlt
        refine List.pairwise_cons.mpr ⟨?_, hascending⟩
        intro q hq
        rcases List.mem_cons.mp hq with rfl | hq
        · exact hlt
        · exact hlt.trans (hpos q hq)
      · rename_i hnot
        have hne : i ≠ pos := fun heq => hi (heq ▸ List.mem_cons_self)
        have hlt : pos < i := by
          have hle : ¬ i < pos := fun hlt => hnot (hbefore.mpr hlt)
          omega
        refine List.pairwise_cons.mpr ⟨?_, ih (fun q hq => hknown q (List.mem_cons_of_mem _ hq))
          hrest fun hmem => hi (List.mem_cons_of_mem _ hmem)⟩
        intro q hq
        rcases Bitmap.mem_of_mem_insertBefore hq with rfl | hq
        · exact hlt
        · exact hpos q hq

end Insert

section Steps

variable {d : Issuer}

/-- A node that is not listed has all its ids held. -/
theorem Issuer.Ordered.held_of_not_listed
    {i : Nat} {node : BitmapNode} {id : Int}
    (h : d.Ordered)
    (hnode : d.bitmap.nodesAll[i]? = some node)
    (hi : i ∉ d.bitmap.nodesNotfull)
    (hid : node.Covers id) :
    id ∈ d.held := by
  have hfull : node.map = mapFull := by
    by_contra hne
    exact hi ((h.listed i node hnode).mpr hne)
  rw [h.kept.marked, h.kept.laid.marked_iff hnode hid]
  obtain ⟨hle, hlt⟩ := hid
  exact eq_mapFull_iff.mp hfull _ (by omega)

/-- `bitmap_get_unused` takes the first node of the list. -/
theorem Issuer.Ordered.getUnused_cons
    {i : Nat} {rest : List Nat}
    (h : d.Ordered)
    (hlist : d.bitmap.nodesNotfull = i :: rest) :
    ∃ node, d.bitmap.nodesAll[i]? = some node ∧ node.map ≠ mapFull ∧
      d.bitmap.getUnused = some (firstClear node.map + node.start,
        { d.bitmap with
          nodesAll := d.bitmap.nodesAll.set i
            { node with map := node.map ||| (1#64 <<< firstClear node.map) }
          nodesNotfull :=
            if node.map ||| (1#64 <<< firstClear node.map) = mapFull then rest
            else i :: rest }) := by
  have hi : i ∈ d.bitmap.nodesNotfull := hlist ▸ List.mem_cons_self
  have hnode := List.getElem?_eq_getElem (h.known i hi)
  have hfull := (h.listed i _ hnode).mp hi
  refine ⟨_, hnode, hfull, ?_⟩
  have hfind : d.bitmap.nodesNotfull.find?
      (fun i => (d.bitmap.nodesAll[i]?).any fun node => node.map ≠ mapFull) = some i := by
    rw [hlist, List.find?_cons_of_pos]
    rw [hnode]
    simpa using hfull
  unfold Bitmap.getUnused
  rw [hfind, Option.bind_some, hnode, hlist]
  simp

/-- It returns an id only when a node is listed. -/
theorem listed_ne_nil
    {id : Int} {b : Bitmap}
    (hget : d.bitmap.getUnused = some (id, b)) :
    d.bitmap.nodesNotfull ≠ [] := by
  obtain ⟨i, hi, -⟩ := Bitmap.getUnused_some hget
  exact List.ne_nil_of_mem hi

/-- It fails only when all ids are held. -/
theorem Issuer.Ordered.getUnused_nil
    (h : d.Ordered)
    (hget : d.bitmap.getUnused = none) :
    d.bitmap.nodesNotfull = [] ∧
      ∀ id, 0 ≤ id → id ≤ d.bitmap.highest → id ∈ d.held := by
  have hlist : d.bitmap.nodesNotfull = [] := by
    cases hlist : d.bitmap.nodesNotfull with
    | nil => rfl
    | cons i rest =>
        obtain ⟨node, -, -, hsome⟩ := h.getUnused_cons hlist
        rw [hsome] at hget
        cases hget
  refine ⟨hlist, ?_⟩
  intro id hle hhigh
  obtain ⟨i, node, hnode, hid⟩ := h.kept.laid.covered.mpr ⟨hle, hhigh⟩
  exact h.held_of_not_listed hnode (by simp [hlist]) hid

/-- The id it returns is the smallest one that is not held. -/
theorem Issuer.Ordered.getUnused_smallest
    {id : Int} {b : Bitmap}
    (h : d.Ordered)
    (hget : d.bitmap.getUnused = some (id, b)) :
    0 ≤ id ∧ id ∉ d.held ∧ ∀ j, 0 ≤ j → j < id → j ∈ d.held := by
  have hfresh := h.kept.unique.fresh id b hget
  obtain ⟨i, rest, hlist⟩ := List.exists_cons_of_ne_nil (listed_ne_nil hget)
  obtain ⟨node, hnode, hfull, hsome⟩ := h.getUnused_cons hlist
  rw [hsome] at hget
  cases hget
  have hstart := h.kept.laid.start i node hnode
  obtain ⟨hclear, -, hset⟩ := firstClear_spec hfull
  refine ⟨by omega, hfresh, ?_⟩
  intro j hle hlt
  have hhigh := (h.kept.laid.covered.mp
    ⟨i, node, hnode, (⟨by omega, by omega⟩ : node.Covers (firstClear node.map + node.start))⟩).2
  obtain ⟨k, m, hm, hj⟩ := h.kept.laid.covered.mpr ⟨hle, by omega⟩
  have hmstart := h.kept.laid.start k m hm
  by_cases hki : k = i
  · -- in the node itself the bits before the first clear one are set
    subst hki
    obtain rfl := Option.some.inj (hm.symm.trans hnode)
    rw [h.kept.marked, h.kept.laid.marked_iff hnode hj]
    have hlow := hj.1
    exact hset _ (by omega)
  · refine h.held_of_not_listed hm ?_ hj
    rw [hlist, List.mem_cons]
    rintro (hk | hk)
    · exact hki hk
    · have hik := h.ascending
      rw [hlist] at hik
      have hlt' := (List.pairwise_cons.mp hik).1 k hk
      obtain ⟨hj', -⟩ := hj
      omega

theorem Issuer.Ordered.getUnused
    {id : Int} {b : Bitmap}
    (h : d.Ordered)
    (hget : d.bitmap.getUnused = some (id, b)) :
    Issuer.Ordered { bitmap := b, held := id :: d.held } := by
  have hkept : Issuer.Kept { bitmap := b, held := id :: d.held } := by
    have hlook := h.kept.look .idle
    unfold Issuer.look at hlook
    rw [hget] at hlook
    exact hlook
  obtain ⟨i, rest, hlist⟩ := List.exists_cons_of_ne_nil (listed_ne_nil hget)
  obtain ⟨node, hnode, hfull, hsome⟩ := h.getUnused_cons hlist
  rw [hsome] at hget
  cases hget
  have hascending := h.ascending
  rw [hlist] at hascending
  obtain ⟨hfirst, hrest⟩ := List.pairwise_cons.mp hascending
  have hi : i < d.bitmap.nodesAll.length := (List.getElem?_eq_some_iff.mp hnode).1
  have hknown := h.known
  rw [hlist] at hknown
  refine ⟨hkept, ?_, ?_, ?_⟩
  · intro k m hm
    simp only at hm ⊢
    by_cases hik : i = k
    · subst hik
      rw [List.getElem?_set_self hi] at hm
      cases hm
      simp only
      split
      · rename_i hmap
        simp only [hmap, ne_eq, not_true, iff_false]
        exact fun hmem => lt_irrefl i (hfirst i hmem)
      · rename_i hmap
        simp [hmap]
    · rw [List.getElem?_set_ne hik] at hm
      have hlisted := h.listed k m hm
      rw [hlist, List.mem_cons, or_iff_right (Ne.symm hik)] at hlisted
      split
      · exact hlisted
      · rw [List.mem_cons, or_iff_right (Ne.symm hik)]
        exact hlisted
  · intro k hk
    simp only [List.length_set] at hk ⊢
    refine hknown k ?_
    split at hk
    · exact List.mem_cons_of_mem _ hk
    · exact hk
  · simp only
    split
    · exact hrest
    · exact hascending

/-- The bitmap is extended when the list is empty. -/
theorem Issuer.Ordered.createInsertNode
    {b : Bitmap}
    (h : d.Ordered)
    (hlist : d.bitmap.nodesNotfull = [])
    (hb : d.bitmap.createInsertNode = some b) :
    Issuer.Ordered { d with bitmap := b } ∧ b.nodesNotfull = [d.bitmap.nodesAll.length] := by
  obtain ⟨hlaid, hmarked⟩ := h.kept.laid.createInsertNode hb
  unfold Bitmap.createInsertNode at hb
  split at hb
  · cases hb
    have hnotfull : d.bitmap.insertNotfull 0 d.bitmap.nodesAll.length =
        [d.bitmap.nodesAll.length] := by
      simp [Bitmap.insertNotfull, hlist]
    refine ⟨⟨⟨hlaid, h.kept.distinct, fun id => (h.kept.marked id).trans (hmarked id).symm⟩,
      ?_, ?_, ?_⟩, hnotfull⟩
    · intro i node hnode
      simp only [hnotfull, List.mem_singleton] at hnode ⊢
      rcases lt_or_ge i d.bitmap.nodesAll.length with hi | hi
      · rw [List.getElem?_append_left hi] at hnode
        have hlisted := h.listed i node hnode
        rw [hlist] at hlisted
        rw [← hlisted]
        simp only [List.not_mem_nil, iff_false]
        omega
      · rw [List.getElem?_append_right hi] at hnode
        obtain ⟨hlt, heq⟩ := List.getElem?_eq_some_iff.mp hnode
        rw [List.getElem_singleton] at heq
        simp only [List.length_cons, List.length_nil] at hlt
        have hmap : node.map ≠ mapFull := by
          rw [← heq]
          exact (by decide : (0 : BitVec 64) ≠ mapFull)
        simp only [hmap, ne_eq, not_false_eq_true, iff_true]
        omega
    · intro i hi
      simp only [hnotfull, List.mem_singleton] at hi
      simp [hi]
    · simp [hnotfull]
  · cases hb

theorem Issuer.Ordered.putId
    {id : Int}
    (h : d.Ordered)
    (hheld : id ∈ d.held)
    (hok : d.reinserts (.put id) = true) :
    Issuer.Ordered { bitmap := d.bitmap.putId id, held := d.held.erase id } := by
  have hlaid := h.kept.laid
  obtain ⟨hlaid', hmarked⟩ := hlaid.putId ((h.kept.marked id).mp hheld)
  have hkept : Issuer.Kept { bitmap := d.bitmap.putId id, held := d.held.erase id } := by
    refine ⟨hlaid', h.kept.distinct.erase id, ?_⟩
    intro j
    rw [hmarked, ← h.kept.marked, h.kept.distinct.mem_erase_iff, and_comm]
  obtain ⟨i, node, hnode, hid, -⟩ := (h.kept.marked id).mp hheld
  have hi : i < d.bitmap.nodesAll.length := (List.getElem?_eq_some_iff.mp hnode).1
  have hstart := hlaid.start i node hnode
  obtain ⟨hle, hlt⟩ := hid
  -- the node is listed then, and the list stays ascending
  have hlist : (∀ k, k ∈ (if i ∈ d.bitmap.nodesNotfull then d.bitmap.nodesNotfull
        else d.bitmap.insertNotfull node.start i) ↔ k = i ∨ k ∈ d.bitmap.nodesNotfull) ∧
      (if i ∈ d.bitmap.nodesNotfull then d.bitmap.nodesNotfull
        else d.bitmap.insertNotfull node.start i).Pairwise (· < ·) := by
    split
    · rename_i hmem
      refine ⟨fun k => ⟨.inr, ?_⟩, h.ascending⟩
      rintro (rfl | hk)
      · exact hmem
      · exact hk
    · rename_i hmem
      unfold Bitmap.insertNotfull
      split
      · rename_i hnil
        rw [hnil]
        exact ⟨fun k => by simp, List.pairwise_singleton _ _⟩
      · rename_i hne
        have hbehind : ∃ pos ∈ d.bitmap.nodesNotfull, i < pos := by
          simp only [Issuer.reinserts, Bool.or_eq_true, List.isEmpty_iff, List.any_eq_true] at hok
          obtain ⟨pos, hpos, hend⟩ := hok.resolve_left hne
          have hget := List.getElem?_eq_getElem (h.known pos hpos)
          rw [hget, Option.any_some, decide_eq_true_eq, hlaid.start pos _ hget] at hend
          have hposi : pos ≠ i := fun heq => hmem (heq ▸ hpos)
          exact ⟨pos, hpos, by omega⟩
        rw [hstart]
        exact ⟨fun k => hlaid.mem_insertBefore h.known hbehind,
          hlaid.ascending_insertBefore h.known h.ascending hmem⟩
  have hput := hlaid.putId_eq hnode ⟨hle, hlt⟩
  refine ⟨hkept, ?_, ?_, ?_⟩
  · intro k m hm
    simp only [hput] at hm ⊢
    rw [hlist.1]
    by_cases hik : i = k
    · subst hik
      rw [List.getElem?_set_self hi] at hm
      cases hm
      have hclear : node.map &&& ~~~(1#64 <<< (id - node.start).toNat) ≠ mapFull := by
        intro hfull
        have hbit := eq_mapFull_iff.mp hfull (id - node.start).toNat (by omega)
        rw [getLsbD_clear (by omega)] at hbit
        simp at hbit
      simp [hclear]
    · rw [List.getElem?_set_ne hik] at hm
      rw [or_iff_right (Ne.symm hik)]
      exact h.listed k m hm
  · intro k hk
    simp only [hput] at hk ⊢
    rw [List.length_set]
    rcases (hlist.1 k).mp hk with rfl | hk
    · exact hi
    · exact h.known k hk
  · simp only [hput]
    exact hlist.2

/-- The ways `bitmap_get_id` can go. -/
theorem Issuer.Ordered.getId_cases
    {malloc : Bool} {r : Option Int × Bitmap}
    (h : d.Ordered)
    (hget : d.bitmap.getId malloc = some r) :
    (∃ id, r.1 = some id ∧ d.bitmap.getUnused = some (id, r.2)) ∨
      (d.bitmap.getUnused = none ∧ malloc = false ∧ r = (none, d.bitmap)) ∨
      (d.bitmap.getUnused = none ∧ ∃ b id, d.bitmap.createInsertNode = some b ∧
        Issuer.Ordered { d with bitmap := b } ∧ r.1 = some id ∧ b.getUnused = some (id, r.2)) := by
  unfold Bitmap.getId at hget
  split at hget
  · rename_i id b hsome
    cases hget
    exact .inl ⟨id, rfl, hsome⟩
  · rename_i hnone
    right
    cases malloc with
    | false =>
        simp only [Bool.false_eq_true, if_false, Option.some.injEq] at hget
        exact .inl ⟨hnone, rfl, hget.symm⟩
    | true =>
        simp only [if_true] at hget
        obtain ⟨b, hb, hget⟩ := Option.map_eq_some_iff.mp hget
        obtain ⟨hordered, hlist⟩ := h.createInsertNode (h.getUnused_nil hnone).1 hb
        obtain ⟨node, -, -, hsome⟩ := hordered.getUnused_cons hlist
        simp only [hsome] at hget
        subst hget
        exact .inr ⟨hnone, b, _, hb, hordered, rfl, hsome⟩

theorem Issuer.Ordered.recycled
    (h : d.Ordered) :
    d.Recycled := by
  have hnodup : d.bitmap.nodesNotfull.Nodup := h.ascending.imp fun hlt => ne_of_lt hlt
  refine ⟨?_, ?_, ?_, ?_, ?_⟩
  · intro i node hnode hfull
    exact List.count_eq_one_of_mem hnodup ((h.listed i node hnode).mpr hfull)
  · refine h.ascending.imp ?_
    intro i j hlt m n hm hn
    rw [h.kept.laid.start i m hm, h.kept.laid.start j n hn]
    omega
  · intro malloc id b hget
    rcases h.getId_cases hget with ⟨id', hid, hsome⟩ | ⟨-, -, heq⟩ |
      ⟨-, b', id', -, hordered, hid, hsome⟩
    · cases hid
      exact h.getUnused_smallest hsome
    · cases heq
    · cases hid
      exact hordered.getUnused_smallest hsome
  · intro r hget
    rcases h.getId_cases hget with ⟨id, hid, -⟩ | ⟨-, hfalse, -⟩ | ⟨-, b, id, -, -, hid, -⟩
    · rw [hid]
      rfl
    · cases hfalse
    · rw [hid]
      rfl
  · intro malloc r hget hhigh
    rcases h.getId_cases hget with ⟨id, -, hsome⟩ | ⟨-, -, heq⟩ | ⟨hnone, -⟩
    · obtain ⟨i, -, node, -, -, -, hb⟩ := Bitmap.getUnused_some hsome
      rw [hb] at hhigh
      exact absurd rfl hhigh
    · rw [heq] at hhigh
      exact absurd rfl hhigh
    · exact (h.getUnused_nil hnone).2

theorem Issuer.Ordered.serve
    {x : IdCall} {d' : Issuer}
    (h : d.Ordered)
    (hok : d.reinserts x = true)
    (hserve : d.serve x = some d') :
    d'.Ordered := by
  cases x with
  | get malloc =>
      obtain ⟨⟨r, b⟩, hget, rfl⟩ := Option.map_eq_some_iff.mp hserve
      rcases h.getId_cases hget with ⟨id, hid, hsome⟩ | ⟨-, -, heq⟩ |
        ⟨-, b', id, -, hordered, hid, hsome⟩
      · simp only at hid
        subst hid
        exact h.getUnused hsome
      · cases heq
        exact h
      · simp only at hid
        subst hid
        exact hordered.getUnused hsome
  | put id =>
      simp only [Issuer.serve] at hserve
      split at hserve
      · rename_i hheld
        cases hserve
        exact h.putId hheld hok
      · cases hserve

theorem Issuer.ordered_init : Issuer.init.Ordered :=
  ⟨Issuer.kept_init, by simp [Issuer.init, Bitmap.init], by simp [Issuer.init, Bitmap.init],
    List.Pairwise.nil⟩

/-- Released ids are recycled in ascending order as long as no id is put that lies behind all
listed nodes. -/
theorem bitmap_ids_recycled
    (d : Issuer)
    (hd : Runs.Reaches Issuer.serve (fun d x => d.reinserts x = true) Issuer.init d) :
    d.Recycled :=
  (hd.invariant (fun _ _ _ h hok hserve => h.serve hok hserve) Issuer.ordered_init).recycled

/-- Two ids are taken and the first one is given back. -/
def getTwoPutOne : List IdCall := [.get true, .get true, .put 0]

theorem bitmap_ids_recycled_two :
    ∃ d, Runs.exec Issuer.serve Issuer.init getTwoPutOne = some d ∧ d.held = [1] ∧ d.Recycled :=
  ⟨_, rfl, by decide,
    bitmap_ids_recycled _ (Runs.Reaches.refl.exec getTwoPutOne (by decide +kernel) rfl)⟩

/-- Two nodes are filled, and then one id of each is given back, in ascending order. -/
def fillTwoNodes : List IdCall := List.replicate 128 (.get true) ++ [.put 0, .put 64]

theorem bitmap_ids_not_recycled :
    ¬ ∀ d, Runs.Reaches Issuer.serve (fun _ _ => True) Issuer.init d → d.Recycled := by
  intro hall
  have hsome : (Runs.exec Issuer.serve Issuer.init fillTwoNodes).isSome = true := by
    decide +kernel
  obtain ⟨d, hexec⟩ := Option.isSome_iff_exists.mp hsome
  -- the second node has a clear bit and is not listed
  have hlost : (Runs.exec Issuer.serve Issuer.init fillTwoNodes).all (fun d =>
      (d.bitmap.nodesAll[1]?).any (fun node => node.map ≠ mapFull) &&
        d.bitmap.nodesNotfull.count 1 = 0) = true := by
    decide +kernel
  rw [hexec, Option.all_some, Bool.and_eq_true] at hlost
  obtain ⟨hclear, hcount⟩ := hlost
  cases hnode : d.bitmap.nodesAll[1]? with
  | none =>
      rw [hnode] at hclear
      cases hclear
  | some node =>
      rw [hnode, Option.any_some, decide_eq_true_eq] at hclear
      have hone := (hall d (Runs.Reaches.refl.free fillTwoNodes hexec)).listed 1 node hnode hclear
      rw [hone] at hcount
      simp at hcount

end Steps

end Obix
