import Mathlib.Data.List.Basic
import Mathlib.Data.List.Nodup
import Obix.Lib.Occupancy
import Obix.Lib.Threads

/-!
# The bitmap of watch ids

`bitmap.c`.  The nodes of `nodes_all` are named by their places in this list, which only grows,
and `nodes_notfull` is a list of such places.  A step is what is done under the mutex; ids are
held from the step that sets their bit on until they are put.

The bits of a node and the place of an id in it belong together in every run: no id is held
twice, and the nodes cover the ids up to `highest` without overlap (`bitmap_ids_unique`).
-/

namespace Obix

/-- `bitmap_node_t`. -/
structure BitmapNode where
  map : BitVec 64
  start : Int
  deriving DecidableEq, Repr

/-- `bitmap_t`. -/
structure Bitmap where
  nodesAll : List BitmapNode
  nodesNotfull : List Nat
  highest : Int
  deriving DecidableEq, Repr

/-- `MAPFULL`. -/
def mapFull : BitVec 64 := BitVec.allOnes 64

/-- The number of bits before the first clear one. -/
def firstClear (map : BitVec 64) : Nat := (List.range 64).findIdx fun k => !map.getLsbD k

namespace Bitmap

/-- `bitmap_init`. -/
def init : Bitmap := { nodesAll := [], nodesNotfull := [], highest := -1 }

variable (b : Bitmap)

/-- `bitmap_get_unused`: the id and the new bitmap. -/
def getUnused : Option (Int × Bitmap) :=
  (b.nodesNotfull.find? fun i => (b.nodesAll[i]?).any fun node => node.map ≠ mapFull).bind fun i =>
    (b.nodesAll[i]?).map fun node =>
      let count := firstClear node.map
      let map := node.map ||| (1#64 <<< count)
      (count + node.start,
        { b with
          nodesAll := b.nodesAll.set i { node with map := map }
          nodesNotfull := if map = mapFull then b.nodesNotfull.erase i else b.nodesNotfull })

/-- The loop of `__bitmap_insert_notfull`: a node that belongs behind all others is not
inserted. -/
def insertBefore (start : Int) (i : Nat) : List Nat → List Nat
  | [] => []
  | pos :: rest =>
      if (b.nodesAll[pos]?).any fun node => start < node.start then i :: pos :: rest
      else pos :: insertBefore start i rest

/-- `__bitmap_insert_notfull` for a node with the given value of `start`. -/
def insertNotfull (start : Int) (i : Nat) : List Nat :=
  if b.nodesNotfull = [] then [i] else b.insertBefore start i b.nodesNotfull

/-- `bitmap_create_insert_node`: the node is inserted before its `start` is set.  There is no
result if `highest` would overflow. -/
def createInsertNode : Option Bitmap :=
  if b.highest + 64 < 2 ^ 31 then
    some
      { nodesAll := b.nodesAll ++ [{ map := 0, start := b.highest + 1 }]
        nodesNotfull := b.insertNotfull 0 b.nodesAll.length
        highest := b.highest + 64 }
  else none

/-- `bitmap_put_id`. -/
def putId (id : Int) : Bitmap :=
  if 0 ≤ id ∧ id ≤ b.highest then
    match b.nodesAll.findIdx? fun node => node.start ≤ id ∧ id < node.start + 64 with
    | none => b
    | some i =>
        match b.nodesAll[i]? with
        | none => b
        | some node =>
            { b with
              nodesAll := b.nodesAll.set i
                { node with map := node.map &&& ~~~(1#64 <<< (id - node.start).toNat) }
              nodesNotfull :=
                if i ∈ b.nodesNotfull then b.nodesNotfull else b.insertNotfull node.start i }
  else b

end Bitmap

/-- A bitmap together with the ids that have been returned and not been put. -/
structure Issuer where
  bitmap : Bitmap
  held : List Int
  deriving DecidableEq, Repr

def Issuer.init : Issuer := { bitmap := .init, held := [] }

/-- Where a thread is in `bitmap_get_id`. -/
inductive GetPc
  | idle
  | extend
  | again
  deriving DecidableEq, Repr

/-- What a thread does next; `malloc` may fail. -/
inductive IdOp
  | get
  | create (malloc : Bool)
  | retry
  | put (id : Int)
  deriving DecidableEq, Repr

namespace Issuer

variable (d : Issuer)

/-- `bitmap_get_unused` in `bitmap_get_id`; the next place depends on the result. -/
def look (next : GetPc) : Issuer × GetPc :=
  match d.bitmap.getUnused with
  | some (id, b) => ({ bitmap := b, held := id :: d.held }, .idle)
  | none => (d, next)

/-- One step of a thread; only ids that are held are put. -/
def step : GetPc → IdOp → Option (Issuer × GetPc)
  | .idle, .get => some (d.look .extend)
  | .extend, .create false => some (d, .idle)
  | .extend, .create true =>
      d.bitmap.createInsertNode.map fun b => ({ d with bitmap := b }, .again)
  | .again, .retry => some (d.look .idle)
  | .idle, .put id =>
      if id ∈ d.held then
        some ({ bitmap := d.bitmap.putId id, held := d.held.erase id }, .idle)
      else none
  | _, _ => none

end Issuer

/-- Threads that use one bitmap. -/
abbrev Issuers (ι : Type) := Threads ι Issuer GetPc

/-- No thread has called yet. -/
def Issuers.init {ι : Type} : Issuers ι := { shared := .init, pc := fun _ => .idle }

/-- The node covers an id. -/
def BitmapNode.Covers (node : BitmapNode) (id : Int) : Prop :=
  node.start ≤ id ∧ id < node.start + 64

instance (node : BitmapNode) (id : Int) : Decidable (node.Covers id) :=
  inferInstanceAs (Decidable (_ ∧ _))

/-- The bit of an id. -/
def BitmapNode.bit (node : BitmapNode) (id : Int) : Bool := node.map.getLsbD (id - node.start).toNat

/-- Ids are unique: none is held twice or returned while it is held, the ranges of the nodes are
disjoint and cover the ids up to `highest`, and the bits that are set are those of the held
ids. -/
structure Issuer.Unique (d : Issuer) : Prop where
  distinct : d.held.Nodup
  fresh : ∀ id b, d.bitmap.getUnused = some (id, b) → id ∉ d.held
  disjoint : d.bitmap.nodesAll.Pairwise fun m n => ∀ id, ¬ (m.Covers id ∧ n.Covers id)
  covered : ∀ id, (∃ n ∈ d.bitmap.nodesAll, n.Covers id) ↔ 0 ≤ id ∧ id ≤ d.bitmap.highest
  bits : ∀ id, id ∈ d.held ↔ ∃ n ∈ d.bitmap.nodesAll, n.Covers id ∧ n.bit id = true

section Bits

variable {map : BitVec 64}

theorem getLsbD_one_shiftLeft (k j : Nat) :
    (1#64 <<< k).getLsbD j = (decide (j < 64) && decide (j = k)) := by
  rw [BitVec.getLsbD_shiftLeft, BitVec.getLsbD_one]
  grind

theorem getLsbD_set
    {k j : Nat}
    (hj : j < 64) :
    (map ||| (1#64 <<< k)).getLsbD j = (map.getLsbD j || decide (j = k)) := by
  rw [BitVec.getLsbD_or, getLsbD_one_shiftLeft]
  simp [hj]

theorem getLsbD_clear
    {k j : Nat}
    (hj : j < 64) :
    (map &&& ~~~(1#64 <<< k)).getLsbD j = (map.getLsbD j && decide (j ≠ k)) := by
  rw [BitVec.getLsbD_and, BitVec.getLsbD_not, getLsbD_one_shiftLeft]
  simp [hj]

theorem eq_mapFull_iff : map = mapFull ↔ ∀ k < 64, map.getLsbD k = true := by
  constructor
  · rintro rfl k hk
    rw [mapFull, BitVec.getLsbD_allOnes]
    exact decide_eq_true hk
  · intro h
    refine BitVec.eq_of_getLsbD_eq fun k hk => ?_
    rw [h k hk, mapFull, BitVec.getLsbD_allOnes]
    exact (decide_eq_true hk).symm

/-- The loop of `bitmap_get_unused` ends at the first clear bit. -/
theorem firstClear_spec
    (h : map ≠ mapFull) :
    firstClear map < 64 ∧ map.getLsbD (firstClear map) = false ∧
      ∀ k < firstClear map, map.getLsbD k = true := by
  have hlt : firstClear map < (List.range 64).length := by
    refine List.findIdx_lt_length.mpr ?_
    by_contra hnone
    refine h (eq_mapFull_iff.mpr fun k hk => ?_)
    by_contra hk'
    exact hnone ⟨k, List.mem_range.mpr hk, by simpa using hk'⟩
  have hget : (List.range 64)[firstClear map] = firstClear map := List.getElem_range hlt
  have hclear : (!map.getLsbD (List.range 64)[firstClear map]) = true :=
    List.findIdx_getElem (w := hlt)
  rw [hget] at hclear
  refine ⟨by simpa using hlt, by simpa using hclear, ?_⟩
  intro k hk
  have hset := List.not_of_lt_findIdx hk
  simpa using hset

end Bits

namespace Bitmap

/-- An id is marked in its node. -/
def Marked (b : Bitmap) (id : Int) : Prop :=
  ∃ (i : Nat) (node : BitmapNode),
    b.nodesAll[i]? = some node ∧ node.Covers id ∧ node.bit id = true

/-- The nodes follow each other. -/
structure Laid (b : Bitmap) : Prop where
  start : ∀ (i : Nat) (node : BitmapNode), b.nodesAll[i]? = some node → node.start = 64 * i
  highest : b.highest = 64 * b.nodesAll.length - 1

section Laid

variable {b : Bitmap} {i j : Nat} {m n : BitmapNode} {id : Int}

theorem laid_init : Laid init :=
  ⟨by simp [init], by simp [init]⟩

theorem Laid.eq_of_covers
    (h : b.Laid)
    (hm : b.nodesAll[i]? = some m)
    (hn : b.nodesAll[j]? = some n)
    (hmid : m.Covers id)
    (hnid : n.Covers id) :
    i = j := by
  obtain ⟨hle, hlt⟩ := hmid
  obtain ⟨hle', hlt'⟩ := hnid
  rw [h.start i m hm] at hle hlt
  rw [h.start j n hn] at hle' hlt'
  omega

theorem Laid.covered
    (h : b.Laid) :
    (∃ (i : Nat) (node : BitmapNode), b.nodesAll[i]? = some node ∧ node.Covers id) ↔
      0 ≤ id ∧ id ≤ b.highest := by
  rw [h.highest]
  constructor
  · rintro ⟨i, node, hnode, hle, hlt⟩
    have hi : i < b.nodesAll.length := (List.getElem?_eq_some_iff.mp hnode).1
    rw [h.start i node hnode] at hle hlt
    omega
  · rintro ⟨hle, hlt⟩
    have hi : (id / 64).toNat < b.nodesAll.length := by omega
    have hnode := List.getElem?_eq_getElem hi
    refine ⟨_, _, hnode, ?_⟩
    rw [BitmapNode.Covers, h.start _ _ hnode]
    omega

/-- The map of one node changes. -/
theorem Laid.set
    {map : BitVec 64} {notfull : List Nat}
    (h : b.Laid)
    (hm : b.nodesAll[i]? = some m) :
    Laid { b with
      nodesAll := b.nodesAll.set i { m with map := map }
      nodesNotfull := notfull } := by
  refine ⟨?_, ?_⟩
  · intro j node hnode
    simp only [List.getElem?_set] at hnode
    split at hnode
    · split at hnode
      · rename_i hij _
        cases hnode
        rw [← hij]
        exact h.start i m hm
      · cases hnode
    · exact h.start j node hnode
  · simpa using h.highest

/-- Only the marks of the node that has been changed are different. -/
theorem Laid.marked_set
    {map : BitVec 64} {notfull : List Nat}
    (h : b.Laid)
    (hm : b.nodesAll[i]? = some m) :
    Marked { b with
        nodesAll := b.nodesAll.set i { m with map := map }
        nodesNotfull := notfull } id ↔
      if m.Covers id then map.getLsbD (id - m.start).toNat = true else b.Marked id := by
  have hi : i < b.nodesAll.length := (List.getElem?_eq_some_iff.mp hm).1
  have hset : ∀ j, (b.nodesAll.set i { m with map := map })[j]? =
      if i = j then some { m with map := map } else b.nodesAll[j]? := by
    intro j
    by_cases hij : i = j
    · subst hij
      rw [List.getElem?_set_self hi, if_pos rfl]
    · rw [List.getElem?_set_ne hij, if_neg hij]
  constructor
  · rintro ⟨j, node, hnode, hcovers, hbit⟩
    simp only [hset] at hnode
    split at hnode
    · cases hnode
      have hmid : m.Covers id := hcovers
      rw [if_pos hmid]
      exact hbit
    · rename_i hij
      have hnot : ¬ m.Covers id := fun hmid => hij (h.eq_of_covers hm hnode hmid hcovers)
      rw [if_neg hnot]
      exact ⟨j, node, hnode, hcovers, hbit⟩
  · intro hmarked
    split at hmarked
    · rename_i hmid
      refine ⟨i, { m with map := map }, ?_, hmid, hmarked⟩
      simp only [hset, if_true]
    · rename_i hnot
      obtain ⟨j, node, hnode, hcovers, hbit⟩ := hmarked
      refine ⟨j, node, ?_, hcovers, hbit⟩
      have hij : i ≠ j := by
        rintro rfl
        rw [hm] at hnode
        cases hnode
        exact hnot hcovers
      simp only [hset, if_neg hij]
      exact hnode

theorem Laid.createInsertNode
    {b' : Bitmap}
    (h : b.Laid)
    (hb : b.createInsertNode = some b') :
    b'.Laid ∧ ∀ id, b'.Marked id ↔ b.Marked id := by
  unfold Bitmap.createInsertNode at hb
  split at hb
  · cases hb
    have hlen := h.highest
    refine ⟨⟨?_, ?_⟩, ?_⟩
    · intro i node hnode
      simp only [List.getElem?_append] at hnode
      split at hnode
      · exact h.start i node hnode
      · rename_i hi
        obtain ⟨hlt, heq⟩ := List.getElem?_eq_some_iff.mp hnode
        simp only [List.length_cons, List.length_nil] at hlt
        rw [List.getElem_singleton] at heq
        rw [← heq]
        simp only
        omega
    · simp only [List.length_append, List.length_cons, List.length_nil]
      omega
    · intro id
      constructor
      · rintro ⟨i, node, hnode, hcovers, hbit⟩
        simp only [List.getElem?_append] at hnode
        split at hnode
        · exact ⟨i, node, hnode, hcovers, hbit⟩
        · -- the new node has no bit set
          obtain ⟨_, heq⟩ := List.getElem?_eq_some_iff.mp hnode
          rw [List.getElem_singleton] at heq
          rw [← heq] at hbit
          simp [BitmapNode.bit] at hbit
      · rintro ⟨i, node, hnode, hrest⟩
        have hi : i < b.nodesAll.length := (List.getElem?_eq_some_iff.mp hnode).1
        exact ⟨i, node, (List.getElem?_append_left hi).trans hnode, hrest⟩
  · cases hb

/-- Whether an id is marked is decided by the node that covers it. -/
theorem Laid.marked_iff
    (h : b.Laid)
    (hm : b.nodesAll[i]? = some m)
    (hid : m.Covers id) :
    b.Marked id ↔ m.map.getLsbD (id - m.start).toNat = true := by
  constructor
  · rintro ⟨j, n, hn, hnid, hbit⟩
    obtain rfl := h.eq_of_covers hm hn hid hnid
    obtain rfl := Option.some.inj (hm.symm.trans hn)
    exact hbit
  · exact fun hbit => ⟨i, m, hm, hid, hbit⟩

theorem getUnused_some
    {b' : Bitmap}
    (h : b.getUnused = some (id, b')) :
    ∃ i ∈ b.nodesNotfull, ∃ node, b.nodesAll[i]? = some node ∧ node.map ≠ mapFull ∧
      id = firstClear node.map + node.start ∧
      b' = { b with
        nodesAll := b.nodesAll.set i
          { node with map := node.map ||| (1#64 <<< firstClear node.map) }
        nodesNotfull :=
          if node.map ||| (1#64 <<< firstClear node.map) = mapFull then b.nodesNotfull.erase i
          else b.nodesNotfull } := by
  obtain ⟨i, hfind, h⟩ := Option.bind_eq_some_iff.mp h
  obtain ⟨node, hnode, h⟩ := Option.map_eq_some_iff.mp h
  cases h
  have hmap := List.find?_some hfind
  rw [hnode] at hmap
  exact ⟨i, List.mem_of_find?_eq_some hfind, node, hnode, by simpa using hmap, rfl, rfl⟩

/-- The id that `bitmap_get_unused` returns was not marked and is marked then. -/
theorem Laid.getUnused
    {b' : Bitmap}
    (h : b.Laid)
    (hget : b.getUnused = some (id, b')) :
    b'.Laid ∧ ¬ b.Marked id ∧ ∀ j, b'.Marked j ↔ b.Marked j ∨ j = id := by
  obtain ⟨i, -, node, hnode, hfull, rfl, rfl⟩ := getUnused_some hget
  obtain ⟨hlt, hclear, -⟩ := firstClear_spec hfull
  have hcovers : node.Covers (firstClear node.map + node.start) := by
    constructor <;> omega
  have hnot : ¬ b.Marked (firstClear node.map + node.start) := by
    rw [h.marked_iff hnode hcovers]
    simp [hclear]
  refine ⟨h.set hnode, hnot, ?_⟩
  intro j
  rw [h.marked_set hnode]
  split
  · rename_i hj
    have hbit := h.marked_iff hnode hj
    obtain ⟨hle, hlt'⟩ := hj
    have hplace : (j - node.start).toNat = firstClear node.map ↔ j = firstClear node.map + node.start := by
      omega
    rw [getLsbD_set (by omega), hbit, Bool.or_eq_true, decide_eq_true_eq, hplace]
  · rename_i hj
    have hne : j ≠ firstClear node.map + node.start := by
      rintro rfl
      exact hj hcovers
    simp [hne]

/-- `bitmap_put_id` of an id that is covered. -/
theorem Laid.putId_eq
    (h : b.Laid)
    (hm : b.nodesAll[i]? = some m)
    (hid : m.Covers id) :
    b.putId id = { b with
      nodesAll := b.nodesAll.set i
        { m with map := m.map &&& ~~~(1#64 <<< (id - m.start).toNat) }
      nodesNotfull :=
        if i ∈ b.nodesNotfull then b.nodesNotfull else b.insertNotfull m.start i } := by
  have hin := h.covered.mp ⟨i, m, hm, hid⟩
  have hfind : b.nodesAll.findIdx? (fun node => node.start ≤ id ∧ id < node.start + 64) = some i := by
    obtain ⟨hi, hget⟩ := List.getElem?_eq_some_iff.mp hm
    refine List.findIdx?_eq_some_iff_getElem.mpr ⟨hi, ?_, ?_⟩
    · rw [hget]
      exact decide_eq_true hid
    · intro j hj hmid
      have hmid : (b.nodesAll[j]).Covers id := of_decide_eq_true hmid
      have heq := h.eq_of_covers hm (List.getElem?_eq_getElem (by omega)) hid hmid
      omega
  unfold Bitmap.putId
  rw [if_pos hin, hfind]
  simp only [hm]

theorem Laid.putId
    (h : b.Laid)
    (hid : b.Marked id) :
    (b.putId id).Laid ∧ ∀ j, (b.putId id).Marked j ↔ b.Marked j ∧ j ≠ id := by
  obtain ⟨i, node, hnode, hcovers, -⟩ := hid
  rw [h.putId_eq hnode hcovers]
  refine ⟨h.set hnode, ?_⟩
  intro j
  rw [h.marked_set hnode]
  split
  · rename_i hj
    have hbit := h.marked_iff hnode hj
    obtain ⟨hle, hlt⟩ := hj
    obtain ⟨hle', hlt'⟩ := hcovers
    have hplace : (j - node.start).toNat ≠ (id - node.start).toNat ↔ j ≠ id := by
      omega
    rw [getLsbD_clear (by omega), hbit, Bool.and_eq_true, decide_eq_true_eq, hplace]
  · rename_i hj
    have hne : j ≠ id := by
      rintro rfl
      exact hj hcovers
    simp [hne]

end Laid

end Bitmap

/-- The invariant of the runs. -/
structure Issuer.Kept (d : Issuer) : Prop where
  laid : d.bitmap.Laid
  distinct : d.held.Nodup
  marked : ∀ id, id ∈ d.held ↔ d.bitmap.Marked id

section Runs

variable {d d' : Issuer} {p p' : GetPc}

theorem Issuer.Kept.unique
    (h : d.Kept) :
    d.Unique := by
  refine ⟨h.distinct, ?_, ?_, ?_, ?_⟩
  · intro id b hget hheld
    exact (h.laid.getUnused hget).2.1 ((h.marked id).mp hheld)
  · rw [List.pairwise_iff_getElem]
    intro i j hi hj hij id hid
    have heq := h.laid.eq_of_covers (List.getElem?_eq_getElem hi) (List.getElem?_eq_getElem hj)
      hid.1 hid.2
    omega
  · intro id
    rw [← h.laid.covered]
    simp only [List.mem_iff_getElem?]
    grind
  · intro id
    rw [h.marked id]
    simp only [List.mem_iff_getElem?, Bitmap.Marked]
    grind

theorem Issuer.Kept.look
    (h : d.Kept)
    (next : GetPc) :
    (d.look next).1.Kept := by
  unfold Issuer.look
  split
  · rename_i id b hget
    obtain ⟨hlaid, hnot, hmarked⟩ := h.laid.getUnused hget
    have hnew : id ∉ d.held := fun hheld => hnot ((h.marked id).mp hheld)
    refine ⟨hlaid, List.nodup_cons.mpr ⟨hnew, h.distinct⟩, ?_⟩
    intro j
    rw [hmarked, ← h.marked, List.mem_cons, or_comm]
  · exact h

/-- Every step under the mutex keeps the invariant. -/
theorem Issuer.Kept.step
    {x : IdOp}
    (h : d.Kept)
    (hstep : d.step p x = some (d', p')) :
    d'.Kept := by
  cases p with
  | idle =>
      cases x with
      | get =>
          have hlook : d.look .extend = (d', p') := Option.some.inj hstep
          have hkept := h.look .extend
          rwa [hlook] at hkept
      | put id =>
          simp only [Issuer.step] at hstep
          split at hstep
          · rename_i hheld
            cases hstep
            obtain ⟨hlaid, hmarked⟩ := h.laid.putId ((h.marked id).mp hheld)
            refine ⟨hlaid, h.distinct.erase id, ?_⟩
            intro j
            rw [hmarked, ← h.marked, h.distinct.mem_erase_iff, and_comm]
          · cases hstep
      | create malloc => cases hstep
      | retry => cases hstep
  | extend =>
      cases x with
      | create malloc =>
          cases malloc with
          | false =>
              cases hstep
              exact h
          | true =>
              obtain ⟨b, hb, heq⟩ := Option.map_eq_some_iff.mp hstep
              cases heq
              obtain ⟨hlaid, hmarked⟩ := h.laid.createInsertNode hb
              exact ⟨hlaid, h.distinct, fun id => (h.marked id).trans (hmarked id).symm⟩
      | get => cases hstep
      | put id => cases hstep
      | retry => cases hstep
  | again =>
      cases x with
      | retry =>
          have hlook : d.look .idle = (d', p') := Option.some.inj hstep
          have hkept := h.look .idle
          rwa [hlook] at hkept
      | get => cases hstep
      | put id => cases hstep
      | create malloc => cases hstep

theorem Issuer.kept_init : Issuer.init.Kept :=
  ⟨Bitmap.laid_init, List.nodup_nil, by simp [Issuer.init, Bitmap.init, Bitmap.Marked]⟩

variable {ι : Type} [DecidableEq ι]

/-- Ids are unique in every run of any number of threads. -/
theorem bitmap_ids_unique
    (acts : List (ι × IdOp))
    (s : Issuers ι)
    (hrun : Issuers.init.exec Issuer.step acts = some s) :
    s.shared.Unique := by
  have hguard : (Issuers.init : Issuers ι).Guarded Issuer.step (fun _ _ => True) acts :=
    Threads.guarded_of_forall (fun _ _ => trivial) acts _
  have hstep : ∀ (s : Issuers ι) (x : ι × IdOp) (s' : Issuers ι), s.shared.Kept → True →
      s.act Issuer.step x = some s' → s'.shared.Kept := by
    intro s x s' h _ hact
    obtain ⟨d, p, hstep, rfl⟩ := Threads.act_eq_some_iff.mp hact
    exact h.step hstep
  exact (Threads.exec_invariant hstep Issuer.kept_init hguard hrun).unique

/-- Two threads extend the bitmap at the same time. -/
def extendTwice : List (Fin 2 × IdOp) :=
  [(0, .get), (1, .get), (0, .create true), (1, .create true), (1, .retry), (0, .retry)]

theorem bitmap_ids_unique_twice :
    ∃ s : Issuers (Fin 2), Issuers.init.exec Issuer.step extendTwice = some s ∧
      s.shared.held = [1, 0] ∧ s.shared.Unique :=
  ⟨_, rfl, by decide, bitmap_ids_unique extendTwice _ rfl⟩

end Runs

end Obix
