import Obix.Xml.Href

/-!
# Hash tables with collision lists

`hash.c`.  The hash value of a key and the comparison of a key with an item are the
operations `compute` and `compare` of the table; the size of the table is the number
of its collision lists.

`Placed` says that every item is in the collision list of its key and that no two
items have the same key.
-/

namespace Obix

open CString

/-- `hash_head_t`. -/
structure HashHead (ι : Type) where
  items : List ι
  count : Nat
  deriving DecidableEq, Repr

/-- `hash_table_t`. -/
structure HashTable (ι : Type) where
  heads : List (HashHead ι)
  deriving DecidableEq, Repr

/-- One round of the loop of `hash_bkdr` on an `unsigned int`. -/
def bkdrStep (hash : Nat) (byte : UInt8) : Nat :=
  (hash * 31 + byte.toNat) % 2 ^ 32

/-- `hash_bkdr`: the loop over the bytes stops before a slash at the end. -/
def hashBkdr (str : Text) (tabSize : Nat) : Nat :=
  if str = [] ∨ tabSize = 0 then 0
  else ((trimSlash str).flatMap String.utf8EncodeChar).foldl bkdrStep 0 % tabSize

theorem hashBkdr_append_slash
    {t : Text}
    (ht : slashFollowed t = false)
    (n : Nat) :
    hashBkdr (t ++ ['/']) n = hashBkdr t n := by
  have htrim : trimSlash t = t := by simp [trimSlash, ht]
  unfold hashBkdr
  rw [trimSlash_append_slash, htrim]
  by_cases hnil : t = []
  · simp [hnil]
  · simp [hnil]

namespace HashTable

variable {ι : Type}

/-- `hash_init_table` for a size that is a prime number already. -/
def init (size : Nat) : HashTable ι :=
  { heads := List.replicate size { items := [], count := 0 } }

/-- All items of a table. -/
def items (tab : HashTable ι) : List ι :=
  tab.heads.flatMap HashHead.items

section Operations

variable (compute : Text → Nat → Nat) (compare : Text → ι → Bool)

/-- `hash_search`. -/
def search (tab : HashTable ι) (key : Text) : Option ι :=
  (tab.heads[compute key tab.heads.length]?).bind fun head => head.items.find? (compare key)

/-- `hash_del`. -/
def del (tab : HashTable ι) (key : Text) : HashTable ι :=
  { heads := tab.heads.modify (compute key tab.heads.length) fun head =>
      if head.items.any (compare key) then
        { items := head.items.eraseP (compare key), count := head.count - 1 }
      else head }

/-- `hash_add`: an item with the same key is kept instead. -/
def add (tab : HashTable ι) (key : Text) (item : ι) : HashTable ι :=
  { heads := tab.heads.modify (compute key tab.heads.length) fun head =>
      if head.items.any (compare key) then head
      else { items := head.items ++ [item], count := head.count + 1 } }

end Operations

/-- Every item is in the collision list of its key, and no two items of a list have the
same key. -/
structure Placed
    (compute : Text → Nat → Nat)
    (key : ι → Text)
    (tab : HashTable ι) :
    Prop where
  home : ∀ (n : Nat) (head : HashHead ι), tab.heads[n]? = some head →
    ∀ i ∈ head.items, compute (key i) tab.heads.length = n
  distinct : ∀ (n : Nat) (head : HashHead ι), tab.heads[n]? = some head →
    head.items.Pairwise fun i j => isStrIdentical (key i) (key j) = false

theorem mem_items_iff {tab : HashTable ι} {i : ι} :
    i ∈ tab.items ↔ ∃ (n : Nat) (head : HashHead ι), tab.heads[n]? = some head ∧ i ∈ head.items := by
  rw [items, List.mem_flatMap]
  constructor
  · rintro ⟨head, hhead, hi⟩
    obtain ⟨n, hn⟩ := List.mem_iff_getElem?.mp hhead
    exact ⟨n, head, hn, hi⟩
  · rintro ⟨n, head, hn, hi⟩
    exact ⟨head, List.mem_of_getElem? hn, hi⟩

theorem placed_init (compute : Text → Nat → Nat) (key : ι → Text) (size : Nat) :
    Placed compute key (init size) := by
  constructor <;>
  · intro n head hn
    have hhead := List.mem_of_getElem? hn
    obtain rfl := List.eq_of_mem_replicate hhead
    simp

@[simp] theorem items_init (size : Nat) : (init size : HashTable ι).items = [] := by
  simp [items, init]

section Placed

variable {compute : Text → Nat → Nat} {compare : Text → ι → Bool} {key : ι → Text}
  {tab : HashTable ι}

/-- The collision lists after a change of the one for a key. -/
theorem getElem?_modify_heads
    {f : HashHead ι → HashHead ι} {k n : Nat} {head : HashHead ι}
    (h : (tab.heads.modify k f)[n]? = some head) :
    ∃ old, tab.heads[n]? = some old ∧ head = if k = n then f old else old := by
  rw [List.getElem?_modify] at h
  obtain ⟨old, hold, rfl⟩ := Option.map_eq_some_iff.mp h
  refine ⟨old, hold, ?_⟩
  split <;> rfl

theorem Placed.nodup (h : Placed compute key tab) : tab.items.Nodup := by
  refine List.nodup_flatMap.mpr ⟨?_, ?_⟩
  · intro head hhead
    obtain ⟨n, hn⟩ := List.mem_iff_getElem?.mp hhead
    refine (h.distinct n head hn).imp ?_
    rintro i _ hij rfl
    simp [isStrIdentical] at hij
  · rw [List.pairwise_iff_getElem]
    intro n m hn hm hlt i hi hi'
    have hn := h.home n _ (List.getElem?_eq_getElem hn) i hi
    have hm := h.home m _ (List.getElem?_eq_getElem hm) i hi'
    omega

theorem mem_of_search
    {k : Text} {i : ι}
    (h : tab.search compute compare k = some i) :
    i ∈ tab.items ∧ compare k i = true := by
  obtain ⟨head, hhead, hi⟩ := Option.bind_eq_some_iff.mp h
  exact ⟨mem_items_iff.mpr ⟨_, head, hhead, List.mem_of_find?_eq_some hi⟩,
    List.find?_some hi⟩

/-- Only the keys of the items matter. -/
theorem Placed.congr
    {key' : ι → Text}
    (h : Placed compute key tab)
    (hkey : ∀ i ∈ tab.items, key' i = key i) :
    Placed compute key' tab where
  home := by
    intro n head hn i hi
    rw [hkey i (mem_items_iff.mpr ⟨n, head, hn, hi⟩)]
    exact h.home n head hn i hi
  distinct := by
    intro n head hn
    refine (h.distinct n head hn).imp_of_mem ?_
    intro i j hi hj hij
    rwa [hkey i (mem_items_iff.mpr ⟨n, head, hn, hi⟩),
      hkey j (mem_items_iff.mpr ⟨n, head, hn, hj⟩)]

/-- Items with the same key are the same. -/
theorem Placed.eq_of_identical
    (h : Placed compute key tab)
    (hcompute : ∀ s t n, isStrIdentical s t = true → compute s n = compute t n)
    {i j : ι}
    (hi : i ∈ tab.items)
    (hj : j ∈ tab.items)
    (hid : isStrIdentical (key i) (key j) = true) :
    i = j := by
  obtain ⟨n, head, hn, hi⟩ := mem_items_iff.mp hi
  obtain ⟨m, head', hm, hj⟩ := mem_items_iff.mp hj
  have hnm : n = m := by
    rw [← h.home n head hn i hi, ← h.home m head' hm j hj]
    exact hcompute _ _ _ hid
  subst hnm
  obtain rfl := Option.some.inj (hn.symm.trans hm)
  obtain ⟨k, hk, rfl⟩ := List.mem_iff_getElem.mp hi
  obtain ⟨l, hl, rfl⟩ := List.mem_iff_getElem.mp hj
  have hdistinct := List.pairwise_iff_getElem.mp (h.distinct n head hn)
  rcases lt_trichotomy k l with hkl | rfl | hkl
  · rw [hdistinct k l hk hl hkl] at hid
    cases hid
  · rfl
  · rw [isStrIdentical_comm, hdistinct l k hl hk hkl] at hid
    cases hid

variable
  (hcompute : ∀ s t n, isStrIdentical s t = true → compute s n = compute t n)
  (hcompare : ∀ k, ∀ i ∈ tab.items, compare k i = isStrIdentical k (key i))

include hcompute hcompare

theorem not_identical_of_search
    (hp : Placed compute key tab)
    {k : Text}
    (h : tab.search compute compare k = none) :
    ∀ i ∈ tab.items, isStrIdentical k (key i) = false := by
  intro i hi
  obtain ⟨n, head, hn, hmem⟩ := mem_items_iff.mp hi
  by_contra hne
  have hkey : isStrIdentical k (key i) = true := by simpa using hne
  have hhome : compute k tab.heads.length = n :=
    (hcompute k (key i) _ hkey).trans (hp.home n head hn i hmem)
  rw [search, hhome, hn, Option.bind_some, List.find?_eq_none] at h
  exact h i hmem ((hcompare k i hi).trans hkey)

omit hcompute in
/-- The collision list of a key without the item with that key. -/
theorem eraseP_compare
    (hp : Placed compute key tab)
    {k : Text} {n : Nat} {head : HashHead ι}
    (hn : tab.heads[n]? = some head) :
    head.items.eraseP (compare k) =
      head.items.filter fun i => !isStrIdentical k (key i) := by
  have hcompare : ∀ i ∈ head.items, compare k i = isStrIdentical k (key i) :=
    fun i hi => hcompare k i (mem_items_iff.mpr ⟨n, head, hn, hi⟩)
  have hdistinct := hp.distinct n head hn
  clear hn
  generalize head.items = items at hcompare hdistinct ⊢
  induction items with
  | nil => rfl
  | cons i is ih =>
      obtain ⟨hi, his⟩ := List.pairwise_cons.mp hdistinct
      have hrest := ih (fun j hj => hcompare j (List.mem_cons_of_mem _ hj)) his
      cases hk : isStrIdentical k (key i) with
      | false =>
          rw [List.eraseP_cons_of_neg (by simp [hcompare i, hk]), hrest]
          simp [hk]
      | true =>
          rw [List.eraseP_cons_of_pos (by simp [hcompare i, hk])]
          -- whatever else had the key would be identical to this item
          have hnone : ∀ j ∈ is, isStrIdentical k (key j) = false := by
            intro j hj
            have hij := hi j hj
            simp only [isStrIdentical, decide_eq_true_eq, decide_eq_false_iff_not] at hk hij ⊢
            rwa [hk]
          rw [List.filter_cons_of_neg (by simp [hk]), List.filter_eq_self.mpr]
          intro j hj
          simp [hnone j hj]

/-- The collision lists after `hash_del`. -/
theorem heads_del
    (hp : Placed compute key tab)
    {k : Text} {n : Nat} {head : HashHead ι}
    (h : (tab.del compute compare k).heads[n]? = some head) :
    ∃ old, tab.heads[n]? = some old ∧
      head.items = old.items.filter fun i => !isStrIdentical k (key i) := by
  obtain ⟨old, hold, rfl⟩ := getElem?_modify_heads h
  refine ⟨old, hold, ?_⟩
  have hkeep : (∀ i ∈ old.items, isStrIdentical k (key i) = false) →
      old.items = old.items.filter fun i => !isStrIdentical k (key i) := by
    intro hnone
    rw [List.filter_eq_self.mpr]
    intro i hi
    simp [hnone i hi]
  split
  · split
    · exact eraseP_compare hcompare hp hold
    · rename_i hany
      refine hkeep fun i hi => ?_
      simp only [List.any_eq_true, not_exists, not_and, Bool.not_eq_true] at hany
      rw [← hcompare k i (mem_items_iff.mpr ⟨n, old, hold, hi⟩)]
      exact hany i hi
  · rename_i hne
    refine hkeep fun i hi => ?_
    by_contra hk
    have hk : isStrIdentical k (key i) = true := by simpa using hk
    exact hne ((hcompute k (key i) _ hk).trans (hp.home n old hold i hi))

theorem mem_items_del
    (hp : Placed compute key tab)
    {k : Text} {i : ι} :
    i ∈ (tab.del compute compare k).items ↔
      i ∈ tab.items ∧ isStrIdentical k (key i) = false := by
  simp only [mem_items_iff]
  constructor
  · rintro ⟨n, head, hn, hi⟩
    obtain ⟨old, hold, heq⟩ := heads_del hcompute hcompare hp hn
    rw [heq, List.mem_filter] at hi
    exact ⟨⟨n, old, hold, hi.1⟩, by simpa using hi.2⟩
  · rintro ⟨⟨n, old, hold, hi⟩, hk⟩
    obtain ⟨head, hn⟩ : ∃ head, (tab.del compute compare k).heads[n]? = some head := by
      simp [del, List.getElem?_modify, hold]
    obtain ⟨old', hold', heq⟩ := heads_del hcompute hcompare hp hn
    obtain rfl := Option.some.inj (hold'.symm.trans hold)
    exact ⟨n, head, hn, by simp [heq, hi, hk]⟩

theorem Placed.del
    (hp : Placed compute key tab)
    (k : Text) :
    Placed compute key (tab.del compute compare k) := by
  have hsize : (tab.del compute compare k).heads.length = tab.heads.length := by
    simp [HashTable.del]
  constructor
  · intro n head hn i hi
    obtain ⟨old, hold, heq⟩ := heads_del hcompute hcompare hp hn
    rw [heq, List.mem_filter] at hi
    rw [hsize]
    exact hp.home n old hold i hi.1
  · intro n head hn
    obtain ⟨old, hold, heq⟩ := heads_del hcompute hcompare hp hn
    rw [heq]
    exact (hp.distinct n old hold).filter _

/-- `hash_add` changes nothing if an item has the key. -/
theorem add_eq_self
    (hp : Placed compute key tab)
    {k : Text} {i : ι}
    (hi : i ∈ tab.items)
    (hk : isStrIdentical k (key i) = true)
    (item : ι) :
    tab.add compute compare k item = tab := by
  obtain ⟨n, head, hn, hmem⟩ := mem_items_iff.mp hi
  have hhome : compute k tab.heads.length = n :=
    (hcompute k (key i) _ hk).trans (hp.home n head hn i hmem)
  have hany : head.items.any (compare k) = true :=
    List.any_eq_true.mpr ⟨i, hmem, (hcompare k i hi).trans hk⟩
  have hheads : (tab.add compute compare k item).heads = tab.heads := by
    refine List.ext_getElem? fun m => ?_
    rw [add, List.getElem?_modify, hhome]
    by_cases hm : n = m
    · subst hm
      simp only [hn, if_true, Option.map_eq_map, Option.map_some, if_pos hany]
    · simp [hm]
  cases tab
  simpa [add] using hheads

omit hcompute in
/-- The collision lists after `hash_add` of a key that no item has. -/
theorem heads_add
    {k : Text}
    (hnew : ∀ i ∈ tab.items, isStrIdentical k (key i) = false)
    (item : ι)
    (n : Nat) :
    (tab.add compute compare k item).heads[n]? =
      tab.heads[n]?.map fun old =>
        if compute k tab.heads.length = n then
          { items := old.items ++ [item], count := old.count + 1 }
        else old := by
  rw [add, List.getElem?_modify]
  cases hold : tab.heads[n]? with
  | none => rfl
  | some old =>
      have hany : ¬ old.items.any (compare k) = true := by
        simp only [List.any_eq_true, not_exists, not_and, Bool.not_eq_true]
        intro i hi
        have hi := mem_items_iff.mpr ⟨n, old, hold, hi⟩
        rw [hcompare k i hi, hnew i hi]
      by_cases hn : compute k tab.heads.length = n
      · simp only [hn, if_true, Option.map_eq_map, Option.map_some, if_neg hany]
      · simp [hn]

omit hcompute in
theorem mem_items_add
    {k : Text}
    (hnew : ∀ i ∈ tab.items, isStrIdentical k (key i) = false)
    (hlt : compute k tab.heads.length < tab.heads.length)
    {item i : ι} :
    i ∈ (tab.add compute compare k item).items ↔ i ∈ tab.items ∨ i = item := by
  have hheads := @heads_add ι compute compare key tab hcompare k hnew item
  simp only [mem_items_iff]
  constructor
  · rintro ⟨n, head, hn, hi⟩
    rw [hheads n] at hn
    obtain ⟨old, hold, rfl⟩ := Option.map_eq_some_iff.mp hn
    split at hi
    · simp only [List.mem_append, List.mem_singleton] at hi
      exact hi.imp_left fun hi => ⟨n, old, hold, hi⟩
    · exact .inl ⟨n, old, hold, hi⟩
  · rintro (⟨n, old, hold, hi⟩ | rfl)
    · refine ⟨n, _, by rw [hheads n, hold]; rfl, ?_⟩
      split
      · exact List.mem_append_left _ hi
      · exact hi
    · obtain ⟨old, hold⟩ : ∃ old, tab.heads[compute k tab.heads.length]? = some old :=
        ⟨_, List.getElem?_eq_getElem hlt⟩
      refine ⟨_, _, by rw [hheads, hold]; rfl, ?_⟩
      simp

omit hcompute in
theorem Placed.add
    (hp : Placed compute key tab)
    {k : Text}
    (hnew : ∀ i ∈ tab.items, isStrIdentical k (key i) = false)
    {item : ι}
    (hkey : key item = k) :
    Placed compute key (tab.add compute compare k item) := by
  have hsize : (tab.add compute compare k item).heads.length = tab.heads.length := by
    simp [HashTable.add]
  have hheads := @heads_add ι compute compare key tab hcompare k hnew item
  constructor
  · intro n head hn i hi
    rw [hheads n] at hn
    obtain ⟨old, hold, rfl⟩ := Option.map_eq_some_iff.mp hn
    rw [hsize]
    split at hi
    · rename_i hhome
      simp only [List.mem_append, List.mem_singleton] at hi
      rcases hi with hi | rfl
      · exact hp.home n old hold i hi
      · rw [hkey, hhome]
    · exact hp.home n old hold i hi
  · intro n head hn
    rw [hheads n] at hn
    obtain ⟨old, hold, rfl⟩ := Option.map_eq_some_iff.mp hn
    have hold' := hp.distinct n old hold
    split
    · refine List.pairwise_append.mpr ⟨hold', List.pairwise_singleton _ _, ?_⟩
      intro i hi j hj
      obtain rfl := List.mem_singleton.mp hj
      have hik := hnew i (mem_items_iff.mpr ⟨n, old, hold, hi⟩)
      rw [hkey]
      simpa [isStrIdentical, eq_comm] using hik
    · exact hold'

end Placed

end HashTable

end Obix
