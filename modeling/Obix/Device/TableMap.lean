import Obix.Device.Links

/-!
# The device table as a finite map

`hash_bkdr` and `is_str_identical` go through the bytes of a href, and each of
them leaves one slash at the end out in its own way.  Here they are loops over
bytes; both agree with the functions on texts (`hashBytes_eq`, `identicalBytes_eq`).

`deviceTable_map` compares every sequence of calls on the table with the same
calls on a finite map from hrefs without that slash.
-/

namespace Obix
namespace Devices

open CString

section Bytes

/-- The bytes of a string. -/
def bytesOf (s : Text) : List UInt8 :=
  s.flatMap String.utf8EncodeChar

/-- `'/'`. -/
def slashByte : UInt8 := 0x2f

/-- The loop of `hash_bkdr`. -/
def bkdrLoop
    (len : Nat) :
    Nat → Nat → List UInt8 → Nat
  | _, hash, [] => hash
  | pos, hash, c :: str =>
      -- skip the trailing slash
      if pos = len - 1 ∧ c = slashByte then hash
      else bkdrLoop len (pos + 1) (bkdrStep hash c) str

/-- `hash_bkdr`. -/
def hashBytes
    (str : List UInt8)
    (tabSize : Nat) :
    Nat :=
  if str.length = 0 ∨ tabSize = 0 then 0
  else bkdrLoop str.length 0 0 str % tabSize

/-- The loop of `is_str_identical`, from the tail to the head. -/
def sameBelow (s t : List UInt8) : Nat → Bool
  | 0 => true
  | i + 1 => s[i]? = t[i]? && sameBelow s t i

/-- The length that `is_str_identical` compares with `lenient == 1`. -/
def lenientLength (s : List UInt8) : Nat :=
  if s[s.length - 1]? = some slashByte then s.length - 1 else s.length

/-- `is_str_identical` with `lenient == 1`. -/
def identicalBytes (s t : List UInt8) : Bool :=
  if lenientLength s ≠ lenientLength t then false
  else if lenientLength s = 0 ∧ lenientLength t = 0 then true
  else sameBelow s t (lenientLength s)

/-- The last byte of a character is a slash for a slash only. -/
theorem getLast?_utf8EncodeChar (c : Char) :
    (String.utf8EncodeChar c).getLast? = some slashByte ↔ c = '/' := by
  have hchar : c = '/' ↔ c.val.toNat = 0x2f := by
    rw [Char.ext_iff, ← UInt32.toNat_inj]
    rfl
  have hbyte : ∀ n : Nat, some (UInt8.ofNat n) = some slashByte ↔ n % 256 = 0x2f := by
    intro n
    rw [Option.some.injEq, ← UInt8.toNat_inj, UInt8.toNat_ofNat']
    rfl
  rw [hchar]
  fun_cases String.utf8EncodeChar with
  | case1 v hv =>
      rw [List.getLast?_singleton, hbyte]
      omega
  | case2 v hv hv' =>
      simp only [List.getLast?_cons_cons, List.getLast?_singleton, hbyte]
      omega
  | case3 v hv hv' hv'' =>
      simp only [List.getLast?_cons_cons, List.getLast?_singleton, hbyte]
      omega
  | case4 v hv hv' hv'' =>
      simp only [List.getLast?_cons_cons, List.getLast?_singleton, hbyte]
      omega

theorem bytesOf_append (s t : Text) : bytesOf (s ++ t) = bytesOf s ++ bytesOf t :=
  List.flatMap_append

theorem bytesOf_slash : bytesOf ['/'] = [slashByte] := by
  decide

/-- Different strings have different bytes. -/
theorem bytesOf_injective : Function.Injective bytesOf := by
  intro s t h
  have hbytes : (String.ofList s).toByteArray = (String.ofList t).toByteArray := by
    rw [String.toByteArray_ofList, String.toByteArray_ofList, List.utf8Encode, List.utf8Encode]
    exact congrArg List.toByteArray h
  exact String.ofList_injective (String.toByteArray_inj.mp hbytes)

theorem bytesOf_eq_nil {s : Text} : bytesOf s = [] ↔ s = [] :=
  bytesOf_injective.eq_iff' rfl

/-- A string ends with a slash exactly when its bytes do. -/
theorem getLast?_bytesOf (s : Text) :
    (bytesOf s).getLast? = some slashByte ↔ slashFollowed s = true := by
  rcases List.eq_nil_or_concat s with rfl | ⟨s, c, rfl⟩
  · decide
  · have hsplit : bytesOf (s.concat c) = bytesOf s ++ String.utf8EncodeChar c := by
      rw [List.concat_eq_append, bytesOf_append]
      simp [bytesOf]
    rw [hsplit, List.getLast?_append_of_ne_nil _ String.utf8EncodeChar_ne_nil,
      getLast?_utf8EncodeChar]
    simp [slashFollowed]

/-- A string is its trimmed part, with a slash or without one at its end. -/
theorem bytesOf_trimSlash (s : Text) :
    (bytesOf s).getLast? ≠ some slashByte ∧ bytesOf (trimSlash s) = bytesOf s ∨
      bytesOf s = bytesOf (trimSlash s) ++ [slashByte] := by
  rcases trimSlash_cases s with ⟨hs, htrim⟩ | htrim
  · left
    rw [Ne, getLast?_bytesOf, hs, htrim]
    exact ⟨Bool.false_ne_true, rfl⟩
  · right
    rw [← bytesOf_slash, ← bytesOf_append, ← htrim]

/-- The loop runs through everything before the last byte. -/
theorem bkdrLoop_append
    (s t : List UInt8)
    {len pos : Nat}
    (hash : Nat)
    (hlen : pos + s.length < len) :
    bkdrLoop len pos hash (s ++ t) = bkdrLoop len (pos + s.length) (s.foldl bkdrStep hash) t := by
  induction s generalizing pos hash with
  | nil => rfl
  | cons c s ih =>
      simp only [List.length_cons] at hlen
      have hpos : ¬ (pos = len - 1 ∧ c = slashByte) := by omega
      rw [List.cons_append, bkdrLoop, if_neg hpos, ih _ (by omega), List.foldl_cons,
        List.length_cons]
      congr 1
      omega

/-- The hash value is that of the string without the slash. -/
theorem hashBytes_eq
    (s : Text)
    (n : Nat) :
    hashBytes (bytesOf s) n = hashBkdr s n := by
  have hnil : (bytesOf s).length = 0 ↔ s = [] := by
    rw [List.length_eq_zero_iff, bytesOf_eq_nil]
  unfold hashBytes hashBkdr
  simp only [hnil]
  split
  · rfl
  · rename_i hs
    obtain ⟨init, c, hc⟩ := List.eq_nil_or_concat (bytesOf s) |>.resolve_left
      fun h => hs (Or.inl (bytesOf_eq_nil.mp h))
    rw [List.concat_eq_append] at hc
    have hlen : (bytesOf s).length = init.length + 1 := by simp [hc]
    have hloop : bkdrLoop (bytesOf s).length 0 0 (bytesOf s) =
        bkdrLoop (init.length + 1) init.length (init.foldl bkdrStep 0) [c] := by
      rw [hlen, hc, bkdrLoop_append init [c] 0 (by omega), Nat.zero_add]
    have hlast : (bytesOf s).getLast? = some c := by simp [hc]
    show _ = (bytesOf (trimSlash s)).foldl bkdrStep 0 % n
    congr 1
    rw [hloop, bkdrLoop]
    rcases bytesOf_trimSlash s with ⟨hne, htrim⟩ | htrim
    · rw [if_neg fun h => hne (by rw [hlast, h.2]), bkdrLoop, htrim, hc, List.foldl_append]
      rfl
    · have happend := htrim.symm.trans hc
      obtain ⟨hinit, hslash⟩ := List.append_inj' happend rfl
      rw [if_pos ⟨by omega, (List.cons.inj hslash).1.symm⟩, hinit]

theorem lenientLength_bytesOf (s : Text) :
    lenientLength (bytesOf s) = (bytesOf (trimSlash s)).length := by
  unfold lenientLength
  rw [← List.getLast?_eq_getElem?]
  rcases bytesOf_trimSlash s with ⟨hne, htrim⟩ | htrim
  · rw [if_neg hne, htrim]
  · rw [if_pos (by rw [htrim]; simp), htrim]
    simp

/-- The loop compares the beginnings. -/
theorem sameBelow_iff
    (s t : List UInt8)
    (n : Nat) :
    sameBelow s t n = true ↔ ∀ i < n, s[i]? = t[i]? := by
  induction n with
  | zero => simp [sameBelow]
  | succ n ih =>
      simp only [sameBelow, Bool.and_eq_true, decide_eq_true_eq, ih]
      constructor
      · rintro ⟨hn, hlow⟩ i hi
        rcases Nat.lt_succ_iff_lt_or_eq.mp hi with hi | rfl
        · exact hlow i hi
        · exact hn
      · intro h
        exact ⟨h n (by omega), fun i hi => h i (by omega)⟩

/-- The comparison is that of the strings without the slash. -/
theorem identicalBytes_eq (s t : Text) :
    identicalBytes (bytesOf s) (bytesOf t) = isStrIdentical s t := by
  have hbegin : ∀ (u : Text) (i : Nat), i < (bytesOf (trimSlash u)).length →
      (bytesOf u)[i]? = (bytesOf (trimSlash u))[i]? := by
    intro u i hi
    rcases bytesOf_trimSlash u with ⟨-, htrim⟩ | htrim
    · rw [htrim]
    · rw [htrim, List.getElem?_append_left hi]
  rw [Bool.eq_iff_iff, isStrIdentical, decide_eq_true_eq, ← bytesOf_injective.eq_iff]
  unfold identicalBytes
  rw [lenientLength_bytesOf, lenientLength_bytesOf]
  by_cases hlen : (bytesOf (trimSlash s)).length = (bytesOf (trimSlash t)).length
  · rw [if_neg (not_not.mpr hlen)]
    split
    · rename_i hzero
      rw [List.length_eq_zero_iff.mp hzero.1, List.length_eq_zero_iff.mp hzero.2]
      simp
    · rw [sameBelow_iff]
      constructor
      · intro h
        refine List.ext_getElem? fun i => ?_
        by_cases hi : i < (bytesOf (trimSlash s)).length
        · rw [← hbegin s i hi, h i hi, hbegin t i (hlen ▸ hi)]
        · rw [List.getElem?_eq_none (by omega), List.getElem?_eq_none (by omega)]
      · intro h i hi
        rw [hbegin s i hi, h, hbegin t i (hlen ▸ hi)]
  · rw [if_pos hlen]
    simp only [Bool.false_eq_true, false_iff]
    exact fun h => hlen (congrArg List.length h)

end Bytes

section Operations

variable {ι : Type}

/-- `device_compute_hash` on the bytes of a href. -/
def computeHashBytes
    (href : Text)
    (tabSize : Nat) :
    Nat :=
  if deviceRootHref.isPrefixOf href && deviceRootHref.length < href.length then
    hashBytes (bytesOf (href.drop deviceRootHref.length)) tabSize
  else hashBytes (bytesOf href) tabSize

/-- `device_compare_str` on the bytes of the hrefs. -/
def compareBytes
    (hrefOf : ι → Text)
    (key : Text)
    (item : ι) :
    Bool :=
  identicalBytes (bytesOf key) (bytesOf (hrefOf item))

/-- A call on the table; a device is added under its own href. -/
inductive TableCall (ι : Type)
  | add (item : ι)
  | del (key : Text)
  | search (key : Text)

/-- What a call does to the table, and what a search returns. -/
def TableCall.run
    (hrefOf : ι → Text) :
    TableCall ι → HashTable ι → HashTable ι × Option ι
  | add item, tab => (tab.add computeHashBytes (compareBytes hrefOf) (hrefOf item) item, none)
  | del key, tab => (tab.del computeHashBytes (compareBytes hrefOf) key, none)
  | search key, tab => (tab, tab.search computeHashBytes (compareBytes hrefOf) key)

/-- What a call does to a finite map whose keys have no slash at the end. -/
def TableCall.runMap
    (hrefOf : ι → Text) :
    TableCall ι → (Text → Option ι) → (Text → Option ι) × Option ι
  | add item, m =>
      let key := trimSlash (hrefOf item)
      (if (m key).isSome then m else Function.update m key (some item), none)
  | del key, m => (Function.update m (trimSlash key) none, none)
  | search key, m => (m, m (trimSlash key))

/-- Calls one after the other, with what they return. -/
def runCalls
    {σ : Type}
    (run : TableCall ι → σ → σ × Option ι) :
    List (TableCall ι) → σ → σ × List (Option ι)
  | [], s => (s, [])
  | c :: cs, s =>
      let first := run c s
      let rest := runCalls run cs first.1
      (rest.1, first.2 :: rest.2)

/-- A table that holds the entries of a map, each of them once. -/
structure Holds
    (hrefOf : ι → Text)
    (size : Nat)
    (tab : HashTable ι)
    (m : Text → Option ι) :
    Prop where
  size : tab.heads.length = size
  placed : tab.Placed deviceComputeHash hrefOf
  entry : ∀ (key : Text) (i : ι),
    m key = some i ↔ i ∈ tab.items ∧ trimSlash (hrefOf i) = key
  counted : ∀ head ∈ tab.heads, head.count = head.items.length

variable {hrefOf : ι → Text} {size : Nat} {tab : HashTable ι} {m : Text → Option ι}

theorem computeHashBytes_eq : computeHashBytes = deviceComputeHash := by
  funext href n
  unfold computeHashBytes deviceComputeHash
  rw [hashBytes_eq, hashBytes_eq]

theorem compareBytes_eq
    (hrefOf : ι → Text) :
    compareBytes hrefOf = fun key item => isStrIdentical key (hrefOf item) := by
  funext key item
  exact identicalBytes_eq key (hrefOf item)

theorem trimSlash_of_identical
    {s t : Text} :
    isStrIdentical s t = true ↔ trimSlash s = trimSlash t := by
  rw [isStrIdentical, decide_eq_true_eq]

theorem holds_init
    (hrefOf : ι → Text)
    (size : Nat) :
    Holds hrefOf size (HashTable.init size) fun _ => none where
  size := List.length_replicate
  placed := HashTable.placed_init _ _ _
  entry := by simp
  counted := by
    intro head hhead
    rw [List.eq_of_mem_replicate hhead]
    rfl

section Steps

variable (h : Holds hrefOf size tab m)
include h

/-- A search returns the entry of the map. -/
theorem Holds.search (key : Text) :
    tab.search deviceComputeHash (fun key item => isStrIdentical key (hrefOf item)) key =
      m (trimSlash key) := by
  cases hfound : tab.search deviceComputeHash
      (fun key item => isStrIdentical key (hrefOf item)) key with
  | some i =>
      obtain ⟨hi, hid⟩ := HashTable.mem_of_search hfound
      exact ((h.entry _ _).mpr ⟨hi, (trimSlash_of_identical.mp hid).symm⟩).symm
  | none =>
      have hnone := HashTable.not_identical_of_search deviceComputeHash_congr (fun _ _ _ => rfl)
        h.placed hfound
      cases hm : m (trimSlash key) with
      | none => rfl
      | some i =>
          obtain ⟨hi, hkey⟩ := (h.entry _ _).mp hm
          have hid := trimSlash_of_identical.mpr hkey.symm
          rw [hnone i hi] at hid
          cases hid

theorem Holds.del (key : Text) :
    Holds hrefOf size
      (tab.del deviceComputeHash (fun key item => isStrIdentical key (hrefOf item)) key)
      (Function.update m (trimSlash key) none) where
  size := by rw [HashTable.del, List.length_modify, h.size]
  placed := HashTable.Placed.del deviceComputeHash_congr (fun _ _ _ => rfl) h.placed key
  entry := by
    intro k i
    rw [HashTable.mem_items_del deviceComputeHash_congr (fun _ _ _ => rfl) h.placed,
      ← Bool.not_eq_true, trimSlash_of_identical]
    by_cases hk : k = trimSlash key
    · subst hk
      rw [Function.update_self]
      constructor
      · intro hnone
        cases hnone
      · rintro ⟨⟨-, hne⟩, heq⟩
        exact absurd heq.symm hne
    · rw [Function.update_of_ne hk, h.entry]
      constructor
      · rintro ⟨hi, rfl⟩
        exact ⟨⟨hi, fun heq => hk heq.symm⟩, rfl⟩
      · rintro ⟨⟨hi, -⟩, heq⟩
        exact ⟨hi, heq⟩
  counted := by
    intro head hhead
    obtain ⟨n, hn⟩ := List.mem_iff_getElem?.mp hhead
    obtain ⟨old, hold, rfl⟩ := HashTable.getElem?_modify_heads hn
    have hcount := h.counted old (List.mem_of_getElem? hold)
    split
    · split
      · rename_i hany
        obtain ⟨i, hi, hid⟩ := List.any_eq_true.mp hany
        dsimp only
        rw [List.length_eraseP_of_mem hi hid, hcount]
      · exact hcount
    · exact hcount

theorem Holds.add
    (hsize : 0 < size)
    (item : ι) :
    Holds hrefOf size
      (tab.add deviceComputeHash (fun key item => isStrIdentical key (hrefOf item))
        (hrefOf item) item)
      (if (m (trimSlash (hrefOf item))).isSome then m
        else Function.update m (trimSlash (hrefOf item)) (some item)) := by
  cases hm : m (trimSlash (hrefOf item)) with
  | some i =>
      -- the key is there already
      obtain ⟨hi, hkey⟩ := (h.entry _ _).mp hm
      rw [HashTable.add_eq_self deviceComputeHash_congr (fun _ _ _ => rfl) h.placed hi
        (trimSlash_of_identical.mpr hkey.symm)]
      exact h
  | none =>
      have hnew : ∀ i ∈ tab.items, isStrIdentical (hrefOf item) (hrefOf i) = false := by
        intro i hi
        by_contra hid
        have hkey := trimSlash_of_identical.mp (by simpa using hid)
        rw [(h.entry _ i).mpr ⟨hi, hkey.symm⟩] at hm
        cases hm
      have hlt := deviceComputeHash_lt (h.size ▸ hsize) (hrefOf item)
      refine ⟨?_, ?_, ?_, ?_⟩
      · rw [HashTable.add, List.length_modify, h.size]
      · exact HashTable.Placed.add (fun _ _ _ => rfl) h.placed hnew rfl
      · intro k i
        rw [HashTable.mem_items_add (fun _ _ _ => rfl) hnew hlt]
        by_cases hk : k = trimSlash (hrefOf item)
        · subst hk
          rw [if_neg (by simp), Function.update_self, Option.some.injEq]
          constructor
          · rintro rfl
            exact ⟨.inr rfl, rfl⟩
          · rintro ⟨hi | rfl, hkey⟩
            · rw [(h.entry _ i).mpr ⟨hi, hkey⟩] at hm
              cases hm
            · rfl
        · rw [if_neg (by simp), Function.update_of_ne hk, h.entry]
          constructor
          · rintro ⟨hi, hkey⟩
            exact ⟨.inl hi, hkey⟩
          · rintro ⟨hi | rfl, hkey⟩
            · exact ⟨hi, hkey⟩
            · exact absurd hkey.symm hk
      · intro head hhead
        obtain ⟨n, hn⟩ := List.mem_iff_getElem?.mp hhead
        obtain ⟨old, hold, rfl⟩ := HashTable.getElem?_modify_heads hn
        have hcount := h.counted old (List.mem_of_getElem? hold)
        split
        · split
          · exact hcount
          · dsimp only
            rw [List.length_append, hcount]
            rfl
        · exact hcount

/-- One call keeps the table and the map together, and they return the same. -/
theorem Holds.run
    (hsize : 0 < size)
    (c : TableCall ι) :
    Holds hrefOf size (c.run hrefOf tab).1 (c.runMap hrefOf m).1 ∧
      (c.run hrefOf tab).2 = (c.runMap hrefOf m).2 := by
  cases c with
  | add item =>
      refine ⟨?_, rfl⟩
      rw [TableCall.run, TableCall.runMap, computeHashBytes_eq, compareBytes_eq]
      exact h.add hsize item
  | del key =>
      refine ⟨?_, rfl⟩
      rw [TableCall.run, TableCall.runMap, computeHashBytes_eq, compareBytes_eq]
      exact h.del key
  | search key =>
      refine ⟨h, ?_⟩
      rw [TableCall.run, TableCall.runMap, computeHashBytes_eq, compareBytes_eq]
      exact h.search key

/-- No two entries have the same key. -/
theorem Holds.distinct :
    tab.items.Pairwise fun i j => trimSlash (hrefOf i) ≠ trimSlash (hrefOf j) := by
  refine h.placed.nodup.imp_of_mem fun {i j} hi hj hne heq => hne ?_
  exact h.placed.eq_of_identical deviceComputeHash_congr hi hj (trimSlash_of_identical.mpr heq)

/-- Deleting a key takes its entry out of the lists and leaves the others in their order. -/
theorem Holds.items_del (key : Text) :
    (tab.del computeHashBytes (compareBytes hrefOf) key).items =
      tab.items.filter fun i => trimSlash key ≠ trimSlash (hrefOf i) := by
  rw [computeHashBytes_eq, compareBytes_eq]
  have hfilter : (fun i => decide (trimSlash key ≠ trimSlash (hrefOf i))) =
      fun i => !isStrIdentical key (hrefOf i) := by
    funext i
    rw [isStrIdentical, ← decide_not]
  rw [HashTable.items, HashTable.items, List.filter_flatMap, hfilter, List.flatMap_def,
    List.flatMap_def]
  congr 1
  refine List.ext_getElem? fun n => ?_
  rw [List.getElem?_map, List.getElem?_map]
  cases hold : tab.heads[n]? with
  | none => simpa [HashTable.del] using List.getElem?_eq_none_iff.mp hold
  | some old =>
      obtain ⟨head, hhead⟩ : ∃ head, (tab.del deviceComputeHash
          (fun key item => isStrIdentical key (hrefOf item)) key).heads[n]? = some head := by
        simp [HashTable.del, List.getElem?_modify, hold]
      obtain ⟨old', hold', hitems⟩ :=
        HashTable.heads_del deviceComputeHash_congr (fun _ _ _ => rfl) h.placed hhead
      obtain rfl := Option.some.inj (hold'.symm.trans hold)
      rw [hhead, Option.map_some, Option.map_some, hitems]

end Steps

theorem Holds.runCalls
    (hsize : 0 < size)
    (calls : List (TableCall ι))
    (h : Holds hrefOf size tab m) :
    Holds hrefOf size (runCalls (TableCall.run hrefOf) calls tab).1
        (runCalls (TableCall.runMap hrefOf) calls m).1 ∧
      (runCalls (TableCall.run hrefOf) calls tab).2 =
        (runCalls (TableCall.runMap hrefOf) calls m).2 := by
  induction calls generalizing tab m with
  | nil => exact ⟨h, rfl⟩
  | cons c calls ih =>
      obtain ⟨hstep, hout⟩ := h.run hsize c
      obtain ⟨hrest, houts⟩ := ih hstep
      exact ⟨hrest, congrArg₂ List.cons hout houts⟩

/-- The table is a finite map from hrefs without a slash at their end: hrefs that are equal up to
that slash reach the same bucket, no key is stored twice, every count is the length of its list,
and a search or a deletion meets the entry of its key only. -/
theorem deviceTable_map
    (hrefOf : ι → Text)
    (size : Nat)
    (hsize : 0 < size)
    (calls : List (TableCall ι)) :
    let table := runCalls (TableCall.run hrefOf) calls (HashTable.init size)
    let map := runCalls (TableCall.runMap hrefOf) calls fun _ => none
    table.2 = map.2 ∧
      (∀ key, table.1.search computeHashBytes (compareBytes hrefOf) key = map.1 (trimSlash key)) ∧
      (∀ key i, map.1 key = some i ↔ i ∈ table.1.items ∧ trimSlash (hrefOf i) = key) ∧
      (∀ s t, trimSlash s = trimSlash t →
        computeHashBytes s table.1.heads.length = computeHashBytes t table.1.heads.length ∧
          computeHashBytes s table.1.heads.length < table.1.heads.length) ∧
      table.1.items.Pairwise (fun i j => trimSlash (hrefOf i) ≠ trimSlash (hrefOf j)) ∧
      (∀ head ∈ table.1.heads, head.count = head.items.length) ∧
      ∀ key, (table.1.del computeHashBytes (compareBytes hrefOf) key).items =
        table.1.items.filter fun i => trimSlash key ≠ trimSlash (hrefOf i) := by
  obtain ⟨h, hout⟩ := (holds_init hrefOf size).runCalls hsize calls
  refine ⟨hout, fun key => ?_, h.entry, fun s t hst => ?_, h.distinct, h.counted, h.items_del⟩
  · rw [computeHashBytes_eq, compareBytes_eq]
    exact h.search key
  · rw [h.size, computeHashBytes_eq]
    exact ⟨deviceComputeHash_congr s t size (trimSlash_of_identical.mpr hst),
      deviceComputeHash_lt hsize s⟩

/-- A device is found with a slash more, and is not added twice. -/
theorem deviceTable_map_lamp :
    0 < 3 ∧
      (runCalls (TableCall.run id)
        [.add "/obix/deviceRoot/lamp".toList, .add "/obix/deviceRoot/lamp/".toList,
          .search "/obix/deviceRoot/lamp/".toList] (HashTable.init 3)).2 =
      (runCalls (TableCall.runMap id)
        [.add "/obix/deviceRoot/lamp".toList, .add "/obix/deviceRoot/lamp/".toList,
          .search "/obix/deviceRoot/lamp/".toList] fun _ => none).2 :=
  ⟨by decide, (deviceTable_map id 3 (by decide) _).1⟩

end Operations

end Devices
end Obix
