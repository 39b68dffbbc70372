import Obix.Lib.Blocks
import Obix.Utils.Reltime

/-!
# Sets of quanta

`inputWriter`, `curl_get_data` and `curl_save_data` of `curl_ext.c`.  Received data is scattered
over quanta, a set of which has an array of its own; sets and quanta are allocated when they are
first written to, and they are kept for later responses.  The quanta of all sets in one sequence
hold the data, and a transfer appends its chunks (`receive_stored`).

An `int` product that overflows, a division by zero, a null pointer and an index out of range are
the answer `none`.  Neither an allocation nor a `write` fails.
-/

namespace Obix
namespace Client

open Blocks

section Model

/-- A byte in memory, `none` if nothing has been written there. -/
abbrev Cell := Option UInt8

/-- `sizeof(char *)`. -/
def pointerSize : Nat := 8

/-- `qset_t`: an array of quanta, none of which need be allocated. -/
structure QSet where
  data : Option (List (Option (List Cell)))
  deriving DecidableEq, Repr

/-- What `inputBuffer` points to. -/
inductive InputBuffer
  | null
  /-- The first quantum. -/
  | quantum
  /-- Memory that `curl_get_data` has allocated. -/
  | own (cells : List Cell)
  deriving DecidableEq, Repr

/-- `CURL_EXT`, as far as it is about received data. -/
structure CurlExt where
  data : List QSet
  inputPos : Nat
  quantum : Nat
  qsetSize : Nat
  inputBuffer : InputBuffer
  separated : Bool
  deriving DecidableEq, Repr

/-- `curl_ext_allocateMemory` with the answer of `quantum_size`. -/
def curlExtAllocateMemory (quantum : Nat) : CurlExt where
  data := []
  inputPos := 0
  quantum := quantum
  qsetSize := quantum / pointerSize
  inputBuffer := .null
  separated := false

/-- `qset_follow`: the sets after the walk to one of them, which creates the missing ones. -/
def qsetFollow : List QSet → Nat → List QSet
  | [], 0 => [{ data := none }]
  | [], n + 1 => { data := none } :: qsetFollow [] n
  | qs :: rest, 0 => qs :: rest
  | qs :: rest, n + 1 => qs :: qsetFollow rest n

/-- The quantum that `qs->data[j]` points to for the set `i`. -/
def quantumAt (sets : List QSet) (i j : Nat) : Option (List Cell) :=
  (sets[i]?).bind fun qs => qs.data.bind fun quanta => (quanta[j]?).join

/-- Other bytes in the quantum `j` of the set `i`. -/
def setQuantum (sets : List QSet) (i j : Nat) (cells : List Cell) : List QSet :=
  sets.modify i fun qs => { data := qs.data.map fun quanta => quanta.set j (some cells) }

/-- `memcpy` into a quantum. -/
def copyToQuantum (sets : List QSet) (i j off : Nat) (src : List Cell) : Option (List QSet) :=
  (quantumAt sets i j).bind fun cells =>
    (overwrite cells off src).map fun cells => setQuantum sets i j cells

/-- An array of quanta, allocated and zeroed out if it is missing. -/
def QSet.allocArray (quantum : Nat) (qs : QSet) : List (Option (List Cell)) :=
  qs.data.getD (List.replicate (quantum / pointerSize) none)

/-- The sets after a quantum has been allocated, if it is missing. -/
def allocQuantum (quantum : Nat) (sets : List QSet) (i j : Nat) : List QSet :=
  (qsetFollow sets i).modify i fun qs =>
    { data := some ((qs.allocArray quantum).modify j fun cells =>
        some (cells.getD (List.replicate quantum none))) }

/-- `node_size`, the capacity of a set. -/
def CurlExt.nodeSize (h : CurlExt) : Option Nat :=
  if h.quantum * h.qsetSize ≤ intMax then some (h.quantum * h.qsetSize) else none

/-- The loop of `inputWriter`. -/
def inputWriterLoop
    (nodeSize : Nat)
    (inputData : List UInt8) :
    Nat → CurlExt → Nat → Int → Option CurlExt
  | 0, h, num, _ => if num = 0 then some h else none
  | fuel + 1, h, num, copied =>
      if num = 0 then some h
      else if nodeSize = 0 ∨ h.quantum = 0 ∨ copied < 0 then none
      else
        let node := h.inputPos / nodeSize
        let nPos := h.inputPos % nodeSize
        let quantum := nPos / h.quantum
        let qPos := nPos % h.quantum
        let room := h.quantum - qPos
        let len := if num ≤ room then num else room
        (region inputData copied.toNat len).bind fun src =>
          (copyToQuantum (allocQuantum h.quantum h.data node quantum) node quantum qPos
            (src.map some)).bind fun sets =>
              inputWriterLoop nodeSize inputData fuel
                { h with data := sets, inputPos := h.inputPos + len } (num - len)
                (asInt (copied + len))

/-- `inputWriter`, with the number of bytes that it has saved. -/
def inputWriter (h : CurlExt) (inputData : List UInt8) : Option (CurlExt × Nat) :=
  h.nodeSize.bind fun nodeSize =>
    (inputWriterLoop nodeSize inputData inputData.length h inputData.length 0).map fun h =>
      (h, inputData.length)

/-- A transfer: the callback runs for one chunk after the other until it saves too little. -/
def receive : CurlExt → List (List UInt8) → Option CurlExt
  | h, [] => some h
  | h, chunk :: chunks =>
      (inputWriter h chunk).bind fun r =>
        if r.2 = chunk.length then receive r.1 chunks else none

section Readers

variable {σ : Type}

/-- The local variables of the loops of a reader, with what it has made so far. -/
structure ReadState (σ : Type) where
  num : Nat
  copied : Nat
  out : σ

variable (use : σ → Nat → List Cell → Option σ)

/-- The inner loop of a reader, over the quanta of the set `i`. -/
def readQuanta (h : CurlExt) (i : Nat) : Nat → Nat → ReadState σ → Option (ReadState σ)
  | 0, _, st => some st
  | left + 1, j, st =>
      let toRead := if st.num ≤ h.quantum then st.num else h.quantum
      (quantumAt h.data i j).bind fun cells =>
        (region cells 0 toRead).bind fun src =>
          (use st.out st.copied src).bind fun out =>
            if st.copied + toRead = h.inputPos then
              some { num := st.num - toRead, copied := st.copied + toRead, out := out }
            else
              readQuanta h i left (j + 1)
                { num := st.num - toRead, copied := st.copied + toRead, out := out }

/-- The outer loop of a reader, over the sets. -/
def readSets : Nat → Nat → CurlExt → ReadState σ → Option (CurlExt × ReadState σ)
  | 0, _, h, st => some (h, st)
  | left + 1, i, h, st =>
      if st.copied < h.inputPos then
        let h := { h with data := qsetFollow h.data i }
        (readQuanta use h i h.qsetSize 0 st).bind fun st => readSets left (i + 1) h st
      else some (h, st)

/-- The two loops of a reader. -/
def readData (h : CurlExt) (out : σ) : Option (CurlExt × σ) :=
  h.nodeSize.bind fun nodeSize =>
    if nodeSize = 0 then none
    else
      (readSets use (h.inputPos / nodeSize + 1) 0 h
        { num := h.inputPos, copied := 0, out := out }).map fun r => (r.1, r.2.out)

end Readers

/-- `free` of an `inputBuffer` that is memory of its own. -/
def freeSeparated (h : CurlExt) : Option CurlExt :=
  if h.separated then
    match h.inputBuffer with
    | .own _ => some { h with separated := false }
    | _ => none
  else some h

/-- `curl_get_data`: the memory that `data` points to, and the size. -/
def curlGetData (h : CurlExt) : Option (CurlExt × Option (List Cell) × Int) :=
  if h.inputPos = 0 then some (h, none, 0)
  else
    (freeSeparated h).bind fun h =>
      if h.inputPos + 1 ≤ h.quantum then
        (copyToQuantum h.data 0 0 h.inputPos [some 0]).map fun sets =>
          ({ h with data := sets, inputBuffer := .quantum }, quantumAt sets 0 0,
            asInt h.inputPos)
      else
        (readData (fun buf copied src => overwrite buf copied src) h
          (List.replicate (h.inputPos + 1) none)).bind fun r =>
            (overwrite r.2 h.inputPos [some 0]).map fun buf =>
              ({ r.1 with inputBuffer := .own buf, separated := true }, some buf,
                asInt h.inputPos)

/-- `curl_save_data`, with what is in the file. -/
def curlSaveData (h : CurlExt) (file : List Cell) : Option (CurlExt × List Cell) :=
  readData (fun file _ src => some (file ++ src)) h file

/-- The handles that earlier responses may leave. -/
inductive Reached (quantum : Nat) : CurlExt → Prop
  | allocated : Reached quantum (curlExtAllocateMemory quantum)
  | reset {h : CurlExt} : Reached quantum h → Reached quantum { h with inputPos := 0 }
  | received {h : CurlExt} {chunk : List UInt8} {r : CurlExt × Nat} :
      Reached quantum h → inputWriter h chunk = some r → Reached quantum r.1
  | got {h : CurlExt} {r : CurlExt × Option (List Cell) × Int} :
      Reached quantum h → curlGetData h = some r → Reached quantum r.1
  | saved {h : CurlExt} {file : List Cell} {r : CurlExt × List Cell} :
      Reached quantum h → curlSaveData h file = some r → Reached quantum r.1

end Model

section Sets

variable {quantum : Nat} {sets : List QSet}

/-- The arrays and the quanta are as large as they are allocated. -/
structure SetsFit (quantum : Nat) (sets : List QSet) : Prop where
  array : ∀ qs ∈ sets, ∀ quanta ∈ qs.data, quanta.length = quantum / pointerSize
  cells : ∀ i j cells, quantumAt sets i j = some cells → cells.length = quantum

theorem qsetFollow_of_lt
    {i : Nat}
    (h : i < sets.length) :
    qsetFollow sets i = sets := by
  induction sets generalizing i with
  | nil => simp at h
  | cons qs sets ih =>
      cases i with
      | zero => rfl
      | succ i => rw [qsetFollow, ih (by simpa using h)]

/-- A walk to a set creates sets without quanta only. -/
theorem getElem?_qsetFollow (sets : List QSet) (i k : Nat) :
    (qsetFollow sets i)[k]? = sets[k]? ∨
      sets[k]? = none ∧ (qsetFollow sets i)[k]? = some { data := none } := by
  induction i generalizing sets k with
  | zero =>
      cases sets with
      | nil =>
          cases k with
          | zero => exact .inr ⟨rfl, rfl⟩
          | succ k => exact .inl rfl
      | cons qs sets => exact .inl rfl
  | succ i ih =>
      cases sets with
      | nil =>
          cases k with
          | zero => exact .inr ⟨rfl, rfl⟩
          | succ k => simpa [qsetFollow] using ih [] k
      | cons qs sets =>
          cases k with
          | zero => exact .inl rfl
          | succ k => simpa [qsetFollow] using ih sets k

theorem exists_qsetFollow (sets : List QSet) (i : Nat) :
    ∃ qs, (qsetFollow sets i)[i]? = some qs := by
  induction i generalizing sets with
  | zero =>
      cases sets with
      | nil => exact ⟨_, rfl⟩
      | cons qs sets => exact ⟨qs, rfl⟩
  | succ i ih =>
      cases sets with
      | nil => simpa [qsetFollow] using ih []
      | cons qs sets => simpa [qsetFollow] using ih sets

theorem quantumAt_qsetFollow (sets : List QSet) (i k j : Nat) :
    quantumAt (qsetFollow sets i) k j = quantumAt sets k j := by
  unfold quantumAt
  rcases getElem?_qsetFollow sets i k with h | ⟨hnone, h⟩
  · rw [h]
  · rw [hnone, h]
    rfl

theorem SetsFit.follow
    (fit : SetsFit quantum sets)
    (i : Nat) :
    SetsFit quantum (qsetFollow sets i) where
  array := by
    intro qs hqs quanta hquanta
    obtain ⟨k, hk⟩ := List.mem_iff_getElem?.mp hqs
    rcases getElem?_qsetFollow sets i k with h | ⟨-, h⟩
    · rw [h] at hk
      exact fit.array qs (List.mem_of_getElem? hk) quanta hquanta
    · rw [h] at hk
      obtain rfl := Option.some.inj hk
      cases hquanta
  cells := by
    intro k j cells hcells
    rw [quantumAt_qsetFollow] at hcells
    exact fit.cells k j cells hcells

theorem SetsFit.length_allocArray
    (fit : SetsFit quantum sets)
    {qs : QSet}
    (hqs : qs ∈ sets) :
    (qs.allocArray quantum).length = quantum / pointerSize := by
  unfold QSet.allocArray
  cases hdata : qs.data with
  | none => simp
  | some quanta => exact fit.array qs hqs quanta hdata

/-- A missing array has no quanta, like a new one. -/
theorem quantum_allocArray (qs : QSet) (j : Nat) :
    (qs.data.bind fun quanta : List (Option (List Cell)) => (quanta[j]?).join) =
      ((qs.allocArray quantum)[j]?).join := by
  unfold QSet.allocArray
  cases qs.data with
  | none =>
      rw [Option.getD_none, List.getElem?_replicate]
      split
      · rfl
      · rfl
  | some quanta => rfl

/-- The quanta of other sets are not changed with a set. -/
theorem quantumAt_modify_ne
    {f : QSet → QSet} {i k : Nat}
    (h : i ≠ k)
    (j : Nat) :
    quantumAt (sets.modify i f) k j = quantumAt sets k j := by
  unfold quantumAt
  rw [List.getElem?_modify_ne f sets h]

theorem quantumAt_modify_eq (f : QSet → QSet) (sets : List QSet) (i j : Nat) :
    quantumAt (sets.modify i f) i j =
      (sets[i]?).bind fun qs => (f qs).data.bind fun quanta => (quanta[j]?).join := by
  unfold quantumAt
  rw [List.getElem?_modify_eq]
  cases sets[i]? with
  | none => rfl
  | some qs => rfl

/-- Only the quantum that is copied to has other bytes. -/
theorem quantumAt_setQuantum
    {i j : Nat} {old : List Cell}
    (h : quantumAt sets i j = some old)
    (cells : List Cell)
    (k l : Nat) :
    quantumAt (setQuantum sets i j cells) k l =
      if k = i ∧ l = j then some cells else quantumAt sets k l := by
  unfold setQuantum
  by_cases hk : i = k
  · subst hk
    rw [quantumAt_modify_eq]
    unfold quantumAt at h ⊢
    obtain ⟨qs, hqs, h⟩ := Option.bind_eq_some_iff.mp h
    obtain ⟨quanta, hquanta, h⟩ := Option.bind_eq_some_iff.mp h
    rw [hqs, Option.bind_some, Option.bind_some, hquanta, Option.map_some, Option.bind_some,
      Option.bind_some]
    by_cases hl : l = j
    · subst hl
      have hlt : l < quanta.length := by
        by_contra hge
        rw [List.getElem?_eq_none (by omega)] at h
        cases h
      rw [List.getElem?_set_self hlt, if_pos ⟨rfl, rfl⟩]
      rfl
    · rw [List.getElem?_set_ne (Ne.symm hl), if_neg (fun hboth => hl hboth.2)]
  · rw [quantumAt_modify_ne hk, if_neg (fun hboth => hk hboth.1.symm)]

/-- A quantum of a set is there once it is allocated, and the others are as they were. -/
theorem quantumAt_allocQuantum
    (fit : SetsFit quantum sets)
    {j : Nat}
    (hj : j < quantum / pointerSize)
    (i k l : Nat) :
    quantumAt (allocQuantum quantum sets i j) k l =
      if k = i ∧ l = j then some ((quantumAt sets i j).getD (List.replicate quantum none))
      else quantumAt sets k l := by
  unfold allocQuantum
  by_cases hk : i = k
  · subst hk
    have hsame : quantumAt sets i l = quantumAt (qsetFollow sets i) i l :=
      (quantumAt_qsetFollow sets i i l).symm
    have hsame' : quantumAt sets i j = quantumAt (qsetFollow sets i) i j :=
      (quantumAt_qsetFollow sets i i j).symm
    rw [quantumAt_modify_eq, hsame, hsame']
    unfold quantumAt
    obtain ⟨qs, hqs⟩ := exists_qsetFollow sets i
    have harray := (fit.follow i).length_allocArray (List.mem_of_getElem? hqs)
    simp only [hqs, Option.bind_some, @quantum_allocArray quantum qs]
    by_cases hl : l = j
    · subst hl
      rw [List.getElem?_modify_eq, List.getElem?_eq_getElem (harray.symm ▸ hj), if_pos ⟨trivial, rfl⟩]
      rfl
    · rw [List.getElem?_modify_ne _ _ (Ne.symm hl), if_neg (fun hboth => hl hboth.2)]
  · rw [quantumAt_modify_ne hk, quantumAt_qsetFollow, if_neg (fun hboth => hk hboth.1.symm)]

/-- Arrays keep their lengths when a set is changed so that its array does. -/
theorem SetsFit.modify
    (fit : SetsFit quantum sets)
    {f : QSet → QSet} {i : Nat}
    (hf : ∀ qs ∈ sets, ∀ quanta ∈ (f qs).data, quanta.length = quantum / pointerSize)
    (hcells : ∀ k l cells, quantumAt (sets.modify i f) k l = some cells → cells.length = quantum) :
    SetsFit quantum (sets.modify i f) where
  array := by
    intro qs hqs quanta hquanta
    obtain ⟨k, hk⟩ := List.mem_iff_getElem?.mp hqs
    rw [List.getElem?_modify] at hk
    obtain ⟨qs', hqs', rfl⟩ := Option.map_eq_some_iff.mp hk
    have hmem := List.mem_of_getElem? hqs'
    split at hquanta
    · exact hf qs' hmem quanta hquanta
    · exact fit.array qs' hmem quanta hquanta
  cells := hcells

theorem SetsFit.alloc
    (fit : SetsFit quantum sets)
    {j : Nat}
    (hj : j < quantum / pointerSize)
    (i : Nat) :
    SetsFit quantum (allocQuantum quantum sets i j) := by
  refine (fit.follow i).modify ?_ ?_
  · rintro qs hqs quanta ⟨⟩
    rw [List.length_modify, (fit.follow i).length_allocArray hqs]
  · intro k l cells hcells
    have hlookup := quantumAt_allocQuantum fit hj i k l
    unfold allocQuantum at hlookup
    rw [hlookup] at hcells
    split at hcells
    · obtain rfl := Option.some.inj hcells
      cases hold : quantumAt sets i j with
      | none => simp
      | some old => exact fit.cells i j old hold
    · exact fit.cells k l cells hcells

theorem SetsFit.copy
    (fit : SetsFit quantum sets)
    {i j off : Nat} {src : List Cell} {sets' : List QSet}
    (h : copyToQuantum sets i j off src = some sets') :
    SetsFit quantum sets' := by
  obtain ⟨old, hold, h⟩ := Option.bind_eq_some_iff.mp h
  obtain ⟨new, hnew, rfl⟩ := Option.map_eq_some_iff.mp h
  refine fit.modify ?_ ?_
  · intro qs hqs quanta hquanta
    obtain ⟨quanta', hquanta', rfl⟩ := Option.map_eq_some_iff.mp hquanta
    rw [List.length_set, fit.array qs hqs quanta' hquanta']
  · intro k l cells hcells
    have hlookup := quantumAt_setQuantum hold new k l
    unfold setQuantum at hlookup
    rw [hlookup] at hcells
    split at hcells
    · obtain rfl := Option.some.inj hcells
      rw [length_overwrite hnew, fit.cells i j old hold]
    · exact fit.cells k l cells hcells

/-- Bytes are copied behind the beginning of a quantum. -/
theorem copyToQuantum_append
    (fit : SetsFit quantum sets)
    {i j : Nat} {old t src : List Cell}
    (hold : quantumAt sets i j = some old)
    (hbegins : t <+: old)
    (hroom : t.length + src.length ≤ quantum) :
    ∃ sets' new, copyToQuantum sets i j t.length src = some sets' ∧
      quantumAt sets' i j = some new ∧ t ++ src <+: new ∧
      ∀ k l, ¬ (k = i ∧ l = j) → quantumAt sets' k l = quantumAt sets k l := by
  obtain ⟨new, hnew, happend⟩ :=
    overwrite_append hbegins (hroom.trans_eq (fit.cells i j old hold).symm)
  have hlookup := quantumAt_setQuantum hold new
  refine ⟨setQuantum sets i j new, new, ?_, ?_, happend, ?_⟩
  · rw [copyToQuantum, hold, Option.bind_some, hnew, Option.map_some]
  · rw [hlookup, if_pos ⟨rfl, rfl⟩]
  · intro k l hne
    rw [hlookup, if_neg hne]

end Sets

section Writing

variable {quantum : Nat} {h : CurlExt} {text : List UInt8}

/-- What holds of a handle at any time. -/
structure WellFormed (quantum : Nat) (h : CurlExt) : Prop where
  size : h.quantum = quantum
  array : h.qsetSize = quantum / pointerSize
  fit : SetsFit quantum h.data
  buffer : h.separated = true → ∃ cells, h.inputBuffer = .own cells

/-- The quanta of all sets in one sequence. -/
def block (quantum : Nat) (sets : List QSet) (b : Nat) : Option (List Cell) :=
  quantumAt sets (b / (quantum / pointerSize)) (b % (quantum / pointerSize))

/-- A handle with a text as the data that it has received. -/
structure Stored (quantum : Nat) (h : CurlExt) (text : List UInt8) : Prop
    extends WellFormed quantum h where
  pos : h.inputPos = text.length
  holds : Holds quantum (block quantum h.data) (text.map some)

/-- Other sets of the right sizes, at any position. -/
theorem WellFormed.withData
    (wf : WellFormed quantum h)
    {sets : List QSet}
    (fit : SetsFit quantum sets)
    (pos : Nat) :
    WellFormed quantum { h with data := sets, inputPos := pos } where
  size := wf.size
  array := wf.array
  fit := fit
  buffer := wf.buffer

theorem WellFormed.stored_nil
    (wf : WellFormed quantum h) :
    Stored quantum { h with inputPos := 0 } [] where
  toWellFormed := wf.withData wf.fit 0
  pos := rfl
  holds := holds_nil

theorem quantum_pos
    (hquantum : pointerSize ≤ quantum) :
    0 < quantum :=
  (show 0 < pointerSize by decide).trans_le hquantum

theorem arrayLength_pos
    (hquantum : pointerSize ≤ quantum) :
    0 < quantum / pointerSize :=
  Nat.div_pos hquantum (by decide)

theorem capacity_pos
    (hquantum : pointerSize ≤ quantum) :
    0 < quantum * (quantum / pointerSize) :=
  Nat.mul_pos (quantum_pos hquantum) (arrayLength_pos hquantum)

theorem WellFormed.nodeSize_eq
    (wf : WellFormed quantum h)
    (hnode : quantum * (quantum / pointerSize) ≤ intMax) :
    h.nodeSize = some (quantum * (quantum / pointerSize)) := by
  rw [CurlExt.nodeSize, wf.size, wf.array, if_pos hnode]

/-- Two blocks are in the same place of the same set only if they are the same. -/
theorem block_ne
    {b c n : Nat}
    (h : b ≠ c) :
    ¬ (b / n = c / n ∧ b % n = c % n) := by
  rintro ⟨hdiv, hmod⟩
  have hb := Nat.div_add_mod b n
  have hc := Nat.div_add_mod c n
  rw [hdiv, hmod, hc] at hb
  exact h hb.symm

/-- What is copied behind the end of the data, inside of its last quantum, is appended to it. -/
theorem Stored.append
    (st : Stored quantum h text)
    (hquantum : pointerSize ≤ quantum)
    {src : List UInt8}
    (hroom : text.length % quantum + src.length ≤ quantum)
    {node idx : Nat}
    (hnode : text.length / quantum / (quantum / pointerSize) = node)
    (hidx : text.length / quantum % (quantum / pointerSize) = idx) :
    ∃ sets, copyToQuantum (allocQuantum quantum h.data node idx) node idx (text.length % quantum)
        (src.map some) = some sets ∧
      Stored quantum { h with data := sets, inputPos := h.inputPos + src.length }
        (text ++ src) := by
  have hpos := quantum_pos hquantum
  have hlt : idx < quantum / pointerSize := hidx ▸ Nat.mod_lt _ (arrayLength_pos hquantum)
  have halloc := quantumAt_allocQuantum st.fit hlt node
  have hat : ∀ sets, block quantum sets ((text.map some).length / quantum) =
      quantumAt sets node idx := by
    intro sets
    rw [block, List.length_map, hnode, hidx]
  have hold := halloc node idx
  rw [if_pos ⟨rfl, rfl⟩] at hold
  -- an old quantum begins with the data of the last block, and with a new one there is no such data
  have hlast : (text.map some).drop ((text.map some).length / quantum * quantum) <+:
      (quantumAt h.data node idx).getD (List.replicate quantum none) := by
    refine st.holds.last hpos ?_
    intro blk hblk
    rw [hat] at hblk
    rw [hblk]
    rfl
  have hlength : ((text.map some).drop ((text.map some).length / quantum * quantum)).length =
      text.length % quantum := by
    have hsplit := Nat.div_add_mod' text.length quantum
    rw [List.length_drop, List.length_map]
    omega
  have hfits : ((text.map some).drop ((text.map some).length / quantum * quantum)).length +
      (src.map some).length ≤ quantum := by
    rw [hlength, List.length_map]
    exact hroom
  obtain ⟨sets, new, hcopy, hnew, happend, hother⟩ :=
    copyToQuantum_append (st.fit.alloc hlt node) hold hlast hfits
  rw [hlength] at hcopy
  refine ⟨sets, hcopy, ⟨st.withData ((st.fit.alloc hlt node).copy hcopy) _, ?_, ?_⟩⟩
  · rw [List.length_append, ← st.pos]
  · rw [List.map_append]
    refine st.holds.append hpos ?_ ?_ ((hat sets).trans hnew) happend
    · rw [List.length_map, List.length_map]
      exact hroom
    · intro b hb
      rw [List.length_map] at hb
      have hne : ¬ (b / (quantum / pointerSize) = node ∧ b % (quantum / pointerSize) = idx) := by
        rw [← hnode, ← hidx]
        exact block_ne hb
      rw [block, block, hother _ _ hne, halloc, if_neg hne]

/-- The loop of `inputWriter` appends the rest of a chunk. -/
theorem inputWriterLoop_stored
    (hquantum : pointerSize ≤ quantum)
    {inputData : List UInt8}
    (hshort : inputData.length ≤ intMax)
    (st : Stored quantum h text)
    {fuel num copied : Nat}
    (hsplit : copied + num = inputData.length)
    (hfuel : num ≤ fuel) :
    ∃ h', inputWriterLoop (quantum * (quantum / pointerSize)) inputData fuel h num copied =
        some h' ∧
      Stored quantum h' (text ++ inputData.drop copied) := by
  have hpos := quantum_pos hquantum
  have hcap := (capacity_pos hquantum).ne'
  have hdone : ∀ (text : List UInt8) {copied : Nat}, copied = inputData.length →
      text ++ inputData.drop copied = text := by
    rintro text copied rfl
    rw [List.drop_length, List.append_nil]
  induction fuel generalizing h text num copied with
  | zero =>
      rw [inputWriterLoop, if_pos (by omega), hdone text (by omega)]
      exact ⟨h, rfl, st⟩
  | succ fuel ih =>
      rw [inputWriterLoop]
      by_cases hzero : num = 0
      · rw [if_pos hzero, hdone text (by omega)]
        exact ⟨h, rfl, st⟩
      · have hmod := Nat.mod_lt text.length hpos
        rw [if_neg hzero, if_neg (by rw [st.size]; omega)]
        dsimp only
        rw [st.pos, st.size, ← Nat.div_div_eq_div_mul, Nat.mod_mul_right_div_self,
          Nat.mod_mul_right_mod, Int.toNat_natCast]
        obtain ⟨len, hlen⟩ : ∃ len, (if num ≤ quantum - text.length % quantum then num
            else quantum - text.length % quantum) = len := ⟨_, rfl⟩
        have hbounds : 0 < len ∧ len ≤ num ∧ text.length % quantum + len ≤ quantum := by
          rw [← hlen]
          split
          · omega
          · omega
        have hsrc : region inputData copied len = some ((inputData.drop copied).take len) :=
          if_pos (by omega)
        have hsize : ((inputData.drop copied).take len).length = len := by
          rw [List.length_take, List.length_drop]
          omega
        have hroom : text.length % quantum + ((inputData.drop copied).take len).length ≤ quantum :=
          hsize.symm ▸ hbounds.2.2
        obtain ⟨sets, hcopy, st'⟩ := st.append hquantum hroom rfl rfl
        have hrest : copied + len + (num - len) = inputData.length := by omega
        have hfuel' : num - len ≤ fuel := by omega
        obtain ⟨h', hloop, hstored⟩ := ih st' hrest hfuel'
        rw [hsize, st.pos, st.size] at hloop
        rw [hlen, hsrc, Option.bind_some, hcopy, Option.bind_some, ← Nat.cast_add,
          asInt_eq (by omega) (by unfold intMax at hshort; omega)]
        refine ⟨h', hloop, ?_⟩
        rwa [List.append_assoc, ← List.drop_drop, List.take_append_drop] at hstored

/-- `inputWriter` appends a chunk. -/
theorem inputWriter_stored
    (hquantum : pointerSize ≤ quantum)
    (hnode : quantum * (quantum / pointerSize) ≤ intMax)
    (st : Stored quantum h text)
    {chunk : List UInt8}
    (hshort : chunk.length ≤ intMax) :
    ∃ h', inputWriter h chunk = some (h', chunk.length) ∧ Stored quantum h' (text ++ chunk) := by
  obtain ⟨h', hloop, hstored⟩ :=
    inputWriterLoop_stored hquantum hshort st (Nat.zero_add _) le_rfl
  refine ⟨h', ?_, hstored⟩
  rw [inputWriter, st.nodeSize_eq hnode, Option.bind_some]
  exact Option.map_eq_some_iff.mpr ⟨h', hloop, rfl⟩

/-- A transfer appends its chunks. -/
theorem receive_stored
    (hquantum : pointerSize ≤ quantum)
    (hnode : quantum * (quantum / pointerSize) ≤ intMax)
    {chunks : List (List UInt8)}
    (hshort : ∀ chunk ∈ chunks, chunk.length ≤ intMax)
    (st : Stored quantum h text) :
    ∃ h', receive h chunks = some h' ∧ Stored quantum h' (text ++ chunks.flatten) := by
  induction chunks generalizing h text with
  | nil =>
      refine ⟨h, rfl, ?_⟩
      rwa [List.flatten_nil, List.append_nil]
  | cons chunk chunks ih =>
      obtain ⟨h₁, hwriter, st₁⟩ :=
        inputWriter_stored hquantum hnode st (hshort chunk List.mem_cons_self)
      obtain ⟨h₂, hreceive, st₂⟩ :=
        ih (fun c hc => hshort c (List.mem_cons_of_mem chunk hc)) st₁
      refine ⟨h₂, ?_, ?_⟩
      · rw [receive, hwriter, Option.bind_some, if_pos rfl, hreceive]
      · rwa [List.flatten_cons, ← List.append_assoc]

end Writing

end Client
end Obix
