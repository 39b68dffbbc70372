import Obix.Client.QuantumSets

/-!
# Received data

Both readers of a handle give back what a transfer has stored, whatever is left in the quanta of
earlier responses (`received_data_reassembled`).
-/

namespace Obix
namespace Client

open Blocks

section Reading

variable {σ : Type} {use : σ → Nat → List Cell → Option σ} {P : Nat → σ → Prop}
variable {quantum : Nat} {h : CurlExt} {text : List UInt8}

/-- A reader goes on from what it has made of the first `k` bytes. -/
def GoesOn
    (use : σ → Nat → List Cell → Option σ)
    (P : Nat → σ → Prop)
    (quantum : Nat)
    (text : List UInt8) : Prop :=
  ∀ k out, k < text.length → P k out →
    ∃ out', use out k (((text.map some).drop k).take quantum) = some out' ∧
      P (min text.length (k + quantum)) out'

theorem Stored.quantum_eq
    (st : Stored quantum h text)
    (hquantum : pointerSize ≤ quantum)
    {i j : Nat}
    (hj : j < quantum / pointerSize)
    (hlt : (i * (quantum / pointerSize) + j) * quantum < text.length) :
    ∃ cells, quantumAt h.data i j = some cells ∧
      region cells 0 (min (text.length - (i * (quantum / pointerSize) + j) * quantum) quantum) =
        some (((text.map some).drop ((i * (quantum / pointerSize) + j) * quantum)).take quantum) := by
  obtain ⟨cells, hcells, hregion⟩ := st.holds.region_eq ((List.length_map some).symm ▸ hlt)
  rw [List.length_map] at hregion
  have hdiv : (i * (quantum / pointerSize) + j) / (quantum / pointerSize) = i := by
    rw [Nat.mul_comm, Nat.mul_add_div (arrayLength_pos hquantum), Nat.div_eq_of_lt hj, Nat.add_zero]
  have hmod : (i * (quantum / pointerSize) + j) % (quantum / pointerSize) = j := by
    rw [Nat.mul_comm, Nat.mul_add_mod, Nat.mod_eq_of_lt hj]
  rw [block, hdiv, hmod] at hcells
  exact ⟨cells, hcells, hregion⟩

/-- The inner loop reads to the end of the data or of the set. -/
theorem readQuanta_stored
    (hquantum : pointerSize ≤ quantum)
    (st : Stored quantum h text)
    (huse : GoesOn use P quantum text)
    {i j left : Nat} {r : ReadState σ}
    (hleft : j + left = quantum / pointerSize)
    (hcopied : r.copied = (i * (quantum / pointerSize) + j) * quantum)
    (hlt : r.copied < text.length)
    (hnum : r.num = text.length - r.copied)
    (hP : P r.copied r.out) :
    ∃ r', readQuanta use h i left j r = some r' ∧ P r'.copied r'.out ∧
      r'.num = text.length - r'.copied ∧
      (r'.copied = text.length ∨
        r'.copied = (i + 1) * (quantum / pointerSize) * quantum ∧ r'.copied < text.length) := by
  induction left generalizing j r with
  | zero =>
      refine ⟨r, rfl, hP, hnum, .inr ⟨?_, hlt⟩⟩
      rw [hcopied, ← hleft]
      ring
  | succ left ih =>
      obtain ⟨cells, hcells, hregion⟩ :=
        st.quantum_eq hquantum (i := i) (j := j) (by omega) (hcopied ▸ hlt)
      rw [← hcopied, ← hnum] at hregion
      obtain ⟨out, hout, hP'⟩ := huse r.copied r.out hlt hP
      have hread : (if r.num ≤ h.quantum then r.num else h.quantum) = min r.num quantum := by
        rw [st.size, min_def]
      have hnext : r.copied + min r.num quantum = min text.length (r.copied + quantum) := by
        omega
      rw [← hnext] at hP'
      rw [readQuanta, hread, hcells, Option.bind_some, hregion, Option.bind_some, hout,
        Option.bind_some, st.pos]
      by_cases hend : r.copied + min r.num quantum = text.length
      · rw [if_pos hend]
        exact ⟨_, rfl, hP', by dsimp only; omega, .inl hend⟩
      · rw [if_neg hend]
        refine ih (by omega) ?_ ?_ ?_ hP'
        · dsimp only
          rw [Nat.min_eq_right (by omega), hcopied]
          ring
        · dsimp only
          omega
        · dsimp only
          omega

/-- The outer loop reads to the end of the data. -/
theorem readSets_stored
    (hquantum : pointerSize ≤ quantum)
    (st : Stored quantum h text)
    (huse : GoesOn use P quantum text)
    {i left : Nat} {r : ReadState σ}
    (hcopied : r.copied = text.length ∨
      r.copied = i * (quantum / pointerSize) * quantum ∧ r.copied < text.length)
    (hleft : text.length ≤ (i + left) * (quantum / pointerSize) * quantum)
    (hnum : r.num = text.length - r.copied)
    (hP : P r.copied r.out) :
    ∃ r', readSets use left i h r = some (h, r') ∧ P text.length r'.out := by
  induction left generalizing i r with
  | zero =>
      rcases hcopied with hend | ⟨hcopied, hlt⟩
      · exact ⟨r, rfl, hend ▸ hP⟩
      · rw [Nat.add_zero] at hleft
        omega
  | succ left ih =>
      rw [readSets]
      rcases hcopied with hend | ⟨hcopied, hlt⟩
      · rw [if_neg (by rw [st.pos]; omega)]
        exact ⟨r, rfl, hend ▸ hP⟩
      · have hfirst : (i * (quantum / pointerSize) + 0) * quantum < text.length := by
          rwa [Nat.add_zero, ← hcopied]
        obtain ⟨cells, hcells, -⟩ :=
          st.quantum_eq hquantum (arrayLength_pos hquantum) hfirst
        obtain ⟨qs, hqs, -⟩ := Option.bind_eq_some_iff.mp hcells
        -- the walk ends at a set that is there
        have hwalk : qsetFollow h.data i = h.data :=
          qsetFollow_of_lt (List.getElem?_eq_some_iff.mp hqs).1
        obtain ⟨r', hread, hP', hnum', hcopied'⟩ :=
          readQuanta_stored hquantum st huse (i := i) (j := 0) (Nat.zero_add _)
            (by rw [Nat.add_zero, hcopied]) hlt hnum hP
        rw [← st.array] at hread
        rw [if_pos (st.pos ▸ hlt)]
        dsimp only
        rw [hwalk, hread, Option.bind_some]
        refine ih hcopied' ?_ hnum' hP'
        rwa [Nat.add_assoc, Nat.add_comm 1 left]

/-- A reader reads the data. -/
theorem readData_stored
    (hquantum : pointerSize ≤ quantum)
    (hnode : quantum * (quantum / pointerSize) ≤ intMax)
    (st : Stored quantum h text)
    (huse : GoesOn use P quantum text)
    {out : σ}
    (hP : P 0 out) :
    ∃ out', readData use h out = some (h, out') ∧ P text.length out' := by
  have hcap := capacity_pos hquantum
  have hleft : text.length ≤ (0 + (text.length / (quantum * (quantum / pointerSize)) + 1)) *
      (quantum / pointerSize) * quantum := by
    have hlt := Nat.lt_mul_div_succ text.length hcap
    calc text.length ≤ quantum * (quantum / pointerSize) *
          (text.length / (quantum * (quantum / pointerSize)) + 1) := hlt.le
      _ = _ := by ring
  have hstart : (0 : Nat) = text.length ∨
      0 = 0 * (quantum / pointerSize) * quantum ∧ 0 < text.length := by
    rcases Nat.eq_zero_or_pos text.length with hzero | hpos
    · exact .inl hzero.symm
    · exact .inr ⟨by ring, hpos⟩
  obtain ⟨r, hread, hP'⟩ := readSets_stored hquantum st huse
    (r := { num := text.length, copied := 0, out := out }) hstart hleft rfl hP
  refine ⟨r.out, ?_, hP'⟩
  rw [readData, st.nodeSize_eq hnode, Option.bind_some, if_neg hcap.ne', st.pos, hread]
  rfl

/-- The first bytes and the ones after them. -/
theorem take_min_length (cells : List Cell) (k n : Nat) :
    cells.take k ++ (cells.drop k).take n = cells.take (min cells.length (k + n)) := by
  rw [← List.take_add, List.take_eq_take_iff]
  omega

/-- `curl_save_data` writes the data. -/
theorem curlSaveData_stored
    (hquantum : pointerSize ≤ quantum)
    (hnode : quantum * (quantum / pointerSize) ≤ intMax)
    (st : Stored quantum h text)
    (file : List Cell) :
    curlSaveData h file = some (h, file ++ text.map some) := by
  have huse : GoesOn (fun (file : List Cell) (_ : Nat) src => some (file ++ src))
      (fun k out => out = file ++ (text.map some).take k) quantum text := by
    rintro k out - rfl
    refine ⟨_, rfl, ?_⟩
    rw [List.append_assoc, take_min_length, List.length_map]
  have hstart : file = file ++ (text.map some).take 0 := by simp
  obtain ⟨out, hread, rfl⟩ := readData_stored hquantum hnode st huse hstart
  rw [curlSaveData, hread, List.take_of_length_le (by simp)]

/-- An earlier buffer is given back. -/
theorem WellFormed.freeSeparated_eq
    (wf : WellFormed quantum h) :
    freeSeparated h = some { h with separated := false } := by
  unfold freeSeparated
  cases hseparated : h.separated with
  | false =>
      rw [if_neg (by simp), ← hseparated]
  | true =>
      obtain ⟨cells, hcells⟩ := wf.buffer hseparated
      rw [if_pos rfl, hcells]

theorem Stored.unseparated
    (st : Stored quantum h text) :
    Stored quantum { h with separated := false } text where
  size := st.size
  array := st.array
  fit := st.fit
  buffer := nofun
  pos := st.pos
  holds := st.holds

/-- A buffer for the data is filled from its beginning. -/
theorem goesOn_overwrite :
    GoesOn (fun (buf : List Cell) copied src => overwrite buf copied src)
      (fun k buf => buf.length = text.length + 1 ∧ (text.map some).take k <+: buf)
      quantum text := by
  rintro k buf hk ⟨hlength, hbegins⟩
  have hsize : ((text.map some).take k).length = k := by
    rw [List.length_take, List.length_map]
    omega
  have hroom : ((text.map some).take k).length +
      (((text.map some).drop k).take quantum).length ≤ buf.length := by
    rw [hsize, List.length_take, List.length_drop, List.length_map]
    omega
  obtain ⟨new, hnew, happend⟩ := overwrite_append hbegins hroom
  rw [hsize] at hnew
  refine ⟨new, hnew, (length_overwrite hnew).trans hlength, ?_⟩
  rwa [take_min_length, List.length_map] at happend

/-- `curl_get_data` has the data and its terminator at the beginning of the memory. -/
theorem curlGetData_stored
    (hquantum : pointerSize ≤ quantum)
    (hnode : quantum * (quantum / pointerSize) ≤ intMax)
    (st : Stored quantum h text)
    (hne : text ≠ []) :
    ∃ h' buf, curlGetData h = some (h', some buf, asInt text.length) ∧
      text.map some ++ [some 0] <+: buf := by
  have hpos := List.length_pos_iff.mpr hne
  have st' := st.unseparated
  rw [curlGetData, if_neg (by rw [st.pos]; omega), st.freeSeparated_eq, Option.bind_some]
  by_cases hfirst : h.inputPos + 1 ≤ h.quantum
  · have hshort : text.length + 1 ≤ quantum := by
      rwa [st.pos, st.size] at hfirst
    obtain ⟨cells, hcells, hbegins⟩ := st.holds 0 (by rw [List.length_map]; omega)
    rw [Nat.zero_mul, List.drop_zero, List.take_of_length_le (by rw [List.length_map]; omega)]
      at hbegins
    have hfirst' : quantumAt h.data 0 0 = some cells := by
      rwa [block, Nat.zero_div, Nat.zero_mod] at hcells
    have hroom : (text.map some).length + ([some 0] : List Cell).length ≤ quantum := by
      simpa using hshort
    obtain ⟨sets, new, hcopy, hnew, happend, -⟩ :=
      copyToQuantum_append st.fit hfirst' hbegins hroom
    rw [List.length_map] at hcopy
    rw [if_pos hfirst]
    dsimp only
    rw [st.pos, hcopy, Option.map_some, hnew]
    exact ⟨_, new, rfl, happend⟩
  · have hmalloc : (List.replicate (h.inputPos + 1) (none : Cell)).length = text.length + 1 ∧
        (text.map some).take 0 <+: List.replicate (h.inputPos + 1) none :=
      ⟨by rw [List.length_replicate, st.pos], List.nil_prefix⟩
    obtain ⟨buf, hread, hlength, hbegins⟩ :=
      readData_stored hquantum hnode st' goesOn_overwrite hmalloc
    rw [List.take_of_length_le (by simp)] at hbegins
    have hroom : (text.map some).length + ([some 0] : List Cell).length ≤ buf.length := by
      simp [hlength]
    obtain ⟨new, hnew, happend⟩ := overwrite_append hbegins hroom
    rw [List.length_map] at hnew
    rw [if_neg hfirst, hread, Option.bind_some]
    dsimp only
    rw [st.pos, hnew, Option.map_some]
    exact ⟨_, new, rfl, happend⟩

end Reading

section Handles

variable {σ : Type} {use : σ → Nat → List Cell → Option σ}
variable {quantum : Nat} {h : CurlExt}

theorem wellFormed_allocated : WellFormed quantum (curlExtAllocateMemory quantum) where
  size := rfl
  array := rfl
  fit :=
    { array := fun _ hqs => absurd hqs List.not_mem_nil
      cells := fun _ _ _ hcells => nomatch hcells }
  buffer := nofun

theorem inputWriterLoop_wellFormed
    (hquantum : pointerSize ≤ quantum)
    (wf : WellFormed quantum h)
    {inputData : List UInt8} {fuel num : Nat} {copied : Int} {h' : CurlExt}
    (hloop : inputWriterLoop (quantum * (quantum / pointerSize)) inputData fuel h num copied =
      some h') :
    WellFormed quantum h' := by
  induction fuel generalizing h num copied with
  | zero =>
      rw [inputWriterLoop] at hloop
      split at hloop
      · obtain rfl := Option.some.inj hloop
        exact wf
      · cases hloop
  | succ fuel ih =>
      rw [inputWriterLoop] at hloop
      split at hloop
      · obtain rfl := Option.some.inj hloop
        exact wf
      · split at hloop
        · cases hloop
        · obtain ⟨src, -, hloop⟩ := Option.bind_eq_some_iff.mp hloop
          obtain ⟨sets, hcopy, hloop⟩ := Option.bind_eq_some_iff.mp hloop
          rw [wf.size, Nat.mod_mul_right_div_self] at hcopy
          have hidx := Nat.mod_lt (h.inputPos / quantum) (arrayLength_pos hquantum)
          exact ih (wf.withData ((wf.fit.alloc hidx _).copy hcopy) _) hloop

theorem readSets_wellFormed
    (wf : WellFormed quantum h)
    {left i : Nat} {st : ReadState σ} {r : CurlExt × ReadState σ}
    (hread : readSets use left i h st = some r) :
    WellFormed quantum r.1 := by
  induction left generalizing h i st with
  | zero =>
      obtain rfl := Option.some.inj hread
      exact wf
  | succ left ih =>
      rw [readSets] at hread
      split at hread
      · obtain ⟨st', -, hread⟩ := Option.bind_eq_some_iff.mp hread
        exact ih (wf.withData (wf.fit.follow i) h.inputPos) hread
      · obtain rfl := Option.some.inj hread
        exact wf

theorem readData_wellFormed
    (wf : WellFormed quantum h)
    {out : σ} {r : CurlExt × σ}
    (hread : readData use h out = some r) :
    WellFormed quantum r.1 := by
  obtain ⟨nodeSize, -, hread⟩ := Option.bind_eq_some_iff.mp hread
  split at hread
  · cases hread
  · obtain ⟨r', hsets, rfl⟩ := Option.map_eq_some_iff.mp hread
    exact readSets_wellFormed wf hsets

theorem curlGetData_wellFormed
    (wf : WellFormed quantum h)
    {r : CurlExt × Option (List Cell) × Int}
    (hget : curlGetData h = some r) :
    WellFormed quantum r.1 := by
  rw [curlGetData] at hget
  split at hget
  · obtain rfl := Option.some.inj hget
    exact wf
  · rw [wf.freeSeparated_eq, Option.bind_some] at hget
    split at hget
    · obtain ⟨sets, hcopy, rfl⟩ := Option.map_eq_some_iff.mp hget
      exact ⟨wf.size, wf.array, wf.fit.copy hcopy, nofun⟩
    · obtain ⟨r', hread, hget⟩ := Option.bind_eq_some_iff.mp hget
      obtain ⟨buf, -, rfl⟩ := Option.map_eq_some_iff.mp hget
      have wf' : WellFormed quantum { h with separated := false } :=
        ⟨wf.size, wf.array, wf.fit, nofun⟩
      have wf'' := readData_wellFormed wf' hread
      exact ⟨wf''.size, wf''.array, wf''.fit, fun _ => ⟨buf, rfl⟩⟩

/-- Earlier responses leave a well-formed handle. -/
theorem Reached.wellFormed
    (hquantum : pointerSize ≤ quantum)
    (hreached : Reached quantum h) :
    WellFormed quantum h := by
  induction hreached with
  | allocated => exact wellFormed_allocated
  | reset _ ih => exact ih.withData ih.fit 0
  | received _ hwriter ih =>
      rw [inputWriter, CurlExt.nodeSize, ih.size, ih.array] at hwriter
      obtain ⟨nodeSize, hnode, hwriter⟩ := Option.bind_eq_some_iff.mp hwriter
      split at hnode
      · obtain rfl := Option.some.inj hnode
        obtain ⟨h', hloop, rfl⟩ := Option.map_eq_some_iff.mp hwriter
        exact inputWriterLoop_wellFormed hquantum ih hloop
      · cases hnode
  | got _ hget ih => exact curlGetData_wellFormed ih hget
  | saved _ hsave ih => exact readData_wellFormed ih hsave

end Handles

section Main

/-- `curl_get_data` gives a text with its length and a terminator. -/
def GetsExactly (h : CurlExt) (text : List UInt8) : Prop :=
  ∃ h' buf, curlGetData h = some (h', some buf, (text.length : Int)) ∧
    text.map some ++ [some 0] <+: buf

/-- `curl_save_data` appends a text to a file. -/
def SavesExactly (h : CurlExt) (text : List UInt8) : Prop :=
  ∀ file, ∃ h', curlSaveData h file = some (h', file ++ text.map some)

/-- After any earlier responses, the chunks of a response are put together. -/
def Reassembles (quantum : Nat) (chunks : List (List UInt8)) : Prop :=
  ∀ h, Reached quantum h → ∃ h', receive { h with inputPos := 0 } chunks = some h' ∧
    GetsExactly h' chunks.flatten ∧ SavesExactly h' chunks.flatten

variable {quantum : Nat} {chunks : List (List UInt8)}

/-- What is read after a transfer, whatever its size. -/
theorem receive_reached
    (hquantum : pointerSize ≤ quantum)
    (hnode : quantum * (quantum / pointerSize) ≤ intMax)
    (hshort : ∀ chunk ∈ chunks, chunk.length ≤ intMax)
    {h : CurlExt}
    (hreached : Reached quantum h) :
    ∃ h', receive { h with inputPos := 0 } chunks = some h' ∧ Stored quantum h' chunks.flatten := by
  have hstored := (hreached.wellFormed hquantum).stored_nil
  obtain ⟨h', hreceive, st⟩ := receive_stored hquantum hnode hshort hstored
  exact ⟨h', hreceive, st⟩

/-- Data is given only of a response that is not empty, with the position as an `int`. -/
theorem size_of_curlGetData
    {h h' : CurlExt} {buf : List Cell} {size : Int}
    (hget : curlGetData h = some (h', some buf, size)) :
    h.inputPos ≠ 0 ∧ size = asInt h.inputPos := by
  rw [curlGetData] at hget
  split at hget
  · cases hget
  · refine ⟨by assumption, ?_⟩
    obtain ⟨h₁, hfree, hget⟩ := Option.bind_eq_some_iff.mp hget
    have hpos : h₁.inputPos = h.inputPos := by
      unfold freeSeparated at hfree
      split at hfree
      · split at hfree
        · obtain rfl := Option.some.inj hfree
          rfl
        · cases hfree
      · obtain rfl := Option.some.inj hfree
        rfl
    rw [← hpos]
    split at hget
    · obtain ⟨sets, -, hget⟩ := Option.map_eq_some_iff.mp hget
      simp only [Prod.mk.injEq] at hget
      exact hget.2.2.symm
    · obtain ⟨r, -, hget⟩ := Option.bind_eq_some_iff.mp hget
      obtain ⟨buf', -, hget⟩ := Option.map_eq_some_iff.mp hget
      simp only [Prod.mk.injEq] at hget
      exact hget.2.2.symm

theorem GetsExactly.length_le
    {h : CurlExt} {text : List UInt8}
    (hgets : GetsExactly h text) :
    text.length ≤ intMax := by
  obtain ⟨h', buf, hget, -⟩ := hgets
  have hsize := (size_of_curlGetData hget).2
  have hlt := @Int.bmod_lt h.inputPos (2 ^ 32) (by decide)
  unfold asInt at hsize
  unfold intMax
  omega

/-- The capacity of a set is computed for any chunk. -/
theorem receive_none
    {h : CurlExt} {chunk : List UInt8}
    (hover : h.nodeSize = none) :
    receive h (chunk :: chunks) = none := by
  rw [receive, inputWriter, hover]
  rfl

/-- A response is put together unless it is empty or an `int` is too small for its size or for the
capacity of a set. -/
theorem reassembles_iff
    (hquantum : pointerSize ≤ quantum) :
    Reassembles quantum chunks ↔
      chunks.flatten ≠ [] ∧ quantum * (quantum / pointerSize) ≤ intMax ∧
        chunks.flatten.length ≤ intMax := by
  have hshort : chunks.flatten.length ≤ intMax → ∀ chunk ∈ chunks, chunk.length ≤ intMax :=
    fun hlength chunk hchunk => (List.sublist_flatten_of_mem hchunk).length_le.trans hlength
  constructor
  · intro hall
    obtain ⟨h', hreceive, hgets, -⟩ := hall _ .allocated
    have hnode : quantum * (quantum / pointerSize) ≤ intMax := by
      by_contra hover
      cases chunks with
      | nil =>
          obtain rfl := Option.some.inj hreceive
          obtain ⟨h₂, buf, hget, -⟩ := hgets
          exact (size_of_curlGetData hget).1 rfl
      | cons chunk chunks =>
          have hnone : (curlExtAllocateMemory quantum).nodeSize = none := if_neg hover
          exact absurd (hreceive.symm.trans (receive_none hnone)) (by simp)
    have hlength := hgets.length_le
    obtain ⟨h₁, hreceive₁, st⟩ := receive_reached hquantum hnode (hshort hlength) .allocated
    obtain rfl := Option.some.inj (hreceive.symm.trans hreceive₁)
    refine ⟨?_, hnode, hlength⟩
    intro hnil
    obtain ⟨h₂, buf, hget, -⟩ := hgets
    exact (size_of_curlGetData hget).1 (by rw [st.pos, hnil]; rfl)
  · rintro ⟨hne, hnode, hlength⟩ h hreached
    obtain ⟨h', hreceive, st⟩ := receive_reached hquantum hnode (hshort hlength) hreached
    obtain ⟨h₂, buf, hget, hbegins⟩ := curlGetData_stored hquantum hnode st hne
    refine ⟨h', hreceive, ⟨h₂, buf, ?_, hbegins⟩, fun file => ?_⟩
    · rw [hget, asInt_eq (by omega) (by unfold intMax at hlength; omega)]
    · exact ⟨h', curlSaveData_stored hquantum hnode st file⟩

/-- Of an empty response there is no data, and nothing is saved. -/
def NothingReceived (h : CurlExt) : Prop :=
  curlGetData h = some (h, none, 0) ∧ ∀ file, curlSaveData h file = some (h, file)

/-- After any earlier responses, a response is put together from its chunks unless it is empty or
an `int` is too small for its size or for the capacity of a set; of an empty one there is no
data. -/
theorem received_data_reassembled
    (hquantum : pointerSize ≤ quantum) :
    (Reassembles quantum chunks ↔
      chunks.flatten ≠ [] ∧ quantum * (quantum / pointerSize) ≤ intMax ∧
        chunks.flatten.length ≤ intMax) ∧
      (quantum * (quantum / pointerSize) ≤ intMax → chunks.flatten = [] →
        ∀ h, Reached quantum h →
          ∃ h', receive { h with inputPos := 0 } chunks = some h' ∧ NothingReceived h') := by
  refine ⟨reassembles_iff hquantum, ?_⟩
  intro hnode hempty h hreached
  have hshort : ∀ chunk ∈ chunks, chunk.length ≤ intMax := by
    intro chunk hchunk
    rw [List.flatten_eq_nil_iff.mp hempty chunk hchunk]
    exact Nat.zero_le intMax
  obtain ⟨h', hreceive, st⟩ := receive_reached hquantum hnode hshort hreached
  rw [hempty] at st
  refine ⟨h', hreceive, if_pos st.pos, fun file => ?_⟩
  rw [curlSaveData_stored hquantum hnode st file, List.map_nil, List.append_nil]

/-- Three bytes in quanta of two pointers, in two chunks with an empty one between them. -/
theorem received_data_reassembled_chunks :
    Reassembles 16 [[60, 97], [], [62]] ∧
      ∃ h', receive { curlExtAllocateMemory 16 with inputPos := 0 } [[]] = some h' ∧
        NothingReceived h' := by
  refine ⟨?_, ?_⟩
  · exact (received_data_reassembled (by decide)).1.mpr ⟨by decide, by decide, by decide⟩
  · exact (received_data_reassembled (by decide)).2 (by decide) rfl _ .allocated

/-- What is not put together: an empty response, one in quanta of 128 KiB and one of 2 GiB. -/
theorem received_data_lost :
    ¬ Reassembles 8 [] ∧ ¬ Reassembles 131072 [[60]] ∧
      ¬ Reassembles 8 (List.replicate (2 ^ 31) [60]) := by
  refine ⟨?_, ?_, ?_⟩
  · rw [reassembles_iff (by decide)]
    rintro ⟨hne, -, -⟩
    exact hne rfl
  · rw [reassembles_iff (by decide)]
    rintro ⟨-, hnode, -⟩
    exact absurd hnode (by decide)
  · rw [reassembles_iff (by decide)]
    rintro ⟨-, -, hlength⟩
    rw [List.length_flatten, List.map_replicate, List.sum_replicate] at hlength
    exact absurd hlength (by decide)

end Main

end Client
end Obix
