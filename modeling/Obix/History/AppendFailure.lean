import Obix.History.AppendLoop

/-!
# Failing appends

A failure of the creation of a fragment or of a write leaves the record loop at
once, past the code that folds the counters into the abstract and into the
device.  `FailsAt` describes such a call.  The index still describes the files,
and the call can be resumed at the failed record, exactly when nothing had been
stored before and no fragment was left without a record.
-/

namespace Obix
namespace History

open CString

/-- The call goes well over `pre`, fails at `record` and leaves the facility `dev'`. -/
def FailsAt
    (io : IoFaults)
    (dev : HistDev)
    (pre : List Xml)
    (record : Xml)
    (dev' : HistDev) :
    Prop :=
  ∃ st₀ st,
    appendLoop io 0 pre (appendStart dev) = .next st₀ ∧
    appendRecord io pre.length record st₀ = .failed st ∧
    dev' = st.dev

/-- Counts, start and end of the abstracts describe the records in the files. -/
structure IndexDescribes (dev : HistDev) : Prop where
  count_eq : ∀ f ∈ dev.files, f.abstract.count = f.records.length
  start_eq : ∀ f ∈ dev.files, f.records.head?.bind recordTs = some f.abstract.start
  fin_eq : ∀ f ∈ dev.files, f.records.getLast?.bind recordTs = some f.abstract.fin
  total : dev.count = dev.records.length

/-- Appending the failed record and the rest to `dev'` completes the call on `dev`. -/
def Resumes
    (dev dev' : HistDev)
    (pre : List Xml)
    (record : Xml)
    (post : List Xml) :
    Prop :=
  ∃ dev'' ret added,
    appendRecords noFaults dev' (record :: post) = .returned dev'' ret added ∧
    dev''.records =
      dev.records ++ freshRecords (timestampToUtcTime dev.latestTs) (pre ++ record :: post)

/-- No record before the failed one is later than the facility, and what fails is
not the first write into a new fragment. -/
def FailsCleanly (io : IoFaults) (dev : HistDev) (pre : List Xml) (record : Xml) : Prop :=
  (∀ r ∈ pre, ¬ Fresh (timestampToUtcTime dev.latestTs) r) ∧
  (NewDay (recordTime record) (timestampToUtcTime dev.latestTs) → io.create pre.length = true)

section Failing

variable {io : IoFaults} {dev dev' : HistDev} {st st' : AppendState}
variable {pre post records : List Xml} {record : Xml} {i : Nat}

theorem appendLoop_append
    (h : appendLoop io i pre st = .next st') :
    appendLoop io i (pre ++ records) st = appendLoop io (i + pre.length) records st' := by
  induction pre generalizing i st with
  | nil =>
      simp only [appendLoop, AppendRound.next.injEq] at h
      simp [h]
  | cons head pre ih =>
      cases hround : appendRecord io i head st with
      | next st₁ =>
          simp only [appendLoop, hround] at h
          simp only [List.cons_append, appendLoop, hround, ih h, List.length_cons]
          congr 1
          omega
      | failed st₁ => simp [appendLoop, hround] at h
      | nullFile => simp [appendLoop, hround] at h

/-- A call that fails returns the facility as the failure left it. -/
theorem FailsAt.returned
    (h : FailsAt io dev pre record dev')
    (post : List Xml) :
    ∃ ret, appendRecords io dev (pre ++ record :: post) = .returned dev' ret 0 := by
  obtain ⟨st₀, st, hpre, hround, rfl⟩ := h
  refine ⟨st.ret, ?_⟩
  simp only [appendRecords, appendLoop_append hpre, appendLoop, Nat.zero_add, hround]

/-- A call whose loop fails does so at one record of its list. -/
theorem exists_failsAt
    (h : appendLoop io 0 records (appendStart dev) = .failed st) :
    ∃ pre record post, records = pre ++ record :: post ∧ FailsAt io dev pre record st.dev := by
  obtain ⟨pre, record, post, st₀, hsplit, hpre, hround⟩ := appendLoop_failed h
  rw [Nat.zero_add] at hround
  exact ⟨pre, record, post, hsplit, st₀, st, hpre, hround, rfl⟩

/-- Records that are not later than the facility only change the return code. -/
theorem appendLoop_stale
    (inv : LoopInv st)
    (hstale : ∀ r ∈ records, ¬ Fresh (timestampToUtcTime st.latestTs) r)
    (io : IoFaults)
    (i : Nat) :
    ∃ code, appendLoop io i records st = .next { st with ret := code } := by
  induction records generalizing i st with
  | nil => exact ⟨st.ret, rfl⟩
  | cons head records ih =>
      obtain ⟨code, hround, -, -⟩ := appendRecord_stale inv (hstale head (by simp)) io i
      obtain ⟨code', hrest⟩ := ih (inv.with_ret code)
        (fun r hr => hstale r (by simp [hr])) (i + 1)
      exact ⟨code', by simp only [appendLoop, hround, hrest]⟩

/-- What a failing round leaves of the device. -/
theorem appendRecord_failed
    (inv : LoopInv st)
    (h : appendRecord io i record st = .failed st') :
    Fresh (timestampToUtcTime st.latestTs) record ∧
    (¬ NewDay (recordTime record) (timestampToUtcTime st.latestTs) ∧ st'.dev = st.dev ∨
      NewDay (recordTime record) (timestampToUtcTime st.latestTs) ∧ io.create i = true ∧
        st'.dev = { st.dev with files := (settle st).files } ∨
      NewDay (recordTime record) (timestampToUtcTime st.latestTs) ∧ io.create i = false ∧
        ∃ ts date, st'.dev =
          { st.dev with files := (settle st).files ++ [freshFragment date ts] }) := by
  by_cases hfresh : Fresh (timestampToUtcTime st.latestTs) record
  · refine ⟨hfresh, ?_⟩
    by_cases hday : NewDay (recordTime record) (timestampToUtcTime st.latestTs)
    · obtain ⟨ts, date, st₁, -, -, -, hround⟩ := appendRecord_newDay inv hfresh hday io i
      rw [hround] at h
      cases hc : io.create i with
      | true =>
          simp only [hc, if_true, AppendRound.failed.injEq] at h
          exact .inr (.inl ⟨hday, rfl, by rw [← h]⟩)
      | false =>
          cases hw : io.write i with
          | true =>
              simp only [hc, hw, Bool.false_eq_true, if_false, if_true,
                AppendRound.failed.injEq] at h
              exact .inr (.inr ⟨hday, rfl, ts, date, by rw [← h]⟩)
          | false => simp [hc, hw] at h
    · obtain ⟨st₁, -, hround⟩ := appendRecord_sameDay inv hfresh hday io i
      rw [hround] at h
      cases hw : io.write i with
      | true =>
          simp only [hw, if_true, AppendRound.failed.injEq] at h
          exact .inl ⟨hday, by rw [← h]⟩
      | false => simp [hw] at h
  · obtain ⟨code, hround, -, -⟩ := appendRecord_stale inv hfresh io i
    rw [hround] at h
    cases h

theorem LoopInv.records_settle
    (inv : LoopInv st) :
    (settle st).records = st.dev.records := by
  rcases List.eq_nil_or_concat' st.dev.files with hnil | ⟨init, last, h⟩
  · simp [HistDev.records, settle, hnil, foldAbsCount_nil]
  · simp [HistDev.records, inv.settle_files h, h]

/-- The device keeps its old count and holds what was written before the failure. -/
theorem FailsAt.count_records
    (inv : StoreInv dev)
    (h : FailsAt io dev pre record dev') :
    dev'.count = dev.records.length ∧
    dev'.records = dev.records ++ freshRecords (timestampToUtcTime dev.latestTs) pre := by
  obtain ⟨st₀, st, hpre, hround, rfl⟩ := h
  obtain ⟨hstart, hsettle⟩ := loopInv_appendStart inv
  obtain ⟨inv₀, hstored, -, hall, -⟩ := appendLoop_run hstart hpre
  have hlatest : (appendStart dev).latestTs = dev.latestTs := rfl
  have hzero : (appendStart dev).allCount = 0 := rfl
  rw [hlatest, hsettle] at hstored
  rw [hlatest, hzero, Nat.zero_add] at hall
  have hcount : st₀.dev.count = dev.records.length := by
    have htotal := inv₀.store.count_eq_length
    rw [hstored, List.length_append, ← hall] at htotal
    simp only [settle] at htotal
    push_cast at htotal
    omega
  have hrecords : (settle st₀).records = st₀.dev.records := inv₀.records_settle
  rcases (appendRecord_failed inv₀ hround).2 with
    ⟨-, hdev⟩ | ⟨-, -, hdev⟩ | ⟨-, -, ts, date, hdev⟩
  · rw [hdev]
    exact ⟨hcount, by rw [← hstored, hrecords]⟩
  · rw [hdev]
    exact ⟨hcount, hstored⟩
  · rw [hdev]
    refine ⟨hcount, ?_⟩
    rw [← hstored]
    simp [HistDev.records, freshFragment]

/-- After nothing but stale records, the failure leaves the device as it was or
with a fragment that holds no record. -/
theorem FailsAt.dev_eq
    (inv : StoreInv dev)
    (h : FailsAt io dev pre record dev')
    (hstale : ∀ r ∈ pre, ¬ Fresh (timestampToUtcTime dev.latestTs) r) :
    (FailsCleanly io dev pre record ∧ dev' = dev) ∨
    (¬ FailsCleanly io dev pre record ∧ ∃ ts date,
      dev' = { dev with files := dev.files ++ [freshFragment date ts] }) := by
  obtain ⟨st₀, st, hpre, hround, rfl⟩ := h
  obtain ⟨hstart, hsettle⟩ := loopInv_appendStart inv
  obtain ⟨code, hloop⟩ := appendLoop_stale hstart hstale io 0
  rw [hpre, AppendRound.next.injEq] at hloop
  have inv₀ : LoopInv st₀ := by
    rw [hloop]
    exact hstart.with_ret code
  have hdev₀ : st₀.dev = dev := by rw [hloop]; rfl
  have hfiles₀ : (settle st₀).files = dev.files := by
    rw [← hsettle, hloop]
    rfl
  have hlatest₀ : st₀.latestTs = dev.latestTs := by rw [hloop]; rfl
  have hfailed := (appendRecord_failed inv₀ hround).2
  rw [hlatest₀, hfiles₀, hdev₀] at hfailed
  rcases hfailed with ⟨hday, hdev⟩ | ⟨hday, hc, hdev⟩ | ⟨hday, hc, ts, date, hdev⟩
  · exact .inl ⟨⟨hstale, fun hnew => absurd hnew hday⟩, hdev⟩
  · exact .inl ⟨⟨hstale, fun _ => hc⟩, hdev⟩
  · refine .inr ⟨?_, ts, date, hdev⟩
    intro hclean
    rw [hclean.2 hday] at hc
    cases hc

theorem StoreInv.indexDescribes
    (inv : StoreInv dev) :
    IndexDescribes dev where
  count_eq := fun f hf => (inv.file f hf).count_eq
  start_eq := fun f hf => (inv.file f hf).start_eq
  fin_eq := fun f hf => (inv.file f hf).fin_eq
  total := inv.count_eq_length

/-- After a failure the index describes the files and the call can be resumed
exactly when no record had been stored by it and the failure was not the first
write into a new fragment. -/
theorem failsAt_repaired_iff
    (inv : StoreInv dev)
    (hfail : FailsAt io dev pre record dev')
    (post : List Xml) :
    IndexDescribes dev' ∧ Resumes dev dev' pre record post ↔
      FailsCleanly io dev pre record := by
  constructor
  · rintro ⟨hindex, -⟩
    obtain ⟨hcount, hrecords⟩ := hfail.count_records inv
    -- the device still has its old count, so nothing can have been stored
    have hnone : freshRecords (timestampToUtcTime dev.latestTs) pre = [] := by
      have htotal := hindex.total
      rw [hcount, hrecords, List.length_append] at htotal
      rw [← List.length_eq_zero_iff]
      push_cast at htotal
      omega
    rw [freshRecords_eq_nil_iff] at hnone
    rcases hfail.dev_eq inv hnone with ⟨hclean, -⟩ | ⟨-, ts, date, hdev⟩
    · exact hclean
    · exfalso
      have hstart := hindex.start_eq (freshFragment date ts) (by simp [hdev])
      simp [freshFragment] at hstart
  · intro hclean
    have hnone := freshRecords_eq_nil_iff.mpr hclean.1
    rcases hfail.dev_eq inv hclean.1 with ⟨-, rfl⟩ | ⟨hnot, -⟩
    · refine ⟨inv.indexDescribes, ?_⟩
      obtain ⟨dev'', ret, hcall, -, hrecords, -⟩ := appendRecords_noFaults inv (record :: post)
      refine ⟨dev'', ret, _, hcall, ?_⟩
      rw [hrecords, freshRecords_append, hnone, freshLatest_of_eq_nil hnone, List.nil_append]
    · exact absurd hclean hnot

/-- Appending the first record to an empty facility fails with the creation of
the fragment or with the write. -/
theorem failsAt_first
    (h : io.create 0 = true ∨ io.write 0 = true) :
    ∃ dev', FailsAt io emptyDev [] (plainRecord "2014-04-25T15:43:50Z".toList) dev' := by
  obtain ⟨hstart, -⟩ := loopInv_appendStart storeInv_emptyDev
  have hfresh : Fresh (timestampToUtcTime emptyDev.latestTs)
      (plainRecord "2014-04-25T15:43:50Z".toList) := by
    decide +kernel
  have hday : NewDay (recordTime (plainRecord "2014-04-25T15:43:50Z".toList))
      (timestampToUtcTime emptyDev.latestTs) := by
    decide +kernel
  obtain ⟨ts, date, st', -, -, -, hround⟩ := appendRecord_newDay hstart hfresh hday io 0
  cases hc : io.create 0 with
  | true =>
      simp only [hc, if_true] at hround
      exact ⟨_, _, _, rfl, hround, rfl⟩
  | false =>
      have hw : io.write 0 = true := by simpa [hc] using h
      simp only [hc, hw, Bool.false_eq_true, if_false, if_true] at hround
      exact ⟨_, _, _, rfl, hround, rfl⟩

/-- The creation of the first fragment fails. -/
theorem failsAt_repaired_create :
    ∃ dev',
      FailsAt { create := fun _ => true, write := fun _ => false } emptyDev []
        (plainRecord "2014-04-25T15:43:50Z".toList) dev' ∧
      IndexDescribes dev' ∧
      Resumes emptyDev dev' [] (plainRecord "2014-04-25T15:43:50Z".toList) [] := by
  obtain ⟨dev', hfail⟩ := @failsAt_first { create := fun _ => true, write := fun _ => false }
    (.inl rfl)
  exact ⟨dev', hfail,
    (failsAt_repaired_iff storeInv_emptyDev hfail []).mpr ⟨by simp, fun _ => rfl⟩⟩

/-- The write of the first record fails: an abstract without a record stays behind. -/
theorem failsAt_write_not_repaired :
    ∃ dev',
      FailsAt { create := fun _ => false, write := fun _ => true } emptyDev []
        (plainRecord "2014-04-25T15:43:50Z".toList) dev' ∧
      ¬ (IndexDescribes dev' ∧
        Resumes emptyDev dev' [] (plainRecord "2014-04-25T15:43:50Z".toList) []) := by
  obtain ⟨dev', hfail⟩ := @failsAt_first { create := fun _ => false, write := fun _ => true }
    (.inr rfl)
  refine ⟨dev', hfail, ?_⟩
  rintro ⟨hindex, -⟩
  rcases hfail.dev_eq storeInv_emptyDev (by simp) with ⟨hclean, -⟩ | ⟨-, ts, date, hdev⟩
  · have hnot := hclean.2 (by decide +kernel)
    simp at hnot
  · have hstart := hindex.start_eq (freshFragment date ts) (by simp [hdev])
    simp [freshFragment] at hstart

end Failing

end History
end Obix
