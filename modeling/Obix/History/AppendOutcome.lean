import Obix.History.AppendLoop

/-!
# The answer of History.Append

`hist_append_dev` answers with an error contract whenever the return code of the
record loop is not zero, and that code is overwritten by every record element.
So the answer speaks about the last record element of the list only, and a list
without record elements reaches the code that reads the first fragment.

`AppendAnswered` is what the answer should say; it is met exactly when
`AnswersAlike` holds of the facility and the list.
-/

namespace Obix
namespace History

open CString

/-- An error contract means that nothing was stored; a HistoryAppendOut contract
describes the facility after the call. -/
def AppendAnswered (dev dev' : HistDev) : AppendReply → Prop
  | .error _ => dev'.records = dev.records
  | .out contract =>
      dev'.files ≠ [] ∧
      (∃ stored, dev'.records = dev.records ++ stored ∧ contract.numAdded = stored.length) ∧
      contract.newCount = dev'.records.length ∧
      dev'.records.head?.bind recordTs = some contract.newStart ∧
      dev'.records.getLast?.bind recordTs = some contract.newEnd
  | .undefined => False

/-- The record elements of the data list of a HistoryAppendIn contract. -/
def recordElements (list : Xml) : List Xml :=
  list.children.filter XmlNode.isElement

/-- Nothing in the data list is later than the facility, or its last record is
later than the facility and all other records. -/
def AnswersAlike (dev : HistDev) (input : Xml) : Prop :=
  ∀ list, input.findChild (some objList) (some attrName) (some histAinData) = some list →
    (∀ r ∈ recordElements list, recordTime r ≤ timestampToUtcTime dev.latestTs) ∧
        (recordElements list ≠ [] ∨ dev.files ≠ []) ∨
      ∃ init last, recordElements list = init ++ [last] ∧
        timestampToUtcTime dev.latestTs < recordTime last ∧
        ∀ r ∈ init, recordTime r < recordTime last

section LastElement

variable {ok : Prop} {latest : Int} {records more : List Xml} {last : Xml}

theorem lastStored_filter :
    lastStored ok latest (records.filter XmlNode.isElement) = lastStored ok latest records := by
  induction records generalizing ok latest with
  | nil => rfl
  | cons record records ih =>
      cases helement : record.isElement with
      | true => simp [lastStored, helement, ih]
      | false => simp [lastStored, Fresh, helement, ih]

theorem freshRecords_filter :
    freshRecords latest (records.filter XmlNode.isElement) = freshRecords latest records := by
  induction records generalizing latest with
  | nil => rfl
  | cons record records ih =>
      cases helement : record.isElement with
      | true => simp [freshRecords, helement, ih]
      | false => simp [freshRecords, Fresh, helement, ih]

theorem lastStored_append :
    lastStored ok latest (records ++ more) =
      lastStored (lastStored ok latest records) (freshLatest latest records) more := by
  induction records generalizing ok latest with
  | nil => rfl
  | cons record records ih =>
      simp only [List.cons_append, lastStored, freshLatest]
      split
      · exact ih
      · split
        · exact ih
        · exact ih

/-- The last record element is stored if it is later than the facility and than
every element before it. -/
theorem lastStored_concat_iff
    (helements : ∀ r ∈ records ++ [last], r.isElement = true) :
    lastStored ok latest (records ++ [last]) ↔
      latest < recordTime last ∧ ∀ r ∈ records, recordTime r < recordTime last := by
  have hlast : last.isElement = true := helements last (by simp)
  have hfresh : lastStored ok latest (records ++ [last]) ↔
      freshLatest latest records < recordTime last := by
    rw [lastStored_append]
    simp [lastStored, Fresh, hlast]
  rw [hfresh]
  constructor
  · intro hlt
    refine ⟨lt_of_le_of_lt le_freshLatest hlt, ?_⟩
    intro r hr
    exact lt_of_le_of_lt (recordTime_le_freshLatest hr (helements r (by simp [hr]))) hlt
  · rintro ⟨hlatest, hearlier⟩
    rcases @freshLatest_eq_or_mem latest records with heq | ⟨r, hr, -, heq⟩
    · rw [heq]
      exact hlatest
    · rw [heq]
      exact hearlier r hr

theorem freshRecords_eq_nil_iff_le
    (helements : ∀ r ∈ records, r.isElement = true) :
    freshRecords latest records = [] ↔ ∀ r ∈ records, recordTime r ≤ latest := by
  rw [freshRecords_eq_nil_iff]
  constructor
  · intro h r hr
    have hnot := h r hr
    simp only [Fresh, helements r hr, true_and, not_lt] at hnot
    exact hnot
  · intro h r hr hfresh
    have hle := h r hr
    have hlt := hfresh.2
    omega

end LastElement

section Answer

variable {dev : HistDev}

theorem StoreInv.head_record
    (inv : StoreInv dev)
    {first : HistFile} {rest : List HistFile}
    (h : dev.files = first :: rest) :
    dev.records.head?.bind recordTs = some first.abstract.start := by
  have hfirst := inv.file first (by simp [h])
  obtain ⟨q, qs, hqs⟩ := List.exists_cons_of_ne_nil hfirst.nonempty
  rw [← hfirst.start_eq]
  simp [HistDev.records, h, hqs]

theorem StoreInv.getLast_record
    (inv : StoreInv dev)
    {init : List HistFile} {last : HistFile}
    (h : dev.files = init ++ [last]) :
    dev.records.getLast?.bind recordTs = some last.abstract.fin := by
  obtain ⟨rs, r, hrs, -, hr⟩ := inv.last_record h
  simp [hrs, hr]

theorem StoreInv.files_eq_nil_iff
    (inv : StoreInv dev) :
    dev.files = [] ↔ dev.records = [] := by
  constructor
  · intro h
    simp [HistDev.records, h]
  · intro h
    rcases List.eq_nil_or_concat' dev.files with hnil | ⟨init, last, hfiles⟩
    · exact hnil
    · obtain ⟨rs, r, hrs, -, -⟩ := inv.last_record hfiles
      simp [h] at hrs

/-- An error is right when nothing was stored, a contract when there is a fragment. -/
theorem answered_iff
    {dev' : HistDev} {stored : List Xml}
    (inv' : StoreInv dev')
    (hrecords : dev'.records = dev.records ++ stored)
    (ret : ErrCode) :
    AppendAnswered dev dev' (appendAnswer dev' ret stored.length) ↔
      (ret = .success ∧ dev'.files ≠ [] ∨ ret ≠ .success ∧ stored = []) := by
  by_cases hret : ret = .success
  · rcases List.eq_nil_or_concat' dev'.files with hnil | ⟨init, last, hlast⟩
    · simp [appendAnswer, hret, hnil, AppendAnswered]
    · have hfiles : dev'.files ≠ [] := by simp [hlast]
      obtain ⟨first, rest, hfirst⟩ := List.exists_cons_of_ne_nil hfiles
      have hhead : dev'.files.head? = some first := by simp [hfirst]
      have hgetLast : dev'.files.getLast? = some last := by simp [hlast]
      simp only [appendAnswer, hret, ne_eq, not_true_eq_false, if_false, hhead, hgetLast,
        AppendAnswered, true_and, false_and, or_false, hfiles, not_false_eq_true, iff_true]
      refine ⟨⟨stored, hrecords, rfl⟩, ?_, ?_, ?_⟩
      · exact inv'.count_eq_length
      · exact inv'.head_record hfirst
      · exact inv'.getLast_record hlast
  · simp [appendAnswer, hret, AppendAnswered, hrecords]

/-- The answer to a list of record elements. -/
theorem answered_elements_iff
    {dev' : HistDev} {ret : ErrCode} {elements : List Xml}
    (inv : StoreInv dev)
    (inv' : StoreInv dev')
    (helements : ∀ r ∈ elements, r.isElement = true)
    (hrecords : dev'.records =
      dev.records ++ freshRecords (timestampToUtcTime dev.latestTs) elements)
    (hret : ret = .success ↔ lastStored True (timestampToUtcTime dev.latestTs) elements) :
    AppendAnswered dev dev'
        (appendAnswer dev' ret (freshRecords (timestampToUtcTime dev.latestTs) elements).length) ↔
      ((∀ r ∈ elements, recordTime r ≤ timestampToUtcTime dev.latestTs) ∧
          (elements ≠ [] ∨ dev.files ≠ []) ∨
        ∃ init last, elements = init ++ [last] ∧
          timestampToUtcTime dev.latestTs < recordTime last ∧
          ∀ r ∈ init, recordTime r < recordTime last) := by
  rw [answered_iff inv' hrecords, ← freshRecords_eq_nil_iff_le helements]
  have hfiles : dev'.files = [] ↔
      dev.files = [] ∧ freshRecords (timestampToUtcTime dev.latestTs) elements = [] := by
    rw [inv'.files_eq_nil_iff, inv.files_eq_nil_iff, hrecords, List.append_eq_nil_iff]
  rcases List.eq_nil_or_concat' elements with rfl | ⟨init, last, rfl⟩
  · -- no record element: the loop succeeds and the answer depends on the facility
    have hsuccess : ret = .success := hret.mpr trivial
    simp [hsuccess, hfiles, freshRecords]
  · rw [lastStored_concat_iff helements] at hret
    have hunique : (∃ init' last', init ++ [last] = init' ++ [last'] ∧
        timestampToUtcTime dev.latestTs < recordTime last' ∧
        ∀ r ∈ init', recordTime r < recordTime last') ↔ ret = .success := by
      rw [hret]
      constructor
      · rintro ⟨init', last', heq, hlater⟩
        obtain ⟨rfl, h⟩ := List.append_inj' heq rfl
        obtain rfl := List.singleton_injective h
        exact hlater
      · intro hlater
        exact ⟨init, last, rfl, hlater⟩
    rw [hunique]
    have hstored : ret = .success →
        freshRecords (timestampToUtcTime dev.latestTs) (init ++ [last]) ≠ [] := by
      intro hsuccess hnil
      have hle := (freshRecords_eq_nil_iff_le helements).mp hnil last (by simp)
      have hlt := (hret.mp hsuccess).1
      omega
    by_cases hsuccess : ret = .success
    · simp [hsuccess, hfiles, hstored hsuccess]
    · simp [hsuccess]

/-- History.Append answers as it should exactly when no record of the list is
later than the facility, and the list or the facility is not empty, or when the
last record of the list is later than the facility and than all others. -/
theorem histAppendDev_answered_iff
    (inv : StoreInv dev)
    (input : Xml) :
    AppendAnswered dev (histAppendDev noFaults dev input).1 (histAppendDev noFaults dev input).2 ↔
      AnswersAlike dev input := by
  unfold AnswersAlike histAppendDev histAppendCore
  cases hlist : input.findChild (some objList) (some attrName) (some histAinData) with
  | none => simp [appendAnswer, AppendAnswered]
  | some list =>
      obtain ⟨dev', ret, hcall, inv', hrecords, hret⟩ := appendRecords_noFaults inv list.children
      rw [← lastStored_filter] at hret
      rw [← freshRecords_filter] at hcall hrecords
      simp only [hcall, Option.some.injEq, forall_eq']
      refine answered_elements_iff inv inv' ?_ hrecords hret
      intro r hr
      exact (List.mem_filter.mp hr).2

/-- The first record of an empty facility is answered as it should be. -/
theorem histAppendDev_answered_first :
    AppendAnswered emptyDev
      (histAppendDev noFaults emptyDev
        (appendIn [plainRecord "2014-04-25T15:43:50Z".toList])).1
      (histAppendDev noFaults emptyDev
        (appendIn [plainRecord "2014-04-25T15:43:50Z".toList])).2 := by
  rw [histAppendDev_answered_iff storeInv_emptyDev]
  intro list hlist
  have hdata : recordElements list = [plainRecord "2014-04-25T15:43:50Z".toList] := by
    obtain rfl := Option.some.inj hlist
    rfl
  refine .inr ⟨[], plainRecord "2014-04-25T15:43:50Z".toList, hdata, ?_, by simp⟩
  decide +kernel

/-- A good record followed by one without a valid timestamp: the first is stored
and the answer is an error contract. -/
theorem histAppendDev_error_after_store :
    ¬ AppendAnswered emptyDev
      (histAppendDev noFaults emptyDev
        (appendIn [plainRecord "2014-04-25T15:43:50Z".toList, plainRecord "now".toList])).1
      (histAppendDev noFaults emptyDev
        (appendIn [plainRecord "2014-04-25T15:43:50Z".toList, plainRecord "now".toList])).2 := by
  have hreply : (histAppendDev noFaults emptyDev
      (appendIn [plainRecord "2014-04-25T15:43:50Z".toList, plainRecord "now".toList])).2 =
        .error .tsCompare := by
    decide +kernel
  have hstored : (histAppendDev noFaults emptyDev
      (appendIn [plainRecord "2014-04-25T15:43:50Z".toList,
        plainRecord "now".toList])).1.records.length = 1 := by
    decide +kernel
  intro h
  rw [hreply, AppendAnswered] at h
  rw [h] at hstored
  cases hstored

end Answer

end History
end Obix
