import Mathlib.Data.List.Forall2
import Mathlib.Data.List.Nodup
import Obix.Client.Batch

/-!
# Results of a batch

`http_send_batch` looks up the command of a response by its href and stops at the first command
with this href.  A second command with the same href never gets a result, although the server has
answered it.  The results are at their commands exactly for the batch objects whose hrefs are
different (`send_results_iff`).
-/

namespace Obix
namespace Client

open CString XmlNode

section Model

/-- `OBIX_OBJ_ERR`. -/
def objErr : Text := "err".toList

/-- `OBIX_OBJ_HTML`. -/
def objHtml : Text := "html".toList

/-- `HTTP_ERR_500`. -/
def httpErr500 : Text := "500 - Internal Server Error".toList

/-- `is_err_contract`. -/
def isErrContract (root : Xml) : Bool :=
  root.hasName objErr ||
    (root.hasName objHtml && (strstr (xmlDumpNode root) 0 httpErr500).isSome)

/-- `http_cleanup_batch_out`. -/
def Batch.cleanupBatchOut (batch : Batch) : Batch :=
  { batch with
    out := none
    cmds := batch.cmds.map fun cmd => { cmd with result := none } }

/-- The inner loop of `http_send_batch`: the first command with the href. -/
def setResult (href : Text) (place : Nat) : List Command → List Command
  | [] => []
  | cmd :: cmds =>
      if href = cmd.href then { cmd with result := some place } :: cmds
      else cmd :: setResult href place cmds

/-- One turn of the outer loop, at a child of the root and its place. -/
def crossRefer (cmds : List Command) (child : Xml × Nat) : List Command :=
  if child.1.isElement then
    match child.1.getProp attrHref with
    | none => cmds
    | some href => setResult href child.2 cmds
  else cmds

/-- `http_send_batch`; `post` is what `curl_ext_postDOM` makes of the request: the root of the
answer, unless it fails. -/
def Batch.send (batch : Batch) (post : Text → Option Xml) : ErrCode × Batch :=
  let data := xmlDumpNode batch.batchIn
  let batch := batch.cleanupBatchOut
  match post data with
  | none => (.serverError, batch)
  | some root =>
      if isErrContract root then (.serverError, { batch with out := some root })
      else
        (.success,
          { batch with
            out := some root
            cmds := root.children.zipIdx.foldl crossRefer batch.cmds })

/-- `obix_batch_get_result`. -/
def Batch.getResult (batch : Batch) (param : Text) : ErrCode × Option Nat :=
  match batch.cmds.find? fun cmd => param = cmd.param with
  | some cmd => (.success, cmd.result)
  | none => (.invalidArgument, none)

/-- The responses of an answer, each with its place among the children of the root. -/
def responses (root : Xml) : List (Xml × Nat) :=
  root.children.zipIdx.filter fun child => child.1.isElement

/-- One response for every command in their order, each with the href of the command. -/
def Batch.Answered (batch : Batch) (root : Xml) : Prop :=
  List.Forall₂ (fun response cmd => response.1.getProp attrHref = some cmd.href)
    (responses root) batch.cmds

/-- Every command has the response at its own position, and the look-up by a parameter that
occurs once finds it. -/
def Batch.Delivered (batch : Batch) (root : Xml) : Prop :=
  batch.cmds.map Command.result = (responses root).map (fun response => some response.2) ∧
    ∀ (i : Nat) (cmd : Command), batch.cmds[i]? = some cmd →
      (batch.cmds.map Command.param).count cmd.param = 1 →
      batch.getResult cmd.param = (.success, ((responses root)[i]?).map Prod.snd)

end Model

section Loop

variable {cmds : List Command} {href : Text} {place : Nat}

@[simp] theorem setResult_hrefs :
    (setResult href place cmds).map Command.href = cmds.map Command.href := by
  induction cmds with
  | nil => rfl
  | cons cmd cmds ih =>
      rw [setResult]
      split
      · rfl
      · rw [List.map_cons, List.map_cons, ih]

theorem setResult_cons_of_ne
    {cmd : Command}
    (h : href ≠ cmd.href) :
    setResult href place (cmd :: cmds) = cmd :: setResult href place cmds := by
  rw [setResult, if_neg h]

/-- A command with another href is left alone. -/
theorem setResult_getElem?_of_ne
    {j : Nat} {cmd : Command}
    (hj : cmds[j]? = some cmd)
    (h : href ≠ cmd.href) :
    (setResult href place cmds)[j]? = some cmd := by
  induction cmds generalizing j with
  | nil => cases hj
  | cons c cmds ih =>
      by_cases hc : href = c.href
      · rw [setResult, if_pos hc]
        cases j with
        | zero =>
            cases hj
            exact absurd hc h
        | succ j => exact hj
      · rw [setResult_cons_of_ne hc]
        cases j with
        | zero => exact hj
        | succ j => exact ih hj

/-- A command behind another one with the same href is left alone. -/
theorem setResult_getElem?_later
    {i j : Nat} {cmd : Command}
    (hij : i < j)
    (hi : (cmds.map Command.href)[i]? = some cmd.href)
    (hj : cmds[j]? = some cmd) :
    (setResult href place cmds)[j]? = some cmd := by
  induction cmds generalizing i j with
  | nil => cases hj
  | cons c cmds ih =>
      obtain ⟨j, rfl⟩ := Nat.exists_eq_add_of_lt (Nat.lt_of_le_of_lt (Nat.zero_le i) hij)
      rw [Nat.zero_add] at hij hj ⊢
      rw [List.getElem?_cons_succ] at hj
      by_cases hc : href = c.href
      · rw [setResult, if_pos hc]
        exact hj
      · rw [setResult_cons_of_ne hc, List.getElem?_cons_succ]
        cases i with
        | zero =>
            have hsame : c.href = cmd.href := Option.some_inj.mp hi
            exact setResult_getElem?_of_ne hj (hsame ▸ hc)
        | succ i => exact ih (Nat.lt_of_succ_lt_succ hij) hi hj

theorem crossRefer_eq_setResult
    {response : Xml × Nat}
    (h : response.1.getProp attrHref = some href) :
    crossRefer cmds response = setResult href response.2 cmds := by
  have helement : response.1.isElement = true := by
    cases hnode : response.1 with
    | element owner name attrs children => rfl
    | text owner content =>
        rw [hnode] at h
        cases h
    | comment owner content =>
        rw [hnode] at h
        cases h
  rw [crossRefer, if_pos helement, h]

/-- Only elements count. -/
theorem foldl_crossRefer_responses
    (root : Xml)
    (cmds : List Command) :
    root.children.zipIdx.foldl crossRefer cmds = (responses root).foldl crossRefer cmds := by
  rw [responses, List.foldl_filter]
  congr 1
  funext cmds child
  rw [crossRefer]
  split <;> rfl

variable {rs : List (Xml × Nat)}

/-- Responses with other hrefs leave the first command alone. -/
theorem foldl_crossRefer_cons
    {cmd : Command}
    (h : ∀ response ∈ rs, response.1.getProp attrHref ≠ some cmd.href) :
    rs.foldl crossRefer (cmd :: cmds) = cmd :: rs.foldl crossRefer cmds := by
  induction rs generalizing cmds with
  | nil => rfl
  | cons response rs ih =>
      have hskip : crossRefer (cmd :: cmds) response = cmd :: crossRefer cmds response := by
        unfold crossRefer
        split
        · cases hhref : response.1.getProp attrHref with
          | none => rfl
          | some href =>
              have hne : href ≠ cmd.href := by
                rintro rfl
                exact h response List.mem_cons_self hhref
              exact setResult_cons_of_ne hne
        · rfl
      rw [List.foldl_cons, List.foldl_cons, hskip,
        ih fun r hr => h r (List.mem_cons_of_mem response hr)]

/-- With different hrefs every response reaches its command. -/
theorem foldl_crossRefer_results
    (h : List.Forall₂
      (fun (response : Xml × Nat) (cmd : Command) => response.1.getProp attrHref = some cmd.href)
      rs cmds)
    (hnodup : (cmds.map Command.href).Nodup) :
    (rs.foldl crossRefer cmds).map Command.result = rs.map fun response => some response.2 := by
  induction h with
  | nil => rfl
  | @cons response cmd rs cmds hhref hrest ih =>
      rw [List.map_cons, List.nodup_cons] at hnodup
      have hother : ∀ r ∈ rs, r.1.getProp attrHref ≠ some cmd.href := by
        intro r hr hsame
        obtain ⟨i, hi, rfl⟩ := List.mem_iff_getElem.mp hr
        have hlen : i < cmds.length := hrest.length_eq ▸ hi
        have hat := hrest.get hi hlen
        rw [List.get_eq_getElem, List.get_eq_getElem, hsame, Option.some_inj] at hat
        exact hnodup.1 (hat ▸ List.mem_map_of_mem (List.getElem_mem hlen))
      have hfirst : crossRefer (cmd :: cmds) response =
          { cmd with result := some response.2 } :: cmds := by
        rw [crossRefer_eq_setResult hhref, setResult, if_pos rfl]
      have hkeep : rs.foldl crossRefer ({ cmd with result := some response.2 } :: cmds) =
          { cmd with result := some response.2 } :: rs.foldl crossRefer cmds :=
        foldl_crossRefer_cons hother
      rw [List.foldl_cons, hfirst, hkeep, List.map_cons, List.map_cons, ih hnodup.2]

@[simp] theorem crossRefer_hrefs
    {response : Xml × Nat} :
    (crossRefer cmds response).map Command.href = cmds.map Command.href := by
  unfold crossRefer
  split
  · split
    · rfl
    · exact setResult_hrefs
  · rfl

/-- A second command with a href keeps what it has. -/
theorem foldl_crossRefer_later
    {i j : Nat} {cmd : Command}
    (hij : i < j)
    (hi : (cmds.map Command.href)[i]? = some cmd.href)
    (hj : cmds[j]? = some cmd) :
    (rs.foldl crossRefer cmds)[j]? = some cmd := by
  induction rs generalizing cmds with
  | nil => exact hj
  | cons response rs ih =>
      rw [List.foldl_cons]
      refine ih (by rwa [crossRefer_hrefs]) ?_
      unfold crossRefer
      split
      · split
        · exact hj
        · exact setResult_getElem?_later hij hi hj
      · exact hj

end Loop

section Results

variable {batch : Batch} {post : Text → Option Xml} {root : Xml}

/-- The only command with a parameter is the one that the look-up finds. -/
theorem find?_param
    {cmds : List Command} {cmd : Command} {i : Nat}
    (hi : cmds[i]? = some cmd)
    (honce : (cmds.map Command.param).count cmd.param = 1) :
    cmds.find? (fun c => cmd.param = c.param) = some cmd := by
  induction cmds generalizing i with
  | nil => cases hi
  | cons c cmds ih =>
      rw [List.map_cons, List.count_cons] at honce
      by_cases hparam : cmd.param = c.param
      · rw [List.find?_cons_of_pos (by simpa using hparam)]
        cases i with
        | zero => exact hi
        | succ i =>
            -- then the parameter occurs twice
            have hmem : cmd ∈ cmds := List.mem_of_getElem? (List.getElem?_cons_succ ▸ hi)
            have hpos := List.count_pos_iff.mpr (List.mem_map_of_mem (f := Command.param) hmem)
            rw [if_pos (by simp [hparam])] at honce
            omega
      · rw [List.find?_cons_of_neg (by simpa using hparam)]
        cases i with
        | zero =>
            cases hi
            exact absurd rfl hparam
        | succ i =>
            refine ih hi ?_
            rwa [if_neg (by simpa using Ne.symm hparam), Nat.add_zero] at honce

/-- What a successful call leaves behind. -/
theorem send_success
    (hpost : post (xmlDumpNode batch.batchIn) = some root)
    (hsuccess : (batch.send post).1 = .success) :
    (batch.send post).2.cmds = (responses root).foldl crossRefer batch.cleanupBatchOut.cmds := by
  unfold Batch.send at hsuccess ⊢
  simp only [hpost] at hsuccess ⊢
  cases herr : isErrContract root with
  | true => simp [herr] at hsuccess
  | false => simpa using foldl_crossRefer_responses root batch.cleanupBatchOut.cmds

theorem cleanupBatchOut_hrefs : batch.cleanupBatchOut.hrefs = batch.hrefs := by
  simp [Batch.cleanupBatchOut, Batch.hrefs]

/-- The answer to a batch object is the answer to the commands without their old results. -/
theorem Batch.Answered.cleanup
    (h : batch.Answered root) :
    batch.cleanupBatchOut.Answered root := by
  unfold Batch.Answered Batch.cleanupBatchOut at *
  rwa [List.forall₂_map_right_iff]

/-- The results reach their commands if and only if no two commands have the same href. -/
theorem send_results_iff
    (hpost : post (xmlDumpNode batch.batchIn) = some root)
    (hanswered : batch.Answered root)
    (hsuccess : (batch.send post).1 = .success) :
    (batch.send post).2.Delivered root ↔ batch.hrefs.Nodup := by
  have hcmds := send_success hpost hsuccess
  have hclean := hanswered.cleanup
  constructor
  · rintro ⟨hresults, -⟩
    rw [← cleanupBatchOut_hrefs, List.nodup_iff_pairwise_ne, List.pairwise_iff_getElem]
    intro i j hi hj hij hsame
    -- the second command with the href has no result
    have hlen : j < batch.cleanupBatchOut.cmds.length := by simpa [Batch.hrefs] using hj
    have hlater : ((responses root).foldl crossRefer batch.cleanupBatchOut.cmds)[j]? =
        some batch.cleanupBatchOut.cmds[j] := by
      refine foldl_crossRefer_later hij ?_ (List.getElem?_eq_getElem hlen)
      have hat := List.getElem?_eq_getElem hi
      rw [hsame] at hat
      simpa [Batch.hrefs] using hat
    have hnone : (batch.cleanupBatchOut.cmds[j]).result = none := by
      simp [Batch.cleanupBatchOut]
    have hresponse : j < (responses root).length := hclean.length_eq ▸ hlen
    have hat := congrArg (fun l : List (Option Nat) => l[j]?) hresults
    rw [hcmds] at hat
    simp [hlater, hnone, hresponse] at hat
  · intro hnodup
    rw [← cleanupBatchOut_hrefs] at hnodup
    have hresults := foldl_crossRefer_results hclean hnodup
    rw [← hcmds] at hresults
    refine ⟨hresults, ?_⟩
    intro i cmd hi honce
    rw [Batch.getResult, find?_param hi honce]
    have hat := congrArg (fun l : List (Option Nat) => l[i]?) hresults
    simp only [List.getElem?_map, hi, Option.map_some] at hat
    cases hresponse : (responses root)[i]? with
    | none => simp [hresponse] at hat
    | some response =>
        rw [hresponse, Option.map_some, Option.some_inj] at hat
        exact congrArg (Prod.mk ErrCode.success) hat

/-- Two parameters of a device. -/
def pairCalls : List BatchCall :=
  [.read meterConnection "meter".toList "kWh".toList,
    .read meterConnection "meter".toList "limit".toList]

/-- A parameter that is read twice. -/
def twiceCalls : List BatchCall :=
  [.read meterConnection "meter".toList "kWh".toList,
    .read meterConnection "meter".toList "kWh".toList]

/-- An answer with a response for every href. -/
def answerRoot (hrefs : List Text) : Xml :=
  .element none "list".toList [(attrIs, "obix:BatchOut".toList)]
    (hrefs.map fun href => .element none "real".toList [(attrHref, href), (attrVal, "3".toList)] [])

theorem send_results_iff_pair :
    ∃ batch : Batch, Runs.exec Batch.step batchCreate pairCalls = some batch ∧
      (batch.send fun _ => some (answerRoot batch.hrefs)).2.Delivered
        (answerRoot batch.hrefs) := by
  refine ⟨_, rfl, (send_results_iff rfl ?_ (by decide +kernel)).mpr (by decide +kernel)⟩
  exact .cons (by decide +kernel) (.cons (by decide +kernel) .nil)

/-- The second of two equal commands gets no result. -/
theorem second_of_equal_commands_unanswered :
    ∃ (batch : Batch) (root : Xml), Runs.exec Batch.step batchCreate twiceCalls = some batch ∧
      batch.Answered root ∧ (batch.send fun _ => some root).1 = .success ∧
      ¬ (batch.send fun _ => some root).2.Delivered root := by
  refine ⟨_, answerRoot (List.replicate 2 "/obix/deviceRoot/M1/kWh".toList), rfl, ?_,
    by decide +kernel, ?_⟩
  · exact .cons (by decide +kernel) (.cons (by decide +kernel) .nil)
  · rintro ⟨hresults, -⟩
    exact absurd hresults (by decide +kernel)

end Results

end Client
end Obix
