import Obix.History.Facility

/-!
# A failed History.Get

The folder of a facility is created before the href of the facility is checked, and
it is not removed when the check fails.  The two rules differ: the name of the
folder is made of the tokens of the device path, so that neither a dot nor a double
slash is an obstacle there.  `handlerHistoryGet_unchanged_iff` says exactly which
requests leave a folder behind.
-/

namespace Obix
namespace History

open CString

/-- A request whose folder can be created although its href is refused: there is no
such facility, folder or node, and the href has a dot or a double slash. -/
def LeavesFolder (input : Option Xml) (sys : HistSys) : Prop :=
  ∃ subhref devId, subhrefOf input = some subhref ∧ histGetDevId subhref = some devId ∧
    (∀ dev ∈ sys.devices, dev.devId ≠ devId) ∧ mkdirAllowed sys devId ∧
    xmldbGetNode sys.dom (histHref subhref) = none ∧
    xmlIsValidHref (histHref subhref) = false

theorem seLookup_historyCreate (requester object : Text) :
    seLookup requester object opHistoryCreate = true := by
  simp [seLookup, opHistoryCreate, opDeviceRemove, opDeviceDelete, opWatchDelete]

/-- `__hist_create_dev` fails on invalid hrefs of missing nodes only. -/
theorem histCreateDev_eq_none_iff
    {devId href : Text} {index : Node} {sys : HistSys} :
    histCreateDev devId href index sys = none ↔
      xmldbGetNode sys.dom href = none ∧ xmlIsValidHref href = false := by
  unfold histCreateDev histAddDevnode
  cases hget : xmldbGetNode sys.dom href with
  | some node => simp
  | none =>
      cases hvalid : xmlIsValidHref href with
      | true => simp [xmldbPutNode, hvalid]
      | false => simp [xmldbPutNode, hvalid]

/-- What History.Get does for a device path without a facility. -/
theorem handlerHistoryGet_create
    {requester subhref devId : Text} {input : Option Xml} {sys : HistSys}
    (hsub : subhrefOf input = some subhref)
    (hid : histGetDevId subhref = some devId)
    (hnew : ∀ dev ∈ sys.devices, dev.devId ≠ devId) :
    handlerHistoryGet requester input sys = getCreate devId (histHref subhref) sys := by
  have hany : (sys.devices.any fun dev => dev.devId = devId) = false := by
    simpa using hnew
  simp only [handlerHistoryGet, hsub, hid, hany, seLookup_historyCreate, Bool.false_eq_true,
    Bool.true_eq_false, if_false]

/-- A request that leaves a folder behind is answered with an error. -/
theorem LeavesFolder.reply
    {input : Option Xml} {sys : HistSys}
    (h : LeavesFolder input sys)
    (requester : Text) :
    ∃ devId, handlerHistoryGet requester input sys =
      ({ sys with disk := sys.disk ++ [{ name := devId, index := histIndexSkeleton }] },
        .error .noMem) := by
  obtain ⟨subhref, devId, hsub, hid, hnew, hmkdir, hget, hvalid⟩ := h
  refine ⟨devId, ?_⟩
  have hcreate : histCreateDev devId (histHref subhref) histIndexSkeleton
      { sys with disk := sys.disk ++ [{ name := devId, index := histIndexSkeleton }] } = none :=
    histCreateDev_eq_none_iff.mpr ⟨hget, hvalid⟩
  rw [handlerHistoryGet_create hsub hid hnew]
  simp only [getCreate, histCreateBackend, hmkdir, if_true, hcreate]

/-- Any other request that is answered with an error changes nothing. -/
theorem unchanged_of_not_leavesFolder
    {requester : Text} {input : Option Xml} {sys : HistSys} {code : ErrCode}
    (h : ¬ LeavesFolder input sys)
    (hreply : (handlerHistoryGet requester input sys).2 = .error code) :
    (handlerHistoryGet requester input sys).1 = sys := by
  cases hsub : subhrefOf input with
  | none => simp [handlerHistoryGet, hsub]
  | some subhref =>
      cases hid : histGetDevId subhref with
      | none => simp [handlerHistoryGet, hsub, hid]
      | some devId =>
          by_cases hnew : ∀ dev ∈ sys.devices, dev.devId ≠ devId
          · rw [handlerHistoryGet_create hsub hid hnew] at hreply ⊢
            by_cases hmkdir : mkdirAllowed sys devId
            · simp only [getCreate, histCreateBackend, hmkdir, if_true] at hreply ⊢
              cases hcreate : histCreateDev devId (histHref subhref) histIndexSkeleton
                  { sys with disk := sys.disk ++ [{ name := devId, index := histIndexSkeleton }] }
              with
              | none =>
                  obtain ⟨hget, hvalid⟩ := histCreateDev_eq_none_iff.mp hcreate
                  exact absurd ⟨subhref, devId, hsub, hid, hnew, hmkdir, hget, hvalid⟩ h
              | some sys'' => simp [hcreate] at hreply
            · simp [getCreate, histCreateBackend, hmkdir]
          · have hany : (sys.devices.any fun dev => dev.devId = devId) = true := by
              push Not at hnew
              simpa using hnew
            simp [handlerHistoryGet, hsub, hid, hany]

/-- A refused History.Get leaves the histories folder, the list of facilities and the
DOM tree as they were, exactly when it is not one that leaves a folder behind. -/
theorem handlerHistoryGet_unchanged_iff
    (requester : Text)
    (input : Option Xml)
    (sys : HistSys) :
    (∀ code, (handlerHistoryGet requester input sys).2 = .error code →
      (handlerHistoryGet requester input sys).1 = sys) ↔
    ¬ LeavesFolder input sys := by
  constructor
  · intro hsame hleaves
    obtain ⟨devId, hreply⟩ := hleaves.reply requester
    have hdisk := congrArg HistSys.disk (hsame .noMem (by rw [hreply]))
    rw [hreply] at hdisk
    simp at hdisk
  · intro h code hreply
    exact unchanged_of_not_leavesFolder h hreply

/-- The input of History.Get for a device path. -/
def getIn (path : String) : Option Xml :=
  some (.element none "obj".toList []
    [.element none objStr [(attrName, deviceId), (attrVal, path.toList)] []])

/-- A server without any history facility. -/
def newHistSys : HistSys :=
  { disk := []
    devices := []
    dom :=
      .element none "obj".toList []
        [.element none "obj".toList [(attrHref, "obix".toList)]
          [.element none "obj".toList [(attrHref, "historyService".toList)]
            [.element none objList [(attrHref, "histories".toList)] []]]] }

/-- The request for `a//b` fails and leaves a folder; then the one for `a/b`, which
succeeds on the server as it was, is refused, and a restart loads a facility. -/
theorem handlerHistoryGet_double_slash :
    let sys := (handlerHistoryGet "client".toList (getIn "a//b") newHistSys).1
    (handlerHistoryGet "client".toList (getIn "a//b") newHistSys).2 = .error .noMem ∧
      sys.disk.map Folder.name = ["a.b".toList] ∧
      (handlerHistoryGet "client".toList (getIn "a/b") sys).2 = .error .diskIo ∧
      (∃ devId href, (handlerHistoryGet "client".toList (getIn "a/b") newHistSys).2 =
        .out devId href) ∧
      ((obixHistInit sys.disk newHistSys.dom).map fun s => s.devices.map Facility.devId) =
        some ["a.b".toList] := by
  refine ⟨?_, ?_, ?_, ⟨"a.b".toList, "/obix/historyService/histories/a/b".toList, ?_⟩, ?_⟩
  · decide +kernel
  · decide +kernel
  · decide +kernel
  · decide +kernel
  · decide +kernel

end History
end Obix
