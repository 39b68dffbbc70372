import Obix.Lib.Tokens
import Obix.Server.Batch

/-!
# The answers of a batch

A batch has one answer for each command, in the order of the commands, and no command runs a
handler that is not meant for a batch, if and only if no command gets around the tests on its
href (`batch_answered_iff`).  The tests compare the beginning of the href with the roots of the
subsystems; the handler depends on the node that its tokens lead to.
-/

namespace Obix
namespace Serving

open CString XmlNode Devices

section Paths

variable {href : Text} {ts : List Text}

/-- The tokens of the root of a subsystem. -/
def ObixRoot.path : ObixRoot → Path
  | batch => batchPath
  | device => rootTokens
  | watch => watchServicePath
  | history => historyPath

theorem delimited_path (type : ObixRoot) :
    delimited '/' type.path = trimSlash type.root := by
  cases type <;> decide +kernel

/-- A path below the root of a subsystem is of its type. -/
theorem isOfType_of_isPath
    {type : ObixRoot}
    (h : IsPath href ts)
    (hroot : type.path <+: ts) :
    isOfType href type = true := by
  obtain ⟨us, rfl⟩ := hroot
  have hsplit : delimited '/' (type.path ++ us) = trimSlash type.root ++ delimited '/' us := by
    rw [← delimited_path, delimited, delimited, delimited, List.flatMap_append]
  have hhead : ∀ rest : Text, (rest.head?.all (· = '/') = true) →
      isOfType (trimSlash type.root ++ rest) type = true := by
    intro rest hrest
    rw [isOfType, List.drop_left, hrest]
    simp [List.isPrefixOf_iff_prefix]
  rcases h.eq with rfl | rfl
  · rw [hsplit]
    refine hhead _ ?_
    cases us with
    | nil => rfl
    | cons u us => simp [delimited_cons]
  · rw [hsplit, List.append_assoc]
    refine hhead _ ?_
    cases us with
    | nil => rfl
    | cons u us => simp [delimited_cons]

/-- What is read of a string from within it is a part of it. -/
theorem stringFrom_isInfix
    {beyond s : Text} {n : Nat}
    (hn : n ≤ s.length) :
    stringFrom beyond s n <:+: s := by
  have hcut : stringFrom beyond s n <+: s.drop n := by
    rw [stringFrom, List.drop_append_of_le_length hn]
    generalize s.drop n = r
    induction r with
    | nil => simp
    | cons c r ih =>
        rw [List.cons_append, List.takeWhile_cons]
        split
        · exact List.cons_prefix_cons.mpr ⟨rfl, ih⟩
        · exact List.nil_prefix
  exact hcut.isInfix.trans (List.drop_suffix n s).isInfix

end Paths

section Kept

variable {s : Store} {uri : Text}

/-- Which operation a node is does not depend on values. -/
theorem xmldbGetOpIdCore_hideVal
    {ω : Type}
    (hidden : Option ω → Bool)
    (n : XmlNode ω) :
    xmldbGetOpIdCore (hideVal hidden n) = xmldbGetOpIdCore n := by
  have hname : ∀ (tag : Text) (m : XmlNode ω), (hideVal hidden m).hasName tag = m.hasName tag := by
    intro tag m
    cases m <;> rfl
  have hop : ∀ m : XmlNode ω, (hideVal hidden m).getProp attrOp = m.getProp attrOp :=
    getProp_hideVal_other (by decide) hidden
  have hmatch : (matchesChild (some Watches.objMeta) (some attrOp) none ∘ hideVal hidden :
      XmlNode ω → Bool) = matchesChild (some Watches.objMeta) (some attrOp) none := by
    funext m
    have helement : (hideVal hidden m).isElement = m.isElement := by cases m <;> rfl
    simp only [Function.comp, matchesChild, helement, Option.all_some, hname, hop]
  have hchildren : (hideVal hidden n).children = n.children.map (hideVal hidden) := by
    cases n with
    | element o name attrs cs => exact hideValAll_eq hidden cs
    | text o content => rfl
    | comment o content => rfl
  have hchild : (hideVal hidden n).findChild (some Watches.objMeta) (some attrOp) none =
      (n.findChild (some Watches.objMeta) (some attrOp) none).map (hideVal hidden) := by
    simp only [findChild, Option.isNone_some, Bool.false_and, Bool.false_eq_true, if_false]
    rw [hchildren, List.find?_map, hmatch]
  rw [xmldbGetOpIdCore, xmldbGetOpIdCore, hname, hchild]
  cases n.findChild (some Watches.objMeta) (some attrOp) none with
  | none => rfl
  | some m =>
      have hlong : Monitoring.xmlGetLong attrOp (hideVal hidden m) =
          Monitoring.xmlGetLong attrOp m := by
        rw [Monitoring.xmlGetLong, Monitoring.xmlGetLong, hop]
      simp only [Option.map_some, hlong]

/-- Every update sets one value. -/
theorem updateUri_vals
    {beyond val : Text} {o : Outcome}
    (hs : Sound s)
    (h : s.updateUri beyond uri val = some o) :
    hideVal (fun _ => true) o.store.dom = hideVal (fun _ => true) s.dom := by
  rw [Store.updateUri] at h
  split at h
  · rcases @deviceUpdateUri_cases s uri hs.linked with
      ⟨-, hupdate⟩ | ⟨i, node, reg, own, p, -, hreg, hdom, hown, hget, hupdate⟩
    · obtain ⟨e, reg, -, hdom, hval⟩ := hupdate val
      rw [hval] at h
      obtain rfl := Option.some.inj h
      exact congrArg _ hdom
    · rw [hupdate] at h
      obtain rfl := Option.some.inj h
      split
      · exact congrArg _ hdom
      · exact hideVal_modifyOwn (hideVal_modifyAt hget (hideVal_setProp rfl val)) s.dom hown
  · split at h
    · obtain rfl := Option.some.inj h
      rw [Store.watchUpdateUri]
      split
      · rfl
      · split
        · rfl
        · split
          · rfl
          · rename_i hnode
            split
            · rfl
            · split
              · rfl
              · exact hideVal_modifyAt (getAt_of_watchGetNodeCore hnode) (hideVal_setProp rfl val)
    · obtain rfl := Option.some.inj h
      rw [Store.xmldbUpdateUri]
      split
      · rfl
      · rename_i hnode
        exact hideVal_modifyAt (getAt_of_xmldbGetNode hnode) (hideVal_setProp rfl val)

/-- The operations are where they were when only values have been changed. -/
theorem Settled.of_vals
    {t : Store}
    (hs : Settled s)
    (ht : Sound t)
    (hvals : hideVal (fun _ => true) t.dom = hideVal (fun _ => true) s.dom) :
    Settled t := by
  refine ⟨ht, fun p node hget hlimited => ?_⟩
  have hp := congrArg (fun n => XmlNode.getAt n p) hvals
  simp only [getAt_hideVal, hget, Option.map_some] at hp
  obtain ⟨old, hold, hsame⟩ := Option.map_eq_some_iff.mp hp.symm
  refine hs.ops p old hold ?_
  rw [limitedOp, ← xmldbGetOpIdCore_hideVal (fun _ => true), hsame, xmldbGetOpIdCore_hideVal]
  exact hlimited

theorem Settled.withReg
    {reg : Registry}
    (hs : Settled s)
    (hreg : Linked reg)
    (hdom : reg.dom = s.dom) :
    Settled { s with reg := reg } :=
  hs.of_vals (hs.sound.withReg hreg hdom) (congrArg _ hdom)

/-- A write request keeps the server in order. -/
theorem Settled.write
    {beyond : Text} {input : Option Xml}
    (hs : Settled s) :
    ∃ o, obixServerWrite beyond uri input s = some o ∧ Settled o.store := by
  rcases @obixServerWrite_cases s uri beyond input with ⟨e, he⟩ | ⟨-, val, hval⟩
  · exact ⟨_, he, hs⟩
  · obtain ⟨o, ho⟩ : ∃ o, s.updateUri beyond uri val = some o := by
      rw [Store.updateUri]
      split
      · rcases @deviceUpdateUri_cases s uri hs.sound.linked with
          ⟨-, hupdate⟩ | ⟨i, node, reg, own, p, -, -, -, -, -, hupdate⟩
        · obtain ⟨e, reg, -, -, h⟩ := hupdate val
          exact ⟨_, h⟩
        · exact ⟨_, hupdate val⟩
      · split
        · exact ⟨_, rfl⟩
        · exact ⟨_, rfl⟩
    exact ⟨o, hval.trans ho, hs.of_vals (hs.sound.updateUri ho) (updateUri_vals hs.sound ho)⟩

/-- A read request keeps the server in order. -/
theorem Settled.read
    (copyUri : Text → Store → Option Xml)
    (hs : Settled s) :
    ∃ x t, obixServerRead copyUri uri s = some (x, t) ∧ Settled t := by
  obtain ⟨copy, t, hcopy, ht⟩ : ∃ copy t, (if isOfType uri .device then s.deviceCopyUri uri
      else some (copyUri uri s, s)) = some (copy, t) ∧ Settled t := by
    split
    · rw [Store.deviceCopyUri]
      rcases @deviceFind_cases s uri hs.sound.linked with
        ⟨reg, hfind, hreg, hdom⟩ | ⟨i, reg, dev, hfind, hreg, hdom, hdev, -⟩
      · rw [hfind]
        exact ⟨_, _, rfl, hs.withReg hreg hdom⟩
      · rw [hfind]
        dsimp only
        rw [hdev]
        exact ⟨_, _, rfl, hs.withReg (hreg.of_cache hreg.cacheLive) hdom⟩
    · exact ⟨_, _, rfl, hs⟩
  rw [obixServerRead, hcopy]
  cases copy with
  | none => exact ⟨_, t, rfl, ht⟩
  | some copy => exact ⟨_, t, rfl, ht⟩

/-- Looking for an operation keeps the server in order. -/
theorem Settled.getOpId
    {beyond : Text}
    (hs : Settled s) :
    ∃ r t, s.getOpId beyond uri = some (r, t) ∧ Settled t := by
  rw [Store.getOpId]
  split
  · rw [Store.deviceGetOpId]
    rcases @deviceFind_cases s uri hs.sound.linked with
      ⟨reg, hfind, hreg, hdom⟩ | ⟨i, reg, dev, hfind, hreg, hdom, hdev, -⟩
    · rw [hfind]
      exact ⟨_, _, rfl, hs.withReg hreg hdom⟩
    · rw [hfind]
      dsimp only
      rw [hdev]
      exact ⟨_, _, rfl, hs.withReg (hreg.of_cache hreg.cacheLive) hdom⟩
  · split
    · exact ⟨_, _, rfl, hs⟩
    · exact ⟨_, _, rfl, hs⟩

end Kept

/-- What a command asks for. -/
inductive Command
  | bad (href : Option Text) (e : ErrCode)
  | read (href : Text)
  | write (href : Text)
  | invoke (href : Text)

/-- The part of `obix_batch_process_item` that only looks at the command. -/
def commandOf (item : Xml) : Command :=
  match item.getProp attrVal with
  | none => .bad none .invalidInput
  | some href =>
      if xmlIsValidHref href = false then .bad (some href) .invalidHref
      else
        match item.getProp attrIs with
        | none => .bad (some href) .invalidInput
        | some contract =>
            if sameCaseless contract contractOpRead then .read href
            else if sameCaseless contract contractOpWrite then .write href
            else if sameCaseless contract contractOpInvoke then .invoke href
            else .bad (some href) .invalidInput

/-- The tests on the href of an invoke command. -/
def refused (href : Text) : Bool :=
  isOfType href .batch || isOfType href .history ||
    isOfType href .watch && (find pollChanges href).isSome

/-- A href that the tests do not tell anything about: it does not begin with a slash, it is one of
a template or of a device, or it ends before the href of its watch does, so that what is behind it
in memory is read. -/
def Unseen (s : Store) (href : Text) : Prop :=
  slashPreceded href = false ∨ sysPath <+: tokens '/' href ∨ isOfType href .device = true ∨
    ∃ w, s.watchSearch href = some w ∧ href.length < w.href.length

/-- A command gets past the tests and invokes through such a href an operation of a handler that
is not meant for a batch. -/
def Evades (beyond : Text) (item : Xml) (s : Store) : Prop :=
  ∃ href, commandOf item = .invoke href ∧ refused href = false ∧ Unseen s href ∧
    ∃ id t, s.getOpId beyond href = some (.ok id, t) ∧ (postHandler id).limited = true

section Evades

variable {s : Store} {beyond href : Text}

theorem limitedOp_of_getOpId
    {node : XmlNode Nat} {id : Int}
    (h : xmldbGetOpIdCore node = .ok id)
    (hlimited : (postHandler id).limited = true) :
    limitedOp node = true := by
  rw [limitedOp, h]
  exact hlimited

/-- No part of the href of a watch is the name of the operation. -/
theorem pollChanges_path
    {w : ObixWatch} {t : Text}
    (ht : t ∈ w.path) :
    ¬ pollChanges <:+: t := by
  intro hin
  have hp : 'p' ∈ t := hin.subset (by decide)
  have hdigits : ∀ n, 'p' ∉ Nat.toDigits 10 n := by
    intro n hmem
    exact absurd (Nat.isDigit_of_mem_toDigits (by omega) (by omega) hmem) (by decide)
  simp only [ObixWatch.path, List.mem_cons, List.not_mem_nil, or_false] at ht
  rcases ht with rfl | rfl | rfl | rfl
  · exact absurd hp (by decide)
  · exact absurd hp (by decide)
  · exact hdigits _ hp
  · rcases List.mem_append.mp hp with hp | hp
    · exact absurd hp (by decide)
    · exact hdigits _ hp

/-- An operation of a watch. -/
theorem unseen_of_watch
    {id : Int}
    (hs : Settled s)
    (hrefused : refused href = false)
    (htype : isOfType href .watch = true)
    (hid : s.watchGetOpId beyond href = .ok id)
    (hlimited : (postHandler id).limited = true) :
    Unseen s href := by
  rw [Store.watchGetOpId] at hid
  split at hid
  · cases hid
  · rename_i w hw
    split at hid
    · cases hid
    · cases hnode : s.watchGetNodeCore beyond w href with
      | none =>
          -- without a node, the default handler runs
          rw [hnode] at hid
          have hid : (0 : Int) = id := by simpa using hid
          rw [← hid] at hlimited
          exact absurd hlimited (by decide)
      | some node =>
          rw [hnode] at hid
          refine .inr (.inr (.inr ⟨w, hw, ?_⟩))
          by_contra hlen
          have hget := getAt_of_watchGetNodeCore hnode
          have hplace := hs.ops _ node hget (limitedOp_of_getOpId hid hlimited)
          have hroot : ∀ p : Path, p ≠ watchServicePath → p.length = 2 →
              ¬ p <+: w.path ++ w.nodePath beyond href := by
            intro p hne hlength hpre
            refine hne ?_
            have hwatch : watchServicePath <+: w.path ++ w.nodePath beyond href :=
              ⟨_, rfl⟩
            exact (List.prefix_of_prefix_length_le hpre hwatch (by rw [hlength]; rfl)).eq_of_length
              (by rw [hlength]; rfl)
          rcases hplace with h | h | ⟨-, t, ht, hpoll⟩ | h | h
          · exact hroot _ (by decide) rfl h
          · exact hroot _ (by decide) rfl h
          · rcases List.mem_append.mp ht with ht | ht
            · exact pollChanges_path ht hpoll
            · rw [ObixWatch.nodePath] at ht
              split at ht
              · cases ht
              · have hpart := (isInfix_of_mem_tokens ht).trans
                  (@stringFrom_isInfix beyond href w.href.length (by omega))
                have hfind := find_of_isInfix (hpoll.trans hpart)
                simp [refused, htype, hfind] at hrefused
          · obtain ⟨rest, hrest⟩ := h
            have hhead : "sys".toList = "obix".toList :=
              Option.some.inj (congrArg List.head? hrest)
            exact absurd hhead (by decide)
          · exact hroot _ (by decide) rfl h

/-- The tokens of `WATCH_SERVICE_MAKE`. -/
def makePath : Path := ["obix".toList, "watchService".toList, "make".toList]

theorem isPath_watchServiceMake : IsPath watchServiceMake makePath where
  isToken := by
    intro t ht
    simp only [makePath, List.mem_cons, List.not_mem_nil, or_false] at ht
    rcases ht with rfl | rfl | rfl <;> exact ⟨by decide, by decide⟩
  ne_nil := by decide
  eq := .inr (by decide +kernel)

/-- An operation of the tree outside of devices and watches. -/
theorem unseen_of_plain
    {id : Int}
    (hs : Settled s)
    (hvalid : xmlIsValidHref href = true)
    (hrefused : refused href = false)
    (hwatch : isOfType href .watch = true → isStrIdentical href watchServiceMake = true)
    (hid : s.xmldbGetOpId href = .ok id)
    (hlimited : (postHandler id).limited = true) :
    Unseen s href := by
  cases hslash : slashPreceded href with
  | false => exact .inl hslash
  | true =>
      cases hnode : xmldbGetNode s.dom href with
      | none =>
          rw [Store.xmldbGetOpId, hnode] at hid
          cases hid
      | some node =>
          rw [Store.xmldbGetOpId, hnode] at hid
          have hpath := isPath_of_valid hvalid hslash
          have hplace := hs.ops _ node (getAt_of_xmldbGetNode hnode)
            (limitedOp_of_getOpId hid hlimited)
          simp only [refused, Bool.or_eq_false_iff] at hrefused
          rcases hplace with h | h | ⟨h, t, ht, hpoll⟩ | h | h
          · rw [@isOfType_of_isPath _ _ .batch hpath h] at hrefused
            cases hrefused.1.1
          · rw [@isOfType_of_isPath _ _ .history hpath h] at hrefused
            cases hrefused.1.2
          · -- `make` is not the name of the operation
            have hmake := hwatch (@isOfType_of_isPath _ _ .watch hpath h)
            rw [(hpath.isStrIdentical_iff isPath_watchServiceMake).mp hmake] at ht
            have hp : 'p' ∈ t := hpoll.subset (by decide)
            have hnone : ∀ t ∈ makePath, 'p' ∉ t := by decide
            exact absurd hp (hnone t ht)
          · exact .inr (.inl h)
          · exact .inr (.inr (.inl (@isOfType_of_isPath _ _ .device hpath h)))

/-- Whatever gets past the tests to a handler that is not meant for a batch has a href that they
do not tell anything about. -/
theorem unseen_of_getOpId
    {id : Int} {t : Store}
    (hs : Settled s)
    (hvalid : xmlIsValidHref href = true)
    (hrefused : refused href = false)
    (hid : s.getOpId beyond href = some (.ok id, t))
    (hlimited : (postHandler id).limited = true) :
    Unseen s href := by
  rw [Store.getOpId] at hid
  split at hid
  · rename_i hdevice
    exact .inr (.inr (.inl hdevice))
  · split at hid
    · rename_i hwatch
      obtain ⟨hid, -⟩ := Prod.mk.inj (Option.some.inj hid)
      exact unseen_of_watch hs hrefused hwatch.1 hid hlimited
    · rename_i hwatch
      obtain ⟨hid, -⟩ := Prod.mk.inj (Option.some.inj hid)
      refine unseen_of_plain hs hvalid hrefused (fun htype => ?_) hid hlimited
      simpa [htype] using hwatch

theorem Handler.limited_of_mayAnswer
    {h : Handler}
    (hmay : h.mayAnswer = true) :
    h.limited = true := by
  cases h <;> first | rfl | cases hmay

/-- What an invoke command does. -/
theorem invokeItem_spec
    (w : Workload)
    (uri : Option Text)
    (input : Option Xml)
    (hs : Settled s) :
    ∃ o, invokeItem w beyond uri href input s = some o ∧ Settled o.store ∧
      ((∀ h, o.ran = some h → h.limited = false) → o.answer.isSome = true) ∧
      ((∃ h, o.ran = some h ∧ h.limited = true) ↔ refused href = false ∧
        ∃ id t, s.getOpId beyond href = some (.ok id, t) ∧ (postHandler id).limited = true) := by
  have hrefuse : ∀ e, invokeItem w beyond uri href input s =
      some (refuseItem uri (some href) e s) → refused href = true →
      ∃ o, invokeItem w beyond uri href input s = some o ∧ Settled o.store ∧
      ((∀ h, o.ran = some h → h.limited = false) → o.answer.isSome = true) ∧
      ((∃ h, o.ran = some h ∧ h.limited = true) ↔ refused href = false ∧
        ∃ id t, s.getOpId beyond href = some (.ok id, t) ∧ (postHandler id).limited = true) := by
    intro e he hrefused
    refine ⟨_, he, hs, fun _ => rfl, ?_⟩
    simp [refuseItem, hrefused]
  cases hbatch : isOfType href .batch with
  | true => exact hrefuse .batchRecursive (by simp [invokeItem, hbatch]) (by simp [refused, hbatch])
  | false =>
      cases hhistory : isOfType href .history with
      | true =>
          exact hrefuse .batchHistory (by simp [invokeItem, hbatch, hhistory])
            (by simp [refused, hhistory])
      | false =>
          by_cases hpoll : isOfType href .watch = true ∧ (find pollChanges href).isSome = true
          · refine hrefuse .batchPollchanges ?_ (by simp [refused, hpoll.1, hpoll.2])
            simp only [invokeItem, hbatch, hhistory, Bool.false_eq_true, if_false, if_pos hpoll]
          · have hrefused : refused href = false := by
              simpa [refused, hbatch, hhistory] using hpoll
            obtain ⟨r, t, hid, ht⟩ := @Settled.getOpId s href beyond hs
            have hinvoke : invokeItem w beyond uri href input s =
                (obixServerInvoke w beyond href input s).map fun r =>
                  { answer := r.answer, ran := r.ran, host := none, uri := uri, store := r.store } := by
              simp only [invokeItem, hbatch, hhistory, Bool.false_eq_true, if_false, if_neg hpoll]
            rw [hinvoke, obixServerInvoke, hid]
            cases r with
            | error e =>
                refine ⟨_, rfl, ht, fun _ => rfl, ?_⟩
                simp
            | ok id =>
                refine ⟨_, rfl, w.keeps _ _ _ _ ht, fun h => ?_, by simp [hrefused]⟩
                have hanswer : (postHandler id).mayAnswer = false := by
                  have hnot := h _ rfl
                  by_contra hmay
                  rw [Handler.limited_of_mayAnswer (by simpa using hmay)] at hnot
                  cases hnot
                simp [hanswer]

/-- A command does what it asks for. -/
theorem processItem_eq (w : Workload) (uri : Option Text) (item : Xml) :
    obixBatchProcessItem w beyond uri item s =
      match commandOf item with
      | .bad href e => some (refuseItem uri href e s)
      | .read href => (obixServerRead w.copyUri href s).map fun r =>
          { answer := some r.1, ran := none, host := none, uri := uri, store := r.2 }
      | .write href => writeItem w beyond uri href item.children.head? s
      | .invoke href => invokeItem w beyond uri href item.children.head? s := by
  rw [obixBatchProcessItem, commandOf]
  cases item.getProp attrVal with
  | none => rfl
  | some href =>
      dsimp only
      split
      · rfl
      · cases item.getProp attrIs with
        | none => rfl
        | some contract =>
            dsimp only
            split
            · rfl
            · split
              · rfl
              · split
                · rfl
                · rfl

theorem valid_of_invoke
    {item : Xml}
    (h : commandOf item = .invoke href) :
    xmlIsValidHref href = true := by
  rw [commandOf] at h
  split at h
  · cases h
  · split at h
    · cases h
    · rename_i hvalid
      split at h
      · cases h
      · split at h
        · cases h
        · split at h
          · cases h
          · split at h
            · cases h
              simpa using hvalid
            · cases h

/-- What a write command does. -/
theorem writeItem_spec
    (w : Workload)
    (uri : Option Text)
    (input : Option Xml)
    (hs : Settled s) :
    ∃ o, writeItem w beyond uri href input s = some o ∧ Settled o.store ∧
      o.answer.isSome = true ∧ o.ran = none := by
  obtain ⟨o, ho, hsettled⟩ := @Settled.write s href beyond input hs
  obtain ⟨x, t, hx, ht⟩ : ∃ x t, writeAnswer w href o = some (x, t) ∧ Settled t := by
    rw [writeAnswer]
    split
    · exact hsettled.read w.copyUri
    · exact ⟨_, _, rfl, hsettled⟩
  rw [writeItem, ho, Option.bind_some, hx]
  exact ⟨_, rfl, ht, rfl, rfl⟩

/-- What a command does: it has an answer unless it runs a handler that is not meant for a batch,
and it runs one if and only if it gets around the tests. -/
theorem processItem_spec
    (w : Workload)
    (uri : Option Text)
    (item : Xml)
    (hs : Settled s) :
    ∃ o, obixBatchProcessItem w beyond uri item s = some o ∧ Settled o.store ∧
      ((∀ h, o.ran = some h → h.limited = false) → o.answer.isSome = true) ∧
      ((∃ h, o.ran = some h ∧ h.limited = true) ↔ Evades beyond item s) := by
  rw [processItem_eq]
  cases hcommand : commandOf item with
  | bad href e =>
      refine ⟨_, rfl, hs, fun _ => rfl, ?_⟩
      simp [refuseItem, Evades, hcommand]
  | read href =>
      obtain ⟨x, t, hx, ht⟩ := @Settled.read s href w.copyUri hs
      dsimp only
      rw [hx]
      refine ⟨_, rfl, ht, fun _ => rfl, ?_⟩
      simp [Evades, hcommand]
  | write href =>
      obtain ⟨o, ho, ht, hanswer, hran⟩ :=
        @writeItem_spec s beyond href w uri item.children.head? hs
      refine ⟨o, ho, ht, fun _ => hanswer, ?_⟩
      simp [hran, Evades, hcommand]
  | invoke href =>
      obtain ⟨o, ho, ht, hanswer, hran⟩ :=
        @invokeItem_spec s beyond href w uri item.children.head? hs
      refine ⟨o, ho, ht, hanswer, hran.trans ⟨?_, ?_⟩⟩
      · rintro ⟨hrefused, id, t, hid, hlimited⟩
        exact ⟨href, hcommand, hrefused,
          unseen_of_getOpId hs (valid_of_invoke hcommand) hrefused hid hlimited, id, t, hid,
          hlimited⟩
      · rintro ⟨href', hhref', hrefused, -, hid⟩
        obtain rfl : href = href' := by simpa using hcommand.symm.trans hhref'
        exact ⟨hrefused, hid⟩

end Evades

section Batches

variable {s : Store}

/-- No command of a list gets around the tests when it is its turn. -/
def NoneEvades (w : Workload) (beyond : Nat → Text) : Nat → Option Text → List Xml → Store → Prop
  | _, _, [], _ => True
  | n, uri, item :: rest, s =>
      ¬ Evades (beyond n) item s ∧
        ∀ o, obixBatchProcessItem w (beyond n) uri item s = some o →
          NoneEvades w beyond (n + 1) o.uri rest o.store

/-- The commands of a batch, one after the other. -/
theorem processItems_spec
    (w : Workload)
    (beyond : Nat → Text)
    (items : List Xml)
    (n : Nat)
    (uri : Option Text)
    (hs : Settled s) :
    ∃ r, processItems w beyond n uri items s = some r ∧ r.items.length = items.length ∧
      Settled r.store ∧
      ((∀ o ∈ r.items, o.answer.isSome = true ∧ ∀ h, o.ran = some h → h.limited = false) ↔
        NoneEvades w beyond n uri items s) := by
  induction items generalizing n uri s with
  | nil => exact ⟨_, rfl, rfl, hs, by simp [NoneEvades]⟩
  | cons item rest ih =>
      obtain ⟨o, ho, ht, hanswer, hran⟩ := @processItem_spec s (beyond n) w uri item hs
      obtain ⟨r, hr, hlength, hr', hiff⟩ := ih (n + 1) o.uri ht
      refine ⟨{ r with items := o :: r.items }, ?_, by simp [hlength], hr', ?_⟩
      · rw [processItems, ho, Option.bind_some, hr]
        rfl
      · have hfirst : (o.answer.isSome = true ∧ ∀ h, o.ran = some h → h.limited = false) ↔
            ¬ Evades (beyond n) item s := by
          rw [← hran]
          constructor
          · rintro ⟨-, hnone⟩ ⟨h, hh, hlimited⟩
            rw [hnone h hh] at hlimited
            cases hlimited
          · intro hnone
            have hnot : ∀ h, o.ran = some h → h.limited = false := by
              intro h hh
              by_contra hlimited
              exact hnone ⟨h, hh, by simpa using hlimited⟩
            exact ⟨hanswer hnot, hnot⟩
        rw [List.forall_mem_cons, hfirst, hiff, NoneEvades, ho]
        simp

theorem deviceBackupUri_some
    (hs : Linked s.reg)
    (now : Int)
    (href : Text) :
    ∃ b, deviceBackupUri now href s = some b := by
  rw [deviceBackupUri]
  cases hup : s.reg.deviceSearchParent href with
  | mk found reg =>
      cases found with
      | none => exact ⟨_, rfl⟩
      | some i =>
          obtain ⟨-, -, dev, hdev⟩ := hs.deviceSearchParent hup
          obtain ⟨cache, rfl⟩ := deviceSearchParent_some hup
          have hlive : (({ s.reg with cache := cache } : Registry).get i).heap i = some dev := hdev
          dsimp only
          rw [hlive]
          exact ⟨_, rfl⟩

/-- What `handlerBatch` does with a batchIn contract. -/
theorem handlerBatch_eq
    {w : Workload} {beyond : Nat → Text} {input : Xml} {r : BatchRun}
    (now : Int)
    (uri : Text)
    (hin : isBatchIn input = true)
    (hr : processItems w beyond 0 none (commands input) s = some r)
    (hsettled : Settled r.store) :
    ∃ backup, (r.uri.elim (some (none, r.store)) fun href => deviceBackupUri now href r.store) =
        some backup ∧
      handlerBatch w beyond now uri (some input) s = some
        { answer := batchOut (r.items.filterMap ItemOutcome.answer), run := some r,
          backedUp := backup.1, store := backup.2 } := by
  obtain ⟨backup, hbackup⟩ : ∃ backup, (r.uri.elim (some (none, r.store)) fun href =>
      deviceBackupUri now href r.store) = some backup := by
    cases r.uri with
    | none => exact ⟨_, rfl⟩
    | some href => exact deviceBackupUri_some hsettled.sound.linked now href
  refine ⟨backup, hbackup, ?_⟩
  simp only [handlerBatch, hin, Bool.true_eq_false, if_false, hr, Option.bind_some, hbackup,
    Option.map_some]

/-- All answers are there if they are as many as the commands. -/
theorem map_some_filterMap_answer (items : List ItemOutcome) :
    (items.filterMap ItemOutcome.answer).map some = items.map ItemOutcome.answer ↔
      ∀ o ∈ items, o.answer.isSome = true := by
  induction items with
  | nil => simp
  | cons o items ih =>
      cases ho : o.answer with
      | none =>
          simp only [List.filterMap_cons, ho, List.map_cons, List.forall_mem_cons,
            Option.isSome_none, Bool.false_eq_true, false_and, iff_false]
          intro h
          have hlength := congrArg List.length h
          have hle := List.length_filterMap_le ItemOutcome.answer items
          simp only [List.length_map, List.length_cons] at hlength
          omega
      | some x =>
          simp only [List.filterMap_cons, ho, List.map_cons, List.cons.injEq, true_and,
            List.forall_mem_cons, Option.isSome_some, ih]

end Batches

/-- A server whose operations are where they have been put. -/
structure ConfiguredServer where
  store : Store
  settled : Settled store

/-- A batchIn contract that `handlerBatch` accepts. -/
structure BatchIn where
  contract : Xml
  accepted : isBatchIn contract = true

/-- A batchOut contract has one answer for each command, in the order of the commands, and no
command has run a handler that is not meant for a batch. -/
structure Answered (input : Xml) (b : BatchOutcome) : Prop where
  answers : ∃ r, b.run = some r ∧ r.items.length = (commands input).length ∧
    b.answer.children.map some = r.items.map ItemOutcome.answer
  limits : ∀ r, b.run = some r → ∀ o ∈ r.items, ∀ h, o.ran = some h → h.limited = false

/-- A batch is answered, and within the limits, if and only if none of its commands gets around
the tests on its href. -/
theorem batch_answered_iff
    (w : Workload)
    (beyond : Nat → Text)
    (now : Int)
    (uri : Text)
    (input : BatchIn)
    (server : ConfiguredServer) :
    (∃ b, handlerBatch w beyond now uri (some input.contract) server.store = some b ∧
      Answered input.contract b) ↔
        NoneEvades w beyond 0 none (commands input.contract) server.store := by
  obtain ⟨r, hr, hlength, hsettled, hiff⟩ :=
    processItems_spec w beyond (commands input.contract) 0 none server.settled
  obtain ⟨backup, -, hbatch⟩ := handlerBatch_eq now uri input.accepted hr hsettled
  rw [← hiff, hbatch]
  constructor
  · rintro ⟨b, hb, hanswered⟩ o ho
    obtain rfl := Option.some.inj hb
    obtain ⟨r', hr', -, hall⟩ := hanswered.answers
    obtain rfl := Option.some.inj hr'
    exact ⟨(map_some_filterMap_answer r.items).mp hall o ho, hanswered.limits r rfl o ho⟩
  · intro h
    refine ⟨_, rfl, ⟨r, rfl, hlength, ?_⟩, fun r' hr' o ho => ?_⟩
    · exact (map_some_filterMap_answer r.items).mpr fun o ho => (h o ho).1
    · obtain rfl := Option.some.inj hr'
      exact (h o ho).2

section Sample

mutual

/-- The nodes of a tree with their paths. -/
def places {ω : Type} (p : Path) : XmlNode ω → List (Path × XmlNode ω)
  | .element o name attrs cs => (p, .element o name attrs cs) :: placesAll p cs
  | .text o content => [(p, .text o content)]
  | .comment o content => [(p, .comment o content)]

def placesAll {ω : Type} (p : Path) : List (XmlNode ω) → List (Path × XmlNode ω)
  | [] => []
  | c :: cs => (c.href.elim [] fun t => places (p ++ [t]) c) ++ placesAll p cs

end

theorem mem_places_self {ω : Type} (p : Path) (n : XmlNode ω) : (p, n) ∈ places p n := by
  cases n <;> simp [places]

theorem mem_placesAll
    {ω : Type} {p : Path} {t : Text} {c : XmlNode ω} {cs : List (XmlNode ω)}
    {x : Path × XmlNode ω}
    (hc : c ∈ cs)
    (ht : c.href = some t)
    (hx : x ∈ places (p ++ [t]) c) :
    x ∈ placesAll p cs := by
  induction cs with
  | nil => cases hc
  | cons d cs ih =>
      rw [placesAll, List.mem_append]
      rcases List.mem_cons.mp hc with rfl | hc
      · left
        rw [ht]
        exact hx
      · exact .inr (ih hc)

/-- Every node that a path leads to is among the nodes of the tree. -/
theorem mem_places
    {ω : Type} {q : Path} {n m : XmlNode ω}
    (h : n.getAt q = some m)
    (p : Path) :
    (p ++ q, m) ∈ places p n := by
  induction q generalizing p n with
  | nil =>
      obtain rfl : n = m := Option.some.inj h
      rw [List.append_nil]
      exact mem_places_self p n
  | cons t q ih =>
      obtain ⟨c, hc, hrest⟩ := Option.bind_eq_some_iff.mp h
      cases n with
      | element o name attrs cs =>
          have hc : cs.find? (hasHref t) = some c := hc
          have hin := ih hrest (p ++ [t])
          rw [List.append_assoc, List.singleton_append] at hin
          exact List.mem_cons_of_mem _ (mem_placesAll (List.mem_of_find?_eq_some hc)
            (hasHref_iff.mp (List.find?_some hc)) hin)
      | text o content => cases hc
      | comment o content => cases hc

instance : DecidablePred Reserved := fun p =>
  inferInstanceAs (Decidable (batchPath <+: p ∨ historyPath <+: p ∨
    (watchServicePath <+: p ∧ ∃ t ∈ p, pollChanges <:+: t) ∨ sysPath <+: p ∨ rootTokens <+: p))

/-- A node with a href. -/
def sampleObj (name href : String) (children : List Xml) : Xml :=
  .element none name.toList [(attrHref, href.toList)] children

/-- A lobby with the device root and the template of a watch. -/
def sampleSys : Xml :=
  .element none "obj".toList []
    [sampleObj "obj" "obix" [sampleObj "obj" "deviceRoot" []],
      sampleObj "obj" "sys" [sampleObj "obj" "watch-stub" [sampleObj "op" "pollChanges"
        [.element none "meta".toList [(attrOp, "4".toList)] []]]]]

def sysRegistry : Option Registry := devicesStart "/srv".toList 2 2 sampleSys sampleDisk

theorem isSome_sysRegistry : sysRegistry.isSome = true := by decide +kernel

/-- A server that has just been started. -/
def sysStore : Store :=
  { reg := sysRegistry.get isSome_sysRegistry, mtime := fun _ => 0, backupPeriod := 0,
    watches := [] }

theorem settled_sysStore : Settled sysStore where
  sound := sound_start (Option.some_get isSome_sysRegistry).symm _ _ []
  ops := by
    intro p node hget
    have hall : ∀ x ∈ places [] sysStore.dom, limitedOp x.2 = true → Reserved x.1 := by
      decide +kernel
    exact hall _ (mem_places hget [])

def sysServer : ConfiguredServer := ⟨sysStore, settled_sysStore⟩

/-- Handlers that find nothing to work on. -/
def idleWorkload : Workload where
  copyUri _ _ := none
  reply _ uri _ _ := obixServerGenerateError (some uri) .watchNoSuchUri "Watch Poll"
  alone _ _ _ _ := false
  next _ _ _ s := s
  keeps _ _ _ _ h := h

/-- A batch that invokes the operation of the template of watches. -/
def sampleBatch : BatchIn where
  contract := .element none History.objList [(attrIs, contractBatchIn)]
    [.element none objUri
      [(attrIs, contractOpInvoke), (attrVal, "/sys/watch-stub/pollChanges".toList)] []]
  accepted := by decide +kernel

/-- A command of a batch runs `handlerWatchPollChanges`. -/
theorem batch_polls :
    ∃ (w : Workload) (beyond : Nat → Text) (now : Int) (uri : Text) (input : BatchIn)
      (server : ConfiguredServer) (b : BatchOutcome),
      handlerBatch w beyond now uri (some input.contract) server.store = some b ∧
        ¬ Answered input.contract b := by
  have hran : (handlerBatch idleWorkload (fun _ => []) 0 "/obix/batch".toList
      (some sampleBatch.contract) sysServer.store).bind
        (fun b => b.run.map fun r => r.items.map ItemOutcome.ran) =
      some [some .watchPollChanges] := by
    decide +kernel
  obtain ⟨b, hb, hr⟩ := Option.bind_eq_some_iff.mp hran
  obtain ⟨r, hr, hitems⟩ := Option.map_eq_some_iff.mp hr
  refine ⟨_, _, _, _, sampleBatch, sysServer, b, hb, fun hanswered => ?_⟩
  obtain ⟨o, ho, hpoll⟩ := List.mem_map.mp (hitems ▸ List.mem_singleton_self (some Handler.watchPollChanges))
  have hlimit := hanswered.limits r hr o ho _ hpoll
  cases hlimit

end Sample

end Serving
end Obix
