import Obix.Utils.RegionBalance
import Obix.Watch.Polls

/-!
# No change is lost by a watch

Harvests run in the read region of the watch, side by side; the watch is notified, and its
items and poll tasks change, in the write region.  A harvest that resets the counters has
reset all of them when it resets `watch->changed`, and it has put an entry for every item it
has reset into a watchOut contract that is sent (`changes_not_lost`).

The runs are those in which the watch is not deleted and the regions are left in the order in
which they are entered.
-/

namespace Obix

section Regions

/-- How a step of a thread changes its phase and the counters of the regions. -/
inductive RegionMove (sync : Tsync) (a : Phase) (sync' : Tsync) (b : Phase) : Prop
  | step (h : TsyncStep sync a sync' b)
  | stay (hsync : sync' = sync) (h : b = a)
  /-- Through the write region. -/
  | write (inner : Tsync) (ha : a = .waitWrite) (hb : b = .out)
      (hgrant : sync.grant .write = some inner) (hsync : sync' = inner.leave .write)

variable {sync sync' : Tsync} {m : Mode}

theorem Tsync.request_flag
    (h : sync.request m = some sync') :
    sync'.beingShutdown = sync.beingShutdown := by
  cases m <;>
    simp only [Tsync.request, Tsync.readerRequest, Tsync.writerRequest,
      Option.ite_none_left_eq_some, Option.some.injEq] at h <;>
    rw [← h.2]

theorem Tsync.grant_flag
    (h : sync.grant m = some sync') :
    sync'.beingShutdown = sync.beingShutdown := by
  cases m <;>
    simp only [Tsync.grant, Tsync.readerGrant, Tsync.writerGrant,
      Option.ite_none_left_eq_some, Option.some.injEq] at h <;>
    rw [← h.2]

theorem Tsync.pass_flag
    (h : sync.pass m = some sync') :
    sync'.beingShutdown = sync.beingShutdown := by
  cases m with
  | read => exact Tsync.grant_flag (m := .read) h
  | write =>
      obtain ⟨inner, hgrant, rfl⟩ := Option.map_eq_some_iff.mp h
      show inner.beingShutdown = _
      exact Tsync.grant_flag hgrant

/-- The counters follow the threads. -/
theorem Tracked.regionMove
    {ι : Type} [Fintype ι] [DecidableEq ι] {phase : ι → Phase} {i : ι} {b : Phase}
    (h : Tracked sync phase)
    (hmoves : RegionMove sync (phase i) sync' b) :
    Tracked sync' (Function.update phase i b) := by
  cases hmoves with
  | step hstep => exact h.step hstep
  | stay hsync hb =>
      rw [hsync, hb, Function.update_eq_self]
      exact h
  | write inner ha hb hgrant hsync =>
      subst hb hsync
      have hin : Tracked inner (Function.update phase i .write) := by
        refine h.step ?_
        rw [ha]
        exact .grant (m := .write) hgrant
      have hout : Tracked (inner.leave .write)
          (Function.update (Function.update phase i .write) i .out) := by
        refine hin.step ?_
        rw [Function.update_self]
        exact .leave inner .write
      rwa [Function.update_idem] at hout

/-- Nobody is in the read region when the write region is granted. -/
theorem Tracked.none_reading
    {ι : Type} [Fintype ι] {phase : ι → Phase}
    (h : Tracked sync phase)
    (hgrant : sync.grant .write = some sync') :
    ∀ i, phase i ≠ .read := by
  simp only [Tsync.grant, Tsync.writerGrant, Option.ite_none_left_eq_some] at hgrant
  have hcount := h.runningReaders
  have hzero : occupancy (· = Phase.read) phase = 0 := by omega
  exact occupancy_eq_zero_iff.mp hzero

end Regions

namespace Watches

/-- The operations that find the watch in its regions. -/
def Op.inRegions : Op → Bool
  | .delete | .expire | .cross _ => false
  | _ => true

/-- In `__watch_harvest_changes`. -/
def Pc.harvesting : Pc → Bool
  | .harvest _ | .round .. | .take .. => true
  | _ => false

/-- The request that a thread harvests for or has harvested for and will answer. -/
def Pc.answers : Pc → Option Nat
  | .harvest h | .round h _ _ | .take h _ _ _ => some h.req
  | .leave r | .leaveTask r | .reply r | .enter (.drop r) _ | .remove r => some r
  | .put r => r
  | .putTask r | .clear r | .replyTask r => some r
  | _ => none

namespace Polls

variable {ι : Type}

/-- Only operations that find the watch in its regions are begun. -/
def Undisturbed (_ : Polls ι) (x : ι × Option Op) : Prop :=
  ∀ op ∈ x.2, op.inRegions = true

instance (s : Polls ι) (x : ι × Option Op) : Decidable (s.Undisturbed x) :=
  inferInstanceAs (Decidable (∀ op ∈ x.2, op.inRegions = true))

/-- Changes that have not been harvested are recorded in the watch, and those that have been
harvested are in a watchOut contract that has been sent or is still to be sent. -/
structure NoneLost (s : Polls ι) : Prop where
  recorded : (∀ i, (s.pc i).harvesting = false) →
    ∀ item ∈ s.shared.items, 0 < item.count → s.shared.changed = true
  sent : ∀ r, ∀ key ∈ (s.shared.poll r).resets,
    key ∈ (s.shared.poll r).out ∧
      ((∃ out ∈ (s.shared.poll r).replies, key ∈ out) ∨ ∃ i, (s.pc i).answers = some r)

/-- A counter is reset only by a harvest, or with the removal of the item. -/
def ResetByHarvest (s : Polls ι) (i : ι) (s' : Polls ι) : Prop :=
  ∀ item ∈ s.shared.items, 0 < item.count →
    ∀ item' ∈ s'.shared.items, item'.key = item.key → item'.count = 0 →
      ∃ h passed todo, s.pc i = .take h passed item.key todo ∧
        item.key ∈ (s'.shared.poll h.req).resets

end Polls

section Phases

/-- Where a thread is with respect to the regions of the watch. -/
def Pc.phase : Pc → Phase
  | .enter e true => e.mode.waiting
  | .inside _ | .test .. | .quit _ | .leave _ | .leaveTask _ => .read
  | .harvest h | .round h _ _ | .take h _ _ _ => if h.inside then .read else .out
  | _ => .out

/-- The thread takes part in no deletion, and harvests in the read region. -/
def Pc.plain : Pc → Bool
  | .get (.cross _) | .enter (.cross _) _ | .inside false | .remove _ => false
  | .harvest h | .round h _ _ | .take h _ _ _ => h.inside
  | .shutdown .. | .wake | .unlist _ | .putDelete | .drain => false
  | _ => true

variable {sync sync' : Tsync}

theorem regionMove_pass
    {e : Entry} {b : Phase}
    (h : sync.pass e.mode = some sync')
    (hb : b = match e.mode with | .read => Phase.read | .write => .out) :
    RegionMove sync (Pc.phase (.enter e true)) sync' b := by
  subst hb
  cases hm : e.mode with
  | read =>
      rw [hm] at h
      refine .step ?_
      simp only [Pc.phase, hm]
      exact .grant (m := .read) h
  | write =>
      rw [hm] at h
      obtain ⟨inner, hgrant, rfl⟩ := Option.map_eq_some_iff.mp h
      exact .write inner (by simp [Pc.phase, hm, Mode.waiting]) rfl hgrant rfl

end Phases

section Invariant

/-- The items have different addresses, and their changes are recorded in the watch. -/
structure Shared.Counted (d : Shared) : Prop where
  up : d.sync.beingShutdown = false
  nodup : (d.items.map Item.key).Nodup
  known : ∀ item ∈ d.items, item.key < d.next
  recorded : ∀ item ∈ d.items, 0 < item.count → d.changed = true
  filled : ∀ r, ∀ key ∈ (d.poll r).resets, key ∈ (d.poll r).out

/-- A harvest that resets the counters has left none behind. -/
def Shared.Behind (d : Shared) (h : Harvest) (passed : List Nat) : Prop :=
  d.resets h.all = true → ∀ item ∈ d.items, item.key ∈ passed → item.count = 0

/-- A harvest has gone through the items from the first one on. -/
def Scanned (d : Shared) (p : Pc) : Prop :=
  p.plain = true ∧
    match p with
    | .round h passed todo => d.items.map Item.key = passed ++ todo ∧ d.Behind h passed
    | .take h passed key todo => d.items.map Item.key = passed ++ key :: todo ∧ d.Behind h passed
    | _ => True

/-- A reset counter whose item is in no watchOut contract that has been sent. -/
def Shared.Unsent (d : Shared) (x : Nat × Nat) : Prop :=
  x.2 ∈ (d.poll x.1).resets ∧ ∀ out ∈ (d.poll x.1).replies, x.2 ∉ out

def Pc.Answers (p : Pc) (x : Nat × Nat) : Prop := p.answers = some x.1

/-- The invariant of the runs in which the watch is found in its regions. -/
structure Polls.Harvested {ι : Type} [Fintype ι] (s : Polls ι) : Prop where
  tracked : Tracked s.shared.sync fun i => (s.pc i).phase
  outlined : s.Outlined Shared.Counted Scanned fun _ _ => True
  covered : s.Covered Shared.Unsent Pc.Answers

/-- The watchOut contracts and what has been reset for them are as before. -/
structure Shared.SameOut (d d' : Shared) : Prop where
  out : ∀ r, (d'.poll r).out = (d.poll r).out
  resets : ∀ r, (d'.poll r).resets = (d.poll r).resets
  replies : ∀ r, (d'.poll r).replies = (d.poll r).replies

/-- The items, their counters and the watchOut contracts are as before. -/
structure Shared.Quiet (d d' : Shared) : Prop where
  up : d'.sync.beingShutdown = d.sync.beingShutdown
  items : d'.items = d.items
  changed : d'.changed = d.changed
  tasksCount : d'.tasksCount = d.tasksCount
  next : d.next ≤ d'.next
  sameOut : Shared.SameOut d d'

variable {d d' : Shared} {p p' : Pc}

theorem Shared.Counted.filled_of
    (h : d.Counted)
    (hout : Shared.SameOut d d') :
    ∀ r, ∀ key ∈ (d'.poll r).resets, key ∈ (d'.poll r).out := by
  intro r key hkey
  rw [hout.resets] at hkey
  rw [hout.out]
  exact h.filled r key hkey

theorem Shared.Counted.quiet
    (h : d.Counted)
    (hq : Shared.Quiet d d') :
    d'.Counted := by
  refine ⟨hq.up.trans h.up, ?_, ?_, ?_, h.filled_of hq.sameOut⟩
  · rw [hq.items]
    exact h.nodup
  · rw [hq.items]
    exact fun item hitem => lt_of_lt_of_le (h.known item hitem) hq.next
  · rw [hq.items, hq.changed]
    exact h.recorded

/-- What a harvest has done depends on the items and the number of tasks. -/
theorem Scanned.congr
    (h : Scanned d p)
    (hitems : d'.items = d.items)
    (hcount : d'.tasksCount = d.tasksCount) :
    Scanned d' p := by
  refine ⟨h.1, ?_⟩
  have hrest := h.2
  unfold Shared.Behind Shared.resets at *
  cases p with
  | round h' passed todo =>
      simp only [hitems, hcount]
      exact hrest
  | take h' passed key todo =>
      simp only [hitems, hcount]
      exact hrest
  | _ => trivial

/-- A thread that is not in the read region does not harvest. -/
theorem Scanned.of_not_reading
    (h : Scanned d p)
    (hphase : p.phase ≠ .read) :
    Scanned d' p := by
  obtain ⟨hplain, hrest⟩ := h
  refine ⟨hplain, ?_⟩
  cases p with
  | round h' passed todo =>
      simp only [Pc.plain] at hplain
      exact absurd (by simp [Pc.phase, hplain]) hphase
  | take h' passed key todo =>
      simp only [Pc.plain] at hplain
      exact absurd (by simp [Pc.phase, hplain]) hphase
  | _ => trivial

@[simp] theorem Item.notified_key (node : Nat) (deleted : Bool) (item : Item) :
    (item.notified node deleted).key = item.key := by
  unfold Item.notified
  split <;> rfl

theorem Item.notified_count_le (node : Nat) (deleted : Bool) (item : Item) :
    item.count ≤ (item.notified node deleted).count := by
  unfold Item.notified
  split
  · exact Nat.le_succ _
  · exact le_rfl

theorem Shared.sameOut_notifyWatches (node : Nat) (deleted : Bool) :
    Shared.SameOut d (d.notifyWatches node deleted) := by
  unfold Shared.notifyWatches Shared.notifyTasks
  split
  · exact ⟨fun _ => rfl, fun _ => rfl, fun _ => rfl⟩
  · refine ⟨?_, ?_, ?_⟩ <;>
      · intro r
        simp only
        split <;> split <;> rfl

/-- A notification counts a change of the items that monitor the node. -/
theorem Shared.notifyWatches_items (node : Nat) (deleted : Bool) :
    (d.notifyWatches node deleted).items = d.items.map (Item.notified node deleted) := by
  unfold Shared.notifyWatches Shared.notifyTasks
  split
  · rename_i hnone
    have hno : ∀ item ∈ d.items, item.node ≠ some node := by
      intro item hitem hnode
      have hmem : item.key ∈ d.monitors node :=
        List.mem_map_of_mem (List.mem_filter.mpr ⟨hitem, by simpa using hnode⟩)
      rw [hnone] at hmem
      cases hmem
    have hid : d.items.map (Item.notified node deleted) = d.items.map id := by
      refine List.map_congr_left ?_
      intro item hitem
      simp [Item.notified, hno item hitem]
    rw [hid, List.map_id]
  · rfl

theorem Shared.Counted.notifyWatches
    (h : d.Counted)
    (node : Nat)
    (deleted : Bool) :
    (d.notifyWatches node deleted).Counted := by
  have hitems := Shared.notifyWatches_items (d := d) node deleted
  have hkeys : (d.notifyWatches node deleted).items.map Item.key = d.items.map Item.key := by
    rw [hitems, List.map_map]
    exact List.map_congr_left fun item _ => Item.notified_key node deleted item
  refine ⟨?_, ?_, ?_, ?_, h.filled_of (Shared.sameOut_notifyWatches node deleted)⟩
  · unfold Shared.notifyWatches
    split <;> exact h.up
  · rw [hkeys]
    exact h.nodup
  · have hnext : (d.notifyWatches node deleted).next = d.next := by
      unfold Shared.notifyWatches
      split <;> rfl
    intro item hitem
    have hkey : item.key ∈ d.items.map Item.key := hkeys ▸ List.mem_map_of_mem hitem
    obtain ⟨item', hitem', heq⟩ := List.mem_map.mp hkey
    rw [hnext, ← heq]
    exact h.known item' hitem'
  · unfold Shared.notifyWatches
    split
    · exact h.recorded
    · exact fun _ _ _ => rfl

/-- Where an item comes from after an edit. -/
theorem Shared.edit_items
    {e : Edit} {item : Item}
    (hitem : item ∈ (d.edit e).items) :
    item ∈ d.items ∨ item.key = d.next ∧ item.count = 0 := by
  have happend : ∀ {items : List Item} {href : CString.Text} {linked : Option Nat},
      (∀ item ∈ items, item ∈ d.items) →
      item ∈ (Shared.append { d with items := items } href linked).items →
        item ∈ d.items ∨ item.key = d.next ∧ item.count = 0 := by
    intro items href linked hsub hmem
    cases linked with
    | none => exact .inl (hsub item hmem)
    | some node =>
        rcases List.mem_append.mp hmem with hmem | hmem
        · exact .inl (hsub item hmem)
        · rw [List.mem_singleton.mp hmem]
          exact .inr ⟨rfl, rfl⟩
  cases e with
  | add href linked =>
      simp only [Shared.edit] at hitem
      split at hitem
      · exact happend (fun _ hmem => hmem) hitem
      · split at hitem
        · exact happend (fun _ hmem => List.mem_of_mem_eraseP hmem) hitem
        · exact .inl hitem
  | remove href => exact .inl (List.mem_of_mem_eraseP hitem)

theorem Shared.Counted.edit_nodup
    (h : d.Counted)
    (e : Edit) :
    ((d.edit e).items.map Item.key).Nodup ∧ d.next ≤ (d.edit e).next ∧
      ∀ item ∈ (d.edit e).items, item.key < (d.edit e).next := by
  have herase : ∀ q : Item → Bool, (d.items.eraseP q).Sublist d.items := fun _ =>
    List.eraseP_sublist
  have happend : ∀ {items : List Item} {href : CString.Text} {linked : Option Nat},
      items.Sublist d.items →
      ((Shared.append { d with items := items } href linked).items.map Item.key).Nodup ∧
        d.next ≤ (Shared.append { d with items := items } href linked).next ∧
        ∀ item ∈ (Shared.append { d with items := items } href linked).items,
          item.key < (Shared.append { d with items := items } href linked).next := by
    intro items href linked hsub
    have hnodup : (items.map Item.key).Nodup := h.nodup.sublist (hsub.map Item.key)
    cases linked with
    | none => exact ⟨hnodup, le_rfl, fun item hitem => h.known item (hsub.subset hitem)⟩
    | some node =>
        refine ⟨?_, Nat.le_succ _, ?_⟩
        · simp only [Shared.append, List.map_append, List.map_cons, List.map_nil]
          rw [List.nodup_append_comm]
          refine List.nodup_cons.mpr ⟨?_, hnodup⟩
          intro hmem
          obtain ⟨item, hitem, heq⟩ := List.mem_map.mp hmem
          have hlt := h.known item (hsub.subset hitem)
          omega
        · intro item hitem
          rcases List.mem_append.mp hitem with hitem | hitem
          · exact Nat.lt_succ_of_lt (h.known item (hsub.subset hitem))
          · rw [List.mem_singleton.mp hitem]
            exact Nat.lt_succ_self _
  cases e with
  | add href linked =>
      simp only [Shared.edit]
      split
      · exact happend (List.Sublist.refl d.items)
      · split
        · exact happend (herase _)
        · exact ⟨h.nodup, le_rfl, h.known⟩
  | remove href =>
      exact ⟨h.nodup.sublist ((herase _).map Item.key), le_rfl,
        fun item hitem => h.known item ((herase _).subset hitem)⟩

/-- An edit leaves everything but the items alone. -/
theorem Shared.edit_frame (e : Edit) :
    (d.edit e).sync = d.sync ∧ (d.edit e).changed = d.changed ∧ (d.edit e).poll = d.poll := by
  have happend : ∀ (items : List Item) (href : CString.Text) (linked : Option Nat),
      (Shared.append { d with items := items } href linked).sync = d.sync ∧
        (Shared.append { d with items := items } href linked).changed = d.changed ∧
        (Shared.append { d with items := items } href linked).poll = d.poll := by
    intro items href linked
    cases linked <;> exact ⟨rfl, rfl, rfl⟩
  cases e with
  | add href linked =>
      simp only [Shared.edit]
      split
      · exact happend d.items href linked
      · split
        · exact happend _ href linked
        · exact ⟨rfl, rfl, rfl⟩
  | remove href => exact ⟨rfl, rfl, rfl⟩

theorem Shared.Counted.edit
    (h : d.Counted)
    (e : Edit) :
    (d.edit e).Counted := by
  obtain ⟨hsync, hchanged, hpoll⟩ := Shared.edit_frame (d := d) e
  obtain ⟨hnodup, -, hknown⟩ := h.edit_nodup e
  refine ⟨by rw [hsync]; exact h.up, hnodup, hknown, ?_, by rw [hpoll]; exact h.filled⟩
  intro item hitem hpos
  rw [hchanged]
  rcases Shared.edit_items hitem with hold | ⟨-, hzero⟩
  · exact h.recorded item hold hpos
  · omega

/-- The counter that is found under the address of an item. -/
theorem Shared.Counted.count_eq_zero
    {item : Item} {key : Nat}
    (h : d.Counted)
    (hitem : item ∈ d.items)
    (hkey : item.key = key)
    (hzero : d.count key = 0) :
    item.count = 0 := by
  obtain ⟨before, after, heq⟩ := List.append_of_mem hitem
  have hnodup := h.nodup
  rw [heq, List.map_append, List.map_cons] at hnodup
  have hfirst : ∀ other ∈ before, ¬ other.key = key := by
    intro other hother hsame
    exact (List.nodup_append.mp hnodup).2.2 other.key (List.mem_map_of_mem hother) item.key
      (List.mem_cons_self) (hsame.trans hkey.symm)
  have hfind : d.items.find? (fun item => item.key = key) = some item := by
    rw [heq, List.find?_append, List.find?_eq_none.mpr (by simpa using hfirst)]
    simp [hkey]
  simpa [Shared.count, hfind] using hzero

/-- The counter of an item that a harvest comes to. -/
theorem Shared.collect_items
    (h : Harvest)
    (key : Nat) :
    (d.collect h key).items =
      if d.resets h.all then (d.resetItem key).items else d.items := by
  unfold Shared.collect
  split <;> rfl

theorem Shared.collect_keys (h : Harvest) (key : Nat) :
    (d.collect h key).items.map Item.key = d.items.map Item.key := by
  rw [Shared.collect_items]
  split
  · simp only [Shared.resetItem, List.map_map]
    refine List.map_congr_left ?_
    intro item _
    simp only [Function.comp_apply]
    split <;> rfl
  · rfl

/-- A harvest does not raise a counter. -/
theorem Shared.collect_le
    {h : Harvest} {key : Nat} {item : Item}
    (hitem : item ∈ (d.collect h key).items) :
    ∃ old ∈ d.items, item.key = old.key ∧ item.count ≤ old.count ∧
      (d.resets h.all = true → old.key = key → item.count = 0) := by
  rw [Shared.collect_items] at hitem
  split at hitem
  · obtain ⟨old, hold, rfl⟩ := List.mem_map.mp hitem
    refine ⟨old, hold, ?_⟩
    split
    · exact ⟨rfl, Nat.zero_le _, fun _ _ => rfl⟩
    · rename_i hne
      exact ⟨rfl, le_rfl, fun _ heq => absurd heq hne⟩
  · rename_i hno
    exact ⟨item, hitem, rfl, le_rfl, fun hyes => absurd hyes hno⟩

/-- The fields that a harvest leaves alone at an item. -/
theorem Shared.collect_frame (h : Harvest) (key : Nat) :
    (d.collect h key).sync = d.sync ∧ (d.collect h key).next = d.next ∧
      (d.collect h key).changed = d.changed ∧ (d.collect h key).tasksCount = d.tasksCount := by
  unfold Shared.collect
  split <;> exact ⟨rfl, rfl, rfl, rfl⟩

/-- The watchOut contract of another request. -/
theorem Shared.collect_poll_of_ne
    {r : Nat}
    (h : Harvest)
    (key : Nat)
    (hr : r ≠ h.req) :
    (d.collect h key).poll r = d.poll r := by
  unfold Shared.collect
  split <;> exact Function.update_of_ne hr _ _

theorem Shared.Counted.collect
    (hd : d.Counted)
    (h : Harvest)
    (key : Nat) :
    (d.collect h key).Counted := by
  obtain ⟨hsync, hnext, hchanged, -⟩ := Shared.collect_frame (d := d) h key
  refine ⟨by rw [hsync]; exact hd.up, by rw [Shared.collect_keys]; exact hd.nodup, ?_, ?_, ?_⟩
  · intro item hitem
    obtain ⟨old, hold, hkey, -⟩ := Shared.collect_le hitem
    rw [hkey, hnext]
    exact hd.known old hold
  · intro item hitem hpos
    obtain ⟨old, hold, -, hle, -⟩ := Shared.collect_le hitem
    rw [hchanged]
    exact hd.recorded old hold (lt_of_lt_of_le hpos hle)
  · intro r key' hkey'
    by_cases hr : r = h.req
    · subst hr
      unfold Shared.collect at hkey' ⊢
      split at hkey' <;> rename_i hresets <;> simp only [hresets, if_true, if_false, Bool.false_eq_true] <;>
        simp only [Shared.setPoll, Shared.resetItem, Function.update_self, List.mem_append,
          List.mem_singleton] at hkey' ⊢
      · exact hkey'.imp_left (hd.filled _ _)
      · exact .inl (hd.filled _ _ hkey')
    · rw [Shared.collect_poll_of_ne h key hr] at hkey' ⊢
      exact hd.filled r key' hkey'

/-- A harvest does not interfere with another one. -/
theorem Shared.Behind.collect
    {h' : Harvest} {passed : List Nat}
    (hb : d.Behind h' passed)
    (h : Harvest)
    (key : Nat) :
    (d.collect h key).Behind h' passed := by
  obtain ⟨-, -, -, hcount⟩ := Shared.collect_frame (d := d) h key
  intro hresets item hitem hmem
  obtain ⟨old, hold, hkey, hle, -⟩ := Shared.collect_le hitem
  have hzero := hb (by unfold Shared.resets at hresets ⊢; rwa [hcount] at hresets) old hold
    (hkey ▸ hmem)
  omega

theorem Scanned.collect
    (hp : Scanned d p)
    (h : Harvest)
    (key : Nat) :
    Scanned (d.collect h key) p := by
  refine ⟨hp.1, ?_⟩
  have hrest := hp.2
  cases p with
  | round h' passed todo =>
      simp only [Shared.collect_keys]
      exact ⟨hrest.1, Shared.Behind.collect hrest.2 h key⟩
  | take h' passed key' todo =>
      simp only [Shared.collect_keys]
      exact ⟨hrest.1, Shared.Behind.collect hrest.2 h key⟩
  | _ => trivial

theorem Harvest.answers_after (h : Harvest) : h.after.answers = some h.req := by
  unfold Harvest.after
  split
  · split <;> rfl
  · rfl

theorem Harvest.scanned_after
    (h : Harvest)
    (hinside : h.inside = true) :
    Scanned d h.after := by
  cases htask : h.task <;> simp [Harvest.after, htask, hinside, Scanned, Pc.plain]

/-- A change of other fields of a request. -/
theorem Shared.sameOut_setPoll
    {f : Poll → Poll}
    (r : Nat)
    (hf : ∀ x, (f x).out = x.out ∧ (f x).resets = x.resets ∧ (f x).replies = x.replies) :
    Shared.SameOut d (d.setPoll r f) := by
  constructor <;>
    · intro r'
      by_cases hr : r' = r
      · subst hr
        simp [Shared.setPoll, hf]
      · simp [Shared.setPoll, Function.update_of_ne hr]

theorem Shared.SameOut.of_poll
    {d'' : Shared}
    (h : Shared.SameOut d d')
    (hpoll : d''.poll = d'.poll) :
    Shared.SameOut d d'' := by
  refine ⟨?_, ?_, ?_⟩ <;> rw [hpoll]
  · exact h.out
  · exact h.resets
  · exact h.replies

theorem Shared.quiet_refl : Shared.Quiet d d :=
  ⟨rfl, rfl, rfl, rfl, le_rfl, ⟨fun _ => rfl, fun _ => rfl, fun _ => rfl⟩⟩

end Invariant

section Moving

variable {ι : Type} [DecidableEq ι] {s s' : Polls ι} {x : ι × Option Op} {d : Shared} {p : Pc}

theorem Polls.phase_update
    (hs' : s' = { shared := d, pc := Function.update s.pc x.1 p }) :
    (fun i => (s'.pc i).phase) = Function.update (fun i => (s.pc i).phase) x.1 p.phase := by
  subst hs'
  exact Function.comp_update Pc.phase s.pc x.1 p

/-- A thread that answers a request goes on answering it. -/
theorem Polls.covered_of_sameOut
    (h : s.Covered Shared.Unsent Pc.Answers)
    (hs' : s' = { shared := d, pc := Function.update s.pc x.1 p })
    (hout : Shared.SameOut s.shared d)
    (hanswers : (s.pc x.1).answers = none ∨ p.answers = (s.pc x.1).answers) :
    s'.Covered Shared.Unsent Pc.Answers := by
  refine h.act hs' ?_
  intro y hy
  have hy' : s.shared.Unsent y := by
    unfold Shared.Unsent at hy ⊢
    rwa [hout.resets, hout.replies] at hy
  by_cases hans : (s.pc x.1).Answers y
  · refine .inl ?_
    unfold Pc.Answers at hans ⊢
    rcases hanswers with hnone | hsame
    · rw [hnone] at hans
      cases hans
    · rw [hsame, hans]
  · exact .inr ⟨hy', hans⟩

variable [Fintype ι]

/-- A step that leaves the items alone. -/
theorem Polls.Harvested.quiet
    (h : s.Harvested)
    (hs' : s' = { shared := d, pc := Function.update s.pc x.1 p })
    (hq : Shared.Quiet s.shared d)
    (hmoves : RegionMove s.shared.sync (s.pc x.1).phase d.sync p.phase)
    (hscanned : Scanned d p)
    (hanswers : (s.pc x.1).answers = none ∨ p.answers = (s.pc x.1).answers) :
    s'.Harvested := by
  constructor
  · rw [Polls.phase_update hs']
    have hshared : s'.shared = d := by rw [hs']
    rw [hshared]
    exact h.tracked.regionMove hmoves
  · refine h.outlined.act (fun _ _ _ => trivial) hs' (h.outlined.shared.quiet hq) hscanned ?_
    exact fun j _ => ⟨(h.outlined.pc j).congr hq.items hq.tasksCount, trivial⟩
  · exact Polls.covered_of_sameOut h.covered hs' hq.sameOut hanswers

/-- What is done in the write region, where nobody harvests. -/
theorem Polls.Harvested.written
    {inner : Tsync}
    (h : s.Harvested)
    (hs' : s' = { shared := d, pc := Function.update s.pc x.1 p })
    (hwaits : (s.pc x.1).phase = .waitWrite)
    (hgrant : s.shared.sync.grant .write = some inner)
    (hsync : d.sync = inner.leave .write)
    (hphase : p.phase = .out)
    (hplain : p.plain = true)
    (hcounted : d.Counted)
    (hout : Shared.SameOut s.shared d)
    (hanswers : (s.pc x.1).answers = none ∨ p.answers = (s.pc x.1).answers) :
    s'.Harvested := by
  have hnone := h.tracked.none_reading hgrant
  constructor
  · rw [Polls.phase_update hs']
    have hshared : s'.shared = d := by rw [hs']
    rw [hshared, hsync]
    exact h.tracked.regionMove (.write inner hwaits hphase hgrant rfl)
  · refine h.outlined.act (fun _ _ _ => trivial) hs' hcounted ?_ ?_
    · refine Scanned.of_not_reading (d := s.shared) ⟨hplain, ?_⟩ (by rw [hphase]; decide)
      cases p with
      | round h' passed todo =>
          simp only [Pc.plain] at hplain
          simp [Pc.phase, hplain] at hphase
      | take h' passed key todo =>
          simp only [Pc.plain] at hplain
          simp [Pc.phase, hplain] at hphase
      | _ => trivial
    · exact fun j _ => ⟨(h.outlined.pc j).of_not_reading (hnone j), trivial⟩
  · exact Polls.covered_of_sameOut h.covered hs' hout hanswers

/-- A harvest comes to the next item. -/
theorem Polls.Harvested.collect
    {h' : Harvest} {passed todo : List Nat} {key : Nat}
    (h : s.Harvested)
    (hpc : s.pc x.1 = .take h' passed key todo)
    (hs' : s' =
      { shared := s.shared.collect h' key
        pc := Function.update s.pc x.1 (.round h' (passed ++ [key]) todo) }) :
    s'.Harvested := by
  have hscanned := h.outlined.pc x.1
  rw [hpc] at hscanned
  obtain ⟨hplain, hkeys, hbehind⟩ := hscanned
  obtain ⟨hsync, -, -, hcount⟩ := Shared.collect_frame (d := s.shared) h' key
  constructor
  · rw [Polls.phase_update hs']
    have hshared : s'.shared = s.shared.collect h' key := by rw [hs']
    rw [hshared]
    exact h.tracked.regionMove (.stay hsync (by rw [hpc]; rfl))
  · refine h.outlined.act (fun _ _ _ => trivial) hs' (h.outlined.shared.collect h' key)
      ⟨hplain, ?_, ?_⟩ fun j _ => ⟨(h.outlined.pc j).collect h' key, trivial⟩
    · rw [Shared.collect_keys, hkeys]
      simp
    · intro hresets item hitem hmem
      have hresets' : s.shared.resets h'.all = true := by
        unfold Shared.resets at hresets ⊢
        rwa [hcount] at hresets
      obtain ⟨old, hold, hkey, hle, hzero⟩ := Shared.collect_le hitem
      rcases List.mem_append.mp hmem with hmem | hmem
      · have hold0 := hbehind hresets' old hold (hkey ▸ hmem)
        omega
      · exact hzero hresets' (hkey ▸ List.mem_singleton.mp hmem)
  · refine h.covered.act hs' ?_
    rintro ⟨r, key'⟩ hunsent
    by_cases hr : r = h'.req
    · exact .inl (by rw [hr]; rfl)
    · refine .inr ⟨?_, ?_⟩
      · unfold Shared.Unsent at hunsent ⊢
        rwa [Shared.collect_poll_of_ne h' key hr] at hunsent
      · intro hans
        rw [hpc] at hans
        exact hr (Option.some.inj hans).symm

/-- The end of a harvest. -/
theorem Polls.Harvested.settle
    {h' : Harvest} {passed : List Nat}
    (h : s.Harvested)
    (hpc : s.pc x.1 = .round h' passed [])
    (hs' : s' = { shared := s.shared.settle h', pc := Function.update s.pc x.1 h'.after }) :
    s'.Harvested := by
  have hscanned := h.outlined.pc x.1
  rw [hpc] at hscanned
  obtain ⟨hplain, hkeys, hbehind⟩ := hscanned
  have hfields : (s.shared.settle h').items = s.shared.items ∧
      (s.shared.settle h').sync = s.shared.sync ∧ (s.shared.settle h').next = s.shared.next ∧
      (s.shared.settle h').tasksCount = s.shared.tasksCount ∧
      (s.shared.settle h').poll = s.shared.poll := by
    unfold Shared.settle
    split <;> exact ⟨rfl, rfl, rfl, rfl, rfl⟩
  obtain ⟨hitems, hsync, hnext, hcount, hpoll⟩ := hfields
  have hout : Shared.SameOut s.shared (s.shared.settle h') := by
    constructor <;> · rw [hpoll]; exact fun _ => rfl
  have hd := h.outlined.shared
  have hcounted : (s.shared.settle h').Counted := by
    refine ⟨by rw [hsync]; exact hd.up, by rw [hitems]; exact hd.nodup, ?_, ?_, hd.filled_of hout⟩
    · rw [hitems, hnext]
      exact hd.known
    · unfold Shared.settle
      split
      · -- the harvest has come to all items, and nobody has notified the watch meanwhile
        rename_i hresets
        intro item hitem hpos
        have hmem : item.key ∈ passed := by
          rw [List.append_nil] at hkeys
          exact hkeys ▸ List.mem_map_of_mem hitem
        have hzero := hbehind hresets item hitem hmem
        omega
      · exact hd.recorded
  have hphase : h'.after.phase = (s.pc x.1).phase := by
    rw [hpc]
    simp only [Pc.plain] at hplain
    cases htask : h'.task <;> simp [Harvest.after, Pc.phase, hplain, htask]
  have hafter : h'.after.answers = some h'.req := h'.answers_after
  have hown : Scanned (s.shared.settle h') h'.after := h'.scanned_after hplain
  constructor
  · rw [Polls.phase_update hs']
    have hshared : s'.shared = s.shared.settle h' := by rw [hs']
    rw [hshared]
    exact h.tracked.regionMove (.stay hsync hphase)
  · exact h.outlined.act (fun _ _ _ => trivial) hs' hcounted hown
      fun j _ => ⟨(h.outlined.pc j).congr hitems hcount, trivial⟩
  · exact Polls.covered_of_sameOut h.covered hs' hout (.inr (by rw [hafter, hpc]; rfl))

/-- A watchOut contract is sent. -/
theorem Polls.Harvested.reply
    {r : Nat}
    (h : s.Harvested)
    (hpc : (s.pc x.1).answers = some r)
    (hphase : (s.pc x.1).phase = .out)
    (hs' : s' = { shared := d, pc := Function.update s.pc x.1 p })
    (hp : p = .idle ∨ p = .free r)
    (hd : Shared.Quiet s.shared { d with poll := s.shared.poll })
    (hsync : d.sync = s.shared.sync)
    (hpoll : d.poll = Function.update s.shared.poll r
      { s.shared.poll r with
        replies := (s.shared.poll r).replies ++ [(s.shared.poll r).out] }) :
    s'.Harvested := by
  have hcounted := h.outlined.shared
  have hother : ∀ r', r' ≠ r → d.poll r' = s.shared.poll r' := by
    intro r' hr'
    rw [hpoll, Function.update_of_ne hr']
  have hplain : p.plain = true ∧ p.phase = .out := by
    rcases hp with rfl | rfl <;> exact ⟨rfl, rfl⟩
  have hscanned : Scanned d p := by
    rcases hp with rfl | rfl <;> exact ⟨rfl, trivial⟩
  constructor
  · rw [Polls.phase_update hs']
    have hshared : s'.shared = d := by rw [hs']
    rw [hshared]
    exact h.tracked.regionMove (.stay hsync (hplain.2.trans hphase.symm))
  · refine h.outlined.act (fun _ _ _ => trivial) hs' ?_ hscanned
      fun j _ => ⟨(h.outlined.pc j).congr hd.items hd.tasksCount, trivial⟩
    have hold := hcounted.quiet hd
    refine ⟨hold.up, hold.nodup, hold.known, hold.recorded, ?_⟩
    intro r' key hkey
    by_cases hr : r' = r
    · subst hr
      rw [hpoll, Function.update_self] at hkey ⊢
      exact hcounted.filled r' key hkey
    · rw [hother r' hr] at hkey ⊢
      exact hcounted.filled r' key hkey
  · refine h.covered.act hs' ?_
    rintro ⟨r', key⟩ ⟨hresets, hnot⟩
    by_cases hr : r' = r
    · -- what has been reset is in the contract that is sent
      subst hr
      rw [hpoll, Function.update_self] at hresets hnot
      exact absurd (hcounted.filled r' key hresets) (hnot _ (by simp))
    · rw [hother r' hr] at hresets hnot
      refine .inr ⟨⟨hresets, hnot⟩, ?_⟩
      intro hans
      unfold Pc.Answers at hans
      rw [hpc] at hans
      exact hr (Option.some.inj hans).symm

/-- A step that changes nothing but the regions, the reference count, the queues and other
fields of the requests. -/
theorem Polls.Harvested.frame
    {sync : Tsync}
    (h : s.Harvested)
    (hs' : s' = { shared := d, pc := Function.update s.pc x.1 p })
    (hd : d = { s.shared with
      made := d.made
      listed := d.listed
      sync := sync
      refcnt := d.refcnt
      listAll := d.listAll
      listActive := d.listActive
      poll := d.poll
      misused := d.misused })
    (hflag : sync.beingShutdown = s.shared.sync.beingShutdown)
    (hout : Shared.SameOut s.shared d)
    (hmoves : RegionMove s.shared.sync (s.pc x.1).phase sync p.phase)
    (hscanned : Scanned d p)
    (hanswers : (s.pc x.1).answers = none ∨ p.answers = (s.pc x.1).answers) :
    s'.Harvested := by
  have hsync : d.sync = sync := by rw [hd]
  refine h.quiet hs' ⟨by rw [hsync, hflag], ?_, ?_, ?_, ?_, hout⟩ (by rw [hsync]; exact hmoves)
    hscanned hanswers
  · rw [hd]
  · rw [hd]
  · rw [hd]
  · rw [hd]

/-- `tsync_reader_exit`. -/
theorem Polls.Harvested.leave
    (h : s.Harvested)
    (hs' : s' = { shared := s.shared.leave, pc := Function.update s.pc x.1 p })
    (hreading : (s.pc x.1).phase = .read)
    (hphase : p.phase = .out)
    (hscanned : Scanned s.shared.leave p)
    (hanswers : (s.pc x.1).answers = none ∨ p.answers = (s.pc x.1).answers) :
    s'.Harvested := by
  have hmoves : RegionMove s.shared.sync (s.pc x.1).phase (s.shared.sync.leave .read) p.phase := by
    rw [hreading, hphase]
    exact .step (.leave _ .read)
  exact h.frame hs' rfl rfl ⟨fun _ => rfl, fun _ => rfl, fun _ => rfl⟩ hmoves hscanned hanswers

/-- A step in the same phase. -/
theorem Polls.Harvested.stay
    (h : s.Harvested)
    (hs' : s' = { shared := d, pc := Function.update s.pc x.1 p })
    (hd : d = { s.shared with
      made := d.made
      listed := d.listed
      refcnt := d.refcnt
      listAll := d.listAll
      listActive := d.listActive
      poll := d.poll
      misused := d.misused })
    (hout : Shared.SameOut s.shared d)
    (hphase : p.phase = (s.pc x.1).phase)
    (hscanned : Scanned d p)
    (hanswers : (s.pc x.1).answers = none ∨ p.answers = (s.pc x.1).answers) :
    s'.Harvested :=
  h.frame hs' hd rfl hout (.stay rfl hphase) hscanned hanswers

/-- What is done in a region of the watch. -/
theorem Polls.Harvested.work
    {e : Entry} {sync : Tsync}
    (h : s.Harvested)
    (hpc : s.pc x.1 = .enter e true)
    (hpass : s.shared.sync.pass e.mode = some sync)
    (hs' : s' =
      { shared := e.work { s.shared with sync := sync }
        pc := Function.update s.pc x.1 e.granted }) :
    s'.Harvested := by
  have hplain := (h.outlined.pc x.1).1
  have hflag := Tsync.pass_flag hpass
  have hd1 : Shared.Counted { s.shared with sync := sync } :=
    { h.outlined.shared with up := hflag.trans h.outlined.shared.up }
  -- an entry into the read region
  have hread : e.mode = .read → e.work { s.shared with sync := sync } =
      { s.shared with sync := sync } → Scanned { s.shared with sync := sync } e.granted →
      e.granted.phase = .read → s'.Harvested := by
    intro hm hwork hscanned hphase
    rw [hwork] at hs'
    refine h.frame hs' rfl hflag ⟨fun _ => rfl, fun _ => rfl, fun _ => rfl⟩ ?_ hscanned ?_
    · rw [hpc]
      exact regionMove_pass hpass (by rw [hphase, hm])
    · left
      rw [hpc]
      cases e <;> simp_all [Entry.mode, Pc.answers]
  -- an entry into the write region
  have hwrite : e.mode = .write → (e.work { s.shared with sync := sync }).Counted →
      (e.work { s.shared with sync := sync }).sync = sync →
      Shared.SameOut s.shared (e.work { s.shared with sync := sync }) →
      e.granted.phase = .out → e.granted.plain = true →
      (Pc.answers (.enter e true) = none ∨ e.granted.answers = Pc.answers (.enter e true)) →
      s'.Harvested := by
    intro hm hcounted hsync hout hphase hp hanswers
    rw [hm] at hpass
    obtain ⟨inner, hgrant, rfl⟩ := Option.map_eq_some_iff.mp hpass
    exact h.written hs' (by rw [hpc]; simp [Pc.phase, hm, Mode.waiting]) hgrant hsync hphase hp
      hcounted hout (by rw [hpc]; exact hanswers)
  rw [hpc] at hplain
  cases e with
  | notify node deleted =>
      have hout := Shared.sameOut_notifyWatches (d := { s.shared with sync := sync }) node deleted
      refine hwrite rfl (hd1.notifyWatches node deleted) ?_ ⟨hout.out, hout.resets, hout.replies⟩
        rfl rfl (.inl rfl)
      simp only [Entry.work, Shared.notifyWatches]
      split <;> rfl
  | poll r all => exact hread rfl rfl ⟨rfl, trivial⟩ rfl
  | join r =>
      exact hwrite rfl ⟨hd1.up, hd1.nodup, hd1.known, hd1.recorded, hd1.filled⟩ rfl
        ⟨fun _ => rfl, fun _ => rfl, fun _ => rfl⟩ rfl rfl (.inl rfl)
  | take r => exact hread rfl rfl ⟨rfl, trivial⟩ rfl
  | drop r =>
      exact hwrite rfl ⟨hd1.up, hd1.nodup, hd1.known, hd1.recorded, hd1.filled⟩ rfl
        ⟨fun _ => rfl, fun _ => rfl, fun _ => rfl⟩ rfl rfl (.inr rfl)
  | edits e rest =>
      obtain ⟨hsync, -, hpoll⟩ := Shared.edit_frame (d := { s.shared with sync := sync }) e
      refine hwrite rfl (hd1.edit e) hsync ?_ ?_ ?_ (.inl rfl)
      · simp only [Entry.work]
        constructor <;> · rw [hpoll]; exact fun _ => rfl
      · cases rest <;> rfl
      · cases rest <;> rfl
  | visit m leaky =>
      cases m with
      | read => exact hread rfl rfl ⟨rfl, trivial⟩ rfl
      | write =>
          exact hwrite rfl hd1 rfl ⟨fun _ => rfl, fun _ => rfl, fun _ => rfl⟩ rfl rfl (.inl rfl)
  | make => exact hread rfl rfl ⟨rfl, trivial⟩ rfl
  | cross even => simp [Pc.plain] at hplain

/-- A step of a thread in the middle of its operation. -/
theorem Polls.Harvested.advance
    (h : s.Harvested)
    (hstep : s.shared.advance (s.pc x.1) = some (d, p))
    (hs' : s' = { shared := d, pc := Function.update s.pc x.1 p }) :
    s'.Harvested := by
  have hup := h.outlined.shared.up
  have hscanned := h.outlined.pc x.1
  have hrefl : Shared.SameOut s.shared s.shared := Shared.quiet_refl.sameOut
  cases hpc : s.pc x.1 with
  | idle =>
      rw [hpc] at hstep
      cases hstep
  | get e =>
      rw [hpc] at hstep hscanned
      cases hstep
      refine h.stay hs' rfl ⟨fun _ => rfl, fun _ => rfl, fun _ => rfl⟩ (by rw [hpc]; rfl) ?_
        (.inl (by rw [hpc]; rfl))
      refine ⟨?_, trivial⟩
      have hplain := hscanned.1
      cases e <;> first | rfl | simp [Pc.plain] at hplain
  | enter e waiting =>
      rw [hpc] at hstep hscanned
      cases waiting with
      | false =>
          simp only [Shared.advance] at hstep
          split at hstep
          · -- nothing is refused while the watch is not being shut down
            rename_i hnone
            exact absurd hnone (Tsync.request_of_up hup)
          · rename_i sync hreq
            cases hstep
            refine h.frame hs' rfl (Tsync.request_flag hreq)
              ⟨fun _ => rfl, fun _ => rfl, fun _ => rfl⟩ ?_ ?_ (.inr ?_)
            · rw [hpc]
              exact .step (.request hreq)
            · refine ⟨?_, trivial⟩
              have hplain := hscanned.1
              cases e <;> first | rfl | simp [Pc.plain] at hplain
            · rw [hpc]
              cases e <;> rfl
      | true =>
          simp only [Shared.advance, Option.map_eq_some_iff] at hstep
          obtain ⟨sync, hpass, heq⟩ := hstep
          cases heq
          exact h.work hpc hpass hs'
  | inside even =>
      rw [hpc] at hstep hscanned
      cases even with
      | true =>
          cases hstep
          exact h.leave hs' (by rw [hpc]; rfl) rfl ⟨rfl, trivial⟩ (.inl (by rw [hpc]; rfl))
      | false => simp [Scanned, Pc.plain] at hscanned
  | test r all =>
      rw [hpc] at hstep
      cases hstep
      refine h.stay hs' rfl hrefl ?_ ?_ (.inl (by rw [hpc]; rfl))
      · rw [hpc]
        split <;> rfl
      · split <;> exact ⟨rfl, trivial⟩
  | quit r =>
      rw [hpc] at hstep
      cases hstep
      exact h.leave hs' (by rw [hpc]; rfl) rfl ⟨rfl, trivial⟩ (.inl (by rw [hpc]; rfl))
  | harvest h' =>
      rw [hpc] at hstep hscanned
      cases hstep
      have hinside : h'.inside = true := hscanned.1
      have hout : Shared.SameOut s.shared (if h'.task then s.shared.touch [h'.req] else s.shared) := by
        split <;> exact ⟨fun _ => rfl, fun _ => rfl, fun _ => rfl⟩
      refine h.stay hs' ?_ hout ?_ ?_ (.inr ?_)
      · split <;> rfl
      · rw [hpc]
        split
        · rfl
        · cases htask : h'.task <;> simp [Harvest.after, Pc.phase, hinside, htask]
      · by_cases hgo : (s.shared.changed || h'.all) = true
        · rw [if_pos hgo]
          refine ⟨hinside, ?_, fun _ item _ hmem => by cases hmem⟩
          split <;> rfl
        · rw [if_neg hgo]
          exact h'.scanned_after hinside
      · rw [hpc]
        split
        · rfl
        · exact h'.answers_after
  | round h' passed todo =>
      rw [hpc] at hstep hscanned
      cases todo with
      | nil =>
          cases hstep
          exact h.settle hpc hs'
      | cons key todo =>
          cases hstep
          refine h.stay hs' rfl hrefl ?_ ?_ (.inr ?_)
          · rw [hpc]
            split <;> rfl
          · obtain ⟨hplain, hkeys, hbehind⟩ := hscanned
            split
            · rename_i hzero
              refine ⟨hplain, by rw [hkeys]; simp, ?_⟩
              intro hresets item hitem hmem
              rcases List.mem_append.mp hmem with hmem | hmem
              · exact hbehind hresets item hitem hmem
              · rw [List.mem_singleton] at hmem
                exact h.outlined.shared.count_eq_zero hitem hmem hzero.1
            · exact ⟨hplain, hkeys, hbehind⟩
          · rw [hpc]
            split <;> rfl
  | take h' passed key todo =>
      rw [hpc] at hstep
      cases hstep
      exact h.collect hpc hs'
  | leave r =>
      rw [hpc] at hstep
      cases hstep
      exact h.leave hs' (by rw [hpc]; rfl) rfl ⟨rfl, trivial⟩ (.inr (by rw [hpc]; rfl))
  | leaveTask r =>
      rw [hpc] at hstep
      cases hstep
      exact h.leave hs' (by rw [hpc]; rfl) rfl ⟨rfl, trivial⟩ (.inr (by rw [hpc]; rfl))
  | put r =>
      rw [hpc] at hstep
      cases hstep
      refine h.stay hs' rfl ⟨fun _ => rfl, fun _ => rfl, fun _ => rfl⟩ ?_ ?_ (.inr ?_)
      · rw [hpc]
        cases r <;> rfl
      · cases r <;> exact ⟨rfl, trivial⟩
      · rw [hpc]
        cases r <;> rfl
  | reply r =>
      rw [hpc] at hstep
      cases hstep
      exact h.reply (by rw [hpc]; rfl) (by rw [hpc]; rfl) hs' (.inl rfl) Shared.quiet_refl rfl rfl
  | setWatch r =>
      rw [hpc] at hstep
      cases hstep
      exact h.stay hs' rfl
        ((Shared.sameOut_setPoll (f := fun x => { x with watch := true }) r
          fun _ => ⟨rfl, rfl, rfl⟩).of_poll rfl)
        (by rw [hpc]; rfl) ⟨rfl, trivial⟩ (.inl (by rw [hpc]; rfl))
  | queue r =>
      rw [hpc] at hstep
      cases hstep
      exact h.stay hs' rfl ⟨fun _ => rfl, fun _ => rfl, fun _ => rfl⟩ (by rw [hpc]; rfl)
        ⟨rfl, trivial⟩ (.inl (by rw [hpc]; rfl))
  | taken r =>
      rw [hpc] at hstep
      cases hstep
      refine h.stay hs' rfl ⟨fun _ => rfl, fun _ => rfl, fun _ => rfl⟩ ?_ ?_
        (.inl (by rw [hpc]; rfl))
      · rw [hpc]
        split <;> rfl
      · split <;> exact ⟨rfl, trivial⟩
  | remove r =>
      rw [hpc] at hscanned
      simp [Scanned, Pc.plain] at hscanned
  | putTask r =>
      rw [hpc] at hstep
      cases hstep
      exact h.stay hs' rfl ⟨fun _ => rfl, fun _ => rfl, fun _ => rfl⟩ (by rw [hpc]; rfl)
        ⟨rfl, trivial⟩ (.inr (by rw [hpc]; rfl))
  | clear r =>
      rw [hpc] at hstep
      cases hstep
      exact h.stay hs' rfl
        ((Shared.sameOut_setPoll (f := fun x => { x with watch := false }) r
          fun _ => ⟨rfl, rfl, rfl⟩).of_poll rfl)
        (by rw [hpc]; rfl) ⟨rfl, trivial⟩ (.inr (by rw [hpc]; rfl))
  | replyTask r =>
      rw [hpc] at hstep
      cases hstep
      refine h.reply (by rw [hpc]; rfl) (by rw [hpc]; rfl) hs' (.inr rfl) ?_ rfl rfl
      exact ⟨rfl, rfl, rfl, rfl, le_rfl, ⟨fun _ => rfl, fun _ => rfl, fun _ => rfl⟩⟩
  | free r =>
      rw [hpc] at hstep
      cases hstep
      exact h.stay hs' rfl
        (Shared.sameOut_setPoll (f := fun x => { x with frees := x.frees + 1 }) r
          fun _ => ⟨rfl, rfl, rfl⟩)
        (by rw [hpc]; rfl) ⟨rfl, trivial⟩ (.inl (by rw [hpc]; rfl))
  | shutdown expire waiting =>
      rw [hpc] at hscanned
      simp [Scanned, Pc.plain] at hscanned
  | wake =>
      rw [hpc] at hscanned
      simp [Scanned, Pc.plain] at hscanned
  | unlist expire =>
      rw [hpc] at hscanned
      simp [Scanned, Pc.plain] at hscanned
  | putDelete =>
      rw [hpc] at hscanned
      simp [Scanned, Pc.plain] at hscanned
  | drain =>
      rw [hpc] at hscanned
      simp [Scanned, Pc.plain] at hscanned

theorem Polls.Harvested.search
    (h : s.Harvested)
    (hidle : s.pc x.1 = .idle)
    (hphase : p.phase = .out)
    (hscanned : ∀ d, Scanned d p)
    (hs' : s' =
      { shared := (s.shared.search p).1, pc := Function.update s.pc x.1 (s.shared.search p).2 }) :
    s'.Harvested := by
  unfold Shared.search at hs'
  split at hs'
  · exact h.stay hs' rfl ⟨fun _ => rfl, fun _ => rfl, fun _ => rfl⟩ (by rw [hidle, hphase]; rfl)
      (hscanned _) (.inl (by rw [hidle]; rfl))
  · exact h.stay hs' rfl Shared.quiet_refl.sameOut (by rw [hidle]) ⟨rfl, trivial⟩
      (.inl (by rw [hidle]; rfl))

/-- The beginning of a poll request. -/
theorem Polls.Harvested.startPoll
    {expiry : Nat} {all : Bool}
    (h : s.Harvested)
    (hidle : s.pc x.1 = .idle)
    (hs' : s' =
      { shared := (s.shared.startPoll expiry all).1
        pc := Function.update s.pc x.1 (s.shared.startPoll expiry all).2 }) :
    s'.Harvested := by
  unfold Shared.startPoll at hs'
  split at hs'
  · have hd := h.outlined.shared
    have hother : ∀ r, r ≠ s.shared.next →
        Function.update s.shared.poll s.shared.next (Poll.fresh expiry) r = s.shared.poll r :=
      fun r hr => Function.update_of_ne hr _ _
    constructor
    · rw [Polls.phase_update hs']
      have hshared : s'.shared.sync = s.shared.sync := by rw [hs']; rfl
      rw [hshared]
      exact h.tracked.regionMove (.stay rfl (by rw [hidle]; rfl))
    · refine h.outlined.act (fun _ _ _ => trivial) hs' ?_ ⟨rfl, trivial⟩
        fun j _ => ⟨(h.outlined.pc j).congr rfl rfl, trivial⟩
      refine ⟨hd.up, hd.nodup, fun item hitem => Nat.lt_succ_of_lt (hd.known item hitem),
        hd.recorded, ?_⟩
      intro r key hkey
      by_cases hr : r = s.shared.next
      · simp [hr, Poll.fresh] at hkey
      · simp only [hother r hr] at hkey ⊢
        exact hd.filled r key hkey
    · refine h.covered.act hs' ?_
      rintro ⟨r, key⟩ ⟨hresets, hnot⟩
      by_cases hr : r = s.shared.next
      · simp [hr, Poll.fresh] at hresets
      · simp only [hother r hr] at hresets hnot
        refine .inr ⟨⟨hresets, hnot⟩, ?_⟩
        intro hans
        unfold Pc.Answers at hans
        rw [hidle] at hans
        cases hans
  · exact h.stay hs' rfl Shared.quiet_refl.sameOut (by rw [hidle]) ⟨rfl, trivial⟩
      (.inl (by rw [hidle]; rfl))

/-- The beginning of an operation. -/
theorem Polls.Harvested.start
    {op : Op}
    (h : s.Harvested)
    (hidle : s.pc x.1 = .idle)
    (hop : op.inRegions = true)
    (hstep : s.shared.start op = some (d, p))
    (hs' : s' = { shared := d, pc := Function.update s.pc x.1 p }) :
    s'.Harvested := by
  have hpair : ∀ {y : Shared × Pc}, some y = some (d, p) →
      s' = { shared := y.1, pc := Function.update s.pc x.1 y.2 } := by
    intro y hy
    rw [Option.some.inj hy]
    exact hs'
  cases op with
  | make =>
      simp only [Shared.start] at hstep
      split at hstep
      · cases hstep
      · cases hstep
        exact h.stay hs' rfl ⟨fun _ => rfl, fun _ => rfl, fun _ => rfl⟩ (by rw [hidle]; rfl)
          ⟨rfl, trivial⟩ (.inl (by rw [hidle]; rfl))
  | pollChanges expiry => exact h.startPoll hidle (hpair hstep)
  | pollRefresh => exact h.startPoll hidle (hpair hstep)
  | pollThread now =>
      simp only [Shared.start, Option.map_eq_some_iff] at hstep
      obtain ⟨r, -, heq⟩ := hstep
      cases heq
      exact h.stay hs' rfl
        ((Shared.sameOut_setPoll (f := fun x => { x with active := .poisoned }) r
          fun _ => ⟨rfl, rfl, rfl⟩).of_poll rfl)
        (by rw [hidle]; rfl) ⟨rfl, trivial⟩ (.inl (by rw [hidle]; rfl))
  | notify node deleted =>
      exact h.search hidle rfl (fun _ => ⟨rfl, trivial⟩) (hpair hstep)
  | edits es =>
      refine h.search hidle ?_ ?_ (hpair hstep)
      · cases es <;> rfl
      · cases es <;> exact fun _ => ⟨rfl, trivial⟩
  | visit m leaky => exact h.search hidle rfl (fun _ => ⟨rfl, trivial⟩) (hpair hstep)
  | cross even => cases hop
  | delete => cases hop
  | expire => cases hop

/-- One step of a run in which the watch is found in its regions. -/
theorem Polls.Harvested.act
    (h : s.Harvested)
    (hok : s.Undisturbed x)
    (hact : s.act Shared.step x = some s') :
    s'.Harvested := by
  obtain ⟨d, p, hstep, hs'⟩ := Threads.act_eq_some_iff.mp hact
  obtain ⟨i, a⟩ := x
  cases a with
  | none => exact h.advance hstep hs'
  | some op =>
      simp only [Shared.step] at hstep
      split at hstep
      · rename_i hidle
        exact h.start hidle (hok op rfl) hstep hs'
      · cases hstep

end Moving

section Resets

variable {d d' : Shared} {p p' : Pc}

/-- What a step does with the items. -/
theorem Shared.advance_items
    (hstep : d.advance p = some (d', p')) :
    (∀ item ∈ d'.items, item ∈ d.items ∨ item.key = d.next) ∨
      (∃ node deleted, d'.items = d.items.map (Item.notified node deleted)) ∨
        ∃ h passed key todo, p = .take h passed key todo ∧ d' = d.collect h key := by
  cases p with
  | idle => cases hstep
  | take h passed key todo =>
      cases hstep
      exact .inr (.inr ⟨h, passed, key, todo, rfl, rfl⟩)
  | enter e waiting =>
      cases waiting with
      | false =>
          simp only [Shared.advance] at hstep
          split at hstep
          · cases hstep
            refine .inl fun item hitem => .inl ?_
            cases e <;> exact hitem
          · cases hstep
            exact .inl fun _ hitem => .inl hitem
      | true =>
          simp only [Shared.advance, Option.map_eq_some_iff] at hstep
          obtain ⟨sync, -, heq⟩ := hstep
          cases heq
          cases e with
          | notify node deleted =>
              exact .inr (.inl ⟨node, deleted, Shared.notifyWatches_items node deleted⟩)
          | edits e rest =>
              refine .inl fun item hitem => ?_
              exact (Shared.edit_items hitem).imp_right And.left
          | _ => exact .inl fun _ hitem => .inl hitem
  | harvest h =>
      cases hstep
      refine .inl fun item hitem => .inl ?_
      split at hitem <;> exact hitem
  | round h passed todo =>
      cases todo with
      | nil =>
          cases hstep
          refine .inl fun item hitem => .inl ?_
          unfold Shared.settle at hitem
          split at hitem <;> exact hitem
      | cons key todo =>
          cases hstep
          exact .inl fun _ hitem => .inl hitem
  | inside even =>
      cases even <;> cases hstep <;> exact .inl fun _ hitem => .inl hitem
  | shutdown expire waiting =>
      cases waiting with
      | false =>
          simp only [Shared.advance] at hstep
          split at hstep <;> cases hstep <;> exact .inl fun _ hitem => .inl hitem
      | true =>
          simp only [Shared.advance, Option.map_eq_some_iff] at hstep
          obtain ⟨sync, -, heq⟩ := hstep
          cases heq
          exact .inl fun _ hitem => .inl hitem
  | drain =>
      simp only [Shared.advance] at hstep
      split at hstep
      · cases hstep
      · cases hstep
        exact .inl fun _ hitem => by cases hitem
  | _ =>
      cases hstep
      exact .inl fun _ hitem => .inl hitem

/-- The beginning of an operation leaves the items alone. -/
theorem Shared.start_items
    {op : Op}
    (hstep : d.start op = some (d', p')) :
    d'.items = d.items := by
  have hsearch : ∀ {q : Pc}, some (d.search q) = some (d', p') → d'.items = d.items := by
    intro q hq
    have heq : d' = (d.search q).1 := by rw [Option.some.inj hq]
    rw [heq]
    unfold Shared.search
    split <;> rfl
  have hpoll : ∀ {expiry : Nat} {all : Bool}, some (d.startPoll expiry all) = some (d', p') →
      d'.items = d.items := by
    intro expiry all hq
    have heq : d' = (d.startPoll expiry all).1 := by rw [Option.some.inj hq]
    rw [heq]
    unfold Shared.startPoll
    split <;> rfl
  cases op with
  | make =>
      simp only [Shared.start] at hstep
      split at hstep <;> cases hstep
      rfl
  | cross even =>
      simp only [Shared.start] at hstep
      split at hstep <;> cases hstep
      rfl
  | expire =>
      simp only [Shared.start] at hstep
      split at hstep <;> cases hstep
      rfl
  | pollThread now =>
      simp only [Shared.start, Option.map_eq_some_iff] at hstep
      obtain ⟨r, -, heq⟩ := hstep
      cases heq
      rfl
  | pollChanges expiry => exact hpoll hstep
  | pollRefresh => exact hpoll hstep
  | _ => exact hsearch hstep

/-- What a harvest resets is noted for its request. -/
theorem Shared.mem_resets_collect
    {h : Harvest} {key : Nat}
    (hresets : d.resets h.all = true) :
    key ∈ ((d.collect h key).poll h.req).resets := by
  unfold Shared.collect
  rw [if_pos hresets]
  simp [Shared.setPoll]

end Resets

section Runs

variable {ι : Type} [Fintype ι]

theorem Polls.harvested_init : (Polls.init : Polls ι).Harvested := by
  refine ⟨tracked_init, ⟨?_, fun _ => ⟨rfl, trivial⟩, fun _ _ _ => trivial⟩, ?_⟩
  · constructor <;> simp [Polls.init, Shared.init, Tsync.init, Poll.fresh]
  · rintro x ⟨hresets, -⟩
    cases hresets

theorem Polls.Harvested.noneLost
    {s : Polls ι}
    (h : s.Harvested) :
    s.NoneLost := by
  constructor
  · exact fun _ => h.outlined.shared.recorded
  · intro r key hkey
    refine ⟨h.outlined.shared.filled r key hkey, ?_⟩
    by_contra hnot
    rw [not_or] at hnot
    refine hnot.2 (h.covered (r, key) ⟨hkey, ?_⟩)
    exact fun out hout hmem => hnot.1 ⟨out, hout, hmem⟩

variable [DecidableEq ι]

/-- The counter of an item that stays is reset by a harvest only. -/
theorem Polls.Harvested.resetByHarvest
    {s s' : Polls ι} {x : ι × Option Op}
    (h : s.Harvested)
    (hact : s.act Shared.step x = some s') :
    s.ResetByHarvest x.1 s' := by
  obtain ⟨d, p, hstep, rfl⟩ := Threads.act_eq_some_iff.mp hact
  have hd := h.outlined.shared
  intro item hitem hpos item' hitem' hkey hzero
  -- an item under an address that has been there before is the one that was there
  have hsame : item' ∉ s.shared.items := by
    intro hmem
    rw [List.inj_on_of_nodup_map hd.nodup hmem hitem hkey] at hzero
    omega
  obtain ⟨i, a⟩ := x
  cases a with
  | some op =>
      simp only [Shared.step] at hstep
      split at hstep
      · rw [Shared.start_items hstep] at hitem'
        exact absurd hitem' hsame
      · cases hstep
  | none =>
      rcases Shared.advance_items hstep with hold | ⟨node, deleted, hmap⟩ | ⟨h', passed, key, todo, hpc, rfl⟩
      · rcases hold item' hitem' with hmem | hnew
        · exact absurd hmem hsame
        · have hlt := hd.known item hitem
          omega
      · -- a notification only adds to a counter
        rw [hmap] at hitem'
        obtain ⟨old, hold, rfl⟩ := List.mem_map.mp hitem'
        rw [Item.notified_key] at hkey
        have heq := List.inj_on_of_nodup_map hd.nodup hold hitem hkey
        have hle := Item.notified_count_le node deleted old
        rw [heq] at hle hzero
        omega
      · have hreset : s.shared.resets h'.all = true := by
          by_contra hno
          rw [Shared.collect_items, if_neg hno] at hitem'
          exact hsame hitem'
        have hkey' : item.key = key := by
          by_contra hne
          rw [Shared.collect_items, if_pos hreset] at hitem'
          obtain ⟨old, hold, heq⟩ := List.mem_map.mp hitem'
          split at heq
          · rename_i hk
            rw [← heq] at hkey
            exact hne (hkey.symm.trans hk)
          · exact hsame (heq ▸ hold)
        subst hkey'
        exact ⟨h', passed, todo, hpc, Shared.mem_resets_collect hreset⟩

/-- No change is lost: outside of the harvests every change that has not been harvested is
recorded in the watch, what has been harvested is in a watchOut contract that has been sent or
is being sent, and nothing but a harvest resets the counter of an item that stays. -/
theorem changes_not_lost
    (acts : List (ι × Option Op))
    (s : Polls ι)
    (hok : Polls.Allows Polls.Undisturbed acts)
    (hrun : Polls.Run acts s) :
    s.NoneLost ∧
      ∀ (x : ι × Option Op) (s' : Polls ι), s.act Shared.step x = some s' →
        s.ResetByHarvest x.1 s' := by
  have h : s.Harvested :=
    Threads.exec_invariant (fun _ _ _ => Polls.Harvested.act) Polls.harvested_init hok hrun
  exact ⟨h.noneLost, fun _ _ hact => h.resetByHarvest hact⟩

/-- A poll thread is about to reset the only counter. -/
theorem changes_not_lost_notified :
    ∃ s s' : Polls (Fin 2),
      Polls.Run (makeAddPoll ++ joinQueue ++ notifySeven ++
        (1, some (.pollThread 0)) :: List.replicate 5 (1, none)) s ∧
        s.act Shared.step (1, none) = some s' ∧ s.shared.items.map Item.count = [1] ∧
        s'.shared.items.map Item.count = [0] ∧ s.NoneLost ∧ s.ResetByHarvest 1 s' := by
  have hok : Polls.Allows Polls.Undisturbed (makeAddPoll ++ joinQueue ++ notifySeven ++
      (1, some (.pollThread 0)) :: List.replicate 5 (1, none)) := by
    unfold Polls.Allows
    decide +kernel
  have h := changes_not_lost _ _ hok rfl
  exact ⟨_, _, rfl, rfl, rfl, rfl, h.1, h.2 (1, none) _ rfl⟩

end Runs

end Watches
end Obix
