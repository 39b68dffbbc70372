import Obix.Xml.Dom
import Obix.Xml.Href

/-!
# Reading the watch service

`watch_set_copy_uri`.  The walk down the tree counts levels to find out where it gets from
the watch service into a watch, but the counter also grows from one child to the next and is
not what it was when the walk gets out again.  The regions and references are given back,
and the nodes of watches are copied inside of their regions, only if the walk copies no watch
that has children (`watchSetCopyUri_even_iff`).

Memory is never short, and the watch service is not being shut down.
-/

namespace Obix
namespace Watches

open CString XmlNode

/-- What `_private` of a node under the watch service points to. -/
inductive Owner
  | set
  | watch (id : Nat)
  deriving DecidableEq, Repr

/-- The watch a node belongs to. -/
def Owner.watch? : Owner → Option Nat
  | set => none
  | watch id => some id

/-- `obix_roots[OBIX_WATCH].root`. -/
def watchRootHref : Text := "/obix/watchService/".toList

def objMeta : Text := "meta".toList

def attrHidden : Text := "hidden".toList

def xmlTrue : Text := "true".toList

/-- `xml_copy_flags_t`. -/
structure CopyFlags where
  excludeHidden : Bool
  excludeMeta : Bool
  excludeComments : Bool
  deriving DecidableEq, Repr

/-- What the walk does besides looking at nodes. -/
inductive Event
  | enterSet
  | leaveSet
  | get (id : Nat)
  /-- `watch_put`; the pointer may be `NULL`. -/
  | put (watch : Option Nat)
  | enterWatch (id : Nat)
  | leaveWatch (watch : Option Nat)
  /-- `xmlCopyNode`. -/
  | copy (owner : Option Owner)
  deriving DecidableEq, Repr

section Walk

variable (flags : CopyFlags) (down : Nat → Bool)

/-- `xml_is_hidden`. -/
def xmlIsHidden {ω : Type} (node : XmlNode ω) : Bool :=
  node.getProp attrHidden = some xmlTrue

/-- `node->type == XML_COMMENT_NODE`. -/
def isComment {ω : Type} : XmlNode ω → Bool
  | .comment _ _ => true
  | _ => false

/-- Whether a node is skipped over, unless it is the one that has been asked for. -/
def excluded {ω : Type} (depth : Nat) (node : XmlNode ω) : Bool :=
  0 < depth &&
    (flags.excludeHidden && xmlIsHidden node || flags.excludeMeta && node.hasName objMeta ||
      flags.excludeComments && isComment node)

/-- The watch that the walk gets into at a node. -/
def crossed (level : Nat) (owner : Option Owner) : Option Nat :=
  if level = 2 then owner.bind Owner.watch? else none

/-- The end of `__watch_set_copy_node`; `watch` is its local variable. -/
def getOut (level : Nat) (owner : Option Owner) (watch : Option Nat) : List Event :=
  if (crossed level owner).isSome then [.leaveWatch watch, .put watch, .enterSet] else []

/-- `__watch_set_copy_node` behind the change of regions. -/
def copyBody
    (level : Nat)
    (owner : Option Owner)
    (watch : Option Nat)
    (skip : Bool)
    (size : Nat)
    (copy : Xml)
    (inner : List Event) :
    Option Xml × List Event :=
  if skip then (none, getOut level owner watch)
  else (some copy, .copy owner :: inner ++ getOut (level + size) owner watch)

/-- `__watch_set_copy_node` for a node with `size` children, whose walks are `inner`. -/
def copyAround
    (level : Nat)
    (owner : Option Owner)
    (skip : Bool)
    (size : Nat)
    (copy : Xml)
    (inner : List Event) :
    Option Xml × List Event :=
  match crossed level owner with
  | none => copyBody level owner none skip size copy inner
  | some id =>
      if down id then (none, [.leaveSet, .get id, .put (some id)])
      else
        let body := copyBody level owner (some id) skip size copy inner
        (body.1, [.leaveSet, .get id, .enterWatch id] ++ body.2)

mutual

/-- `__watch_set_copy_node`; `down` says which watches are being shut down when the walk
gets to them. -/
def watchSetCopyNode (level depth : Nat) : XmlNode Owner → Option Xml × List Event
  | .element o name attrs cs =>
      let inner := copyChildren level depth cs
      copyAround down level o (excluded flags depth (XmlNode.element o name attrs cs)) cs.length
        (.element none name attrs inner.1) inner.2
  | .text o content =>
      copyAround down level o (excluded flags depth (XmlNode.text o content)) 0 (.text none content) []
  | .comment o content =>
      copyAround down level o (excluded flags depth (XmlNode.comment o content)) 0
        (.comment none content) []

/-- The loop over the children, with `++level` and `++depth`. -/
def copyChildren (level depth : Nat) : List (XmlNode Owner) → List Xml × List Event
  | [] => ([], [])
  | node :: rest =>
      let first := watchSetCopyNode (level + 1) (depth + 1) node
      let others := copyChildren (level + 1) (depth + 1) rest
      (first.1.toList ++ others.1, first.2 ++ others.2)

end

/-- `__watch_set_get_node_core`: the node and its level. -/
def watchSetGetNodeCore (root : XmlNode Owner) (href : Text) : Option (XmlNode Owner × Nat) :=
  if isStrIdentical href watchRootHref then some (root, 0)
  else (xmldbGetNodeCore root (href.drop watchRootHref.length)).map fun node => (node, 1)

/-- `watch_set_copy_uri`. -/
def watchSetCopyUri (root : XmlNode Owner) (href : Text) : Option Xml × List Event :=
  let found := (watchSetGetNodeCore root href).elim (none, []) fun x =>
    watchSetCopyNode flags down x.2 0 x.1
  (found.1, [.enterSet] ++ found.2 ++ [.leaveSet])

end Walk

section Counters

/-- The counters that the walk changes: the readers of the watch service, and the readers and
the references of watches. -/
@[ext]
structure Counts where
  set : Int
  readers : Nat → Int
  refs : Nat → Int

/-- What an event does to the counters; `none` if it goes through a `NULL` pointer. -/
def Event.apply (c : Counts) : Event → Option Counts
  | enterSet => some { c with set := c.set + 1 }
  | leaveSet => some { c with set := c.set - 1 }
  | get id => some { c with refs := Function.update c.refs id (c.refs id + 1) }
  | put none => none
  | put (some id) => some { c with refs := Function.update c.refs id (c.refs id - 1) }
  | enterWatch id => some { c with readers := Function.update c.readers id (c.readers id + 1) }
  | leaveWatch none => none
  | leaveWatch (some id) =>
      some { c with readers := Function.update c.readers id (c.readers id - 1) }
  | copy _ => some c

/-- What a list of events does to the counters. -/
def runEvents (events : List Event) (c : Counts) : Option Counts :=
  events.foldlM Event.apply c

/-- The counters are in the end what they were, and the nodes of a watch are copied while the
thread has entered the read region of the watch. -/
structure EvenWalk (events : List Event) : Prop where
  counts : ∀ c, runEvents events c = some c
  copies : ∀ before id after, events = before ++ .copy (some (.watch id)) :: after →
    ∀ c, ∃ c', runEvents before c = some c' ∧ c.readers id < c'.readers id

/-- An event of a walk that began with the counters `start`; `none` also if a node of a watch
is copied outside of its region. -/
def Event.check (start c : Counts) (e : Event) : Option Counts :=
  match e with
  | .copy (some (.watch id)) => if start.readers id < c.readers id then some c else none
  | e => e.apply c

def checkEvents (start : Counts) (events : List Event) (c : Counts) : Option Counts :=
  events.foldlM (Event.check start) c

variable {start c c' : Counts} {events : List Event}

theorem checkEvents_cons (e : Event) :
    checkEvents start (e :: events) c = (e.check start c).bind (checkEvents start events) :=
  rfl

theorem checkEvents_append (before after : List Event) :
    checkEvents start (before ++ after) c =
      (checkEvents start before c).bind (checkEvents start after) := by
  simp only [checkEvents, List.foldlM_append]
  rfl

theorem apply_of_check
    {e : Event}
    (h : e.check start c = some c') :
    e.apply c = some c' := by
  unfold Event.check at h
  split at h
  · split at h
    · exact h
    · cases h
  · exact h

/-- A walk passes the check if the nodes of watches are copied inside of their regions. -/
theorem checkEvents_eq_some_iff :
    checkEvents start events c = some c' ↔
      runEvents events c = some c' ∧
        ∀ before id after, events = before ++ .copy (some (.watch id)) :: after →
          ∃ d, runEvents before c = some d ∧ start.readers id < d.readers id := by
  induction events generalizing c with
  | nil => simp [checkEvents, runEvents]
  | cons e events ih =>
      rw [checkEvents_cons]
      constructor
      · intro h
        obtain ⟨d, hd, hrest⟩ := Option.bind_eq_some_iff.mp h
        obtain ⟨hrun, hcopies⟩ := ih.mp hrest
        have happly := apply_of_check hd
        refine ⟨by simp only [runEvents, List.foldlM_cons, happly]; exact hrun, ?_⟩
        intro before id after heq
        cases before with
        | nil =>
            obtain ⟨rfl, rfl⟩ := List.cons.inj heq
            refine ⟨c, rfl, ?_⟩
            by_contra hlt
            simp [Event.check, hlt] at hd
        | cons e' before =>
            obtain ⟨rfl, hrest'⟩ := List.cons.inj heq
            obtain ⟨d', hd', hlt⟩ := hcopies before id after hrest'
            exact ⟨d', by simp only [runEvents, List.foldlM_cons, happly]; exact hd', hlt⟩
      · rintro ⟨hrun, hcopies⟩
        obtain ⟨d, happly, hrun⟩ : ∃ d, e.apply c = some d ∧ runEvents events d = some c' :=
          Option.bind_eq_some_iff.mp hrun
        refine Option.bind_eq_some_iff.mpr ⟨d, ?_, ih.mpr ⟨hrun, ?_⟩⟩
        · unfold Event.check
          split
          · rename_i id
            obtain ⟨d', hd', hlt⟩ := hcopies [] id events rfl
            obtain rfl : c = d' := Option.some.inj hd'
            rw [if_pos hlt]
            exact happly
          · exact happly
        · intro before id after heq
          obtain ⟨d', hd', hlt⟩ := hcopies (e :: before) id after (by rw [heq]; rfl)
          simp only [runEvents, List.foldlM_cons, happly] at hd'
          exact ⟨d', hd', hlt⟩

theorem evenWalk_iff : EvenWalk events ↔ ∀ c, checkEvents c events c = some c := by
  constructor
  · intro h c
    exact checkEvents_eq_some_iff.mpr ⟨h.counts c, fun before id after heq => h.copies before id after heq c⟩
  · intro h
    exact ⟨fun c => (checkEvents_eq_some_iff.mp (h c)).1,
      fun before id after heq c => (checkEvents_eq_some_iff.mp (h c)).2 before id after heq⟩

end Counters

section Harmless

variable (flags : CopyFlags) (down : Nat → Bool)

/-- A walk does no harm at a node: it belongs to no watch, or it is skipped over, or it has no
children and is where the walk expects a watch, and the watch is not being shut down if the
walk tries to enter its region. -/
def HarmlessAt (level depth : Nat) (node : XmlNode Owner) : Prop :=
  ∀ id, node.owner = some (.watch id) →
    (level = 2 → down id = false) ∧
      (excluded flags depth node = true ∨ (level = 2 ∧ node.children = []))

mutual

/-- A walk does no harm at the nodes it gets to.  Level and depth of a child are those of
the node and the position among the children. -/
def Harmless (level depth : Nat) : XmlNode Owner → Prop
  | .element o name attrs cs =>
      HarmlessAt flags down level depth (.element o name attrs cs) ∧
        (excluded flags depth (XmlNode.element o name attrs cs) = false →
          HarmlessAll level depth cs)
  | .text o content => HarmlessAt flags down level depth (.text o content)
  | .comment o content => HarmlessAt flags down level depth (.comment o content)

def HarmlessAll (level depth : Nat) : List (XmlNode Owner) → Prop
  | [] => True
  | node :: rest => Harmless (level + 1) (depth + 1) node ∧ HarmlessAll (level + 1) (depth + 1) rest

end

end Harmless

section Chunks

/-- Events that at most give back too much of the watch service and too little of watches. -/
def Lossy (events : List Event) : Prop :=
  ∀ start c c', checkEvents start events c = some c' →
    c'.set ≤ c.set ∧ ∀ id, c.readers id ≤ c'.readers id

/-- Events that leave the counters as they are. -/
def Steady (events : List Event) : Prop :=
  ∀ start c, c.readers = start.readers → checkEvents start events c = some c

variable {down : Nat → Bool} {level size id : Nat} {owner : Option Owner} {skip : Bool} {copy : Xml}
  {inner : List Event}

/-- The counters inside of a watch. -/
def Counts.crossInto (id : Nat) (c : Counts) : Counts :=
  { set := c.set - 1
    readers := Function.update c.readers id (c.readers id + 1)
    refs := Function.update c.refs id (c.refs id + 1) }

theorem checkEvents_crossInto (start c : Counts) (rest : List Event) :
    checkEvents start ([.leaveSet, .get id, .enterWatch id] ++ rest) c =
      checkEvents start rest (c.crossInto id) :=
  rfl

/-- Getting out of a watch. -/
theorem checkEvents_getOut (start c : Counts) :
    checkEvents start [.leaveWatch (some id), .put (some id), .enterSet] c =
      some
        { set := c.set + 1
          readers := Function.update c.readers id (c.readers id - 1)
          refs := Function.update c.refs id (c.refs id - 1) } :=
  rfl

theorem getOut_crossInto (c : Counts) :
    ({ set := (c.crossInto id).set + 1
       readers := Function.update (c.crossInto id).readers id ((c.crossInto id).readers id - 1)
       refs := Function.update (c.crossInto id).refs id ((c.crossInto id).refs id - 1) } : Counts) =
      c := by
  simp [Counts.crossInto]

theorem crossed_eq_some
    (h : crossed level owner = some id) :
    level = 2 ∧ owner = some (.watch id) := by
  unfold crossed at h
  split at h
  · rename_i hlevel
    refine ⟨hlevel, ?_⟩
    cases owner with
    | none => cases h
    | some o =>
        cases o with
        | set => cases h
        | watch i =>
            obtain rfl : i = id := Option.some.inj h
            rfl
  · cases h

/-- The end of a walk that has not entered a watch. -/
theorem checkEvents_getOut_none
    {start c c' : Counts}
    (h : checkEvents start (getOut level owner none) c = some c') :
    crossed level owner = none ∧ c' = c := by
  unfold getOut at h
  split at h
  · cases h
  · rename_i hnone
    exact ⟨by simpa using hnone, (Option.some.inj h).symm⟩

theorem lossy_nil : Lossy [] := by
  intro start c c' h
  obtain rfl : c = c' := Option.some.inj h
  exact ⟨le_rfl, fun _ => le_rfl⟩

theorem lossy_append
    {events others : List Event}
    (h : Lossy events)
    (h' : Lossy others) :
    Lossy (events ++ others) := by
  intro start c c' hcheck
  rw [checkEvents_append] at hcheck
  obtain ⟨d, hd, hd'⟩ := Option.bind_eq_some_iff.mp hcheck
  obtain ⟨hset, hreaders⟩ := h start c d hd
  obtain ⟨hset', hreaders'⟩ := h' start d c' hd'
  exact ⟨hset'.trans hset, fun id => (hreaders id).trans (hreaders' id)⟩

theorem lossy_copyAround
    (hinner : Lossy inner) :
    Lossy (copyAround down level owner skip size copy inner).2 := by
  intro start c c' h
  unfold copyAround at h
  split at h
  · -- the walk stays where it is
    unfold copyBody at h
    split at h
    · obtain ⟨-, rfl⟩ := checkEvents_getOut_none h
      exact ⟨le_rfl, fun _ => le_rfl⟩
    · rw [List.cons_append, checkEvents_cons] at h
      obtain ⟨d, hd, h⟩ := Option.bind_eq_some_iff.mp h
      obtain rfl : c = d := by simpa [Event.apply] using apply_of_check hd
      rw [checkEvents_append] at h
      obtain ⟨d, hd, h⟩ := Option.bind_eq_some_iff.mp h
      obtain ⟨-, rfl⟩ := checkEvents_getOut_none h
      exact hinner start c c' hd
  · rename_i id hcross
    split at h
    · -- the watch is being shut down
      obtain rfl := Option.some.inj h
      exact ⟨by simp, fun _ => le_rfl⟩
    · obtain ⟨rfl, rfl⟩ := crossed_eq_some hcross
      rw [checkEvents_crossInto] at h
      unfold copyBody at h
      split at h
      · rw [getOut, if_pos (by simp [hcross]), checkEvents_getOut, getOut_crossInto] at h
        obtain rfl := Option.some.inj h
        exact ⟨le_rfl, fun _ => le_rfl⟩
      · rw [List.cons_append, checkEvents_cons] at h
        obtain ⟨d, hd, h⟩ := Option.bind_eq_some_iff.mp h
        obtain rfl : c.crossInto id = d := by simpa [Event.apply] using apply_of_check hd
        rw [checkEvents_append] at h
        obtain ⟨d, hd, h⟩ := Option.bind_eq_some_iff.mp h
        obtain ⟨hset, hreaders⟩ := hinner start _ d hd
        simp only [Counts.crossInto] at hset hreaders
        unfold getOut at h
        split at h
        · rw [checkEvents_getOut] at h
          obtain rfl := Option.some.inj h
          refine ⟨by simp only; omega, fun w => ?_⟩
          have hw := hreaders w
          by_cases hwid : w = id
          · subst hwid
            simp only [Function.update_self] at hw ⊢
            omega
          · simpa [Function.update_of_ne hwid] using hw
        · obtain rfl : d = c' := Option.some.inj h
          refine ⟨by omega, fun w => ?_⟩
          have hw := hreaders w
          by_cases hwid : w = id
          · subst hwid
            simp only [Function.update_self] at hw
            omega
          · simpa [Function.update_of_ne hwid] using hw

/-- What `HarmlessAt` says about a walk at one node. -/
def FreeOfHarm (down : Nat → Bool) (level : Nat) (owner : Option Owner) (skip : Bool) (size : Nat) :
    Prop :=
  ∀ id, owner = some (.watch id) →
    (level = 2 → down id = false) ∧ (skip = true ∨ (level = 2 ∧ size = 0))

theorem steady_nil : Steady [] := fun _ _ _ => rfl

theorem steady_append
    {events others : List Event}
    (h : Steady events)
    (h' : Steady others) :
    Steady (events ++ others) := by
  intro start c hc
  rw [checkEvents_append, h start c hc]
  exact h' start c hc

/-- A node that is copied without crossing into a watch belongs to none. -/
theorem FreeOfHarm.not_watch
    (h : FreeOfHarm down level owner skip size)
    (hcross : crossed level owner = none)
    (hskip : skip = false) :
    (∀ id, owner ≠ some (.watch id)) ∧ ∀ n, crossed n owner = none := by
  have howner : ∀ id, owner ≠ some (.watch id) := by
    intro id howner
    obtain ⟨rfl, -⟩ := (h id howner).2.resolve_left (by simp [hskip])
    simp [crossed, howner, Owner.watch?] at hcross
  refine ⟨howner, fun n => ?_⟩
  by_contra hne
  obtain ⟨id, hid⟩ := Option.ne_none_iff_exists'.mp hne
  exact howner id (crossed_eq_some hid).2

theorem steady_copyAround
    (hat : FreeOfHarm down level owner skip size)
    (hempty : size = 0 → inner = [])
    (hinner : skip = false → Steady inner) :
    Steady (copyAround down level owner skip size copy inner).2 := by
  intro start c hc
  unfold copyAround
  split
  · rename_i hcross
    unfold copyBody
    split
    · rw [getOut, if_neg (by simp [hcross])]
      rfl
    · rename_i hskip
      have hskip : skip = false := by simpa using hskip
      obtain ⟨howner, hnone⟩ := hat.not_watch hcross hskip
      have hcopy : Event.check start c (.copy owner) = some c := by
        unfold Event.check
        split
        · rename_i id heq
          exact absurd (Event.copy.inj heq) (howner id)
        · rfl
      rw [List.cons_append, checkEvents_cons, hcopy, Option.bind_some, checkEvents_append,
        hinner hskip start c hc, Option.bind_some, getOut, if_neg (by simp [hnone])]
      rfl
  · rename_i id hcross
    obtain ⟨rfl, rfl⟩ := crossed_eq_some hcross
    obtain ⟨hdown, hsize⟩ := hat id rfl
    rw [if_neg (by simp [hdown rfl])]
    rw [checkEvents_crossInto]
    unfold copyBody
    split
    · rw [getOut, if_pos (by simp [hcross]), checkEvents_getOut, getOut_crossInto]
    · rename_i hskip
      obtain ⟨-, hzero⟩ := hsize.resolve_left hskip
      have hcopy : Event.check start (c.crossInto id) (.copy (some (.watch id))) =
          some (c.crossInto id) := by
        have hlt : start.readers id < (c.crossInto id).readers id := by
          simp [Counts.crossInto, ← hc]
        simp only [Event.check, hlt, if_true]
      rw [hempty hzero, hzero, List.cons_append, checkEvents_cons, hcopy, Option.bind_some,
        List.nil_append, Nat.add_zero, getOut, if_pos (by simp [hcross]), checkEvents_getOut,
        getOut_crossInto]

/-- A walk that gives everything back did no harm at its first node, and gave everything back
while it was below. -/
theorem freeOfHarm_of_check
    {start c c' : Counts}
    (hlossy : Lossy inner)
    (hc : c.readers = start.readers)
    (h : checkEvents start (copyAround down level owner skip size copy inner).2 c = some c')
    (hset : c'.set = c.set) :
    FreeOfHarm down level owner skip size ∧
      (skip = false → size = 0 ∨ checkEvents start inner c = some c') := by
  unfold copyAround at h
  split at h
  · rename_i hcross
    unfold copyBody at h
    split at h
    · rename_i hskip
      refine ⟨fun id howner => ⟨fun hlevel => ?_, .inl hskip⟩, fun hskip' => by simp [hskip] at hskip'⟩
      simp [crossed, hlevel, howner, Owner.watch?] at hcross
    · rw [List.cons_append, checkEvents_cons] at h
      obtain ⟨d, hd, h⟩ := Option.bind_eq_some_iff.mp h
      obtain rfl : c = d := by simpa [Event.apply] using apply_of_check hd
      rw [checkEvents_append] at h
      obtain ⟨d, hd', h⟩ := Option.bind_eq_some_iff.mp h
      obtain ⟨-, rfl⟩ := checkEvents_getOut_none h
      refine ⟨fun id howner => ?_, fun _ => .inr hd'⟩
      -- the thread is not inside of the watch whose node it copies
      simp [howner, Event.check, hc] at hd
  · rename_i id hcross
    obtain ⟨rfl, rfl⟩ := crossed_eq_some hcross
    split at h
    · obtain rfl := Option.some.inj h
      simp only at hset
      omega
    · rename_i hdown
      have hdown : down id = false := by simpa using hdown
      rw [checkEvents_crossInto] at h
      unfold copyBody at h
      split at h
      · rename_i hskip
        refine ⟨?_, fun hskip' => by simp [hskip] at hskip'⟩
        rintro _ ⟨⟩
        exact ⟨fun _ => hdown, .inl hskip⟩
      · rw [List.cons_append, checkEvents_cons] at h
        obtain ⟨d, hd, h⟩ := Option.bind_eq_some_iff.mp h
        obtain rfl : c.crossInto id = d := by simpa [Event.apply] using apply_of_check hd
        rw [checkEvents_append] at h
        obtain ⟨d, hd', h⟩ := Option.bind_eq_some_iff.mp h
        have hle := (hlossy start _ d hd').1
        simp only [Counts.crossInto] at hle
        -- without getting out of the watch one reader of the watch service is missing
        have hzero : size = 0 := by
          unfold getOut at h
          split at h
          · rename_i hout
            obtain ⟨id', hid'⟩ := Option.isSome_iff_exists.mp hout
            have := (crossed_eq_some hid').1
            omega
          · obtain rfl : d = c' := Option.some.inj h
            omega
        refine ⟨?_, fun _ => .inl hzero⟩
        rintro _ ⟨⟩
        exact ⟨fun _ => hdown, .inr ⟨rfl, hzero⟩⟩

end Chunks

section Trees

variable {flags : CopyFlags} {down : Nat → Bool}

mutual

theorem lossy_watchSetCopyNode (level depth : Nat) :
    ∀ node, Lossy (watchSetCopyNode flags down level depth node).2
  | .element o name attrs cs => by
      simp only [watchSetCopyNode]
      exact lossy_copyAround (lossy_copyChildren level depth cs)
  | .text o content => by
      simp only [watchSetCopyNode]
      exact lossy_copyAround lossy_nil
  | .comment o content => by
      simp only [watchSetCopyNode]
      exact lossy_copyAround lossy_nil

theorem lossy_copyChildren (level depth : Nat) :
    ∀ nodes, Lossy (copyChildren flags down level depth nodes).2
  | [] => lossy_nil
  | node :: rest => by
      simp only [copyChildren]
      exact lossy_append (lossy_watchSetCopyNode (level + 1) (depth + 1) node)
        (lossy_copyChildren (level + 1) (depth + 1) rest)

end

theorem harmlessAt_iff (level depth : Nat) (node : XmlNode Owner) :
    HarmlessAt flags down level depth node ↔
      FreeOfHarm down level node.owner (excluded flags depth node) node.children.length := by
  simp only [HarmlessAt, FreeOfHarm, List.length_eq_zero_iff]

mutual

theorem Harmless.steady (level depth : Nat) :
    ∀ node, Harmless flags down level depth node →
      Steady (watchSetCopyNode flags down level depth node).2
  | .element o name attrs cs, h => by
      simp only [Harmless] at h
      simp only [watchSetCopyNode]
      refine steady_copyAround ((harmlessAt_iff _ _ _).mp h.1) ?_ fun hskip => ?_
      · intro hsize
        rw [List.length_eq_zero_iff.mp hsize]
        rfl
      · exact HarmlessAll.steady level depth cs (h.2 hskip)
  | .text o content, h => by
      simp only [Harmless] at h
      simp only [watchSetCopyNode]
      exact steady_copyAround ((harmlessAt_iff _ _ _).mp h) (fun _ => rfl) fun _ => steady_nil
  | .comment o content, h => by
      simp only [Harmless] at h
      simp only [watchSetCopyNode]
      exact steady_copyAround ((harmlessAt_iff _ _ _).mp h) (fun _ => rfl) fun _ => steady_nil

theorem HarmlessAll.steady (level depth : Nat) :
    ∀ nodes, HarmlessAll flags down level depth nodes →
      Steady (copyChildren flags down level depth nodes).2
  | [], _ => steady_nil
  | node :: rest, h => by
      simp only [HarmlessAll] at h
      simp only [copyChildren]
      exact steady_append (Harmless.steady (level + 1) (depth + 1) node h.1)
        (HarmlessAll.steady (level + 1) (depth + 1) rest h.2)

end

mutual

theorem harmless_of_check (level depth : Nat) {start c c' : Counts} (hc : c.readers = start.readers) :
    ∀ node, checkEvents start (watchSetCopyNode flags down level depth node).2 c = some c' →
      c'.set = c.set → Harmless flags down level depth node
  | .element o name attrs cs, h, hset => by
      simp only [watchSetCopyNode] at h
      obtain ⟨hfree, hbelow⟩ :=
        freeOfHarm_of_check (lossy_copyChildren level depth cs) hc h hset
      simp only [Harmless]
      refine ⟨(harmlessAt_iff _ _ _).mpr hfree, fun hskip => ?_⟩
      rcases hbelow hskip with hsize | hcheck
      · rw [List.length_eq_zero_iff.mp hsize]
        simp only [HarmlessAll]
      · exact harmlessAll_of_check level depth hc cs hcheck hset
  | .text o content, h, hset => by
      simp only [watchSetCopyNode] at h
      simp only [Harmless]
      exact (harmlessAt_iff _ _ _).mpr (freeOfHarm_of_check lossy_nil hc h hset).1
  | .comment o content, h, hset => by
      simp only [watchSetCopyNode] at h
      simp only [Harmless]
      exact (harmlessAt_iff _ _ _).mpr (freeOfHarm_of_check lossy_nil hc h hset).1

theorem harmlessAll_of_check (level depth : Nat) {start c c' : Counts} (hc : c.readers = start.readers) :
    ∀ nodes, checkEvents start (copyChildren flags down level depth nodes).2 c = some c' →
      c'.set = c.set → HarmlessAll flags down level depth nodes
  | [], _, _ => by simp only [HarmlessAll]
  | node :: rest, h, hset => by
      simp only [copyChildren] at h
      rw [checkEvents_append] at h
      obtain ⟨d, hd, hd'⟩ := Option.bind_eq_some_iff.mp h
      -- what the first child gives back too much, no other child makes up for
      have hle := (lossy_watchSetCopyNode (level + 1) (depth + 1) node start c d hd).1
      have hle' := (lossy_copyChildren (level + 1) (depth + 1) rest start d c' hd').1
      have hfirst := harmless_of_check (level + 1) (depth + 1) hc node hd (by omega)
      have hsame : d = c := by
        rw [Harmless.steady (level + 1) (depth + 1) node hfirst start c hc] at hd
        exact (Option.some.inj hd).symm
      rw [hsame] at hd'
      simp only [HarmlessAll]
      exact ⟨hfirst, harmlessAll_of_check (level + 1) (depth + 1) hc rest hd' hset⟩

end

/-- Reading the watch service gives back all regions and references, and copies the nodes of
watches inside of their regions, if and only if the walk does no harm at the nodes it gets
to. -/
theorem watchSetCopyUri_even_iff
    (flags : CopyFlags)
    (down : Nat → Bool)
    (root : XmlNode Owner)
    (href : Text) :
    EvenWalk (watchSetCopyUri flags down root href).2 ↔
      ∀ node level, watchSetGetNodeCore root href = some (node, level) →
        Harmless flags down level 0 node := by
  rw [evenWalk_iff]
  unfold watchSetCopyUri
  cases hfound : watchSetGetNodeCore root href with
  | none =>
      simp only [Option.elim_none, reduceCtorEq, false_implies, implies_true, iff_true]
      intro c
      simp [checkEvents, Event.check, Event.apply]
  | some x =>
      obtain ⟨node, level⟩ := x
      simp only [Option.elim_some, Option.some.injEq, Prod.mk.injEq, List.append_assoc]
      -- the counters inside of the watch service
      let inside := fun c : Counts => ({ c with set := c.set + 1 } : Counts)
      have hwalk : ∀ (c : Counts) (events : List Event),
          checkEvents c ([Event.enterSet] ++ (events ++ [Event.leaveSet])) c =
            (checkEvents c events (inside c)).map fun d => { d with set := d.set - 1 } := by
        intro c events
        rw [checkEvents_append]
        show checkEvents c (events ++ [Event.leaveSet]) (inside c) = _
        rw [checkEvents_append]
        cases checkEvents c events (inside c) <;> rfl
      constructor
      · rintro heven node' level' ⟨rfl, rfl⟩
        have h := heven { set := 0, readers := fun _ => 0, refs := fun _ => 0 }
        rw [hwalk] at h
        obtain ⟨d, hd, heq⟩ := Option.map_eq_some_iff.mp h
        refine harmless_of_check level 0 ?_ node hd ?_
        · rfl
        · have hset := congrArg Counts.set heq
          simp only [inside] at hset ⊢
          omega
      · intro h c
        have hsteady := Harmless.steady level 0 node (h node level ⟨rfl, rfl⟩)
        rw [hwalk, hsteady c (inside c) rfl]
        simp [inside]

end Trees

section Sample

/-- A node of the watch service with a href. -/
def sampleNode (owner : Owner) (href : String) (children : List (XmlNode Owner)) : XmlNode Owner :=
  .element (some owner) "obj".toList [(attrHref, href.toList)] children

/-- The watch service with one folder and the first watch in it. -/
def sampleService : XmlNode Owner :=
  sampleNode .set "watchService"
    [sampleNode .set "make" [],
      sampleNode .set "0" [sampleNode (.watch 0) "watch0" [sampleNode (.watch 0) "lease" []]]]

/-- Reading the folder of a watch leaves the region of the watch service twice. -/
theorem watchSetCopyUri_folder :
    ¬ EvenWalk (watchSetCopyUri ⟨true, true, true⟩ (fun _ => false) sampleService
      "/obix/watchService/0/".toList).2 := by
  intro h
  have hcounts := h.counts { set := 0, readers := fun _ => 0, refs := fun _ => 0 }
  have hset : (runEvents (watchSetCopyUri ⟨true, true, true⟩ (fun _ => false) sampleService
      "/obix/watchService/0/".toList).2
        { set := 0, readers := fun _ => 0, refs := fun _ => 0 }).map Counts.set = some (-1) := by
    decide +kernel
  rw [hcounts] at hset
  exact absurd hset (by decide)

end Sample

end Watches
end Obix
