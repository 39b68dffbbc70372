import Obix.Xml.Href

/-!
# The cache of recently used items

`cache.c`, one call at a time.  A slot holds a href and an item, or nothing after it has
been invalidated.  The same item may be in several slots.
-/

namespace Obix

open CString

/-- `cache_t`; the slots from the most recently used one on. -/
abbrev Cache (ι : Type) := List (Option (Text × ι))

namespace Cache

variable {ι : Type}

/-- `cache_init`. -/
def init (len : Nat) : Cache ι := List.replicate len none

/-- `cache_update`: the slots move down by one unless the first one has the href. -/
def update (slots : Cache ι) (href : Text) (item : ι) : Cache ι :=
  match slots with
  | [] => []
  | slot :: _ =>
      if slot.any fun x => isStrIdentical x.1 href then slots
      else some (href, item) :: slots.dropLast

/-- Whether a slot is in use for a href. -/
def slotHolds (href : Text) (slot : Option (Text × ι)) : Bool :=
  slot.any fun x => isStrIdentical x.1 href

/-- `cache_search`: a slot that is found is also put on top. -/
def search (slots : Cache ι) (href : Text) : Option ι × Cache ι :=
  match (slots.findIdx? (slotHolds href)).bind fun n => (slots[n]?.join).map fun x => (n, x) with
  | none => (none, slots)
  | some (n, h, item) => (some item, if n > 0 then slots.update h item else slots)

/-- `cache_invalidate`: a slot is cleared if its href begins with the given one. -/
def invalidate (slots : Cache ι) (href : Text) : Cache ι :=
  slots.map fun slot => slot.filter fun x => !(trimSlash href).isPrefixOf x.1

variable {slots : Cache ι} {href : Text}

theorem mem_update
    {item : ι} {x : Text × ι}
    (h : some x ∈ slots.update href item) :
    some x ∈ slots ∨ x = (href, item) := by
  unfold update at h
  split at h
  · exact .inl h
  · split at h
    · exact .inl h
    · rcases List.mem_cons.mp h with h | h
      · exact .inr (Option.some.inj h)
      · exact .inl (List.dropLast_subset _ h)

/-- What `cache_search` finds is in a slot for the href, and nothing new comes into the
cache. -/
theorem search_spec (slots : Cache ι) (href : Text) :
    (∃ h item, (slots.search href).1 = some item ∧ some (h, item) ∈ slots ∧
      isStrIdentical h href = true ∧ ∀ x, some x ∈ (slots.search href).2 → some x ∈ slots) ∨
    (slots.search href = (none, slots) ∧ ∀ x, some x ∈ slots → isStrIdentical x.1 href = false) := by
  cases hfind : slots.findIdx? (slotHolds href) with
  | none =>
      right
      refine ⟨by simp [search, hfind], ?_⟩
      intro x hx
      have hnot := (List.findIdx?_eq_none_iff.mp hfind) (some x) hx
      simpa [slotHolds] using hnot
  | some n =>
      left
      obtain ⟨hn, hholds, -⟩ := List.findIdx?_eq_some_iff_getElem.mp hfind
      obtain ⟨x, hx, hid⟩ : ∃ x, slots[n] = some x ∧ isStrIdentical x.1 href = true := by
        cases hslot : slots[n] with
        | none => simp [slotHolds, hslot] at hholds
        | some x => exact ⟨x, rfl, by simpa [slotHolds, hslot] using hholds⟩
      have hmem : some x ∈ slots := hx ▸ List.getElem_mem hn
      have hsearch : slots.search href = (some x.2, if n > 0 then slots.update x.1 x.2 else slots) := by
        simp [search, hfind, List.getElem?_eq_getElem hn, hx]
      refine ⟨x.1, x.2, by rw [hsearch], hmem, hid, ?_⟩
      intro y hy
      rw [hsearch] at hy
      dsimp only at hy
      split at hy
      · rcases mem_update hy with hy | rfl
        · exact hy
        · exact hmem
      · exact hy

theorem mem_invalidate {x : Text × ι} :
    some x ∈ slots.invalidate href ↔ some x ∈ slots ∧ (trimSlash href).isPrefixOf x.1 = false := by
  simp only [invalidate, List.mem_map]
  constructor
  · rintro ⟨slot, hslot, hx⟩
    obtain ⟨rfl, hkeep⟩ := Option.filter_eq_some_iff.mp hx
    exact ⟨hslot, by simpa using hkeep⟩
  · rintro ⟨hx, hkeep⟩
    exact ⟨some x, hx, by simp [Option.filter, hkeep]⟩

end Cache

end Obix
