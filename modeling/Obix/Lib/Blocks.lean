import Mathlib.Data.List.Basic
import Mathlib.Tactic

/-!
# Data in blocks of one size

Data may be kept in numbered blocks of `q` elements each, where the last block has anything behind
the end of the data.  Copying to the end of the data, inside of one block, appends to the data
(`Holds.append`), and the blocks one after another give the data back (`Holds.region_eq`).
-/

namespace Blocks

variable {β : Type} {q : Nat} {block : Nat → Option (List β)} {data s : List β}

/-- `memcpy` to an offset of an object; it fails when the object ends before. -/
def overwrite (dst : List β) (off : Nat) (src : List β) : Option (List β) :=
  if off + src.length ≤ dst.length then
    some (dst.take off ++ (src ++ dst.drop (off + src.length)))
  else none

/-- What `memcpy` finds at an offset of an object; it fails when the object ends before. -/
def region (src : List β) (off len : Nat) : Option (List β) :=
  if off + len ≤ src.length then some ((src.drop off).take len) else none

/-- The data is what the blocks begin with. -/
def Holds (q : Nat) (block : Nat → Option (List β)) (data : List β) : Prop :=
  ∀ b, b * q < data.length → ∃ blk, block b = some blk ∧ (data.drop (b * q)).take q <+: blk

theorem length_overwrite
    {dst src new : List β} {off : Nat}
    (h : overwrite dst off src = some new) :
    new.length = dst.length := by
  unfold overwrite at h
  split at h
  · obtain rfl := Option.some.inj h
    simp only [List.length_append, List.length_take, List.length_drop]
    omega
  · cases h

/-- Copying behind the beginning of an object makes the beginning longer. -/
theorem overwrite_append
    {t dst src : List β}
    (hbegins : t <+: dst)
    (hroom : t.length + src.length ≤ dst.length) :
    ∃ new, overwrite dst t.length src = some new ∧ t ++ src <+: new := by
  refine ⟨_, if_pos hroom, ?_⟩
  rw [← List.prefix_iff_eq_take.mp hbegins, ← List.append_assoc]
  exact List.prefix_append _ _

theorem region_begin
    {t src : List β}
    (h : t <+: src) :
    region src 0 t.length = some t := by
  rw [region, if_pos (by have hle := h.length_le; omega), List.drop_zero,
    ← List.prefix_iff_eq_take.mp h]

theorem holds_nil : Holds q block [] := by
  intro b hb
  simp at hb

/-- What the last block has of the data. -/
theorem Holds.last
    (h : Holds q block data)
    (hq : 0 < q)
    {old : List β}
    (hold : ∀ blk ∈ block (data.length / q), blk = old) :
    data.drop (data.length / q * q) <+: old := by
  rcases (Nat.div_mul_le_self data.length q).lt_or_eq with hlt | heq
  · obtain ⟨blk, hblk, hbegins⟩ := h _ hlt
    obtain rfl := hold blk hblk
    have hsplit := Nat.div_add_mod' data.length q
    have hmod := Nat.mod_lt data.length hq
    have hshort : (data.drop (data.length / q * q)).length ≤ q := by
      rw [List.length_drop]
      omega
    rwa [List.take_of_length_le hshort] at hbegins
  · rw [heq, List.drop_length]
    exact List.nil_prefix

/-- Copying to the end of the data, as much as the last block has room for, appends to it. -/
theorem Holds.append
    {block' : Nat → Option (List β)} {new : List β}
    (h : Holds q block data)
    (hq : 0 < q)
    (hroom : data.length % q + s.length ≤ q)
    (hother : ∀ b, b ≠ data.length / q → block' b = block b)
    (hnew : block' (data.length / q) = some new)
    (hbegins : data.drop (data.length / q * q) ++ s <+: new) :
    Holds q block' (data ++ s) := by
  have hsplit := Nat.div_add_mod' data.length q
  intro b hb
  rw [List.length_append] at hb
  rcases lt_trichotomy b (data.length / q) with hlt | rfl | hgt
  · have hnext : b * q + q ≤ data.length / q * q := by
      rw [← Nat.succ_mul]
      exact Nat.mul_le_mul_right q hlt
    obtain ⟨blk, hblk, hpre⟩ := h b (by omega)
    refine ⟨blk, (hother b hlt.ne).trans hblk, ?_⟩
    rw [List.drop_append_of_le_length (by omega), List.take_append_of_le_length
      (by rw [List.length_drop]; omega)]
    exact hpre
  · refine ⟨new, hnew, ?_⟩
    rw [List.drop_append_of_le_length (by omega), List.take_of_length_le]
    · exact hbegins
    · rw [List.length_append, List.length_drop]
      omega
  · have hnext : data.length / q * q + q ≤ b * q := by
      rw [← Nat.succ_mul]
      exact Nat.mul_le_mul_right q hgt
    omega

/-- The blocks one after another give the data back. -/
theorem Holds.region_eq
    (h : Holds q block data)
    {b : Nat}
    (hb : b * q < data.length) :
    ∃ blk, block b = some blk ∧
      region blk 0 (min (data.length - b * q) q) = some ((data.drop (b * q)).take q) := by
  obtain ⟨blk, hblk, hbegins⟩ := h b hb
  refine ⟨blk, hblk, ?_⟩
  have hlength : ((data.drop (b * q)).take q).length = min (data.length - b * q) q := by
    rw [List.length_take, List.length_drop, min_comm]
  rw [← hlength]
  exact region_begin hbegins

end Blocks
