import Obix.Watch.Items

/-!
# The nodes of the device tree

`Rooted` says that linked nodes have different addresses and that the parent of a linked node is
linked.  It is kept when a leaf or a contract is added and when a whole subtree is removed.
-/

namespace Obix
namespace Monitoring

open CString

/-- What is found by a key that is different for all elements of a list. -/
theorem find?_key
    {α κ : Type} [DecidableEq κ]
    {key : α → κ} {l : List α} {x : α}
    (hnodup : (l.map key).Nodup)
    (hx : x ∈ l) :
    l.find? (fun y => key y = key x) = some x := by
  obtain ⟨y, hy⟩ := Option.isSome_iff_exists.mp
    (List.find?_isSome.mpr ⟨x, hx, by simp⟩ : (l.find? fun y => key y = key x).isSome)
  have hkey : key y = key x := by simpa using List.find?_some hy
  rw [hy, List.inj_on_of_nodup_map hnodup (List.mem_of_find?_eq_some hy) hx hkey]

/-- The addresses of the nodes are different and in use, and parents are linked.  No node is
below the meta node of an item. -/
structure Rooted (nodes : List Node) (next : Nat) : Prop where
  nodup : (nodes.map Node.addr).Nodup
  known : ∀ n ∈ nodes, n.addr < next
  parent : ∀ n ∈ nodes, ∀ a post, n.above = a :: post →
    a < n.addr ∧ ∃ p ∈ nodes, p.addr = a ∧ p.above = post ∧ p.byItem = false

section Rooted

variable {nodes : List Node} {next : Nat} {n p : Node}

theorem Rooted.ext
    (h : Rooted nodes next)
    (hn : n ∈ nodes)
    (hp : p ∈ nodes)
    (haddr : n.addr = p.addr) :
    n = p :=
  List.inj_on_of_nodup_map h.nodup hn hp haddr

/-- A node above a linked node is linked. -/
theorem Rooted.ancestor
    (h : Rooted nodes next)
    (hn : n ∈ nodes)
    (pre : List Nat)
    {a : Nat} {post : List Nat}
    (habove : n.above = pre ++ a :: post) :
    a < n.addr ∧ ∃ p ∈ nodes, p.addr = a ∧ p.above = post ∧ p.byItem = false := by
  induction pre generalizing n with
  | nil => exact h.parent n hn a post habove
  | cons b pre ih =>
      obtain ⟨hlt, q, hq, rfl, hpost, -⟩ := h.parent n hn b _ habove
      obtain ⟨hlt', hp⟩ := ih hq hpost
      exact ⟨hlt'.trans hlt, hp⟩

theorem Rooted.mem_above
    (h : Rooted nodes next)
    (hn : n ∈ nodes)
    {a : Nat}
    (ha : a ∈ n.above) :
    a < n.addr ∧ ∃ p ∈ nodes, p.addr = a ∧ p.byItem = false ∧ p.above <:+ n.above := by
  obtain ⟨pre, post, habove⟩ := List.append_of_mem ha
  obtain ⟨hlt, p, hp, hpa, hpost, hitem⟩ := h.ancestor hn pre habove
  refine ⟨hlt, p, hp, hpa, hitem, ?_⟩
  rw [hpost, habove]
  exact ⟨pre ++ [a], by simp⟩

/-- Nodes with new addresses are added whose parents are linked. -/
theorem Rooted.append
    {new : List Node} {next' : Nat}
    (h : Rooted nodes next)
    (hnodup : (new.map Node.addr).Nodup)
    (hknown : ∀ n ∈ new, next ≤ n.addr ∧ n.addr < next')
    (hparent : ∀ n ∈ new, ∀ a post, n.above = a :: post →
      a < n.addr ∧ ∃ p ∈ nodes ++ new, p.addr = a ∧ p.above = post ∧ p.byItem = false)
    (hnext : next ≤ next') :
    Rooted (nodes ++ new) next' := by
  refine ⟨?_, ?_, ?_⟩
  · rw [List.map_append, List.nodup_append]
    refine ⟨h.nodup, hnodup, ?_⟩
    intro a ha b hb heq
    obtain ⟨n, hn, rfl⟩ := List.mem_map.mp ha
    obtain ⟨m, hm, rfl⟩ := List.mem_map.mp hb
    have hlt := h.known n hn
    have hle := (hknown m hm).1
    omega
  · intro n hn
    rcases List.mem_append.mp hn with hn | hn
    · exact lt_of_lt_of_le (h.known n hn) hnext
    · exact (hknown n hn).2
  · intro n hn a post habove
    rcases List.mem_append.mp hn with hn | hn
    · obtain ⟨hlt, p, hp, hrest⟩ := h.parent n hn a post habove
      exact ⟨hlt, p, List.mem_append_left _ hp, hrest⟩
    · exact hparent n hn a post habove

/-- Nodes are removed together with what is below them. -/
theorem Rooted.filter
    {keep : Node → Bool}
    (h : Rooted nodes next)
    (hkeep : ∀ n ∈ nodes, keep n = true → ∀ p ∈ nodes, n.above = p.addr :: p.above →
      p.byItem = false → keep p = true) :
    Rooted (nodes.filter keep) next := by
  refine ⟨?_, ?_, ?_⟩
  · exact h.nodup.sublist (List.filter_sublist.map _)
  · intro n hn
    exact h.known n (List.mem_of_mem_filter hn)
  · intro n hn a post habove
    obtain ⟨hn, hkn⟩ := List.mem_filter.mp hn
    obtain ⟨hlt, p, hp, rfl, rfl, hitem⟩ := h.parent n hn a post habove
    exact ⟨hlt, p, List.mem_filter.mpr ⟨hp, hkeep n hn hkn p hp habove hitem⟩, rfl, rfl, hitem⟩

end Rooted

section Contracts

variable (owner : Nat)

mutual

theorem map_addr_flatten :
    ∀ (above : List Nat) (k : Nat) (x : Xml),
      (flatten owner above k x).map Node.addr = List.range' k (flatten owner above k x).length
  | above, k, .element o name attrs cs => by
      simp only [flatten, List.map_cons, List.length_cons, List.range'_succ]
      rw [map_addr_flattenAll]
      rfl
  | _, _, .text _ _ => by simp [flatten]
  | _, _, .comment _ _ => by simp [flatten]

theorem map_addr_flattenAll :
    ∀ (above : List Nat) (k : Nat) (cs : List Xml),
      (flattenAll owner above k cs).map Node.addr =
        List.range' k (flattenAll owner above k cs).length
  | _, _, [] => by simp [flattenAll]
  | above, k, c :: cs => by
      simp only [flattenAll, List.map_append, List.length_append]
      rw [map_addr_flatten, map_addr_flattenAll, ← List.range'_append_1]

end

theorem addr_flatten
    {above : List Nat} {k : Nat} {x : Xml} {n : Node}
    (hn : n ∈ flatten owner above k x) :
    k ≤ n.addr ∧ n.addr < k + (flatten owner above k x).length := by
  have hmem := List.mem_map_of_mem hn (f := Node.addr)
  rw [map_addr_flatten, List.mem_range'_1] at hmem
  exact hmem

theorem nodup_flatten (above : List Nat) (k : Nat) (x : Xml) :
    ((flatten owner above k x).map Node.addr).Nodup := by
  rw [map_addr_flatten]
  exact List.nodup_range'

mutual

/-- The parents of the nodes of a contract are in the contract, except that of its root. -/
theorem parent_flatten :
    ∀ (above : List Nat) (k : Nat) (x : Xml), ∀ n ∈ flatten owner above k x,
      n.byItem = false ∧ n.owner = owner ∧
        (n.addr = k ∧ n.above = above ∨
          ∃ p ∈ flatten owner above k x, n.above = p.addr :: p.above ∧ p.addr < n.addr)
  | above, k, .element o name attrs cs => by
      intro n hn
      rcases List.mem_cons.mp hn with rfl | hn
      · exact ⟨rfl, rfl, .inl ⟨rfl, rfl⟩⟩
      · obtain ⟨hitem, howner, hroot | ⟨p, hp, habove, hlt⟩⟩ :=
          parent_flattenAll (k :: above) (k + 1) cs n hn
        · refine ⟨hitem, howner, .inr ⟨_, List.mem_cons_self, hroot.2, ?_⟩⟩
          exact Nat.lt_of_succ_le hroot.1
        · exact ⟨hitem, howner, .inr ⟨p, List.mem_cons_of_mem _ hp, habove, hlt⟩⟩
  | _, _, .text _ _ => by simp [flatten]
  | _, _, .comment _ _ => by simp [flatten]

theorem parent_flattenAll :
    ∀ (above : List Nat) (k : Nat) (cs : List Xml), ∀ n ∈ flattenAll owner above k cs,
      n.byItem = false ∧ n.owner = owner ∧
        (k ≤ n.addr ∧ n.above = above ∨
          ∃ p ∈ flattenAll owner above k cs, n.above = p.addr :: p.above ∧ p.addr < n.addr)
  | _, _, [] => by simp [flattenAll]
  | above, k, c :: cs => by
      intro n hn
      rw [flattenAll, List.mem_append] at hn
      rcases hn with hn | hn
      · obtain ⟨hitem, howner, hroot | ⟨p, hp, habove, hlt⟩⟩ := parent_flatten above k c n hn
        · exact ⟨hitem, howner, .inl ⟨hroot.1.ge, hroot.2⟩⟩
        · refine ⟨hitem, howner, .inr ⟨p, ?_, habove, hlt⟩⟩
          rw [flattenAll]
          exact List.mem_append_left _ hp
      · obtain ⟨hitem, howner, hroot | ⟨p, hp, habove, hlt⟩⟩ :=
          parent_flattenAll above (k + (flatten owner above k c).length) cs n hn
        · exact ⟨hitem, howner, .inl ⟨le_trans (Nat.le_add_right _ _) hroot.1, hroot.2⟩⟩
        · refine ⟨hitem, howner, .inr ⟨p, ?_, habove, hlt⟩⟩
          rw [flattenAll]
          exact List.mem_append_right _ hp

end

/-- The root of a contract. -/
theorem root_flatten
    {above : List Nat} {k : Nat} {x : Xml}
    (hx : x.isElement = true) :
    ∃ n ∈ flatten owner above k x, n.addr = k ∧ n.above = above ∧ n.byItem = false := by
  cases x with
  | element o name attrs cs => exact ⟨_, List.mem_cons_self, rfl, rfl, rfl⟩
  | text => cases hx
  | comment => cases hx

/-- A contract is added below a linked node. -/
theorem Rooted.mount
    {nodes : List Node} {next k : Nat} {above : List Nat} {x : Xml}
    (h : Rooted nodes next)
    (hk : next ≤ k)
    (habove : ∀ a post, above = a :: post →
      ∃ p ∈ nodes, p.addr = a ∧ p.above = post ∧ p.byItem = false) :
    Rooted (nodes ++ flatten owner above k x) (k + (flatten owner above k x).length) := by
  refine h.append (nodup_flatten owner above k x) ?_ ?_ (by omega)
  · intro n hn
    have haddr := addr_flatten owner hn
    omega
  · intro n hn a post hpost
    obtain ⟨-, -, hroot | ⟨p, hp, hp', hlt⟩⟩ := parent_flatten owner above k x n hn
    · rw [hroot.2] at hpost
      obtain ⟨p, hp, rfl, hrest⟩ := habove a post hpost
      have hlt := h.known p hp
      exact ⟨by omega, p, List.mem_append_left _ hp, rfl, hrest⟩
    · rw [hp'] at hpost
      cases hpost
      exact ⟨hlt, p, List.mem_append_right _ hp, rfl, rfl, (parent_flatten owner above k x p hp).1⟩

end Contracts

section Chains

variable {s : Server} {n : Node} {next : Nat}

theorem node?_of_mem
    (h : Rooted s.nodes next)
    (hn : n ∈ s.nodes) :
    s.node? n.addr = some n :=
  find?_key h.nodup hn

theorem chain_of_mem
    (h : Rooted s.nodes next)
    (hn : n ∈ s.nodes) :
    s.chain n.addr = n.addr :: n.above := by
  simp [Server.chain, node?_of_mem h hn]

theorem mem_of_node?
    {a : Nat}
    (h : s.node? a = some n) :
    n ∈ s.nodes ∧ n.addr = a :=
  ⟨List.mem_of_find?_eq_some h, by simpa using List.find?_some h⟩

/-- What `xml_find_child` finds is a linked node with a href. -/
theorem childAt_mem
    {a c : Nat} {token : Text}
    (h : s.childAt a token = some c) :
    ∃ n ∈ s.nodes, n.addr = c ∧ n.above.head? = some a ∧ n.href = some token := by
  obtain ⟨n, hn, rfl⟩ := Option.map_eq_some_iff.mp h
  have hprop := List.find?_some hn
  simp only [decide_eq_true_eq] at hprop
  exact ⟨n, List.mem_of_find?_eq_some hn, rfl, hprop.1, hprop.2⟩

end Chains

end Monitoring
end Obix
