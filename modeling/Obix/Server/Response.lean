import Mathlib.Algebra.Order.BigOperators.Group.List
import Mathlib.Tactic.Linarith

/-!
# The response to a request

The queue of response items of `obix_request.c` with its counters, and what
`obix_fcgi_send_response` sends.  `obix_request_destroy_response_items` empties the queue but
leaves the counters; they are right if and only if it is never called for a queue that holds
items (`response_accounted_iff`).
-/

namespace Obix

/-- `response_item_t`; `obix_request_create_response_item` makes no empty ones, and its callers
pass the length of the text. -/
structure ResponseItem where
  body : List UInt8
  nonempty : body ≠ []
  deriving DecidableEq, Repr

def ResponseItem.len (item : ResponseItem) : Int := item.body.length

/-- The part of `obix_request_t` that is about the response. -/
structure ObixRequest where
  responseItems : List ResponseItem
  responseLen : Int
  responseItemsCount : Int
  deriving DecidableEq, Repr

/-- What a handler does to the response. -/
inductive ResponseOp
  | add (item : ResponseItem)
  | append (item : ResponseItem)
  | destroyItems
  deriving DecidableEq, Repr

namespace ObixRequest

/-- `obix_request_create`. -/
def create : ObixRequest :=
  { responseItems := [], responseLen := 0, responseItemsCount := 0 }

variable (r : ObixRequest)

/-- `obix_request_add_response_item`. -/
def addResponseItem (item : ResponseItem) : ObixRequest :=
  { responseItems := item :: r.responseItems
    responseLen := r.responseLen + item.len
    responseItemsCount := r.responseItemsCount + 1 }

/-- `obix_request_append_response_item`. -/
def appendResponseItem (item : ResponseItem) : ObixRequest :=
  { responseItems := r.responseItems ++ [item]
    responseLen := r.responseLen + item.len
    responseItemsCount := r.responseItemsCount + 1 }

/-- `obix_request_destroy_response_items`. -/
def destroyResponseItems : ObixRequest := { r with responseItems := [] }

def perform : ResponseOp → ObixRequest
  | .add item => r.addResponseItem item
  | .append item => r.appendResponseItem item
  | .destroyItems => r.destroyResponseItems

/-- The `Content-Length` header of `obix_fcgi_send_response`. -/
def contentLength : Option Int := if 0 < r.responseLen then some r.responseLen else none

/-- The body that `obix_fcgi_send_response` sends. -/
def bodySent : List UInt8 := r.responseItems.flatMap ResponseItem.body

/-- The counters agree with the queue, and the header with the body. -/
structure Accounted : Prop where
  len : r.responseLen = (r.responseItems.map ResponseItem.len).sum
  count : r.responseItemsCount = r.responseItems.length
  header : r.contentLength.getD 0 = r.bodySent.length

/-- No items are discarded. -/
def discardsNothing (r : ObixRequest) : List ResponseOp → Bool
  | [] => true
  | op :: ops =>
      (op ≠ .destroyItems || r.responseItems.isEmpty) && (r.perform op).discardsNothing ops

end ObixRequest

section Accounting

variable {r : ObixRequest} {op : ResponseOp}

/-- The sum of the lengths of some items. -/
def lenSum (items : List ResponseItem) : Int := (items.map ResponseItem.len).sum

theorem ResponseItem.len_pos (item : ResponseItem) : 0 < item.len := by
  have hpos := List.length_pos_of_ne_nil item.nonempty
  unfold ResponseItem.len
  omega

theorem lenSum_nonneg (items : List ResponseItem) : 0 ≤ lenSum items := by
  induction items with
  | nil => exact le_refl 0
  | cons item items ih =>
      have hpos := item.len_pos
      simp only [lenSum, List.map_cons, List.sum_cons] at ih ⊢
      omega

theorem lenSum_eq_zero_iff {items : List ResponseItem} : lenSum items = 0 ↔ items = [] := by
  cases items with
  | nil => simp [lenSum]
  | cons item items =>
      have hpos := item.len_pos
      have hnonneg := lenSum_nonneg items
      simp only [lenSum, List.map_cons, List.sum_cons] at hnonneg ⊢
      constructor
      · intro h
        omega
      · intro h
        cases h

theorem length_bodySent : (r.bodySent.length : Int) = lenSum r.responseItems := by
  unfold ObixRequest.bodySent lenSum
  induction r.responseItems with
  | nil => rfl
  | cons item items ih =>
      rw [List.flatMap_cons, List.length_append, List.map_cons, List.sum_cons, ← ih]
      simp [ResponseItem.len]

/-- What the length counter has too much. -/
def ObixRequest.surplus (r : ObixRequest) : Int := r.responseLen - lenSum r.responseItems

/-- Discarded items stay in the counter. -/
theorem surplus_perform :
    (r.perform op).surplus =
      r.surplus + if op = .destroyItems then lenSum r.responseItems else 0 := by
  cases op with
  | add item =>
      simp only [ObixRequest.perform, ObixRequest.addResponseItem, ObixRequest.surplus, lenSum,
        List.map_cons, List.sum_cons, reduceCtorEq, if_false]
      omega
  | append item =>
      simp only [ObixRequest.perform, ObixRequest.appendResponseItem, ObixRequest.surplus, lenSum,
        List.map_append, List.map_cons, List.map_nil, List.sum_append, List.sum_cons,
        List.sum_nil, reduceCtorEq, if_false]
      omega
  | destroyItems =>
      simp only [ObixRequest.perform, ObixRequest.destroyResponseItems, ObixRequest.surplus,
        lenSum, List.map_nil, List.sum_nil, if_true]
      omega

theorem surplus_le_perform : r.surplus ≤ (r.perform op).surplus := by
  rw [surplus_perform]
  have hnonneg := lenSum_nonneg r.responseItems
  split <;> omega

theorem surplus_le_performs (ops : List ResponseOp) :
    r.surplus ≤ (ops.foldl ObixRequest.perform r).surplus := by
  induction ops generalizing r with
  | nil => exact le_refl _
  | cons op ops ih => exact le_trans surplus_le_perform ih

/-- The length counter is right at the end if and only if nothing has been discarded. -/
theorem surplus_performs_iff
    (ops : List ResponseOp)
    (h : r.surplus = 0) :
    (ops.foldl ObixRequest.perform r).surplus = 0 ↔ r.discardsNothing ops = true := by
  induction ops generalizing r with
  | nil => simp [ObixRequest.discardsNothing, h]
  | cons op ops ih =>
      have hstep : (r.perform op).surplus =
          r.surplus + if op = .destroyItems then lenSum r.responseItems else 0 := surplus_perform
      have hmono := surplus_le_performs ops (r := r.perform op)
      have hnonneg := lenSum_nonneg r.responseItems
      rw [List.foldl_cons, ObixRequest.discardsNothing, Bool.and_eq_true, Bool.or_eq_true,
        decide_eq_true_eq, List.isEmpty_iff]
      by_cases hzero : (r.perform op).surplus = 0
      · rw [ih hzero]
        have hnone : op ≠ .destroyItems ∨ r.responseItems = [] := by
          by_cases hop : op = .destroyItems
          · right
            rw [if_pos hop] at hstep
            exact lenSum_eq_zero_iff.mp (by omega)
          · exact .inl hop
        exact ⟨fun hrest => ⟨hnone, hrest⟩, fun hrest => hrest.2⟩
      · constructor
        · intro hend
          have hle : r.surplus ≤ (r.perform op).surplus := surplus_le_perform
          omega
        · rintro ⟨hnone, -⟩
          exfalso
          refine hzero ?_
          rw [hstep, h]
          rcases hnone with hop | hempty
          · rw [if_neg hop]
            rfl
          · rw [hempty]
            simp [lenSum]

/-- The counters of a run in which nothing is discarded. -/
theorem count_performs
    (ops : List ResponseOp)
    (h : r.responseItemsCount = r.responseItems.length)
    (hok : r.discardsNothing ops = true) :
    (ops.foldl ObixRequest.perform r).responseItemsCount =
      (ops.foldl ObixRequest.perform r).responseItems.length := by
  induction ops generalizing r with
  | nil => exact h
  | cons op ops ih =>
      rw [ObixRequest.discardsNothing, Bool.and_eq_true, Bool.or_eq_true, decide_eq_true_eq,
        List.isEmpty_iff] at hok
      refine ih ?_ hok.2
      cases op with
      | add item => simp [ObixRequest.perform, ObixRequest.addResponseItem, h]
      | append item => simp [ObixRequest.perform, ObixRequest.appendResponseItem, h]
      | destroyItems =>
          have hempty := hok.1.resolve_left fun hne => hne rfl
          rw [hempty] at h
          simpa [ObixRequest.perform, ObixRequest.destroyResponseItems] using h

end Accounting

/-- The counters and the header are right when the response is sent if and only if no items have
been discarded. -/
theorem response_accounted_iff (ops : List ResponseOp) :
    (ops.foldl ObixRequest.perform .create).Accounted ↔
      ObixRequest.create.discardsNothing ops = true := by
  have hzero : ObixRequest.create.surplus = 0 := rfl
  have hiff := surplus_performs_iff ops hzero
  constructor
  · intro h
    rw [← hiff, ObixRequest.surplus, h.len]
    exact sub_self _
  · intro hok
    have hlen := hiff.mpr hok
    unfold ObixRequest.surplus at hlen
    refine ⟨sub_eq_zero.mp hlen, count_performs ops rfl hok, ?_⟩
    have hnonneg := lenSum_nonneg (ops.foldl ObixRequest.perform .create).responseItems
    rw [length_bodySent, ObixRequest.contentLength]
    split
    · exact sub_eq_zero.mp hlen
    · simp only [Option.getD_none]
      omega

/-- A query has queued a part of its answer when it fails, and an error contract follows. -/
theorem response_not_accounted :
    ¬ ∀ ops : List ResponseOp, (ops.foldl ObixRequest.perform .create).Accounted := by
  intro hall
  have hlen := (hall [.append ⟨[60], by simp⟩, .destroyItems, .append ⟨[62], by simp⟩]).len
  revert hlen
  decide

end Obix
