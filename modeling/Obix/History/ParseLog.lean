import Obix.Lib.Resumption
import Obix.History.Store

/-!
# Scanning a log file

`parse_log` of `history.c`: it looks for fixed byte strings in the content of a
log file, copies the timestamp of each record into a buffer, and moves the
desirable records to the front of the content.

The buffers `val`, `val_prev` and `log_start` are static, so all threads of the
server share them: they are the shared state of the program, and each round of
the record loop is one atomic step of it.  The content has no NUL character, and
a pointer into it is an offset.  A timestamp longer than `HIST_REC_TS_MAX_LEN`
is written past the end of a static buffer; the model stops there.
-/

namespace Obix
namespace History

open CString

def recordStart : Text := "<obj is=\"obix:HistoryRecord\">".toList

def recordEnd : Text := "</obj>\r\n".toList

def tsValStart : Text := "<abstime name=\"timestamp\" val=\"".toList

def tsValEnd : Text := "\"".toList

def histRecTsMaxLen : Nat := 20

/-- The static buffers of `parse_log`. -/
structure ParseStatics where
  val : Text
  valPrev : Text
  logStart : Text
  deriving DecidableEq, Repr

/-- Arguments of `parse_log`: `start` and `end`, the value of `*limit`, and
whether `start_ts` is not `NULL`. -/
structure ParseArgs where
  range : Option (Text × Text)
  limit : Int
  wantStart : Bool

/-- Local variables of `parse_log`. -/
structure ParseLocal where
  buf : Text
  n : Nat
  w : Nat
  r : Nat
  isStartSet : Bool
  useValPrev : Bool

/-- `while (p < n) *w++ = *p++`, with `k` bytes left. -/
def moveBytes : Nat → Text → Nat → Nat → Text
  | 0, buf, _, _ => buf
  | k + 1, buf, w, p => moveBytes k (buf.set w (buf.getD p ' ')) (w + 1) (p + 1)

/-- Move the record from `p` to `n` to the end of the desirable ones. -/
def takeRecord (args : ParseArgs) (p n : Nat) (loc : ParseLocal) : ParseLocal :=
  { buf := if loc.w = p then loc.buf else moveBytes (n - p) loc.buf loc.w p
    n := n
    w := if loc.w = p then n else loc.w + (n - p)
    r := loc.r + 1
    isStartSet := loc.isStartSet || args.wantStart
    useValPrev := loc.useValPrev }

/-- How a round of the record loop ends. -/
inductive ParseRound
  /-- There is no further record. -/
  | done
  /-- Go on with the next record. -/
  | next (loc : ParseLocal)
  /-- `break`. -/
  | stop (loc : ParseLocal)
  /-- `goto failed`. -/
  | failed
  /-- The timestamp does not fit into `val`. -/
  | overflow

/-- Where a timestamp lies with respect to the arguments `start` and `end`. -/
def parseVerdict (range : Option (Text × Text)) (val : Text) : HasCommon :=
  match range with
  | none => .common
  | some (start, fin) => timestampHasCommon val val start fin

/-- The part of a round after the timestamp has been copied into `val`; `q` is the
offset of the quote behind it. -/
def parseRecord
    (args : ParseArgs)
    (p q : Nat)
    (loc : ParseLocal)
    (st : ParseStatics) :
    ParseRound × ParseStatics :=
  match parseVerdict args.range st.val with
  | .error => (.next { loc with n := q }, st)
  | .startAfter => (.stop { loc with n := q, useValPrev := true }, st)
  | .endBefore => (.next { loc with n := q }, st)
  | .common =>
      match strstr loc.buf q recordEnd with
      | none => (.failed, st)
      | some e =>
          let loc' := takeRecord args p (e + recordEnd.length) loc
          let st' :=
            if loc.isStartSet = false ∧ args.wantStart = true then { st with logStart := st.val }
            else st
          if (loc'.r : Int) = args.limit then (.stop loc', st') else (.next loc', st')

/-- One round of the record loop of `parse_log`. -/
def parseRound
    (args : ParseArgs)
    (loc : ParseLocal)
    (st : ParseStatics) :
    ParseRound × ParseStatics :=
  match strstr loc.buf loc.n recordStart with
  | none => (.done, st)
  | some p =>
      match strstr loc.buf p tsValStart with
      | none => (.failed, st)
      | some t =>
          let ts := t + tsValStart.length
          match strstr loc.buf ts tsValEnd with
          | none => (.failed, st)
          | some q =>
              if histRecTsMaxLen < q - ts then (.overflow, st)
              else
                parseRecord args p q loc
                  { st with valPrev := st.val, val := (loc.buf.drop ts).take (q - ts) }

/-- The buffers after a timestamp has been copied into `val`. -/
def ParseStatics.copied (st : ParseStatics) (v : Text) : ParseStatics :=
  { st with valPrev := st.val, val := v }

/-- What a round of the record loop can do, whatever the buffers hold. -/
theorem parseRound_cases (args : ParseArgs) (loc : ParseLocal) :
    (strstr loc.buf loc.n recordStart = none ∧ ∀ st, parseRound args loc st = (.done, st)) ∨
    (∀ st, (parseRound args loc st).1 = .failed) ∨
    (∀ st, (parseRound args loc st).1 = .overflow) ∨
    ∃ v q, v.length ≤ histRecTsMaxLen ∧
      ((∀ st, parseRound args loc st = (.next { loc with n := q }, st.copied v)) ∨
      (∀ st, parseRound args loc st =
        (.stop { loc with n := q, useValPrev := true }, st.copied v)) ∨
      ∃ p, ∀ st, parseRound args loc st =
        (if ((takeRecord args p q loc).r : Int) = args.limit then .stop (takeRecord args p q loc)
          else .next (takeRecord args p q loc),
        if loc.isStartSet = false ∧ args.wantStart = true then
          { st.copied v with logStart := v }
        else st.copied v)) := by
  unfold parseRound
  cases strstr loc.buf loc.n recordStart with
  | none => exact .inl ⟨rfl, fun _ => rfl⟩
  | some p =>
    dsimp only
    cases strstr loc.buf p tsValStart with
    | none => exact .inr (.inl fun _ => rfl)
    | some t =>
      dsimp only
      cases strstr loc.buf (t + tsValStart.length) tsValEnd with
      | none => exact .inr (.inl fun _ => rfl)
      | some q =>
        dsimp only
        by_cases hlen : histRecTsMaxLen < q - (t + tsValStart.length)
        · exact .inr (.inr (.inl fun _ => by rw [if_pos hlen]))
        · simp only [if_neg hlen]
          have hv : ((loc.buf.drop (t + tsValStart.length)).take
              (q - (t + tsValStart.length))).length ≤ histRecTsMaxLen := by
            rw [List.length_take]
            omega
          generalize List.take (q - (t + tsValStart.length))
            (List.drop (t + tsValStart.length) loc.buf) = v at hv
          unfold parseRecord
          dsimp only
          cases parseVerdict args.range v with
          | error => exact .inr (.inr (.inr ⟨v, q, hv, .inl fun _ => rfl⟩))
          | endBefore => exact .inr (.inr (.inr ⟨v, q, hv, .inl fun _ => rfl⟩))
          | startAfter => exact .inr (.inr (.inr ⟨v, q, hv, .inr (.inl fun _ => rfl)⟩))
          | common =>
            cases strstr loc.buf q recordEnd with
            | none => exact .inr (.inl fun _ => rfl)
            | some e =>
              refine .inr (.inr (.inr ⟨v, e + recordEnd.length, hv, .inr (.inr ⟨p, ?_⟩)⟩))
              intro st
              dsimp only
              split
              · rfl
              · rfl

/-- What `parse_log` returns: the remaining content, and `*limit`, `*start_ts` and
`*end_ts` as it sets them. -/
structure ParseResult where
  data : Text
  count : Nat
  startTs : Option Text
  endTs : Text
  deriving DecidableEq, Repr

inductive ParseOutcome
  | ok (result : ParseResult)
  | failed
  | overflow
  deriving DecidableEq, Repr

variable {ρ : Type}

/-- The code after the record loop. -/
def parseFinish (args : ParseArgs) (loc : ParseLocal) :
    Resumption ρ ParseStatics ParseOutcome :=
  .step true (fun _ st => st) fun _ st =>
    .ret <| .ok
      { data := loc.buf.take loc.w
        count := loc.r
        startTs := if args.wantStart then some st.logStart else none
        endTs := if loc.useValPrev then st.valPrev else st.val }

/-- The record loop.  Every round moves `n` forward, so the length of the content
bounds the number of rounds. -/
def parseLoop : Nat → ParseArgs → ParseLocal → Resumption ρ ParseStatics ParseOutcome
  | 0, _, _ => .ret .failed
  | fuel + 1, args, loc =>
      .step true (fun _ st => (parseRound args loc st).2) fun _ st =>
        match (parseRound args loc st).1 with
        | .done => parseFinish args loc
        | .next loc' => parseLoop fuel args loc'
        | .stop loc' => parseFinish args loc'
        | .failed => .ret .failed
        | .overflow => .ret .overflow

def parseStart (data : Text) : ParseLocal :=
  { buf := data, n := 0, w := 0, r := 0, isStartSet := false, useValPrev := false }

/-- `parse_log`. -/
def parseLog (args : ParseArgs) (data : Text) : Resumption ρ ParseStatics ParseOutcome :=
  parseLoop (data.length + 1) args (parseStart data)

end History
end Obix
