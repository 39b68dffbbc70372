import Mathlib.Data.List.Basic
import Mathlib.Tactic

/-!
# The FastCGI front end

What `obix_fcgi.c` does to a request before the server sees it: it decodes the
URI and hands the body to the XML parser in chunks.

A string is the list of its bytes with the terminator.  A read behind the end of
that list is a failure, so that a result also says that no look-ahead passes the
terminator.
-/

namespace Obix
namespace Fcgi

section Decoding

/-- `'%'`. -/
def percent : UInt8 := 0x25

/-- `isxdigit` in the C locale. -/
def isXDigit (c : UInt8) : Bool :=
  (0x30 ≤ c && c ≤ 0x39) || (0x41 ≤ c && c ≤ 0x46) || (0x61 ≤ c && c ≤ 0x66)

/-- The value of a hexadecimal digit, lower case letters folded first. -/
def hexValue (a : UInt8) : UInt8 :=
  let a := if 0x61 ≤ a then a - 0x20 else a
  if 0x41 ≤ a then a - 0x37 else a - 0x30

/-- `obix_fcgi_url_decode`: the bytes that are written to `dst`. -/
def obixFcgiUrlDecode : List UInt8 → Option (List UInt8)
  | [] => none
  | c :: src =>
      if c = 0 then some [0]
      else if c = percent then
        match src with
        | [] => none
        | a :: tail =>
            -- a terminator behind the percent sign ends the look-ahead
            if a = 0 then (obixFcgiUrlDecode (a :: tail)).map (c :: ·)
            else
              match tail with
              | [] => none
              | b :: rest =>
                  if b ≠ 0 ∧ isXDigit a = true ∧ isXDigit b = true then
                    (obixFcgiUrlDecode rest).map ((16 * hexValue a + hexValue b) :: ·)
                  else (obixFcgiUrlDecode (a :: b :: rest)).map (c :: ·)
      else (obixFcgiUrlDecode src).map (c :: ·)

end Decoding

section Encoding

/-- How a byte is written in a URL: as it is, or as two digits that may be upper case. -/
inductive UrlForm
  | plain
  | escaped (upper upper' : Bool)
  deriving DecidableEq, Repr

/-- A hexadecimal digit. -/
def hexDigit
    (upper : Bool)
    (n : UInt8) :
    UInt8 :=
  if n < 10 then 0x30 + n
  else if upper then 0x37 + n
  else 0x57 + n

/-- The bytes that stand for a byte. -/
def UrlForm.spell : UrlForm → UInt8 → List UInt8
  | plain, c => [c]
  | escaped upper upper', c => [percent, hexDigit upper (c / 16), hexDigit upper' (c % 16)]

/-- A string whose bytes are written in given forms. -/
def urlEncode (s : List (UInt8 × UrlForm)) : List UInt8 :=
  s.flatMap fun p => p.2.spell p.1

/-- A digit is read back. -/
theorem hexValue_hexDigit
    (upper : Bool)
    {n : UInt8}
    (hn : n < 16) :
    hexValue (hexDigit upper n) = n ∧ isXDigit (hexDigit upper n) = true ∧
      hexDigit upper n ≠ 0 := by
  have hall : ∀ (upper : Bool) (k : Fin 16),
      hexValue (hexDigit upper (UInt8.ofNat k)) = UInt8.ofNat k ∧
        isXDigit (hexDigit upper (UInt8.ofNat k)) = true ∧
        hexDigit upper (UInt8.ofNat k) ≠ 0 := by
    decide
  have h := hall upper ⟨n.toNat, hn⟩
  simpa using h

/-- The two halves of a byte. -/
theorem byte_halves (c : UInt8) : 16 * (c / 16) + c % 16 = c := by
  rw [← UInt8.toNat_inj]
  have := c.toNat_lt
  have h16 : (16 : UInt8).toNat = 16 := rfl
  rw [UInt8.toNat_add, UInt8.toNat_mul, UInt8.toNat_div, UInt8.toNat_mod, h16]
  omega

/-- The terminator ends the string. -/
theorem decode_zero (rest : List UInt8) : obixFcgiUrlDecode (0 :: rest) = some [0] := by
  rw [obixFcgiUrlDecode.eq_def]
  exact if_pos rfl

/-- A percent sign with two characters behind it. -/
theorem decode_percent
    {a : UInt8}
    (ha : a ≠ 0)
    (b : UInt8)
    (rest : List UInt8) :
    obixFcgiUrlDecode (percent :: a :: b :: rest) =
      if b ≠ 0 ∧ isXDigit a = true ∧ isXDigit b = true then
        (obixFcgiUrlDecode rest).map ((16 * hexValue a + hexValue b) :: ·)
      else (obixFcgiUrlDecode (a :: b :: rest)).map (percent :: ·) := by
  have hpercent : percent ≠ 0 := by decide
  rw [obixFcgiUrlDecode.eq_def]
  dsimp only
  rw [if_neg hpercent, if_pos rfl, if_neg ha]

/-- An escaped byte is read back, with what stands behind it. -/
theorem decode_escaped
    (upper upper' : Bool)
    (c : UInt8)
    (rest : List UInt8) :
    obixFcgiUrlDecode ((UrlForm.escaped upper upper').spell c ++ rest) =
      (obixFcgiUrlDecode rest).map (c :: ·) := by
  have hhigh : c / 16 < 16 := by
    have := c.toNat_lt
    have h16 : (16 : UInt8).toNat = 16 := rfl
    rw [UInt8.lt_iff_toNat_lt, UInt8.toNat_div, h16]
    omega
  have hlow : c % 16 < 16 := by
    rw [UInt8.lt_iff_toNat_lt, UInt8.toNat_mod]
    exact Nat.mod_lt _ (by decide)
  obtain ⟨ha, hxa, hnea⟩ := hexValue_hexDigit upper hhigh
  obtain ⟨hb, hxb, hneb⟩ := hexValue_hexDigit upper' hlow
  simp only [UrlForm.spell, List.cons_append, List.nil_append]
  rw [decode_percent hnea, if_pos ⟨hneb, hxa, hxb⟩, ha, hb, byte_halves]

/-- Any other byte stands for itself. -/
theorem decode_plain
    {c : UInt8}
    (hzero : c ≠ 0)
    (hpercent : c ≠ percent)
    (rest : List UInt8) :
    obixFcgiUrlDecode (c :: rest) = (obixFcgiUrlDecode rest).map (c :: ·) := by
  rw [obixFcgiUrlDecode.eq_def]
  exact (if_neg hzero).trans (if_neg hpercent)

theorem decode_urlEncode
    {s : List (UInt8 × UrlForm)}
    (hzero : ∀ p ∈ s, p.1 ≠ 0)
    (hpercent : ∀ p ∈ s, p.1 = percent → p.2 ≠ .plain) :
    obixFcgiUrlDecode (urlEncode s ++ [0]) = some (s.map Prod.fst ++ [0]) := by
  induction s with
  | nil => exact decode_zero []
  | cons p s ih =>
      obtain ⟨c, form⟩ := p
      have ih := ih (fun q hq => hzero q (List.mem_cons_of_mem _ hq))
        fun q hq => hpercent q (List.mem_cons_of_mem _ hq)
      have hsplit : urlEncode ((c, form) :: s) ++ [0] = form.spell c ++ (urlEncode s ++ [0]) := by
        simp [urlEncode]
      rw [hsplit]
      cases form with
      | plain =>
          have hne : c ≠ percent := fun h => hpercent (c, .plain) List.mem_cons_self h rfl
          have hc : c ≠ 0 := hzero (c, .plain) List.mem_cons_self
          simp only [UrlForm.spell, List.singleton_append]
          rw [decode_plain hc hne, ih]
          rfl
      | escaped upper upper' =>
          rw [decode_escaped, ih]
          rfl

/-- What is decoded up to the terminator is no longer than the string. -/
theorem decode_length
    (s : List UInt8) :
    ∀ n, s.length ≤ n → (∀ c ∈ s, c ≠ 0) →
      ∃ out, obixFcgiUrlDecode (s ++ [0]) = some out ∧ out.length ≤ s.length + 1 := by
  intro n
  induction n generalizing s with
  | zero =>
      intro hn _
      obtain rfl := List.length_eq_zero_iff.mp (Nat.le_zero.mp hn)
      exact ⟨[0], decode_zero [], le_rfl⟩
  | succ n ih =>
      intro hn hs
      cases s with
      | nil => exact ⟨[0], decode_zero [], le_rfl⟩
      | cons c s =>
          have hc : c ≠ 0 := hs c List.mem_cons_self
          have hrest : ∀ d ∈ s, d ≠ 0 := fun d hd => hs d (List.mem_cons_of_mem _ hd)
          obtain ⟨out, hout, hlen⟩ := ih s (Nat.le_of_succ_le_succ hn) hrest
          have hone : ∃ out', (obixFcgiUrlDecode (s ++ [0])).map (c :: ·) = some out' ∧
              out'.length ≤ (c :: s).length + 1 :=
            ⟨c :: out, by rw [hout]; rfl, by simpa using hlen⟩
          by_cases hpercent : c = percent
          · subst hpercent
            cases s with
            | nil => exact ⟨[percent, 0], by simp [obixFcgiUrlDecode, hc], by simp⟩
            | cons a s =>
                have ha : a ≠ 0 := hrest a List.mem_cons_self
                simp only [List.cons_append] at hone ⊢
                cases s with
                | nil =>
                    rw [List.nil_append, decode_percent ha, if_neg fun h => h.1 rfl]
                    exact hone
                | cons b s =>
                    rw [List.cons_append, decode_percent ha]
                    split
                    · -- three bytes become one
                      obtain ⟨out', hout', hlen'⟩ := ih s
                        (by simp only [List.length_cons] at hn; omega)
                        fun d hd => hrest d (by simp [hd])
                      refine ⟨(16 * hexValue a + hexValue b) :: out', by rw [hout']; rfl, ?_⟩
                      simp only [List.length_cons]
                      omega
                    · exact hone
          · rw [List.cons_append, decode_plain hc hpercent]
            exact hone

/-- Decoding takes every encoding of a string back, and never makes a string longer. -/
theorem obixFcgiUrlDecode_inverts
    (s : List (UInt8 × UrlForm))
    (hzero : ∀ p ∈ s, p.1 ≠ 0)
    (hpercent : ∀ p ∈ s, p.1 = percent → p.2 ≠ .plain) :
    obixFcgiUrlDecode (urlEncode s ++ [0]) = some (s.map Prod.fst ++ [0]) ∧
      ∀ t : List UInt8, (∀ c ∈ t, c ≠ 0) →
        ∃ out, obixFcgiUrlDecode (t ++ [0]) = some out ∧ out.length ≤ (t ++ [0]).length := by
  refine ⟨decode_urlEncode hzero hpercent, fun t ht => ?_⟩
  obtain ⟨out, hout, hlen⟩ := decode_length t t.length le_rfl ht
  exact ⟨out, hout, by simpa using hlen⟩

/-- A slash as `%2f`, a percent sign as `%25` and a letter. -/
theorem obixFcgiUrlDecode_inverts_slash :
    obixFcgiUrlDecode (urlEncode
      [(0x2f, .escaped false false), (0x25, .escaped true true), (0x61, .plain)] ++ [0]) =
        some [0x2f, 0x25, 0x61, 0] ∧
      ∀ t : List UInt8, (∀ c ∈ t, c ≠ 0) →
        ∃ out, obixFcgiUrlDecode (t ++ [0]) = some out ∧ out.length ≤ (t ++ [0]).length :=
  obixFcgiUrlDecode_inverts _ (by decide) (by decide)

end Encoding

section Reading

/-- `chunkSize`. -/
def chunkSize : Nat := 2048

/-- `FCGX_GetStr`: the next bytes of the body, and what is left of it. -/
def fcgxGetStr
    (n : Nat)
    (body : List UInt8) :
    List UInt8 × List UInt8 :=
  (body.take n, body.drop n)

/-- The buffer after bytes were copied to its beginning. -/
def fill
    (chunk bytes : List UInt8) :
    List UInt8 :=
  bytes ++ chunk.drop bytes.length

/-- The loop of `obix_fcgi_read`: the bytes of each call of `xmlParseChunk`. -/
def readLoop
    (body chunk : List UInt8) :
    List (List UInt8) :=
  let bytes := (fcgxGetStr chunkSize body).1
  let chunk := fill chunk bytes
  if bytes.length = 0 then []
  else
    chunk.take bytes.length ::
      -- a short read is the end of the body
      if bytes.length < chunkSize then [] else readLoop (fcgxGetStr chunkSize body).2 chunk
termination_by body.length
decreasing_by
  have hbytes : bytes.length = min chunkSize body.length := by simp [bytes, fcgxGetStr]
  simp only [fcgxGetStr, List.length_drop]
  omega

/-- `obix_fcgi_read`: the bytes of `xmlCreatePushParserCtxt`, of `xmlParseChunk` in the loop, and
of the call that ends the stream. -/
def obixFcgiRead (body : List UInt8) : List (List UInt8) :=
  let chunk := List.replicate chunkSize 0
  let (bytes, body) := fcgxGetStr chunkSize body
  let chunk := fill chunk bytes
  chunk.take chunkSize :: (readLoop body chunk ++ [chunk.take 0])

/-- The loop passes what is left of the body. -/
theorem flatten_readLoop
    (body chunk : List UInt8) :
    (readLoop body chunk).flatten = body := by
  induction body, chunk using readLoop.induct with
  | case1 body chunk bytes hnone =>
      rw [readLoop, if_pos hnone]
      simp only [fcgxGetStr, List.length_eq_zero_iff, List.take_eq_nil_iff, bytes] at hnone
      exact (hnone.resolve_left (by decide)).symm
  | case2 body chunk bytes chunk' hsome ih =>
      have htake : (fill chunk bytes).take bytes.length = bytes := List.take_left
      rw [readLoop, if_neg hsome, List.flatten_cons, htake]
      split
      · rename_i hshort
        simp only [fcgxGetStr, List.length_take, bytes] at hshort ⊢
        rw [List.flatten_nil, List.append_nil]
        exact List.take_of_length_le (by omega)
      · rename_i hfull
        exact (congrArg (bytes ++ ·) (ih hfull)).trans (List.take_append_drop chunkSize body)

/-- The parser gets the first chunk whole, however little of it the body has filled. -/
theorem flatten_obixFcgiRead (body : List UInt8) :
    (obixFcgiRead body).flatten = body ++ List.replicate (chunkSize - body.length) 0 := by
  have hfirst : (fill (List.replicate chunkSize 0) (body.take chunkSize)).take chunkSize =
      body.take chunkSize ++ List.replicate (chunkSize - body.length) 0 := by
    rw [fill, List.drop_replicate, List.length_take, List.take_of_length_le]
    · congr 2
      omega
    · rw [List.length_append, List.length_replicate, List.length_take]
      omega
  simp only [obixFcgiRead, fcgxGetStr, List.flatten_cons, List.flatten_append, List.take_zero,
    List.flatten_nil, List.append_nil]
  rw [hfirst, flatten_readLoop]
  by_cases hlen : body.length ≤ chunkSize
  · rw [List.take_of_length_le hlen, List.drop_eq_nil_of_le hlen, List.append_nil]
  · rw [Nat.sub_eq_zero_of_le (by omega), List.replicate_zero, List.append_nil, List.append_nil,
      List.take_append_drop]

/-- The parser sees the body exactly when it fills the first chunk. -/
theorem obixFcgiRead_sees_iff (body : List UInt8) :
    (obixFcgiRead body).flatten = body ↔ chunkSize ≤ body.length := by
  rw [flatten_obixFcgiRead]
  constructor
  · intro h
    have hlen := congrArg List.length h
    simp only [List.length_append, List.length_replicate] at hlen
    omega
  · intro h
    rw [Nat.sub_eq_zero_of_le h, List.replicate_zero, List.append_nil]

/-- `<obj/>` is followed by zeros. -/
theorem obixFcgiRead_adds :
    ¬ (obixFcgiRead [0x3c, 0x6f, 0x62, 0x6a, 0x2f, 0x3e]).flatten =
      [0x3c, 0x6f, 0x62, 0x6a, 0x2f, 0x3e] := by
  rw [flatten_obixFcgiRead]
  intro h
  have hlen := congrArg List.length h
  rw [List.length_append, List.length_replicate] at hlen
  exact absurd hlen (by decide)

end Reading

end Fcgi
end Obix
