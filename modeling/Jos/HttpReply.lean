import Jos.Http

/-!
The frame of an HTTP reply: a status line, header lines, a blank line and the body.

`http_reply` writes the length of the body from its last digit to its first into ten places. With no
page it puts the blank line before the length, and for an empty page it writes no digit at all.
-/

namespace Jos.HttpReply

open CArray Http List

def IsDigit (c : UInt8) : Prop := 48 ≤ c ∧ c ≤ 57
  deriving Decidable

def value (text : List UInt8) : ℕ := text.foldl (fun v c => v * 10 + (c.toNat - 48)) 0

def decimal (text : List UInt8) : Option ℕ :=
  if text ≠ [] ∧ text.all (IsDigit ·) then some (value text) else none

lemma value_snoc (text : List UInt8) (c : UInt8) : value (text ++ [c]) = value text * 10 + (c.toNat - 48) := by
  simp [value]

lemma toNat_digit (d : ℕ) : (d % 10 + 48).toUInt8.toNat = d % 10 + 48 :=
  UInt8.toNat_ofNat_of_lt' (by simp [UInt8.size]; omega)

lemma pageLenText_append (k pageLen : ℕ) (text : List UInt8) :
    pageLenText k pageLen text = pageLenText k pageLen [] ++ text := by
  induction k generalizing pageLen text with
  | zero => rfl
  | succ k ih =>
    unfold pageLenText
    split_ifs
    · rfl
    · rw [ih, ih _ [_], append_assoc]
      rfl

lemma pageLenText_succ {k pageLen : ℕ} (h : pageLen ≠ 0) :
    pageLenText (k + 1) pageLen [] = pageLenText k (pageLen / 10) [] ++ [(pageLen % 10 + 48).toUInt8] := by
  rw [pageLenText, if_neg h, pageLenText_append]

lemma value_pageLenText (k pageLen : ℕ) : value (pageLenText k pageLen []) = pageLen % 10 ^ k := by
  induction k generalizing pageLen with
  | zero => simp [pageLenText, value, Nat.mod_one]
  | succ k ih =>
    by_cases h : pageLen = 0
    · simp [h, pageLenText, value]
    · rw [pageLenText_succ h, value_snoc, ih, toNat_digit, Nat.pow_succ', Nat.mod_mul]
      omega

lemma isDigit_of_mem {k pageLen : ℕ} {c : UInt8} (h : c ∈ pageLenText k pageLen []) : IsDigit c := by
  induction k generalizing pageLen with
  | zero => cases h
  | succ k ih =>
    by_cases h0 : pageLen = 0
    · rw [pageLenText, if_pos h0] at h
      cases h
    · rw [pageLenText_succ h0, mem_append, mem_singleton] at h
      rcases h with h | rfl
      · exact ih h
      · constructor
        all_goals
          rw [UInt8.le_iff_toNat_le, toNat_digit]
          simp
          try omega

lemma decimal_pageLenText (pageLen : ℕ) :
    decimal (pageLenText 10 pageLen []) = some pageLen ↔ 0 < pageLen ∧ pageLen < 10 ^ 10 := by
  unfold decimal
  rcases Nat.eq_zero_or_pos pageLen with rfl | hpos
  · simp [pageLenText]
  · have hne : pageLenText 10 pageLen [] ≠ [] := by
      rw [pageLenText_succ (by omega)]
      simp
    have hall : (pageLenText 10 pageLen []).all (IsDigit ·) :=
      all_eq_true.mpr fun _ hc => decide_eq_true (isDigit_of_mem hc)
    rw [if_pos ⟨hne, hall⟩, value_pageLenText, Option.some.injEq, Nat.mod_eq_iff_lt (by decide)]
    simp [hpos]

def block (lines : List (List UInt8)) : List UInt8 := lines.flatMap (· ++ [10])

lemma block_cons (l : List UInt8) (ls : List (List UInt8)) : block (l :: ls) = l ++ 10 :: block ls := by
  simp [block]

lemma line_inj {l l' r r' : List UInt8} (h : 10 ∉ l) (h' : 10 ∉ l') (heq : l ++ 10 :: r = l' ++ 10 :: r') :
    l = l' ∧ r = r' := by
  induction l generalizing l' with
  | nil =>
    cases l' with
    | nil => exact ⟨rfl, (cons.inj heq).2⟩
    | cons c l' => exact absurd (cons.inj heq).1 (fun hc => h' (by simp [hc]))
  | cons c l ih =>
    cases l' with
    | nil => exact absurd (cons.inj heq).1 (fun hc => h (by simp [hc]))
    | cons c' l' =>
      obtain ⟨rfl, htail⟩ := cons.inj heq
      obtain ⟨rfl, rfl⟩ := ih (fun hc => h (by simp [hc])) (fun hc => h' (by simp [hc])) htail
      exact ⟨rfl, rfl⟩

lemma block_inj {ls ls' : List (List UInt8)} (h : ∀ l ∈ ls, 10 ∉ l) (h' : ∀ l ∈ ls', 10 ∉ l)
    (heq : block ls = block ls') : ls = ls' := by
  induction ls generalizing ls' with
  | nil =>
    cases ls' with
    | nil => rfl
    | cons l' ls' => simp [block] at heq
  | cons l ls ih =>
    cases ls' with
    | nil => simp [block] at heq
    | cons l' ls' =>
      rw [block_cons, block_cons] at heq
      obtain ⟨rfl, hrest⟩ := line_inj (h l (by simp)) (h' l' (by simp)) heq
      rw [ih (fun l hl => h l (by simp [hl])) (fun l hl => h' l (by simp [hl])) hrest]

def IsStatusLine (line : List UInt8) : Prop :=
  ∃ code reason, code.length = 3 ∧ (∀ c ∈ code, IsDigit c) ∧ line = httpVer ++ ascii " " ++ code ++ ascii " " ++ reason

def IsHeader (line : List UInt8) : Prop :=
  ∃ name val, name ≠ [] ∧ 58 ∉ name ∧ line = name ++ ascii ": " ++ val

def contentLength (text : List UInt8) : List UInt8 := ascii "Content-Length: " ++ text

/-- A status line, headers and a body make up the reply, and the headers give the length of the body. -/
structure Framed (reply : List UInt8) (status : List UInt8) (headers : List (List UInt8))
    (body : List UInt8) : Prop where
  text : reply = block (status :: headers) ++ [10] ++ body
  lines : ∀ l ∈ status :: headers, 10 ∉ l
  statusLine : IsStatusLine status
  headerLines : ∀ l ∈ headers, IsHeader l
  stated : ∃ digits, contentLength digits ∈ headers
  length : ∀ digits, contentLength digits ∈ headers → decimal digits = some body.length

/-- **The reply is well framed.** -/
def WellFramed (reply body : List UInt8) : Prop := ∃ status headers, Framed reply status headers body

def statusLine (code : ℤ) : List UInt8 :=
  httpVer ++ ascii " " ++ (messages (if code < 100 ∨ 600 ≤ code ∨ (messages code).isNone then 520 else code)).getD []

def typeLine : List UInt8 := ascii "Content-Type: text/html"

lemma messages_cases (code : ℤ) :
    ∃ msg, messages (if code < 100 ∨ 600 ≤ code ∨ (messages code).isNone then 520 else code) = some msg ∧
      msg ∈ [ascii "200 OK", ascii "400 Bad Request", ascii "404 Not Found",
        ascii "505 HTTP Version Not Supported", ascii "520 Unknown Error"] := by
  split_ifs with h
  · exact ⟨_, rfl, by simp⟩
  · have hsome : messages code ≠ none := fun h0 => h (.inr (.inr (by simp [h0])))
    obtain ⟨msg, hmsg⟩ := Option.ne_none_iff_exists'.mp hsome
    refine ⟨msg, hmsg, ?_⟩
    unfold messages at hmsg
    split_ifs at hmsg <;> cases hmsg <;> simp

lemma isStatusLine_statusLine (code : ℤ) : IsStatusLine (statusLine code) ∧ 10 ∉ statusLine code := by
  obtain ⟨msg, hmsg, hmem⟩ := messages_cases code
  rw [statusLine, hmsg, Option.getD_some]
  clear hmsg
  have hshape : (msg.take 3).length = 3 ∧ (msg.take 3).all (IsDigit ·) ∧
      msg = msg.take 3 ++ ascii " " ++ msg.drop 4 ∧ 10 ∉ httpVer ++ ascii " " ++ msg := by
    revert msg
    decide
  obtain ⟨h1, h2, h3, h4⟩ := hshape
  refine ⟨⟨msg.take 3, msg.drop 4, h1, fun c hc => of_decide_eq_true (all_eq_true.mp h2 c hc), ?_⟩, h4⟩
  conv_lhs => rw [h3]
  simp [append_assoc]

lemma replyText_some (code : ℤ) (page : List UInt8) : replyText code (some page) =
      block [statusLine code, typeLine, contentLength (pageLenText 10 page.length [])] ++ [10] ++ page := by
  have h1 : ascii "\nContent-Type: text/html\n" = 10 :: (typeLine ++ [10]) := by decide
  have h2 : ascii "\n\n" = [10, 10] := by decide
  simp only [replyText, h1, h2, block_cons, statusLine, contentLength]
  simp [block, append_assoc]

lemma lines_some (code : ℤ) (pageLen : ℕ) :
    ∀ l ∈ [statusLine code, typeLine, contentLength (pageLenText 10 pageLen [])], 10 ∉ l := by
  intro l hl
  rcases mem_cons.mp hl with rfl | hl
  · exact (isStatusLine_statusLine code).2
  rcases mem_pair.mp hl with rfl | rfl
  · decide
  · intro hmem
    rcases mem_append.mp hmem with h | h
    · revert h
      decide
    · exact absurd (isDigit_of_mem h) (by decide)

lemma isHeader_typeLine : IsHeader typeLine := ⟨ascii "Content-Type", ascii "text/html", by decide, by decide, by decide⟩

lemma isHeader_contentLength (text : List UInt8) : IsHeader (contentLength text) :=
  ⟨ascii "Content-Length", text, by decide, by decide, by
    rw [contentLength, show ascii "Content-Length: " = ascii "Content-Length" ++ ascii ": " by decide]⟩

lemma contentLength_ne_typeLine (digits : List UInt8) : contentLength digits ≠ typeLine := by
  intro h
  have := congrArg (fun l => l.take 9) h
  revert this
  rw [contentLength, typeLine, take_append_of_le_length (by decide)]
  decide

lemma wellFramed_some_iff (code : ℤ) (page : List UInt8) :
    WellFramed (replyText code (some page)) page ↔ 0 < page.length ∧ page.length < 10 ^ 10 := by
  rw [← decimal_pageLenText]
  constructor
  · rintro ⟨status, headers, h⟩
    have heq := h.text
    rw [replyText_some, append_cancel_right_eq, append_cancel_right_eq] at heq
    obtain ⟨-, rfl⟩ := cons.inj (block_inj (lines_some code _) h.lines heq)
    exact h.length _ (by simp)
  · intro hdec
    refine ⟨statusLine code, _, replyText_some code page, lines_some code _, (isStatusLine_statusLine code).1,
      ?_, ⟨_, mem_cons_of_mem _ (mem_singleton_self _)⟩, ?_⟩
    · intro l hl
      rcases mem_pair.mp hl with rfl | rfl
      · exact isHeader_typeLine
      · exact isHeader_contentLength _
    · intro digits hmem
      rcases mem_pair.mp hmem with h | h
      · exact absurd h (contentLength_ne_typeLine digits)
      · rw [append_cancel_left h, hdec]

lemma not_wellFramed_none (code : ℤ) : ¬WellFramed (replyText code none) [] := by
  rintro ⟨status, headers, h⟩
  have heq := congrArg getLast? h.text
  rw [append_nil, getLast?_concat, replyText,
    show ascii "\nContent-Length: 0" = ascii "\nContent-Length: " ++ [48] by decide] at heq
  simp only [← append_assoc, getLast?_concat] at heq
  revert heq
  decide

/-- **`http_reply` writes a well framed reply exactly for a page that has a character and fewer than
`10 ^ 10` of them**; whatever it writes, `*reply_len` is the number of the bytes before the zero. -/
theorem http_reply_well_framed_iff {m : ℕ} (code : ℤ) (page : Option (List UInt8)) (reply : Arr m)
    (hfit : (replyText code page).length < m) :
    ∃ text, httpReply code page reply = .ok (reply.splice 0 (text ++ [0]), text.length) ∧
      (WellFramed text (page.getD []) ↔ ∃ p, page = some p ∧ 0 < p.length ∧ p.length < 10 ^ 10) := by
  refine ⟨replyText code page, ?_, ?_⟩
  · rw [httpReply, Arr.write_ok _ (by simp; omega), ok_bind]
  · cases page with
    | none =>
      refine iff_of_false (not_wellFramed_none code) ?_
      rintro ⟨p, h, -⟩
      cases h
    | some p =>
      rw [Option.getD_some, wellFramed_some_iff]
      simp

set_option maxRecDepth 4000 in
theorem http_reply_well_framed_okPage :
    ∃ text, httpReply 200 (some okPage) (Arr.zero 256) = .ok ((Arr.zero 256).splice 0 (text ++ [0]), text.length) ∧
      WellFramed text okPage := by
  obtain ⟨text, h1, h2⟩ := http_reply_well_framed_iff 200 (some okPage) (Arr.zero 256) (by decide)
  exact ⟨text, h1, h2.mpr ⟨okPage, rfl, by decide, by decide⟩⟩

set_option maxRecDepth 4000 in
/-- The reply to a bad request has its length behind the blank line. -/
theorem error_reply_misframed :
    httpReply 400 none (Arr.zero 256) =
        .ok ((Arr.zero 256).splice 0 (replyText 400 none ++ [0]), (replyText 400 none).length) ∧
      replyText 400 none =
        ascii "HTTP/1.1 400 Bad Request\nContent-Type: text/html\n\nContent-Length: 0" ∧
      ¬WellFramed (replyText 400 none) [] :=
  ⟨by rw [httpReply, Arr.write_ok _ (by decide), ok_bind], by decide, not_wellFramed_none 400⟩

end Jos.HttpReply
