import Jos.Packets

/-!
The HTTP server of `http.c`.

`httpParse` walks over the request once: the first word must begin with the method, the third with a
version. It reads the byte behind the request, and `strncmp` goes on reading from the start of a word
for as long as the bytes agree, perhaps past the end of the request.
-/

namespace Jos.Http

open CArray

def ascii (s : String) : List UInt8 := s.toList.map fun c => c.toNat.toUInt8

def httpMethod : List UInt8 := ascii "GET"
def httpVer : List UInt8 := ascii "HTTP/1.1"
def httpVerCompatible : List UInt8 := ascii "HTTP/1.0"
def okPage : List UInt8 :=
  ascii "<!DOCTYPE html>\n<html><body><h1>Hello from JOS!</h1></body></html>"

variable {n : ℕ}

/-- `strncmp(a + p, q, k)` where `q` is a literal. -/
def strncmp (a : Arr n) : ℕ → List UInt8 → ℕ → Except Fault ℤ
  | _, _, 0 => .ok 0
  | p, q, k + 1 => do
    let c ← a.rd p
    if c ≠ 0 ∧ c = q.headD 0 then strncmp a (p + 1) q.tail k
    else .ok (c.toNat - (q.headD 0).toNat)

structure StrPart where
  start : ℕ
  length : ℕ

/-- `none` is the null pointer of a part that has not been found. -/
structure HttpHdr where
  method : Option StrPart
  uri : Option StrPart
  httpVersion : Option StrPart

def messages (code : ℤ) : Option (List UInt8) :=
  if code = 200 then some (ascii "200 OK")
  else if code = 400 then some (ascii "400 Bad Request")
  else if code = 404 then some (ascii "404 Not Found")
  else if code = 505 then some (ascii "505 HTTP Version Not Supported")
  else if code = 520 then some (ascii "520 Unknown Error")
  else none

/-- The digits of `pageLen`, put in front of `text` while one of `k` places is left. -/
def pageLenText : ℕ → ℕ → List UInt8 → List UInt8
  | 0, _, text => text
  | k + 1, pageLen, text =>
    if pageLen = 0 then text
    else pageLenText k (pageLen / 10) ((pageLen % 10 + 48).toUInt8 :: text)

/-- The bytes `http_reply` writes before its terminating zero. -/
def replyText (code : ℤ) (page : Option (List UInt8)) : List UInt8 :=
  let code := if code < 100 ∨ 600 ≤ code ∨ (messages code).isNone then 520 else code
  httpVer ++ ascii " " ++ (messages code).getD [] ++ ascii "\nContent-Type: text/html\n" ++
    match page with
    | some page =>
      ascii "Content-Length: " ++ pageLenText 10 page.length [] ++ ascii "\n\n" ++ page
    | none => ascii "\nContent-Length: 0"

/-- The reply buffer and `*reply_len`. -/
def httpReply (code : ℤ) (page : Option (List UInt8)) (reply : Arr n) : Except Fault (Arr n × ℕ) := do
  let reply ← reply.write 0 (replyText code page ++ [0])
  .ok (reply, (replyText code page).length)

/-- The condition under which a third word is answered with 505; the second comparison is
made only if the first one fails. -/
def badVersion (data : Arr n) (wordStart : ℕ) : Except Fault Bool := do
  let d ← strncmp data wordStart httpVer httpVer.length
  if d = 0 then .ok false
  else do
    let d' ← strncmp data wordStart httpVerCompatible httpVerCompatible.length
    .ok (d' ≠ 0)

/-- The loop of `http_parse` at index `i` with `k` rounds to go: a status to reply with, or the header when
the loop is left. -/
def httpScan (data : Arr n) (length : ℕ) : ℕ → ℕ → ℕ → HttpHdr → Except Fault (ℤ ⊕ HttpHdr)
  | 0, _, _, hdr => .ok (.inr hdr)
  | k + 1, i, wordStart, hdr => do
    let c ← data.rd i
    let next := httpScan data length k (i + 1)
    if c = 32 ∨ c = 10 ∨ i = length then
      let wordLen := i - wordStart
      if hdr.method.isNone then
        let d ← strncmp data wordStart httpMethod httpMethod.length
        if d ≠ 0 then return .inl 400
        next (wordStart + wordLen + 1) { hdr with method := some ⟨wordStart, wordLen⟩ }
      else if hdr.uri.isNone then
        next (wordStart + wordLen + 1) { hdr with uri := some ⟨wordStart, wordLen⟩ }
      else if hdr.httpVersion.isNone then
        let bad ← badVersion data wordStart
        if bad then return .inl 505
        return .inr { hdr with httpVersion := some ⟨wordStart, wordLen⟩ }
      else next (wordStart + wordLen + 1) hdr
    else next wordStart hdr

def httpStatus (data : Arr n) (length : ℕ) : Except Fault ℤ := do
  match ← httpScan data length (length + 1) 0 0 ⟨none, none, none⟩ with
  | .inl code => .ok code
  | .inr hdr => if hdr.httpVersion.isNone then .ok 400 else .ok 200

def httpParse {m : ℕ} (data : Arr n) (length : ℕ) (reply : Arr m) : Except Fault (Arr m × ℕ) := do
  let code ← httpStatus data length
  httpReply code (if code = 200 then some okPage else none) reply

variable {code : ℤ} {data : Arr n}

lemma httpScan_inl {length k i wordStart : ℕ} {hdr : HttpHdr}
    (h : httpScan data length k i wordStart hdr = .ok (.inl code)) : code = 400 ∨ code = 505 := by
  induction k generalizing i wordStart hdr with
  | zero => cases h
  | succ k ih =>
    rw [httpScan] at h
    obtain ⟨c, -, h⟩ := bind_eq_ok.mp h
    split_ifs at h
    · obtain ⟨d, -, h⟩ := bind_eq_ok.mp h
      split_ifs at h
      · exact .inl (by cases h; rfl)
      · exact ih h
    · exact ih h
    · obtain ⟨bad, -, h⟩ := bind_eq_ok.mp h
      split_ifs at h
      · exact .inr (by cases h; rfl)
      · cases h
    · exact ih h
    · exact ih h

lemma httpStatus_cases {length : ℕ}
    (h : httpStatus data length = .ok code) : code = 200 ∨ code = 400 ∨ code = 505 := by
  obtain ⟨r, hr, h⟩ := bind_eq_ok.mp h
  cases r with
  | inl c =>
    cases h
    exact .inr (httpScan_inl hr)
  | inr hdr =>
    simp only at h
    split at h <;> cases h
    · exact .inr (.inl rfl)
    · exact .inl rfl

set_option maxRecDepth 4000 in
lemma length_replyText (h : code = 200 ∨ code = 400 ∨ code = 505) :
    (replyText code (if code = 200 then some okPage else none)).length < 256 := by
  rcases h with rfl | rfl | rfl <;> decide

lemma httpParse_eq {m : ℕ} {length : ℕ} (hm : 256 ≤ m)
    (h : httpStatus data length = .ok code) (reply : Arr m) :
    httpParse data length reply =
      .ok (reply.splice 0 (replyText code (if code = 200 then some okPage else none) ++ [0]),
        (replyText code (if code = 200 then some okPage else none)).length) := by
  have hlen := length_replyText (httpStatus_cases h)
  rw [httpParse, h, ok_bind, httpReply, Arr.write_ok _ (by simp; omega), ok_bind]

end Jos.Http
