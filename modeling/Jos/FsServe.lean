import Jos.FsModel
import Mathlib.Logic.Function.Basic

/-!
The file server, as `serv.c` has it: one request of a client at a time.

A request comes with a page, which the server has at `fsreq`, directly below the disk. The pages with
the file descriptors are shared with the clients, who may write anything there between two
requests; so may the number of mappings of such a page change.
-/

namespace Jos.FsServe

open ByteMem Fs

def pageSize : ℕ := 4096
def fsreq : ℕ := 0x0FFFF000
def maxOpen : ℕ := 512
def fileBase : ℕ := 0x200000000
def maxPathLen : ℕ := 1024

def eMaxOpen : ℤ := 14

def oAccMode : BitVec 32 := 0x3#32
def oCreat : BitVec 32 := 0x100#32
def oTrunc : BitVec 32 := 0x200#32
def oExcl : BitVec 32 := 0x400#32

/-- `devfile.dev_id`. -/
def devfileId : BitVec 32 := 0x66#32

/-- The 64-bit word at `a`. -/
def get64 (m : Bytes) (a : ℕ) : ℕ := (get32 m a).toNat + 2 ^ 32 * (get32 m (a + 4)).toNat

/-- `opentab[i].o_fd`, a page. -/
def fdPage (i : ℕ) : ℕ := fileBase + pageSize * i

/-- `&fd->fd_offset`. -/
def offsetField (i : ℕ) : ℕ := fdPage i + 4

/-- `fd->fd_offset`. -/
def fdOffset (m : Bytes) (i : ℕ) : ℤ := (get32 m (offsetField i)).toInt

/-- An entry of `opentab`. Its page is that of its index, and its mode is never looked at. -/
structure OpenFile where
  fileid : BitVec 32
  file : ℕ

structure Server where
  mem : Bytes
  opentab : ℕ → OpenFile

/-- A request: its number, its page, what the clients have in the pages of the file descriptors, their
mappings, and what `sys_alloc_region` returns. -/
structure Request where
  req : BitVec 32
  page : Bytes
  fds : Bytes
  refs : ℕ → ℕ
  alloc : ℤ

def receive (m : Bytes) (r : Request) : Bytes := fun x =>
  if fsreq ≤ x ∧ x < fsreq + pageSize then r.page (x - fsreq)
  else if fileBase ≤ x ∧ x < fileBase + pageSize * maxOpen then r.fds (x - fileBase)
  else m x

def Server.set (s : Server) (m : Bytes) : Server := { s with mem := m }

def openfileLookup (r : Request) (s : Server) (fileid : BitVec 32) : Option ℕ :=
  let i := fileid.toNat % maxOpen
  if r.refs i ≤ 1 ∨ (s.opentab i).fileid ≠ fileid then none else some i

def openfileAlloc (r : Request) : Except ℤ ℕ :=
  match (List.range maxOpen).find? fun i => decide (r.refs i ≤ 1) with
  | none => .error (-eMaxOpen)
  | some i => if r.refs i = 0 ∧ r.alloc < 0 then .error r.alloc else .ok i

/-- What `openfile_alloc` does to the entry it takes. -/
def Server.take (s : Server) (i : ℕ) : Server where
  mem := fill s.mem (fdPage i) pageSize 0
  opentab := Function.update s.opentab i
    { s.opentab i with fileid := (s.opentab i).fileid + BitVec.ofNat 32 maxOpen }

/-! ### The handlers

Each returns the server after it and the `int` that is sent to the client. -/

def reqPath (m : Bytes) : List UInt8 :=
  ((List.range (maxPathLen - 1)).map fun k => m (fsreq + k)).takeWhile (· != 0)

/-- The file that is opened or created, without truncation. -/
def openOrCreate (path : List UInt8) (omode : BitVec 32) (m : Bytes) : Except Stop (Reply ℕ) :=
  if omode &&& oCreat ≠ 0 then do
    match ← fileCreate path m with
    | (m, .error e) =>
      if omode &&& oExcl = 0 ∧ e = -eFileExists then fileOpen path m else .ok (m, .error e)
    | (m, .ok f) => .ok (m, .ok f)
  else fileOpen path m

def serveOpen (r : Request) (s : Server) : Except Stop (Server × ℤ) :=
  let path := reqPath s.mem
  let omode := get32 s.mem (fsreq + maxPathLen)
  match openfileAlloc r with
  | .error e => .ok (s, e)
  | .ok i =>
    let s := s.take i
    let fileid := (s.opentab i).fileid
    -- the id itself is what `openfile_alloc` returns, and is taken for an error code
    if fileid.toInt < 0 then .ok (s, fileid.toInt)
    else do
      match ← openOrCreate path omode s.mem with
      | (m, .error e) => .ok (s.set m, e)
      | (m, .ok f) =>
        let m ← if omode &&& oTrunc ≠ 0 then fileSetSize f 0 m else .ok m
        match ← fileOpen path m with
        | (m, .error e) => .ok (s.set m, e)
        | (m, .ok f) =>
          let m := set32 m (fdPage i + 12) fileid
          let m := set32 m (fdPage i + 8) (omode &&& oAccMode)
          let m := set32 m (fdPage i) devfileId
          .ok (⟨m, Function.update s.opentab i ⟨fileid, f⟩⟩, 0)

def withFile (r : Request) (s : Server) (k : ℕ → ℕ → Except Stop (Server × ℤ)) :
    Except Stop (Server × ℤ) :=
  match openfileLookup r s (get32 s.mem fsreq) with
  | none => .ok (s, -eInval)
  | some i => if (s.opentab i).file = 0 then .error .nullFile else k i (s.opentab i).file

def serveSetSize (r : Request) (s : Server) : Except Stop (Server × ℤ) :=
  withFile r s fun _ f => do
    let m ← fileSetSize f (get32 s.mem (fsreq + 4)).toInt s.mem
    .ok (s.set m, 0)

/-- The end of `serve_read` and `serve_write`: the position moves on by what was read or written. -/
def advance (s : Server) (i : ℕ) (t : Transfer ℤ) : Except Stop (Server × ℤ) :=
  match t.result with
  | .error e => .error e
  | .ok n =>
    if n < 0 then .ok (s.set t.mem, Int.bmod n (2 ^ 32))
    else .ok (s.set (set32 t.mem (offsetField i) (get32 t.mem (offsetField i) + BitVec.ofInt 32 n)),
      Int.bmod n (2 ^ 32))

/-- The call of `file_read`. -/
def readCall (s : Server) (i f : ℕ) : Transfer ℤ :=
  fileRead f fsreq (get64 s.mem (fsreq + 8)) (fdOffset s.mem i) s.mem

def serveRead (r : Request) (s : Server) : Except Stop (Server × ℤ) :=
  withFile r s fun i f => advance s i (readCall s i f)

/-- The call of `file_write`. -/
def writeCall (s : Server) (i f : ℕ) : Transfer ℤ :=
  fileWrite f (fsreq + 16) (get64 s.mem (fsreq + 8)) (fdOffset s.mem i) s.mem

def serveWrite (r : Request) (s : Server) : Except Stop (Server × ℤ) :=
  withFile r s fun i f => advance s i (writeCall s i f)

def cString (m : Bytes) : ℕ → ℕ → List UInt8
  | 0, _ => []
  | n + 1, a => if m a = 0 then [] else m a :: cString m n (a + 1)

def serveStat (r : Request) (s : Server) : Except Stop (Server × ℤ) :=
  withFile r s fun _ f =>
    let m := put s.mem fsreq (cString s.mem (2 ^ 64) f ++ [0])
    let m := set32 m (fsreq + maxNameLen) (get32 m (sizeField f))
    let m := set32 m (fsreq + maxNameLen + 4) (if fType m f = ftypeDir then 1 else 0)
    .ok (s.set m, 0)

def serveFlush (r : Request) (s : Server) : Except Stop (Server × ℤ) :=
  withFile r s fun _ f => do
    let _ ← fileFlush f s.mem
    .ok (s, 0)

/-- One round of the loop of `serve`. The requests have the numbers of the `FSREQ_` constants; there is no
handler for 7, and 8 writes all blocks back. -/
def serve (s : Server) (r : Request) : Except Stop (Server × ℤ) :=
  let s := s.set (receive s.mem r)
  match r.req.toNat with
  | 1 => serveOpen r s
  | 2 => serveSetSize r s
  | 3 => serveRead r s
  | 4 => serveWrite r s
  | 5 => serveStat r s
  | 6 => serveFlush r s
  | 8 => .ok (s, 0)
  | _ => .ok (s, -eInval)

end Jos.FsServe
