import Jos.ByteMem
import Jos.CArray

/-!
The file system on disk, as the functions of `fs.c` work on it.

The file server maps block `n` of the disk at `DISKMAP + n * BLKSIZE` of its own address space
and works on it in place, so that the disk is a range of the server's memory and a
`struct File *` is an address. All blocks are taken as loaded by the block cache. `flush_block`
changes no byte of the memory: which blocks are written is said for `file_flush` only.
-/

namespace Jos.Fs

open ByteMem CArray

def blkSize : ℕ := 4096
def diskMap : ℕ := 0x10000000
def diskSize : ℕ := 0xC0000000
def nDirect : ℕ := 10
def nIndirect : ℕ := 1024
def maxFileSize : ℕ := (nDirect + nIndirect) * blkSize
def maxNameLen : ℕ := 128
def blkFiles : ℕ := 16
def sizeofFile : ℕ := 256

/-- `FTYPE_DIR`. -/
def ftypeDir : BitVec 32 := 1#32

def eInval : ℤ := 3
def eNoDisk : ℤ := 13
def eNotFound : ℤ := 15
def eBadPath : ℤ := 16
def eFileExists : ℤ := 17

/-- Where block `b` is mapped. -/
def blockAddr (b : ℕ) : ℕ := diskMap + blkSize * b

/-- `super`. -/
def superAddr : ℕ := blockAddr 1

/-- `bitmap`. -/
def bitmapAddr : ℕ := blockAddr 2

/-- `super->s_nblocks`. -/
def nblocks (m : Bytes) : ℕ := (get32 m (superAddr + 4)).toNat

/-- `&super->s_root`. -/
def rootFile : ℕ := superAddr + 8

/-- `&f->f_size`. -/
def sizeField (f : ℕ) : ℕ := f + 128

/-- `&f->f_direct[i]`. -/
def directField (f i : ℕ) : ℕ := f + 136 + 4 * i

/-- `&f->f_indirect`. -/
def indirectField (f : ℕ) : ℕ := f + 176

def fSize (m : Bytes) (f : ℕ) : ℤ := (get32 m (sizeField f)).toInt
def fType (m : Bytes) (f : ℕ) : BitVec 32 := get32 m (f + 132)
def fIndirect (m : Bytes) (f : ℕ) : ℕ := (get32 m (indirectField f)).toNat

inductive Stop
  /-- The panic of `diskaddr` and of the block cache for a block that is not on the disk. -/
  | badBlock
  /-- The panic of `free_block`. -/
  | zeroBlock
  /-- The size of a directory is not a multiple of the block size. -/
  | assertion
  /-- A null `struct File *` is followed. -/
  | nullFile
  /-- A loop that does not end; `transferLoop` never gets there. -/
  | forever
  deriving DecidableEq, Repr

abbrev Reply (α : Type) := Bytes × Except ℤ α

def diskaddr (m : Bytes) (b : ℕ) : Except Stop ℕ :=
  if b = 0 ∨ nblocks m ≤ b then .error .badBlock else .ok (blockAddr b)

/-- No byte of the range belongs to a block past the end of the disk, which the block cache
refuses to load. -/
def Loadable (m : Bytes) (a len : ℕ) : Prop :=
  len = 0 ∨ a + len ≤ blockAddr (nblocks m) ∨ diskMap + diskSize ≤ a
  deriving Decidable

/-- The word of the bitmap with the bit of block `b`. -/
def bitWord (b : ℕ) : ℕ := bitmapAddr + 4 * (b / 32)

def tstbit (m : Bytes) (b : ℕ) : Prop := get32 m (bitWord b) &&& bit (b % 32) ≠ 0
  deriving Decidable

def setbit (m : Bytes) (b : ℕ) : Bytes :=
  set32 m (bitWord b) (get32 m (bitWord b) ||| bit (b % 32))

def clrbit (m : Bytes) (b : ℕ) : Bytes :=
  set32 m (bitWord b) (get32 m (bitWord b) &&& ~~~ bit (b % 32))

def blockIsFree (m : Bytes) (b : ℕ) : Prop := b < nblocks m ∧ tstbit m b
  deriving Decidable

def freeBlock (b : ℕ) (m : Bytes) : Except Stop Bytes :=
  if b = 0 then .error .zeroBlock
  else if Loadable m (bitWord b) 4 then .ok (setbit m b)
  else .error .badBlock

/-- The block is `0` if there is none. -/
def allocBlock (m : Bytes) : Bytes × ℕ :=
  match (List.range (nblocks m)).find? fun b => decide (blockIsFree m b) with
  | some b => (clrbit m b, b)
  | none => (m, 0)

def fileBlockWalk (f filebno : ℕ) (alloc : Bool) (m : Bytes) : Except Stop (Reply ℕ) :=
  if nDirect + nIndirect ≤ filebno then .ok (m, .error (-eInval))
  else if filebno < nDirect then .ok (m, .ok (directField f filebno))
  else if fIndirect m f = 0 then
    if alloc then
      let (m, block) := allocBlock m
      if block = 0 then .ok (m, .error (-eNoDisk))
      else do
        let m := set32 m (indirectField f) (BitVec.ofNat 32 block)
        let a ← diskaddr m (fIndirect m f)
        let m := fill m a blkSize 0
        let indirect ← diskaddr m (fIndirect m f)
        .ok (m, .ok (indirect + 4 * (filebno - nDirect)))
    else .ok (m, .error (-eNotFound))
  else do
    let indirect ← diskaddr m (fIndirect m f)
    .ok (m, .ok (indirect + 4 * (filebno - nDirect)))

/-- A new block keeps the bytes it has on the disk: only indirect blocks are cleared. -/
def fileGetBlock (f filebno : ℕ) (m : Bytes) : Except Stop (Reply ℕ) := do
  match ← fileBlockWalk f filebno true m with
  | (m, .error e) => .ok (m, .error e)
  | (m, .ok pdiskbno) =>
    if get32 m pdiskbno = 0 then
      let (m, block) := allocBlock m
      if block = 0 then .ok (m, .error (-eNoDisk))
      else do
        let m := set32 m pdiskbno (BitVec.ofNat 32 block)
        let blk ← diskaddr m (get32 m pdiskbno).toNat
        .ok (m, .ok blk)
    else do
      let blk ← diskaddr m (get32 m pdiskbno).toNat
      .ok (m, .ok blk)

/-- `strcmp(f->f_name, name) == 0`. -/
def nameIs (name : List UInt8) (m : Bytes) (f : ℕ) : Prop :=
  ∀ k < name.length + 1, m (f + k) = name.getD k 0

instance (name : List UInt8) (m : Bytes) (f : ℕ) : Decidable (nameIs name m f) :=
  inferInstanceAs (Decidable (∀ k < _, _))

def records (blk : ℕ) : List ℕ := (List.range blkFiles).map fun j => blk + sizeofFile * j

/-- The loop of `dir_lookup` and `dir_alloc_file`: the first record with `p` in the `n` blocks from
block `i` on. -/
def dirScan (dir : ℕ) (p : Bytes → ℕ → Bool) : ℕ → ℕ → Bytes → Except Stop (Reply (Option ℕ))
  | 0, _, m => .ok (m, .ok none)
  | n + 1, i, m => do
    match ← fileGetBlock dir i m with
    | (m, .error e) => .ok (m, .error e)
    | (m, .ok blk) =>
      match (records blk).find? (p m) with
      | some file => .ok (m, .ok (some file))
      | none => dirScan dir p n (i + 1) m

/-- `dir->f_size / BLKSIZE`, as a `blockno_t`. -/
def dirBlocks (m : Bytes) (dir : ℕ) : ℕ := (((fSize m dir).tdiv blkSize) % 2 ^ 32).toNat

def dirLookup (dir : ℕ) (name : List UInt8) (m : Bytes) : Except Stop (Reply ℕ) :=
  if (fSize m dir).tmod blkSize = 0 then do
    match ← dirScan dir (fun m f => nameIs name m f) (dirBlocks m dir) 0 m with
    | (m, .error e) => .ok (m, .error e)
    | (m, .ok (some file)) => .ok (m, .ok file)
    | (m, .ok none) => .ok (m, .error (-eNotFound))
  else .error .assertion

def dirAllocFile (dir : ℕ) (m : Bytes) : Except Stop (Reply ℕ) :=
  if (fSize m dir).tmod blkSize = 0 then do
    let nblock := dirBlocks m dir
    match ← dirScan dir (fun m f => m f = 0) nblock 0 m with
    | (m, .error e) => .ok (m, .error e)
    | (m, .ok (some file)) => .ok (m, .ok file)
    | (m, .ok none) =>
      let m := set32 m (sizeField dir) (get32 m (sizeField dir) + BitVec.ofNat 32 blkSize)
      fileGetBlock dir nblock m
  else .error .assertion

def slash : UInt8 := 47

def skipSlash (path : List UInt8) : List UInt8 := path.dropWhile (· == slash)

/-- How `walk_path` ends: with the file, without it but with the directory it would be in, or with
neither. -/
inductive Walk
  | found (file : ℕ)
  | missing (dir : ℕ) (name : List UInt8)
  | fails (e : ℤ)
  deriving DecidableEq, Repr

/-- What `walk_path` returns and stores; `lastelem` is `none` where nothing is copied there. -/
structure WalkOut where
  result : ℤ
  pf : ℕ
  pdir : ℕ
  lastelem : Option (List UInt8)
  deriving DecidableEq, Repr

def WalkOut.fail (e : ℤ) : WalkOut := ⟨e, 0, 0, none⟩

/-- The loop of `walk_path`, for the directory and the file it has come to; every round takes at least one character. -/
def walkOutFrom : ℕ → List UInt8 → ℕ → ℕ → Bytes → Except Stop (Bytes × WalkOut)
  | 0, _, dir, f, m => .ok (m, ⟨0, f, dir, none⟩)
  | _ + 1, [], dir, f, m => .ok (m, ⟨0, f, dir, none⟩)
  | n + 1, path, _, dir, m =>
    let name := path.takeWhile (· != slash)
    let rest := skipSlash (path.dropWhile (· != slash))
    if maxNameLen ≤ name.length then .ok (m, .fail (-eBadPath))
    else if fType m dir ≠ ftypeDir then .ok (m, .fail (-eNotFound))
    else do
      match ← dirLookup dir name m with
      | (m, .ok f) => walkOutFrom n rest dir f m
      | (m, .error e) =>
        if e = -eNotFound ∧ rest = [] then .ok (m, ⟨e, 0, dir, some name⟩) else .ok (m, .fail e)

def walkPathOut (path : List UInt8) (m : Bytes) : Except Stop (Bytes × WalkOut) :=
  walkOutFrom path.length (skipSlash path) 0 rootFile m

def WalkOut.walk (o : WalkOut) : Walk :=
  match o.lastelem with
  | some name => .missing o.pdir name
  | none => if o.result = 0 then .found o.pf else .fails o.result

def walkPath (path : List UInt8) (m : Bytes) : Except Stop (Bytes × Walk) := do
  let r ← walkPathOut path m
  .ok (r.1, r.2.walk)

/-- Of the record that is found free only the name is written. -/
def fileCreate (path : List UInt8) (m : Bytes) : Except Stop (Reply ℕ) := do
  match ← walkPath path m with
  | (m, .found _) => .ok (m, .error (-eFileExists))
  | (m, .fails e) => .ok (m, .error e)
  | (m, .missing dir name) =>
    match ← dirAllocFile dir m with
    | (m, .error e) => .ok (m, .error e)
    | (m, .ok filp) => .ok (put m filp (name ++ [0]), .ok filp)

def fileOpen (path : List UInt8) (m : Bytes) : Except Stop (Reply ℕ) := do
  match ← walkPath path m with
  | (m, .found f) => .ok (m, .ok f)
  | (m, .missing _ _) => .ok (m, .error (-eNotFound))
  | (m, .fails e) => .ok (m, .error e)

/-- `CEILDIV(size, BLKSIZE)` of an `off_t`, as a `blockno_t`. -/
def ceilBlocks (size : ℤ) : ℕ := (intToSize size + (blkSize - 1)) % 2 ^ 64 / blkSize % 2 ^ 32

def fileFreeBlock (f filebno : ℕ) (m : Bytes) : Except Stop Bytes := do
  match ← fileBlockWalk f filebno false m with
  | (m, .error _) => .ok m
  | (m, .ok ptr) =>
    if get32 m ptr = 0 then .ok m
    else do
      let m ← freeBlock (get32 m ptr).toNat m
      .ok (set32 m ptr 0)

/-- `file_free_block` for the `n` blocks from `bno` on. -/
def freeBlocks (f : ℕ) : ℕ → ℕ → Bytes → Except Stop Bytes
  | 0, _, m => .ok m
  | n + 1, bno, m => do
    let m ← fileFreeBlock f bno m
    freeBlocks f n (bno + 1) m

def fileTruncateBlocks (f : ℕ) (newsize : ℤ) (m : Bytes) : Except Stop Bytes := do
  let oldNblocks := ceilBlocks (fSize m f)
  let newNblocks := ceilBlocks newsize
  let m ← freeBlocks f (oldNblocks - newNblocks) newNblocks m
  if newNblocks ≤ nDirect ∧ fIndirect m f ≠ 0 then do
    let m ← freeBlock (fIndirect m f) m
    .ok (set32 m (indirectField f) 0)
  else .ok m

/-- It returns `0`. -/
def fileSetSize (f : ℕ) (newsize : ℤ) (m : Bytes) : Except Stop Bytes := do
  let m ← if newsize < fSize m f then fileTruncateBlocks f newsize m else .ok m
  .ok (set32 m (sizeField f) (BitVec.ofInt 32 newsize))

/-- `flush_block`: the number of the block that is written. -/
def flushBlock (m : Bytes) (a : ℕ) : Except Stop ℕ :=
  if a < diskMap ∨ diskMap + diskSize ≤ a then .error .badBlock
  else if (a - diskMap) / blkSize ≠ 0 ∧ nblocks m ≤ (a - diskMap) / blkSize then .error .badBlock
  else .ok ((a - diskMap) / blkSize)

/-- The loop of `file_flush`: the blocks of data that are written, of the `n` ones from `i` on. -/
def flushData (f : ℕ) (m : Bytes) : ℕ → ℕ → Except Stop (List ℕ)
  | 0, _ => .ok []
  | n + 1, i => do
    match ← fileBlockWalk f i false m with
    | (_, .error _) => flushData f m n (i + 1)
    | (_, .ok pdiskbno) =>
      if get32 m pdiskbno = 0 then flushData f m n (i + 1)
      else do
        let b ← flushBlock m (← diskaddr m (get32 m pdiskbno).toNat)
        return b :: (← flushData f m n (i + 1))

/-- The blocks that `file_flush` writes, in their order. -/
def fileFlush (f : ℕ) (m : Bytes) : Except Stop (List ℕ) := do
  let data ← flushData f m (ceilBlocks (fSize m f)) 0
  let indirect ← if fIndirect m f = 0 then .ok []
    else do
      let b ← flushBlock m (← diskaddr m (fIndirect m f))
      .ok [b]
  let b ← flushBlock m f
  .ok (data ++ indirect ++ [b])

/-- A call of `memmove`. -/
structure Move where
  dst : ℕ
  src : ℕ
  len : ℕ
  deriving DecidableEq, Repr

/-- What a read or a write has done: the memory, the moves in their order, and the result, `none` for a loop
that ran to its end. -/
structure Transfer (α : Type) where
  mem : Bytes
  moves : List Move
  result : Except Stop α

/-- The loops of `file_read` and `file_write`: `move` is given the address in the block, the address in the
buffer and the number of bytes. The end `stop` is a `size_t`; `pos` is an `off_t`. -/
def transferLoop (move : ℕ → ℕ → ℕ → Move) (f stop : ℕ) :
    ℕ → ℤ → ℕ → Bytes → Transfer (Option ℤ)
  | 0, _, _, m => ⟨m, [], .error .forever⟩
  | n + 1, pos, buf, m =>
    if intToSize pos < stop then
      match fileGetBlock f ((pos.tdiv blkSize) % 2 ^ 32).toNat m with
      | .error e => ⟨m, [], .error e⟩
      | .ok (m, .error e) => ⟨m, [], .ok (some e)⟩
      | .ok (m, .ok blk) =>
        let bn := min (blkSize - pos.tmod blkSize).toNat (sizeSub stop (intToSize pos))
        let v := move (blk + pos.tmod blkSize).toNat buf bn
        if Loadable m v.dst v.len ∧ Loadable m v.src v.len then
          let t := transferLoop move f stop n (Int.bmod (pos + bn) (2 ^ 32)) (buf + bn)
            (ByteMem.move m v.dst v.src v.len)
          { t with moves := v :: t.moves }
        else ⟨m, [v], .error .badBlock⟩
    else ⟨m, [], .ok none⟩

def toBuf (blk buf bn : ℕ) : Move := ⟨buf, blk, bn⟩

def fromBuf (blk buf bn : ℕ) : Move := ⟨blk, buf, bn⟩

def rounds : ℕ := maxFileSize + 2

def Transfer.returns (t : Transfer (Option ℤ)) (count : ℕ) : Transfer ℤ :=
  ⟨t.mem, t.moves, t.result.map fun e => e.getD (Int.bmod count (2 ^ 64))⟩

def fileRead (f buf count : ℕ) (offset : ℤ) (m : Bytes) : Transfer ℤ :=
  if fSize m f ≤ offset then ⟨m, [], .ok 0⟩
  else
    let count := min count (intToSize (Int.bmod (fSize m f - offset) (2 ^ 32)))
    (transferLoop toBuf f ((intToSize offset + count) % 2 ^ 64) rounds offset buf m).returns count

def fileWrite (f buf count : ℕ) (offset : ℤ) (m : Bytes) : Transfer ℤ :=
  let stop := (intToSize offset + count) % 2 ^ 64
  match if intToSize (fSize m f) < stop then fileSetSize f (sizeToInt stop) m else .ok m with
  | .error e => ⟨m, [], .error e⟩
  | .ok m => (transferLoop fromBuf f stop rounds offset buf m).returns count

end Jos.Fs
