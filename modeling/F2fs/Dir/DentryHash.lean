/-
  `f2fs_dentry_hash` (`hash.c`) on a name that is given in clear.

  The name is taken in chunks of 16 bytes, and `TEA_transform` mixes each chunk into the
  first two words of `buf`; the other two are never read.  The bit that is masked out at
  the end, `F2FS_HASH_COL_BIT`, is the 63rd, which a word of 32 bits does not have.
-/
import F2fs.Dir.Dentry

namespace F2fs.Dir

/-- `buf[0]` and `buf[1]`. -/
structure HashBuf where
  b0 : UInt32
  b1 : UInt32

/-- `DELTA`. -/
def delta : UInt32 := 0x9E3779B9

/-- The loop of `TEA_transform`, with the rounds to go. -/
def teaRounds (a b c d : UInt32) : Nat → UInt32 → HashBuf → HashBuf
  | 0, _, buf => buf
  | n + 1, sum, buf =>
    let sum := sum + delta
    let b0 := buf.b0 + (((buf.b1 <<< 4) + a) ^^^ (buf.b1 + sum) ^^^ ((buf.b1 >>> 5) + b))
    let b1 := buf.b1 + (((b0 <<< 4) + c) ^^^ (b0 + sum) ^^^ ((b0 >>> 5) + d))
    teaRounds a b c d n sum ⟨b0, b1⟩

/-- `TEA_transform`. -/
def teaTransform (buf : HashBuf) (input : Nat → UInt32) : HashBuf :=
  let mixed := teaRounds (input 0) (input 1) (input 2) (input 3) 16 0 buf
  ⟨buf.b0 + mixed.b0, buf.b1 + mixed.b1⟩

/-- `str2hashbuf` with `num` 4: word `i` is the pad, with the four bytes of the message that
    fall into it, or fewer, shifted in. -/
def str2hashbuf (msg : Name) (i : Nat) : UInt32 :=
  let pad := UInt32.ofNat msg.length ||| (UInt32.ofNat msg.length <<< 8)
  let pad := pad ||| (pad <<< 16)
  (((msg.take 16).drop (4 * i)).take 4).foldl (fun val c => c.toUInt32 + (val <<< 8)) pad

/-- The loop of `f2fs_dentry_hash`; each round takes 16 bytes. -/
def hashChunks : Nat → Name → HashBuf → HashBuf
  | 0, _, buf => buf
  | n + 1, p, buf =>
    let buf := teaTransform buf (str2hashbuf p)
    if p.length ≤ 16 then buf else hashChunks n (p.drop 16) buf

/-- `is_dot_dotdot`. -/
def isDotDotdot (name : Name) : Bool := name = [46] || name = [46, 46]

/-- `f2fs_dentry_hash`. -/
def f2fsDentryHash (name : Name) : UInt32 :=
  if isDotDotdot name then 0
  else (hashChunks (name.length + 1) name ⟨0x67452301, 0xefcdab89⟩).b0

end F2fs.Dir
