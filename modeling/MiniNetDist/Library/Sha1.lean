import MiniNetDist.Library.Bytes

/-! The secure hash algorithm SHA-1: the message is padded to blocks of sixteen words, and eighty rounds over words that
are expanded from a block change the state of five words. -/

namespace MiniNetDist.Library.Sha1

abbrev Word := BitVec 32

def choose (x y z : Word) : Word := (x &&& y) ^^^ (~~~x &&& z)

def parity (x y z : Word) : Word := x ^^^ y ^^^ z

def majority (x y z : Word) : Word := (x &&& y) ^^^ (x &&& z) ^^^ (y &&& z)

/-- The function of a round. -/
def mix (t : Nat) : Word → Word → Word → Word :=
  if t < 20 then choose else if t < 40 then parity else if t < 60 then majority else parity

def constant (t : Nat) : Word :=
  if t < 20 then 0x5A827999 else if t < 40 then 0x6ED9EBA1 else if t < 60 then 0x8F1BBCDC else 0xCA62C1D6

/-- The words of the rounds, the first sixteen of which are the block. -/
def expand (block : Nat → Word) (t : Nat) : Word :=
  if t < 16 then block t
  else (expand block (t - 3) ^^^ expand block (t - 8) ^^^ expand block (t - 14) ^^^ expand block (t - 16)).rotateLeft 1
termination_by t

structure State where
  a : Word
  b : Word
  c : Word
  d : Word
  e : Word
  deriving DecidableEq, Repr

def initial : State := ⟨0x67452301, 0xEFCDAB89, 0x98BADCFE, 0x10325476, 0xC3D2E1F0⟩

def State.round (s : State) (t : Nat) (word : Word) : State :=
  ⟨s.a.rotateLeft 5 + mix t s.b s.c s.d + s.e + constant t + word, s.a, s.b.rotateLeft 30, s.c, s.d⟩

def State.add (s other : State) : State := ⟨s.a + other.a, s.b + other.b, s.c + other.c, s.d + other.d, s.e + other.e⟩

def State.compress (s : State) (block : Nat → Word) : State :=
  s.add ((List.range 80).foldl (fun s t => s.round t (expand block t)) s)

/-- The words of a block, the most significant byte first. -/
def words (bytes : Bytes) (j : Nat) : Word := joinBytes 32 ((bytes.drop (4 * j)).take 4)

/-- A one bit, as few zero bits as fill a block, and the number of bits in 64 bits. -/
def pad (message : Bytes) : Bytes :=
  message ++ 0x80 :: (List.replicate ((119 - message.length % 64) % 64) 0 ++
    bytesOf (BitVec.ofNat 64 (8 * message.length)) 8)

def State.absorb (s : State) (padded : Bytes) : State :=
  (List.range (padded.length / 64)).foldl (fun s i => s.compress (words (padded.drop (64 * i)))) s

def State.digest (s : State) : Bytes :=
  bytesOf s.a 4 ++ bytesOf s.b 4 ++ bytesOf s.c 4 ++ bytesOf s.d 4 ++ bytesOf s.e 4

def hash (message : Bytes) : Bytes := (initial.absorb (pad message)).digest

theorem expand_block (block : Nat → Word) {t : Nat} (first : t < 16) : expand block t = block t := by
  rw [expand, if_pos first]

theorem expand_later (block : Nat → Word) {t : Nat} (later : 16 ≤ t) :
    expand block t = (expand block (t - 3) ^^^ expand block (t - 8) ^^^ expand block (t - 14) ^^^
      expand block (t - 16)).rotateLeft 1 := by
  rw [expand, if_neg (Nat.not_lt.mpr later)]

/-- The two parts of the choice have no bit in common. -/
theorem choose_eq_or (x y z : Word) : choose x y z = (x &&& y) ||| (~~~x &&& z) := by
  apply BitVec.eq_of_getLsbD_eq
  intro i _
  simp only [choose, BitVec.getLsbD_xor, BitVec.getLsbD_or, BitVec.getLsbD_and]
  cases set : x.getLsbD i with
  | false => simp
  | true =>
    have cleared : (~~~x).getLsbD i = false := by
      rw [BitVec.getLsbD_not, set]
      simp
    rw [cleared]
    simp

theorem majority_eq_or (x y z : Word) : majority x y z = (x &&& y) ||| (x &&& z) ||| (y &&& z) := by
  apply BitVec.eq_of_getLsbD_eq
  intro i _
  simp only [majority, BitVec.getLsbD_xor, BitVec.getLsbD_or, BitVec.getLsbD_and]
  cases x.getLsbD i <;> cases y.getLsbD i <;> cases z.getLsbD i <;> rfl

theorem length_bytesOf {n : Nat} (word : BitVec n) (count : Nat) : (bytesOf word count).length = count := by
  induction count with
  | zero => rfl
  | succ count ih => rw [bytesOf, List.length_cons, ih]

theorem length_hash (message : Bytes) : (hash message).length = 20 := by
  simp only [hash, State.digest, List.length_append, length_bytesOf]

theorem length_pad (message : Bytes) : (pad message).length =
    message.length + (119 - message.length % 64) % 64 + 9 := by
  rw [pad, List.length_append, List.length_cons, List.length_append, List.length_replicate, length_bytesOf]
  omega

end MiniNetDist.Library.Sha1
