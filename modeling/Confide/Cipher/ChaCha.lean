import Confide.Bytes

/-! The ChaCha permutation of twenty rounds and its two uses: blocks of key stream, and the
derivation of a subkey from the first half of a long nonce. -/

set_option autoImplicit false

namespace Confide.ChaCha

abbrev Block := Vector UInt32 16

@[inline] def rotateLeft (word amount : UInt32) : UInt32 :=
  (word <<< amount) ||| (word >>> (32 - amount))

def quarterRound (block : Block) (i j k l : Fin 16) : Block :=
  let a := block[i] + block[j]
  let d := rotateLeft (block[l] ^^^ a) 16
  let c := block[k] + d
  let b := rotateLeft (block[j] ^^^ c) 12
  let a := a + b
  let d := rotateLeft (d ^^^ a) 8
  let c := c + d
  let b := rotateLeft (b ^^^ c) 7
  (((block.set i a).set j b).set k c).set l d

def doubleRound (block : Block) : Block :=
  let block := quarterRound block 0 4 8 12
  let block := quarterRound block 1 5 9 13
  let block := quarterRound block 2 6 10 14
  let block := quarterRound block 3 7 11 15
  let block := quarterRound block 0 5 10 15
  let block := quarterRound block 1 6 11 12
  let block := quarterRound block 2 7 8 13
  quarterRound block 3 4 9 14

def permute (block : Block) : Block := Nat.repeat doubleRound 10 block

/-- Four constant words, the key, and four words which name the block. -/
def input (key : Octets 32) (position : Octets 16) : Block :=
  let words := [0x61707865, 0x3320646e, 0x79622d32, 0x6b206574] ++
    Bytes.wordsLE key.toList ++ Bytes.wordsLE position.toList
  Vector.ofFn fun i => words.getD i 0

def block (key : Octets 32) (position : Octets 16) : Octets 64 :=
  let start := input key position
  let words := (start.zipWith (· + ·) (permute start)).toList
  .fit 64 (Bytes.ofWordsLE words)

/-- The subkey for a long nonce: the outer words of the permuted block, without the final sum. -/
def subkey (key : Octets 32) (nonce : Octets 16) : Octets 32 :=
  let words := (permute (input key nonce)).toList
  .fit 32 (Bytes.ofWordsLE (words.take 4 ++ words.drop 12))

/-- Combines a text with the key stream from block `counter` on. -/
def stream (key : Octets 32) (nonce : Octets 12) (counter : Nat) (text : Bytes) : Bytes :=
  let parts := Bytes.blocks 63 text
  (parts.zipIdx counter).flatMap fun (part, index) =>
    let position := Bytes.ofNatLE 4 index ++ nonce.toList
    Bytes.xor part (block key (.fit 16 position)).toList

end Confide.ChaCha
