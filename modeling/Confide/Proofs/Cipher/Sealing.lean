import Confide.Cipher.Sealing
import Confide.Suite

/-! What is sealed can be opened: the key stream is its own inverse, and the tag is the same on both
sides. -/

set_option autoImplicit false

namespace Confide

namespace Bytes

theorem length_xor (first second : Bytes) :
    (xor first second).length = min first.length second.length := by
  simp [xor]

theorem xor_xor {text key : Bytes} (bound : text.length ≤ key.length) :
    xor (xor text key) key = text := by
  induction text generalizing key with
  | nil => rfl
  | cons byte rest ih =>
    cases key with
    | nil => simp at bound
    | cons mask masks =>
      simp only [List.length_cons] at bound
      have tail := ih (by omega : rest.length ≤ masks.length)
      simp only [xor, List.zipWith_cons_cons] at tail ⊢
      rw [tail, UInt8.xor_assoc, UInt8.xor_self, UInt8.xor_zero]

end Bytes

namespace ChaCha

variable (key : Octets 32) (nonce : Octets 12)

def mask (counter : Nat) : Octets 64 :=
  block key (.fit 16 (Bytes.ofNatLE 4 counter ++ nonce.toList))

theorem stream_eq (counter : Nat) (text : Bytes) :
    stream key nonce counter text =
      Bytes.xor (text.take 64) (mask key nonce counter).toList ++
        stream key nonce (counter + 1) (text.drop 64) := by
  cases text with
  | nil => simp [stream, Bytes.blocks, Bytes.xor]
  | cons byte rest =>
    simp only [stream, Bytes.blocks, List.zipIdx_cons, List.flatMap_cons, List.take_succ_cons,
      List.drop_succ_cons]
    rfl

theorem stream_nil (counter : Nat) : stream key nonce counter [] = [] := by
  simp [stream, Bytes.blocks]

theorem stream_stream (counter : Nat) (text : Bytes) :
    stream key nonce counter (stream key nonce counter text) = text := by
  induction text using Bytes.blocks.induct 63 generalizing counter with
  | case1 => simp only [stream_nil]
  | case2 byte rest ih =>
    rw [← List.drop_succ_cons (a := byte)] at ih
    generalize byte :: rest = text at ih ⊢
    have size := (mask key nonce counter).length_toList
    have undone : Bytes.xor (Bytes.xor (text.take 64) (mask key nonce counter).toList)
        (mask key nonce counter).toList = text.take 64 :=
      Bytes.xor_xor (by rw [size, List.length_take]; omega)
    have length : (Bytes.xor (text.take 64) (mask key nonce counter).toList).length =
        min 64 text.length := by
      rw [Bytes.length_xor, size, List.length_take]
      omega
    rw [stream_eq key nonce counter text, stream_eq]
    -- Only the last block can be shorter, and after it nothing is left.
    by_cases whole : 64 ≤ text.length
    · rw [List.take_left' (by omega), List.drop_left' (by omega), undone, ih,
        List.take_append_drop]
    · have last : text.drop 64 = [] := List.drop_of_length_le (by omega)
      rw [last, stream_nil, List.append_nil, List.take_of_length_le (by omega),
        List.drop_of_length_le (by omega), undone, stream_nil, List.append_nil,
        List.take_of_length_le (by omega)]

end ChaCha

namespace Sealing

variable (key : Octets 32) (nonce : Octets 24) (associated : Bytes)

theorem decrypt?_append (ciphertext : Bytes) (mark : Octets 16) :
    decrypt? key nonce associated (ciphertext ++ mark.toList) =
      if (tag (ChaCha.subkey key (.fit 16 nonce.toList)) (subnonce nonce) associated
          ciphertext).toList = mark.toList then
        some (ChaCha.stream (ChaCha.subkey key (.fit 16 nonce.toList)) (subnonce nonce) 1
          ciphertext)
      else none := by
  have length : (ciphertext ++ mark.toList).length = ciphertext.length + 16 := by
    rw [List.length_append, mark.length_toList]
  unfold decrypt?
  rw [if_neg (by omega)]
  simp only [length, Nat.add_sub_cancel, List.take_left, List.drop_left]

theorem decrypt?_encrypt (plaintext : Bytes) :
    decrypt? key nonce associated (encrypt key nonce associated plaintext) = some plaintext := by
  unfold encrypt
  rw [decrypt?_append, if_pos rfl, ChaCha.stream_stream]

end Sealing

theorem Suite.standard_decrypt?_encrypt (key : SealingKey) (associated plaintext : Bytes) :
    standard.decrypt? key associated (standard.encrypt key associated plaintext) =
      some plaintext := by
  simp only [standard]
  exact Sealing.decrypt?_encrypt key.key key.nonce associated plaintext

end Confide
