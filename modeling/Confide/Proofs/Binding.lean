import Confide.Group.Message
import Confide.Proofs.Digits
import Confide.Proofs.Hex
import Confide.Ratchet.Message

/-! What is sealed or signed together can be told apart again: byte strings which are bound to a
ciphertext, or which are signed, determine everything that was put into them. Their parts carry no
lengths of their own. All but one part have a fixed length, and the other one stands at an end. -/

set_option autoImplicit false

namespace Confide

theorem Octets.toList_injective {n : Nat} : Function.Injective (Octets.toList (n := n)) :=
  fun _ _ => Octets.ext

namespace Bytes

theorem ofNatBE_inj {n first second : Nat} (small : first < 256 ^ n) (small' : second < 256 ^ n)
    (same : ofNatBE n first = ofNatBE n second) : first = second := by
  have numbers := congrArg natBE same
  rwa [natBE_ofNatBE, natBE_ofNatBE, Nat.mod_eq_of_lt small, Nat.mod_eq_of_lt small'] at numbers

theorem ofUInt32_injective : Function.Injective ofUInt32 := fun first second same =>
  UInt32.toNat_inj.1 (ofNatBE_inj first.toNat_lt second.toNat_lt same)

theorem ofUInt64_injective : Function.Injective ofUInt64 := fun first second same =>
  UInt64.toNat_inj.1 (ofNatBE_inj first.toNat_lt second.toNat_lt same)

@[simp] theorem length_ofUInt64 (word : UInt64) : (ofUInt64 word).length = 8 := length_ofNatBE ..

end Bytes

theorem IdentityKey.toOctets_injective : Function.Injective IdentityKey.toOctets := by
  intro first second same
  rw [← ofOctets_toOctets first, same, ofOctets_toOctets]

/-! ### Sessions -/

namespace MessageHeader

theorem length_toBytes (header : MessageHeader) : header.toBytes.length = 48 := by
  simp [toBytes, header.ratchetKey.bytes.length_toList]

theorem toBytes_injective : Function.Injective toBytes := by
  rintro ⟨⟨key⟩, previous, counter⟩ ⟨⟨key'⟩, previous', counter'⟩ same
  obtain ⟨front, counters⟩ := List.append_inj' same (by simp)
  obtain ⟨keys, lengths⟩ := List.append_inj' front (by simp)
  obtain rfl : key = key' := Octets.toList_injective keys
  obtain rfl : previous = previous' := Bytes.ofUInt64_injective lengths
  obtain rfl : counter = counter' := Bytes.ofUInt64_injective counters
  rfl

/-- Where the associated data ends follows from the length of a header. -/
theorem authenticated_injective : Function.Injective (Function.uncurry authenticated) := by
  rintro ⟨data, header⟩ ⟨data', header'⟩ same
  have lengths : header.toBytes.length = header'.toBytes.length := by
    rw [length_toBytes, length_toBytes]
  obtain ⟨left, right⟩ := List.append_inj' same lengths
  exact Prod.ext left (toBytes_injective right)

end MessageHeader

theorem Handshake.associatedData_injective :
    Function.Injective (Function.uncurry Handshake.associatedData) := by
  rintro ⟨initiator, responder⟩ ⟨initiator', responder'⟩ same
  have lengths : initiator.toOctets.toList.length = initiator'.toOctets.toList.length := by
    rw [Octets.length_toList, Octets.length_toList]
  obtain ⟨first, second⟩ := List.append_inj same lengths
  exact Prod.ext (IdentityKey.toOctets_injective (Octets.toList_injective first))
    (IdentityKey.toOctets_injective (Octets.toList_injective second))

/-! ### Groups -/

namespace GroupPosition

theorem length_toBytes (position : GroupPosition) : position.toBytes.length = 96 := by
  simp [toBytes, position.groupId.bytes.length_toList, position.sender.toOctets.length_toList]

theorem toBytes_injective : Function.Injective toBytes := by
  rintro ⟨⟨id⟩, epoch, sender, counter⟩ ⟨⟨id'⟩, epoch', sender', counter'⟩ same
  obtain ⟨front, counters⟩ := List.append_inj' same (by simp)
  obtain ⟨front, senders⟩ := List.append_inj' front (by simp only [Octets.length_toList])
  obtain ⟨ids, epochs⟩ := List.append_inj' front (by simp)
  obtain rfl : id = id' := Octets.toList_injective ids
  obtain rfl : epoch = epoch' := Bytes.ofUInt64_injective epochs
  obtain rfl : sender = sender' :=
    IdentityKey.toOctets_injective (Octets.toList_injective senders)
  obtain rfl : counter = counter' := Bytes.ofUInt64_injective counters
  rfl

/-- Where the ciphertext begins follows from the length of a position. -/
theorem signedBytes_injective : Function.Injective (Function.uncurry signedBytes) := by
  rintro ⟨position, ciphertext⟩ ⟨position', ciphertext'⟩ same
  have lengths : (signatureContext ++ position.toBytes).length =
      (signatureContext ++ position'.toBytes).length := by
    rw [List.length_append, List.length_append, length_toBytes, length_toBytes]
  obtain ⟨front, ciphertexts⟩ := List.append_inj same lengths
  exact Prod.ext (toBytes_injective (List.append_cancel_left front)) ciphertexts

end GroupPosition

/-! ### Prekeys -/

namespace SignedPrekey

theorem signedBytes_injective : Function.Injective signedBytes := by
  rintro ⟨id, ⟨key⟩, first, last⟩ ⟨id', ⟨key'⟩, first', last'⟩ same
  obtain ⟨front, ends⟩ := List.append_inj' same (by simp)
  obtain ⟨front, begins⟩ := List.append_inj' front (by simp)
  obtain ⟨front, keys⟩ := List.append_inj' front (by simp only [Octets.length_toList])
  obtain rfl : id = id' := Bytes.ofUInt32_injective (List.append_cancel_left front)
  obtain rfl : key = key' := Octets.toList_injective keys
  obtain rfl : first = first' := Bytes.ofUInt64_injective begins
  obtain rfl : last = last' := Bytes.ofUInt64_injective ends
  rfl

/-- The texts which tell the purposes apart are equally long, so neither is the beginning of the
other. -/
theorem signedBytes_ne (prekey : SignedPrekey) (position : GroupPosition) (ciphertext : Bytes) :
    position.signedBytes ciphertext ≠ prekey.signedBytes := by
  intro same
  have lengths : GroupPosition.signatureContext.length = signatureContext.length := by
    decide +kernel
  simp only [GroupPosition.signedBytes, signedBytes, List.append_assoc] at same
  have contexts := (List.append_inj same lengths).1
  revert contexts
  decide +kernel

end SignedPrekey

/-- What is authenticated stands for one thing only. A session binds its messages to its associated
data, of whatever length, and a header; a handshake to who began it and who answered; a group to the
place of a message. A signature covers a place and a ciphertext of any length, or a prekey, and none
of the one kind ever serves as one of the other. -/
theorem authenticated_bytes_unambiguous :
    Function.Injective (Function.uncurry MessageHeader.authenticated) ∧
    Function.Injective (Function.uncurry Handshake.associatedData) ∧
    Function.Injective GroupPosition.toBytes ∧
    Function.Injective (Function.uncurry GroupPosition.signedBytes) ∧
    Function.Injective SignedPrekey.signedBytes ∧
    ∀ (position : GroupPosition) (ciphertext : Bytes) (prekey : SignedPrekey),
      position.signedBytes ciphertext ≠ prekey.signedBytes :=
  ⟨MessageHeader.authenticated_injective, Handshake.associatedData_injective,
    GroupPosition.toBytes_injective, GroupPosition.signedBytes_injective,
    SignedPrekey.signedBytes_injective,
    fun position ciphertext prekey => prekey.signedBytes_ne position ciphertext⟩

end Confide
