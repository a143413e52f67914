import Confide.Cipher.ChaCha
import Confide.Cipher.Poly1305

/-! Authenticated encryption with associated data: ChaCha with a 24-byte nonce, and a tag of
sixteen bytes after the ciphertext. -/

set_option autoImplicit false

namespace Confide.Sealing

def subnonce (nonce : Octets 24) : Octets 12 :=
  .fit 12 ([0, 0, 0, 0] ++ nonce.toList.drop 16)

/-- Zeros up to a multiple of sixteen bytes. -/
def padding (bytes : Bytes) : Bytes := List.replicate ((16 - bytes.length % 16) % 16) 0

def tag (subkey : Octets 32) (nonce : Octets 12) (associated ciphertext : Bytes) : Octets 16 :=
  let first := ChaCha.block subkey (.fit 16 ([0, 0, 0, 0] ++ nonce.toList))
  Poly1305.tag (.left 32 32 first)
    (associated ++ padding associated ++ ciphertext ++ padding ciphertext ++
      Bytes.ofNatLE 8 associated.length ++ Bytes.ofNatLE 8 ciphertext.length)

def encrypt (key : Octets 32) (nonce : Octets 24) (associated plaintext : Bytes) : Bytes :=
  let subkey := ChaCha.subkey key (.fit 16 nonce.toList)
  let ciphertext := ChaCha.stream subkey (subnonce nonce) 1 plaintext
  ciphertext ++ (tag subkey (subnonce nonce) associated ciphertext).toList

def decrypt? (key : Octets 32) (nonce : Octets 24) (associated sealed : Bytes) : Option Bytes :=
  if sealed.length < 16 then none
  else
    let ciphertext := sealed.take (sealed.length - 16)
    let subkey := ChaCha.subkey key (.fit 16 nonce.toList)
    if (tag subkey (subnonce nonce) associated ciphertext).toList =
        sealed.drop (sealed.length - 16) then
      some (ChaCha.stream subkey (subnonce nonce) 1 ciphertext)
    else none

end Confide.Sealing
