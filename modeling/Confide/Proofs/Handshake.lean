import Confide.Handshake

/-! Both sides of a handshake come to the same keys: each pair of key pairs is agreed upon twice,
from either side, and the agreed secrets are mixed in one order. -/

set_option autoImplicit false

namespace Confide

theorem Suite.agree_comm {S : Suite} {first second : SecretKey}
    (commutes : S.sharedSecret first (S.publicKey second) =
      S.sharedSecret second (S.publicKey first)) :
    S.agree first (S.publicKey second) = S.agree second (S.publicKey first) := by
  simp only [agree, commutes]

namespace Handshake

variable {G : Type} [Entropy G] {S : Suite}

theorem agreeAll_swap {pairs : List (SecretKey × SecretKey)}
    (commutes : ∀ pair ∈ pairs,
      S.sharedSecret pair.1 (S.publicKey pair.2) = S.sharedSecret pair.2 (S.publicKey pair.1)) :
    agreeAll S (pairs.map fun pair => (pair.1, S.publicKey pair.2)) =
      agreeAll S (pairs.map fun pair => (pair.2, S.publicKey pair.1)) := by
  induction pairs with
  | nil => rfl
  | cons pair rest ih =>
    have head := Suite.agree_comm (commutes pair List.mem_cons_self)
    have tail := ih fun other mem => commutes other (List.mem_cons_of_mem pair mem)
    simp only [List.map_cons, agreeAll, head, tail]

/-- The key pairs of a handshake, the initiator's first. -/
def keyPairs (ours identity : Identity) (ephemeral signed : SecretKey)
    (oneTime : Option SecretKey) : List (SecretKey × SecretKey) :=
  [(ours.dhSecret, signed), (ephemeral, identity.dhSecret), (ephemeral, signed)] ++
    (oneTime.map fun secret => (ephemeral, secret)).toList

theorem mem_keyPairs {ours identity : Identity} {ephemeral signed : SecretKey}
    {oneTime : Option SecretKey} {pair : SecretKey × SecretKey}
    (mem : pair ∈ keyPairs ours identity ephemeral signed oneTime) :
    pair.1 ∈ [ours.dhSecret, ephemeral] ∧
      pair.2 ∈ identity.dhSecret :: signed :: oneTime.toList := by
  unfold keyPairs at mem
  cases oneTime with
  | none =>
    simp only [Option.map_none, Option.toList_none, List.append_nil, List.mem_cons,
      List.not_mem_nil, or_false] at mem ⊢
    rcases mem with rfl | rfl | rfl <;> simp
  | some secret =>
    simp only [Option.map_some, Option.toList_some, List.cons_append, List.nil_append,
      List.mem_cons, List.not_mem_nil, or_false] at mem ⊢
    rcases mem with rfl | rfl | rfl | rfl <;> simp

def initiatorPairs (ours : Identity) (bundle : Bundle) (ephemeral : SecretKey) :
    List (SecretKey × PublicKey) :=
  [(ours.dhSecret, bundle.signedPrekey.key), (ephemeral, bundle.identity.dhKey),
    (ephemeral, bundle.signedPrekey.key)] ++
      (bundle.oneTimePrekeys.head?.map fun p => (ephemeral, p.key)).toList

structure Initiates (S : Suite) (ours : Identity) (bundle : Bundle) (ephemeral : SecretKey)
    (h : Initiation) : Prop where
  drawn : h.ephemeral = ephemeral
  header : h.header = ⟨ours.key S, S.publicKey h.ephemeral, bundle.signedPrekey.id,
    bundle.oneTimePrekeys.head?.map (·.id)⟩
  theirIdentity : h.theirIdentity = bundle.identity
  associatedData : h.associatedData = Handshake.associatedData (ours.key S) bundle.identity
  keys : ∃ secrets, agreeAll S (initiatorPairs ours bundle h.ephemeral) = .ok secrets ∧
    h.keys = mix S secrets

theorem initiates_of_initiate {ours : Identity} {bundle : Bundle} {now : UInt64} {source : G}
    {h : Initiation} (initiated : (initiate S ours bundle now source).1 = .ok h) :
    Initiates S ours bundle ⟨(draw 32 source).1⟩ h := by
  unfold initiate at initiated
  cases verified : bundle.verify S now with
  | error cause => simp [verified] at initiated
  | ok _ =>
    simp only [verified] at initiated
    cases agreed : agreeAll S (initiatorPairs ours bundle ⟨(draw 32 source).1⟩) with
    | error error =>
      unfold initiatorPairs at agreed
      simp only [agreed] at initiated
      cases initiated
    | ok secrets =>
      have whole := agreed
      unfold initiatorPairs at agreed
      simp only [agreed] at initiated
      cases initiated
      exact ⟨rfl, rfl, rfl, rfl, secrets, whole, rfl⟩

/-- The responder who holds the secrets of the bundle's keys comes to the same keys. -/
theorem Initiates.respond_eq {ours identity : Identity} {bundle : Bundle} {h : Initiation}
    {ephemeral signed : SecretKey} {oneTime : Option SecretKey}
    (initiates : Initiates S ours bundle ephemeral h)
    (theirs : bundle.identity = identity.key S)
    (signedKey : bundle.signedPrekey.key = S.publicKey signed)
    (oneTimeKey : bundle.oneTimePrekeys.head?.map (·.key) = oneTime.map S.publicKey)
    (commutes : ∀ pair ∈ keyPairs ours identity h.ephemeral signed oneTime,
      S.sharedSecret pair.1 (S.publicKey pair.2) = S.sharedSecret pair.2 (S.publicKey pair.1)) :
    respond S identity h.header signed oneTime = .ok ⟨h.keys, h.associatedData⟩ := by
  obtain ⟨secrets, agreed, keys⟩ := initiates.keys
  -- Both sides agree along the same list of pairs, each with its own half first.
  have mine : initiatorPairs ours bundle h.ephemeral =
      (keyPairs ours identity h.ephemeral signed oneTime).map
        fun pair => (pair.1, S.publicKey pair.2) := by
    have last : bundle.oneTimePrekeys.head?.map (fun p => (h.ephemeral, p.key)) =
        (oneTime.map S.publicKey).map fun key => (h.ephemeral, key) := by
      rw [← oneTimeKey, Option.map_map]
      rfl
    rw [initiatorPairs, last, theirs, signedKey]
    cases oneTime <;> rfl
  have other : [(signed, h.header.identity.dhKey), (identity.dhSecret, h.header.ephemeral),
        (signed, h.header.ephemeral)] ++
          (oneTime.map fun secret => (secret, h.header.ephemeral)).toList =
      (keyPairs ours identity h.ephemeral signed oneTime).map
        fun pair => (pair.2, S.publicKey pair.1) := by
    rw [initiates.header]
    cases oneTime <;> rfl
  rw [mine, agreeAll_swap commutes, ← other] at agreed
  have named : h.header.oneTimePrekeyId.isSome = oneTime.isSome := by
    have same := congrArg Option.isSome oneTimeKey
    rw [initiates.header]
    simpa only [Option.isSome_map] using same
  have data : h.associatedData = Handshake.associatedData h.header.identity (identity.key S) := by
    rw [initiates.associatedData, initiates.header, theirs]
  simp only [respond, named, bne_self_eq_false, Bool.false_eq_true, if_false, agreed, keys, data]

end Handshake

end Confide
