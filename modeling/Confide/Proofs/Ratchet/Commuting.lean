import Confide.Proofs.Cipher.Sealing
import Confide.Proofs.Ratchet.Cache
import Confide.Proofs.Ratchet.Conversation

/-! Two messages can be decrypted in either order. What the earlier one of a chain takes from the
chain itself, it finds in the cache if the later one came first; and the cache is left with the same
keys in the same places. -/

set_option autoImplicit false

namespace Confide

namespace Session

/-- The cache has no room for all keys which a message passes over, so that some are dropped. -/
def Evicts (s : Session) (header : MessageHeader) (config : RatchetConfig) : Prop :=
  0 < (s.gaps header).1 + (s.gaps header).2 ∧
    config.maxSkippedKeys.toNat < s.skipped.size + ((s.gaps header).1 + (s.gaps header).2)

variable {S : Suite} {s a b ab ba : Session} {first second : MessageHeader}
  {config : RatchetConfig} {key key' other other' : SealingKey} {receiving : ReceivingChain}
  {header : MessageHeader}

theorem room_of_current (unknown : s.skipped.find? header.ratchetKey header.counter = none)
    (receives : s.receiving = some receiving) (same : receiving.ratchetKey = header.ratchetKey)
    (kept : ¬s.Evicts header config) :
    receiving.gap header.counter = 0 ∨
      s.skipped.size + receiving.gap header.counter ≤ config.maxSkippedKeys.toNat := by
  have gaps : s.gaps header = (0, receiving.gap header.counter) := by
    rw [gaps, route_of_current unknown receives same]
  unfold Evicts at kept
  rw [gaps] at kept
  omega

theorem room_of_turn (S : Suite)
    (unknown : s.skipped.find? header.ratchetKey header.counter = none)
    (other : s.theirRatchetKey ≠ some header.ratchetKey) (kept : ¬s.Evicts header config) :
    (s.missing S header).length + header.counter.toNat = 0 ∨
      s.skipped.size + ((s.missing S header).length + header.counter.toNat) ≤
        config.maxSkippedKeys.toNat := by
  have gaps : s.gaps header = ((s.missing S header).length, header.counter.toNat) := by
    rw [gaps, route_of_other unknown other, length_missing]
  unfold Evicts at kept
  rw [gaps] at kept
  omega

theorem Takes.unique (takes : s.Takes S header config a key)
    (takes' : s.Takes S header config b key') : a = b ∧ key = key' := by
  have same := (take_eq_ok_iff S).2 takes
  rw [(take_eq_ok_iff S).2 takes'] at same
  cases same
  exact ⟨rfl, rfl⟩

theorem Takes.associatedData (takes : s.Takes S header config a key) :
    a.associatedData = s.associatedData := by
  cases takes <;> rfl

theorem Takes.settled (takes : s.Takes S header config a key) :
    ({ s with pending := none } : Session).Takes S header config { a with pending := none }
      key := by
  cases takes with
  | cached found => exact .cached found
  | current unknown receives same ahead near short =>
    exact .current unknown receives same ahead near short
  | turn unknown other sends complete near agreed short =>
    exact .turn unknown other sends complete near agreed short

/-- Each of two sessions, which took the key of one message, takes that of the other message, and
both end alike. -/
def Join (S : Suite) (first second : MessageHeader) (config : RatchetConfig) (a b : Session)
    (key other : SealingKey) : Prop :=
  ∃ last, a.Takes S second config last other ∧ b.Takes S first config last key

theorem Join.symm (join : Join S first second config a b key other) :
    Join S second first config b a other key := by
  obtain ⟨last, takes, takes'⟩ := join
  exact ⟨last, takes', takes⟩

def without (s : Session) (header : MessageHeader) : Session :=
  { s with skipped := s.skipped.remove header.ratchetKey header.counter }

theorem Takes.comm_of_cached (apart : first.position ≠ second.position)
    (found : s.skipped.find? first.ratchetKey first.counter = some key)
    (takes : s.Takes S second config b other) (kept : ¬s.Evicts second config) :
    Join S first second config (s.without first) b key other := by
  have still : b.skipped.find? first.ratchetKey first.counter = some key := by
    cases takes with
    | cached => exact (KeyCache.find?_remove_of_ne apart).trans found
    | current unknown receives same =>
      refine KeyCache.find?_insertAll_of_found found ?_
      rw [ReceivingChain.length_passed]
      exact room_of_current unknown receives same kept
    | turn unknown away =>
      refine KeyCache.find?_insertAll_of_found found ?_
      rw [List.length_append, ReceivingChain.length_passed]
      exact room_of_turn S unknown away kept
  refine ⟨b.without first, ?_, .cached still⟩
  have unseen : (s.without first).skipped.find? second.ratchetKey second.counter =
      s.skipped.find? second.ratchetKey second.counter :=
    KeyCache.find?_remove_of_ne (Ne.symm apart)
  cases takes with
  | cached found' =>
    have swapped : ({ s with skipped := s.skipped.remove second.ratchetKey second.counter } :
        Session).without first = (s.without first).without second := by
      simp only [without, KeyCache.remove_comm apart]
    rw [swapped]
    exact .cached (unseen.trans found')
  | @current receiving unknown receives same ahead near short =>
    have room := room_of_current unknown receives same kept
    have swapped : (s.advanced S receiving second config).without first =
        (s.without first).advanced S receiving second config := by
      simp only [without, advanced]
      rw [KeyCache.remove_insertAll found (by rwa [ReceivingChain.length_passed])]
    rw [swapped]
    exact .current (unseen.trans unknown) receives same ahead near short
  | @turn ratchet chain shared unknown away sends complete near agreed short =>
    have room := room_of_turn S unknown away kept
    have swapped : (s.turned S second config chain.counter shared).without first =
        (s.without first).turned S second config chain.counter shared := by
      simp only [without, turned]
      rw [KeyCache.remove_insertAll found
        (by rwa [List.length_append, ReceivingChain.length_passed])]
      rfl
    rw [swapped]
    exact .turn (unseen.trans unknown) away sends complete near agreed short

/-- A message which the chain has passed over finds its key in the cache, and leaves there the keys
before and after its own. -/
theorem Takes.of_passed {after : List SkippedKey}
    (isKey : receiving.ratchetKey = first.ratchetKey)
    (unknown : s.skipped.find? first.ratchetKey first.counter = none)
    (room : s.skipped.size + (receiving.passed S (receiving.gap first.counter) ++
      receiving.entry S first.counter :: after).length ≤ config.maxSkippedKeys.toNat)
    (cached : b.skipped = s.skipped.insertAll (receiving.passed S (receiving.gap first.counter) ++
      receiving.entry S first.counter :: after) config.maxSkippedKeys.toNat) :
    b.Takes S first config
      { b with
        skipped := (s.advanced S receiving first config).skipped.insertAll after
          config.maxSkippedKeys.toNat }
      ((receiving.chain.after S (receiving.gap first.counter)).messageKey S) := by
  have below : ∀ other ∈ receiving.passed S (receiving.gap first.counter),
      other.counter ≠ first.counter :=
    fun _ mem => ReceivingChain.counter_ne_of_mem_passed mem
  rw [← isKey] at unknown
  obtain ⟨found, removed⟩ :=
    KeyCache.find?_insertAll_of_split unknown (fun other mem _ => below other mem) room
  rw [← cached] at found removed
  have found : b.skipped.find? first.ratchetKey first.counter =
      some ((receiving.chain.after S (receiving.gap first.counter)).messageKey S) := by
    rw [← isKey]
    exact found
  have removed : (s.advanced S receiving first config).skipped.insertAll after
      config.maxSkippedKeys.toNat = b.skipped.remove first.ratchetKey first.counter := by
    rw [← isKey]
    exact removed.symm
  rw [removed]
  exact .cached found

/-- Of two messages of a chain the later one may come first: the earlier one is cached then. -/
theorem Takes.comm_of_chain (isKey : receiving.ratchetKey = first.ratchetKey)
    (isKey' : receiving.ratchetKey = second.ratchetKey)
    (reached : receiving.chain.counter.toNat ≤ first.counter.toNat)
    (later : first.counter.toNat < second.counter.toNat)
    (short : HasNext second.counter)
    (unknown : s.skipped.find? first.ratchetKey first.counter = none)
    (unknown' : s.skipped.find? second.ratchetKey second.counter = none)
    (near : receiving.gap second.counter ≤ config.maxSkip.toNat)
    (room : receiving.gap second.counter = 0 ∨
      s.skipped.size + receiving.gap second.counter ≤ config.maxSkippedKeys.toNat) :
    Join S first second config (s.advanced S receiving first config)
      (s.advanced S receiving second config)
      ((receiving.chain.after S (receiving.gap first.counter)).messageKey S)
      ((receiving.chain.after S (receiving.gap second.counter)).messageKey S) := by
  let next := receiving.beyond S first.counter
  let a := s.advanced S receiving first config
  let b := s.advanced S receiving second config
  let last := a.advanced S next second config
  have earlier : HasNext first.counter := Nat.lt_trans later short
  have gap : receiving.gap first.counter + 1 + next.gap second.counter =
    receiving.gap second.counter := ReceivingChain.gap_beyond reached earlier later
  have number : next.chain.counter.toNat = first.counter.toNat + 1 :=
    ReceivingChain.toNat_counter_beyond reached earlier
  refine ⟨last, ?_, ?_⟩
  · have unseen : a.skipped.find? second.ratchetKey second.counter = none := by
      refine KeyCache.find?_insertAll_eq_none unknown' fun entry mem _ same => ?_
      have below := (ReceivingChain.counter_lt_of_mem_passed mem).2
      rw [same] at below
      omega
    have key : (next.chain.after S (next.gap second.counter)).messageKey S =
        (receiving.chain.after S (receiving.gap second.counter)).messageKey S := by
      rw [← gap, Chain.after_add]
      rfl
    rw [← key]
    exact .current unseen rfl isKey' (by omega) (by omega) short
  · have room' : s.skipped.size + (receiving.passed S (receiving.gap second.counter)).length ≤
        config.maxSkippedKeys.toNat := by
      rw [ReceivingChain.length_passed]
      omega
    have split := ReceivingChain.passed_split (S := S) reached earlier later
    have cached : b.skipped = s.skipped.insertAll (receiving.passed S
        (receiving.gap second.counter)) config.maxSkippedKeys.toNat := rfl
    rw [split] at room' cached
    have chain : receiving.after S (receiving.gap second.counter + 1) =
        next.after S (next.gap second.counter + 1) :=
      (ReceivingChain.beyond_beyond reached earlier later).symm
    have same : { b with skipped := last.skipped } = last :=
      congrArg (fun chain => ({ last with receiving := some chain } : Session)) chain
    rw [← same]
    exact .of_passed isKey unknown room' cached

/-- A message of the chain before may come after the one which ends that chain: the key is among
those which were missing then. -/
theorem Takes.comm_of_turn {ratchet : SecretKey} {chain : Chain} {shared : Octets 32}
    (receives : s.receiving = some receiving) (isKey : receiving.ratchetKey = first.ratchetKey)
    (apart : first.ratchetKey ≠ second.ratchetKey)
    (reached : receiving.chain.counter.toNat ≤ first.counter.toNat)
    (before : first.counter.toNat < second.previousLength.toNat)
    (short : HasNext first.counter) (short' : HasNext second.counter)
    (unknown : s.skipped.find? first.ratchetKey first.counter = none)
    (unknown' : s.skipped.find? second.ratchetKey second.counter = none)
    (sends : s.sending = .current ratchet chain)
    (complete : (s.missing S second).length ≤ config.maxSkip.toNat)
    (near : second.counter.toNat ≤ config.maxSkip.toNat)
    (agreed : S.agree ratchet second.ratchetKey = .ok shared)
    (room : (s.missing S second).length + second.counter.toNat = 0 ∨
      s.skipped.size + ((s.missing S second).length + second.counter.toNat) ≤
        config.maxSkippedKeys.toNat) :
    Join S first second config (s.advanced S receiving first config)
      (s.turned S second config chain.counter shared)
      ((receiving.chain.after S (receiving.gap first.counter)).messageKey S)
      (((Chain.start (mixRoot S s.root shared).2).after S second.counter.toNat).messageKey S) := by
  let next := receiving.beyond S first.counter
  let a := s.advanced S receiving first config
  let b := s.turned S second config chain.counter shared
  let last := a.turned S second config chain.counter shared
  let fresh := ReceivingChain.passed S
    ⟨second.ratchetKey, .start (mixRoot S s.root shared).2⟩ second.counter.toNat
  have gap : receiving.gap first.counter + 1 + next.gap second.previousLength =
      receiving.gap second.previousLength := ReceivingChain.gap_beyond reached short before
  have missing : s.missing S second =
      receiving.passed S (receiving.gap second.previousLength) := by
    rw [Session.missing, receives]
  have rest : a.missing S second = next.passed S (next.gap second.previousLength) := rfl
  rw [missing, ReceivingChain.length_passed] at complete room
  refine ⟨last, ?_, ?_⟩
  · have unseen : a.skipped.find? second.ratchetKey second.counter = none := by
      refine KeyCache.find?_insertAll_eq_none unknown' fun entry mem same => ?_
      rw [ReceivingChain.ratchetKey_of_mem_passed mem, isKey] at same
      exact absurd same apart
    have other : a.theirRatchetKey ≠ some second.ratchetKey := by
      intro same
      exact apart (isKey.symm.trans (Option.some.inj same))
    have complete' : (a.missing S second).length ≤ config.maxSkip.toNat := by
      rw [rest, ReceivingChain.length_passed]
      omega
    exact .turn unseen other sends complete' near agreed short'
  · have split : s.missing S second ++ fresh = receiving.passed S (receiving.gap first.counter) ++
        receiving.entry S first.counter :: (a.missing S second ++ fresh) := by
      rw [missing, ReceivingChain.passed_split reached short before, List.append_assoc]
      rfl
    have room' : s.skipped.size + (s.missing S second ++ fresh).length ≤
        config.maxSkippedKeys.toNat := by
      rw [List.length_append, ReceivingChain.length_passed, missing, ReceivingChain.length_passed]
      omega
    have cached : b.skipped = s.skipped.insertAll (s.missing S second ++ fresh)
        config.maxSkippedKeys.toNat := rfl
    rw [split] at room' cached
    exact .of_passed isKey unknown room' cached

/-- A session which has moved to a new ratchet key and not yet taken anything from its chain. -/
def opening (S : Suite) (s : Session) (header : MessageHeader) (config : RatchetConfig)
    (sent : UInt64) (shared : Octets 32) : Session :=
  { s with
    root := (mixRoot S s.root shared).1
    sending := .stale sent
    skipped := s.skipped.insertAll (s.missing S header) config.maxSkippedKeys.toNat }

theorem turned_eq_advanced (sent : UInt64) (shared : Octets 32) :
    s.turned S header config sent shared =
      (s.opening S header config sent shared).advanced S
        ⟨header.ratchetKey, .start (mixRoot S s.root shared).2⟩ header config := by
  simp only [turned, advanced, opening, KeyCache.insertAll_append]
  rfl

theorem ratchetKey_of_mem_missing {entry : SkippedKey} (mem : entry ∈ s.missing S header) :
    s.theirRatchetKey = some entry.ratchetKey := by
  unfold missing at mem
  cases receives : s.receiving with
  | none =>
    rw [receives] at mem
    cases mem
  | some receiving =>
    rw [receives] at mem
    rw [theirRatchetKey, receives, ReceivingChain.ratchetKey_of_mem_passed mem]
    rfl

/-- The first message under a new ratchet key need not be the first of its chain. -/
theorem Takes.comm_of_turns {sent : UInt64} {shared : Octets 32}
    (isKey : first.ratchetKey = second.ratchetKey)
    (length : first.previousLength = second.previousLength)
    (later : first.counter.toNat < second.counter.toNat)
    (short : HasNext second.counter)
    (unknown : s.skipped.find? first.ratchetKey first.counter = none)
    (unknown' : s.skipped.find? second.ratchetKey second.counter = none)
    (away : s.theirRatchetKey ≠ some second.ratchetKey)
    (near : second.counter.toNat ≤ config.maxSkip.toNat)
    (room : (s.missing S second).length + second.counter.toNat = 0 ∨
      s.skipped.size + ((s.missing S second).length + second.counter.toNat) ≤
        config.maxSkippedKeys.toNat) :
    Join S first second config (s.turned S first config sent shared)
      (s.turned S second config sent shared)
      (((Chain.start (mixRoot S s.root shared).2).after S first.counter.toNat).messageKey S)
      (((Chain.start (mixRoot S s.root shared).2).after S second.counter.toNat).messageKey S) := by
  have opens : s.opening S first config sent shared =
      s.opening S second config sent shared := by
    simp only [opening, missing, length]
  have unseen {header : MessageHeader} (same : header.ratchetKey = second.ratchetKey)
      (unknown : s.skipped.find? header.ratchetKey header.counter = none) :
      (s.opening S second config sent shared).skipped.find? header.ratchetKey
        header.counter = none := by
    refine KeyCache.find?_insertAll_eq_none unknown fun entry mem here => ?_
    rw [← same, ← here] at away
    exact absurd (ratchetKey_of_mem_missing mem) away
  have room' : second.counter.toNat = 0 ∨
      (s.opening S second config sent shared).skipped.size + second.counter.toNat ≤
        config.maxSkippedKeys.toNat := by
    have cache : (s.opening S second config sent shared).skipped.keys =
        s.skipped.keys ++ s.missing S second := KeyCache.keys_insertAll (by omega)
    unfold KeyCache.size at room ⊢
    rw [cache, List.length_append]
    omega
  rw [turned_eq_advanced, turned_eq_advanced, opens, isKey]
  exact comm_of_chain isKey.symm rfl (Nat.zero_le _) later short (unseen isKey unknown)
    (unseen rfl unknown') near room'

/-- What still opens after a new ratchet key belongs to it, or was missing. -/
theorem Takes.after_turned {sent : UInt64} {shared : Octets 32}
    (unknown : s.skipped.find? first.ratchetKey first.counter = none)
    (takes : (s.turned S second config sent shared).Takes S first config a key) :
    first.ratchetKey = second.ratchetKey ∨
      ∃ entry ∈ s.missing S second,
        entry.ratchetKey = first.ratchetKey ∧ entry.counter = first.counter := by
  cases takes with
  | cached found =>
    have mem := (KeyCache.insertAll_suffix _ _ _).mem (KeyCache.mem_of_find? found)
    rcases List.mem_append.1 mem with old | new
    · exact absurd rfl (KeyCache.find?_eq_none_iff.1 unknown _ old rfl)
    · rcases List.mem_append.1 new with missing | fresh
      · exact .inr ⟨_, missing, rfl, rfl⟩
      · exact .inl (ReceivingChain.ratchetKey_of_mem_passed fresh)
  | current _ receives same =>
    cases receives
    exact .inl same.symm
  | turn _ _ sends => cases sends

/-- A message which still opens after the chain has ended was sent on it before its end. -/
theorem Takes.join_of_current_turn {ratchet : SecretKey} {chain : Chain} {shared : Octets 32}
    (short : HasNext first.counter) (short' : HasNext second.counter)
    (kept : ¬s.Evicts second config)
    (unknown : s.skipped.find? first.ratchetKey first.counter = none)
    (receives : s.receiving = some receiving) (same : receiving.ratchetKey = first.ratchetKey)
    (ahead : receiving.chain.counter.toNat ≤ first.counter.toNat)
    (unknown' : s.skipped.find? second.ratchetKey second.counter = none)
    (away : s.theirRatchetKey ≠ some second.ratchetKey)
    (sends : s.sending = .current ratchet chain)
    (complete : (s.missing S second).length ≤ config.maxSkip.toNat)
    (near : second.counter.toNat ≤ config.maxSkip.toNat)
    (agreed : S.agree ratchet second.ratchetKey = .ok shared)
    (next : (s.turned S second config chain.counter shared).Takes S first config ba key') :
    Join S first second config (s.advanced S receiving first config)
      (s.turned S second config chain.counter shared)
      ((receiving.chain.after S (receiving.gap first.counter)).messageKey S)
      (((Chain.start (mixRoot S s.root shared).2).after S second.counter.toNat).messageKey S) := by
  have other : first.ratchetKey ≠ second.ratchetKey := by
    intro equal
    rw [theirRatchetKey, receives, ← equal, ← same] at away
    exact away rfl
  have missing : s.missing S second =
      receiving.passed S (receiving.gap second.previousLength) := by
    rw [Session.missing, receives]
  obtain ⟨entry, mem, -, number⟩ := (next.after_turned unknown).resolve_left other
  rw [missing] at mem
  have before := (ReceivingChain.counter_lt_of_mem_passed mem).2
  rw [number] at before
  exact comm_of_turn receives same other ahead before short short' unknown unknown' sends complete
    near agreed (room_of_turn S unknown' away kept)

/-- Whatever the routes of two messages are, they can be taken the other way round. -/
theorem Takes.join (apart : first.position ≠ second.position)
    (length : first.ratchetKey = second.ratchetKey → first.previousLength = second.previousLength)
    (kept : ¬s.Evicts first config) (kept' : ¬s.Evicts second config)
    (takes : s.Takes S first config a key) (takes' : s.Takes S second config b other)
    (next : a.Takes S second config ab other') (next' : b.Takes S first config ba key') :
    Join S first second config a b key other := by
  have numbers (same : first.ratchetKey = second.ratchetKey) :
      first.counter.toNat ≠ second.counter.toNat := fun equal =>
    apart (Prod.ext same (UInt64.toNat_inj.1 equal))
  cases takes with
  | cached found => exact comm_of_cached apart found takes' kept'
  | @current receiving unknown receives same ahead near short =>
    cases takes' with
    | cached found =>
      exact (comm_of_cached apart.symm found (.current unknown receives same ahead near short)
        kept).symm
    | @current receiving' unknown' receives' same' ahead' near' short' =>
      obtain rfl : receiving = receiving' := Option.some.inj (receives.symm.trans receives')
      have room := room_of_current unknown receives same kept
      have room' := room_of_current unknown' receives same' kept'
      rcases Nat.lt_or_gt_of_ne (numbers (same.symm.trans same')) with before | behind
      · exact comm_of_chain same same' ahead before short' unknown unknown' near' room'
      · exact (comm_of_chain same' same ahead' behind short unknown' unknown near room).symm
    | turn unknown' away sends complete near' agreed short' =>
      exact join_of_current_turn short short' kept' unknown receives same ahead unknown' away sends
        complete near' agreed next'
  | @turn ratchet chain shared unknown away sends complete near agreed short =>
    cases takes' with
    | cached found =>
      exact (comm_of_cached apart.symm found (.turn unknown away sends complete near agreed short)
        kept).symm
    | current unknown' receives same ahead near' short' =>
      exact (join_of_current_turn short' short kept unknown' receives same ahead unknown away sends
        complete near agreed next).symm
    | @turn ratchet' chain' shared' unknown' away' sends' complete' near' agreed' short' =>
      -- The second message must belong to the chain which the first one starts.
      have same : second.ratchetKey = first.ratchetKey := by
        rcases next.after_turned unknown' with same | ⟨entry, mem, same, -⟩
        · exact same
        · rw [← same] at away'
          exact absurd (ratchetKey_of_mem_missing mem) away'
      obtain ⟨rfl, rfl⟩ : ratchet = ratchet' ∧ chain = chain' :=
        SendingChain.current.inj (sends.symm.trans sends')
      obtain rfl : shared = shared' := by
        rw [same, agreed] at agreed'
        exact Except.ok.inj agreed'
      have room := room_of_turn S unknown away kept
      have room' := room_of_turn S unknown' away' kept'
      rcases Nat.lt_or_gt_of_ne (numbers same.symm) with before | behind
      · exact comm_of_turns same.symm (length same.symm) before short' unknown unknown' away' near'
          room'
      · exact (comm_of_turns same (length same.symm).symm behind short unknown' unknown away near
          room).symm

/-- Two messages which can be decrypted in either order are decrypted alike: the plaintexts are the
same, and so is the session in the end. -/
theorem decrypt_comm {first second : RatchetMessage} {early early' late late' : Bytes}
    (apart : first.header.position ≠ second.header.position)
    (length : first.header.ratchetKey = second.header.ratchetKey →
      first.header.previousLength = second.header.previousLength)
    (kept : ¬s.Evicts first.header config) (kept' : ¬s.Evicts second.header config)
    (one : s.decrypt S first config = .ok (a, early))
    (two : a.decrypt S second config = .ok (ab, late))
    (one' : s.decrypt S second config = .ok (b, late'))
    (two' : b.decrypt S first config = .ok (ba, early')) :
    early = early' ∧ late = late' ∧ ab = ba := by
  obtain ⟨a, key, takes, opens, rfl⟩ := (decrypt_eq_ok_iff S).1 one
  obtain ⟨b, other, takes', opens', rfl⟩ := (decrypt_eq_ok_iff S).1 one'
  obtain ⟨ab, other', next, opens₂, rfl⟩ := (decrypt_eq_ok_iff S).1 two
  obtain ⟨ba, key', next', opens₂', rfl⟩ := (decrypt_eq_ok_iff S).1 two'
  obtain ⟨last, joins, joins'⟩ :=
    Takes.join (s := { s with pending := none }) apart length kept kept' takes.settled takes'.settled
      next next'
  obtain ⟨rfl, rfl⟩ := joins.unique next
  obtain ⟨rfl, rfl⟩ := joins'.unique next'
  rw [takes.associatedData] at opens
  rw [takes'.associatedData] at opens'
  rw [joins.associatedData, takes.associatedData, opens'] at opens₂
  rw [joins'.associatedData, takes'.associatedData, opens] at opens₂'
  exact ⟨Option.some.inj opens₂', (Option.some.inj opens₂).symm, rfl⟩

theorem exists_either_order {S : Suite} (sealing : ∀ key associated plaintext,
      S.decrypt? key associated (S.encrypt key associated plaintext) = some plaintext) :
    ∃ (s a b ab ba : Session) (first second : RatchetMessage),
      first.header.counter = 0 ∧ second.header.counter = 1 ∧
      first.header.previousLength = second.header.previousLength ∧
      (¬s.Evicts first.header {} ∧ ¬s.Evicts second.header {}) ∧
      (s.decrypt S first {} = .ok (a, [1]) ∧ a.decrypt S second {} = .ok (ab, [2])) ∧
      s.decrypt S second {} = .ok (b, [2]) ∧ b.decrypt S first {} = .ok (ba, [1]) := by
  let peer : PublicKey := ⟨.replicate 32 9⟩
  let chain : Chain := .start (.replicate 32 2)
  let receiving : ReceivingChain := ⟨peer, chain⟩
  let s : Session := .responder ⟨⟨.replicate 32 1, .replicate 32 2⟩, []⟩
    ⟨⟨⟨.replicate 32 0⟩, peer⟩, peer, 0, none⟩
  let message (i : UInt64) (chain : Chain) (plaintext : Bytes) : RatchetMessage :=
    let header : MessageHeader := ⟨peer, 0, i⟩
    ⟨header, none, S.encrypt (chain.messageKey S) (header.authenticated []) plaintext⟩
  let first := message 0 chain [1]
  let second := message 1 (chain.next S) [2]
  let a : Session := { s.advanced S receiving first.header {} with pending := none }
  let b : Session := { s.advanced S receiving second.header {} with pending := none }
  let ab : Session := { a.advanced S (receiving.after S 1) second.header {} with pending := none }
  let ba : Session := { b with skipped := b.skipped.remove peer 0, pending := none }
  have kept (header : MessageHeader) (same : header.ratchetKey = peer)
      (near : header.counter.toNat ≤ 2000) : ¬s.Evicts header {} := by
    have gaps : s.gaps header = (0, header.counter.toNat) := by
      rw [gaps, route_of_current rfl rfl same.symm]
      rfl
    unfold Evicts
    rw [gaps]
    rintro ⟨-, full⟩
    have full : 2000 < 0 + (0 + header.counter.toNat) := full
    omega
  have zero : HasNext 0 := by decide
  have one : HasNext 1 := by decide
  have opensFirst : s.decrypt S first {} = .ok (a, [1]) := by
    have near : receiving.gap first.header.counter ≤ (RatchetConfig.maxSkip {}).toNat := by
      change 0 ≤ 1000
      decide
    refine (decrypt_eq_ok_iff S).2 ⟨_, _, .current rfl rfl rfl (Nat.zero_le _) near zero, ?_, rfl⟩
    exact sealing (chain.messageKey S) _ [1]
  have opensSecond : s.decrypt S second {} = .ok (b, [2]) := by
    have near : receiving.gap second.header.counter ≤ (RatchetConfig.maxSkip {}).toNat := by
      change 1 ≤ 1000
      decide
    refine (decrypt_eq_ok_iff S).2 ⟨_, _, .current rfl rfl rfl (Nat.zero_le _) near one, ?_, rfl⟩
    exact sealing ((chain.next S).messageKey S) _ [2]
  have opensSecondLate : a.decrypt S second {} = .ok (ab, [2]) := by
    have ahead : (receiving.after S 1).chain.counter.toNat ≤ second.header.counter.toNat := by
      change 1 ≤ 1
      decide
    have near : (receiving.after S 1).gap second.header.counter ≤
        (RatchetConfig.maxSkip {}).toNat := by
      change 0 ≤ 1000
      decide
    refine (decrypt_eq_ok_iff S).2 ⟨_, _, .current rfl rfl rfl ahead near one, ?_, rfl⟩
    exact sealing ((chain.next S).messageKey S) _ [2]
  have opensFirstLate : b.decrypt S first {} = .ok (ba, [1]) := by
    have keys : b.skipped.keys = [⟨peer, 0, chain.messageKey S⟩] :=
      KeyCache.keys_insertAll (.inr (by change 0 + 1 ≤ 2000; decide))
    have found : b.skipped.find? peer 0 = some (chain.messageKey S) := by
      rw [KeyCache.find?, keys]
      rfl
    refine (decrypt_eq_ok_iff S).2 ⟨_, _, .cached found, ?_, rfl⟩
    exact sealing (chain.messageKey S) _ [1]
  refine ⟨s, a, b, ab, ba, first, second, rfl, rfl, rfl, ⟨?_, ?_⟩, ⟨opensFirst, opensSecondLate⟩,
    opensSecond, opensFirstLate⟩
  · exact kept _ rfl (by change 0 ≤ 2000; decide)
  · exact kept _ rfl (by change 1 ≤ 2000; decide)

theorem responder_decrypts_in_either_order :
    ∃ (s ab ba : Session) (first second : RatchetMessage) (a b : Session),
      (s.decrypt .standard first {} = .ok (a, [1]) ∧
        a.decrypt .standard second {} = .ok (ab, [2])) ∧
      (s.decrypt .standard second {} = .ok (b, [2]) ∧
        b.decrypt .standard first {} = .ok (ba, [1])) ∧ ab = ba := by
  obtain ⟨s, a, b, ab, ba, first, second, zero, one, length, ⟨kept, kept'⟩, opens, opens'⟩ :=
    exists_either_order Suite.standard_decrypt?_encrypt
  refine ⟨s, ab, ba, first, second, a, b, opens, opens', ?_⟩
  have apart : first.header.position ≠ second.header.position := by
    intro same
    have same := congrArg Prod.snd same
    simp only [MessageHeader.position, zero, one] at same
    cases same
  exact (decrypt_comm apart (fun _ => length) kept kept' opens.1 opens.2 opens'.1 opens'.2).2.2

end Session

end Confide
