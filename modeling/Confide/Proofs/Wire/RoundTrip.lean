import Confide.Archive
import Confide.Group.State
import Confide.Messaging.Payload
import Confide.Prekey.Store
import Confide.Proofs.Wire.Items
import Confide.Ratchet.Session

/-! What is written in the binary format is read back, whatever follows it. Which values this holds
for is read off their shape. -/

set_option autoImplicit false

namespace Confide

open Cbor

def Cbor.isName (name : String) (others : List String) : Bool :=
  (Utf8.encode name).length ≤ pieceLength && Utf8.isValid (Utf8.encode name) &&
    others.all (Utf8.encode · != Utf8.encode name)

mutual

/-- Whether what is written tells the values of a shape apart. The answer is no for the shapes which
nothing that is stored or sent has. -/
def Shape.isFaithful : {α : Type} → Shape α → Bool
  | _, .number bound => bound ≤ 2 ^ 64
  | _, .octets n => n ≤ pieceLength
  | _, .blob => true
  | _, .list item => item.isFaithful
  | _, .entries key value => key.isFaithful && value.isFaithful
  | _, .option item => item.isFaithful && !item.isNullable
  | _, .record _ fields => fields.names.length < 2 ^ 64 && fields.isFaithful
  | _, .choice variants => variants.isFaithful
  | _, .convert base _ _ _ => base.isFaithful
  | _, .text | _, .vector _ _ | _, .pair _ _ | _, .view _ _ _ | _, .byForm _ _ => false

def Fields.isFaithful : {σ α : Type} → Fields σ α → Bool
  | _, _, .nil => true
  | _, _, .field name shape rest =>
    isName name rest.names && shape.isFaithful && rest.isFaithful

def Variants.isFaithful : {α : Type} → Variants α → Bool
  | _, .nil => true
  | _, .plain name rest => isName name rest.names && rest.isFaithful
  | _, .holding name shape rest =>
    isName name rest.names && shape.isFaithful && rest.isFaithful
  | _, .fields name fields rest =>
    isName name rest.names && fields.names.length < 2 ^ 64 && fields.isFaithful &&
      rest.isFaithful

end

mutual

def Shape.depth : {α : Type} → Shape α → Nat
  | _, .number _ | _, .octets _ | _, .blob | _, .text => 0
  | _, .list item | _, .vector _ item => item.depth + 1
  | _, .pair first second | _, .entries first second => max first.depth second.depth + 1
  | _, .option item => item.depth
  | _, .record _ fields => fields.depth + 1
  | _, .choice variants => variants.depth + 1
  | _, .convert base _ _ _ | _, .view base _ _ => base.depth
  | _, .byForm binary _ => binary.depth

def Fields.depth : {σ α : Type} → Fields σ α → Nat
  | _, _, .nil => 0
  | _, _, .field _ shape rest => max shape.depth rest.depth

def Variants.depth : {α : Type} → Variants α → Nat
  | _, .nil => 0
  | _, .plain _ rest => rest.depth
  | _, .holding _ shape rest => max shape.depth rest.depth
  | _, .fields _ fields rest => max (fields.depth + 1) rest.depth

end

mutual

/-- The lengths in a value are machine words, as those of everything in memory are. A head holds no
greater ones. -/
def Shape.Fits : {α : Type} → Shape α → α → Prop
  | _, .blob, value => List.length value < 2 ^ 64
  | _, .list item, values => values.length < 2 ^ 64 ∧ ∀ value ∈ values, item.Fits value
  | _, .entries key value, table =>
    table.length < 2 ^ 64 ∧ ∀ entry ∈ table, key.Fits entry.1 ∧ value.Fits entry.2
  | _, .option item, value => ∀ present ∈ value, item.Fits present
  | _, .record _ fields, value => fields.Fits value
  | _, .choice variants, value => variants.Fits value
  | _, .convert base _ back _, value => base.Fits (back value)
  | _, _, _ => True

def Fields.Fits : {σ α : Type} → Fields σ α → α → Prop
  | _, _, .nil, _ => True
  | _, _, .field _ shape rest, value => shape.Fits value.1 ∧ rest.Fits value.2

def Variants.Fits : {α : Type} → Variants α → α → Prop
  | _, .nil, _ => True
  | _, .plain _ rest, value => ∀ other, value = .inr other → rest.Fits other
  | _, .holding _ shape rest, value =>
    match value with
    | .inl content => shape.Fits content
    | .inr other => rest.Fits other
  | _, .fields _ fields rest, value =>
    match value with
    | .inl content => fields.Fits content
    | .inr other => rest.Fits other

end

theorem Cbor.isName_iff {name : String} {others : List String} :
    isName name others = true ↔
      Readable name ∧ ∀ other ∈ others, Utf8.encode other ≠ Utf8.encode name := by
  simp only [isName, Bool.and_eq_true, decide_eq_true_eq, List.all_eq_true, bne_iff_ne]
  exact and_congr_left fun _ => ⟨fun h => ⟨h.1, h.2⟩, fun h => ⟨h.1, h.2⟩⟩

/-! ### All shapes -/

-- By recursion on the shape, with one case for each kind. What nests needs a depth which is not
-- zero.
mutual

theorem Shape.item_encode : {α : Type} → (shape : Shape α) → {depth : Nat} → (value : α) →
    shape.isFaithful = true → shape.depth ≤ depth → shape.Fits value →
    Item (shape.read depth) (shape.encode value) value shape.isNullable
  | _, .number bound, depth, value, faithful, _, _ =>
    Shape.item_number (of_decide_eq_true faithful) value
  | _, .octets n, depth, value, faithful, _, _ =>
    Shape.item_octets (of_decide_eq_true faithful) value
  | _, .blob, depth, value, _, _, fits => Shape.item_blob fits
  | _, .list item, 0, values, _, deep, _ => absurd deep (Nat.not_succ_le_zero _)
  | _, .list item, depth + 1, values, faithful, deep, fits => by
    obtain ⟨bound, each⟩ := fits
    refine Shape.item_list bound fun value mem => ?_
    exact Shape.item_encode item value faithful (Nat.le_of_succ_le_succ deep) (each value mem)
  | _, .entries key item, 0, table, _, deep, _ => absurd deep (Nat.not_succ_le_zero _)
  | _, .entries key item, depth + 1, table, faithful, deep, fits => by
    obtain ⟨bound, each⟩ := fits
    simp only [Shape.isFaithful, Bool.and_eq_true] at faithful
    simp only [Shape.depth, Nat.add_le_add_iff_right, Nat.max_le] at deep
    refine Shape.item_entries bound fun entry mem => ⟨?_, ?_⟩
    · exact Shape.item_encode key entry.1 faithful.1 deep.1 (each entry mem).1
    · exact Shape.item_encode item entry.2 faithful.2 deep.2 (each entry mem).2
  | _, .option item, depth, none, _, _, _ => Shape.item_none
  | _, .option item, depth, some value, faithful, deep, fits => by
    simp only [Shape.isFaithful, Bool.and_eq_true, Bool.not_eq_true'] at faithful
    have present := Shape.item_encode item value faithful.1 deep (fits value rfl)
    rw [faithful.2] at present
    exact Shape.item_some present
  | _, .record closed fields, 0, value, _, deep, _ => absurd deep (Nat.not_succ_le_zero _)
  | _, .record closed fields, depth + 1, value, faithful, deep, fits => by
    simp only [Shape.isFaithful, Bool.and_eq_true, decide_eq_true_eq] at faithful
    have fills := fields.fills depth closed (fun _ => true) value faithful.2
      (Nat.le_of_succ_le_succ deep) fits
    have item := Shape.item_record faithful.1 fills (fields.leaves_nothing value)
    rw [List.filter_eq_self.2 fun _ _ => rfl, fields.length_entries value,
      ← fields.encode_eq] at item
    exact item
  | _, .choice variants, 0, value, _, deep, _ => absurd deep (Nat.not_succ_le_zero _)
  | _, .choice variants, depth + 1, value, faithful, deep, fits =>
    Shape.item_choice (variants.tells value faithful (Nat.le_of_succ_le_succ deep) fits)
  | _, .convert base of? back of?_back, depth, value, faithful, deep, fits =>
    Shape.item_convert (Shape.item_encode base (back value) faithful deep fits)
  | _, .text, _, _, faithful, _, _ | _, .vector _ _, _, _, faithful, _, _
  | _, .pair _ _, _, _, faithful, _, _ | _, .view _ _ _, _, _, faithful, _, _
  | _, .byForm _ _, _, _, faithful, _, _ => absurd faithful Bool.false_ne_true

-- Any entries may be left out: the whole record keeps all of them, an older one all but one.
theorem Fields.fills : {σ α : Type} → (fields : Fields σ α) → (depth : Nat) → (closed : Bool) →
    (keep : String → Bool) → (value : α) → fields.isFaithful = true → fields.depth ≤ depth →
    fields.Fits value → fields.Fills depth closed fields.unseen
      ((fields.entries value).filter (keep ·.1)) (fields.seeing keep value)
  | _, _, .nil, depth, closed, keep, value, faithful, deep, fits => .nil ()
  | _, _, .field name shape rest, depth, closed, keep, value, faithful, deep, fits => by
    simp only [Fields.isFaithful, Bool.and_eq_true, isName_iff] at faithful
    obtain ⟨⟨⟨readable, apart⟩, first⟩, later⟩ := faithful
    rw [Fields.depth, Nat.max_le] at deep
    have others := rest.fills depth closed keep value.2 later deep.2 fits.2
    have apart : ∀ entry ∈ (rest.entries value.2).filter (keep ·.1),
        Utf8.encode entry.1 ≠ Utf8.encode name := by
      intro entry mem
      refine apart entry.1 ?_
      rw [← rest.map_fst_entries value.2]
      exact List.mem_map_of_mem (List.mem_filter.1 mem).1
    rw [Fields.entries, Fields.seeing, List.filter_cons]
    cases kept : keep name with
    | true =>
      refine .cons readable ?_ (others.lift apart shape (some value.1))
      simp only [Fields.readEntry, Fields.unseen, if_true]
      exact (Shape.item_encode shape value.1 first deep.1 fits.1).map
    | false =>
      exact others.lift apart shape none

theorem Variants.tells : {α : Type} → (variants : Variants α) → {depth : Nat} → (value : α) →
    variants.isFaithful = true → variants.depth ≤ depth → variants.Fits value →
    variants.Tells depth value
  | _, .nil, _, value, _, _, _ => nomatch value
  | _, .plain name rest, depth, .inl _, faithful, deep, fits => by
    simp only [Variants.isFaithful, Bool.and_eq_true, isName_iff] at faithful
    refine ⟨name, [], List.mem_cons_self, faithful.1.1, ?_, .inl ⟨rfl, rfl⟩⟩
    simp only [Variants.readContent, if_true]
    exact .pure _
  | _, .plain name rest, depth, .inr value, faithful, deep, fits => by
    simp only [Variants.isFaithful, Bool.and_eq_true, isName_iff] at faithful
    refine (rest.tells value faithful.2 deep (fits value rfl)).other faithful.1.2 rfl rfl ?_
    intro name other
    rw [Variants.readContent, if_neg other]
  | _, .holding name shape rest, depth, .inl value, faithful, deep, fits => by
    simp only [Variants.isFaithful, Bool.and_eq_true, isName_iff] at faithful
    rw [Variants.depth, Nat.max_le] at deep
    refine ⟨name, _, List.mem_cons_self, faithful.1.1.1, ?_, .inr rfl⟩
    simp only [Variants.readContent, if_true]
    exact (Shape.item_encode shape value faithful.1.2 deep.1 fits).map
  | _, .holding name shape rest, depth, .inr value, faithful, deep, fits => by
    simp only [Variants.isFaithful, Bool.and_eq_true, isName_iff] at faithful
    rw [Variants.depth, Nat.max_le] at deep
    refine (rest.tells value faithful.2 deep.2 fits).other faithful.1.1.2 rfl rfl ?_
    intro name other
    rw [Variants.readContent, if_neg other]
  | _, .fields name fields rest, 0, .inl value, faithful, deep, fits =>
    absurd (Nat.le_trans (Nat.le_max_left ..) deep) (Nat.not_succ_le_zero _)
  | _, .fields name fields rest, depth + 1, .inl value, faithful, deep, fits => by
    simp only [Variants.isFaithful, Bool.and_eq_true, isName_iff, decide_eq_true_eq] at faithful
    rw [Variants.depth, Nat.max_le] at deep
    have fills := fields.fills depth false (fun _ => true) value faithful.1.2
      (Nat.le_of_succ_le_succ deep.1) fits
    refine ⟨name, _, List.mem_cons_self, faithful.1.1.1.1, ?_, .inr (List.append_assoc ..)⟩
    have leads := leads_encodeHead (by decide : 5 < 8) faithful.1.1.2 fun _ => rfl
    have entries := fills.reads
    rw [List.filter_eq_self.2 fun _ _ => rfl, fields.length_entries value,
      ← fields.encode_eq] at entries
    simp only [Variants.readContent, if_true]
    refine leads.reads fun offset => entries.bind_nil ?_
    rw [fields.value?_seeing value (fields.leaves_nothing value)]
    exact .pure _
  | _, .fields name fields rest, depth, .inr value, faithful, deep, fits => by
    simp only [Variants.isFaithful, Bool.and_eq_true, isName_iff] at faithful
    rw [Variants.depth, Nat.max_le] at deep
    refine (rest.tells value faithful.2 deep.2 fits).other faithful.1.1.1.2 rfl rfl ?_
    intro name other
    rw [Variants.readContent, if_neg other]

end

/-! ### Stored and sent values -/

def Shape.encodeWithout (left : String) : {α : Type} → Shape α → α → Bytes
  | _, .record _ fields, value =>
    encodeHead 5 ((fields.entries value).filter (·.1 != left)).length ++
      ((fields.entries value).filter (·.1 != left)).flatMap fun entry =>
        encodeText entry.1 ++ entry.2
  | _, .convert base _ back _, value => base.encodeWithout left (back value)
  | _, shape, value => shape.encode value

/-- The shape is that of records, and what is assumed for the entry of a name is what the value has
there. -/
def Shape.Leaves (left : String) : {α : Type} → Shape α → α → Prop
  | _, .record _ fields, value => fields.Leaves (· != left) value
  | _, .convert base _ back _, value => base.Leaves left (back value)
  | _, _, _ => False

theorem Shape.item_encodeWithout {left : String} : {α : Type} → (shape : Shape α) →
    {depth : Nat} → (value : α) → shape.isFaithful = true → shape.depth ≤ depth →
    shape.Fits value → shape.Leaves left value →
    Item (shape.read depth) (shape.encodeWithout left value) value shape.isNullable
  | _, .record closed fields, 0, value, _, deep, _, _ => absurd deep (Nat.not_succ_le_zero _)
  | _, .record closed fields, depth + 1, value, faithful, deep, fits, leaves => by
    simp only [Shape.isFaithful, Bool.and_eq_true, decide_eq_true_eq] at faithful
    have fills := fields.fills depth closed (· != left) value faithful.2
      (Nat.le_of_succ_le_succ deep) fits
    -- Which names are kept cannot be read off the goal.
    have item := Shape.item_record faithful.1 fills leaves
    exact item
  | _, .convert base of? back of?_back, depth, value, faithful, deep, fits, leaves =>
    Shape.item_convert (Shape.item_encodeWithout base (back value) faithful deep fits leaves)
  | _, .number _, _, _, _, _, _, leaves | _, .octets _, _, _, _, _, _, leaves
  | _, .blob, _, _, _, _, _, leaves | _, .text, _, _, _, _, _, leaves
  | _, .list _, _, _, _, _, _, leaves | _, .vector _ _, _, _, _, _, _, leaves
  | _, .pair _ _, _, _, _, _, _, leaves | _, .entries _ _, _, _, _, _, _, leaves
  | _, .option _, _, _, _, _, _, leaves | _, .choice _, _, _, _, _, _, leaves
  | _, .view _ _ _, _, _, _, _, _, leaves | _, .byForm _ _, _, _, _, _, _, leaves => leaves.elim

/-- Every value comes back from its encoding, whatever follows. -/
def Cbor.RoundTrips (α : Type) [Wire α] : Prop :=
  ∀ (value : α) (rest : Bytes), (Wire.shape : Shape α).Fits value →
    decode (encode value ++ rest) = .ok value

/-- A description which tells its values apart, and whose values are not nested too deeply to be
read. -/
def Cbor.WellDescribed (α : Type) [Wire α] : Prop :=
  (Wire.shape : Shape α).isFaithful = true ∧ (Wire.shape : Shape α).depth ≤ maxDepth

instance (α : Type) [Wire α] : Decidable (Cbor.WellDescribed α) :=
  inferInstanceAs (Decidable (_ ∧ _))

section
variable {α : Type} [Wire α]

theorem Cbor.decode_of_item {bytes : Bytes} {value : α} {nullable : Bool}
    (item : Item ((Wire.shape : Shape α).read maxDepth) bytes value nullable) (rest : Bytes) :
    decode (bytes ++ rest) = .ok value := by
  obtain ⟨offset, reads⟩ := item.reads rest 0
  rw [decode, decodeItem, reads]
  rfl

theorem Cbor.WellDescribed.roundTrips (described : WellDescribed α) : RoundTrips α := by
  intro value rest fits
  exact decode_of_item (Shape.item_encode Wire.shape value described.1 described.2 fits) rest

end

theorem Cbor.stored_wellDescribed : WellDescribed Session ∧ WellDescribed Group ∧
    WellDescribed KeySnapshot ∧ WellDescribed Bundle ∧ WellDescribed RatchetMessage ∧
    WellDescribed GroupMessage ∧ WellDescribed Distribution ∧ WellDescribed WireMessage ∧
    WellDescribed SessionPayload ∧ WellDescribed (MessageRecord IdentityKey) := by
  decide +kernel

theorem Session.leaves_accepted_handshake {s : Session} (none : s.accepted = none) :
    (Wire.shape : Shape Session).Leaves "accepted_handshake" s := by
  simp [Wire.shape, Shape.iso, Shape.Leaves, Fields.Leaves, Shape.absent?, none]

theorem Session.fits {s : Session} (data : s.associatedData.length < 2 ^ 64)
    (keys : s.skipped.keys.length < 2 ^ 64) : (Wire.shape : Shape Session).Fits s := by
  obtain ⟨identity, bytes, root, sending, previous, receiving, skipped, pending, accepted⟩ := s
  -- All other parts have a fixed length, whichever chain is there for sending.
  cases sending <;>
    simpa [Wire.shape, Shape.iso, Shape.Fits, Fields.Fits, Variants.Fits, Session.byteList,
      Shape.uint64, Shape.uint32, Shape.uint8] using And.intro data keys

/-- What is stored or sent comes back, and so does a session which was stored before there was a
record of the accepted handshake. -/
theorem Cbor.stored_roundTrips : RoundTrips Session ∧ RoundTrips Group ∧ RoundTrips KeySnapshot ∧
    RoundTrips Bundle ∧ RoundTrips RatchetMessage ∧ RoundTrips GroupMessage ∧
    RoundTrips Distribution ∧ RoundTrips WireMessage ∧ RoundTrips SessionPayload ∧
    RoundTrips (MessageRecord IdentityKey) ∧
    ∀ (s : Session) (rest : Bytes), (Wire.shape : Shape Session).Fits s → s.accepted = none →
      decode ((Wire.shape : Shape Session).encodeWithout "accepted_handshake" s ++ rest) =
        .ok s := by
  obtain ⟨session, group, snapshot, bundle, ratchet, message, distribution, wire, payload,
    record⟩ := stored_wellDescribed
  refine ⟨session.roundTrips, group.roundTrips, snapshot.roundTrips, bundle.roundTrips,
    ratchet.roundTrips, message.roundTrips, distribution.roundTrips, wire.roundTrips,
    payload.roundTrips, record.roundTrips, ?_⟩
  intro s rest fits none
  have leaves := Session.leaves_accepted_handshake none
  exact decode_of_item
    (Shape.item_encodeWithout Wire.shape s session.1 session.2 fits leaves) rest

/-- A session which has kept a key and answered no handshake. -/
theorem Cbor.session_roundTrips :
    ∃ (s : Session) (rest : Bytes), s.skipped.size = 1 ∧ s.accepted = none ∧ rest ≠ [] ∧
      (Wire.shape : Shape Session).encodeWithout "accepted_handshake" s ≠ encode s ∧
      decode (encode s ++ rest) = .ok s ∧
      decode ((Wire.shape : Shape Session).encodeWithout "accepted_handshake" s ++ rest) =
        .ok s := by
  let key : SkippedKey := ⟨⟨.replicate 32 3⟩, 7, ⟨.replicate 32 4, .replicate 24 5⟩⟩
  let s : Session := ⟨⟨⟨.replicate 32 0⟩, ⟨.replicate 32 1⟩⟩, [1, 200], .replicate 32 2,
    .stale 300, 300, none, ⟨[key]⟩, none, none⟩
  have fits : (Wire.shape : Shape Session).Fits s := Session.fits (by decide) (by decide)
  obtain ⟨whole, -, -, -, -, -, -, -, -, -, older⟩ := stored_roundTrips
  exact ⟨s, [255], rfl, rfl, List.cons_ne_nil _ _, by decide +kernel, whole s [255] fits,
    older s [255] fits rfl⟩

end Confide
