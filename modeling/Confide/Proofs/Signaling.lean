import Confide.Connection.Negotiation
import Confide.Proofs.Address
import Confide.Proofs.Hex
import Confide.Proofs.Json.Text

/-! Envelopes are read back from their text with all that was put into them, and so are the messages
by which two peers agree on a connection. -/

set_option autoImplicit false

namespace Confide

open Json

namespace Shape

variable {α β : Type} (tree : Tree)

theorem ofTree?_text : Shape.text.ofTree? tree = tree.string? := rfl

theorem ofTree?_view (base : Shape α) (of? : α → Option β) (back : β → α) :
    (base.view of? back).ofTree? tree = (base.ofTree? tree).bind of? := rfl

theorem ofTree?_record {σ : Type} (closed : Bool) (fields : Fields σ α)
    (entries : List (Option String × Tree)) :
    (Shape.record closed fields).ofTree? (.object entries) =
      (entries.foldlM (fun (seen : σ) (entry : Option String × Tree) => do
        fields.ofEntry? closed (← entry.1) entry.2 seen) fields.unseen).bind fields.value? := rfl

section
variable {first : Shape α} {second : Shape β} {own other : String} {tree tree' : Tree} {a : α}
  {b : β} (apart : own ≠ other) (one : first.ofTree? tree = some a)
  (two : second.ofTree? tree' = some b)
include apart one two

theorem ofTree?_pair :
    (Shape.record false (.field own first <| .field other second .nil)).ofTree?
      (.object [(some own, tree), (some other, tree')]) = some (a, b, ()) := by
  rw [ofTree?_record]
  simp [Fields.ofEntry?, Fields.unseen, Fields.value?, one, two, apart.symm]

theorem ofTree?_swapped :
    (Shape.record false (.field own first <| .field other second .nil)).ofTree?
      (.object [(some other, tree'), (some own, tree)]) = some (a, b, ()) := by
  rw [ofTree?_record]
  simp [Fields.ofEntry?, Fields.unseen, Fields.value?, one, two, apart.symm]

end

end Shape

namespace Envelope

theorem toJson_eq (envelope : Envelope) : envelope.toJson =
    .object [("from", .string envelope.source.toHex), ("to", .string envelope.target.toHex),
      ("kind", .string envelope.kind.display), ("payload", envelope.payload.sorted)] := by
  obtain ⟨source, target, kind, payload⟩ := envelope
  cases kind <;> rfl

theorem ofTree?_peer (key : IdentityKey) :
    peerShape.ofTree? (.string (some key.toHex)) = some key := by
  rw [peerShape, Shape.ofTree?_view, Shape.ofTree?_text, Tree.string?, Option.bind_some,
    IdentityKey.ofHex_toHex]
  rfl

theorem ofTree?_kind (kind : EnvelopeKind) :
    (Wire.shape : Shape EnvelopeKind).ofTree? (.string (some kind.display)) = some kind := by
  cases kind <;> rfl

/-- The routing comes back as it is, and so does a payload which does not nest too deep. -/
theorem ofTree?_toTree {envelope : Envelope} {payload : Json}
    (value : envelope.payload.sorted.toTree.value? payloadDepth = some payload) :
    ofTree? envelope.toJson.toTree = some { envelope with payload } := by
  rw [toJson_eq]
  simp only [toTree, entryTrees, ofTree?, List.foldlM_cons, List.foldlM_nil, ofEntry?,
    routingFields, Fields.ofEntry?, Fields.unseen, Fields.value?, ofTree?_peer, ofTree?_kind, value,
    Option.bind_eq_bind, Option.bind_some]
  rfl

theorem depth_toJson {envelope : Envelope} (ordered : envelope.payload.Ordered) :
    envelope.toJson.depth = envelope.payload.depth + 1 := by
  rw [toJson_eq, ordered.sorted_eq]
  simp [Json.depth, entriesDepth]

theorem ofText?_toText {envelope : Envelope} (whole : envelope.payload.Whole)
    (ordered : envelope.payload.Ordered) (shallow : envelope.toJson.depth ≤ maxDepth) :
    ofText? envelope.toText = some envelope := by
  have same := ordered.sorted_eq
  have text : envelope.toJson.Whole := by
    rw [toJson_eq, same]
    refine .object fun entry mem => ?_
    simp only [List.mem_cons, List.not_mem_nil, or_false] at mem
    rcases mem with rfl | rfl | rfl | rfl
    · exact .string _
    · exact .string _
    · exact .string _
    · exact whole
  have inside : envelope.payload.depth ≤ payloadDepth := by
    rw [depth_toJson ordered] at shallow
    exact Nat.le_of_succ_le_succ shallow
  have value := value?_toTree envelope.payload payloadDepth inside
  rw [same] at value
  rw [ofText?, toText, text.ofText?_text]
  exact ofTree?_toTree (by rw [same, value])

end Envelope

namespace Json

theorem sortedObject_pair {first second : String} (value other : Json)
    (less : compare first second = .lt) :
    sortedObject [(first, value), (second, other)] = .object [(first, value), (second, other)] := by
  have greater := Std.OrientedCmp.gt_of_lt less
  simp [sortedObject, SortedMap.ofList, SortedMap.insert, SortedMap.insertEntry, SortedMap.empty,
    greater]

theorem sortedObject_swap {first second : String} (value other : Json)
    (less : compare second first = .lt) :
    sortedObject [(first, value), (second, other)] = .object [(second, other), (first, value)] := by
  simp [sortedObject, SortedMap.ofList, SortedMap.insert, SortedMap.insertEntry, SortedMap.empty,
    less]

end Json

namespace Negotiation

def describedPayload (connection : ConnectionId) (description : SessionDescription) : Json :=
  .object [("connection", .ofUInt64 connection),
    ("description", .object [("ufrag", .string description.fragment)])]

def namedPayload (connection : ConnectionId) (found : Candidate) : Json :=
  .object [("candidate", .object [("address", .string found.address.toText),
    ("kind", (Wire.shape : Shape CandidateKind).toJson found.kind)]),
    ("connection", .ofUInt64 connection)]

theorem toJson_connection (connection : ConnectionId) :
    Shape.uint64.toJson connection = .ofUInt64 connection := by
  change Json.number (.natural (.ofNat connection.toNat)) = .ofUInt64 connection
  rw [UInt64.ofNat_toNat]
  rfl

theorem sorted_describing (connection : ConnectionId) (description : SessionDescription) :
    (describing.toJson (connection, description, ())).sorted =
      describedPayload connection description := by
  have plain : describing.toJson (connection, description, ()) =
      .object [("connection", Shape.uint64.toJson connection),
        ("description", .object [("ufrag", .string description.fragment)])] := rfl
  rw [plain, toJson_connection]
  exact sortedObject_pair _ _ (by decide)

theorem sorted_naming (connection : ConnectionId) (found : Candidate) :
    (naming.toJson (connection, found, ())).sorted = namedPayload connection found := by
  have plain : naming.toJson (connection, found, ()) =
      .object [("connection", Shape.uint64.toJson connection),
        ("candidate", .object [("kind", (Wire.shape : Shape CandidateKind).toJson found.kind),
          ("address", .string found.address.toText)])] := rfl
  have kind : ((Wire.shape : Shape CandidateKind).toJson found.kind).sorted =
      (Wire.shape : Shape CandidateKind).toJson found.kind := by
    cases found.kind <;> rfl
  have inner : sorted (.object [("kind", (Wire.shape : Shape CandidateKind).toJson found.kind),
      ("address", .string found.address.toText)]) =
      .object [("address", .string found.address.toText),
        ("kind", (Wire.shape : Shape CandidateKind).toJson found.kind)] := by
    rw [sorted, sortedEntries, sortedEntries, sortedEntries, kind]
    exact sortedObject_swap _ _ (by decide)
  rw [plain, toJson_connection, sorted, sortedEntries, sortedEntries, sortedEntries, inner]
  exact sortedObject_swap _ _ (by decide)

theorem ofTree?_connection (connection : ConnectionId) :
    Shape.uint64.ofTree? (toTree (.ofUInt64 connection)) = some connection := by
  have bound : connection.toNat < UInt64.size := connection.toNat_lt
  have number : Tree.number? UInt64.size (toTree (.ofUInt64 connection)) =
      some connection.toFin := dif_pos bound
  exact congrArg (Option.bind · _) number

theorem ofTree?_address (address : Address) :
    (Wire.shape : Shape Address).ofTree? (.string (some address.toText)) = some address :=
  address.ofText?_toText

theorem ofTree?_described (connection : ConnectionId) (description : SessionDescription) :
    describing.ofTree? (describedPayload connection description).toTree =
      some (connection, description, ()) :=
  Shape.ofTree?_pair (by decide) (ofTree?_connection connection) rfl

theorem ofTree?_found (found : Candidate) :
    (Wire.shape : Shape Candidate).ofTree? (toTree (.object
      [("address", .string found.address.toText),
        ("kind", (Wire.shape : Shape CandidateKind).toJson found.kind)])) = some found := by
  have kind : (Wire.shape : Shape CandidateKind).ofTree?
      ((Wire.shape : Shape CandidateKind).toJson found.kind).toTree = some found.kind := by
    cases found.kind <;> rfl
  have fields := Shape.ofTree?_swapped (by decide : "kind" ≠ "address") kind
    (ofTree?_address found.address)
  exact congrArg (Option.bind · _) fields

theorem ofTree?_named (connection : ConnectionId) (found : Candidate) :
    naming.ofTree? (namedPayload connection found).toTree = some (connection, found, ()) :=
  Shape.ofTree?_swapped (by decide) (ofTree?_connection connection) (ofTree?_found found)

theorem ofEnvelope_toEnvelope (negotiation : Negotiation) (source target : IdentityKey) :
    ofEnvelope (negotiation.toEnvelope source target) = .ok negotiation := by
  cases negotiation with
  | offer connection description =>
    simp only [ofEnvelope, toEnvelope, toPayload, kind, sorted_describing, ofTree?_described]
  | answer connection description =>
    simp only [ofEnvelope, toEnvelope, toPayload, kind, sorted_describing, ofTree?_described]
  | candidate connection found =>
    simp only [ofEnvelope, toEnvelope, toPayload, kind, sorted_naming, ofTree?_named]

theorem plain_kind (kind : CandidateKind) :
    ∃ name, (Wire.shape : Shape CandidateKind).toJson kind = .string name := by
  cases kind <;> exact ⟨_, rfl⟩

theorem plain_toPayload (negotiation : Negotiation) :
    negotiation.toPayload.Whole ∧ negotiation.toPayload.Ordered ∧
      negotiation.toPayload.depth = 2 := by
  have described (connection : ConnectionId) (description : SessionDescription) :
      (describedPayload connection description).Whole ∧
        (describedPayload connection description).Ordered ∧
        (describedPayload connection description).depth = 2 := by
    refine ⟨.pair (.natural _) (.single (.string _)), ?_, ?_⟩
    · exact .pair (by decide) (.number _) (.single (.string _))
    · simp [describedPayload, depth, entriesDepth, ofUInt64]
  cases negotiation with
  | offer connection description =>
    rw [toPayload, sorted_describing]
    exact described connection description
  | answer connection description =>
    rw [toPayload, sorted_describing]
    exact described connection description
  | candidate connection found =>
    obtain ⟨name, kind⟩ := plain_kind found.kind
    rw [toPayload, sorted_naming, namedPayload, kind]
    refine ⟨.pair (.pair (.string _) (.string _)) (.natural _), ?_, ?_⟩
    · exact .pair (by decide) (.pair (by decide) (.string _) (.string _)) (.number _)
    · simp [depth, entriesDepth, ofUInt64]

end Negotiation

/-- What is sent over the relay arrives as it is. -/
theorem Envelope.text_round_trips :
    (∀ (negotiation : Negotiation) (source target : IdentityKey), ∃ envelope,
      ofText? (negotiation.toEnvelope source target).toText = some envelope ∧
        Negotiation.ofEnvelope envelope = .ok negotiation ∧ envelope.source = source ∧
        envelope.target = target ∧ envelope.kind = negotiation.kind) ∧
      ∀ envelope : Envelope, envelope.payload.Whole → envelope.payload.Ordered →
        envelope.toJson.depth ≤ maxDepth → ofText? envelope.toText = some envelope := by
  constructor
  · intro negotiation source target
    obtain ⟨whole, ordered, depth⟩ := negotiation.plain_toPayload
    have shallow : (negotiation.toEnvelope source target).toJson.depth ≤ maxDepth := by
      rw [depth_toJson ordered]
      exact Nat.le_trans (Nat.le_of_eq (congrArg (· + 1) depth)) (by decide)
    exact ⟨_, ofText?_toText whole ordered shallow,
      negotiation.ofEnvelope_toEnvelope source target, rfl, rfl, rfl⟩
  · intro envelope whole ordered shallow
    exact ofText?_toText whole ordered shallow

/-- A payload with a list, a negative number and characters which are escaped. -/
theorem Envelope.nested_payload_round_trips :
    ∃ envelope : Envelope, envelope.payload =
        .object [("list", .array [.null, .number (.negative 0)]), ("text", .string "\"\n")] ∧
      ofText? envelope.toText = some envelope := by
  let key : IdentityKey := ⟨⟨.replicate 32 0⟩, ⟨.replicate 32 1⟩⟩
  let envelope : Envelope := ⟨key, key, .presence,
    .object [("list", .array [.null, .number (.negative 0)]), ("text", .string "\"\n")]⟩
  have whole : envelope.payload.Whole :=
    .pair (.array (List.forall_mem_cons.2 ⟨.null, List.forall_mem_singleton.2 (.negative 0)⟩))
      (.string _)
  have ordered : envelope.payload.Ordered :=
    .pair (by decide)
      (.array (List.forall_mem_cons.2 ⟨.null, List.forall_mem_singleton.2 (.number _)⟩))
      (.string _)
  have shallow : envelope.toJson.depth ≤ maxDepth := by
    rw [depth_toJson ordered]
    decide
  exact ⟨envelope, rfl, text_round_trips.2 envelope whole ordered shallow⟩

end Confide
