import Confide.Proofs.Signaling

/-! How the messages by which two peers agree on a connection are told apart. The kind of an
envelope is that of the message in it, and a payload, however it was written, says the same as the
payload which its message has. The payloads of candidates and of the other messages exclude each
other. -/

set_option autoImplicit false

namespace Confide

open Json

namespace Fields

/-- A field of this name must not be left out, and was not seen. -/
def Lacks (wanted : String) : {σ α : Type} → Fields σ α → σ → Prop
  | _, _, .nil, _ => False
  | _, _, .field own shape rest, seen =>
    (own = wanted ∧ shape.absent? = none ∧ seen.1 = none) ∨ rest.Lacks wanted seen.2

variable {wanted : String}

theorem Lacks.value? : {σ α : Type} → {fields : Fields σ α} → {seen : σ} →
    fields.Lacks wanted seen → fields.value? seen = none
  | _, _, .nil, _, lacks => lacks.elim
  | _, _, .field _ _ _, _, lacks => by
    rcases lacks with ⟨-, required, unseen⟩ | lacks
    · simp [Fields.value?, unseen, required]
    · simp [Fields.value?, lacks.value?]

theorem Lacks.ofEntry? {closed : Bool} {name : String} {tree : Tree} (apart : name ≠ wanted) :
    {σ α : Type} → {fields : Fields σ α} → {seen seen' : σ} → fields.Lacks wanted seen →
    fields.ofEntry? closed name tree seen = some seen' → fields.Lacks wanted seen'
  | _, _, .nil, _, _, lacks, _ => lacks.elim
  | _, _, .field _ _ rest, (first, others), _, lacks, read => by
    rw [Fields.ofEntry?] at read
    split at read
    · rename_i same
      cases first with
      | none =>
        obtain ⟨value, -, read⟩ := Option.bind_eq_some_iff.1 read
        cases read
        rcases lacks with ⟨named, -, -⟩ | lacks
        · exact absurd (same.trans named) apart
        · exact .inr lacks
      | some value => cases read
    · obtain ⟨left, later, read⟩ := Option.bind_eq_some_iff.1 read
      cases read
      rcases lacks with here | lacks
      · exact .inl here
      · exact .inr (lacks.ofEntry? apart later)

theorem Lacks.ofTree? {σ α : Type} {fields : Fields σ α} {closed : Bool}
    {entries : List (Option String × Tree)} (lacks : fields.Lacks wanted fields.unseen)
    (missing : ∀ entry ∈ entries, entry.1 ≠ some wanted) :
    (Shape.record closed fields).ofTree? (.object entries) = none := by
  have still (seen seen' : σ) (lacks : fields.Lacks wanted seen)
      (read : entries.foldlM (fun (seen : σ) (entry : Option String × Tree) => do
        fields.ofEntry? closed (← entry.1) entry.2 seen) seen = some seen') :
      fields.Lacks wanted seen' := by
    induction entries generalizing seen with
    | nil => cases read; exact lacks
    | cons entry entries ih =>
      rw [List.foldlM_cons] at read
      obtain ⟨between, here, later⟩ := Option.bind_eq_some_iff.1 read
      obtain ⟨name, named, here⟩ := Option.bind_eq_some_iff.1 here
      have apart : name ≠ wanted := fun same => missing entry List.mem_cons_self (same ▸ named)
      exact ih (fun other mem => missing other (List.mem_cons_of_mem entry mem)) between
        (lacks.ofEntry? apart here) later
  rw [Shape.ofTree?_record]
  apply Option.eq_none_iff_forall_not_mem.2
  intro value read
  obtain ⟨seen, read, whole⟩ := Option.bind_eq_some_iff.1 read
  rw [(still _ seen lacks read).value?] at whole
  cases whole

end Fields

namespace Negotiation

def Reads (payload : Json) : Negotiation → Prop
  | .offer connection description | .answer connection description =>
    describing.ofTree? payload.toTree = some (connection, description, ())
  | .candidate connection found => naming.ofTree? payload.toTree = some (connection, found, ())

theorem ofEnvelope_eq_ok_iff {envelope : Envelope} {negotiation : Negotiation} :
    ofEnvelope envelope = .ok negotiation ↔
      negotiation.kind = envelope.kind ∧ Reads envelope.payload negotiation := by
  obtain ⟨source, target, kind, payload⟩ := envelope
  cases kind with
  | offer | answer =>
    cases read : describing.ofTree? payload.toTree <;> cases negotiation <;>
      simp [ofEnvelope, Negotiation.kind, Reads, read, Prod.ext_iff]
  | candidate =>
    cases read : naming.ofTree? payload.toTree <;> cases negotiation <;>
      simp [ofEnvelope, Negotiation.kind, Reads, read, Prod.ext_iff]
  | presence => cases negotiation <;> simp [ofEnvelope, Negotiation.kind]

theorem reads_toPayload (negotiation : Negotiation) : Reads negotiation.toPayload negotiation := by
  have key : IdentityKey := ⟨⟨.replicate 32 0⟩, ⟨.replicate 32 0⟩⟩
  exact (ofEnvelope_eq_ok_iff.1 (negotiation.ofEnvelope_toEnvelope key key)).2

theorem describing_named (connection : ConnectionId) (found : Candidate) :
    describing.ofTree? (namedPayload connection found).toTree = none := by
  have lacks : Fields.Lacks "description" (Fields.field "connection" .uint64 <|
      .field "description" (Wire.shape : Shape SessionDescription) .nil) (none, none, ()) :=
    .inr (.inl ⟨rfl, rfl, rfl⟩)
  refine lacks.ofTree? fun entry mem => ?_
  simp only [entryTrees, List.mem_cons, List.not_mem_nil, or_false] at mem
  rcases mem with rfl | rfl <;> simp

theorem naming_described (connection : ConnectionId) (description : SessionDescription) :
    naming.ofTree? (describedPayload connection description).toTree = none := by
  have lacks : Fields.Lacks "candidate" (Fields.field "connection" .uint64 <|
      .field "candidate" (Wire.shape : Shape Candidate) .nil) (none, none, ()) :=
    .inr (.inl ⟨rfl, rfl, rfl⟩)
  refine lacks.ofTree? fun entry mem => ?_
  simp only [entryTrees, List.mem_cons, List.not_mem_nil, or_false] at mem
  rcases mem with rfl | rfl <;> simp

theorem kind_of_reads_toPayload {negotiation other : Negotiation}
    (reads : Reads negotiation.toPayload other) :
    other.kind = .candidate ↔ negotiation.kind = .candidate := by
  revert reads
  cases negotiation <;> cases other <;>
    simp [Reads, toPayload, sorted_describing, sorted_naming, describing_named, naming_described,
      kind]

/-- Offers and answers may stand for each other, but not for candidates. -/
theorem exists_ofEnvelope_toPayload_iff {envelope : Envelope} {negotiation : Negotiation}
    (same : envelope.payload = negotiation.toPayload) :
    (∃ other, ofEnvelope envelope = .ok other) ↔ envelope.kind ≠ .presence ∧
      (envelope.kind = .candidate ↔ negotiation.kind = .candidate) := by
  constructor
  · rintro ⟨other, read⟩
    obtain ⟨kinds, reads⟩ := ofEnvelope_eq_ok_iff.1 read
    rw [same] at reads
    rw [← kinds]
    exact ⟨by cases other <;> nofun, kind_of_reads_toPayload reads⟩
  · rintro ⟨present, kinds⟩
    have reads := negotiation.reads_toPayload
    rw [← same] at reads
    obtain ⟨source, target, kind, payload⟩ := envelope
    cases negotiation with
    | offer connection description | answer connection description =>
      cases kind with
      | offer => exact ⟨.offer connection description, ofEnvelope_eq_ok_iff.2 ⟨rfl, reads⟩⟩
      | answer => exact ⟨.answer connection description, ofEnvelope_eq_ok_iff.2 ⟨rfl, reads⟩⟩
      | candidate => cases kinds.1 rfl
      | presence => exact absurd rfl present
    | candidate connection found =>
      cases kinds.2 rfl
      exact ⟨.candidate connection found, ofEnvelope_eq_ok_iff.2 ⟨rfl, reads⟩⟩

/-- The message in an envelope is of the kind of the envelope, and it is the same when its own
payload stands in place of the one it was read from. What is read as an offer is read as an answer
with the same content, and conversely. The payload of a message is read in the envelopes of
candidates if it is that of a candidate, and in those of offers and answers if it is not. Presence
has no message. -/
theorem kind_decides_message :
    (∀ (envelope : Envelope) (negotiation : Negotiation), ofEnvelope envelope = .ok negotiation →
      negotiation.kind = envelope.kind ∧
        ofEnvelope { envelope with payload := negotiation.toPayload } = .ok negotiation) ∧
      (∀ (envelope : Envelope) (connection : ConnectionId) (description : SessionDescription),
        ofEnvelope { envelope with kind := .offer } = .ok (.offer connection description) ↔
          ofEnvelope { envelope with kind := .answer } = .ok (.answer connection description)) ∧
      (∀ (envelope : Envelope) (negotiation : Negotiation),
        envelope.payload = negotiation.toPayload →
        ((∃ other, ofEnvelope envelope = .ok other) ↔ envelope.kind ≠ .presence ∧
          (envelope.kind = .candidate ↔ negotiation.kind = .candidate))) ∧
      ∀ envelope : Envelope, envelope.kind = .presence →
        ofEnvelope envelope = .error (.unexpectedKind .presence) := by
  refine ⟨fun envelope negotiation read => ?_, fun envelope connection description => ?_,
    fun envelope negotiation same => exists_ofEnvelope_toPayload_iff same,
    fun envelope present => ?_⟩
  · obtain ⟨kinds, -⟩ := ofEnvelope_eq_ok_iff.1 read
    exact ⟨kinds, ofEnvelope_eq_ok_iff.2 ⟨kinds, negotiation.reads_toPayload⟩⟩
  · rw [ofEnvelope_eq_ok_iff, ofEnvelope_eq_ok_iff]
    exact and_congr_left fun _ => iff_of_true rfl rfl
  · rw [ofEnvelope, present]

/-- A candidate whose payload is a list, with its kind as an entry and with leading zeros in its
address. Its own payload makes no offer, and no presence a message. -/
theorem listed_candidate_normalises :
    ∃ (envelope : Envelope) (found : Candidate), found.address = .v4 ⟨[10, 0, 0, 1], rfl⟩ 4000 ∧
      envelope.payload = .array [.ofUInt64 7,
        .array [.object [("host", .null)], .string "10.0.0.1:04000"]] ∧
      ofEnvelope envelope = .ok (.candidate 7 found) ∧
      let again : Envelope :=
        { envelope with payload := (Negotiation.candidate 7 found).toPayload }
      ofEnvelope again = .ok (.candidate 7 found) ∧
        (¬∃ other, ofEnvelope { again with kind := .offer } = .ok other) ∧
        ofEnvelope { again with kind := .presence } = .error (.unexpectedKind .presence) := by
  let key : IdentityKey := ⟨⟨.replicate 32 0⟩, ⟨.replicate 32 1⟩⟩
  let found : Candidate := ⟨.host, .v4 ⟨[10, 0, 0, 1], rfl⟩ 4000⟩
  let envelope : Envelope := ⟨key, key, .candidate, .array [.ofUInt64 7,
    .array [.object [("host", .null)], .string "10.0.0.1:04000"]]⟩
  have read : ofEnvelope envelope = .ok (.candidate 7 found) := rfl
  obtain ⟨normal, -, excluded, presence⟩ := kind_decides_message
  refine ⟨envelope, found, rfl, rfl, read, (normal envelope _ read).2, ?_, presence _ rfl⟩
  rw [excluded _ (.candidate 7 found) rfl]
  exact fun same => absurd (same.2.2 rfl) (by decide)

end Negotiation

end Confide
