import Confide.Proofs.Wire.Reading

/-! Items of each kind: if the parts of a value are read back, so is the value. -/

set_option autoImplicit false

namespace Confide

open Cbor

/-- Whether some value is written as null. Under an option such a value would be read as none. -/
def Shape.isNullable : {α : Type} → Shape α → Bool
  | _, .option _ => true
  | _, .convert base _ _ _ | _, .view base _ _ => base.isNullable
  | _, .byForm binary _ => binary.isNullable
  | _, _ => false

/-- An item from which a value is read back: its head, and then what follows the head. -/
structure Cbor.Item {α : Type} (read : Mark → Reader α) (bytes : Bytes) (value : α)
    (nullable : Bool) : Prop where
  intro ::
  item : ∃ head lead tail, bytes = lead ++ tail ∧ Leads lead head ∧
    (nullable = false → head.isPlain = true) ∧ ∀ offset, Reads (read ⟨head, offset⟩) tail value

section
variable {α β : Type} {depth : Nat}

theorem Cbor.Item.bind {read : Mark → Reader α} {next : α → Reader β} {bytes more : Bytes}
    {value : α} {other : β} {nullable : Bool} (item : Item read bytes value nullable)
    (step : Reads (next value) more other) :
    Reads (do next (← read (← readHead))) (bytes ++ more) other := by
  obtain ⟨head, lead, tail, rfl, leads, -, reads⟩ := item
  rw [List.append_assoc]
  exact leads.reads fun offset => (reads offset).bind step

theorem Cbor.Item.map {read : Mark → Reader α} {function : α → β} {bytes : Bytes} {value : α}
    {nullable : Bool} (item : Item read bytes value nullable) :
    Reads (do pure (function (← read (← readHead)))) bytes (function value) := by
  have whole : Reads (do pure (function (← read (← readHead)))) (bytes ++ []) (function value) :=
    item.bind (.pure (function value))
  rwa [List.append_nil] at whole

theorem Cbor.Item.reads {read : Mark → Reader α} {bytes : Bytes} {value : α} {nullable : Bool}
    (item : Item read bytes value nullable) : Reads (do read (← readHead)) bytes value := by
  obtain ⟨head, lead, tail, rfl, leads, -, reads⟩ := item
  exact leads.reads reads

theorem Shape.item_number {bound : Nat} (small : bound ≤ 2 ^ 64) (value : Fin bound) :
    Item ((Shape.number bound).read depth) ((Shape.number bound).encode value) value false := by
  have leads : Leads (encodeHead 0 value.val) (.positive value.val) :=
    leads_encodeHead (by decide) (by omega) fun _ => rfl
  refine ⟨_, _, [], (List.append_nil _).symm, leads, fun _ => rfl, fun offset => ?_⟩
  refine (reads_number value.val offset).bind_nil ?_
  rw [dif_pos value.isLt]
  exact .pure value

theorem Shape.item_octets {n : Nat} (small : n ≤ pieceLength) (value : Octets n) :
    Item ((Shape.octets n).read depth) ((Shape.octets n).encode value) value false := by
  have leads : Leads (encodeHead 2 n) (.bytes (some n)) :=
    leads_encodeHead (by decide) (by unfold pieceLength at small; omega) fun _ => rfl
  refine ⟨_, _, _, rfl, leads, fun _ => rfl, fun offset => ?_⟩
  refine (reads_untagged rfl).nil_bind ?_
  -- The head tells the length of the shape, which is that of the value.
  have length := value.length_toList
  have taken := reads_take value.toList
  rw [length] at taken
  simp only [if_pos small]
  refine taken.bind_nil ?_
  rw [Octets.ofList?_toList]
  exact .pure value

theorem Shape.item_blob {value : Bytes} (fits : value.length < 2 ^ 64) :
    Item (Shape.blob.read depth) (Shape.blob.encode value) value false := by
  have leads : Leads (encodeHead 2 value.length) (.bytes (some value.length)) :=
    leads_encodeHead (by decide) fits fun _ => rfl
  refine ⟨_, _, _, rfl, leads, fun _ => rfl, fun offset => ?_⟩
  exact (reads_untagged rfl).nil_bind (reads_blob value offset)

theorem Shape.item_list {item : Shape α} {values : List α} (fits : values.length < 2 ^ 64)
    (each : ∀ value ∈ values, Item (item.read depth) (item.encode value) value item.isNullable) :
    Item ((Shape.list item).read (depth + 1)) ((Shape.list item).encode values) values false := by
  have leads : Leads (encodeHead 4 values.length) (.array (some values.length)) :=
    leads_encodeHead (by decide) fits fun _ => rfl
  refine ⟨_, _, _, rfl, leads, fun _ => rfl, fun offset => ?_⟩
  refine (reads_untagged rfl).nil_bind ?_
  have collected := reads_collect (fun value mem sofar => (each value mem).map) []
  refine collected.bind_nil ?_
  rw [List.append_nil, List.reverse_reverse]
  exact .pure values

theorem Shape.item_entries {κ : Type} {key : Shape κ} {item : Shape α} {table : List (κ × α)}
    (fits : table.length < 2 ^ 64)
    (each : ∀ entry ∈ table, Item (key.read depth) (key.encode entry.1) entry.1 key.isNullable ∧
      Item (item.read depth) (item.encode entry.2) entry.2 item.isNullable) :
    Item ((Shape.entries key item).read (depth + 1)) ((Shape.entries key item).encode table) table
      false := by
  have leads : Leads (encodeHead 5 table.length) (.table (some table.length)) :=
    leads_encodeHead (by decide) fits fun _ => rfl
  refine ⟨_, _, _, rfl, leads, fun _ => rfl, fun offset => ?_⟩
  have parts : ∀ entry ∈ table, ∀ sofar, Reads (do
      let name ← key.read depth (← readHead)
      pure ((name, ← item.read depth (← readHead)) :: sofar))
      (key.encode entry.1 ++ item.encode entry.2) (entry :: sofar) := by
    rintro ⟨name, value⟩ mem sofar
    obtain ⟨first, second⟩ := each _ mem
    exact first.bind second.map
  refine (reads_table (reads_collect parts [])).bind_nil ?_
  rw [List.append_nil, List.reverse_reverse]
  exact .pure table

theorem Shape.item_convert {base : Shape α} {of? : α → Option β} {back : β → α}
    {of?_back : ∀ value, of? (back value) = some value} {value : β} {bytes : Bytes}
    {nullable : Bool} (item : Item (base.read depth) bytes (back value) nullable) :
    Item ((Shape.convert base of? back of?_back).read depth) bytes value nullable := by
  obtain ⟨head, lead, tail, whole, leads, plain, reads⟩ := item
  refine ⟨head, lead, tail, whole, leads, plain, fun offset => ?_⟩
  refine (reads offset).bind_nil ?_
  rw [of?_back]
  exact .pure value

theorem Shape.item_none {item : Shape α} :
    Item (item.option.read depth) (item.option.encode none) none true := by
  refine ⟨_, _, [], (List.append_nil _).symm, leads_null, nofun, fun offset => ?_⟩
  exact .pure none

theorem Shape.item_some {item : Shape α} {value : α}
    (present : Item (item.read depth) (item.encode value) value false) :
    Item (item.option.read depth) (item.option.encode (some value)) (some value) true := by
  obtain ⟨head, lead, tail, bytes, leads, plain, reads⟩ := present
  refine ⟨head, lead, tail, bytes, leads, nofun, fun offset => ?_⟩
  -- The head was looked at to tell the value from null: it is read again.
  have again : Reads (do pure (some (← item.read depth (← again ⟨head, offset⟩)))) tail
    (some value) := reads_again fun offset => (reads offset).map
  have plain := plain rfl
  cases head <;> first | exact again | cases plain

end

/-! ### Fields -/

namespace Fields

def entries : {σ α : Type} → Fields σ α → α → List (String × Bytes)
  | _, _, .nil, _ => []
  | _, _, .field name shape rest, value =>
    (name, shape.encode value.1) :: rest.entries value.2

/-- What is seen of a value if only some of its entries are there. -/
def seeing (keep : String → Bool) : {σ α : Type} → Fields σ α → α → σ
  | _, _, .nil, _ => ()
  | _, _, .field name _ rest, value =>
    (if keep name then some value.1 else none, rest.seeing keep value.2)

/-- The entries which are not there would hold what is assumed in their place. -/
def Leaves (keep : String → Bool) : {σ α : Type} → Fields σ α → α → Prop
  | _, _, .nil, _ => True
  | _, _, .field name shape rest, value =>
    (keep name = false → shape.absent? = some value.1) ∧ rest.Leaves keep value.2

/-- Entries which are read one after the other, each into its field. -/
inductive Fills {σ α : Type} (fields : Fields σ α) (depth : Nat) (closed : Bool) :
    σ → List (String × Bytes) → σ → Prop where
  | nil (seen : σ) : Fills fields depth closed seen [] seen
  | cons {name : String} {content : Bytes} {entries : List (String × Bytes)} {seen next last : σ}
      (readable : Readable name)
      (reads : Reads (fields.readEntry depth closed (Utf8.encode name) seen) content next)
      (rest : Fills fields depth closed next entries last) :
      Fills fields depth closed seen ((name, content) :: entries) last

variable {σ α β : Type} {fields : Fields σ α} {depth : Nat} {closed : Bool} {seen last : σ}
  {kept : List (String × Bytes)} {keep : String → Bool} {value : α}

theorem Fills.reads (fills : fields.Fills depth closed seen kept last) :
    Reads (counted (fun seen part => do
      let name ← readName part
      fields.readEntry depth closed name seen) kept.length seen)
      (kept.flatMap fun entry => encodeText entry.1 ++ entry.2) last := by
  induction fills with
  | nil seen => exact .pure seen
  | cons readable reads _ ih => exact reads_counted_succ (readable.reads reads) ih

-- Fields are looked for in their order, so the entries of the later ones come past this one.
theorem Fills.lift (fills : fields.Fills depth closed seen kept last) {own : String}
    (apart : ∀ entry ∈ kept, Utf8.encode entry.1 ≠ Utf8.encode own) (shape : Shape β)
    (held : Option β) :
    (Fields.field own shape fields).Fills depth closed (held, seen) kept (held, last) := by
  induction fills with
  | nil seen => exact .nil _
  | cons readable reads _ ih =>
    obtain ⟨first, later⟩ := List.forall_mem_cons.1 apart
    refine .cons readable ?_ (ih later)
    simp only [readEntry, if_neg first]
    exact reads.map

theorem map_fst_entries : {σ α : Type} → (fields : Fields σ α) → (value : α) →
    (fields.entries value).map (·.1) = fields.names
  | _, _, .nil, _ => rfl
  | _, _, .field name _ rest, value => congrArg (name :: ·) (map_fst_entries rest value.2)

theorem encode_eq : {σ α : Type} → (fields : Fields σ α) → (value : α) →
    fields.encode value = (fields.entries value).flatMap fun entry => encodeText entry.1 ++ entry.2
  | _, _, .nil, _ => rfl
  | _, _, .field name shape rest, value => by
    rw [Fields.encode, entries, List.flatMap_cons, encode_eq rest value.2]

theorem length_entries (fields : Fields σ α) (value : α) :
    (fields.entries value).length = fields.names.length := by
  rw [← map_fst_entries fields value, List.length_map]

theorem leaves_nothing : {σ α : Type} → (fields : Fields σ α) → (value : α) →
    fields.Leaves (fun _ => true) value
  | _, _, .nil, _ => trivial
  | _, _, .field _ _ rest, value => ⟨nofun, leaves_nothing rest value.2⟩

theorem value?_seeing : {σ α : Type} → (fields : Fields σ α) → (value : α) →
    fields.Leaves keep value → fields.value? (fields.seeing keep value) = some value
  | _, _, .nil, _, _ => rfl
  | _, _, .field name shape rest, value, leaves => by
    obtain ⟨left, others⟩ := leaves
    have tail := value?_seeing rest value.2 others
    -- Either the entry was read, or what is assumed in its place is the same.
    have head : ((if keep name then some value.1 else none).orElse fun _ => shape.absent?) =
        some value.1 := by
      cases kept : keep name with
      | true => rfl
      | false => exact left kept
    simp only [value?, seeing, head, tail]
    rfl

end Fields

theorem Shape.item_record {σ α : Type} {fields : Fields σ α} {depth : Nat} {closed : Bool}
    {keep : String → Bool} {value : α} (small : fields.names.length < 2 ^ 64)
    (fills : fields.Fills depth closed fields.unseen
      ((fields.entries value).filter (keep ·.1)) (fields.seeing keep value))
    (leaves : fields.Leaves keep value) :
    Item ((Shape.record closed fields).read (depth + 1))
      (encodeHead 5 ((fields.entries value).filter (keep ·.1)).length ++
        ((fields.entries value).filter (keep ·.1)).flatMap fun entry =>
          encodeText entry.1 ++ entry.2) value false := by
  have bound : ((fields.entries value).filter (keep ·.1)).length < 2 ^ 64 := by
    have fewer := List.length_filter_le (keep ·.1) (fields.entries value)
    rw [fields.length_entries value] at fewer
    omega
  have leads := leads_encodeHead (by decide : 5 < 8) bound fun _ => rfl
  refine ⟨_, _, _, rfl, leads, fun _ => rfl, fun offset => ?_⟩
  refine (reads_table fills.reads).bind_nil ?_
  rw [fields.value?_seeing value leaves]
  exact .pure value

/-! ### Alternatives -/

def Variants.names : {α : Type} → Variants α → List String
  | _, .nil => []
  | _, .plain name rest | _, .holding name _ rest | _, .fields name _ rest => name :: rest.names

namespace Variants

/-- A value is written as the name of its alternative, alone or in front of its content. -/
def Tells {α : Type} (variants : Variants α) (depth : Nat) (value : α) : Prop :=
  ∃ name content, name ∈ variants.names ∧ Readable name ∧
    Reads (variants.readContent depth (Utf8.encode name)) content value ∧
    (variants.encode value = encodeText name ∧ content = [] ∨
      variants.encode value = encodeHead 5 1 ++ encodeText name ++ content)

variable {α β : Type} {rest : Variants β} {depth : Nat}

theorem Tells.other {value : β} (tells : rest.Tells depth value) {variants : Variants (α ⊕ β)}
    {own : String} (apart : ∀ other ∈ rest.names, Utf8.encode other ≠ Utf8.encode own)
    (names : variants.names = own :: rest.names)
    (encode : variants.encode (.inr value) = rest.encode value)
    (read : ∀ name ≠ Utf8.encode own,
      variants.readContent depth name = do pure (.inr (← rest.readContent depth name))) :
    variants.Tells depth (.inr value) := by
  obtain ⟨name, content, mem, readable, reads, written⟩ := tells
  refine ⟨name, content, names ▸ List.mem_cons_of_mem own mem, readable, ?_, encode ▸ written⟩
  rw [read _ (apart name mem)]
  exact reads.map

end Variants

theorem Shape.item_choice {α : Type} {variants : Variants α} {depth : Nat} {value : α}
    (tells : variants.Tells depth value) :
    Item ((Shape.choice variants).read (depth + 1)) ((Shape.choice variants).encode value) value
      false := by
  obtain ⟨name, content, -, readable, reads, ⟨written, rfl⟩ | written⟩ := tells
  -- A name alone is an item of its own, whose head has to be read again.
  · refine ⟨_, _, _, written, readable.leads, fun _ => rfl, fun offset => ?_⟩
    refine (reads_untagged rfl).nil_bind (reads_again fun offset => ?_)
    exact (reads_name readable.short readable.valid offset).bind_nil reads
  · have leads := leads_encodeHead (by decide : 5 < 8) (by decide : 1 < 2 ^ 64) fun _ => rfl
    rw [List.append_assoc] at written
    refine ⟨_, _, _, written, leads, fun _ => rfl, fun offset => ?_⟩
    exact (reads_untagged rfl).nil_bind (readable.reads reads)

end Confide
