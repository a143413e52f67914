import Confide.Proofs.Digits
import Confide.Wire.Cbor

/-! Readers on the bytes they are meant for: heads, names, and strings come back as they were
written, whatever follows them. -/

set_option autoImplicit false

namespace Confide.Cbor

/-- The reader takes just these bytes, whatever follows them, and gives the value. -/
def Reads {α : Type} (reader : Reader α) (bytes : Bytes) (value : α) : Prop :=
  ∀ rest offset, ∃ offset', reader ⟨bytes ++ rest, offset⟩ = .ok (value, ⟨rest, offset'⟩)

def Leads (bytes : Bytes) (head : Head) : Prop :=
  ∀ rest offset, ∃ offset',
    readHead ⟨bytes ++ rest, offset⟩ = .ok (⟨head, offset⟩, ⟨rest, offset'⟩)

def Head.isPlain : Head → Bool
  | .positive _ | .bytes _ | .text _ | .array _ | .table _ => true
  | .negative _ | .tag _ | .simple _ | .float | .stop => false

section
variable {α β : Type} {reader : Reader α} {next : α → Reader β} {bytes more : Bytes} {value : α}
  {other : β} {head : Head}

theorem run_bind {cursor cursor' : Cursor} (first : reader cursor = .ok (value, cursor')) :
    (reader >>= next) cursor = next value cursor' := by
  change (reader cursor >>= fun result => next result.1 result.2) = _
  rw [first]
  rfl

theorem Reads.pure (value : α) : Reads (pure value) [] value :=
  fun _ offset => ⟨offset, rfl⟩

theorem Reads.bind (first : Reads reader bytes value) (second : Reads (next value) more other) :
    Reads (reader >>= next) (bytes ++ more) other := by
  intro rest offset
  obtain ⟨offset', here⟩ := first (more ++ rest) offset
  obtain ⟨offset'', there⟩ := second rest offset'
  refine ⟨offset'', ?_⟩
  rw [List.append_assoc]
  exact (run_bind here).trans there

theorem Reads.nil_bind (first : Reads reader [] value) (second : Reads (next value) more other) :
    Reads (reader >>= next) more other :=
  first.bind second

theorem Reads.bind_nil (first : Reads reader bytes value) (second : Reads (next value) [] other) :
    Reads (reader >>= next) bytes other := by
  have whole := first.bind second
  rwa [List.append_nil] at whole

theorem Reads.map {function : α → β} (first : Reads reader bytes value) :
    Reads (do Pure.pure (function (← reader))) bytes (function value) :=
  first.bind_nil (.pure _)

theorem take_append (bytes rest : Bytes) (offset : Nat) :
    Reader.take bytes.length ⟨bytes ++ rest, offset⟩ =
      .ok (bytes, ⟨rest, offset + bytes.length⟩) := by
  have enough : bytes.length ≤ (bytes ++ rest).length := by simp
  rw [Reader.take, if_pos enough, List.take_left, List.drop_left]

theorem reads_take (bytes : Bytes) : Reads (Reader.take bytes.length) bytes bytes :=
  fun rest offset => ⟨_, take_append bytes rest offset⟩

-- The reader is given as many steps as there are bytes left, those behind the item among them. So
-- how many there are is not known here.
theorem reads_steps {next : Nat → Reader β} (enough : ∀ steps, Reads (next steps) bytes other) :
    Reads (do next (← Reader.steps)) bytes other :=
  fun rest offset => enough (bytes ++ rest).length rest offset

theorem reads_again {next : Mark → Reader β} {mark : Mark}
    (step : ∀ offset, Reads (next ⟨mark.head, offset⟩) bytes other) :
    Reads (do next (← again mark)) bytes other :=
  fun rest offset => step (offset - mark.head.length) rest offset

theorem Leads.reads {next : Mark → Reader β} (leads : Leads bytes head)
    (step : ∀ offset, Reads (next ⟨head, offset⟩) more other) :
    Reads (do next (← readHead)) (bytes ++ more) other := by
  intro rest offset
  obtain ⟨offset', here⟩ := leads (more ++ rest) offset
  obtain ⟨offset'', there⟩ := step offset rest offset'
  refine ⟨offset'', ?_⟩
  rw [List.append_assoc]
  exact (run_bind here).trans there

/-! ### Heads -/

theorem readHead_cons {major low : Nat} {argument rest : Bytes} {offset : Nat}
    (small : major < 8) (low_lt : low < 31) (width : argumentWidth? low = some argument.length)
    (meaning : Head.of? major
      (some (if argument.length = 0 then low else Bytes.natBE argument)) argument.length =
        some head) :
    readHead ⟨.ofNat (32 * major + low) :: argument ++ rest, offset⟩ =
      .ok (⟨head, offset⟩, ⟨rest, offset + 1 + argument.length⟩) := by
  -- The upper three bits of the first byte are the kind, the lower five are the argument or say how
  -- long it is.
  have byte : Bytes.natBE [UInt8.ofNat (32 * major + low)] = 32 * major + low := by
    simp [Bytes.natBE, Bytes.natLE]
    omega
  have low' : (32 * major + low) % 32 = low := by omega
  have major' : (32 * major + low) / 32 = major := by omega
  have first := take_append [.ofNat (32 * major + low)] (argument ++ rest) offset
  have second := take_append argument rest (offset + 1)
  have known : low ≠ 31 := by omega
  refine (run_bind rfl).trans ((run_bind first).trans ?_)
  simp only [byte, low', major', width]
  refine (run_bind second).trans ?_
  simp only [if_neg known, meaning]
  rfl

theorem leads_wide {major low n value : Nat} (small : major < 8) (low_lt : low < 31)
    (width : argumentWidth? low = some n) (positive : n ≠ 0) (bound : value < 256 ^ n)
    (meaning : Head.of? major (some value) n = some head) :
    Leads (.ofNat (32 * major + low) :: Bytes.ofNatBE n value) head := by
  intro rest offset
  have size := Bytes.length_ofNatBE n value
  refine ⟨_, readHead_cons small low_lt (by rw [size, width]) ?_⟩
  rw [size, if_neg positive, Bytes.natBE_ofNatBE, Nat.mod_eq_of_lt bound, meaning]

theorem leads_encodeHead {major value : Nat} (small : major < 8) (bound : value < 2 ^ 64)
    (meaning : ∀ width, Head.of? major (some value) width = some head) :
    Leads (encodeHead major value) head := by
  unfold encodeHead argument
  -- One case for each length of the argument. The meaning of a head must not depend on it.
  by_cases direct : value < 24
  · intro rest offset
    rw [if_pos direct]
    exact ⟨_, readHead_cons small (by omega) (if_pos direct) (meaning 0)⟩
  rw [if_neg direct]
  by_cases one : value < 0x100
  · rw [if_pos one]
    exact leads_wide small (by simp) rfl (by decide) one (meaning 1)
  rw [if_neg one]
  by_cases two : value < 0x10000
  · rw [if_pos two]
    exact leads_wide small (by simp) rfl (by decide) two (meaning 2)
  rw [if_neg two]
  by_cases four : value < 0x100000000
  · rw [if_pos four]
    exact leads_wide small (by simp) rfl (by decide) four (meaning 4)
  · rw [if_neg four]
    exact leads_wide small (by simp) rfl (by decide) bound (meaning 8)

theorem leads_null : Leads (encodeHead 7 22) (.simple 22) := by
  intro rest offset
  exact ⟨_, readHead_cons (by decide) (by decide) rfl rfl⟩

/-! ### Parts of items -/

theorem skipTags_of_plain {mark : Mark} (plain : mark.head.isPlain = true) (fuel : Nat) :
    skipTags fuel mark = Pure.pure mark := by
  obtain ⟨head, offset⟩ := mark
  cases fuel <;> cases head <;> first | rfl | cases plain

theorem reads_untagged {mark : Mark} (plain : mark.head.isPlain = true) :
    Reads (untagged mark) [] mark := by
  refine reads_steps fun steps => ?_
  rw [skipTags_of_plain plain]
  exact .pure mark

theorem reads_number (n offset : Nat) : Reads (readNumber ⟨.positive n, offset⟩) [] n :=
  reads_steps fun _ => .pure n

theorem reads_blob (blob : Bytes) (offset : Nat) :
    Reads (readBlob ⟨.bytes (some blob.length), offset⟩) blob blob := by
  refine reads_again fun offset => reads_steps fun steps => ?_
  exact Reads.bind_nil (reads_take blob).map (.pure blob)

theorem reads_name {name : Bytes} (short : name.length ≤ pieceLength)
    (valid : Utf8.isValid name = true) (offset : Nat) :
    Reads (readName ⟨.text (some name.length), offset⟩) name name := by
  refine (reads_untagged rfl).nil_bind ?_
  -- A longer name would be read in pieces.
  simp only [if_pos short]
  refine (reads_take name).bind_nil ?_
  rw [if_pos valid]
  exact .pure name

theorem reads_counted_succ {σ : Type} {step : σ → Mark → Reader σ} {count : Nat} {s s' s'' : σ}
    (first : Reads (do step s (← readHead)) bytes s')
    (rest : Reads (counted step count s') more s'') :
    Reads (counted step (count + 1) s) (bytes ++ more) s'' := by
  have whole := first.bind rest
  rwa [bind_assoc] at whole

theorem reads_collect {step : List α → Mark → Reader (List α)} {encode : α → Bytes}
    {values : List α}
    (each : ∀ value ∈ values, ∀ sofar,
      Reads (do step sofar (← readHead)) (encode value) (value :: sofar)) (sofar : List α) :
    Reads (counted step values.length sofar) (values.flatMap encode) (values.reverse ++ sofar) := by
  -- The last value read stands first in what was collected.
  induction values generalizing sofar with
  | nil => exact .pure sofar
  | cons value rest ih =>
    obtain ⟨first, later⟩ := List.forall_mem_cons.1 each
    rw [List.length_cons, List.flatMap_cons, List.reverse_cons, List.append_assoc]
    exact reads_counted_succ (first sofar) (ih later (value :: sofar))

theorem reads_table {σ : Type} {entry : Nat → σ → Mark → Reader σ} {depth count offset : Nat}
    {s s' : σ} (entries : Reads (counted (entry depth) count s) bytes s') :
    Reads (readTable (depth + 1) entry s ⟨.table (some count), offset⟩) bytes s' :=
  (reads_untagged rfl).nil_bind entries

end

/-! ### Names -/

structure Readable (name : String) : Prop where
  short : (Utf8.encode name).length ≤ pieceLength
  valid : Utf8.isValid (Utf8.encode name) = true

theorem Readable.leads {name : String} (readable : Readable name) :
    Leads (encodeHead 3 (Utf8.encode name).length) (.text (some (Utf8.encode name).length)) := by
  have short := readable.short
  unfold pieceLength at short
  exact leads_encodeHead (by decide) (by omega) fun _ => rfl

theorem Readable.reads {α : Type} {name : String} (readable : Readable name)
    {next : Bytes → Reader α} {more : Bytes} {value : α}
    (step : Reads (next (Utf8.encode name)) more value) :
    Reads (do next (← readName (← readHead))) (encodeText name ++ more) value := by
  rw [encodeText, List.append_assoc]
  exact readable.leads.reads fun offset =>
    (reads_name readable.short readable.valid offset).bind step

end Confide.Cbor
