import Confide.Proofs.Wire.RoundTrip

/-! An input which was cut short is never taken for another value: every reader either runs out of
input or gives what it gives on the whole. Since a written value is read up to its last byte, no
beginning of it is read at all. -/

set_option autoImplicit false

namespace Confide

open Cbor

namespace Cbor

def Cursor.extend (cursor : Cursor) (more : Bytes) : Cursor := ⟨cursor.rest ++ more, cursor.offset⟩

/-- What the second reader gives on the whole input, the first one gives on a beginning of it, unless
it runs out of input. -/
def Agrees {α : Type} (short long : Reader α) : Prop :=
  ∀ (cursor : Cursor) (more : Bytes) (value : α) (after : Cursor),
    long (cursor.extend more) = .ok (value, after) →
      short cursor = .error .endOfInput ∨
        ∃ left : Cursor, after = left.extend more ∧ short cursor = .ok (value, left)

/-- A reader which cannot be made to give something else by cutting its input short. -/
def Steady {α : Type} (reader : Reader α) : Prop := Agrees reader reader

section
variable {α β : Type} {short long reader : Reader α}

theorem run_bind_error {next : α → Reader β} {cursor : Cursor} {error : Error}
    (failed : reader cursor = .error error) : (reader >>= next) cursor = .error error := by
  change (reader cursor >>= fun result => next result.1 result.2) = _
  rw [failed]
  rfl

theorem exists_of_run_bind {next : α → Reader β} {cursor after : Cursor} {other : β}
    (done : (reader >>= next) cursor = .ok (other, after)) :
    ∃ value between, reader cursor = .ok (value, between) ∧
      next value between = .ok (other, after) := by
  change (reader cursor >>= fun result => next result.1 result.2) = _ at done
  cases first : reader cursor with
  | error error =>
    rw [first] at done
    cases done
  | ok result =>
    rw [first] at done
    exact ⟨result.1, result.2, rfl, done⟩

theorem Agrees.ended (long : Reader α) : Agrees (Reader.fail .endOfInput) long :=
  fun _ _ _ _ _ => .inl rfl

theorem Agrees.bind {next next' : α → Reader β} (first : Agrees short long)
    (second : ∀ value, Agrees (next value) (next' value)) :
    Agrees (short >>= next) (long >>= next') := by
  intro cursor more other after done
  obtain ⟨value, between, whole, there⟩ := exists_of_run_bind done
  rcases first cursor more value between whole with ended | ⟨left, rfl, here⟩
  · exact .inl (run_bind_error ended)
  · rw [run_bind here]
    exact second value left more other after there

theorem Steady.pure (value : α) : Steady (Pure.pure value) := by
  intro cursor more other after done
  cases done
  exact .inr ⟨cursor, rfl, rfl⟩

theorem steady_fail (error : Error) : Steady (Reader.fail error : Reader α) :=
  fun _ _ _ _ done => nomatch done

theorem Steady.bind {next : α → Reader β} (first : Steady reader)
    (second : ∀ value, Steady (next value)) : Steady (reader >>= next) :=
  Agrees.bind first second

theorem Steady.map {function : α → β} (steady : Steady reader) :
    Steady (do Pure.pure (function (← reader))) :=
  steady.bind fun _ => .pure _

theorem steady_take (n : Nat) : Steady (Reader.take n) := by
  intro cursor more value after done
  by_cases enough : n ≤ cursor.rest.length
  · have whole : n ≤ (cursor.extend more).rest.length := by
      simp only [Cursor.extend, List.length_append]
      omega
    rw [Reader.take, if_pos whole] at done
    cases done
    refine .inr ⟨⟨cursor.rest.drop n, cursor.offset + n⟩, ?_, ?_⟩
    · simp only [Cursor.extend, List.drop_append_of_le_length enough]
    · rw [Reader.take, if_pos enough]
      simp only [Cursor.extend, List.take_append_of_le_length enough]
  · exact .inl (if_neg enough)

theorem steady_offset : Steady Reader.offset := by
  intro cursor more value after done
  cases done
  exact .inr ⟨cursor, rfl, rfl⟩

-- A shorter input allows fewer steps. A loop which has used them up reports the end of the input.
theorem steady_steps {next : Nat → Reader β}
    (fewer : ∀ first second, first ≤ second → Agrees (next first) (next second)) :
    Steady (do next (← Reader.steps)) := by
  intro cursor more other after done
  have bound : cursor.rest.length ≤ (cursor.extend more).rest.length := by
    simp only [Cursor.extend, List.length_append]
    omega
  exact fewer _ _ bound cursor more other after done

end

/-! ### Heads -/

theorem steady_readHead : Steady readHead := by
  unfold readHead
  refine steady_offset.bind fun start => (steady_take 1).bind fun first => ?_
  dsimp only
  split
  · exact steady_fail _
  · refine (steady_take _).bind fun bytes => ?_
    split
    · exact steady_fail _
    · exact .pure _

theorem steady_again (mark : Mark) : Steady (again mark) :=
  steady_offset.bind fun _ => .pure _

-- By recursion on the steps which the shorter input allows; so are the other loops.
theorem agrees_skipTags : {first second : Nat} → first ≤ second → (mark : Mark) →
    Agrees (skipTags first mark) (skipTags second mark)
  | 0, second, _, ⟨head, offset⟩ => by
    cases head with
    | tag number => exact .ended _
    | _ => cases second <;> exact Steady.pure _
  | first + 1, second + 1, fewer, ⟨head, offset⟩ => by
    cases head with
    | tag number =>
      exact Agrees.bind steady_readHead fun mark =>
        agrees_skipTags (Nat.le_of_succ_le_succ fewer) mark
    | _ => exact Steady.pure _

theorem steady_untagged (mark : Mark) : Steady (untagged mark) :=
  steady_steps fun _ _ fewer => agrees_skipTags (Nat.succ_le_succ fewer) mark

section
variable {σ : Type} {step : σ → Mark → Reader σ}

theorem steady_counted (each : ∀ s mark, Steady (step s mark)) (count : Nat) (s : σ) :
    Steady (counted step count s) := by
  induction count generalizing s with
  | zero => exact .pure s
  | succ count ih =>
    exact steady_readHead.bind fun mark => (each s mark).bind fun next => ih next

theorem agrees_stopped (each : ∀ s mark, Steady (step s mark)) : {first second : Nat} →
    first ≤ second → (s : σ) → Agrees (stopped step first s) (stopped step second s)
  | 0, _, _, _ => .ended _
  | first + 1, second + 1, fewer, s => by
    refine Agrees.bind steady_readHead fun mark => ?_
    obtain ⟨head, offset⟩ := mark
    cases head with
    | stop => exact Steady.pure s
    | _ =>
      exact Agrees.bind (steady_again _) fun mark => Agrees.bind (each s mark) fun next =>
        agrees_stopped each (Nat.le_of_succ_le_succ fewer) next

theorem steady_parts (each : ∀ s mark, Steady (step s mark)) (length : Option Nat) (s : σ) :
    Steady (parts length step s) := by
  cases length with
  | none => exact steady_steps fun _ _ fewer => agrees_stopped each (Nat.succ_le_succ fewer) s
  | some count => exact steady_counted each count s

end

theorem steady_nextPart (left : Option Nat) : Steady (nextPart left) := by
  unfold nextPart
  split
  · exact steady_fail _
  · exact steady_readHead
  · refine steady_readHead.bind fun mark => ?_
    split
    · exact steady_fail _
    · exact steady_again _

theorem steady_deeper {α : Type} {inner : Nat → Reader α} (each : ∀ depth, Steady (inner depth))
    (depth : Nat) : Steady (deeper depth inner) := by
  cases depth with
  | zero => exact steady_fail _
  | succ depth => exact each depth

/-! ### Parts of items -/

section
variable {σ : Type} {lengthOf : Head → Option (Option Nat)} {part : σ → Nat → Nat → Reader σ}

theorem agrees_segmentsFrom (each : ∀ s length start, Steady (part s length start)) :
    {first second : Nat} → first ≤ second → (nested : Nat) → (s : σ) → (mark : Mark) →
    Agrees (segmentsFrom lengthOf part nested first s mark)
      (segmentsFrom lengthOf part nested second s mark)
  | 0, _, _, _, _, _ => .ended _
  | first + 1, second + 1, fewer, nested, s, mark => by
    have later := fun nested s => Agrees.bind steady_readHead fun mark =>
      agrees_segmentsFrom each (Nat.le_of_succ_le_succ fewer) nested s mark
    unfold segmentsFrom
    split
    · exact Steady.pure s
    · exact later _ s
    · split
      · exact steady_fail _
      · exact later _ s
      · refine Agrees.bind (each s _ _) fun next => ?_
        split
        · exact Steady.pure _
        · exact later _ next

theorem steady_segments (each : ∀ s length start, Steady (part s length start)) (s : σ)
    (mark : Mark) : Steady (segments lengthOf part s mark) := by
  refine (steady_again mark).bind fun mark => steady_steps fun _ _ fewer => ?_
  exact agrees_segmentsFrom each (Nat.add_le_add_right fewer 2) 0 s mark

end

theorem steady_readBlob (mark : Mark) : Steady (readBlob mark) :=
  steady_segments (fun _ length _ => (steady_take length).map) [] mark

-- How the text is cut into pieces depends on its length alone, not on what is left of the input.
theorem agrees_readText (start : Nat) : {first second : Nat} → first ≤ second → (left : Nat) →
    (pending : Bytes) →
    Agrees (readText start first left pending) (readText start second left pending)
  | 0, _, _, _, _ => .ended _
  | first + 1, second + 1, fewer, left, pending => by
    unfold readText
    split
    · split
      · exact Steady.pure []
      · exact steady_fail _
    · refine Agrees.bind (steady_take _) fun piece => ?_
      dsimp only
      split
      · exact steady_fail _
      · exact Agrees.bind (agrees_readText start (Nat.le_of_succ_le_succ fewer) _ _) fun rest =>
          Steady.pure _

theorem steady_readTextSegments (mark : Mark) : Steady (readTextSegments mark) := by
  refine steady_segments (fun sofar length start => ?_) [] mark
  exact steady_steps fun _ _ fewer =>
    Agrees.bind (agrees_readText start (Nat.succ_le_succ fewer) length []) fun _ => Steady.pure _

theorem steady_readShortText (mark : Mark) (length : Nat) : Steady (readShortText mark length) := by
  refine (steady_take length).bind fun bytes => ?_
  split
  · exact .pure bytes
  · exact steady_fail _

theorem steady_readName (mark : Mark) : Steady (readName mark) := by
  refine (steady_untagged mark).bind fun mark => ?_
  split
  · split
    · exact steady_readShortText mark _
    · exact steady_fail _
  · split
    · exact steady_take _
    · exact steady_fail _
  · exact steady_fail _

theorem agrees_digits : {first second : Nat} → first ≤ second → (left : Nat) → (sofar : Bytes) →
    Agrees (digits first left sofar) (digits second left sofar)
  | 0, _, _, _, _ => .ended _
  | first + 1, second + 1, fewer, left, sofar => by
    unfold digits
    split
    · exact Steady.pure sofar
    · refine Agrees.bind (steady_take _) fun piece => ?_
      dsimp only
      generalize (if sofar.isEmpty = true then _ else _) = sofar
      split
      · exact steady_fail _
      · exact agrees_digits (Nat.le_of_succ_le_succ fewer) _ _

theorem steady_readDigits : Steady readDigits := by
  refine steady_readHead.bind fun mark => ?_
  split
  · refine (steady_segments (fun sofar length _ => ?_) [] mark).map
    exact steady_steps fun _ _ fewer => agrees_digits (Nat.succ_le_succ fewer) length sofar
  · exact steady_fail _

theorem agrees_readNumberFrom : {first second : Nat} → first ≤ second → (mark : Mark) →
    Agrees (readNumberFrom first mark) (readNumberFrom second mark)
  | 0, _, _, _ => .ended _
  | first + 1, second + 1, fewer, mark => by
    unfold readNumberFrom
    split
    · exact Steady.pure _
    · exact steady_readDigits
    · exact steady_readDigits.bind fun _ => steady_fail _
    · exact Agrees.bind steady_readHead fun mark =>
        agrees_readNumberFrom (Nat.le_of_succ_le_succ fewer) mark
    · exact steady_fail _

theorem steady_readNumber (mark : Mark) : Steady (readNumber mark) :=
  steady_steps fun _ _ fewer => agrees_readNumberFrom (Nat.succ_le_succ fewer) mark

theorem steady_passFlat {nested : Nat → Reader Unit} (each : ∀ depth, Steady (nested depth))
    (depth : Nat) (mark : Mark) : Steady (passFlat depth mark nested) := by
  unfold passFlat
  split
  -- Numbers.
  · exact .pure ()
  · exact .pure ()
  · exact .pure ()
  -- Strings.
  · split
    · exact (steady_take _).map
    · exact (steady_readBlob _).map
  · exact (steady_readBlob _).map
  · split
    · exact (steady_again _).bind fun mark => (steady_readShortText mark _).map
    · exact (steady_readTextSegments _).map
  · exact (steady_readTextSegments _).map
  -- Large numbers, then simple values and a stop out of place.
  · exact steady_readDigits.map
  · refine steady_readDigits.bind fun value => ?_
    split
    · exact .pure ()
    · exact steady_fail _
  · split
    · exact .pure ()
    · exact steady_fail _
  · exact steady_fail _
  -- Whatever holds other items.
  · exact steady_deeper each depth
  · exact steady_deeper each depth
  · exact steady_deeper each depth

theorem steady_pass : (depth : Nat) → (mark : Mark) → Steady (pass depth mark)
  | 0, mark => steady_passFlat (fun _ => .pure ()) 0 mark
  | depth + 1, ⟨head, offset⟩ => by
    refine steady_passFlat (fun _ => ?_) (depth + 1) _
    cases head with
    | array length => exact steady_parts (fun _ part => steady_pass depth part) length ()
    | table length =>
      exact steady_parts (fun _ key => (steady_pass depth key).bind fun _ =>
        steady_readHead.bind fun mark => steady_pass depth mark) length ()
    | _ => exact steady_readHead.bind fun mark => steady_pass depth mark

/-! ### Items -/

section
variable {α : Type}

theorem steady_ofOption (value : Option α) : Steady (ofOption value) := by
  cases value with
  | none => exact steady_fail _
  | some value => exact .pure value

theorem steady_readVector {item : Mark → Reader α} (each : ∀ mark, Steady (item mark)) :
    (count : Nat) → (left : Option Nat) → Steady (readVector item count left)
  | 0, _ => .pure _
  | count + 1, left => (steady_nextPart left).bind fun mark => (each mark).bind fun _ =>
      (steady_readVector each count _).map

theorem steady_readByte (mark : Mark) : Steady (readByte mark) := by
  refine (steady_readNumber mark).bind fun value => ?_
  split
  · exact .pure _
  · exact steady_fail _

theorem steady_readOctets (n depth : Nat) (mark : Mark) : Steady (readOctets n depth mark) := by
  refine (steady_untagged mark).bind fun mark => ?_
  split
  · split
    · exact (steady_take _).bind fun bytes => steady_ofOption _
    · exact steady_fail _
  · exact steady_deeper (fun _ => (steady_readVector steady_readByte n _).map) depth
  · exact steady_fail _

theorem steady_readParts {step : List α → Mark → Reader (List α)} (length : Option Nat)
    (each : ∀ sofar mark, Steady (step sofar mark)) :
    Steady (do pure (← parts length step []).reverse) :=
  (steady_parts each length []).map

theorem steady_readList {item : Nat → Mark → Reader α} {ofByte? : UInt8 → Option α}
    (each : ∀ depth mark, Steady (item depth mark)) (depth : Nat) (mark : Mark) :
    Steady (readList depth item ofByte? mark) := by
  refine (steady_untagged mark).bind fun mark => ?_
  split
  · exact steady_deeper (fun depth =>
      steady_readParts _ fun sofar part => (each depth part).map) depth
  · exact (steady_readBlob mark).bind fun bytes => steady_ofOption _
  · exact steady_fail _

theorem steady_readBytes (depth : Nat) (mark : Mark) : Steady (readBytes depth mark) := by
  refine (steady_untagged mark).bind fun mark => ?_
  split
  · exact steady_deeper (fun _ =>
      steady_readParts _ fun sofar part => (steady_readByte part).map) depth
  · exact steady_readBlob mark
  · exact steady_fail _

theorem steady_readString (mark : Mark) : Steady (readString mark) := by
  refine (steady_untagged mark).bind fun mark => ?_
  split
  · exact (steady_readTextSegments mark).bind fun bytes => steady_ofOption _
  · exact steady_fail _

theorem steady_readTable {σ : Type} {entry : Nat → σ → Mark → Reader σ}
    (each : ∀ depth s mark, Steady (entry depth s mark)) (depth : Nat) (s : σ) (mark : Mark) :
    Steady (readTable depth entry s mark) := by
  refine (steady_untagged mark).bind fun mark => ?_
  split
  · exact steady_deeper (fun depth => steady_parts (each depth) _ s) depth
  · exact steady_fail _

end

end Cbor

/-! ### All shapes -/

-- By recursion on the shape. Nothing is asked of it: also a shape whose values are not told apart by
-- their bytes is read steadily.
mutual

theorem Shape.steady_read : {α : Type} → (shape : Shape α) → (depth : Nat) → (mark : Mark) →
    Steady (shape.read depth mark)
  | _, .number bound, _, mark => by
    refine (steady_readNumber mark).bind fun value => ?_
    split
    · exact .pure _
    · exact steady_fail _
  | _, .octets n, depth, mark => steady_readOctets n depth mark
  | _, .blob, depth, mark => steady_readBytes depth mark
  | _, .text, _, mark => steady_readString mark
  | _, .list item, depth, mark => steady_readList item.steady_read depth mark
  | _, .vector n item, depth, mark => by
    refine (steady_untagged mark).bind fun mark => ?_
    split
    · exact steady_deeper (fun depth => steady_readVector (item.steady_read depth) n _) depth
    · refine (steady_readBlob mark).bind fun bytes => ?_
      split
      · exact steady_fail _
      · split
        · exact .pure _
        · exact steady_fail _
    · exact steady_fail _
  | _, .pair first second, depth, mark => by
    refine (steady_untagged mark).bind fun mark => ?_
    split
    · refine steady_deeper (fun depth => ?_) depth
      exact (steady_nextPart _).bind fun mark => (first.steady_read depth mark).bind fun value =>
        (steady_nextPart _).bind fun mark => (second.steady_read depth mark).map
    · refine (steady_readBlob mark).bind fun bytes => ?_
      split
      · exact (steady_ofOption _).bind fun value => (steady_ofOption _).map
      · exact steady_fail _
    · exact steady_fail _
  | _, .entries key value, depth, mark => by
    refine (steady_readTable (fun depth sofar part => ?_) depth [] mark).map
    exact (key.steady_read depth part).bind fun name => steady_readHead.bind fun mark =>
      (value.steady_read depth mark).map
  | _, .option item, depth, mark => by
    unfold Shape.read
    split
    · exact .pure none
    · exact .pure none
    · exact (steady_again mark).bind fun mark => (item.steady_read depth mark).map
  | _, .record closed fields, depth, mark => by
    refine (steady_readTable (fun depth seen part => ?_) depth fields.unseen mark).bind fun seen =>
      steady_ofOption _
    exact (steady_readName part).bind fun name => fields.steady_readEntry depth closed name seen
  | _, .choice variants, depth, mark => by
    refine (steady_untagged mark).bind fun mark => ?_
    split
    · exact steady_deeper (fun depth => steady_readHead.bind fun mark =>
        (steady_readName mark).bind fun name => variants.steady_readContent depth name) depth
    · exact steady_deeper (fun depth => (steady_again mark).bind fun mark =>
        (steady_readName mark).bind fun name => variants.steady_readContent depth name) depth
    · exact steady_fail _
  | _, .convert base of? _ _, depth, mark =>
    (base.steady_read depth mark).bind fun value => steady_ofOption (of? value)
  | _, .view base of? _, depth, mark =>
    (base.steady_read depth mark).bind fun value => steady_ofOption (of? value)
  | _, .byForm binary _, depth, mark => binary.steady_read depth mark

theorem Fields.steady_readEntry : {σ α : Type} → (fields : Fields σ α) → (depth : Nat) →
    (closed : Bool) → (name : Bytes) → (seen : σ) →
    Steady (fields.readEntry depth closed name seen)
  | _, _, .nil, depth, closed, _, seen => by
    unfold Fields.readEntry
    split
    · exact steady_fail _
    · exact steady_readHead.bind fun mark => (steady_pass depth mark).map
  | _, _, .field own shape rest, depth, closed, name, seen => by
    unfold Fields.readEntry
    split
    · split
      · exact steady_fail _
      · exact steady_readHead.bind fun mark => (shape.steady_read depth mark).map
    · exact (rest.steady_readEntry depth closed name seen.2).map

theorem Fields.steady_readParts : {σ α : Type} → (fields : Fields σ α) → (depth : Nat) →
    (left : Option Nat) → Steady (fields.readParts depth left)
  | _, _, .nil, _, _ => .pure ()
  | _, _, .field _ shape rest, depth, left => (steady_nextPart left).bind fun mark =>
      (shape.steady_read depth mark).bind fun _ => (rest.steady_readParts depth _).map

theorem Variants.steady_readContent : {α : Type} → (variants : Variants α) → (depth : Nat) →
    (name : Bytes) → Steady (variants.readContent depth name)
  | _, .nil, _, _ => steady_fail _
  | _, .plain own rest, depth, name => by
    unfold Variants.readContent
    split
    · exact .pure _
    · exact (rest.steady_readContent depth name).map
  | _, .holding own shape rest, depth, name => by
    unfold Variants.readContent
    split
    · exact steady_readHead.bind fun mark => (shape.steady_read depth mark).map
    · exact (rest.steady_readContent depth name).map
  | _, .fields own fields rest, depth, name => by
    unfold Variants.readContent
    split
    · refine steady_readHead.bind fun mark => ?_
      split
      · refine steady_deeper (fun depth => ?_) depth
        refine (steady_parts (fun seen part => ?_) _ fields.unseen).bind fun seen =>
          (steady_ofOption _).map
        exact (steady_readName part).bind fun name => fields.steady_readEntry depth false name seen
      · exact steady_deeper (fun depth => (fields.steady_readParts depth _).map) depth
      · exact (steady_passFlat (fun _ => .pure ()) depth mark).bind fun _ => steady_fail _
    · exact (rest.steady_readContent depth name).map

end

/-! ### Whole inputs -/

namespace Cbor

/-- A beginning of an input which is read either ends too early or holds the same value, and what
follows the value there is cut off as the input is. -/
theorem decodeItem_of_append {α : Type} {shape : Shape α} {part more rest : Bytes} {value : α}
    (whole : decodeItem shape (part ++ more) = .ok (value, rest)) :
    decodeItem shape part = .error .endOfInput ∨
      ∃ left, rest = left ++ more ∧ decodeItem shape part = .ok (value, left) := by
  have steady : Steady (do shape.read maxDepth (← readHead)) :=
    steady_readHead.bind fun mark => shape.steady_read maxDepth mark
  unfold decodeItem at whole ⊢
  split at whole
  · cases whole
  · rename_i cursor done
    cases whole
    rcases steady ⟨part, 0⟩ more _ _ done with ended | ⟨left, rfl, here⟩
    · exact .inl (by rw [ended])
    · exact .inr ⟨left.rest, rfl, by rw [here]⟩

section
variable {α : Type} [Wire α]

theorem decodeItem_of_item {bytes : Bytes} {value : α} {nullable : Bool}
    (item : Item ((Wire.shape : Shape α).read maxDepth) bytes value nullable) :
    decodeItem (Wire.shape : Shape α) bytes = .ok (value, []) := by
  obtain ⟨offset, reads⟩ := item.reads [] 0
  rw [List.append_nil] at reads
  rw [decodeItem, reads]

theorem decode_of_strict_prefix {bytes part : Bytes} {value : α} {nullable : Bool}
    (item : Item ((Wire.shape : Shape α).read maxDepth) bytes value nullable)
    (begins : part <+: bytes) (strict : part ≠ bytes) :
    (decode part : Except Error α) = .error .endOfInput := by
  obtain ⟨more, rfl⟩ := begins
  rcases decodeItem_of_append (decodeItem_of_item item) with ended | ⟨left, nothing, -⟩
  · rw [decode, ended]
    rfl
  · -- The value takes up all of its bytes, so nothing can be missing at their end.
    obtain ⟨-, rfl⟩ := List.append_eq_nil_iff.1 nothing.symm
    exact absurd (List.append_nil part).symm strict

/-- Whatever is missing at the end of an encoding, be it all of it, is noticed as missing. -/
def NoticesTruncation (α : Type) [Wire α] : Prop :=
  ∀ (value : α) (part : Bytes), (Wire.shape : Shape α).Fits value →
    part <+: encode value → part ≠ encode value →
      (decode part : Except Error α) = .error .endOfInput

theorem WellDescribed.noticesTruncation (described : WellDescribed α) : NoticesTruncation α := by
  intro value part fits begins strict
  exact decode_of_strict_prefix
    (Shape.item_encode Wire.shape value described.1 described.2 fits) begins strict

end

/-- Of everything that is stored or sent, every strict beginning fails as an input which ends too
early. -/
theorem stored_noticesTruncation : NoticesTruncation Session ∧ NoticesTruncation Group ∧
    NoticesTruncation KeySnapshot ∧ NoticesTruncation Bundle ∧ NoticesTruncation RatchetMessage ∧
    NoticesTruncation GroupMessage ∧ NoticesTruncation Distribution ∧
    NoticesTruncation WireMessage ∧ NoticesTruncation SessionPayload ∧
    NoticesTruncation (MessageRecord IdentityKey) := by
  obtain ⟨session, group, snapshot, bundle, ratchet, message, distribution, wire, payload,
    record⟩ := stored_wellDescribed
  exact ⟨session.noticesTruncation, group.noticesTruncation, snapshot.noticesTruncation,
    bundle.noticesTruncation, ratchet.noticesTruncation, message.noticesTruncation,
    distribution.noticesTruncation, wire.noticesTruncation, payload.noticesTruncation,
    record.noticesTruncation⟩

/-- A session which has answered no handshake, without the one byte which says so. -/
theorem session_without_last_byte :
    ∃ s : Session, s.accepted = none ∧ (encode s).getLast? = some 0xf6 ∧
      (decode (encode s).dropLast : Except Error Session) = .error .endOfInput := by
  let s : Session := ⟨⟨⟨.replicate 32 0⟩, ⟨.replicate 32 1⟩⟩, [1, 200], .replicate 32 2,
    .stale 300, 300, none, ⟨[]⟩, none, none⟩
  have fits : (Wire.shape : Shape Session).Fits s := Session.fits (by decide) (by decide)
  have strict : (encode s).dropLast ≠ encode s := by decide +kernel
  exact ⟨s, rfl, by decide +kernel,
    stored_noticesTruncation.1 s _ fits (List.dropLast_prefix _) strict⟩

end Cbor

end Confide
