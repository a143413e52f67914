import Confide.Archive
import Confide.Proofs.Sorted
import Mathlib.Data.List.Induction

/-! What archives answer. A journal of all that was written tells it: the last value which was saved
under an id, and all records of an id in their order. Handles which were made from one another write
to one archive and read from it, and no other handle does. -/

set_option autoImplicit false

namespace Confide

def replies {State Call Reply : Type} (next : State → Call → State)
    (reply : State → Call → Reply) : State → List Call → List Reply
  | _, [] => []
  | state, call :: calls => reply state call :: replies next reply (next state call) calls

namespace Archive

/-! ### What is written and asked -/

section
variable (ι σ κ γ τ : Type)

inductive Write where
  | session (id : ι) (session : σ)
  | group (id : γ) (group : τ)
  | keys (keys : κ)
  | record (record : MessageRecord ι)

inductive Query where
  | session (id : ι)
  | group (id : γ)
  | keys
  | messages (id : ι)

inductive Answer where
  | session (found : Option σ)
  | group (found : Option τ)
  | keys (found : Option κ)
  | messages (records : List (MessageRecord ι))
  deriving DecidableEq

inductive Call where
  | add
  | share (handle : Nat)
  | write (handle : Nat) (write : Write ι σ κ γ τ)
  | ask (handle : Nat) (query : Query ι γ)

inductive Reply where
  | made (handle : Nat)
  | done
  | told (answer : Option (Answer ι σ κ τ))
  deriving DecidableEq

/-- All that was written, and to which of the archives each handle leads. Archives are counted in
the order in which they are made. -/
structure Journal where
  archives : Nat := 0
  handles : List Nat := []
  writes : List (Nat × Write ι σ κ γ τ) := []

end

variable {ι σ κ γ τ : Type}

namespace Write

def Concerns : Write ι σ κ γ τ → Query ι γ → Prop
  | .session own _, .session id => own = id
  | .group own _, .group id => own = id
  | .keys _, .keys => True
  | .record added, .messages id => added.id = id
  | _, _ => False

def session? [DecidableEq ι] (id : ι) : Write ι σ κ γ τ → Option σ
  | .session own value => if own = id then some value else none
  | _ => none

def group? [DecidableEq γ] (id : γ) : Write ι σ κ γ τ → Option τ
  | .group own value => if own = id then some value else none
  | _ => none

def keys? : Write ι σ κ γ τ → Option κ
  | .keys value => some value
  | _ => none

def record? [DecidableEq ι] (id : ι) : Write ι σ κ γ τ → Option (MessageRecord ι)
  | .record added => if added.id = id then some added else none
  | _ => none

end Write

/-- Whether a call writes what the query asks for, with a handle which leads where this one does. -/
def Call.Touches (handles : List Nat) (handle : Nat) (query : Query ι γ) :
    Call ι σ κ γ τ → Prop
  | .write other written => handles[other]? = handles[handle]? ∧ written.Concerns query
  | _ => False

/-- What is told by all that was written: of values the last one, of records all of them. -/
def answerOf [DecidableEq ι] [DecidableEq γ] (writes : List (Write ι σ κ γ τ)) :
    Query ι γ → Answer ι σ κ τ
  | .session id => .session (writes.filterMap (·.session? id)).getLast?
  | .group id => .group (writes.filterMap (·.group? id)).getLast?
  | .keys => .keys (writes.filterMap (·.keys?)).getLast?
  | .messages id => .messages (writes.filterMap (·.record? id))

/-- What a query does not ask for makes no difference to its answer. -/
theorem answerOf_concat [DecidableEq ι] [DecidableEq γ] {writes : List (Write ι σ κ γ τ)}
    {last : Write ι σ κ γ τ} {query : Query ι γ} (other : ¬last.Concerns query) :
    answerOf (writes ++ [last]) query = answerOf writes query := by
  cases query <;> cases last <;>
    simp_all [answerOf, Write.Concerns, Write.session?, Write.group?, Write.keys?, Write.record?]

theorem getLast?_filterMap_concat {α β : Type} (f : α → Option β) (items : List α) (last : α) :
    ((items ++ [last]).filterMap f).getLast? = (f last).or (items.filterMap f).getLast? := by
  rw [List.filterMap_append, List.getLast?_append]
  cases found : f last with
  | none => simp [found]
  | some value => simp [found]

/-! ### Journals -/

namespace Journal

variable {j : Journal ι σ κ γ τ}

def writesTo (j : Journal ι σ κ γ τ) (archive : Nat) : List (Write ι σ κ γ τ) :=
  (j.writes.filter (·.1 = archive)).map (·.2)

/-- The answer which is told by the writes with all handles which lead where this one leads. -/
def answer [DecidableEq ι] [DecidableEq γ] (j : Journal ι σ κ γ τ) (handle : Nat)
    (query : Query ι γ) : Option (Answer ι σ κ τ) :=
  (j.handles[handle]?).map fun archive => answerOf (j.writesTo archive) query

def next (j : Journal ι σ κ γ τ) : Call ι σ κ γ τ → Journal ι σ κ γ τ
  | .add => { j with archives := j.archives + 1, handles := j.handles ++ [j.archives] }
  | .share handle => { j with handles := j.handles ++ (j.handles[handle]?).toList }
  | .write handle write =>
    { j with writes := j.writes ++ ((j.handles[handle]?).map (·, write)).toList }
  | .ask _ _ => j

def reply [DecidableEq ι] [DecidableEq γ] (j : Journal ι σ κ γ τ) :
    Call ι σ κ γ τ → Reply ι σ κ τ
  | .add | .share _ => .made j.handles.length
  | .write _ _ => .done
  | .ask handle query => .told (j.answer handle query)

structure Sound (j : Journal ι σ κ γ τ) : Prop where
  handles : ∀ archive ∈ j.handles, archive < j.archives
  writes : ∀ entry ∈ j.writes, entry.1 < j.archives

theorem Sound.empty : ({} : Journal ι σ κ γ τ).Sound := ⟨nofun, nofun⟩

theorem Sound.next (sound : j.Sound) (call : Call ι σ κ γ τ) : (j.next call).Sound := by
  cases call with
  | add =>
    refine ⟨fun archive mem => ?_, fun entry mem => Nat.lt_succ_of_lt (sound.writes entry mem)⟩
    rcases List.mem_append.1 mem with old | new
    · exact Nat.lt_succ_of_lt (sound.handles archive old)
    · exact List.mem_singleton.1 new ▸ Nat.lt_succ_self j.archives
  | share handle =>
    refine ⟨fun archive mem => ?_, sound.writes⟩
    rcases List.mem_append.1 mem with old | new
    · exact sound.handles archive old
    · exact sound.handles archive (List.mem_of_getElem? (Option.mem_toList.1 new))
  | write handle write =>
    refine ⟨sound.handles, fun entry mem => ?_⟩
    rcases List.mem_append.1 mem with old | new
    · exact sound.writes entry old
    · obtain ⟨archive, found, rfl⟩ := Option.map_eq_some_iff.1 (Option.mem_toList.1 new)
      exact sound.handles archive (List.mem_of_getElem? found)
  | ask handle query => exact sound

theorem Sound.writesTo_archives (sound : j.Sound) : j.writesTo j.archives = [] := by
  have none : j.writes.filter (·.1 = j.archives) = [] := by
    refine List.filter_eq_nil_iff.2 fun entry mem same => ?_
    exact Nat.ne_of_lt (sound.writes entry mem) (of_decide_eq_true same)
  rw [writesTo, none, List.map_nil]

theorem writesTo_write {handle archive : Nat} (leads : j.handles[handle]? = some archive)
    (write : Write ι σ κ γ τ) (other : Nat) : (j.next (.write handle write)).writesTo other =
      if archive = other then j.writesTo archive ++ [write] else j.writesTo other := by
  by_cases same : archive = other <;> simp [next, writesTo, leads, same]

/-- What a call does not write, or writes elsewhere, makes no difference. -/
theorem answer_next [DecidableEq ι] [DecidableEq γ] {handle : Nat} {query : Query ι γ}
    {call : Call ι σ κ γ τ} (made : handle < j.handles.length)
    (other : ¬call.Touches j.handles handle query) :
    (j.next call).answer handle query = j.answer handle query := by
  cases call with
  | add => rw [answer, next, List.getElem?_append_left made]; rfl
  | share source => rw [answer, next, List.getElem?_append_left made]; rfl
  | write source write =>
    rw [answer, answer]
    change (j.handles[handle]?).map _ = _
    cases leads : j.handles[source]? with
    | none => simp [next, writesTo, leads]
    | some archive =>
      refine Option.map_congr fun target found => ?_
      rw [writesTo_write leads]
      by_cases same : archive = target
      · rw [if_pos same, same]
        exact answerOf_concat fun concerns => other ⟨leads.trans (same ▸ found.symm), concerns⟩
      · rw [if_neg same]
  | ask source asked => rfl

end Journal

/-! ### One archive -/

section
variable [Ord ι] [Std.TransOrd ι] [Ord γ] [Std.TransOrd γ]

def write (a : Archive ι σ κ γ τ) : Write ι σ κ γ τ → Archive ι σ κ γ τ
  | .session id session => a.saveSession id session
  | .group id group => a.saveGroup id group
  | .keys keys => a.saveKeys keys
  | .record record => a.append record

def ask [DecidableEq ι] (a : Archive ι σ κ γ τ) : Query ι γ → Answer ι σ κ τ
  | .session id => .session (a.session? id)
  | .group id => .group (a.group? id)
  | .keys => .keys a.keys
  | .messages id => .messages (a.messages id)

def ofWrites (writes : List (Write ι σ κ γ τ)) : Archive ι σ κ γ τ := writes.foldl write {}

variable {a : Archive ι σ κ γ τ}

theorem session?_write [DecidableEq ι] [Std.LawfulEqOrd ι] (written : Write ι σ κ γ τ) (id : ι) :
    (a.write written).session? id = (written.session? id).or (a.session? id) := by
  cases written with
  | session own value => exact SortedMap.get?_insert_or
  | _ => rfl

theorem group?_write [DecidableEq γ] [Std.LawfulEqOrd γ] (written : Write ι σ κ γ τ) (id : γ) :
    (a.write written).group? id = (written.group? id).or (a.group? id) := by
  cases written with
  | group own value => exact SortedMap.get?_insert_or
  | _ => rfl

theorem keys_write (written : Write ι σ κ γ τ) :
    (a.write written).keys = written.keys?.or a.keys := by
  cases written <;> rfl

theorem messages_write [DecidableEq ι] (written : Write ι σ κ γ τ) (id : ι) :
    (a.write written).messages id = a.messages id ++ (written.record? id).toList := by
  cases written with
  | record added =>
    by_cases own : added.id = id <;> simp [write, append, messages, Write.record?, own]
  | _ => exact (List.append_nil _).symm

variable [DecidableEq ι] [Std.LawfulEqOrd ι] [DecidableEq γ] [Std.LawfulEqOrd γ]

theorem ask_ofWrites (writes : List (Write ι σ κ γ τ)) (query : Query ι γ) :
    (ofWrites writes).ask query = answerOf writes query := by
  induction writes using List.reverseRecOn with
  | nil => cases query <;> rfl
  | append_singleton writes last ih =>
    have concat : ofWrites (writes ++ [last]) = (ofWrites writes).write last := List.foldl_append
    rw [concat]
    cases query with
    | session id =>
      have before := Answer.session.inj ih
      rw [ask, session?_write, before, answerOf, getLast?_filterMap_concat]
    | group id =>
      have before := Answer.group.inj ih
      rw [ask, group?_write, before, answerOf, getLast?_filterMap_concat]
    | keys =>
      have before := Answer.keys.inj ih
      rw [ask, keys_write, before, answerOf, getLast?_filterMap_concat]
    | messages id =>
      have before := Answer.messages.inj ih
      rw [ask, messages_write, before, answerOf, List.filterMap_append]
      cases found : last.record? id <;> simp [found]

end

end Archive

namespace Shelf

open Archive

variable {ι σ κ γ τ : Type} [Ord ι] [Std.TransOrd ι] [Ord γ] [Std.TransOrd γ]

def ofJournal (j : Journal ι σ κ γ τ) : Shelf (Archive ι σ κ γ τ) where
  archives := (List.range j.archives).map fun archive => ofWrites (j.writesTo archive)
  handles := j.handles

def next (shelf : Shelf (Archive ι σ κ γ τ)) : Call ι σ κ γ τ → Shelf (Archive ι σ κ γ τ)
  | .add => (shelf.add {}).2
  | .share handle => (shelf.share handle).2
  | .write handle write => shelf.modify handle (·.write write)
  | .ask _ _ => shelf

def run (shelf : Shelf (Archive ι σ κ γ τ)) (calls : List (Call ι σ κ γ τ)) :
    Shelf (Archive ι σ κ γ τ) :=
  calls.foldl next shelf

variable {j : Journal ι σ κ γ τ}

theorem getElem?_ofJournal (archive : Nat) : (ofJournal j).archives[archive]? =
    if archive < j.archives then some (ofWrites (j.writesTo archive)) else none := by
  by_cases made : archive < j.archives <;> simp [ofJournal, made]

theorem archives_write {handle archive : Nat} (leads : j.handles[handle]? = some archive)
    (written : Write ι σ κ γ τ) : (ofJournal (j.next (.write handle written))).archives =
      (ofJournal j).archives.modify archive (·.write written) := by
  refine List.ext_getElem? fun n => ?_
  rw [List.getElem?_modify, getElem?_ofJournal, getElem?_ofJournal, Journal.writesTo_write leads]
  change (if n < j.archives then _ else none) = _
  by_cases made : n < j.archives
  · rw [if_pos made, if_pos made]
    by_cases same : archive = n
    · subst same
      simp [ofWrites]
    · simp [same]
  · rw [if_neg made, if_neg made]
    rfl

theorem ofJournal_next (sound : j.Sound) (call : Call ι σ κ γ τ) :
    ofJournal (j.next call) = (ofJournal j).next call := by
  cases call with
  | add =>
    have fresh : ofWrites (j.writesTo j.archives) = ({} : Archive ι σ κ γ τ) := by
      rw [sound.writesTo_archives]; rfl
    rw [next, ← fresh]
    simp only [ofJournal, Journal.next, add, List.range_succ, List.map_append,
      List.map_singleton, List.length_map, List.length_range]
    rfl
  | share handle => rfl
  | write handle written =>
    have found : (ofJournal j).handles[handle]? = j.handles[handle]? := rfl
    cases leads : j.handles[handle]? with
    | none => simp [Journal.next, next, modify, found, leads]
    | some archive =>
      rw [next, modify, found, leads]
      exact congrArg (Shelf.mk · j.handles) (archives_write leads written)
  | ask handle query => rfl

/-- Whatever is done, the shelf stands as a journal tells. -/
theorem exists_journal (sound : j.Sound) (calls : List (Call ι σ κ γ τ)) :
    ∃ later : Journal ι σ κ γ τ, later.Sound ∧ (ofJournal j).run calls = ofJournal later := by
  induction calls generalizing j with
  | nil => exact ⟨j, sound, rfl⟩
  | cons call calls ih =>
    obtain ⟨later, kept, same⟩ := ih (sound.next call)
    rw [ofJournal_next sound] at same
    exact ⟨later, kept, same⟩

variable [DecidableEq ι]

def answer (shelf : Shelf (Archive ι σ κ γ τ)) (handle : Nat) (query : Query ι γ) :
    Option (Answer ι σ κ τ) :=
  (shelf.get? handle).map (·.ask query)

def reply (shelf : Shelf (Archive ι σ κ γ τ)) : Call ι σ κ γ τ → Reply ι σ κ τ
  | .add => .made (shelf.add {}).1
  | .share handle => .made (shelf.share handle).1
  | .write _ _ => .done
  | .ask handle query => .told (shelf.answer handle query)

variable [DecidableEq γ] [Std.LawfulEqOrd ι] [Std.LawfulEqOrd γ]

theorem answer_ofJournal (sound : j.Sound) (handle : Nat) (query : Query ι γ) :
    (ofJournal j).answer handle query = j.answer handle query := by
  have found : (ofJournal j).handles[handle]? = j.handles[handle]? := rfl
  rw [answer, get?, found, Journal.answer]
  cases leads : j.handles[handle]? with
  | none => rfl
  | some archive =>
    have made := sound.handles archive (List.mem_of_getElem? leads)
    have stands : (ofJournal j).archives[archive]? = some (ofWrites (j.writesTo archive)) :=
      (getElem?_ofJournal archive).trans (if_pos made)
    change ((ofJournal j).archives[archive]?).map _ = _
    rw [stands, Option.map_some, ask_ofWrites, Option.map_some]

theorem reply_ofJournal (sound : j.Sound) (call : Call ι σ κ γ τ) :
    (ofJournal j).reply call = j.reply call := by
  cases call with
  | ask handle query => exact congrArg Reply.told (answer_ofJournal sound handle query)
  | _ => rfl

theorem replies_ofJournal (sound : j.Sound) (calls : List (Call ι σ κ γ τ)) :
    replies next reply (ofJournal j) calls = replies Journal.next Journal.reply j calls := by
  induction calls generalizing j with
  | nil => rfl
  | cons call calls ih =>
    rw [replies, replies, reply_ofJournal sound, ← ofJournal_next sound, ih (sound.next call)]

/-- Archives answer as the journal of all writes tells. No call makes a difference to what it does
not write, or writes to another archive. -/
theorem replies_tell_what_was_written (calls : List (Call ι σ κ γ τ)) :
    replies next reply ({} : Shelf (Archive ι σ κ γ τ)) calls =
        replies Journal.next Journal.reply {} calls ∧
      ∀ (handle : Nat) (query : Query ι γ) (call : Call ι σ κ γ τ),
        let shelf : Shelf (Archive ι σ κ γ τ) := run {} calls
        handle < shelf.handles.length → ¬call.Touches shelf.handles handle query →
          (shelf.next call).answer handle query = shelf.answer handle query := by
  refine ⟨replies_ofJournal Journal.Sound.empty calls, fun handle query call => ?_⟩
  intro shelf made other
  obtain ⟨j, sound, (same : shelf = ofJournal j)⟩ := exists_journal Journal.Sound.empty calls
  rw [same] at made other ⊢
  rw [← ofJournal_next sound, answer_ofJournal (sound.next call), answer_ofJournal sound]
  exact Journal.answer_next made other

/-- Of two saves with handles for one archive the later one is found, and a further archive keeps
its own under the same id. -/
theorem shared_archive_tells_last_save :
    let save (handle : Nat) (session : String) : Call Nat String Unit Nat Unit :=
      .write handle (.session 5 session)
    let calls := [.add, .share 0, save 0 "first", save 1 "second", .add, save 2 "apart",
      .ask 0 (.session 5), .ask 2 (.session 5)]
    let shelf : Shelf (Archive Nat String Unit Nat Unit) := run {} calls
    replies next reply {} calls = [.made 0, .made 1, .done, .done, .made 2, .done,
        .told (some (.session (some "second"))), .told (some (.session (some "apart")))] ∧
      0 < shelf.handles.length ∧ ¬(save 2 "third").Touches shelf.handles 0 (.session 5) ∧
      (shelf.next (save 2 "third")).answer 0 (.session 5) = shelf.answer 0 (.session 5) := by
  intro save calls shelf
  obtain ⟨told, apart⟩ := replies_tell_what_was_written calls
  have made : 0 < shelf.handles.length := by decide
  have elsewhere : ¬(save 2 "third").Touches shelf.handles 0 (.session 5) :=
    fun touches => absurd touches.1 (by decide)
  exact ⟨told.trans (by decide), made, elsewhere, apart 0 (.session 5) _ made elsewhere⟩

end Shelf

end Confide
