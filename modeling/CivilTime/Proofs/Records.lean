import CivilTime.Bytes.Record
import CivilTime.Proofs.Bytes

/-!
Fields written one after another onto one array, in any order and with any contents, are read back
in that order. What one write does is said once, by `Appends`: it puts bytes that its reader takes
back at the end of the array, or it reports a value out of range and leaves the array alone. A run
of writes then leaves exactly the bytes of the fields that were accepted.
-/

namespace CivilTime.Bytes

/-- A step of writing succeeds exactly under a condition. It then puts bytes as wanted at the end of
the array. Otherwise it reports a value that is out of range, and the array stays as it is. -/
structure Appends (writer : Writer Unit) (Fits : Prop) (Wanted : List UInt8 → Prop) : Prop where
  accepts : Fits → ∃ bytes, Wanted bytes ∧ ∀ array, writer array = .ok () (array ++ bytes)
  refuses : ¬ Fits →
    ∃ error : EncodeError, error.OutOfRange ∧ ∀ array, writer array = .error error array

theorem Writes.emit_appends {encoded : Except EncodeError (List UInt8)} {Fits : Prop}
    {Wanted : List UInt8 → Prop} (h : Writes encoded Fits Wanted) :
    Appends (Writer.emit encoded) Fits Wanted := by
  constructor
  · intro hfits
    obtain ⟨bytes, rfl, hwanted⟩ := h.accepts hfits
    exact ⟨bytes, hwanted, fun array => rfl⟩
  · intro hnot
    obtain ⟨error, rfl, hrange⟩ := h.refuses hnot
    exact ⟨error, hrange, fun array => rfl⟩

/-- The length and the text in two steps are the encoded text in one: no text is left without its
length, nor a length without its text. -/
theorem Writer.text_eq (text : String) :
    Writer.text text = Writer.emit (encodeText text) := by
  funext array
  cases hsize : encodeInt .u16 (utf8 text).length with
  | error error =>
    simp only [Writer.text, Writer.int, encodeText, hsize]
    rfl
  | ok size =>
    have hleft : Writer.text text array = .ok () (array ++ size ++ utf8 text) := by
      simp only [Writer.text, Writer.int, hsize]
      rfl
    have hright : encodeText text = .ok (size ++ utf8 text) := by
      simp only [encodeText, hsize]
      rfl
    rw [hleft, hright, List.append_assoc]
    rfl

def IntField.Holds (field : IntField) (x : Int) : Prop :=
  if field.signed then FitsSigned (8 * field.bytes) x else FitsUnsigned (8 * field.bytes) x

theorem IntField.holds_iff_fits {field : IntField} (hbytes : 0 < field.bytes) (x : Int) :
    field.Holds x ↔ field.Fits x := by
  obtain ⟨bytes, signed⟩ := field
  cases signed with
  | true => exact (fits_signed hbytes x).symm
  | false => exact (fits_unsigned bytes x).symm

/-- What a field holds is in the range of its kind. A text is measured in bytes of UTF-8. -/
def Kind.InRange : (kind : Kind) → kind.Content → Prop
  | .int field _, x => field.Holds x
  | .text, content => content.utf8ByteSize ≤ 65535

theorem Kind.write_appends (kind : Kind) (content : kind.Content) :
    Appends (kind.write content) (kind.InRange content)
      (fun bytes => Reads kind.read bytes content) := by
  cases kind with
  | int field hbytes =>
    exact ((Writes.int field content).imp (field.holds_iff_fits hbytes content)
      fun bytes hread => hread).emit_appends
  | text =>
    rw [Kind.write, Writer.text_eq]
    exact ((Writes.text content).imp Nat.lt_succ_iff.symm fun bytes hread => hread).emit_appends

def Item.InRange (item : Item) : Prop := item.kind.InRange item.content

def Item.ReadFrom (item : Item) (bytes : List UInt8) : Prop :=
  Reads (readItem item.kind) bytes item

/-- A tried write has been accepted exactly if the content is in range. If it has been refused, that
is reported as a value out of range, and the array has stayed as it was. -/
structure Attempt.Regular (attempt : Attempt) : Prop where
  accepted_iff : attempt.error = none ↔ attempt.item.InRange
  refused : ∀ error ∈ attempt.error, error.OutOfRange ∧ attempt.after = attempt.before

theorem Item.attempt_inRange {item : Item} (h : item.InRange) :
    ∃ bytes, item.ReadFrom bytes ∧ ∀ array,
      item.attempt.run array = (⟨item, array, array ++ bytes, none⟩, array ++ bytes) := by
  obtain ⟨bytes, hread, hwrite⟩ := (item.kind.write_appends item.content).accepts h
  refine ⟨bytes, hread.map (Item.mk item.kind), fun array => ?_⟩
  simp only [StateT.run, Item.attempt, hwrite]

theorem Item.attempt_outOfRange {item : Item} (h : ¬ item.InRange) :
    ∃ error : EncodeError, error.OutOfRange ∧ ∀ array,
      item.attempt.run array = (⟨item, array, array, some error⟩, array) := by
  obtain ⟨error, hrange, hwrite⟩ := (item.kind.write_appends item.content).refuses h
  refine ⟨error, hrange, fun array => ?_⟩
  simp only [StateT.run, Item.attempt, hwrite]

theorem attemptAll_cons {item : Item} {items : List Item} {array middle final : List UInt8}
    {attempt : Attempt} {attempts : List Attempt}
    (hhead : item.attempt.run array = (attempt, middle))
    (hrest : (attemptAll items).run middle = (attempts, final)) :
    (attemptAll (item :: items)).run array = (attempt :: attempts, final) := by
  have hsteps : (attemptAll (item :: items)).run array =
      ((item.attempt.run array).1 :: ((attemptAll items).run (item.attempt.run array).2).1,
        ((attemptAll items).run (item.attempt.run array).2).2) := by
    rw [attemptAll, List.mapM_cons]
    rfl
  rw [hsteps, hhead, hrest]

/-- Whatever the array holds at first, a run of writes puts the bytes of the accepted fields, and
nothing else, at its end. -/
theorem attemptAll_run (items : List Item) (array : List UInt8) :
    ∃ attempts chunks,
      (attemptAll items).run array = (attempts, array ++ chunks.flatten) ∧
      attempts.map Attempt.item = items ∧
      (∀ attempt ∈ attempts, attempt.Regular) ∧
      List.Forall₂ Item.ReadFrom (written attempts) chunks := by
  induction items generalizing array with
  | nil =>
    have hrun : (attemptAll []).run array = ([], array) := rfl
    exact ⟨[], [], by simpa using hrun, rfl, by simp, .nil⟩
  | cons item items ih =>
    by_cases hrange : item.InRange
    · obtain ⟨bytes, hbytes, hattempt⟩ := Item.attempt_inRange hrange
      obtain ⟨attempts, chunks, hrun, hitems, hregular, hchunks⟩ := ih (array ++ bytes)
      refine ⟨⟨item, array, array ++ bytes, none⟩ :: attempts, bytes :: chunks, ?_,
        by simp [hitems], ?_, ?_⟩
      · rw [attemptAll_cons (hattempt array) hrun, List.flatten_cons, List.append_assoc]
      · exact List.forall_mem_cons.mpr ⟨⟨by simp [hrange], by simp⟩, hregular⟩
      · exact .cons hbytes hchunks
    · obtain ⟨error, herror, hattempt⟩ := Item.attempt_outOfRange hrange
      obtain ⟨attempts, chunks, hrun, hitems, hregular, hchunks⟩ := ih array
      refine ⟨⟨item, array, array, some error⟩ :: attempts, chunks,
        attemptAll_cons (hattempt array) hrun, by simp [hitems], ?_, ?_⟩
      · exact List.forall_mem_cons.mpr ⟨⟨by simp [hrange], by simp [herror]⟩, hregular⟩
      · exact hchunks

theorem reads_readAll {items : List Item} {chunks : List (List UInt8)}
    (h : List.Forall₂ Item.ReadFrom items chunks) :
    Reads (readAll (items.map Item.kind)) chunks.flatten items := by
  induction h with
  | nil => exact Reads.pure []
  | @cons item bytes items chunks hhead htail ih =>
    rw [readAll, List.map_cons, List.mapM_cons, List.flatten_cons]
    exact hhead.bind (ih.map (item :: ·))

/-- Of fields that are tried one after another on an empty array, exactly those in range are
written. The others are reported and leave the array alone. Reading fields of the kinds of those
written gives back what they hold, up to the end of the data. -/
theorem attempts_read_back (items : List Item) :
    ∃ attempts array,
      (attemptAll items).run [] = (attempts, array) ∧
      attempts.map Attempt.item = items ∧
      (∀ attempt ∈ attempts, attempt.Regular) ∧
      ∃ cursor,
        readAll ((written attempts).map Item.kind) (.start array) =
          .ok (written attempts) cursor ∧
        cursor.atEnd = true := by
  obtain ⟨attempts, chunks, hrun, hitems, hregular, hchunks⟩ := attemptAll_run items []
  exact ⟨attempts, _, hrun, hitems, hregular, _, (reads_readAll hchunks).all 0, rfl⟩

-- The second write is refused, and the third starts where the first has ended.
example :
    ((attemptAll [⟨.u8, (200 : Int)⟩, ⟨.i8, (-129 : Int)⟩, ⟨.i32, (-3 : Int)⟩, ⟨.text, "São"⟩]).run
      []).2 = [200, 255, 255, 255, 253, 0, 4, 83, 195, 163, 111] := by
  decide +kernel

end CivilTime.Bytes
