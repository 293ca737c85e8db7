import CivilTime.Bytes.Reader
import Mathlib.Tactic

/-!
Writing and reading of single fields. `Reads reader bytes a` says that the reader takes exactly
these bytes off the data, whatever comes after them, and answers `a`. It composes along the steps of
a reader, so that a record is read back field by field.
-/

namespace CivilTime.Bytes

@[simp]
theorem bigEndian_length (width n : Nat) : (bigEndian width n).length = width := by
  induction width with
  | zero => rfl
  | succ width ih => simp [bigEndian, ih]

theorem value_cons (byte : UInt8) (bytes : List UInt8) :
    value (byte :: bytes) = byte.toNat * 256 ^ bytes.length + value bytes := by
  have hshift : ∀ (bytes : List UInt8) (start : Nat),
      bytes.foldl (fun n byte => n * 256 + byte.toNat) start =
        start * 256 ^ bytes.length + value bytes := by
    intro bytes
    induction bytes with
    | nil => simp [value]
    | cons head tail ih =>
      intro start
      simp only [value, List.foldl_cons, List.length_cons]
      rw [ih, ih]
      ring
  simpa [value] using hshift bytes byte.toNat

theorem value_bigEndian (width n : Nat) : value (bigEndian width n) = n % 256 ^ width := by
  induction width with
  | zero => simp [bigEndian, value, Nat.mod_one]
  | succ width ih =>
    rw [bigEndian, value_cons, ih, bigEndian_length, Nat.pow_succ, Nat.mod_mul]
    simp only [UInt8.toNat_ofNat', Nat.pow_eq]
    ring

theorem ofUtf8?_utf8 (text : String) : ofUtf8? (utf8 text) = some text := by
  have hbytes : (⟨(utf8 text).toArray⟩ : ByteArray) = text.toByteArray := by
    simp [utf8]
  rw [ofUtf8?, hbytes, String.fromUTF8?, dif_pos text.isValidUTF8]
  rfl

def IntField.Fits (field : IntField) (x : Int) : Prop :=
  field.lowest ≤ x ∧ x ≤ field.highest

def EncodeError.OutOfRange : EncodeError → Prop
  | .tooHigh field x => field.highest < x
  | .tooLow field x => x < field.lowest
  | .clockMark _ | .tooManyNames _ => False

theorem encodeInt_of_fits {field : IntField} {x : Int} (h : field.Fits x) :
    encodeInt field x = .ok (bigEndian field.bytes (x % field.size).toNat) := by
  rw [encodeInt, if_neg (by have := h.2; omega), if_neg (by have := h.1; omega)]

theorem encodeInt_of_not_fits {field : IntField} {x : Int} (h : ¬ field.Fits x) :
    ∃ error : EncodeError, encodeInt field x = .error error ∧ error.OutOfRange := by
  by_cases hhigh : field.highest < x
  · exact ⟨.tooHigh field x, by rw [encodeInt, if_pos hhigh], hhigh⟩
  · have hlow : x < field.lowest := by
      simp only [IntField.Fits, not_and_or] at h
      omega
    exact ⟨.tooLow field x, by rw [encodeInt, if_neg hhigh, if_pos hlow], hlow⟩

def FitsSigned (bits : Nat) (x : Int) : Prop := -2 ^ (bits - 1) ≤ x ∧ x < 2 ^ (bits - 1)

def FitsUnsigned (bits : Nat) (x : Int) : Prop := 0 ≤ x ∧ x < 2 ^ bits

instance (bits : Nat) (x : Int) : Decidable (FitsSigned bits x) :=
  inferInstanceAs (Decidable (_ ∧ _))

instance (bits : Nat) (x : Int) : Decidable (FitsUnsigned bits x) :=
  inferInstanceAs (Decidable (_ ∧ _))

theorem fits_signed {bytes : Nat} (hbytes : 0 < bytes) (x : Int) :
    IntField.Fits ⟨bytes, true⟩ x ↔ FitsSigned (8 * bytes) x := by
  have hsize : (256 : Nat) ^ bytes / 2 = 2 ^ (8 * bytes - 1) := by
    rw [show (256 : Nat) = 2 ^ 8 from rfl, ← pow_mul]
    exact Nat.pow_div (show 1 ≤ 8 * bytes by omega) (by omega)
  simp only [IntField.Fits, IntField.lowest, IntField.highest, IntField.size, Nat.pow_eq, hsize,
    FitsSigned, if_true]
  push_cast
  omega

theorem fits_unsigned (bytes : Nat) (x : Int) :
    IntField.Fits ⟨bytes, false⟩ x ↔ FitsUnsigned (8 * bytes) x := by
  have hsize : (256 : Nat) ^ bytes = 2 ^ (8 * bytes) := by
    rw [show (256 : Nat) = 2 ^ 8 from rfl, ← pow_mul]
  simp only [IntField.Fits, IntField.lowest, IntField.highest, IntField.size, Nat.pow_eq, hsize,
    FitsUnsigned, Bool.false_eq_true, if_false]
  push_cast
  omega

theorem IntField.size_pos (field : IntField) : 0 < field.size :=
  Nat.pow_pos (by omega)

theorem decodeInt_bigEndian {field : IntField} {x : Int} (h : field.Fits x) :
    decodeInt field (bigEndian field.bytes (x % field.size).toNat) = x := by
  have hpos := field.size_pos
  have hsize : ((256 ^ field.bytes : Nat) : Int) = field.size := rfl
  have hvalue : (value (bigEndian field.bytes (x % field.size).toNat) : Int) = x % field.size := by
    have hlow := Int.emod_nonneg x (b := field.size) (by omega)
    have hhigh := Int.emod_lt_of_pos x (b := field.size) (by omega)
    rw [value_bigEndian, Nat.mod_eq_of_lt (by omega)]
    omega
  obtain ⟨hlow, hhigh⟩ := h
  simp only [IntField.lowest, IntField.highest] at hlow hhigh
  rw [decodeInt]
  by_cases hnegative : x < 0
  · have hsigned : field.signed = true := by
      by_contra hunsigned
      simp only [hunsigned] at hlow
      simp at hlow
      omega
    simp only [hsigned, if_true] at hlow
    have hmod : x % field.size = x + field.size := by
      rw [← Int.add_emod_right, Int.emod_eq_of_lt (by omega) (by omega)]
    rw [if_pos ⟨hsigned, by omega⟩, hvalue, hmod]
    omega
  · have hsmall : x < field.size := by
      split at hhigh <;> omega
    have hmod : x % field.size = x := Int.emod_eq_of_lt (by omega) hsmall
    rw [if_neg, hvalue, hmod]
    rintro ⟨hsigned, hlarge⟩
    simp only [hsigned, if_true] at hhigh
    omega

/-- The reader takes exactly the given bytes and answers `a`. -/
def Reads {α : Type} (reader : Reader α) (bytes : List UInt8) (a : α) : Prop :=
  ∀ position rest,
    reader ⟨position, bytes ++ rest⟩ = .ok a ⟨position + bytes.length, rest⟩

namespace Reads

variable {α β : Type}

theorem pure (a : α) : Reads (Pure.pure a) [] a := by
  intro position rest
  rfl

theorem bind {reader : Reader α} {next : α → Reader β} {first second : List UInt8} {a : α} {b : β}
    (hfirst : Reads reader first a) (hsecond : Reads (next a) second b) :
    Reads (reader >>= next) (first ++ second) b := by
  intro position rest
  have hrun : (reader >>= next) ⟨position, first ++ second ++ rest⟩ =
      next a ⟨position + first.length, second ++ rest⟩ := by
    change EStateM.bind reader next _ = _
    rw [EStateM.bind, List.append_assoc, hfirst position (second ++ rest)]
  rw [hrun, hsecond, List.length_append, Nat.add_assoc]

/-- A step that only computes takes no bytes. -/
theorem map {reader : Reader α} {bytes : List UInt8} {a : α} (h : Reads reader bytes a)
    (f : α → β) : Reads (do return f (← reader)) bytes (f a) := by
  have hbind : Reads (reader >>= fun a => Pure.pure (f a)) (bytes ++ []) (f a) :=
    h.bind (Reads.pure (f a))
  rwa [List.append_nil] at hbind

theorem take (bytes : List UInt8) : Reads (Reader.take bytes.length) bytes bytes := by
  intro position rest
  simp [Reader.take, splitExactly?]

/-- Items one after another. What has already been read stands in front. -/
theorem manyOnto {item : Reader α} {chunks : List (List UInt8)} {items : List α}
    (h : List.Forall₂ (fun a bytes => Reads item bytes a) items chunks) (read : List α) :
    Reads (Reader.manyOnto item items.length read) chunks.flatten (read.reverse ++ items) := by
  induction h generalizing read with
  | nil =>
    intro position rest
    simp [Reader.manyOnto]
  | @cons a bytes items chunks hhead htail ih =>
    intro position rest
    have hitem := hhead position (chunks.flatten ++ rest)
    have hrest := ih (a :: read) (position + bytes.length) rest
    simp only [List.flatten_cons, List.append_assoc, List.length_cons, Reader.manyOnto, hitem]
    simpa [Nat.add_assoc] using hrest

theorem many {item : Reader α} {chunks : List (List UInt8)} {items : List α}
    (h : List.Forall₂ (fun a bytes => Reads item bytes a) items chunks) :
    Reads (Reader.many items.length item) chunks.flatten items :=
  manyOnto h []

end Reads

/-- The reader answers `a` where the given bytes are all that is left, and uses them up. -/
def ReadsAll {α : Type} (reader : Reader α) (bytes : List UInt8) (a : α) : Prop :=
  ∀ position, reader ⟨position, bytes⟩ = .ok a ⟨position + bytes.length, []⟩

/-- Only the last step of a reader may look for the end of the data. -/
theorem Reads.bindAll {α β : Type} {reader : Reader α} {next : α → Reader β}
    {first second : List UInt8} {a : α} {b : β} (hfirst : Reads reader first a)
    (hsecond : ReadsAll (next a) second b) : ReadsAll (reader >>= next) (first ++ second) b := by
  intro position
  have hrun : (reader >>= next) ⟨position, first ++ second⟩ =
      next a ⟨position + first.length, second⟩ := by
    change EStateM.bind reader next _ = _
    rw [EStateM.bind, hfirst position second]
  rw [hrun, hsecond, List.length_append, Nat.add_assoc]

theorem Reads.all {α : Type} {reader : Reader α} {bytes : List UInt8} {a : α}
    (h : Reads reader bytes a) : ReadsAll reader bytes a := by
  intro position
  simpa using h position []

theorem ReadsAll.runOn {α : Type} {reader : Reader α} {bytes : List UInt8} {a : α}
    (h : ReadsAll reader bytes a) : reader.runOn bytes = .ok a := by
  simp only [Reader.runOn, Cursor.start, h 0]

theorem bind_eq_ok {ε α β : Type} {first : Except ε α} {next : α → Except ε β} {b : β} :
    first >>= next = .ok b ↔ ∃ a, first = .ok a ∧ next a = .ok b := by
  cases first with
  | error error => simp [bind, Except.bind]
  | ok a => simp [bind, Except.bind]

/-- Writing succeeds exactly under a condition, and then with a result as wanted. Otherwise it
reports a value that is out of range. -/
structure Writes {α : Type} (written : Except EncodeError α) (Fits : Prop) (Wanted : α → Prop) :
    Prop where
  accepts : Fits → ∃ a, written = .ok a ∧ Wanted a
  refuses : ¬ Fits → ∃ error : EncodeError, written = .error error ∧ error.OutOfRange

namespace Writes

variable {α β : Type} {Fits Next : Prop} {Wanted : α → Prop} {Finally : β → Prop}

theorem pure {a : α} (h : Wanted a) : Writes (Pure.pure a) True Wanted :=
  ⟨fun _ => ⟨a, rfl, h⟩, fun hfalse => absurd trivial hfalse⟩

theorem bind {written : Except EncodeError α} {next : α → Except EncodeError β}
    (hwritten : Writes written Fits Wanted) (hnext : ∀ a, Wanted a → Writes (next a) Next Finally) :
    Writes (written >>= next) (Fits ∧ Next) Finally := by
  constructor
  · rintro ⟨hfits, hrest⟩
    obtain ⟨a, rfl, hwanted⟩ := hwritten.accepts hfits
    exact (hnext a hwanted).accepts hrest
  · intro hnot
    by_cases hfits : Fits
    · obtain ⟨a, rfl, hwanted⟩ := hwritten.accepts hfits
      exact (hnext a hwanted).refuses fun hrest => hnot ⟨hfits, hrest⟩
    · obtain ⟨error, rfl, hrange⟩ := hwritten.refuses hfits
      exact ⟨error, rfl, hrange⟩

/-- What has been written is as wanted. -/
theorem of_ok {written : Except EncodeError α} (h : Writes written Fits Wanted) {a : α}
    (hwritten : written = .ok a) : Wanted a := by
  by_cases hfits : Fits
  · obtain ⟨result, hresult, hwanted⟩ := h.accepts hfits
    obtain rfl := Except.ok.inj (hresult.symm.trans hwritten)
    exact hwanted
  · obtain ⟨error, herror, -⟩ := h.refuses hfits
    cases herror.symm.trans hwritten

theorem imp {written : Except EncodeError α} {Better : α → Prop} {Same : Prop}
    (h : Writes written Fits Wanted) (hfits : Same ↔ Fits) (hwanted : ∀ a, Wanted a → Better a) :
    Writes written Same Better := by
  constructor
  · intro hsame
    obtain ⟨a, hwritten, ha⟩ := h.accepts (hfits.mp hsame)
    exact ⟨a, hwritten, hwanted a ha⟩
  · exact fun hnot => h.refuses fun hf => hnot (hfits.mpr hf)

/-- What comes later may rely on the condition of what has been written. -/
theorem withFits {written : Except EncodeError α} (h : Writes written Fits Wanted) :
    Writes written Fits (fun a => Wanted a ∧ Fits) := by
  refine ⟨fun hfits => ?_, h.refuses⟩
  obtain ⟨a, hwritten, ha⟩ := h.accepts hfits
  exact ⟨a, hwritten, ha, hfits⟩

theorem int (field : IntField) (x : Int) :
    Writes (encodeInt field x) (field.Fits x) (fun bytes => Reads (Reader.int field) bytes x) := by
  refine ⟨fun hfits => ⟨_, encodeInt_of_fits hfits, ?_⟩, encodeInt_of_not_fits⟩
  have hread := (Reads.take (bigEndian field.bytes (x % field.size).toNat)).map (decodeInt field)
  rw [decodeInt_bigEndian hfits, bigEndian_length] at hread
  exact hread

theorem nat (field : IntField) (hunsigned : field.signed = false) (n : Nat) :
    Writes (encodeInt field n) (n < field.size)
      (fun bytes => Reads (Reader.nat field.bytes) bytes n) := by
  have hfits : n < field.size ↔ field.Fits n := by
    simp [IntField.Fits, IntField.lowest, IntField.highest, hunsigned]
  refine ⟨fun hsmall => ⟨_, encodeInt_of_fits (hfits.mp hsmall), ?_⟩, fun hlarge =>
    encodeInt_of_not_fits fun h => hlarge (hfits.mpr h)⟩
  have hread := (Reads.take (bigEndian field.bytes ((n : Int) % field.size).toNat)).map value
  have hsame : ((n : Int) % field.size).toNat % 256 ^ field.bytes = n := by
    rw [Int.emod_eq_of_lt (by omega) (by omega), Int.toNat_natCast]
    exact Nat.mod_eq_of_lt hsmall
  rw [value_bigEndian, bigEndian_length, hsame] at hread
  exact hread

theorem text (text : String) :
    Writes (encodeText text) (text.utf8ByteSize < 65536)
      (fun bytes => Reads Reader.text bytes text) := by
  have hlength : (utf8 text).length = text.utf8ByteSize := by
    simp [utf8]
  refine ((nat .u16 rfl (utf8 text).length).bind fun size hsize =>
    Writes.pure ?_).imp (by rw [hlength]; simp [IntField.size, IntField.u16]) fun bytes h => h
  rw [← List.append_nil (utf8 text)]
  refine hsize.bind ((Reads.take (utf8 text)).bind ?_)
  simp only [ofUtf8?_utf8]
  exact Reads.pure text

theorem mapM {write : β → Except EncodeError (List UInt8)} {FitsItem : β → Prop}
    {item : Reader β} {items : List β}
    (h : ∀ a ∈ items, Writes (write a) (FitsItem a) (fun bytes => Reads item bytes a)) :
    Writes (items.mapM write) (∀ a ∈ items, FitsItem a)
      (fun chunks => List.Forall₂ (fun a bytes => Reads item bytes a) items chunks) := by
  induction items with
  | nil => exact (Writes.pure List.Forall₂.nil).imp (by simp) fun chunks h => h
  | cons a rest ih =>
    rw [List.mapM_cons]
    refine ((h a (by simp)).bind fun bytes hbytes =>
      (ih fun b hb => h b (by simp [hb])).bind fun chunks hchunks =>
        Writes.pure (List.Forall₂.cons hbytes hchunks)).imp (by simp) fun chunks h => h

end Writes

end CivilTime.Bytes
