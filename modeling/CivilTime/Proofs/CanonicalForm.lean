import CivilTime.Proofs.Truncation
import CivilTime.Proofs.ZoneCodec

/-!
The binary form that is written for a zone is the shortest of those that are read as this zone. Data
may also hold names that nothing uses, a name twice, or the names in another order; what is read
from it can always be written, and takes no more bytes. The form shows where it ends: it is refused
if any of it is missing and if anything follows.

`Yields` says what a reader can answer at all and how many bytes it takes for it. What is read is
then in range, and since everything that is written is read back, the same statement gives the
number of bytes written.
-/

namespace CivilTime

namespace Bytes

/-- Whatever the reader answers is as wanted, in view of the number of bytes that it takes. -/
def Yields {α : Type} (reader : Reader α) (Wanted : α → Nat → Prop) : Prop :=
  ∀ cursor a after, reader cursor = .ok a after →
    ∃ size, cursor.rest.length = size + after.rest.length ∧ Wanted a size

namespace Yields

variable {α β : Type} {Wanted : α → Nat → Prop} {Finally : β → Nat → Prop}

theorem pure {a : α} (h : Wanted a 0) : Yields (Pure.pure a) Wanted := by
  intro cursor b after hrun
  cases hrun
  exact ⟨0, (Nat.zero_add _).symm, h⟩

theorem throw (error : DecodeError) : Yields (MonadExcept.throw error) Wanted := by
  intro cursor a after hrun
  cases hrun

theorem bind {reader : Reader α} {next : α → Reader β} (h : Yields reader Wanted)
    (hnext : ∀ a size, Wanted a size → Yields (next a) fun b more => Finally b (size + more)) :
    Yields (reader >>= next) Finally := by
  intro cursor b after hrun
  have hbind : (reader >>= next) cursor = EStateM.bind reader next cursor := rfl
  rw [hbind, EStateM.bind] at hrun
  cases hfirst : reader cursor with
  | error error between => simp [hfirst] at hrun
  | ok a between =>
    rw [hfirst] at hrun
    obtain ⟨size, hsize, hwanted⟩ := h cursor a between hfirst
    obtain ⟨more, hmore, hfinally⟩ := hnext a size hwanted between b after hrun
    exact ⟨size + more, by omega, hfinally⟩

/-- What has been written to be read back has the size that the reader takes. -/
theorem of_reads {reader : Reader α} (h : Yields reader Wanted) {bytes : List UInt8} {a : α}
    (hreads : Reads reader bytes a) : Wanted a bytes.length := by
  obtain ⟨size, hsize, hwanted⟩ := h _ _ _ (hreads 0 [])
  rw [List.append_nil] at hsize
  rwa [hsize]

theorem take (count : Nat) :
    Yields (Reader.take count) fun bytes size => bytes.length = count ∧ size = count := by
  intro cursor bytes after hrun
  unfold Reader.take splitExactly? at hrun
  by_cases henough : (cursor.rest.take count).length = count
  · rw [if_pos henough] at hrun
    cases hrun
    have hlength := List.length_take_le' count cursor.rest
    refine ⟨count, ?_, henough, rfl⟩
    rw [List.length_drop]
    omega
  · rw [if_neg henough] at hrun
    cases hrun

end Yields

theorem value_lt (bytes : List UInt8) : value bytes < 256 ^ bytes.length := by
  induction bytes with
  | nil => exact Nat.one_pos
  | cons byte bytes ih =>
    have hbyte := byte.toNat_lt
    rw [value_cons, List.length_cons, Nat.pow_succ]
    calc byte.toNat * 256 ^ bytes.length + value bytes
        < byte.toNat * 256 ^ bytes.length + 256 ^ bytes.length := by omega
      _ = (byte.toNat + 1) * 256 ^ bytes.length := by ring
      _ ≤ 256 * 256 ^ bytes.length := Nat.mul_le_mul_right _ (by omega)
      _ = 256 ^ bytes.length * 256 := Nat.mul_comm _ _

theorem decodeInt_fits {field : IntField} (hfield : 0 < field.bytes) {bytes : List UInt8}
    (hbytes : bytes.length = field.bytes) : field.Fits (decodeInt field bytes) := by
  have hvalue : value bytes < field.size := by
    have hlt := value_lt bytes
    rwa [hbytes] at hlt
  have heven : field.size % 2 = 0 := by
    rw [IntField.size, ← Nat.sub_add_cancel hfield, Nat.pow_eq, Nat.pow_succ, Nat.mul_mod]
    norm_num
  simp only [IntField.Fits, decodeInt, IntField.lowest, IntField.highest]
  cases field.signed with
  | true => simp only [true_and, if_true]; split_ifs <;> omega
  | false => simpa using hvalue

theorem fits_i64 (x : Int) : IntField.i64.Fits x ↔ FitsSigned 64 x :=
  fits_signed (show 0 < 8 by decide) x

theorem fits_i32 (x : Int) : IntField.i32.Fits x ↔ FitsSigned 32 x :=
  fits_signed (show 0 < 4 by decide) x

theorem fits_i8 (x : Int) : IntField.i8.Fits x ↔ FitsSigned 8 x :=
  fits_signed (show 0 < 1 by decide) x

theorem fits_u8 (x : Int) : IntField.u8.Fits x ↔ FitsUnsigned 8 x :=
  fits_unsigned 1 x

theorem utf8_of_ofUtf8? {bytes : List UInt8} {text : String} (h : ofUtf8? bytes = some text) :
    utf8 text = bytes := by
  unfold ofUtf8? String.fromUTF8? at h
  split at h
  · cases h
    rfl
  · cases h

def textSize (text : String) : Nat := 2 + text.utf8ByteSize

namespace Yields

theorem int {field : IntField} (hfield : 0 < field.bytes) :
    Yields (Reader.int field) fun x size => field.Fits x ∧ size = field.bytes := by
  apply bind (take field.bytes)
  rintro bytes size ⟨hbytes, rfl⟩
  exact pure ⟨decodeInt_fits hfield hbytes, rfl⟩

theorem nat (width : Nat) :
    Yields (Reader.nat width) fun n size => n < 256 ^ width ∧ size = width := by
  apply bind (take width)
  rintro bytes size ⟨hbytes, rfl⟩
  exact pure ⟨hbytes ▸ value_lt bytes, rfl⟩

theorem text :
    Yields Reader.text fun text size => text.utf8ByteSize ≤ 65535 ∧ size = textSize text := by
  apply bind (nat 2)
  rintro length two ⟨hlength, rfl⟩
  apply bind (take length)
  rintro bytes size ⟨hbytes, rfl⟩
  cases hfound : ofUtf8? bytes with
  | none => exact throw .malformedText
  | some found =>
    have hsize : found.utf8ByteSize = bytes.length := by
      rw [← utf8_of_ofUtf8? hfound]
      simp [utf8]
    apply pure
    refine ⟨by omega, ?_⟩
    rw [textSize, hsize, hbytes, Nat.add_zero]

variable {α : Type} {Fits : α → Prop} {sizeOf : α → Nat}

theorem manyOnto {item : Reader α} (h : Yields item fun a size => Fits a ∧ size = sizeOf a)
    (count : Nat) (read : List α) :
    Yields (Reader.manyOnto item count read) fun items size =>
      ∃ found, items = read.reverse ++ found ∧ found.length = count ∧ (∀ a ∈ found, Fits a) ∧
        size = (found.map sizeOf).sum := by
  induction count generalizing read with
  | zero => exact pure ⟨[], (List.append_nil _).symm, rfl, by simp, rfl⟩
  | succ count ih =>
    rw [Reader.manyOnto_succ]
    apply bind h
    rintro a first ⟨ha, rfl⟩ cursor items after hrun
    obtain ⟨size, hsize, found, rfl, rfl, hfits, rfl⟩ := ih (a :: read) cursor items after hrun
    exact ⟨_, hsize, a :: found, by simp, rfl, by simpa using ⟨ha, hfits⟩, by simp⟩

theorem many {item : Reader α} (h : Yields item fun a size => Fits a ∧ size = sizeOf a)
    (count : Nat) :
    Yields (Reader.many count item) fun items size =>
      items.length = count ∧ (∀ a ∈ items, Fits a) ∧ size = (items.map sizeOf).sum := by
  intro cursor items after hrun
  obtain ⟨size, hsize, found, rfl, hfound⟩ := manyOnto h count [] cursor items after hrun
  exact ⟨size, hsize, hfound⟩

end Yields

end Bytes

namespace TimeZone

open Bytes

theorem yields_pool :
    Yields readPool fun names size => names.size ≤ 65535 ∧
      (∀ name ∈ names, name.utf8ByteSize ≤ 65535) ∧
      size = 2 + (names.toList.map textSize).sum := by
  apply Yields.bind (Yields.nat 2)
  rintro count two ⟨hcount, rfl⟩
  apply Yields.bind (Yields.many Yields.text count)
  rintro names size ⟨rfl, hshort, rfl⟩
  apply Yields.pure
  refine ⟨?_, by simpa using hshort, by simp⟩
  rw [List.size_toArray]
  omega

theorem yields_name (names : Array String) :
    Yields (readName names) fun name size => name ∈ names ∧ size = 2 := by
  apply Yields.bind (Yields.nat 2)
  rintro index two ⟨-, rfl⟩
  cases hname : names[index]? with
  | none => exact Yields.throw _
  | some name => exact Yields.pure ⟨Array.mem_of_getElem? hname, rfl⟩

theorem yields_transition (names : Array String) :
    Yields (readTransition names) fun transition size =>
      (transition.Encodable ∧ transition.name ∈ names) ∧ size = 18 := by
  apply Yields.bind (Yields.int (show 0 < IntField.i64.bytes by decide))
  rintro millis eight ⟨hmillis, rfl⟩
  apply Yields.bind (Yields.int (show 0 < IntField.i32.bytes by decide))
  rintro wallOffset four ⟨hwall, rfl⟩
  apply Yields.bind (Yields.int (show 0 < IntField.i32.bytes by decide))
  rintro standardOffset four ⟨hstandard, rfl⟩
  apply Yields.bind (yields_name names)
  rintro name two ⟨hname, rfl⟩
  apply Yields.pure
  have hencodable : Transition.Encodable { millis, name, wallOffset, standardOffset } :=
    ⟨(fits_i64 millis).mp hmillis, (fits_i32 wallOffset).mp hwall,
      (fits_i32 standardOffset).mp hstandard⟩
  exact ⟨⟨hencodable, hname⟩, rfl⟩

/-- A byte is the code of the character that it is read as. -/
theorem toNat_ofNat_of_byte {code : Nat} (h : code < 256) : (Char.ofNat code).toNat = code := by
  have hvalid : code.isValidChar := Or.inl (by omega)
  rw [Char.ofNat, dif_pos hvalid]
  rfl

theorem yields_recurrence (names : Array String) :
    Yields (readRecurrence names) fun recurrence size =>
      recurrence.Encodable ∧ (∃ c, recurrence.point.clock.mark.toList = [c]) ∧
        recurrence.name ∈ names ∧ size = 15 := by
  apply Yields.bind (yields_name names)
  rintro name two ⟨hname, rfl⟩
  apply Yields.bind (Yields.int (show 0 < IntField.i32.bytes by decide))
  rintro save four ⟨hsave, rfl⟩
  apply Yields.bind (Yields.nat 1)
  rintro mark one ⟨hmark, rfl⟩
  apply Yields.bind (Yields.int (show 0 < IntField.u8.bytes by decide))
  rintro month one ⟨hmonth, rfl⟩
  apply Yields.bind (Yields.int (show 0 < IntField.i8.bytes by decide))
  rintro day one ⟨hday, rfl⟩
  apply Yields.bind (Yields.int (show 0 < IntField.u8.bytes by decide))
  rintro weekday one ⟨hweekday, rfl⟩
  apply Yields.bind (Yields.nat 1)
  rintro advance one ⟨-, rfl⟩
  apply Yields.bind (Yields.int (show 0 < IntField.i32.bytes by decide))
  rintro millisOfDay four ⟨hmillis, rfl⟩
  have hcode : ∀ c ∈ (String.ofList [Char.ofNat mark]).toList, FitsUnsigned 8 c.toNat := by
    have hbyte := toNat_ofNat_of_byte hmark
    simp only [String.toList_ofList, List.mem_singleton, forall_eq, hbyte, FitsUnsigned]
    omega
  apply Yields.pure
  refine ⟨⟨(fits_i32 save).mp hsave, hcode, (fits_u8 month).mp hmonth, (fits_i8 day).mp hday,
    (fits_u8 weekday).mp hweekday, (fits_i32 millisOfDay).mp hmillis⟩, ?_, hname, rfl⟩
  exact ⟨Char.ofNat mark, String.toList_ofList⟩

def tailSize (tail : Option Tail) : Nat := if tail.isSome then 35 else 1

theorem yields_tail (names : Array String) :
    Yields (readTail names) fun tail size => SingleMarks tail ∧
      (∀ found ∈ tail, found.Encodable ∧ found.starting.name ∈ names ∧
        found.ending.name ∈ names) ∧ size = tailSize tail := by
  apply Yields.bind (Yields.nat 1)
  rintro flag one ⟨-, rfl⟩
  by_cases hflag : flag = 0
  · rw [if_pos hflag]
    apply Yields.pure
    refine ⟨?_, ?_, rfl⟩
    · rintro found ⟨⟩
    · rintro found ⟨⟩
  · rw [if_neg hflag]
    apply Yields.bind (Yields.int (show 0 < IntField.i32.bytes by decide))
    rintro standardOffset four ⟨hstandard, rfl⟩
    apply Yields.bind (yields_recurrence names)
    rintro starting fifteen ⟨hstarting, hstartMark, hstartName, rfl⟩
    apply Yields.bind (yields_recurrence names)
    rintro ending fifteen ⟨hending, hendMark, hendName, rfl⟩
    apply Yields.pure
    refine ⟨?_, ?_, rfl⟩
    · rintro found ⟨⟩
      exact ⟨hstartMark, hendMark⟩
    · rintro found ⟨⟩
      exact ⟨⟨(fits_i32 standardOffset).mp hstandard, hstarting, hending⟩, hstartName, hendName⟩

def sizeWith (names : List String) (zone : TimeZone) : Nat :=
  2 + (names.map textSize).sum + (4 + (18 * zone.transitions.size + tailSize zone.tail))

def frontReader (id : String) : Reader TimeZone := do
  let names ← readPool
  let transitions ← Reader.many (← Reader.nat 4) (readTransition names)
  let tail ← readTail names
  return { id, transitions := transitions.toArray, tail }

theorem reader_eq (id : String) :
    reader id = do
      let zone ← frontReader id
      unless (← get).atEnd do throw (.trailingData id)
      return zone := by
  simp only [reader, frontReader, bind_assoc, pure_bind]

/-- A zone is read if nothing is left after it. -/
theorem reader_run (id : String) (cursor : Cursor) :
    reader id cursor =
      match frontReader id cursor with
      | .ok zone after =>
        if after.rest = [] then .ok zone after else .error (.trailingData id) after
      | .error error after => .error error after := by
  rw [reader_eq]
  simp only [bind, EStateM.bind]
  cases hfront : frontReader id cursor with
  | error error after => rfl
  | ok zone after =>
    obtain ⟨position, rest⟩ := after
    cases rest with
    | nil => rfl
    | cons byte bytes => rfl

theorem decode_eq_ok_iff {bytes : List UInt8} {id : String} {zone : TimeZone} :
    decode bytes id = .ok zone ↔
      ∃ position, frontReader id (.start bytes) = .ok zone ⟨position, []⟩ := by
  rw [decode, Reader.runOn, reader_run]
  cases hfront : frontReader id (.start bytes) with
  | error error after => simp
  | ok found after =>
    obtain ⟨position, rest⟩ := after
    cases rest with
    | nil => simp
    | cons byte bytes => simp

theorem names_subset {zone : TimeZone} {pool : Array String}
    (htransitions : ∀ transition ∈ zone.transitions.toList, transition.name ∈ pool)
    (htail : ∀ tail ∈ zone.tail, tail.starting.name ∈ pool ∧ tail.ending.name ∈ pool) :
    ∀ name ∈ zone.names, name ∈ pool := by
  intro name hname
  rw [names, List.mem_append, Array.toList_map, List.mem_map] at hname
  rcases hname with ⟨transition, hmem, rfl⟩ | hmem
  · exact htransitions transition hmem
  · cases hfound : zone.tail with
    | none => simp [hfound] at hmem
    | some tail =>
      obtain ⟨hstarting, hending⟩ := htail tail hfound
      rw [hfound] at hmem
      rcases List.mem_pair.mp hmem with rfl | rfl
      · exact hstarting
      · exact hending

theorem yields_front (id : String) :
    Yields (frontReader id) fun zone size => zone.id = id ∧ SingleMarks zone.tail ∧
      zone.Encodable ∧ ∃ pool : Array String, (∀ name ∈ zone.names, name ∈ pool) ∧
        size = zone.sizeWith pool.toList := by
  apply Yields.bind yields_pool
  rintro pool size ⟨hfew, hshort, rfl⟩
  apply Yields.bind (Yields.nat 4)
  rintro count four ⟨hcount, rfl⟩
  apply Yields.bind (Yields.many (yields_transition pool) count)
  rintro transitions size ⟨rfl, htransitions, rfl⟩
  apply Yields.bind (yields_tail pool)
  rintro tail size ⟨hmarks, htail, rfl⟩
  apply Yields.pure
  have hnames : ∀ name ∈ names { id, transitions := transitions.toArray, tail }, name ∈ pool := by
    apply names_subset
    · intro transition hmem
      exact (htransitions transition hmem).2
    · intro found hfound
      exact (htail found hfound).2
  refine ⟨rfl, hmarks, ⟨?_, ?_, ?_, ?_, ?_⟩, pool, hnames, ?_⟩
  · have hsubset : (names { id, transitions := transitions.toArray, tail }).toFinset ⊆
        pool.toList.toFinset := by
      intro name hname
      rw [List.mem_toFinset] at hname ⊢
      exact Array.mem_toList_iff.mpr (hnames name hname)
    have hcard := (Finset.card_le_card hsubset).trans pool.toList.toFinset_card_le
    rw [Array.length_toList] at hcard
    omega
  · intro name hname
    exact hshort name (hnames name hname)
  · rw [List.size_toArray]
    omega
  · intro transition hmem
    exact (htransitions transition hmem).1
  · intro found hfound
    exact (htail found hfound).1
  · rw [sizeWith, List.map_const', List.sum_replicate, List.size_toArray, smul_eq_mul]
    ring

/-- What is written for a zone takes the bytes of its own names, each once, and of its numbers. -/
theorem encode_length {zone : TimeZone} {bytes : List UInt8} (h : zone.encode = .ok bytes) :
    bytes.length = zone.sizeWith (NamePool.ofList zone.names).names.toList := by
  let pool := NamePool.ofList zone.names
  have hmarks := singleMarks_of_encode h
  have hmem : ∀ name ∈ zone.names, name ∈ pool.names.toList := by
    intro name hname
    exact (NamePool.mem_ofList zone.names name).mpr hname
  obtain ⟨hnamed, hnamedTail⟩ := zone.names_mem
  obtain ⟨names, hnames, h⟩ := bind_eq_ok.mp h
  obtain ⟨count, hcount, h⟩ := bind_eq_ok.mp h
  obtain ⟨transitions, htransitions, h⟩ := bind_eq_ok.mp h
  obtain ⟨tail, htail, h⟩ := bind_eq_ok.mp h
  cases h
  obtain ⟨hreadNames, hsmall, -⟩ := (writes_pool pool).withFits.of_ok hnames
  have hreadTransitions := Reads.many ((Writes.mapM fun transition hin =>
    writes_transition transition hsmall (hmem _ (hnamed transition hin))).of_ok htransitions)
  have hreadTail := (writes_tail hsmall (fun found hfound =>
    (hnamedTail found hfound).imp (hmem _) (hmem _)) hmarks).of_ok htail
  have hnamesSize := (yields_pool.of_reads hreadNames).2.2
  have hcountSize :=
    ((Yields.nat 4).of_reads ((Writes.nat .u32 rfl zone.transitions.size).of_ok hcount)).2
  have htransitionsSize :=
    ((Yields.many (yields_transition pool.names) _).of_reads hreadTransitions).2.2
  have htailSize := ((yields_tail pool.names).of_reads hreadTail).2.2
  have hlength : zone.transitions.toList.length = zone.transitions.size := Array.length_toList
  rw [List.map_const', List.sum_replicate, hlength, smul_eq_mul] at htransitionsSize
  rw [List.length_append, List.length_append, List.length_append, hnamesSize, hcountSize,
    htransitionsSize, htailSize, sizeWith]
  ring

/-- A pool that holds all names of a zone is at least as large as that of its names. -/
theorem sizeWith_le {zone : TimeZone} {pool : Array String}
    (h : ∀ name ∈ zone.names, name ∈ pool) :
    zone.sizeWith (NamePool.ofList zone.names).names.toList ≤ zone.sizeWith pool.toList := by
  have hsubset : (NamePool.ofList zone.names).names.toList ⊆ pool.toList := by
    intro name hname
    exact Array.mem_toList_iff.mpr (h name ((NamePool.mem_ofList zone.names name).mp hname))
  obtain ⟨used, hperm, hsublist⟩ := (NamePool.names_nodup _).subperm hsubset
  have hsum : (used.map textSize).sum ≤ (pool.toList.map textSize).sum :=
    (hsublist.map textSize).sum_le_sum fun size _ => Nat.zero_le size
  rw [(hperm.map textSize).sum_eq] at hsum
  unfold sizeWith
  omega

theorem steady_int (field : IntField) : Steady (Reader.int field) := by
  apply Steady.bind (Steady.take field.bytes)
  intro bytes
  exact Steady.pure _

theorem steady_pool : Steady readPool := by
  apply Steady.bind (Steady.nat 2)
  intro count
  apply Steady.bind (Steady.many Steady.text count)
  intro names
  exact Steady.pure _

theorem steady_name (names : Array String) : Steady (readName names) := by
  apply Steady.bind (Steady.nat 2)
  intro index
  cases names[index]? with
  | none => exact Steady.throw _
  | some name => exact Steady.pure name

theorem steady_transition (names : Array String) : Steady (readTransition names) := by
  apply Steady.bind (steady_int .i64)
  intro millis
  apply Steady.bind (steady_int .i32)
  intro wallOffset
  apply Steady.bind (steady_int .i32)
  intro standardOffset
  apply Steady.bind (steady_name names)
  intro name
  exact Steady.pure _

theorem steady_recurrence (names : Array String) : Steady (readRecurrence names) := by
  apply Steady.bind (steady_name names)
  intro name
  apply Steady.bind (steady_int .i32)
  intro save
  apply Steady.bind (Steady.nat 1)
  intro mark
  apply Steady.bind (steady_int .u8)
  intro month
  apply Steady.bind (steady_int .i8)
  intro day
  apply Steady.bind (steady_int .u8)
  intro weekday
  apply Steady.bind (Steady.nat 1)
  intro advance
  apply Steady.bind (steady_int .i32)
  intro millisOfDay
  exact Steady.pure _

theorem steady_tail (names : Array String) : Steady (readTail names) := by
  apply Steady.bind (Steady.nat 1)
  intro flag
  by_cases hflag : flag = 0
  · rw [if_pos hflag]
    exact Steady.pure none
  · rw [if_neg hflag]
    apply Steady.bind (steady_int .i32)
    intro standardOffset
    apply Steady.bind (steady_recurrence names)
    intro starting
    apply Steady.bind (steady_recurrence names)
    intro ending
    exact Steady.pure _

theorem steady_front (id : String) : Steady (frontReader id) := by
  apply Steady.bind steady_pool
  intro names
  apply Steady.bind (Steady.nat 4)
  intro count
  apply Steady.bind (Steady.many (steady_transition names) count)
  intro transitions
  apply Steady.bind (steady_tail names)
  intro tail
  exact Steady.pure _

/-- Data of which a zone has been read is refused as soon as a part of it is missing. -/
theorem decode_cut {cut more : List UInt8} {id : String} {zone : TimeZone}
    (h : decode (cut ++ more) id = .ok zone) (hmore : more ≠ []) :
    ∃ error : DecodeError, decode cut id = .error error ∧ error.IsEndOfData := by
  obtain ⟨position, hwhole⟩ := decode_eq_ok_iff.mp h
  obtain ⟨error, after, hcut, hend⟩ := (steady_front id).run_cut hwhole hmore
  refine ⟨error, ?_, hend⟩
  rw [decode, Reader.runOn, reader_run, hcut]

/-- It is refused as well if anything follows. -/
theorem decode_trailing {bytes more : List UInt8} {id : String} {zone : TimeZone}
    (h : decode bytes id = .ok zone) (hmore : more ≠ []) :
    decode (bytes ++ more) id = .error (.trailingData id) := by
  obtain ⟨position, hwhole⟩ := decode_eq_ok_iff.mp h
  have hlonger : frontReader id (.start (bytes ++ more)) = .ok zone ⟨position, more⟩ :=
    (steady_front id).ok hwhole more
  rw [decode, Reader.runOn, reader_run, hlonger]
  simp only [if_neg hmore]

/-- What has been read can be written, and takes no more bytes than what it was read from. -/
theorem encode_of_decode {bytes : List UInt8} {id : String} {zone : TimeZone}
    (h : decode bytes id = .ok zone) :
    zone.id = id ∧ ∃ written, zone.encode = .ok written ∧ written.length ≤ bytes.length := by
  obtain ⟨position, hfront⟩ := decode_eq_ok_iff.mp h
  obtain ⟨size, hsize, hid, hmarks, hencodable, pool, hpool, rfl⟩ :=
    yields_front id _ _ _ hfront
  obtain ⟨written, hwritten, -⟩ := (zone.writes_zone hmarks).accepts hencodable
  refine ⟨hid, written, hwritten, ?_⟩
  calc written.length
      = zone.sizeWith (NamePool.ofList zone.names).names.toList := encode_length hwritten
    _ ≤ zone.sizeWith pool.toList := sizeWith_le hpool
    _ = bytes.length := hsize.symm

/-- Whatever is read as a zone can be written again, in at most as many bytes, which are read as
the same zone. The form that is written shows where it ends: a proper beginning of it lacks data,
and what follows it is refused. -/
theorem encode_canonical (id : String) :
    (∀ bytes zone, decode bytes id = .ok zone →
      ∃ written, zone.encode = .ok written ∧ written.length ≤ bytes.length ∧
        decode written id = .ok zone) ∧
    ∀ zone written, TimeZone.encode zone = .ok written →
      (∀ cut, cut <+: written → cut ≠ written →
        ∃ error : DecodeError, decode cut id = .error error ∧ error.IsEndOfData) ∧
      ∀ more, more ≠ [] → decode (written ++ more) id = .error (.trailingData id) := by
  constructor
  · intro bytes zone h
    obtain ⟨rfl, written, hwritten, hlength⟩ := encode_of_decode h
    exact ⟨written, hwritten, hlength, decode_of_encode hwritten⟩
  · intro zone written h
    have hrenamed : TimeZone.encode { zone with id } = .ok written := h
    have hread := decode_of_encode hrenamed
    constructor
    · rintro cut ⟨more, rfl⟩ hproper
      apply decode_cut hread
      rintro rfl
      exact hproper (List.append_nil cut).symm
    · intro more hmore
      exact decode_trailing hread hmore

/-- A form that is read but not written: the first name is not used, the others are the same, and
the flags are not 1. -/
def looseBytes : List UInt8 :=
  [0, 3, 0, 1, 66, 0, 1, 65, 0, 1, 65] ++
    [0, 0, 0, 1, 0, 0, 0, 0, 0, 0, 0, 0, 0, 0, 0, 0, 0, 0, 0, 0, 0, 2] ++
    [7, 0, 0, 0, 0] ++
    [0, 1, 0, 0, 0, 0, 119, 3, 255, 7, 9, 0, 0, 0, 0] ++
    [0, 2, 0, 54, 238, 128, 0, 10, 255, 7, 0, 0, 0, 0, 0]

def looseZone : TimeZone :=
  { id := "Loose"
    transitions := #[⟨0, "A", 0, 0⟩]
    tail := some
      { standardOffset := 0
        starting := ⟨⟨⟨"w"⟩, 3, -1, 7, true, 0⟩, "A", 0⟩
        ending := ⟨⟨⟨"\x00"⟩, 10, -1, 7, false, 0⟩, "A", 3600000⟩ } }

theorem encode_canonical_loose :
    decode looseBytes "Loose" = .ok looseZone ∧
      ∃ written, looseZone.encode = .ok written ∧ written.length ≤ looseBytes.length ∧
        decode written "Loose" = .ok looseZone ∧
        (∃ error : DecodeError, decode [] "Loose" = .error error ∧ error.IsEndOfData) ∧
        decode (written ++ [0]) "Loose" = .error (.trailingData "Loose") := by
  have hread : decode looseBytes "Loose" = .ok looseZone := rfl
  obtain ⟨hback, hends⟩ := encode_canonical "Loose"
  obtain ⟨written, hwritten, hlength, hsame⟩ := hback looseBytes looseZone hread
  obtain ⟨hcut, htrailing⟩ := hends looseZone written hwritten
  have hsome : [] ≠ written := by
    rintro rfl
    have hempty : decode [] "Loose" = .error (.endOfData 2 0 0) := rfl
    rw [hempty] at hsame
    cases hsame
  exact ⟨hread, written, hwritten, hlength, hsame, hcut [] (List.nil_prefix) hsome,
    htrailing [0] (by simp)⟩

end TimeZone

end CivilTime
