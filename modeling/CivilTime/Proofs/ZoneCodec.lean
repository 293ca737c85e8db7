import CivilTime.Proofs.Bytes
import CivilTime.Proofs.NamePool
import CivilTime.TimeZone.Codec

/-!
The binary form of a zone holds exactly the zones whose numbers fit the fields, and reading it back
gives the zone. Each part of the form is written and read along the same steps, so its lemma
follows those steps.
-/

namespace CivilTime

open Bytes

@[mk_iff]
structure Transition.Encodable (transition : Transition) : Prop where
  millis : FitsSigned 64 transition.millis
  wallOffset : FitsSigned 32 transition.wallOffset
  standardOffset : FitsSigned 32 transition.standardOffset

@[mk_iff]
structure Recurrence.Encodable (recurrence : Recurrence) : Prop where
  save : FitsSigned 32 recurrence.save
  mark : ∀ c ∈ recurrence.point.clock.mark.toList, FitsUnsigned 8 c.toNat
  month : FitsUnsigned 8 recurrence.point.month
  day : FitsSigned 8 recurrence.point.day
  weekday : FitsUnsigned 8 recurrence.point.weekday
  millisOfDay : FitsSigned 32 recurrence.point.millisOfDay

@[mk_iff]
structure Tail.Encodable (tail : Tail) : Prop where
  standardOffset : FitsSigned 32 tail.standardOffset
  starting : tail.starting.Encodable
  ending : tail.ending.Encodable

@[mk_iff]
structure TimeZone.Encodable (zone : TimeZone) : Prop where
  fewNames : zone.names.toFinset.card ≤ 65535
  shortNames : ∀ name ∈ zone.names, name.utf8ByteSize ≤ 65535
  fewTransitions : zone.transitions.size ≤ 4294967295
  transitions : ∀ transition ∈ zone.transitions.toList, transition.Encodable
  tail : ∀ tail ∈ zone.tail, tail.Encodable

instance (transition : Transition) : Decidable transition.Encodable :=
  decidable_of_iff _ (Transition.encodable_iff transition).symm

instance (recurrence : Recurrence) : Decidable recurrence.Encodable :=
  -- Only the characters of the mark are gone through, not every character there is.
  have : Decidable (∀ c ∈ recurrence.point.clock.mark.toList, FitsUnsigned 8 c.toNat) :=
    List.decidableBAll _ _
  decidable_of_iff _ (Recurrence.encodable_iff recurrence).symm

instance (tail : Tail) : Decidable tail.Encodable :=
  decidable_of_iff _ (Tail.encodable_iff tail).symm

instance (zone : TimeZone) : Decidable zone.Encodable :=
  decidable_of_iff _ (TimeZone.encodable_iff zone).symm

namespace TimeZone

theorem writes_name {pool : NamePool} {name : String} (hsmall : pool.size ≤ 65535)
    (hmem : name ∈ pool.names.toList) :
    Writes (encodeName pool name) True (fun bytes => Reads (readName pool.names) bytes name) := by
  obtain ⟨number, hnumber⟩ := (pool.number?_isSome_iff name).mpr hmem
  have hplace := (pool.number?_eq_some_iff name number).mp hnumber
  have hbound : number < pool.size := (Array.getElem?_eq_some_iff.mp hplace).1
  rw [encodeName, hnumber, Option.getD_some]
  refine (Writes.nat .u16 rfl number).imp ?_ fun bytes hindex => ?_
  · simp [IntField.size, IntField.u16]
    omega
  · rw [← List.append_nil bytes]
    refine hindex.bind ?_
    simp only [hplace]
    exact Reads.pure name

theorem writes_transition {pool : NamePool} (transition : Transition) (hsmall : pool.size ≤ 65535)
    (hmem : transition.name ∈ pool.names.toList) :
    Writes (encodeTransition pool transition) transition.Encodable
      (fun bytes => Reads (readTransition pool.names) bytes transition) := by
  refine ((Writes.int .i64 transition.millis).bind fun millis hmillis =>
    (Writes.int .i32 transition.wallOffset).bind fun wall hwall =>
    (Writes.int .i32 transition.standardOffset).bind fun standard hstandard =>
    (writes_name hsmall hmem).bind fun name hname => Writes.pure ?_).imp ?_ fun bytes h => h
  · have hread : Reads (readTransition pool.names)
        (millis ++ (wall ++ (standard ++ (name ++ [])))) transition :=
      hmillis.bind (hwall.bind (hstandard.bind (hname.bind (Reads.pure transition))))
    simpa using hread
  · simp [Transition.encodable_iff, IntField.i64, IntField.i32, fits_signed]

/-- The mark of a clock, if it is one character, is read back as the code of that character. -/
theorem writes_clock {clock : Clock} {c : Char} (hmark : clock.mark.toList = [c]) :
    Writes (encodeClock clock) (∀ c ∈ clock.mark.toList, FitsUnsigned 8 c.toNat)
      (fun bytes => Reads (Reader.nat 1) bytes c.toNat) := by
  have hencode : encodeClock clock = encodeInt .u8 c.toNat := by
    rw [encodeClock, hmark]
  rw [hencode]
  refine (Writes.nat .u8 rfl c.toNat).imp ?_ fun bytes h => h
  simp [hmark, FitsUnsigned, IntField.size, IntField.u8]

theorem clock_of_code {clock : Clock} {c : Char} (hmark : clock.mark.toList = [c]) :
    (⟨String.ofList [Char.ofNat c.toNat]⟩ : Clock) = clock := by
  rw [Char.ofNat_toNat, ← hmark, String.ofList_toList]

theorem writes_advance (advance : Bool) :
    Writes (encodeInt .u8 (if advance then 1 else 0)) True
      (fun bytes => Reads (Reader.nat 1) bytes (if advance then 1 else 0)) := by
  cases advance with
  | true => exact (Writes.nat .u8 rfl 1).imp (by simp [IntField.size, IntField.u8]) fun _ h => h
  | false => exact (Writes.nat .u8 rfl 0).imp (by simp [IntField.size, IntField.u8]) fun _ h => h

theorem writes_recurrence {pool : NamePool} {recurrence : Recurrence} {c : Char}
    (hsmall : pool.size ≤ 65535) (hmem : recurrence.name ∈ pool.names.toList)
    (hmark : recurrence.point.clock.mark.toList = [c]) :
    Writes (encodeRecurrence pool recurrence) recurrence.Encodable
      (fun bytes => Reads (readRecurrence pool.names) bytes recurrence) := by
  refine ((writes_name hsmall hmem).bind fun name hname =>
    (Writes.int .i32 recurrence.save).bind fun save hsave =>
    (writes_clock hmark).bind fun clock hclock =>
    (Writes.int .u8 recurrence.point.month).bind fun month hmonth =>
    (Writes.int .i8 recurrence.point.day).bind fun day hday =>
    (Writes.int .u8 recurrence.point.weekday).bind fun weekday hweekday =>
    (writes_advance recurrence.point.advance).bind fun advance hadvance =>
    (Writes.int .i32 recurrence.point.millisOfDay).bind fun millis hmillis =>
      Writes.pure ?_).imp ?_ fun bytes h => h
  · have hpure : Reads (pure { point := { clock := ⟨String.ofList [Char.ofNat c.toNat]⟩
                                          month := recurrence.point.month
                                          day := recurrence.point.day
                                          weekday := recurrence.point.weekday
                                          advance := (if recurrence.point.advance then 1 else 0) != 0
                                          millisOfDay := recurrence.point.millisOfDay }
                               name := recurrence.name
                               save := recurrence.save }) [] recurrence := by
      have hadvance : ((if recurrence.point.advance then 1 else 0) != 0) =
          recurrence.point.advance := by
        cases recurrence.point.advance <;> rfl
      rw [clock_of_code hmark, hadvance]
      exact Reads.pure recurrence
    have hread : Reads (readRecurrence pool.names)
        (name ++ (save ++ (clock ++ (month ++ (day ++ (weekday ++ (advance ++ (millis ++ []))))))))
        recurrence :=
      hname.bind (hsave.bind (hclock.bind (hmonth.bind (hday.bind (hweekday.bind
        (hadvance.bind (hmillis.bind hpure)))))))
    simpa using hread
  · simp [Recurrence.encodable_iff, IntField.i32, IntField.u8, IntField.i8, fits_signed,
      fits_unsigned]

def SingleMarks (tail : Option Tail) : Prop :=
  ∀ found ∈ tail, (∃ c, found.starting.point.clock.mark.toList = [c]) ∧
    ∃ c, found.ending.point.clock.mark.toList = [c]

theorem writes_tail {pool : NamePool} {tail : Option Tail} (hsmall : pool.size ≤ 65535)
    (hmem : ∀ found ∈ tail, found.starting.name ∈ pool.names.toList ∧
      found.ending.name ∈ pool.names.toList)
    (hmarks : SingleMarks tail) :
    Writes (encodeTail pool tail) (∀ found ∈ tail, found.Encodable)
      (fun bytes => Reads (readTail pool.names) bytes tail) := by
  cases tail with
  | none =>
    refine (Writes.nat .u8 rfl 0).imp (by simp [IntField.size, IntField.u8]) fun bytes hflag => ?_
    have hread : Reads (readTail pool.names) (bytes ++ []) none := hflag.bind (Reads.pure none)
    simpa using hread
  | some tail =>
    obtain ⟨⟨first, hfirst⟩, second, hsecond⟩ := hmarks tail rfl
    obtain ⟨hstartName, hendName⟩ := hmem tail rfl
    refine ((Writes.nat .u8 rfl 1).bind fun flag hflag =>
      (Writes.int .i32 tail.standardOffset).bind fun standard hstandard =>
      (writes_recurrence hsmall hstartName hfirst).bind fun starting hstarting =>
      (writes_recurrence hsmall hendName hsecond).bind fun ending hending =>
        Writes.pure ?_).imp ?_ fun bytes h => h
    · have hread : Reads (readTail pool.names)
          (flag ++ (standard ++ (starting ++ (ending ++ [])))) (some tail) :=
        hflag.bind (hstandard.bind (hstarting.bind (hending.bind (Reads.pure (some tail)))))
      simpa using hread
    · simp [Tail.encodable_iff, IntField.size, IntField.u8, IntField.i32, fits_signed]

theorem writes_pool (pool : NamePool) :
    Writes (encodePool pool)
      (pool.size ≤ 65535 ∧ ∀ name ∈ pool.names.toList, name.utf8ByteSize ≤ 65535)
      (fun bytes => Reads readPool bytes pool.names) := by
  refine ((Writes.nat .u16 rfl pool.size).bind fun count hcount =>
    (Writes.mapM fun name _ => Writes.text name).bind fun chunks hchunks =>
      Writes.pure ?_).imp ?_ fun bytes h => h
  · have hread : Reads readPool (count ++ (chunks.flatten ++ [])) pool.names.toList.toArray :=
      hcount.bind ((Reads.many hchunks).bind (Reads.pure _))
    simpa using hread
  · simp [IntField.size, IntField.u16, Nat.lt_succ_iff]

theorem names_mem (zone : TimeZone) :
    (∀ transition ∈ zone.transitions.toList, transition.name ∈ zone.names) ∧
      ∀ tail ∈ zone.tail, tail.starting.name ∈ zone.names ∧ tail.ending.name ∈ zone.names := by
  constructor
  · intro transition hmem
    simp only [names, Array.toList_map, List.mem_append]
    exact Or.inl (List.mem_map.mpr ⟨transition, hmem, rfl⟩)
  · intro tail htail
    simp only [names, Option.mem_def.mp htail]
    simp

/-- Everything that writing a zone can do: it succeeds exactly for a zone that fits, and then the
bytes, read to their end, are the zone again. -/
theorem writes_zone (zone : TimeZone) (hmarks : SingleMarks zone.tail) :
    Writes zone.encode zone.Encodable (fun bytes => ReadsAll (reader zone.id) bytes zone) := by
  let pool := NamePool.ofList zone.names
  have hpool : ∀ name ∈ zone.names, name ∈ pool.names.toList := by
    intro name hname
    exact (NamePool.mem_ofList zone.names name).mpr hname
  obtain ⟨htransitions, htails⟩ := zone.names_mem
  refine ((writes_pool pool).withFits.bind fun names ⟨hnames, hsmall, _⟩ =>
    (Writes.nat .u32 rfl zone.transitions.size).bind fun count hcount =>
    (Writes.mapM fun transition hmem =>
      writes_transition transition hsmall (hpool _ (htransitions transition hmem))).bind
        fun chunks hchunks =>
    (writes_tail hsmall (fun tail htail => (htails tail htail).imp (hpool _) (hpool _))
      hmarks).bind fun tail htail => Writes.pure ?_).imp ?_ fun bytes h => h
  · have hread : ReadsAll (reader zone.id) (names ++ (count ++ (chunks.flatten ++ (tail ++ []))))
        zone := by
      have hmany := Reads.many hchunks
      rw [Array.length_toList] at hmany
      refine hnames.bindAll (hcount.bindAll (hmany.bindAll (htail.bindAll ?_)))
      intro position
      rfl
    simpa using hread
  · have hsize : zone.transitions.size < IntField.size .u32 ↔
        zone.transitions.size ≤ 4294967295 := by
      simp [IntField.size, IntField.u32, Nat.lt_succ_iff]
    have hshort : (∀ name ∈ pool.names.toList, name.utf8ByteSize ≤ 65535) ↔
        ∀ name ∈ zone.names, name.utf8ByteSize ≤ 65535 := by
      simp only [pool, NamePool.mem_ofList]
    rw [hsize, hshort, show pool.size = zone.names.toFinset.card from NamePool.size_ofList _]
    constructor
    · exact fun h => ⟨⟨h.fewNames, h.shortNames⟩, h.fewTransitions, h.transitions, h.tail, trivial⟩
    · rintro ⟨⟨hfew, hshort⟩, hcount, htransitions, htail, -⟩
      exact ⟨hfew, hshort, hcount, htransitions, htail⟩

theorem mark_of_encodeClock {clock : Clock} {bytes : List UInt8}
    (h : encodeClock clock = .ok bytes) : ∃ c, clock.mark.toList = [c] := by
  rw [encodeClock] at h
  split at h
  · next c hmark => exact ⟨c, hmark⟩
  · cases h

theorem mark_of_encodeRecurrence {pool : NamePool} {recurrence : Recurrence} {bytes : List UInt8}
    (h : encodeRecurrence pool recurrence = .ok bytes) :
    ∃ c, recurrence.point.clock.mark.toList = [c] := by
  obtain ⟨name, -, h⟩ := bind_eq_ok.mp h
  obtain ⟨save, -, h⟩ := bind_eq_ok.mp h
  obtain ⟨clock, hclock, -⟩ := bind_eq_ok.mp h
  exact mark_of_encodeClock hclock

/-- Only a zone whose clocks are marked by one character can be written at all. -/
theorem singleMarks_of_encode {zone : TimeZone} {bytes : List UInt8}
    (h : zone.encode = .ok bytes) : SingleMarks zone.tail := by
  intro tail htail
  obtain ⟨names, -, h⟩ := bind_eq_ok.mp h
  obtain ⟨count, -, h⟩ := bind_eq_ok.mp h
  obtain ⟨transitions, -, h⟩ := bind_eq_ok.mp h
  obtain ⟨written, hwritten, -⟩ := bind_eq_ok.mp h
  rw [Option.mem_def.mp htail, encodeTail] at hwritten
  obtain ⟨flag, -, h⟩ := bind_eq_ok.mp hwritten
  obtain ⟨standard, -, h⟩ := bind_eq_ok.mp h
  obtain ⟨starting, hstarting, h⟩ := bind_eq_ok.mp h
  obtain ⟨ending, hending, -⟩ := bind_eq_ok.mp h
  exact ⟨mark_of_encodeRecurrence hstarting, mark_of_encodeRecurrence hending⟩

/-- Whatever has been written is read back. -/
theorem decode_of_encode {zone : TimeZone} {bytes : List UInt8} (h : zone.encode = .ok bytes) :
    decode bytes zone.id = .ok zone :=
  ((zone.writes_zone (singleMarks_of_encode h)).of_ok h).runOn

/-- A zone can be written exactly if everything in it fits its field. What has been written is
read back as the same zone, and a zone that cannot be written is refused for a value that is out of
the range of its field. -/
theorem encode_exact (zone : TimeZone) (hmarks : SingleMarks zone.tail) :
    ((∃ bytes, zone.encode = .ok bytes) ↔ zone.Encodable) ∧
      (∀ bytes, zone.encode = .ok bytes → decode bytes zone.id = .ok zone) ∧
      (¬ zone.Encodable →
        ∃ error : EncodeError, zone.encode = .error error ∧ error.OutOfRange) := by
  have hwrites := zone.writes_zone hmarks
  have hencodable : ∀ bytes, zone.encode = .ok bytes → zone.Encodable := by
    intro bytes hbytes
    by_contra hnot
    obtain ⟨error, herror, -⟩ := hwrites.refuses hnot
    simp [hbytes] at herror
  refine ⟨⟨?_, ?_⟩, ?_, hwrites.refuses⟩
  · rintro ⟨bytes, hbytes⟩
    exact hencodable bytes hbytes
  · intro h
    obtain ⟨bytes, hbytes, -⟩ := hwrites.accepts h
    exact ⟨bytes, hbytes⟩
  · intro bytes hbytes
    obtain ⟨written, hwritten, hread⟩ := hwrites.accepts (hencodable bytes hbytes)
    rw [hbytes] at hwritten
    obtain rfl := Except.ok.inj hwritten
    exact hread.runOn

/-- A zone with transitions out of order, a name of several bytes to a character and a tail that
shares a name with a transition. -/
def borderZone : TimeZone :=
  { id := "Border/Case"
    transitions :=
      #[⟨9223372036854775807, "Ωφ", -2147483648, 2147483647⟩,
        ⟨-9223372036854775808, "", 0, 0⟩]
    tail := some
      { standardOffset := -1
        starting := ⟨⟨.universal, 0, -128, 255, true, -1⟩, "Ωφ", 3600000⟩
        ending := ⟨⟨⟨"ÿ"⟩, 255, 127, 0, false, 2147483647⟩, "Z", 0⟩ } }

theorem encode_exact_border :
    SingleMarks borderZone.tail ∧ borderZone.Encodable ∧
      ∃ bytes, borderZone.encode = .ok bytes ∧ decode bytes "Border/Case" = .ok borderZone := by
  have hmarks : SingleMarks borderZone.tail := by
    intro tail htail
    obtain rfl := Option.some.inj htail
    exact ⟨⟨'u', rfl⟩, 'ÿ', rfl⟩
  have hencodable : borderZone.Encodable := by decide +kernel
  obtain ⟨hiff, hback, -⟩ := encode_exact borderZone hmarks
  obtain ⟨bytes, hbytes⟩ := hiff.mpr hencodable
  exact ⟨hmarks, hencodable, bytes, hbytes, hback bytes hbytes⟩

end TimeZone

end CivilTime
