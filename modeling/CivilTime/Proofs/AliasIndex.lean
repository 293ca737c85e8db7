import CivilTime.AliasIndex
import CivilTime.Proofs.Truncation
import CivilTime.Proofs.ZoneCodec

/-!
The index of a compilation. It can be written exactly if it has few and short names; what has been
written is read back, pair by pair and in order, and cannot be read when its end is missing. Sorting
by name first makes no difference to its order.
-/

namespace CivilTime

namespace NamePool

def IsPartOf (pool larger : NamePool) : Prop :=
  ∀ (number : Nat) (name : String), pool.names[number]? = some name →
    larger.names[number]? = some name

theorem IsPartOf.trans {first second third : NamePool} (h : first.IsPartOf second)
    (hnext : second.IsPartOf third) : first.IsPartOf third :=
  fun number name hname => hnext number name (h number name hname)

/-- Adding a name gives its number and keeps the numbers of the others. -/
theorem add_spec (pool : NamePool) (name : String) :
    (pool.add name).2.names[(pool.add name).1]? = some name ∧
      pool.IsPartOf (pool.add name).2 := by
  rw [add]
  split
  · next number hknown => exact ⟨(pool.number?_eq_some_iff name number).mp hknown, fun _ _ h => h⟩
  · next hfresh =>
    rw [push_names]
    refine ⟨by simp [size], fun number other hother => ?_⟩
    have hbound := (Array.getElem?_eq_some_iff.mp hother).1
    rw [push_names, Array.getElem?_push, if_neg (by omega), hother]

end NamePool

namespace AliasIndex

open Bytes

def Numbers (pool : NamePool) (numbers : Nat × Nat) (pair : String × String) : Prop :=
  pool.names[numbers.1]? = some pair.1 ∧ pool.names[numbers.2]? = some pair.2

theorem Numbers.mono {pool larger : NamePool} (h : pool.IsPartOf larger) {numbers : Nat × Nat}
    {pair : String × String} (hnumbers : Numbers pool numbers pair) :
    Numbers larger numbers pair :=
  ⟨h _ _ hnumbers.1, h _ _ hnumbers.2⟩

theorem addName_eq_ok {pool larger : NamePool} {name : String} {number : Nat}
    (h : addName pool name = .ok (number, larger)) :
    larger.names[number]? = some name ∧ pool.IsPartOf larger := by
  rw [addName] at h
  split at h
  · cases h
  · obtain ⟨hname, hpart⟩ := pool.add_spec name
    rw [Except.ok.inj h] at hname hpart
    exact ⟨hname, hpart⟩

theorem addPair_eq_ok {pool larger : NamePool} {earlier later : List (Nat × Nat)}
    {pair : String × String} (h : addPair (pool, earlier) pair = .ok (larger, later)) :
    pool.IsPartOf larger ∧ ∃ numbers, later = numbers :: earlier ∧ Numbers larger numbers pair := by
  obtain ⟨name, target⟩ := pair
  obtain ⟨⟨nameNumber, between⟩, hname, h⟩ := bind_eq_ok.mp h
  obtain ⟨⟨targetNumber, last⟩, htarget, h⟩ := bind_eq_ok.mp h
  obtain ⟨rfl, rfl⟩ := Prod.mk.inj (Except.ok.inj h)
  obtain ⟨hnumber, hfirst⟩ := addName_eq_ok hname
  obtain ⟨htarget, hsecond⟩ := addName_eq_ok htarget
  exact ⟨hfirst.trans hsecond, _, rfl, hsecond _ _ hnumber, htarget⟩

/-- The numbers that are collected, newest first, are those of the pairs gone through, also in the
pool as it is in the end. -/
theorem foldlM_addPair {pairs done : List (String × String)} {pool larger : NamePool}
    {earlier later : List (Nat × Nat)}
    (h : pairs.foldlM addPair (pool, earlier) = .ok (larger, later))
    (hearlier : List.Forall₂ (Numbers pool) earlier done) :
    List.Forall₂ (Numbers larger) later (pairs.reverse ++ done) := by
  induction pairs generalizing pool earlier done with
  | nil =>
    obtain ⟨rfl, rfl⟩ := Prod.mk.inj (Except.ok.inj h)
    simpa using hearlier
  | cons pair rest ih =>
    rw [List.foldlM_cons] at h
    obtain ⟨⟨between, collected⟩, hpair, h⟩ := bind_eq_ok.mp h
    obtain ⟨hpart, numbers, rfl, hnumbers⟩ := addPair_eq_ok hpair
    have hmore : List.Forall₂ (Numbers between) (numbers :: earlier) (pair :: done) :=
      .cons hnumbers (hearlier.imp fun _ _ => Numbers.mono hpart)
    simpa using ih h hmore

theorem numbers_of_foldlM {pairs : List (String × String)} {pool : NamePool}
    {backwards : List (Nat × Nat)}
    (h : pairs.foldlM addPair (.empty, []) = .ok (pool, backwards)) :
    List.Forall₂ (Numbers pool) backwards.reverse pairs := by
  have hfolded := foldlM_addPair h .nil
  rw [List.append_nil] at hfolded
  simpa using List.forall₂_reverse_iff.mpr hfolded

theorem reads_pair {pool : NamePool} {numbers : Nat × Nat} {pair : String × String}
    (hnumbers : Numbers pool numbers pair) {bytes : List UInt8}
    (h : encodePair numbers = .ok bytes) : Reads (readPair pool.names) bytes pair := by
  obtain ⟨first, hfirst, h⟩ := bind_eq_ok.mp h
  obtain ⟨second, hsecond, h⟩ := bind_eq_ok.mp h
  obtain rfl := Except.ok.inj h
  have hread : Reads (readPair pool.names) (first ++ (second ++ [])) pair := by
    refine ((Writes.nat .u16 rfl numbers.1).of_ok hfirst).bind
      (((Writes.nat .u16 rfl numbers.2).of_ok hsecond).bind ?_)
    simp only [hnumbers.1, hnumbers.2]
    exact Reads.pure pair
  simpa using hread

theorem reads_pairs {pool : NamePool} {numbers : List (Nat × Nat)}
    {pairs : List (String × String)} (hnumbers : List.Forall₂ (Numbers pool) numbers pairs)
    {chunks : List (List UInt8)} (h : numbers.mapM encodePair = .ok chunks) :
    List.Forall₂ (fun pair bytes => Reads (readPair pool.names) bytes pair) pairs chunks := by
  induction hnumbers generalizing chunks with
  | nil =>
    obtain rfl := Except.ok.inj h
    exact .nil
  | cons hhead _ ih =>
    rw [List.mapM_cons] at h
    obtain ⟨first, hfirst, h⟩ := bind_eq_ok.mp h
    obtain ⟨rest, hrest, h⟩ := bind_eq_ok.mp h
    obtain rfl := Except.ok.inj h
    exact .cons (reads_pair hhead hfirst) (ih hrest)

/-- What has been written is read to its end, pair by pair. -/
theorem reads_of_encode {pairs : List (String × String)} {bytes : List UInt8}
    (h : encode pairs = .ok bytes) : Reads reader bytes pairs := by
  obtain ⟨⟨pool, backwards⟩, hfold, h⟩ := bind_eq_ok.mp h
  obtain ⟨names, hnames, h⟩ := bind_eq_ok.mp h
  obtain ⟨count, hcount, h⟩ := bind_eq_ok.mp h
  obtain ⟨body, hbody, h⟩ := bind_eq_ok.mp h
  obtain rfl := Except.ok.inj h
  have hnumbers := numbers_of_foldlM hfold
  have hread : Reads reader (names ++ (count ++ body.flatten)) pairs := by
    have hlength := (Writes.nat .u16 rfl backwards.reverse.length).of_ok hcount
    rw [hnumbers.length_eq] at hlength
    exact ((TimeZone.writes_pool pool).of_ok hnames).bind
      (hlength.bind (Reads.many (reads_pairs hnumbers hbody)))
  simpa using hread

/-- Whatever has been written is read back, in order. -/
theorem decode_of_encode {pairs : List (String × String)} {bytes : List UInt8}
    (h : encode pairs = .ok bytes) : decode bytes = .ok pairs :=
  (reads_of_encode h).all.runOn

def names (pairs : List (String × String)) : List String :=
  pairs.flatMap fun pair => [pair.1, pair.2]

/-- A name finds room exactly if the pool is not larger than allowed afterwards. -/
theorem addName_eq {pool : NamePool} (hpool : pool.size ≤ nameLimit) (name : String) :
    addName pool name =
      if (pool.add name).2.size ≤ nameLimit then .ok (pool.add name)
      else .error (.tooManyNames nameLimit) := by
  unfold addName
  cases hnumber : pool.number? name with
  | some number => simp [NamePool.add_of_known hnumber, hpool]
  | none =>
    rw [NamePool.size_add_of_fresh hnumber]
    by_cases hfull : nameLimit ≤ pool.size
    · rw [if_pos ⟨rfl, hfull⟩, if_neg (by omega)]
    · rw [if_neg fun h => hfull h.2, if_pos (by omega)]

theorem addPair_of_room {pool : NamePool} {name target : String} (earlier : List (Nat × Nat))
    (hroom : ((pool.add name).2.add target).2.size ≤ nameLimit) :
    addPair (pool, earlier) (name, target) =
      .ok (((pool.add name).2.add target).2,
        ((pool.add name).1, ((pool.add name).2.add target).1) :: earlier) := by
  have hfirst := ((pool.add name).2.size_le_add target).trans hroom
  have hpool := (pool.size_le_add name).trans hfirst
  rw [addPair, addName_eq hpool, if_pos hfirst]
  change (addName (pool.add name).2 target >>= _) = _
  rw [addName_eq hfirst, if_pos hroom]
  rfl

theorem addPair_of_full {pool : NamePool} {name target : String} (earlier : List (Nat × Nat))
    (hpool : pool.size ≤ nameLimit)
    (hfull : ¬ ((pool.add name).2.add target).2.size ≤ nameLimit) :
    addPair (pool, earlier) (name, target) = .error (.tooManyNames nameLimit) := by
  rw [addPair, addName_eq hpool]
  by_cases hfirst : (pool.add name).2.size ≤ nameLimit
  · rw [if_pos hfirst]
    change (addName (pool.add name).2 target >>= _) = _
    rw [addName_eq hfirst, if_neg hfull]
    rfl
  · rw [if_neg hfirst]
    rfl

theorem addAll_names_cons (pool : NamePool) (name target : String)
    (rest : List (String × String)) : pool.addAll (names ((name, target) :: rest)) =
      ((pool.add name).2.add target).2.addAll (names rest) :=
  rfl

/-- Pairs are numbered if the pool with all their names is not too large. -/
theorem foldlM_addPair_of_room {pairs : List (String × String)} {pool : NamePool}
    {earlier : List (Nat × Nat)} (hroom : (pool.addAll (names pairs)).size ≤ nameLimit) :
    ∃ later, pairs.foldlM addPair (pool, earlier) = .ok (pool.addAll (names pairs), later) := by
  induction pairs generalizing pool earlier with
  | nil => exact ⟨earlier, rfl⟩
  | cons pair rest ih =>
    obtain ⟨name, target⟩ := pair
    rw [addAll_names_cons] at hroom ⊢
    rw [List.foldlM_cons, addPair_of_room earlier ((NamePool.size_le_addAll _ _).trans hroom)]
    exact ih hroom

theorem foldlM_addPair_of_full {pairs : List (String × String)} {pool : NamePool}
    {earlier : List (Nat × Nat)} (hpool : pool.size ≤ nameLimit)
    (hfull : ¬ (pool.addAll (names pairs)).size ≤ nameLimit) :
    pairs.foldlM addPair (pool, earlier) = .error (.tooManyNames nameLimit) := by
  induction pairs generalizing pool earlier with
  | nil => exact absurd hpool hfull
  | cons pair rest ih =>
    obtain ⟨name, target⟩ := pair
    rw [addAll_names_cons] at hfull
    rw [List.foldlM_cons]
    by_cases hroom : ((pool.add name).2.add target).2.size ≤ nameLimit
    · rw [addPair_of_room earlier hroom]
      exact ih hroom hfull
    · rw [addPair_of_full earlier hpool hroom]
      rfl

theorem exists_encodePairs {pool : NamePool} (hsmall : pool.size ≤ nameLimit)
    {numbers : List (Nat × Nat)} {pairs : List (String × String)}
    (h : List.Forall₂ (Numbers pool) numbers pairs) :
    ∃ chunks, numbers.mapM encodePair = .ok chunks := by
  have hnumber : ∀ {number : Nat} {name : String}, pool.names[number]? = some name →
      ∃ bytes, encodeInt .u16 number = .ok bytes := by
    intro number name hname
    have hbound : number < pool.size := (Array.getElem?_eq_some_iff.mp hname).1
    have hlimit : nameLimit < IntField.size .u16 := by decide
    obtain ⟨bytes, hbytes, -⟩ := (Writes.nat .u16 rfl number).accepts (by omega)
    exact ⟨bytes, hbytes⟩
  induction h with
  | nil => exact ⟨[], rfl⟩
  | cons hhead _ ih =>
    obtain ⟨first, hfirst⟩ := hnumber hhead.1
    obtain ⟨second, hsecond⟩ := hnumber hhead.2
    obtain ⟨chunks, hchunks⟩ := ih
    refine ⟨(first ++ second) :: chunks, ?_⟩
    rw [List.mapM_cons, encodePair, hfirst, hsecond, hchunks]
    rfl

/-- An index with more names than allowed is refused. -/
theorem encode_of_many {pairs : List (String × String)}
    (hmany : nameLimit < (names pairs).toFinset.card) :
    encode pairs = .error (.tooManyNames nameLimit) := by
  rw [← NamePool.size_ofList, ← not_le] at hmany
  unfold encode
  rw [foldlM_addPair_of_full (by decide) hmany]
  rfl

/-- An index of few names can be written exactly if the names are short. The number of its pairs has
to fit its field too. -/
theorem writes_index {pairs : List (String × String)}
    (hfew : (names pairs).toFinset.card ≤ nameLimit) (hcount : pairs.length ≤ nameLimit) :
    Writes (encode pairs) (∀ name ∈ names pairs, name.utf8ByteSize ≤ 65535)
      (fun bytes => Reads reader bytes pairs) := by
  have hlimit : nameLimit < IntField.size .u16 := by decide
  have hsize : (NamePool.ofList (names pairs)).size ≤ nameLimit := by
    rwa [NamePool.size_ofList]
  obtain ⟨backwards, hfold⟩ : ∃ backwards, pairs.foldlM addPair (.empty, []) =
      .ok (NamePool.ofList (names pairs), backwards) := foldlM_addPair_of_room hsize
  have hnumbers := numbers_of_foldlM hfold
  obtain ⟨count, hcount, -⟩ := (Writes.nat .u16 rfl backwards.reverse.length).accepts (by
    rw [hnumbers.length_eq]
    omega)
  obtain ⟨body, hbody⟩ := exists_encodePairs hsize hnumbers
  have hwritten : Writes (encode pairs)
      ((NamePool.ofList (names pairs)).size ≤ 65535 ∧
        ∀ name ∈ (NamePool.ofList (names pairs)).names.toList, name.utf8ByteSize ≤ 65535)
      (fun _ => True) := by
    unfold encode
    rw [hfold]
    refine ((TimeZone.writes_pool _).bind fun written _ => ?_).imp
      (iff_of_eq (and_true _).symm) fun _ h => h
    rw [hcount]
    change Writes (backwards.reverse.mapM encodePair >>= _) True _
    rw [hbody]
    exact Writes.pure trivial
  constructor
  · intro hshort
    obtain ⟨bytes, hbytes, -⟩ := hwritten.accepts
      ⟨hsize.trans (by decide), fun name hname => hshort name ((NamePool.mem_ofList _ _).mp hname)⟩
    exact ⟨bytes, hbytes, reads_of_encode hbytes⟩
  · intro hlong
    apply hwritten.refuses
    rintro ⟨-, hshort⟩
    exact hlong fun name hname => hshort name ((NamePool.mem_ofList _ _).mpr hname)

/-- An index of few pairs of short names can be written. -/
theorem encode_of_few {pairs : List (String × String)} (hfew : 2 * pairs.length ≤ nameLimit)
    (hshort : ∀ pair ∈ pairs, pair.1.utf8ByteSize ≤ 65535 ∧ pair.2.utf8ByteSize ≤ 65535) :
    ∃ bytes, encode pairs = .ok bytes := by
  have hcard := List.toFinset_card_le (names pairs)
  have hlength : (names pairs).length = pairs.length * 2 := by simp [names]
  have hwrites : Writes (encode pairs) _ _ := writes_index (by omega) (by omega)
  obtain ⟨bytes, hbytes, -⟩ := hwrites.accepts fun name hname => by
    obtain ⟨pair, hpair, hmem⟩ := List.mem_flatMap.mp hname
    rcases List.mem_pair.mp hmem with rfl | rfl
    · exact (hshort pair hpair).1
    · exact (hshort pair hpair).2
  exact ⟨bytes, hbytes⟩

theorem steady_readPair (names : Array String) : Steady (readPair names) := by
  apply Steady.bind (Steady.nat 2)
  intro source
  apply Steady.bind (Steady.nat 2)
  intro target
  split
  · exact Steady.pure _
  · exact Steady.throw _

theorem steady_reader : Steady reader := by
  unfold reader TimeZone.readPool
  apply Steady.bind
  · apply Steady.bind (Steady.nat 2)
    intro count
    apply Steady.bind (Steady.many Steady.text count)
    intro names
    exact Steady.pure _
  · intro names
    apply Steady.bind (Steady.nat 2)
    intro count
    exact Steady.many (steady_readPair names) count

/-- If no alias comes twice, there are at least as many names as pairs. -/
theorem length_le_names {pairs : List (String × String)} (h : (pairs.map Prod.fst).Nodup) :
    pairs.length ≤ (names pairs).toFinset.card := by
  have hsubset : (pairs.map Prod.fst).toFinset ⊆ (names pairs).toFinset := by
    intro name hname
    obtain ⟨pair, hpair, rfl⟩ := List.mem_map.mp (List.mem_toFinset.mp hname)
    exact List.mem_toFinset.mpr (List.mem_flatMap.mpr ⟨pair, hpair, by simp⟩)
  calc
    pairs.length = (pairs.map Prod.fst).toFinset.card := by
      rw [List.toFinset_card_of_nodup h, List.length_map]
    _ ≤ (names pairs).toFinset.card := Finset.card_le_card hsubset

/-- What becomes of an index in which no alias comes twice. It is refused for the number of its
names exactly if there are more than 32767 different ones, and else for the range of a field exactly
if one of them is longer than 65535 bytes. Otherwise it is written, reading it gives back the pairs
in order, and no proper beginning of it can be read. -/
theorem encode_outcome (pairs : List (String × String)) (hdistinct : (pairs.map Prod.fst).Nodup) :
    (encode pairs = .error (.tooManyNames 32767) ↔ 32767 < (names pairs).toFinset.card) ∧
    ((names pairs).toFinset.card ≤ 32767 →
      ((∃ error : EncodeError, encode pairs = .error error ∧ error.OutOfRange) ↔
        ∃ name ∈ names pairs, 65535 < name.utf8ByteSize) ∧
      ((∀ name ∈ names pairs, name.utf8ByteSize ≤ 65535) →
        ∃ bytes, encode pairs = .ok bytes ∧ decode bytes = .ok pairs ∧
          ∀ cut, cut <+: bytes → cut ≠ bytes →
            ∃ size position available,
              decode cut = .error (.endOfData size position available))) := by
  have hwrites : (names pairs).toFinset.card ≤ 32767 →
      Writes (encode pairs) (∀ name ∈ names pairs, name.utf8ByteSize ≤ 65535)
        (fun bytes => Reads reader bytes pairs) :=
    fun hfew => writes_index hfew ((length_le_names hdistinct).trans hfew)
  refine ⟨⟨fun hrefused => ?_, encode_of_many⟩, fun hfew => ⟨⟨?_, ?_⟩, fun hshort => ?_⟩⟩
  · by_contra hfew
    by_cases hshort : ∀ name ∈ names pairs, name.utf8ByteSize ≤ 65535
    · obtain ⟨bytes, hbytes, -⟩ := (hwrites (not_lt.mp hfew)).accepts hshort
      rw [hrefused] at hbytes
      cases hbytes
    · obtain ⟨error, herror, hrange⟩ := (hwrites (not_lt.mp hfew)).refuses hshort
      rw [hrefused] at herror
      cases herror
      exact hrange
  · rintro ⟨error, herror, -⟩
    by_contra hshort
    simp only [not_exists, not_and, not_lt] at hshort
    obtain ⟨bytes, hbytes, -⟩ := (hwrites hfew).accepts hshort
    rw [herror] at hbytes
    cases hbytes
  · rintro ⟨name, hname, hlong⟩
    apply (hwrites hfew).refuses
    intro hshort
    exact absurd (hshort name hname) (not_le.mpr hlong)
  · obtain ⟨bytes, hbytes, hreads⟩ := (hwrites hfew).accepts hshort
    refine ⟨bytes, hbytes, hreads.all.runOn, fun cut hcut hproper => ?_⟩
    obtain ⟨more, rfl⟩ := hcut
    have hmore : more ≠ [] := by
      rintro rfl
      exact hproper (by simp)
    obtain ⟨error, herror, hend⟩ := steady_reader.runOn_cut hreads.all hmore
    cases error with
    | endOfData size position available => exact ⟨size, position, available, herror⟩
    | malformedText | unknownName | unknownPair | trailingData => exact hend.elim

def aliasPairs : List (String × String) :=
  [("US/Pacific", "America/Los_Angeles"), ("PST", "America/Los_Angeles"), ("Ωφ", "Ωφ")]

theorem encode_outcome_aliases :
    (aliasPairs.map Prod.fst).Nodup ∧ (names aliasPairs).toFinset.card ≤ 32767 ∧
      (∀ name ∈ names aliasPairs, name.utf8ByteSize ≤ 65535) ∧
      ∃ bytes, encode aliasPairs = .ok bytes ∧ decode bytes = .ok aliasPairs ∧
        ∀ cut, cut <+: bytes → cut ≠ bytes →
          ∃ size position available, decode cut = .error (.endOfData size position available) := by
  have hdistinct : (aliasPairs.map Prod.fst).Nodup := by decide
  have hfew : (names aliasPairs).toFinset.card ≤ 32767 := by decide
  have hshort : ∀ name ∈ names aliasPairs, name.utf8ByteSize ≤ 65535 := by decide
  exact ⟨hdistinct, hfew, hshort, ((encode_outcome aliasPairs hdistinct).2 hfew).2 hshort⟩

variable {α : Type}

theorem mem_sortByKey {entries : List (String × α)} {entry : String × α} :
    entry ∈ sortByKey entries ↔ entry ∈ entries :=
  List.mem_mergeSort

theorem sortByKey_of_pairwise {entries : List (String × α)}
    (h : entries.Pairwise fun first second => !(second.1 < first.1)) :
    sortByKey entries = entries :=
  List.mergeSort_of_pairwise h

theorem pairwise_sortByKey (entries : List (String × α)) :
    (sortByKey entries).Pairwise fun first second => !(second.1 < first.1) := by
  apply List.pairwise_mergeSort
  · intro first second third hfirst hsecond
    simp only [Bool.not_eq_true', decide_eq_false_iff_not, String.not_lt] at hfirst hsecond ⊢
    exact String.le_trans hfirst hsecond
  · intro first second
    simp only [Bool.or_eq_true, Bool.not_eq_true', decide_eq_false_iff_not, String.not_lt]
    exact String.le_total first.1 second.1

theorem sortByKey_sortByKey (entries : List (String × α)) :
    sortByKey (sortByKey entries) = sortByKey entries :=
  sortByKey_of_pairwise (pairwise_sortByKey entries)

theorem sort_sortByKey (entries : List (String × α)) :
    sort (sortByKey entries) = sort entries := by
  rw [sort, sortFolded, sortByKey_sortByKey]
  rfl

theorem collapseAll_levels (fold : String → String) (groups : List (Group α))
    (entries : List (String × α)) :
    ∀ message ∈ (collapseAll fold groups entries).2, message.level = .warning := by
  induction entries generalizing groups with
  | nil => simp [collapseAll]
  | cons entry rest ih =>
    intro message hmessage
    rw [collapseAll] at hmessage
    rcases List.mem_append.mp hmessage with hfirst | hrest
    · simp only [collapse] at hfirst
      split at hfirst
      · obtain rfl := List.mem_singleton.mp hfirst
        rfl
      · cases hfirst
    · exact ih _ message hrest

theorem sort_levels (entries : List (String × α)) :
    ∀ message ∈ (sort entries).2, message.level = .warning :=
  collapseAll_levels Text.lower [] (sortByKey entries)

end AliasIndex

end CivilTime
