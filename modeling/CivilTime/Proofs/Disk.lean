import CivilTime.Proofs.Bytes
import CivilTime.Proofs.Path

/-!
What operations on a disk keep. Writing a file keeps the directories and all other files, and making
directories keeps everything that was there. A path that leads through directories leads to the same
place as long as the directories stay.
-/

namespace CivilTime

namespace Path

def EndsInName (components : List String) : Prop :=
  ∃ name, components.getLast? = some name ∧ IsName name

structure NamesFile (path : String) : Prop where
  noSlash : endsWithSlash path = false
  endsInName : EndsInName (components path)

theorem EndsInName.exists_append {components : List String} (h : EndsInName components) :
    ∃ front name, components = front ++ [name] ∧ IsName name := by
  obtain ⟨name, hlast, hname⟩ := h
  obtain ⟨front, hfront⟩ := List.getLast?_eq_some_iff.mp hlast
  exact ⟨front, name, hfront, hname⟩

theorem EndsInName.place_ne_nil {components : List String} (h : EndsInName components)
    (directory : List String) : place directory components ≠ [] := by
  obtain ⟨front, name, rfl, hname⟩ := h.exists_append
  rw [place_append, place_of_names (by simpa using hname)]
  simp

/-- What is left of the components after one that is no name still ends in a name. -/
theorem EndsInName.tail {component : String} {rest : List String}
    (h : EndsInName (component :: rest)) (hrest : rest ≠ [] ∨ ¬ IsName component) :
    EndsInName rest := by
  obtain ⟨name, hlast, hname⟩ := h
  cases rest with
  | nil =>
    obtain rfl : component = name := by simpa using hlast
    exact absurd hname (hrest.resolve_left (by simp))
  | cons second rest => exact ⟨name, by rwa [List.getLast?_cons_cons] at hlast, hname⟩

theorem EndsInName.cons {rest : List String} (h : EndsInName rest) (component : String) :
    EndsInName (component :: rest) := by
  obtain ⟨name, hlast, hname⟩ := h
  cases rest with
  | nil => simp at hlast
  | cons second rest => exact ⟨name, by rwa [List.getLast?_cons_cons], hname⟩

theorem IsPlain.namesFile {path : String} (h : IsPlain path) (directory : String) :
    NamesFile (join directory path) := by
  refine ⟨h.not_endsWithSlash directory, ?_⟩
  obtain ⟨front, name, hlast⟩ := (List.eq_nil_or_concat' (components path)).resolve_left
    h.components_ne_nil
  refine ⟨name, ?_, h.isName (by simp [hlast])⟩
  rw [components_join h.relative, hlast, ← List.append_assoc, List.getLast?_concat]

end Path

namespace Disk

/-- The place that a path leads to, if it leads anywhere. -/
def placeOf (disk : Disk) (path : String) : List String :=
  Path.place (if Path.isAbsolute path then [] else disk.workingDirectory) (Path.components path)

theorem placeOf_join {path : String} (h : Path.IsPlain path) (disk : Disk) (directory : String) :
    disk.placeOf (Path.join directory path) =
      disk.placeOf directory ++ Path.components path := by
  rw [placeOf, Path.isAbsolute_join h.relative, Path.components_join h.relative, Path.place_append,
    Path.place_of_names fun _ => h.isName]
  rfl

/-- Different plain paths below one directory have different places. -/
theorem placeOf_join_ne {path other : String} (h : Path.IsPlain path) (hother : Path.IsPlain other)
    (hne : path ≠ other) (disk : Disk) (directory : String) :
    disk.placeOf (Path.join directory path) ≠ disk.placeOf (Path.join directory other) := by
  rw [placeOf_join h, placeOf_join hother]
  exact fun heq => hne (h.eq_of_components hother (List.append_cancel_left heq))

theorem put_entry_self {place : List String} (hplace : place ≠ []) (disk : Disk) (entry : Entry) :
    Disk.entry? (disk.put place entry) place = some entry := by
  have hnone : (disk.entries.filter fun other => other.1 ≠ place).find?
      (fun other => other.1 = place) = none := by
    rw [List.find?_eq_none]
    intro other hother
    simpa using (List.mem_filter.mp hother).2
  simp only [ entry?, List.isEmpty_iff, if_neg hplace, put, List.find?_append, hnone]
  simp

theorem put_entry_of_ne {place other : List String} (hne : other ≠ place) (disk : Disk)
    (entry : Entry) : Disk.entry? (disk.put place entry) other = disk.entry? other := by
  have hfilter : (disk.entries.filter fun found => found.1 ≠ place).find?
      (fun found => found.1 = other) = disk.entries.find? fun found => found.1 = other := by
    rw [List.find?_filter]
    congr 1
    funext found
    by_cases hfound : found.1 = other
    · simp [hfound, hne]
    · simp [hfound]
  have hlast : [(place, entry)].find? (fun found => found.1 = other) = none := by
    simpa using hne.symm
  simp only [ entry?, put, List.find?_append, hfilter, hlast, Option.or_none]

def targetAt (disk : Disk) (place : List String) : Target :=
  match disk.entry? place with
  | some entry => .found place entry
  | none => .missing place

structure KeepsDirectories (before after : Disk) : Prop where
  workingDirectory : after.workingDirectory = before.workingDirectory
  directory : ∀ place, before.entry? place = some .directory →
    after.entry? place = some .directory

theorem KeepsDirectories.refl (disk : Disk) : KeepsDirectories disk disk :=
  ⟨rfl, fun _ h => h⟩

theorem KeepsDirectories.placeOf {before after : Disk} (h : KeepsDirectories before after)
    (path : String) : after.placeOf path = before.placeOf path := by
  rw [Disk.placeOf, h.workingDirectory, Disk.placeOf]

/-- Components that lead somewhere lead to the place that they name, also when the directories have
been kept and other entries have changed. -/
theorem follow_of_keeps {before after : Disk} (hkeeps : KeepsDirectories before after)
    {components : List String} (hends : Path.EndsInName components) {directory : List String}
    {target : Target} (h : before.follow directory components = .ok target) :
    target = before.targetAt (Path.place directory components) ∧
      after.follow directory components =
        .ok (after.targetAt (Path.place directory components)) := by
  induction components generalizing directory with
  | nil =>
    obtain ⟨name, hlast, -⟩ := hends
    simp at hlast
  | cons name rest ih =>
    by_cases hdot : name = "."
    · rw [follow, if_pos hdot] at h ⊢
      rw [Path.place, if_pos hdot]
      exact ih (hends.tail (Or.inr fun hname => hname.1 hdot)) h
    by_cases hdots : name = ".."
    · rw [follow, if_neg hdot, if_pos hdots] at h ⊢
      rw [Path.place, if_neg hdot, if_pos hdots]
      exact ih (hends.tail (Or.inr fun hname => hname.2 hdots)) h
    by_cases hlong : componentLimit < name.utf8ByteSize
    · simp [follow, hdot, hdots, hlong] at h
    rw [follow, if_neg hdot, if_neg hdots, if_neg hlong] at h ⊢
    rw [Path.place, if_neg hdot, if_neg hdots]
    cases rest with
    | nil =>
      simp only [Path.place, targetAt]
      constructor
      · cases hentry : before.entry? (directory ++ [name]) <;> simp_all
      · cases hentry : after.entry? (directory ++ [name]) <;> simp
    | cons second rest =>
      cases hentry : before.entry? (directory ++ [name]) with
      | none => simp [hentry] at h
      | some entry =>
        cases entry with
        | file _ => simp [hentry] at h
        | directory =>
          simp only [hentry, hkeeps.directory _ hentry] at h ⊢
          exact ih (hends.tail (Or.inl (by simp))) h

theorem locate_of_keeps {before after : Disk} (hkeeps : KeepsDirectories before after)
    {path : String} (hfile : Path.NamesFile path) {target : Target}
    (h : before.locate path (Path.components path) = .ok target) :
    target = before.targetAt (before.placeOf path) ∧
      after.locate path (Path.components path) =
        .ok (after.targetAt (before.placeOf path)) := by
  simp only [locate] at h ⊢
  split_ifs at h ⊢ with hnull hempty hlong habsolute
  · simp only [placeOf, habsolute, if_true]
    exact follow_of_keeps hkeeps hfile.endsInName h
  · simp only [placeOf, habsolute, hkeeps.workingDirectory]
    exact follow_of_keeps hkeeps hfile.endsInName h

/-- Only components that end in a name lead to something else than a directory. -/
theorem endsInName_of_follow {disk : Disk} {components directory : List String} {target : Target}
    (h : disk.follow directory components = .ok target)
    (hfile : ∀ place, target ≠ .found place .directory) : Path.EndsInName components := by
  induction components generalizing directory with
  | nil => exact absurd (Except.ok.inj h).symm (hfile directory)
  | cons name rest ih =>
    by_cases hdot : name = "."
    · rw [follow, if_pos hdot] at h
      exact (ih h).cons name
    by_cases hdots : name = ".."
    · rw [follow, if_neg hdot, if_pos hdots] at h
      exact (ih h).cons name
    by_cases hlong : componentLimit < name.utf8ByteSize
    · simp [follow, hdot, hdots, hlong] at h
    rw [follow, if_neg hdot, if_neg hdots, if_neg hlong] at h
    cases rest with
    | nil => exact ⟨name, rfl, hdot, hdots⟩
    | cons second rest =>
      cases hentry : disk.entry? (directory ++ [name]) with
      | none => simp [hentry] at h
      | some entry =>
        cases entry with
        | file _ => simp [hentry] at h
        | directory =>
          simp only [hentry] at h
          exact (ih h).cons name

theorem read_eq_ok_iff {disk : Disk} {path : String} (hfile : Path.NamesFile path)
    {bytes : List UInt8} : disk.read path = .ok bytes ↔
      disk.locate path (Path.components path) =
        .ok (.found (disk.placeOf path) (.file bytes)) := by
  cases hlocate : disk.locate path (Path.components path) with
  | error error => simp [read, find, hlocate, bind, Except.bind]
  | ok target =>
    have htarget := (locate_of_keeps (.refl disk) hfile hlocate).1
    simp only [read, find, hlocate, bind, Except.bind, hfile.noSlash]
    rw [htarget, targetAt]
    cases hentry : disk.entry? (disk.placeOf path) with
    | none => simp [throw, throwThe, MonadExceptOf.throw]
    | some entry =>
      cases entry with
      | directory => simp [throw, throwThe, MonadExceptOf.throw, pure, Except.pure]
      | file stored => simp [pure, Except.pure]

theorem entry_of_read {disk : Disk} {path : String} (hfile : Path.NamesFile path)
    {bytes : List UInt8} (h : disk.read path = .ok bytes) :
    disk.entry? (disk.placeOf path) = some (.file bytes) := by
  have htarget := (locate_of_keeps (.refl disk) hfile ((read_eq_ok_iff hfile).mp h)).1
  rw [targetAt] at htarget
  split at htarget
  · next hentry =>
    rw [hentry]
    injection htarget with _ hsame
    rw [hsame]
  · cases htarget

/-- A file can be read wherever its path still leads to it. -/
theorem read_of_keeps {before after : Disk} (hkeeps : KeepsDirectories before after)
    {path : String} (hfile : Path.NamesFile path) {target : Target}
    (hlocate : before.locate path (Path.components path) = .ok target) {bytes : List UInt8}
    (hentry : after.entry? (before.placeOf path) = some (.file bytes)) :
    after.read path = .ok bytes := by
  rw [read_eq_ok_iff hfile, (locate_of_keeps hkeeps hfile hlocate).2, targetAt, hentry,
    hkeeps.placeOf]

theorem KeepsDirectories.put {disk : Disk} {place : List String}
    (h : disk.entry? place ≠ some .directory) (entry : Entry) :
    KeepsDirectories disk (disk.put place entry) := by
  refine ⟨rfl, fun other hother => ?_⟩
  have hne : other ≠ place := by
    rintro rfl
    exact h hother
  rwa [put_entry_of_ne hne]

theorem namesFile_of_locate {disk : Disk} {path : String} {target : Target}
    (h : disk.locate path (Path.components path) = .ok target)
    (hfile : ∀ place, target ≠ .found place .directory)
    (hslash : Path.endsWithSlash path = true → Path.components path = []) :
    Path.NamesFile path := by
  have hends : Path.EndsInName (Path.components path) := by
    rw [locate] at h
    split_ifs at h
    all_goals exact endsInName_of_follow h hfile
  refine ⟨?_, hends⟩
  by_contra hslashed
  obtain ⟨name, hlast, -⟩ := hends
  simp [hslash (by simpa using hslashed)] at hlast

/-- Where a file can be written: at the place of a path that can name one, unless a directory is
there. -/
theorem writePlace_eq_ok {disk : Disk} {path : String} {place : List String}
    (h : disk.writePlace path = .ok place) :
    Path.NamesFile path ∧ place = disk.placeOf path ∧
      disk.entry? (disk.placeOf path) ≠ some .directory ∧
      ∃ target, disk.locate path (Path.components path) = .ok target := by
  rw [writePlace] at h
  split_ifs at h with hslash
  · obtain ⟨_, _, h⟩ := Bytes.bind_eq_ok.mp h
    cases h
  · obtain ⟨target, hlocate, h⟩ := Bytes.bind_eq_ok.mp h
    have hother : ∀ place, target ≠ .found place .directory := by
      rintro place rfl
      cases h
    have hfile := namesFile_of_locate hlocate hother (by simpa using hslash)
    obtain rfl := (locate_of_keeps (.refl disk) hfile hlocate).1
    rw [targetAt] at h hother
    refine ⟨hfile, ?_, ?_, _, hlocate⟩
    · cases hentry : disk.entry? (disk.placeOf path) with
      | none =>
        simp only [hentry] at h
        exact (Except.ok.inj h).symm
      | some entry =>
        cases entry with
        | directory => simp [hentry] at hother
        | file bytes =>
          simp only [hentry] at h
          exact (Except.ok.inj h).symm
    · intro hentry
      simp [hentry] at hother

/-- What writing a file does: something other than a directory is replaced in its place. -/
theorem write_eq_ok {disk after : Disk} {path : String} {bytes : List UInt8}
    (h : disk.write path bytes = .ok after) :
    Path.NamesFile path ∧ after = disk.put (disk.placeOf path) (.file bytes) ∧
      disk.entry? (disk.placeOf path) ≠ some .directory ∧
      ∃ target, disk.locate path (Path.components path) = .ok target := by
  obtain ⟨place, hplace, h⟩ := Bytes.bind_eq_ok.mp h
  obtain ⟨hfile, rfl, hentry, hlocate⟩ := writePlace_eq_ok hplace
  exact ⟨hfile, (Except.ok.inj h).symm, hentry, hlocate⟩

theorem write_keeps {disk after : Disk} {path : String} {bytes : List UInt8}
    (h : disk.write path bytes = .ok after) : KeepsDirectories disk after := by
  obtain ⟨-, rfl, hplace, -⟩ := write_eq_ok h
  exact .put hplace _

theorem read_write {disk after : Disk} {path : String} {bytes : List UInt8}
    (h : disk.write path bytes = .ok after) : after.read path = .ok bytes := by
  have hkeeps := write_keeps h
  obtain ⟨hfile, rfl, -, target, hlocate⟩ := write_eq_ok h
  exact read_of_keeps hkeeps hfile hlocate (put_entry_self (hfile.endsInName.place_ne_nil _) _ _)

theorem read_write_of_ne {disk after : Disk} {path other : String}
    (hother : Path.NamesFile other) (hne : disk.placeOf other ≠ disk.placeOf path)
    {bytes stored : List UInt8} (h : disk.write path bytes = .ok after)
    (hread : disk.read other = .ok stored) : after.read other = .ok stored := by
  have hkeeps := write_keeps h
  obtain ⟨-, rfl, -, -⟩ := write_eq_ok h
  refine read_of_keeps hkeeps hother ((read_eq_ok_iff hother).mp hread) ?_
  rw [put_entry_of_ne hne, entry_of_read hother hread]

structure Grows (before after : Disk) : Prop where
  workingDirectory : after.workingDirectory = before.workingDirectory
  entry : ∀ place entry, before.entry? place = some entry → after.entry? place = some entry

namespace Grows

theorem refl (disk : Disk) : Grows disk disk :=
  ⟨rfl, fun _ _ h => h⟩

theorem trans {first second third : Disk} (h : Grows first second) (hnext : Grows second third) :
    Grows first third :=
  ⟨hnext.workingDirectory.trans h.workingDirectory,
    fun place entry hplace => hnext.entry place entry (h.entry place entry hplace)⟩

theorem keeps {before after : Disk} (h : Grows before after) : KeepsDirectories before after :=
  ⟨h.workingDirectory, fun place => h.entry place .directory⟩

theorem read {before after : Disk} (h : Grows before after) {path : String}
    (hfile : Path.NamesFile path) {bytes : List UInt8} (hread : before.read path = .ok bytes) :
    after.read path = .ok bytes :=
  read_of_keeps h.keeps hfile ((read_eq_ok_iff hfile).mp hread)
    (h.entry _ _ (entry_of_read hfile hread))

theorem put {disk : Disk} {place : List String} (h : disk.entry? place = none) (entry : Entry) :
    Grows disk (disk.put place entry) := by
  refine ⟨rfl, fun other found hfound => ?_⟩
  rw [put_entry_of_ne _ _ _, hfound]
  rintro rfl
  simp [h] at hfound

end Grows

theorem entry_of_follow_missing {disk : Disk} {directory components place : List String}
    (h : disk.follow directory components = .ok (.missing place)) : disk.entry? place = none := by
  fun_induction follow disk directory components <;> simp_all

theorem makeDirectory_eq_ok {disk after : Disk} {path : String}
    (h : disk.makeDirectory path = .ok after) : ∃ place,
      disk.locate path (Path.components path) = .ok (.missing place) ∧
        after = disk.put place .directory := by
  rw [makeDirectory] at h
  cases hlocate : disk.locate path (Path.components path) with
  | error error => simp [hlocate, bind, Except.bind] at h
  | ok target =>
    cases target with
    | found place entry =>
      simp [hlocate, bind, Except.bind, throw, throwThe, MonadExceptOf.throw] at h
    | missing place =>
      refine ⟨place, rfl, ?_⟩
      simpa [hlocate, bind, Except.bind, pure, Except.pure] using h.symm

theorem makeDirectory_grows {disk after : Disk} {path : String}
    (h : disk.makeDirectory path = .ok after) : Grows disk after := by
  obtain ⟨place, hlocate, rfl⟩ := makeDirectory_eq_ok h
  refine .put ?_ _
  rw [locate] at hlocate
  split_ifs at hlocate
  all_goals exact entry_of_follow_missing hlocate

theorem makeLastDirectory_grows (disk : Disk) (existingAllowed : Bool) (path : String) :
    Grows disk (disk.makeLastDirectory existingAllowed path).disk := by
  rw [makeLastDirectory]
  split
  · next after hmade => exact makeDirectory_grows hmade
  · split <;> exact .refl disk

/-- Making directories keeps what was there, also when it fails halfway. -/
theorem makeDirectories_grows (disk : Disk) (existingAllowed : Bool) (path : List Char) :
    Grows disk (disk.makeDirectories existingAllowed path).disk := by
  fun_induction makeDirectories disk existingAllowed path with
  | case1 _ _ above hmade _ ih | case3 _ _ above hmade _ ih => rwa [hmade] at ih
  | case2 path _ above hmade _ ih | case4 path _ above hmade _ ih =>
    rw [hmade] at ih
    exact ih.trans (makeLastDirectory_grows above existingAllowed _)
  | case5 _ _ _ _ ih => exact ih
  | case6 path _ => exact makeLastDirectory_grows disk existingAllowed _

end Disk

end CivilTime
