import CivilTime.Proofs.Installation

/-!
The files below a directory, each by its path from there. Making directories adds none, and writing
a file changes that file alone.
-/

namespace CivilTime

theorem Path.IsPlain.intercalate_components {path : String} (h : IsPlain path) :
    "/".intercalate (components path) = path := by
  apply String.toList_injective
  rw [String.toList_intercalate, h.components_eq, List.map_map]
  have hid : String.toList ∘ String.ofList = id := by
    funext cs
    exact String.toList_ofList
  rw [hid, List.map_id]
  exact Text.intercalate_pieces '/' path.toList

namespace Disk

variable {disk before after : Disk} {directory path : String}
  {P Q : String × List UInt8 → Prop}

theorem mem_put {place other : List String} {entry found : Entry} :
    (other, found) ∈ (disk.put place entry).entries ↔
      ((other, found) ∈ disk.entries ∧ other ≠ place) ∨ (other = place ∧ found = entry) := by
  simp [put]

/-- A path that leads to a directory leads to the place that it names. -/
theorem place_of_follow {components place start : List String}
    (h : disk.follow start components = .ok (.found place .directory)) :
    place = Path.place start components := by
  induction components generalizing start with
  | nil =>
    cases h
    rfl
  | cons name rest ih =>
    rw [follow] at h
    rw [Path.place]
    split_ifs at h ⊢ with hdot hdots hlong
    · exact ih h
    · exact ih h
    · cases rest with
      | nil =>
        cases hentry : disk.entry? (start ++ [name]) with
        | none => simp [hentry] at h
        | some entry =>
          simp only [hentry] at h
          cases h
          rfl
      | cons second rest =>
        cases hentry : disk.entry? (start ++ [name]) with
        | none => simp [hentry] at h
        | some entry =>
          cases entry with
          | file bytes => simp [hentry] at h
          | directory =>
            simp only [hentry] at h
            exact ih h

theorem locate_of_isDirectory (h : disk.isDirectory directory = true) :
    disk.locate directory (Path.components directory) =
      .ok (.found (disk.placeOf directory) .directory) := by
  obtain ⟨haccepted, place, hfollow⟩ := isDirectory_iff.mp h
  rw [locate_of_accepted haccepted, hfollow, place_of_follow hfollow]
  rfl

theorem filesBelow?_isSome (h : disk.isDirectory directory = true) :
    ∃ files, disk.filesBelow? directory = some files := by
  rw [filesBelow?, locate_of_isDirectory h]
  exact ⟨_, rfl⟩

/-- The files below a directory are those whose place begins with that of the directory. -/
theorem mem_filesBelow? {files : List (String × List UInt8)}
    (h : disk.filesBelow? directory = some files) {file : String × List UInt8} :
    file ∈ files ↔ ∃ place, (place, Entry.file file.2) ∈ disk.entries ∧
      disk.placeOf directory <+: place ∧
      file.1 = "/".intercalate (place.drop (disk.placeOf directory).length) := by
  rw [filesBelow?] at h
  split at h
  · next place hlocate =>
    have hplace : place = disk.placeOf directory := by
      have haccepted := accepted_of_locate hlocate
      rw [locate_of_accepted haccepted] at hlocate
      exact place_of_follow hlocate
    subst hplace
    cases h
    rw [List.mem_mergeSort, List.mem_filterMap]
    constructor
    · rintro ⟨⟨other, entry⟩, hmem, hfile⟩
      cases entry with
      | directory => simp at hfile
      | file bytes =>
        simp only [ List.isPrefixOf_iff_prefix] at hfile
        split_ifs at hfile with hbelow
        cases hfile
        exact ⟨other, hmem, hbelow, rfl⟩
    · rintro ⟨other, hmem, hbelow, hname⟩
      refine ⟨(other, .file file.2), hmem, ?_⟩
      simp only [ List.isPrefixOf_iff_prefix, if_pos hbelow, ← hname]
  · cases h

theorem mem_filesBelow?_of_mem {name : String} (hname : Path.IsPlain name) {bytes : List UInt8}
    (hmem : (disk.placeOf directory ++ Path.components name, Entry.file bytes) ∈ disk.entries)
    {files : List (String × List UInt8)} (hfiles : disk.filesBelow? directory = some files) :
    (name, bytes) ∈ files := by
  refine (mem_filesBelow? hfiles).mpr ⟨_, hmem, List.prefix_append _ _, ?_⟩
  rw [List.drop_left, hname.intercalate_components]

/-- Every file below a directory has a plain path from there and is, together with it, as said. -/
def FilesBelow (disk : Disk) (directory : String) (P : String × List UInt8 → Prop) : Prop :=
  ∀ place bytes, (place, Entry.file bytes) ∈ disk.entries → disk.placeOf directory <+: place →
    ∃ name, Path.IsPlain name ∧ place = disk.placeOf directory ++ Path.components name ∧
      P (name, bytes)

theorem FilesBelow.forall_mem (h : disk.FilesBelow directory P)
    {files : List (String × List UInt8)} (hfiles : disk.filesBelow? directory = some files) :
    ∀ file ∈ files, P file := by
  rintro ⟨name, bytes⟩ hfile
  obtain ⟨place, hmem, hbelow, rfl⟩ := (mem_filesBelow? hfiles).mp hfile
  obtain ⟨name, hplain, rfl, hp⟩ := h place bytes hmem hbelow
  rwa [List.drop_left, hplain.intercalate_components]

def AddsNoFile (before after : Disk) : Prop :=
  ∀ place bytes, (place, Entry.file bytes) ∈ after.entries →
    (place, Entry.file bytes) ∈ before.entries

theorem AddsNoFile.refl (disk : Disk) : AddsNoFile disk disk :=
  fun _ _ h => h

theorem AddsNoFile.trans {third : Disk} (h : AddsNoFile before after)
    (hnext : AddsNoFile after third) : AddsNoFile before third :=
  fun place bytes hmem => h place bytes (hnext place bytes hmem)

theorem makeDirectory_addsNoFile (h : disk.makeDirectory path = .ok after) :
    AddsNoFile disk after := by
  obtain ⟨place, -, rfl⟩ := makeDirectory_eq_ok h
  intro other bytes hmem
  rcases mem_put.mp hmem with ⟨hmem, -⟩ | ⟨-, hfile⟩
  · exact hmem
  · cases hfile

theorem makeLastDirectory_addsNoFile (disk : Disk) (existingAllowed : Bool) (path : String) :
    AddsNoFile disk (disk.makeLastDirectory existingAllowed path).disk := by
  rw [makeLastDirectory]
  split
  · next after hmade => exact makeDirectory_addsNoFile hmade
  · split <;> exact .refl disk

theorem makeDirectories_addsNoFile (disk : Disk) (existingAllowed : Bool) (path : List Char) :
    AddsNoFile disk (disk.makeDirectories existingAllowed path).disk := by
  fun_induction makeDirectories disk existingAllowed path with
  | case1 _ _ above hmade _ ih | case3 _ _ above hmade _ ih => rwa [hmade] at ih
  | case2 path _ above hmade _ ih | case4 path _ above hmade _ ih =>
    rw [hmade] at ih
    exact ih.trans (makeLastDirectory_addsNoFile above existingAllowed _)
  | case5 _ _ _ _ ih => exact ih
  | case6 path _ => exact makeLastDirectory_addsNoFile disk existingAllowed _

theorem FilesBelow.of_addsNoFile (h : before.FilesBelow directory P)
    (hadds : AddsNoFile before after) (hkeeps : KeepsDirectories before after) :
    after.FilesBelow directory P := by
  intro place bytes hmem
  rw [hkeeps.placeOf]
  exact h place bytes (hadds place bytes hmem)

theorem FilesBelow.makeDirectories (h : disk.FilesBelow directory P) (existingAllowed : Bool)
    (path : List Char) :
    (disk.makeDirectories existingAllowed path).disk.FilesBelow directory P :=
  h.of_addsNoFile (makeDirectories_addsNoFile disk existingAllowed path)
    (makeDirectories_grows disk existingAllowed path).keeps

theorem mem_of_write {name : String} (hname : Path.IsPlain name) {bytes : List UInt8}
    (h : disk.write (Path.join directory name) bytes = .ok after) :
    (after.placeOf directory ++ Path.components name, Entry.file bytes) ∈ after.entries := by
  rw [(write_keeps h).placeOf, ← placeOf_join hname, (write_eq_ok h).2.1]
  exact mem_put.mpr (Or.inr ⟨rfl, rfl⟩)

theorem exists_files_of_write (hdirectory : disk.isDirectory directory = true) {name : String}
    (hname : Path.IsPlain name) {bytes : List UInt8}
    (h : disk.write (Path.join directory name) bytes = .ok after) :
    ∃ files, after.filesBelow? directory = some files ∧ (name, bytes) ∈ files := by
  obtain ⟨files, hfiles⟩ := filesBelow?_isSome ((Within.of_write h).isDirectory hdirectory)
  exact ⟨files, hfiles, mem_filesBelow?_of_mem hname (mem_of_write hname h) hfiles⟩

/-- Writing a file changes only what that file is like. -/
theorem FilesBelow.write (h : disk.FilesBelow directory P) {name : String}
    (hname : Path.IsPlain name) {bytes : List UInt8}
    (hwrite : disk.write (Path.join directory name) bytes = .ok after)
    (hothers : ∀ file, P file → file.1 ≠ name → Q file) (hself : Q (name, bytes)) :
    after.FilesBelow directory Q := by
  intro place found hmem hbelow
  rw [(write_keeps hwrite).placeOf] at hbelow ⊢
  rw [(write_eq_ok hwrite).2.1, placeOf_join hname] at hmem
  rcases mem_put.mp hmem with ⟨hmem, hne⟩ | ⟨rfl, hfound⟩
  · obtain ⟨other, hother, rfl, hp⟩ := h place found hmem hbelow
    refine ⟨other, hother, rfl, hothers _ hp ?_⟩
    rintro rfl
    exact hne rfl
  · cases hfound
    exact ⟨name, hname, rfl, hself⟩

/-- A file that has been written can be written again. -/
theorem exists_write_again {bytes : List UInt8} (h : disk.write path bytes = .ok after)
    (more : List UInt8) : ∃ filled, after.write path more = .ok filled := by
  have hfile := (write_eq_ok h).1
  have hread := read_write h
  refine ⟨_, write_of_locate hfile ((read_eq_ok_iff hfile).mp hread) ?_ more⟩
  rw [entry_of_read hfile hread]
  simp

end Disk

end CivilTime
