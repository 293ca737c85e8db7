import CivilTime.Proofs.Disk
import Mathlib.Data.List.DropRight

/-!
Files that are written one after another, each with the directories above it, may be written in any
order. What counts is the disk in the end: a file that is on it can be written on every disk that
lies within it, and the disk stays within it then.
-/

namespace CivilTime

namespace Path

theorem split_snd (path : List Char) : (split path).2 = path.rtakeWhile (· ≠ '/') := rfl

/-- What stands before the last component, with the slashes in between. -/
theorem take_eq_rdropWhile (path : List Char) :
    path.take (path.length - (split path).2.length) = path.rdropWhile (· ≠ '/') := by
  have hpath : path.rdropWhile (· ≠ '/') ++ path.rtakeWhile (· ≠ '/') = path :=
    List.rdropWhile_append_rtakeWhile
  have hlength := congrArg List.length hpath
  rw [List.length_append] at hlength
  have hcount : path.length - (split path).2.length = (path.rdropWhile (· ≠ '/')).length := by
    rw [split_snd]
    omega
  rw [hcount]
  exact (List.prefix_iff_eq_take.mp ( List.rdropWhile_prefix _ path)).symm

theorem components_append_slash (cs : List Char) :
    components (String.ofList (cs ++ ['/'])) = components (String.ofList cs) := by
  rw [components_of_slash (String.toList_ofList)]
  simp [components, Text.pieces]

/-- Slashes at the end do not count. -/
theorem components_rdropWhile (cs : List Char) :
    components (String.ofList (cs.rdropWhile (· = '/'))) = components (String.ofList cs) := by
  induction cs using List.reverseRecOn with
  | nil => rfl
  | append_singleton cs c ih =>
    rw [List.rdropWhile_concat]
    split
    · next hslash =>
      obtain rfl := of_decide_eq_true hslash
      rw [ih, components_append_slash]
    · rfl

theorem components_split (path : List Char) :
    components (String.ofList path) =
      components (String.ofList (split path).1) ++ components (String.ofList (split path).2) := by
  have hhead : components (String.ofList (split path).1) =
      components (String.ofList (path.rdropWhile (· ≠ '/'))) := by
    rw [← take_eq_rdropWhile]
    unfold split
    extract_lets tail head shorter
    split
    · rfl
    · exact components_rdropWhile head
  have hpath : path.rdropWhile (· ≠ '/') ++ path.rtakeWhile (· ≠ '/') = path :=
    List.rdropWhile_append_rtakeWhile
  rw [hhead, split_snd]
  conv_lhs => rw [← hpath]
  rcases List.eq_nil_or_concat' (path.rdropWhile (· ≠ '/')) with hnil | ⟨front, last, hfront⟩
  · rw [hnil]
    rfl
  · have hne : path.rdropWhile (· ≠ '/') ≠ [] := by
      rw [hfront]
      exact List.append_ne_nil_of_right_ne_nil front (List.cons_ne_nil last [])
    have hget : (path.rdropWhile (· ≠ '/')).getLast hne = last := by
      simp only [hfront, List.getLast_concat]
    have hlast := List.rdropWhile_last_not (· ≠ '/') path hne
    rw [hget] at hlast
    obtain rfl : last = '/' := by simpa using hlast
    rw [hfront, components_append_slash, List.append_assoc]
    exact components_of_slash String.toList_ofList

theorem components_of_no_slash {cs : List Char} (h : '/' ∉ cs) (hne : cs ≠ []) :
    components (String.ofList cs) = [String.ofList cs] := by
  have hpieces : ∀ cs : List Char, '/' ∉ cs → Text.pieces (· = '/') cs = [cs] := by
    intro cs
    induction cs with
    | nil => intro _; rfl
    | cons c cs ih =>
      intro h
      obtain ⟨hc, hcs⟩ := List.ne_and_not_mem_of_not_mem_cons h
      rw [Text.pieces_cons, ih hcs]
      simp [Ne.symm hc, Text.consToFirst]
  simp [components, hpieces cs h, hne]

theorem split_isPrefix (path : List Char) : (split path).1 <+: path := by
  unfold split
  extract_lets tail head shorter
  have hhead : head <+: path := List.take_prefix _ _
  split
  · exact hhead
  · exact ( List.rdropWhile_prefix _ head).trans hhead

theorem splitDirectory_isPrefix (path : List Char) : (Disk.splitDirectory path).1 <+: path := by
  have hsplit := split_isPrefix path
  unfold Disk.splitDirectory
  split
  · next head heq =>
    rw [heq] at hsplit
    exact (split_isPrefix head).trans hsplit
  · exact hsplit

theorem components_splitDirectory (path : List Char) :
    components (String.ofList path) =
      components (String.ofList (Disk.splitDirectory path).1) ++
        components (String.ofList (Disk.splitDirectory path).2) := by
  have hsplit := components_split path
  unfold Disk.splitDirectory
  split
  · next head heq =>
    rw [hsplit, heq, ← components_split]
    exact List.append_nil _
  · exact hsplit

theorem split_no_slash (path : List Char) : '/' ∉ (split path).2 := by
  intro hslash
  rw [split_snd] at hslash
  simpa using List.mem_rtakeWhile_imp hslash

theorem splitDirectory_no_slash (path : List Char) : '/' ∉ (Disk.splitDirectory path).2 := by
  unfold Disk.splitDirectory
  split
  · exact split_no_slash _
  · exact split_no_slash path

theorem split_snd_ne_nil {path : String} (hslash : endsWithSlash path = false) (hne : path ≠ "") :
    (split path.toList).2 ≠ [] := by
  have hsome : path.toList ≠ [] := mt String.toList_eq_nil_iff.mp hne
  rw [split_snd, ne_eq, List.rtakeWhile_eq_nil_iff]
  intro hlast
  have hends := hlast hsome
  rw [endsWithSlash, decide_eq_false_iff_not, List.getLast?_eq_some_getLast hsome] at hslash
  simp only [ne_eq, decide_not, Bool.not_eq_true', decide_eq_false_iff_not, not_not] at hends
  exact hslash (congrArg some hends)

theorem components_cases {cs : List Char} (h : '/' ∉ cs) :
    components (String.ofList cs) = [] ∨ ∃ name, components (String.ofList cs) = [name] := by
  by_cases hnil : cs = []
  · rw [hnil]
    exact Or.inl rfl
  · exact Or.inr ⟨_, components_of_no_slash h hnil⟩

/-- What stands before the last component does not end in a slash, unless there is nothing else. -/
theorem split_fst_cases (path : List Char) :
    components (String.ofList (split path).1) = [] ∨ (split (split path).1).2 ≠ [] := by
  have hsplit : (split path).1 =
      if (path.rdropWhile (· ≠ '/')).rdropWhile (· = '/') = [] then path.rdropWhile (· ≠ '/')
      else (path.rdropWhile (· ≠ '/')).rdropWhile (· = '/') := by
    rw [← take_eq_rdropWhile]
    simp only [← List.isEmpty_iff]
    rfl
  rw [hsplit]
  split
  · next hnil =>
    left
    rw [← components_rdropWhile, hnil]
    rfl
  · next hsome =>
    right
    rw [split_snd, ne_eq, List.rtakeWhile_eq_nil_iff]
    intro hslash
    have hlast := List.rdropWhile_last_not (· = '/') _ hsome
    simp only [decide_eq_true_eq] at hlast
    exact hslash hsome (by simpa using hlast)

/-- A path without a last component has none at all. -/
theorem components_of_no_tail {path : List Char} (h : (Disk.splitDirectory path).2 = []) :
    components (String.ofList path) = [] := by
  have hpath := components_split path
  have hcases := split_fst_cases path
  unfold Disk.splitDirectory at h
  split at h
  · next head heq =>
    rw [heq] at hpath hcases
    rw [hpath, hcases.resolve_right (not_not.mpr h)]
    rfl
  · next hother => exact absurd h fun hnil => hother _ (Prod.ext rfl hnil)

structure IsAccepted (path : String) : Prop where
  noNull : path.toList.contains (Char.ofNat 0) = false
  nonempty : path.isEmpty = false
  short : path.utf8ByteSize < Disk.pathLimit

theorem isAbsolute_of_isPrefix {cs : List Char} {path : String} (h : cs <+: path.toList)
    (hne : cs ≠ []) : isAbsolute (String.ofList cs) = isAbsolute path := by
  obtain ⟨rest, hrest⟩ := h
  obtain ⟨c, cs, rfl⟩ := List.exists_cons_of_ne_nil hne
  simp [isAbsolute, ← hrest]

theorem IsAccepted.of_isPrefix {cs : List Char} {path : String} (h : IsAccepted path)
    (hbegins : cs <+: path.toList) (hne : cs ≠ []) : IsAccepted (String.ofList cs) := by
  constructor
  · have hnull := h.noNull
    simp only [List.contains_eq_mem, decide_eq_false_iff_not, String.toList_ofList] at hnull ⊢
    exact fun hmem => hnull (hbegins.subset hmem)
  · simpa [String.isEmpty_iff] using hne
  · obtain ⟨rest, hrest⟩ := hbegins
    have hpath : path = String.ofList cs ++ String.ofList rest := by
      rw [← String.ofList_append, hrest, String.ofList_toList]
    have hshort := h.short
    rw [hpath, String.utf8ByteSize_append] at hshort
    omega

end Path

namespace Disk

variable {disk whole : Disk} {directory : List String} {path : String}

def base (disk : Disk) (path : String) : List String :=
  if Path.isAbsolute path then [] else disk.workingDirectory

theorem locate_of_accepted (h : Path.IsAccepted path) (disk : Disk) (components : List String) :
    disk.locate path components = disk.follow (disk.base path) components := by
  rw [locate, h.noNull, h.nonempty, if_neg Bool.false_ne_true, if_neg Bool.false_ne_true,
    if_neg (Nat.not_le.mpr h.short)]
  rfl

theorem accepted_of_locate {components : List String} {target : Target}
    (h : disk.locate path components = .ok target) : Path.IsAccepted path := by
  unfold locate at h
  split_ifs at h with hnull hempty hlong
  all_goals exact ⟨by simpa using hnull, by simpa using hempty, by omega⟩

theorem find_eq_ok_iff {entry : Entry} : disk.find path = .ok entry ↔
    (∃ place, disk.locate path (Path.components path) = .ok (.found place entry)) ∧
      (Path.endsWithSlash path = true → entry = .directory) := by
  unfold find
  cases hlocate : disk.locate path (Path.components path) with
  | error error => simp [bind, Except.bind]
  | ok target =>
    cases target with
    | missing place => simp [bind, Except.bind, throw, throwThe, MonadExceptOf.throw]
    | found place other =>
      cases other with
      | directory =>
        change Except.ok Entry.directory = Except.ok entry ↔ _
        constructor
        · intro h
          obtain rfl := Except.ok.inj h
          exact ⟨⟨place, rfl⟩, fun _ => rfl⟩
        · rintro ⟨⟨_, hfound⟩, -⟩
          injection hfound with hfound
          injection hfound with _ hentry
          rw [hentry]
      | file bytes =>
        by_cases hslash : Path.endsWithSlash path = true
        · simp +contextual [bind, Except.bind, throw, throwThe, MonadExceptOf.throw, hslash,
            eq_comm]
        · simp [bind, Except.bind, pure, Except.pure, hslash]

theorem isDirectory_iff : disk.isDirectory path = true ↔
    Path.IsAccepted path ∧ ∃ place,
      disk.follow (disk.base path) (Path.components path) = .ok (.found place .directory) := by
  have hfind : disk.isDirectory path = true ↔ disk.find path = .ok .directory := by
    unfold isDirectory
    cases disk.find path <;> simp [Except.toOption]
  rw [hfind, find_eq_ok_iff]
  constructor
  · rintro ⟨⟨place, hlocate⟩, -⟩
    have haccepted := accepted_of_locate hlocate
    exact ⟨haccepted, place, (locate_of_accepted haccepted _ _).symm.trans hlocate⟩
  · rintro ⟨haccepted, place, hfollow⟩
    exact ⟨⟨place, (locate_of_accepted haccepted _ _).trans hfollow⟩, fun _ => rfl⟩

theorem exists_of_pathExists (h : disk.pathExists path = true) :
    Path.IsAccepted path ∧ ∃ place entry,
      disk.follow (disk.base path) (Path.components path) = .ok (.found place entry) := by
  unfold pathExists at h
  cases hfind : disk.find path with
  | error error => simp [hfind, Except.toOption] at h
  | ok entry =>
    obtain ⟨⟨place, hlocate⟩, -⟩ := find_eq_ok_iff.mp hfind
    have haccepted := accepted_of_locate hlocate
    exact ⟨haccepted, place, entry, (locate_of_accepted haccepted _ _).symm.trans hlocate⟩

theorem follow_cons_of_directory {name : String} (hname : Path.IsName name)
    (hshort : ¬ componentLimit < name.utf8ByteSize)
    (hentry : disk.entry? (directory ++ [name]) = some .directory) (rest : List String) :
    disk.follow directory (name :: rest) = disk.follow (directory ++ [name]) rest := by
  rw [follow, if_neg hname.1, if_neg hname.2, if_neg hshort]
  cases rest with
  | nil => simp only [hentry, follow]
  | cons second rest => simp only [hentry]

theorem follow_name {name : String} (hname : Path.IsName name)
    (hshort : ¬ componentLimit < name.utf8ByteSize) (disk : Disk) (directory : List String) :
    disk.follow directory [name] = .ok (disk.targetAt (directory ++ [name])) := by
  rw [follow, if_neg hname.1, if_neg hname.2, if_neg hshort, targetAt]
  cases hentry : disk.entry? (directory ++ [name]) with
  | none => simp only [hentry]
  | some entry => simp only [hentry]

theorem targetAt_eq_found_iff {place other : List String} {entry : Entry} :
    disk.targetAt place = .found other entry ↔
      other = place ∧ disk.entry? place = some entry := by
  unfold targetAt
  cases hentry : disk.entry? place with
  | none => simp
  | some found => simp [eq_comm]

/-- Components that lead to a directory may be followed by others. -/
theorem follow_append {first place : List String}
    (h : disk.follow directory first = .ok (.found place .directory)) (second : List String) :
    disk.follow directory (first ++ second) = disk.follow place second := by
  induction first generalizing directory with
  | nil =>
    obtain rfl : directory = place := by
      injection h with hfound
      injection hfound
    rfl
  | cons name rest ih =>
    rw [List.cons_append]
    by_cases hdot : name = "."
    · rw [follow, if_pos hdot] at h ⊢
      exact ih h
    by_cases hdots : name = ".."
    · rw [follow, if_neg hdot, if_pos hdots] at h ⊢
      exact ih h
    by_cases hlong : componentLimit < name.utf8ByteSize
    · simp [follow, hdot, hdots, hlong] at h
    cases hentry : disk.entry? (directory ++ [name]) with
    | none => cases rest <;> simp [follow, hdot, hdots, hlong, hentry] at h
    | some entry =>
      cases entry with
      | file bytes => cases rest <;> simp [follow, hdot, hdots, hlong, hentry] at h
      | directory =>
        rw [follow_cons_of_directory ⟨hdot, hdots⟩ hlong hentry] at h ⊢
        exact ih h

/-- Only a directory can be followed by something. -/
theorem directory_of_follow_append {first second : List String} (hsecond : second ≠ [])
    {target : Target} (h : disk.follow directory (first ++ second) = .ok target) :
    ∃ place, disk.follow directory first = .ok (.found place .directory) := by
  induction first generalizing directory with
  | nil => exact ⟨directory, rfl⟩
  | cons name rest ih =>
    rw [List.cons_append] at h
    by_cases hdot : name = "."
    · rw [follow, if_pos hdot] at h ⊢
      exact ih h
    by_cases hdots : name = ".."
    · rw [follow, if_neg hdot, if_pos hdots] at h ⊢
      exact ih h
    by_cases hlong : componentLimit < name.utf8ByteSize
    · simp [follow, hdot, hdots, hlong] at h
    obtain ⟨next, more, hmore⟩ : ∃ next more, rest ++ second = next :: more :=
      List.exists_cons_of_ne_nil (List.append_ne_nil_of_right_ne_nil rest hsecond)
    cases hentry : disk.entry? (directory ++ [name]) with
    | none => simp [follow, hdot, hdots, hlong, hentry, hmore] at h
    | some entry =>
      cases entry with
      | file bytes => simp [follow, hdot, hdots, hlong, hentry, hmore] at h
      | directory =>
        rw [follow_cons_of_directory ⟨hdot, hdots⟩ hlong hentry] at h ⊢
        exact ih h

/-- Every directory of a disk is a directory of another one, and every file is a file there, with
whatever content. -/
structure Within (disk whole : Disk) : Prop extends KeepsDirectories disk whole where
  file : ∀ place bytes, disk.entry? place = some (.file bytes) →
    ∃ other, whole.entry? place = some (.file other)

namespace Within

theorem refl (disk : Disk) : Within disk disk :=
  ⟨.refl disk, fun _ bytes h => ⟨bytes, h⟩⟩

theorem trans {third : Disk} (h : Within disk whole) (hnext : Within whole third) :
    Within disk third := by
  refine ⟨⟨hnext.workingDirectory.trans h.workingDirectory, ?_⟩, ?_⟩
  · intro place hplace
    exact hnext.directory place (h.directory place hplace)
  · intro place bytes hplace
    obtain ⟨other, hother⟩ := h.file place bytes hplace
    exact hnext.file place other hother

theorem of_grows (h : Grows disk whole) : Within disk whole :=
  ⟨h.keeps, fun place bytes hplace => ⟨bytes, h.entry place (.file bytes) hplace⟩⟩

theorem of_write {bytes : List UInt8} (h : disk.write path bytes = .ok whole) :
    Within disk whole := by
  refine ⟨write_keeps h, fun place stored hplace => ?_⟩
  obtain ⟨hfile, rfl, -, -⟩ := write_eq_ok h
  by_cases hsame : place = disk.placeOf path
  · refine ⟨bytes, ?_⟩
    rw [hsame]
    exact put_entry_self (hfile.endsInName.place_ne_nil _) disk _
  · exact ⟨stored, by rw [put_entry_of_ne hsame, hplace]⟩

theorem base (h : Within disk whole) (path : String) : whole.base path = disk.base path := by
  rw [Disk.base, h.workingDirectory, Disk.base]

/-- What a path leads to is of the same kind on both disks. -/
theorem follow (h : Within disk whole) {components place : List String} {entry : Entry}
    (hfollow : disk.follow directory components = .ok (.found place entry)) :
    ∃ other, whole.follow directory components = .ok (.found place other) ∧
      (other = .directory ↔ entry = .directory) := by
  induction components generalizing directory with
  | nil =>
    cases hfollow
    exact ⟨.directory, rfl, Iff.rfl⟩
  | cons name rest ih =>
    by_cases hdot : name = "."
    · rw [Disk.follow, if_pos hdot] at hfollow ⊢
      exact ih hfollow
    by_cases hdots : name = ".."
    · rw [Disk.follow, if_neg hdot, if_pos hdots] at hfollow ⊢
      exact ih hfollow
    by_cases hlong : componentLimit < name.utf8ByteSize
    · simp [Disk.follow, hdot, hdots, hlong] at hfollow
    cases hentry : disk.entry? (directory ++ [name]) with
    | none => cases rest <;> simp [Disk.follow, hdot, hdots, hlong, hentry] at hfollow
    | some found =>
      cases found with
      | file bytes =>
        obtain ⟨other, hother⟩ := h.file _ _ hentry
        cases rest with
        | nil =>
          rw [follow_name ⟨hdot, hdots⟩ hlong] at hfollow ⊢
          simp only [targetAt, hentry] at hfollow
          cases hfollow
          exact ⟨.file other, by simp only [targetAt, hother], by simp⟩
        | cons second rest => simp [Disk.follow, hdot, hdots, hlong, hentry] at hfollow
      | directory =>
        rw [follow_cons_of_directory ⟨hdot, hdots⟩ hlong hentry] at hfollow
        rw [follow_cons_of_directory ⟨hdot, hdots⟩ hlong (h.directory _ hentry)]
        exact ih hfollow

theorem isDirectory (h : Within disk whole) (hdirectory : disk.isDirectory path = true) :
    whole.isDirectory path = true := by
  obtain ⟨haccepted, place, hfollow⟩ := isDirectory_iff.mp hdirectory
  obtain ⟨other, hother, hkind⟩ := h.follow hfollow
  obtain rfl := hkind.mpr rfl
  rw [isDirectory_iff, h.base]
  exact ⟨haccepted, place, hother⟩

/-- What is a directory on the whole disk is one on the smaller one if it is there at all. -/
theorem isDirectory_of_pathExists (h : Within disk whole) (hexists : disk.pathExists path = true)
    (hwhole : whole.isDirectory path = true) : disk.isDirectory path = true := by
  obtain ⟨haccepted, place, entry, hfollow⟩ := exists_of_pathExists hexists
  obtain ⟨other, hother, hkind⟩ := h.follow hfollow
  obtain ⟨-, found, hfound⟩ := isDirectory_iff.mp hwhole
  rw [h.base, hother] at hfound
  cases hfound
  obtain rfl := hkind.mp rfl
  exact isDirectory_iff.mpr ⟨haccepted, _, hfollow⟩

theorem put (h : Within disk whole) {place : List String} (hplace : place ≠ [])
    {entry other : Entry} (hother : whole.entry? place = some other)
    (hkind : other = .directory ↔ entry = .directory) : Within (disk.put place entry) whole := by
  refine ⟨⟨h.workingDirectory, fun found hfound => ?_⟩, fun found bytes hfound => ?_⟩
  · by_cases hsame : found = place
    · rw [hsame, put_entry_self hplace] at hfound
      rw [hsame, hother, hkind.mpr (Option.some.inj hfound)]
    · rw [put_entry_of_ne hsame] at hfound
      exact h.directory found hfound
  · by_cases hsame : found = place
    · rw [hsame, put_entry_self hplace] at hfound
      rw [hsame, hother]
      cases other with
      | directory =>
        rw [hkind.mp rfl] at hfound
        cases hfound
      | file stored => exact ⟨stored, rfl⟩
    · rw [put_entry_of_ne hsame] at hfound
      exact h.file found bytes hfound

end Within

/-- A directory that is there already will do. -/
theorem makeLastDirectory_of_isDirectory (h : disk.isDirectory path = true) :
    disk.makeLastDirectory true path = { disk } := by
  obtain ⟨haccepted, place, hfollow⟩ := isDirectory_iff.mp h
  rw [makeLastDirectory, makeDirectory, locate_of_accepted haccepted, hfollow]
  simp [bind, Except.bind, throw, throwThe, MonadExceptOf.throw, DiskError.isSystem, h]

/-- A directory that is missing is made in the one above it. -/
theorem makeLastDirectory_of_missing (haccepted : Path.IsAccepted path)
    {front place : List String} {name : String}
    (hcomponents : Path.components path = front ++ [name])
    (hfront : disk.follow (disk.base path) front = .ok (.found place .directory))
    (hname : Path.IsName name) (hshort : ¬ componentLimit < name.utf8ByteSize)
    (hmissing : disk.entry? (place ++ [name]) = none) :
    disk.makeLastDirectory true path = { disk := disk.put (place ++ [name]) .directory } ∧
      (disk.put (place ++ [name]) .directory).isDirectory path = true := by
  have hplace : place ++ [name] ≠ [] := List.append_ne_nil_of_right_ne_nil place (by simp)
  have hgrown : Within disk (disk.put (place ++ [name]) .directory) := .of_grows (.put hmissing _)
  obtain ⟨again, hagain, hsame⟩ := hgrown.follow hfront
  obtain rfl := hsame.mpr rfl
  constructor
  · rw [makeLastDirectory, makeDirectory, locate_of_accepted haccepted, hcomponents,
      follow_append hfront, follow_name hname hshort]
    simp only [targetAt, hmissing]
    rfl
  · rw [isDirectory_iff, hcomponents]
    refine ⟨haccepted, place ++ [name], ?_⟩
    rw [hgrown.base, follow_append hagain, follow_name hname hshort,
      targetAt_eq_found_iff.mpr ⟨rfl, put_entry_self hplace disk _⟩]

/-- A directory of the whole disk can be made on the smaller one as soon as the directory above it
is there. -/
theorem makeLastDirectory_within (h : Within disk whole) (hwhole : whole.isDirectory path = true)
    {front last place : List String} (hcomponents : Path.components path = front ++ last)
    (hlast : last = [] ∨ ∃ name, last = [name])
    (hfront : disk.follow (disk.base path) front = .ok (.found place .directory)) :
    ∃ made, disk.makeLastDirectory true path = { disk := made } ∧ Within made whole ∧
      made.isDirectory path = true := by
  obtain ⟨haccepted, found, hfound⟩ := isDirectory_iff.mp hwhole
  obtain ⟨other, hother, hkind⟩ := h.follow hfront
  obtain rfl := hkind.mpr rfl
  rw [h.base, hcomponents, follow_append hother] at hfound
  have hthere : ∀ there, disk.follow place last = .ok (.found there .directory) →
      ∃ made, disk.makeLastDirectory true path = { disk := made } ∧ Within made whole ∧
        made.isDirectory path = true := by
    intro there hfollow
    have hdirectory : disk.isDirectory path = true := by
      rw [isDirectory_iff, hcomponents, follow_append hfront]
      exact ⟨haccepted, there, hfollow⟩
    exact ⟨disk, makeLastDirectory_of_isDirectory hdirectory, h, hdirectory⟩
  rcases hlast with rfl | ⟨name, rfl⟩
  · exact hthere place rfl
  by_cases hdot : name = "."
  · exact hthere place (by rw [follow, if_pos hdot, follow])
  by_cases hdots : name = ".."
  · exact hthere place.dropLast (by rw [follow, if_neg hdot, if_pos hdots, follow])
  by_cases hlong : componentLimit < name.utf8ByteSize
  · simp [follow, hdot, hdots, hlong] at hfound
  rw [follow_name ⟨hdot, hdots⟩ hlong] at hfound
  obtain ⟨rfl, hentry⟩ := targetAt_eq_found_iff.mp (Except.ok.inj hfound)
  have hplace : place ++ [name] ≠ [] := List.append_ne_nil_of_right_ne_nil place (by simp)
  cases hmissing : disk.entry? (place ++ [name]) with
  | some entry =>
    apply hthere (place ++ [name])
    rw [follow_name ⟨hdot, hdots⟩ hlong, targetAt_eq_found_iff.mpr ⟨rfl, ?_⟩]
    cases entry with
    | directory => exact hmissing
    | file bytes =>
      obtain ⟨stored, hstored⟩ := h.file _ _ hmissing
      rw [hentry] at hstored
      cases hstored
  | none =>
    obtain ⟨hmade, hdirectory⟩ :=
      makeLastDirectory_of_missing haccepted hcomponents hfront ⟨hdot, hdots⟩ hlong hmissing
    exact ⟨_, hmade, h.put hplace hentry Iff.rfl, hdirectory⟩

/-- The first part of a path that leads on is a directory. -/
theorem isDirectory_of_isPrefix {cs : List Char} (hbegins : cs <+: path.toList) (hne : cs ≠ [])
    {last : List String}
    (hcomponents : Path.components path = Path.components (String.ofList cs) ++ last)
    (hlast : last ≠ []) {target : Target}
    (hlocate : disk.locate path (Path.components path) = .ok target) :
    disk.isDirectory (String.ofList cs) = true := by
  have haccepted := accepted_of_locate hlocate
  rw [locate_of_accepted haccepted, hcomponents] at hlocate
  rw [isDirectory_iff, base, Path.isAbsolute_of_isPrefix hbegins hne]
  exact ⟨haccepted.of_isPrefix hbegins hne, directory_of_follow_append hlast hlocate⟩

theorem isDirectory_splitDirectory {path : List Char}
    (h : disk.isDirectory (String.ofList path) = true) (hne : (splitDirectory path).1 ≠ [])
    (htail : (splitDirectory path).2 ≠ []) :
    disk.isDirectory (String.ofList (splitDirectory path).1) = true := by
  obtain ⟨haccepted, place, hfollow⟩ := isDirectory_iff.mp h
  rw [← locate_of_accepted haccepted] at hfollow
  have hbegins : (splitDirectory path).1 <+: (String.ofList path).toList := by
    rw [String.toList_ofList]
    exact Path.splitDirectory_isPrefix path
  have hcomponents := Path.components_splitDirectory path
  rw [Path.components_of_no_slash (Path.splitDirectory_no_slash path) htail] at hcomponents
  exact isDirectory_of_isPrefix hbegins hne hcomponents (List.cons_ne_nil _ _) hfollow

/-- A directory leads to where the rest of a longer path begins. -/
theorem follow_of_isPrefix {cs : List Char} (hbegins : cs <+: path.toList)
    (h : disk.isDirectory (String.ofList cs) = true) :
    ∃ place, disk.follow (disk.base path) (Path.components (String.ofList cs)) =
      .ok (.found place .directory) := by
  obtain ⟨haccepted, hfollow⟩ := isDirectory_iff.mp h
  have hne : cs ≠ [] := by
    rintro rfl
    exact absurd haccepted.nonempty (by decide)
  rwa [base, ← Path.isAbsolute_of_isPrefix hbegins hne]

/-- The directories of the whole disk can be made on the smaller one, with those above them. -/
theorem makeDirectories_within (h : Within disk whole) {path : List Char}
    (hwhole : whole.isDirectory (String.ofList path) = true) :
    ∃ made, disk.makeDirectories true path = { disk := made } ∧ Within made whole ∧
      made.isDirectory (String.ofList path) = true := by
  have hlast := Path.components_cases (Path.splitDirectory_no_slash path)
  have hcomponents := Path.components_splitDirectory path
  have hbegins : (splitDirectory path).1 <+: (String.ofList path).toList := by
    rw [String.toList_ofList]
    exact Path.splitDirectory_isPrefix path
  rw [makeDirectories]
  split
  · next hmissing =>
    have hshorter := splitDirectory_length hmissing.1
    obtain ⟨above, hmade, habove, hdirectory⟩ :=
      makeDirectories_within h (isDirectory_splitDirectory hwhole hmissing.2.1 hmissing.1)
    obtain ⟨place, hplace⟩ := follow_of_isPrefix hbegins hdirectory
    simp only [hmade]
    split
    · next hdot =>
      refine ⟨above, rfl, habove, isDirectory_iff.mpr ⟨(isDirectory_iff.mp hwhole).1, place, ?_⟩⟩
      rw [hcomponents, hdot, follow_append hplace]
      rfl
    · exact makeLastDirectory_within habove hwhole hcomponents hlast hplace
  · next hthere =>
    by_cases htail : (splitDirectory path).2 = []
    · have hnone : Path.components (String.ofList path) = [] ++ [] :=
        Path.components_of_no_tail htail
      exact makeLastDirectory_within h hwhole hnone (Or.inl rfl) rfl
    by_cases hhead : (splitDirectory path).1 = []
    · rw [hhead] at hcomponents
      exact makeLastDirectory_within h hwhole hcomponents hlast rfl
    · have hexists : disk.pathExists (String.ofList (splitDirectory path).1) = true := by
        simpa [htail, hhead] using hthere
      have hdirectory :=
        h.isDirectory_of_pathExists hexists (isDirectory_splitDirectory hwhole hhead htail)
      obtain ⟨place, hplace⟩ := follow_of_isPrefix hbegins hdirectory
      exact makeLastDirectory_within h hwhole hcomponents hlast hplace
termination_by path.length

def HasFile (disk : Disk) (path : String) : Prop :=
  ∃ bytes, disk.read path = .ok bytes

theorem namesFile_of_read {bytes : List UInt8} (h : disk.read path = .ok bytes) :
    Path.NamesFile path := by
  obtain ⟨entry, hfind, hentry⟩ := Bytes.bind_eq_ok.mp h
  obtain ⟨⟨place, hlocate⟩, hslash⟩ := find_eq_ok_iff.mp hfind
  cases entry with
  | directory => cases hentry
  | file stored =>
    apply namesFile_of_locate hlocate
    · intro other hother
      cases hother
    · intro hends
      cases hslash hends

theorem HasFile.of_within (h : HasFile disk path) (hwithin : Within disk whole) :
    HasFile whole path := by
  obtain ⟨bytes, hread⟩ := h
  have hfile := namesFile_of_read hread
  obtain ⟨stored, hstored⟩ := hwithin.file _ _ (entry_of_read hfile hread)
  exact ⟨stored, read_of_keeps hwithin.toKeepsDirectories hfile
    ((read_eq_ok_iff hfile).mp hread) hstored⟩

theorem write_of_locate (hfile : Path.NamesFile path) {target : Target}
    (hlocate : disk.locate path (Path.components path) = .ok target)
    (hentry : disk.entry? (disk.placeOf path) ≠ some .directory) (bytes : List UInt8) :
    disk.write path bytes = .ok (disk.put (disk.placeOf path) (.file bytes)) := by
  have hplace : disk.writePlace path = .ok (disk.placeOf path) := by
    obtain rfl := (locate_of_keeps (.refl disk) hfile hlocate).1
    rw [writePlace, hfile.noSlash, hlocate]
    cases hfound : disk.entry? (disk.placeOf path) with
    | none =>
      simp only [targetAt, hfound]
      rfl
    | some entry =>
      cases entry with
      | directory => exact absurd hfound hentry
      | file stored =>
        simp only [targetAt, hfound]
        rfl
  rw [write, hplace]
  rfl

/-- A file of the whole disk can be written on the smaller one as soon as the directory that it is
to be in is there. -/
theorem write_within (h : Within disk whole) (hwhole : HasFile whole path)
    {front place : List String} {name : String}
    (hcomponents : Path.components path = front ++ [name])
    (hfront : disk.follow (disk.base path) front = .ok (.found place .directory))
    (bytes : List UInt8) :
    ∃ written, disk.write path bytes = .ok written ∧ Within written whole := by
  obtain ⟨stored, hread⟩ := hwhole
  have hfile := namesFile_of_read hread
  have hentry := entry_of_read hfile hread
  rw [h.placeOf] at hentry
  have hlocate := (read_eq_ok_iff hfile).mp hread
  have haccepted := accepted_of_locate hlocate
  have hname : Path.IsName name := by
    obtain ⟨last, hlast, hname⟩ := hfile.endsInName
    rw [hcomponents, List.getLast?_concat] at hlast
    rwa [Option.some.inj hlast]
  have hshort : ¬ componentLimit < name.utf8ByteSize := by
    intro hlong
    obtain ⟨other, hother, hkind⟩ := h.follow hfront
    obtain rfl := hkind.mpr rfl
    rw [locate_of_accepted haccepted, h.base, hcomponents, follow_append hother, follow,
      if_neg hname.1, if_neg hname.2, if_pos hlong] at hlocate
    cases hlocate
  have hreached : disk.locate path (Path.components path) =
      .ok (disk.targetAt (place ++ [name])) := by
    rw [locate_of_accepted haccepted, hcomponents, follow_append hfront, follow_name hname hshort]
  have hother : disk.entry? (disk.placeOf path) ≠ some .directory := by
    intro hdirectory
    rw [h.directory _ hdirectory] at hentry
    cases hentry
  exact ⟨_, write_of_locate hfile hreached hother bytes,
    h.put (hfile.endsInName.place_ne_nil _) hentry (by simp)⟩

/-- So it can be created empty and filled then. -/
theorem write_twice_within (h : Within disk whole) (hwhole : HasFile whole path)
    {front place : List String} {name : String}
    (hcomponents : Path.components path = front ++ [name])
    (hfront : disk.follow (disk.base path) front = .ok (.found place .directory))
    (bytes : List UInt8) : ∃ created filled, disk.write path [] = .ok created ∧
      created.write path bytes = .ok filled ∧ Within filled whole := by
  obtain ⟨created, hcreate, hcreated⟩ := write_within h hwhole hcomponents hfront []
  have hgrown : Within disk created := .of_write hcreate
  obtain ⟨other, hother, hkind⟩ := hgrown.follow hfront
  obtain rfl := hkind.mpr rfl
  rw [← hgrown.base] at hother
  obtain ⟨filled, hfill, hfilled⟩ := write_within hcreated hwhole hcomponents hother bytes
  exact ⟨created, filled, hcreate, hfill, hfilled⟩

/-- A file of the whole disk can be written on the smaller one with the directories above it. -/
theorem install_within (h : Within disk whole) (hwhole : HasFile whole path)
    (hparent : Path.parent path ≠ "") (bytes : List UInt8) :
    ∃ made created filled, disk.makeDirectories true (Path.parent path).toList = { disk := made } ∧
      made.write path [] = .ok created ∧ created.write path bytes = .ok filled ∧
      Within filled whole := by
  have hbegins : (Path.split path.toList).1 <+: path.toList := Path.split_isPrefix path.toList
  have hcomponents := Path.components_split path.toList
  rw [String.ofList_toList] at hcomponents
  obtain ⟨stored, hread⟩ := hwhole
  have hfile := namesFile_of_read hread
  have hlocate := (read_eq_ok_iff hfile).mp hread
  have hpath : path ≠ "" := by
    rintro rfl
    exact hparent rfl
  rw [Path.components_of_no_slash (Path.split_no_slash path.toList)
    (Path.split_snd_ne_nil hfile.noSlash hpath)] at hcomponents
  have hne : (Path.split path.toList).1 ≠ [] := by
    intro hnil
    exact hparent (by rw [Path.parent, hnil])
  have hdirectory := isDirectory_of_isPrefix hbegins hne hcomponents (List.cons_ne_nil _ _) hlocate
  obtain ⟨made, hmake, hmade, hready⟩ := makeDirectories_within h hdirectory
  obtain ⟨place, hplace⟩ := follow_of_isPrefix hbegins hready
  obtain ⟨created, filled, hcreate, hfill, hfilled⟩ :=
    write_twice_within hmade ⟨stored, hread⟩ hcomponents hplace bytes
  refine ⟨made, created, filled, ?_, hcreate, hfill, hfilled⟩
  rw [Path.parent, String.toList_ofList]
  exact hmake

/-- A path without a directory above it is not made. -/
theorem parent_ne_empty {made : Disk}
    (h : disk.makeDirectories true (Path.parent path).toList = { disk := made }) :
    Path.parent path ≠ "" := by
  intro hempty
  have hsplit : (splitDirectory "".toList).2 = [] := by decide
  have hfailed : (disk.makeLastDirectory true (String.ofList "".toList)).error = some .notFound :=
    rfl
  rw [hempty, makeDirectories, dif_neg fun hmissing => hmissing.1 hsplit] at h
  rw [h] at hfailed
  cases hfailed

end Disk

end CivilTime
