import CivilTime.Disk
import Mathlib.Tactic

/-!
The place of a path depends on its components alone, since there are no links between directories.
A plain path has only names for components; plain paths below one directory that lead to the same
place are the same text.
-/

namespace CivilTime

namespace Text

variable {isSep : Char → Bool}

theorem pieces_cons (c : Char) (cs : List Char) :
    pieces isSep (c :: cs) =
      if isSep c then [] :: pieces isSep cs else consToFirst c (pieces isSep cs) :=
  rfl

theorem consToFirst_append {pieces : List (List Char)} (h : pieces ≠ []) (c : Char)
    (more : List (List Char)) : consToFirst c (pieces ++ more) = consToFirst c pieces ++ more := by
  cases pieces with
  | nil => exact absurd rfl h
  | cons piece rest => rfl

theorem pieces_ne_nil (cs : List Char) : pieces isSep cs ≠ [] := by
  cases cs with
  | nil => simp [pieces]
  | cons c cs =>
    rw [pieces_cons]
    split
    · simp
    · cases pieces isSep cs <;> simp [consToFirst]

/-- A text is cut at each of its separators. -/
theorem pieces_append_sep {sep : Char} (hsep : isSep sep) (before after : List Char) :
    pieces isSep (before ++ sep :: after) = pieces isSep before ++ pieces isSep after := by
  induction before with
  | nil => simp [hsep, pieces]
  | cons c cs ih =>
    rw [List.cons_append, pieces_cons, pieces_cons, ih]
    split
    · rfl
    · exact consToFirst_append (pieces_ne_nil cs) c _

/-- A text can be put together again from its pieces if there is one separator only. -/
theorem intercalate_pieces (sep : Char) (cs : List Char) :
    [sep].intercalate (pieces (· = sep) cs) = cs := by
  induction cs with
  | nil => rfl
  | cons c cs ih =>
    rw [pieces_cons]
    have hsome : pieces (· = sep) cs ≠ [] := pieces_ne_nil cs
    obtain ⟨piece, rest, hpieces⟩ := List.exists_cons_of_ne_nil hsome
    rw [hpieces] at ih ⊢
    by_cases hc : c = sep
    · rw [if_pos (by simpa using hc), List.intercalate_cons_cons, ih, hc]
      rfl
    · rw [if_neg (by simpa using hc), consToFirst]
      cases rest with
      | nil => simpa using ih
      | cons second rest =>
        rw [List.intercalate_cons_cons] at ih ⊢
        rw [List.cons_append, List.cons_append, ih]

end Text

namespace Path

/-- The place that components lead to from a directory, if they lead anywhere. -/
def place (directory : List String) : List String → List String
  | [] => directory
  | name :: rest =>
    if name = "." then place directory rest
    else if name = ".." then place directory.dropLast rest
    else place (directory ++ [name]) rest

theorem place_append (directory first second : List String) :
    place directory (first ++ second) = place (place directory first) second := by
  induction first generalizing directory with
  | nil => rfl
  | cons name rest ih =>
    simp only [List.cons_append, place, ih]
    split_ifs <;> rfl

def IsName (component : String) : Prop :=
  component ≠ "." ∧ component ≠ ".."

theorem place_of_names {components : List String} (h : ∀ name ∈ components, IsName name)
    (directory : List String) : place directory components = directory ++ components := by
  induction components generalizing directory with
  | nil => simp [place]
  | cons name rest ih =>
    obtain ⟨hdot, hdots⟩ := h name (by simp)
    rw [place, if_neg hdot, if_neg hdots, ih fun other hother => h other (by simp [hother])]
    simp

/-- A relative path of names only: none of its components is empty, `.` or `..`. -/
def IsPlain (path : String) : Prop :=
  ∀ piece ∈ Text.pieces (· = '/') path.toList, piece ≠ [] ∧ piece ≠ ['.'] ∧ piece ≠ ['.', '.']

instance (path : String) : Decidable (IsPlain path) :=
  inferInstanceAs (Decidable (∀ piece ∈ _, _))

theorem components_of_slash {path : String} {before after : List Char}
    (h : path.toList = before ++ '/' :: after) :
    components path = components (String.ofList before) ++ components (String.ofList after) := by
  simp only [components, h, String.toList_ofList]
  rw [Text.pieces_append_sep (by decide), List.filter_append, List.map_append]

theorem components_join {path : String} (hrelative : isAbsolute path = false)
    (directory : String) : components (join directory path) =
      components directory ++ components path := by
  have hhead : path.toList.head? ≠ some '/' := by simpa [isAbsolute] using hrelative
  rw [join, if_neg hhead]
  split
  · next hend =>
    rcases Bool.or_eq_true_iff.mp hend with hempty | hslash
    · rw [String.isEmpty_iff] at hempty
      simp [hempty, components, Text.pieces]
    · obtain ⟨front, hfront⟩ := List.getLast?_eq_some_iff.mp (of_decide_eq_true hslash)
      have hjoined : (directory ++ path).toList = front ++ '/' :: path.toList := by simp [hfront]
      rw [components_of_slash hjoined, components_of_slash hfront]
      simp [components, Text.pieces]
  · have hjoined : (directory ++ "/" ++ path).toList = directory.toList ++ '/' :: path.toList := by
      simp
    rw [components_of_slash hjoined]
    simp

theorem isAbsolute_join {path : String} (hrelative : isAbsolute path = false)
    (directory : String) : isAbsolute (join directory path) = isAbsolute directory := by
  have hhead : path.toList.head? ≠ some '/' := by simpa [isAbsolute] using hrelative
  rw [join, if_neg hhead]
  by_cases hempty : directory = ""
  · simpa [hempty, isAbsolute] using hhead
  · obtain ⟨c, rest, hdirectory⟩ :=
      List.exists_cons_of_ne_nil (mt String.toList_eq_nil_iff.mp hempty)
    split <;> simp [isAbsolute, hdirectory]

/-- A path below a directory ends as the path does. -/
theorem join_toList (directory path : String) :
    ∃ front, (join directory path).toList = front ++ path.toList := by
  rw [join]
  split_ifs
  · exact ⟨[], rfl⟩
  · exact ⟨directory.toList, by simp⟩
  · exact ⟨directory.toList ++ ['/'], by simp⟩

namespace IsPlain

variable {path : String}

theorem components_eq (h : IsPlain path) :
    components path = (Text.pieces (· = '/') path.toList).map String.ofList := by
  rw [components, List.filter_eq_self.mpr]
  intro piece hpiece
  simpa using (h piece hpiece).1

theorem isName (h : IsPlain path) {name : String} (hname : name ∈ components path) :
    IsName name := by
  rw [h.components_eq] at hname
  obtain ⟨piece, hpiece, rfl⟩ := List.mem_map.mp hname
  obtain ⟨-, hdot, hdots⟩ := h piece hpiece
  constructor
  · exact fun heq => hdot (by simpa using congrArg String.toList heq)
  · exact fun heq => hdots (by simpa using congrArg String.toList heq)

theorem components_ne_nil (h : IsPlain path) : components path ≠ [] := by
  rw [h.components_eq]
  simpa using Text.pieces_ne_nil path.toList

theorem relative (h : IsPlain path) : isAbsolute path = false := by
  rw [isAbsolute, decide_eq_false_iff_not, List.head?_eq_some_iff]
  rintro ⟨rest, hslash⟩
  exact (h [] (by simp [hslash, Text.pieces_cons])).1 rfl

theorem not_endsWithSlash (h : IsPlain path) (directory : String) :
    endsWithSlash (join directory path) = false := by
  rw [endsWithSlash, decide_eq_false_iff_not]
  intro hslash
  obtain ⟨front, hfront⟩ := join_toList directory path
  have hsome : path.toList ≠ [] := by
    intro hnil
    exact (h [] (by simp [hnil, Text.pieces])).1 rfl
  rw [hfront, List.getLast?_append_of_ne_nil _ hsome, List.getLast?_eq_some_iff] at hslash
  obtain ⟨before, hbefore⟩ := hslash
  have hlast : [] ∈ Text.pieces (· = '/') path.toList := by
    rw [hbefore, Text.pieces_append_sep (by decide)]
    exact List.mem_append_right _ (by simp [Text.pieces])
  exact (h [] hlast).1 rfl

/-- A plain path can be told from its components. -/
theorem eq_of_components {other : String} (h : IsPlain path) (hother : IsPlain other)
    (heq : components path = components other) : path = other := by
  rw [h.components_eq, hother.components_eq] at heq
  have hpieces := List.map_injective_iff.mpr (fun _ _ h => String.ofList_injective h) heq
  rw [← String.toList_inj, ← Text.intercalate_pieces '/' path.toList, hpieces,
    Text.intercalate_pieces]

end IsPlain

end Path

end CivilTime
