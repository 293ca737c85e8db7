import CivilTime.Source.Database
import Mathlib.Data.List.DropRight
import Mathlib.Tactic

/-!
Files may be cut and joined between their records. What is read does not depend on lines without
content, wherever they stand, and a file is read as its first part and then the rest, if the rest
does not begin with a continuation line.

A zone that is open where the file is cut makes the difference between the two ways of reading: one
adds it to the database at once and the other with the next record, or at the end.
-/

namespace CivilTime.Source

namespace Line

def isSilent (text : String) : Bool :=
  (content text.toList).all Text.isBlank

theorem trimEnd_cons {c : Char} (h : Text.isBlank c = false) (cs : List Char) :
    ∃ rest, Text.trimEnd (c :: cs) = c :: rest := by
  have hsome : Text.trimEnd (c :: cs) ≠ [] := by
    intro hnil
    have hall := List.rdropWhile_eq_nil_iff.mp hnil
    simp [hall c (by simp)] at h
  obtain ⟨first, rest, hrest⟩ := List.exists_cons_of_ne_nil hsome
  have hbegins : first :: rest <+: c :: cs := hrest ▸ List.rdropWhile_prefix Text.isBlank (c :: cs)
  rw [hrest, (List.cons_prefix_cons.mp hbegins).1]
  exact ⟨rest, rfl⟩

/-- White space at the front belongs to the content. -/
theorem content_append {blanks : List Char} (h : ∀ c ∈ blanks, Text.isBlank c = true)
    (cs : List Char) : content (blanks ++ cs) = blanks ++ content cs := by
  apply List.takeWhile_append_of_pos
  intro c hc
  have hblank := h c hc
  simp only [ne_eq, decide_eq_true_eq]
  rintro rfl
  exact absurd hblank (by decide)

theorem read_eq (text : String) :
    read text =
      if isSilent text then .blank
      else
        match Text.words (content text.toList) with
        | [] => .wordless
        | keyword :: fields =>
          if isIndented (content text.toList) then .continuation (keyword :: fields)
          else .record keyword fields := by
  have hblanks : ∀ c ∈ text.toList.takeWhile Text.isBlank, Text.isBlank c = true :=
    fun c hc => List.mem_takeWhile_imp hc
  have hcontent := content_append hblanks (text.toList.dropWhile Text.isBlank)
  rw [List.takeWhile_append_dropWhile] at hcontent
  have hsilent :
      isSilent text = (content (text.toList.dropWhile Text.isBlank)).all Text.isBlank := by
    rw [isSilent, hcontent, List.all_append, List.all_eq_true.mpr hblanks, Bool.true_and]
  rw [hsilent, read, Text.trim, Text.trimStart]
  cases hrest : text.toList.dropWhile Text.isBlank with
  | nil => rfl
  | cons c cs =>
    have hc : Text.isBlank c = false := by
      simpa [hrest] using List.head_dropWhile_not Text.isBlank (l := text.toList) (by simp [hrest])
    obtain ⟨rest, htrim⟩ := trimEnd_cons hc cs
    rw [htrim]
    by_cases hmark : c = '#'
    · subst hmark
      rfl
    · have hloud : (content (c :: cs)).all Text.isBlank = false := by
        simp [content, hmark, hc]
      rw [hloud, if_neg Bool.false_ne_true]
      split
      · contradiction
      · simp_all
      · rfl

/-- Whether a line continues the zone above it can be seen before its comment is cut off. -/
theorem isIndented_content {cs : List Char} (h : isIndented (content cs) = true) :
    isIndented cs = true := by
  cases cs with
  | nil => exact h
  | cons c cs =>
    by_cases hmark : c = '#'
    · simp [content, hmark, isIndented] at h
    · simpa [content, hmark, isIndented] using h

end Line

def Reading.report (text : String) (number : Nat) : Message :=
  .error ("Error parsing line " ++ Text.paddedNat 0 number ++ ": " ++
    String.ofList (Text.trimEnd text.toList))

namespace Reading

/-- Two messages that are the same, except that the line they report may be numbered differently. -/
inductive SameMessage : Message → Message → Prop where
  | refl (message : Message) : SameMessage message message
  | report (text : String) (number other : Nat) :
    SameMessage (report text number) (report text other)

structure Alike (first second : Reading) : Prop where
  database : first.database = second.database
  openZone : first.openZone = second.openZone
  fault : first.fault = second.fault
  messages : List.Forall₂ SameMessage first.messages second.messages

theorem sameMessages_refl (messages : List Message) :
    List.Forall₂ SameMessage messages messages :=
  List.forall₂_same.mpr fun message _ => .refl message

theorem Alike.refl (reading : Reading) : reading.Alike reading :=
  ⟨rfl, rfl, rfl, sameMessages_refl _⟩

theorem proceed_error (reading : Reading) (text : String) (database : Database) (fault : Fault) :
    reading.proceed text database (.error fault) =
      { reading with
        database
        openZone := none
        messages := reading.messages ++
          if fault.isReported then [report text reading.lineCount] else []
        fault := some fault } := rfl

variable {first second : Reading}

/-- A line brings about the same whatever was reported before and whatever number it has. -/
theorem Alike.proceed (h : first.Alike second) (text : String) (database : Database)
    (effect : Except Fault Database.Effect) :
    (first.proceed text database effect).Alike (second.proceed text database effect) := by
  cases effect with
  | ok effect =>
    exact ⟨rfl, rfl, h.fault, List.rel_append h.messages (sameMessages_refl effect.messages)⟩
  | error fault =>
    rw [proceed_error, proceed_error]
    refine ⟨rfl, rfl, rfl, List.rel_append h.messages ?_⟩
    split
    · exact .cons (.report text first.lineCount second.lineCount) .nil
    · exact .nil

theorem readLine_of_fault (backward : Bool) (reading : Reading) (text : String)
    (h : reading.fault.isSome = true) : reading.readLine backward text = reading :=
  if_pos h

/-- What a line does to a reading that no fault has ended, by the kind of the line. -/
theorem readLine_eq (backward : Bool) (reading : Reading) (text : String)
    (h : reading.fault = none) :
    reading.readLine backward text =
      let next := { reading with lineCount := reading.lineCount + 1 }
      let closed := reading.database.close reading.openZone
      match Line.read text with
      | .blank => next
      | .wordless => { next with database := closed, openZone := none }
      | .continuation fields =>
        next.proceed text reading.database
          (reading.database.readContinuation reading.openZone text fields)
      | .record keyword fields =>
        next.proceed text closed (closed.readRecord backward text keyword fields) := by
  rw [readLine, h]
  rfl

theorem Alike.recount (h : first.Alike second) (count other : Nat) :
    Alike { first with lineCount := count } { second with lineCount := other } :=
  ⟨h.database, h.openZone, h.fault, h.messages⟩

theorem Alike.readLine (h : first.Alike second) (backward : Bool) (text : String) :
    (first.readLine backward text).Alike (second.readLine backward text) := by
  rw [Reading.readLine, Reading.readLine, h.fault, h.database, h.openZone]
  split
  · exact h
  · split
    · exact ⟨rfl, rfl, rfl, h.messages⟩
    · exact ⟨rfl, rfl, rfl, h.messages⟩
    · apply Alike.proceed
      exact ⟨rfl, rfl, rfl, h.messages⟩
    · apply Alike.proceed
      exact ⟨rfl, rfl, rfl, h.messages⟩

theorem readAll_of_fault (backward : Bool) (reading : Reading) (lines : List String)
    (h : reading.fault.isSome = true) :
    lines.foldl (Reading.readLine backward) reading = reading := by
  induction lines with
  | nil => rfl
  | cons line lines ih => rw [List.foldl_cons, readLine_of_fault backward reading line h, ih]

theorem Alike.readAll (h : first.Alike second) (backward : Bool) (lines : List String) :
    (lines.foldl (Reading.readLine backward) first).Alike
      (lines.foldl (Reading.readLine backward) second) := by
  induction lines generalizing first second with
  | nil => exact h
  | cons line lines ih => exact ih (h.readLine backward line)

theorem Alike.finish (h : first.Alike second) : first.finish.Alike second.finish := by
  refine ⟨?_, rfl, h.fault, h.messages⟩
  rw [Reading.finish, Reading.finish, h.database, h.openZone]

/-- Lines without content are counted, at most. -/
theorem readAll_silent (backward : Bool) (reading : Reading) {lines : List String}
    (h : ∀ line ∈ lines, Line.isSilent line = true) :
    ∃ count, lines.foldl (readLine backward) reading = { reading with lineCount := count } := by
  induction lines generalizing reading with
  | nil => exact ⟨reading.lineCount, rfl⟩
  | cons line lines ih =>
    have hline : ∃ count,
        reading.readLine backward line = { reading with lineCount := count } := by
      by_cases hfault : reading.fault.isSome = true
      · exact ⟨_, readLine_of_fault backward reading line hfault⟩
      · rw [readLine_eq backward reading line (by simpa using hfault), Line.read_eq,
          if_pos (h line (by simp))]
        exact ⟨_, rfl⟩
    obtain ⟨counted, hcounted⟩ := hline
    obtain ⟨count, hcount⟩ := ih { reading with lineCount := counted }
      fun line hline => h line (List.mem_cons_of_mem _ hline)
    rw [List.foldl_cons, hcounted, hcount]
    exact ⟨count, rfl⟩

theorem Alike.readAll_of_filter_eq (h : first.Alike second) (backward : Bool)
    {lines others : List String}
    (hlines : lines.filter (!Line.isSilent ·) = others.filter (!Line.isSilent ·)) :
    (lines.foldl (Reading.readLine backward) first).Alike
      (others.foldl (Reading.readLine backward) second) := by
  induction lines generalizing others first second with
  | nil =>
    have hsilent : ∀ line ∈ others, Line.isSilent line = true := by
      simpa using List.filter_eq_nil_iff.mp hlines.symm
    obtain ⟨count, hcount⟩ := readAll_silent backward second hsilent
    rw [hcount]
    exact h.recount first.lineCount count
  | cons line lines ih =>
    cases hline : Line.isSilent line with
    | true =>
      have hsilent : ∀ text ∈ [line], Line.isSilent text = true := by simp [hline]
      obtain ⟨count, hcount⟩ := readAll_silent backward first hsilent
      rw [← List.singleton_append, List.foldl_append, hcount]
      apply ih (h.recount count second.lineCount)
      simpa [hline] using hlines
    | false =>
      rw [List.filter_cons_of_pos (by simp [hline])] at hlines
      obtain ⟨silent, rest, rfl, hsilent, -, hrest⟩ := List.filter_eq_cons_iff.mp hlines.symm
      obtain ⟨count, hcount⟩ := readAll_silent backward second (by simpa using hsilent)
      rw [List.foldl_append, hcount, List.foldl_cons, List.foldl_cons]
      exact ih ((h.recount first.lineCount count).readLine backward line) hrest.symm

/-- A line that is no continuation does the same whether the open zone is closed before it or by it.
-/
theorem readLine_finish (backward : Bool) (reading : Reading) {text : String}
    (hfault : reading.fault = none) (hloud : Line.isSilent text = false)
    (hflush : Line.isIndented text.toList = false) :
    reading.finish.readLine backward text = reading.readLine backward text := by
  have hcontent : Line.isIndented (Line.content text.toList) = false := by
    cases h : Line.isIndented (Line.content text.toList) with
    | false => rfl
    | true => rw [← hflush, Line.isIndented_content h]
  rw [readLine_eq backward reading text hfault, readLine_eq backward reading.finish text hfault,
    Line.read_eq, hloud, hcontent]
  cases Text.words (Line.content text.toList) with
  | nil => rfl
  | cons keyword fields => rfl

theorem Alike.readAll_of_finish (hclosed : first.finish.Alike second) (hfault : first.fault = none)
    (backward : Bool) {lines : List String}
    (h : ∀ line, lines.find? (!Line.isSilent ·) = some line →
      Line.isIndented line.toList = false) :
    (lines.foldl (Reading.readLine backward) first).finish.Alike
      (lines.foldl (Reading.readLine backward) second).finish := by
  cases hfind : lines.find? (!Line.isSilent ·) with
  | none =>
    have hsilent : ∀ line ∈ lines, Line.isSilent line = true := by
      simpa using List.find?_eq_none.mp hfind
    obtain ⟨count, hcount⟩ := readAll_silent backward first hsilent
    obtain ⟨other, hother⟩ := readAll_silent backward second hsilent
    rw [hcount, hother]
    exact (hclosed.recount count other).finish
  | some line =>
    obtain ⟨hloud, silent, rest, rfl, hsilent⟩ := List.find?_eq_some_iff_append.mp hfind
    have hsilent : ∀ line ∈ silent, Line.isSilent line = true := by simpa using hsilent
    obtain ⟨count, hcount⟩ := readAll_silent backward first hsilent
    obtain ⟨other, hother⟩ := readAll_silent backward second hsilent
    have hline := readLine_finish backward { first with lineCount := count } hfault
      (by simpa using hloud) (h line hfind)
    rw [List.foldl_append, List.foldl_append, hcount, hother, List.foldl_cons, List.foldl_cons,
      ← hline]
    exact (((hclosed.recount count other).readLine backward line).readAll backward rest).finish

def after (messages : List Message) (reading : Reading) : Reading :=
  { reading with messages := messages ++ reading.messages }

theorem proceed_after (messages : List Message) (reading : Reading) (text : String)
    (database : Database) (effect : Except Fault Database.Effect) :
    (reading.after messages).proceed text database effect =
      (reading.proceed text database effect).after messages := by
  cases effect with
  | ok effect => simp [proceed, after]
  | error fault => simp [proceed_error, after]

theorem readAll_after (backward : Bool) (messages : List Message) (reading : Reading)
    (lines : List String) :
    lines.foldl (readLine backward) (reading.after messages) =
      (lines.foldl (readLine backward) reading).after messages := by
  induction lines generalizing reading with
  | nil => rfl
  | cons line lines ih =>
    rw [List.foldl_cons, List.foldl_cons, ← ih]
    congr 1
    by_cases hfault : reading.fault.isSome = true
    · rw [readLine_of_fault backward reading line hfault]
      exact readLine_of_fault backward (reading.after messages) line hfault
    · have hnone : reading.fault = none := by simpa using hfault
      rw [readLine_eq backward reading line hnone,
        readLine_eq backward (reading.after messages) line hnone]
      cases Line.read line with
      | blank => rfl
      | wordless => rfl
      | continuation fields =>
        exact proceed_after messages { reading with lineCount := reading.lineCount + 1 } line _ _
      | record keyword fields =>
        exact proceed_after messages { reading with lineCount := reading.lineCount + 1 } line _ _

/-- Reads the lines of another file, unless a fault has ended the reading of this one. -/
def andThen (reading : Reading) (backward : Bool) (lines : List String) : Reading :=
  if reading.fault.isSome then reading
  else (reading.database.readLines backward lines).after reading.messages

end Reading

namespace Database

theorem readLines_append (database : Database) (backward : Bool) (lines : List String)
    {others : List String}
    (h : ∀ line, others.find? (!Line.isSilent ·) = some line →
      Line.isIndented line.toList = false) :
    (database.readLines backward (lines ++ others)).Alike
      ((database.readLines backward lines).andThen backward others) := by
  rw [readLines, List.foldl_append, readLines]
  generalize lines.foldl (Reading.readLine backward) { database } = reading
  by_cases hfault : reading.fault.isSome = true
  · rw [Reading.readAll_of_fault backward reading others hfault, Reading.andThen,
      if_pos (by exact hfault)]
    exact .refl _
  · have hnone : reading.fault = none := by simpa using hfault
    have hclosed : reading.finish.Alike
        (Reading.after reading.messages { database := reading.finish.database }) := by
      refine ⟨rfl, rfl, hnone, ?_⟩
      rw [Reading.after, List.append_nil]
      exact Reading.sameMessages_refl reading.messages
    have hrest := hclosed.readAll_of_finish hnone backward h
    rw [Reading.readAll_after] at hrest
    rw [Reading.andThen, if_neg (by exact hfault)]
    exact hrest

/-- Joined files are read as one after the other, if the second begins with a record; lines without
content may be added and left out everywhere. -/
theorem readLines_spliced (database : Database) (backward : Bool) :
    (∀ lines others : List String,
      (∀ line, others.find? (!Line.isSilent ·) = some line →
        Line.isIndented line.toList = false) →
      (database.readLines backward (lines ++ others)).Alike
        ((database.readLines backward lines).andThen backward others)) ∧
    ∀ lines others : List String,
      lines.filter (!Line.isSilent ·) = others.filter (!Line.isSilent ·) →
      (database.readLines backward lines).Alike (database.readLines backward others) := by
  constructor
  · intro lines others h
    exact database.readLines_append backward lines h
  · intro lines others h
    exact ((Reading.Alike.refl { database }).readAll_of_filter_eq backward h).finish

/-- The zone is open at the cut, and the second part begins with a comment. -/
theorem readLines_spliced_at_open_zone :
    let lines := ["Zone Town 1:00 - TST 1990", "  2:00 - TST"]
    let others := ["  # Another name", "Link Town City"]
    (∀ line, others.find? (!Line.isSilent ·) = some line →
      Line.isIndented line.toList = false) ∧
    (Database.readLines {} false (lines ++ others)).Alike
      ((Database.readLines {} false lines).andThen false others) ∧
    ["", "Zone Town 1:00 - TST 1990", "\t# later", "  2:00 - TST"].filter (!Line.isSilent ·) =
      lines.filter (!Line.isSilent ·) ∧
    (Database.readLines {} false
      ["", "Zone Town 1:00 - TST 1990", "\t# later", "  2:00 - TST"]).Alike
      (Database.readLines {} false lines) := by
  have hflush : ∀ line,
      ["  # Another name", "Link Town City"].find? (!Line.isSilent ·) = some line →
        Line.isIndented line.toList = false := by
    intro line hline
    cases hline
    decide
  have hsame : ["", "Zone Town 1:00 - TST 1990", "\t# later", "  2:00 - TST"].filter
      (!Line.isSilent ·) =
        ["Zone Town 1:00 - TST 1990", "  2:00 - TST"].filter (!Line.isSilent ·) := by
    decide
  exact ⟨hflush, (readLines_spliced {} false).1 _ _ hflush, hsame,
    (readLines_spliced {} false).2 _ _ hsame⟩

end Database

end CivilTime.Source
