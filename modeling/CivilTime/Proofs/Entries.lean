import CivilTime.Proofs.Path
import CivilTime.Proofs.Splicing

/-!
The lines of a file as entries. What a line says can be told from the line alone, except that a
continuation line needs a zone that it continues. So a file is a list of entries, of which those up
to the first fault are read, and what one line does to a reading is one of six things (`Step`).
-/

namespace CivilTime

namespace Text

theorem words_eq_nil_iff (cs : List Char) : words cs = [] ↔ ∀ c ∈ cs, isBlank c = true := by
  have hpieces : ((pieces isBlank cs).filter fun piece => !piece.isEmpty) = [] ↔
      ∀ c ∈ cs, isBlank c = true := by
    induction cs with
    | nil => simp [pieces]
    | cons c cs ih =>
      rw [pieces_cons]
      cases hc : isBlank c with
      | true => simpa [hc] using ih
      | false => cases pieces isBlank cs <;> simp [consToFirst, hc]
  rw [words, List.map_eq_nil_iff, hpieces]

theorem ne_empty_of_mem_words {cs : List Char} {word : String} (h : word ∈ words cs) :
    word ≠ "" := by
  rw [words, List.mem_map] at h
  obtain ⟨piece, hpiece, rfl⟩ := h
  have hsome : piece ≠ [] := by simpa using (List.mem_filter.mp hpiece).2
  rintro hempty
  exact hsome (String.ofList_eq_empty_iff.mp hempty)

end Text

namespace Source

/-- Every line is blank or has a word. -/
theorem Line.read_ne_wordless (text : String) : read text ≠ .wordless := by
  rw [read_eq]
  cases hsilent : isSilent text with
  | true => simp
  | false =>
    have hwords : Text.words (content text.toList) ≠ [] := by
      rw [ne_eq, Text.words_eq_nil_iff, ← List.all_eq_true]
      simpa [isSilent] using hsilent
    obtain ⟨keyword, fields, hfields⟩ := List.exists_cons_of_ne_nil hwords
    rw [hfields]
    simp only [Bool.false_eq_true, if_false]
    split <;> simp

inductive Record where
  | rule (rule : Rule)
  | zone (zone : Zone)
  | link (link : Link)
  | unknown

def Record.read (keyword : String) (fields : List String) : Except Fault Record :=
  let word := Text.lower keyword
  if Keyword.rule.accepts word then (Rule.read fields).map fun result => .rule result.1
  else if Keyword.zone.accepts word then
    if fields.length < 4 then .error .incompleteZone else (Zone.read fields).map .zone
  else if Keyword.link.accepts word then
    match fields with
    | target :: name :: _ => .ok (.link ⟨target, name⟩)
    | _ => .error .incompleteLink
  else .ok .unknown

namespace Database

def insertRule (database : Database) (rule : Rule) : Database :=
  match database.ruleSet? rule.name with
  | none => { database with ruleSets := database.ruleSets ++ [⟨rule, []⟩] }
  | some found => { database with
      ruleSets := database.ruleSets.map fun set =>
        if set.name = rule.name then { found with others := found.others ++ [rule] } else set }

/-- A rule can always be added: the set that it is added to has been found by its name. -/
theorem addRule_eq (database : Database) (rule : Rule) :
    database.addRule rule = .ok (database.insertRule rule) := by
  unfold addRule insertRule
  cases hset : database.ruleSet? rule.name with
  | none => rfl
  | some set =>
    have hname : set.name = rule.name := by simpa using List.find?_some hset
    have hadd : set.add rule = .ok { set with others := set.others ++ [rule] } := by
      rw [RuleSet.add, if_pos hname.symm]
    simp only [hadd]
    rfl

def addRecord (database : Database) (backward : Bool) (text : String) : Record → Effect
  | .rule rule => { database := database.insertRule rule }
  | .zone zone => { database, openZone := some zone }
  | .link link => { database := database.addLink backward link }
  | .unknown => {
      database := { database with unknownLines := database.unknownLines + 1 }
      messages := [.warning ("Unknown line: " ++ Line.trimmed text)] }

theorem readRecord_eq (database : Database) (backward : Bool) (text keyword : String)
    (fields : List String) :
    database.readRecord backward text keyword fields =
      (Record.read keyword fields).map (database.addRecord backward text) := by
  unfold readRecord Record.read
  dsimp only
  cases Keyword.rule.accepts (Text.lower keyword) with
  | true =>
    cases Rule.read fields with
    | error fault => rfl
    | ok result =>
      change (database.addRule result.1 >>= _) = _
      rw [addRule_eq]
      rfl
  | false =>
    cases Keyword.zone.accepts (Text.lower keyword) with
    | true =>
      by_cases hfew : fields.length < 4
      · simp only [hfew, if_true]
        rfl
      · simp only [hfew, if_false]
        cases Zone.read fields with
        | error fault => rfl
        | ok zone => rfl
    | false =>
      cases Keyword.link.accepts (Text.lower keyword) with
      | true =>
        cases fields with
        | nil => rfl
        | cons target rest =>
          cases rest with
          | nil => rfl
          | cons name rest => rfl
      | false => rfl

end Database

inductive Entry where
  | nothing
  | continuation (stretch : Except Fault Stretch)
  | record (record : Except Fault Record)

def Line.entry (text : String) : Entry :=
  match read text with
  | .blank | .wordless => .nothing
  | .continuation fields => .continuation ((Stretch.read fields).map Prod.fst)
  | .record keyword fields => .record (Record.read keyword fields)

namespace Entry

def isContinuation : Entry → Bool
  | .continuation _ => true
  | .nothing | .record _ => false

/-- The fault of a line. A continuation line is not looked at if no zone is open. -/
def fault? (isOpen : Bool) : Entry → Option Fault
  | .continuation (.error fault) => if isOpen then some fault else none
  | .record (.error fault) => some fault
  | .nothing | .continuation (.ok _) | .record (.ok _) => none

def leavesOpen (isOpen : Bool) : Entry → Bool
  | .nothing | .continuation _ => isOpen
  | .record (.ok (.zone _)) => true
  | .record _ => false

/-- The entries up to the first fault, which is one of them. -/
def upToFault : Bool → List Entry → List Entry
  | _, [] => []
  | isOpen, entry :: rest =>
    entry :: if (entry.fault? isOpen).isSome then [] else upToFault (entry.leavesOpen isOpen) rest

end Entry

namespace Reading

/-- Everything that a line can do to a reading that no fault has ended. -/
inductive Step (backward : Bool) (text : String) (reading : Reading) : Reading → Prop where
  | nothing (hentry : Line.entry text = .nothing) :
    Step backward text reading { reading with lineCount := reading.lineCount + 1 }
  /-- A continuation line without a zone is left out. -/
  | stray (stretch : Except Fault Stretch) (hentry : Line.entry text = .continuation stretch)
      (hopen : reading.openZone = none) :
    Step backward text reading
      { reading with
        lineCount := reading.lineCount + 1
        messages := reading.messages ++
          [.debug ("Continuation without a Zone: " ++ Line.trimmed text)] }
  | continued (zone : Zone) (stretch : Stretch)
      (hentry : Line.entry text = .continuation (.ok stretch))
      (hopen : reading.openZone = some zone) :
    Step backward text reading
      { reading with
        lineCount := reading.lineCount + 1
        openZone := some { zone with others := zone.others ++ [stretch] } }
  /-- A faulty continuation line takes its zone with it. -/
  | broken (zone : Zone) (fault : Fault)
      (hentry : Line.entry text = .continuation (.error fault))
      (hopen : reading.openZone = some zone) :
    Step backward text reading
      { reading with
        lineCount := reading.lineCount + 1
        openZone := none
        messages := reading.messages ++
          if fault.isReported then [report text (reading.lineCount + 1)] else []
        fault := some fault }
  | record (record : Record) (hentry : Line.entry text = .record (.ok record)) :
    Step backward text reading
      (let effect := (reading.database.close reading.openZone).addRecord backward text record
      { reading with
        lineCount := reading.lineCount + 1
        database := effect.database
        openZone := effect.openZone
        messages := reading.messages ++ effect.messages })
  /-- A faulty record leaves the open zone, which it has closed. -/
  | faulty (fault : Fault) (hentry : Line.entry text = .record (.error fault)) :
    Step backward text reading
      { reading with
        lineCount := reading.lineCount + 1
        database := reading.database.close reading.openZone
        openZone := none
        messages := reading.messages ++
          if fault.isReported then [report text (reading.lineCount + 1)] else []
        fault := some fault }

theorem readLine_step (backward : Bool) (reading : Reading) (text : String)
    (h : reading.fault = none) : Step backward text reading (reading.readLine backward text) := by
  rw [readLine_eq backward reading text h]
  have hwords := Line.read_ne_wordless text
  cases hread : Line.read text with
  | blank =>
    apply Step.nothing
    rw [Line.entry, hread]
  | wordless => exact absurd hread hwords
  | continuation fields =>
    have hentry : Line.entry text = .continuation ((Stretch.read fields).map Prod.fst) := by
      rw [Line.entry, hread]
    obtain ⟨database, openZone, lineCount, messages, fault⟩ := reading
    cases openZone with
    | none => exact Step.stray _ hentry rfl
    | some zone =>
      simp only [Database.readContinuation, Zone.continueWith]
      cases hstretch : Stretch.read fields with
      | ok result =>
        rw [hstretch] at hentry
        simp only [bind, Except.bind, pure, Except.pure, proceed, List.append_nil]
        exact Step.continued zone result.1 hentry rfl
      | error fault =>
        rw [hstretch] at hentry
        exact Step.broken zone fault hentry rfl
  | record keyword fields =>
    have hentry : Line.entry text = .record (Record.read keyword fields) := by
      rw [Line.entry, hread]
    simp only [Database.readRecord_eq]
    cases hrecord : Record.read keyword fields with
    | ok record =>
      rw [hrecord] at hentry
      exact Step.record record hentry
    | error fault =>
      rw [hrecord] at hentry
      exact Step.faulty fault hentry

namespace Step

variable {backward : Bool} {text : String} {reading next : Reading}

theorem lineCount_eq (h : Step backward text reading next) :
    next.lineCount = reading.lineCount + 1 := by
  cases h <;> rfl

/-- A line is faulty by what it says, and by whether a zone is open. -/
theorem fault_eq (h : Step backward text reading next) (hfault : reading.fault = none) :
    next.fault = (Line.entry text).fault? reading.openZone.isSome := by
  cases h with
  | nothing hentry => rw [hentry]; exact hfault
  | stray stretch hentry hopen =>
    rw [hentry, hopen]
    cases stretch with
    | ok stretch => exact hfault
    | error fault => exact hfault
  | continued zone stretch hentry hopen => rw [hentry]; exact hfault
  | broken zone fault hentry hopen => rw [hentry, hopen]; rfl
  | record record hentry => rw [hentry]; exact hfault
  | faulty fault hentry => rw [hentry]; rfl

theorem isSome_openZone (h : Step backward text reading next) (hnext : next.fault = none) :
    next.openZone.isSome = (Line.entry text).leavesOpen reading.openZone.isSome := by
  cases h with
  | nothing hentry => rw [hentry]; rfl
  | stray stretch hentry hopen => rw [hentry]; rfl
  | continued zone stretch hentry hopen => rw [hentry, hopen]; rfl
  | broken zone fault hentry hopen => cases hnext
  | record record hentry =>
    rw [hentry]
    cases record <;> rfl
  | faulty fault hentry => cases hnext

/-- A faulty line leaves what was read before it, and closes the open zone if it is no
continuation line. -/
theorem database_of_fault (h : Step backward text reading next) (hfault : reading.fault = none)
    (hnext : next.fault ≠ none) :
    next.openZone = none ∧ next.database =
      if (Line.entry text).isContinuation then reading.database
      else reading.database.close reading.openZone := by
  cases h with
  | nothing hentry => exact absurd hfault hnext
  | stray stretch hentry hopen => exact absurd hfault hnext
  | continued zone stretch hentry hopen => exact absurd hfault hnext
  | broken zone fault hentry hopen => rw [hentry]; exact ⟨rfl, rfl⟩
  | record record hentry => exact absurd hfault hnext
  | faulty fault hentry => rw [hentry]; exact ⟨rfl, rfl⟩

end Step

/-- The lines take one reading to another, step by step. Only the last of them may be faulty. -/
inductive Run (backward : Bool) : Reading → List String → Reading → Prop where
  | done (reading : Reading) : Run backward reading [] reading
  | stop {text : String} {reading next : Reading} (hstep : Step backward text reading next)
      (hnext : next.fault ≠ none) : Run backward reading [text] next
  | line {text : String} {reading next final : Reading} {lines : List String}
      (hstep : Step backward text reading next) (hnext : next.fault = none)
      (hrest : Run backward next lines final) : Run backward reading (text :: lines) final

/-- Of the lines of a file, all are read or those up to the first faulty one. -/
theorem exists_run (backward : Bool) (reading : Reading) (lines : List String)
    (h : reading.fault = none) :
    ∃ read rest, lines = read ++ rest ∧
      Run backward reading read (lines.foldl (readLine backward) reading) ∧
      ((lines.foldl (readLine backward) reading).fault = none → rest = []) := by
  induction lines generalizing reading with
  | nil => exact ⟨[], [], rfl, .done reading, fun _ => rfl⟩
  | cons text lines ih =>
    have hstep := readLine_step backward reading text h
    rw [List.foldl_cons]
    by_cases hnext : (reading.readLine backward text).fault = none
    · obtain ⟨read, rest, rfl, hrun, hrest⟩ := ih (reading.readLine backward text) hnext
      exact ⟨text :: read, rest, rfl, .line hstep hnext hrun, hrest⟩
    · rw [readAll_of_fault backward _ lines (Option.isSome_iff_ne_none.mpr hnext)]
      exact ⟨[text], lines, rfl, .stop hstep hnext, fun hnone => absurd hnone hnext⟩

/-- A fault is that of the first faulty line, and the lines after it are not read. -/
theorem exists_faulty (backward : Bool) (reading : Reading) (lines : List String)
    (h : reading.fault = none) (hfault : (lines.foldl (readLine backward) reading).fault ≠ none) :
    ∃ before text after, lines = before ++ text :: after ∧
      (before.foldl (readLine backward) reading).fault = none ∧
      lines.foldl (readLine backward) reading =
        (before.foldl (readLine backward) reading).readLine backward text := by
  induction lines generalizing reading with
  | nil => exact absurd h hfault
  | cons text lines ih =>
    rw [List.foldl_cons] at hfault
    by_cases hnext : (reading.readLine backward text).fault = none
    · obtain ⟨before, faulty, after, rfl, hbefore, heq⟩ := ih _ hnext hfault
      exact ⟨text :: before, faulty, after, rfl, hbefore, heq⟩
    · rw [List.foldl_cons,
        readAll_of_fault backward _ lines (Option.isSome_iff_ne_none.mpr hnext)]
      exact ⟨[], text, lines, rfl, h, rfl⟩

namespace Run

variable {backward : Bool} {reading final : Reading} {read : List String}

/-- The lines that are read can be told from the entries. -/
theorem upToFault_eq (h : Run backward reading read final) (hfault : reading.fault = none)
    {rest : List String} (hrest : final.fault = none → rest = []) :
    Entry.upToFault reading.openZone.isSome ((read ++ rest).map Line.entry) =
      read.map Line.entry := by
  induction h with
  | done reading =>
    rw [hrest hfault]
    rfl
  | stop hstep hnext =>
    rw [hstep.fault_eq hfault] at hnext
    simp [Entry.upToFault, Option.isSome_iff_ne_none.mpr hnext]
  | line hstep hnext hrun ih =>
    have hopen := hstep.isSome_openZone hnext
    have hentries := ih hnext hrest
    rw [hstep.fault_eq hfault] at hnext
    simp only [List.map_cons, List.cons_append, Entry.upToFault, hnext, ← hopen, hentries]
    simp

end Run

end Reading

namespace Database

/-- The lines of a file read into a database, before the end of the file is known. -/
def reading (database : Database) (backward : Bool) (lines : List String) : Reading :=
  lines.foldl (Reading.readLine backward) { database }

variable (database : Database) (backward : Bool)

theorem readLines_eq (lines : List String) :
    database.readLines backward lines = (database.reading backward lines).finish := rfl

/-- What a faulty line leaves is what is left of its file. -/
theorem reading_of_fault {before : List String} {text : String}
    (h : ((database.reading backward before).readLine backward text).fault ≠ none)
    (after : List String) :
    database.reading backward (before ++ text :: after) =
      (database.reading backward before).readLine backward text := by
  rw [reading, List.foldl_append, List.foldl_cons]
  exact Reading.readAll_of_fault backward _ after (Option.isSome_iff_ne_none.mpr h)

end Database

end Source

end CivilTime
