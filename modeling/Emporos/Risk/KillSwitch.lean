import Emporos.Core.Text
import Emporos.Risk.Snapshot
/-!
# The kill switch

A halt is kept in two places, a file and a document, written and read
independently of each other. A reading combines what both say. Who set the
halt decides whether exits may pass: the document keeps the setter, and
the file ends in a line that names it.

How a moment is written in that line is a parameter, `isoformat`.
-/

namespace Emporos

def tripwireSetter : String := "tripwire"

/-- A halt set by one of these lets exits through. -/
def exitPermittingSetters : List String := [tripwireSetter]

/-- What one place says. -/
structure SourceReading where
  halted : Bool
  reason : String := ""
  exitsPermitted : Bool := false

structure KillSwitchRecord where
  halted : Bool
  reason : String
  setBy : Option String
  changedAt : Option Timestamp

/-! ## The file -/

namespace FileSentinelKillSwitch

/-- The setter a line names, where it is one the switch writes:
`set by (\S+) at `. -/
def setterOf (line : List Char) : Option String :=
  (Text.afterPrefix "set by ".toList line).bind fun rest =>
    let name := rest.takeWhile fun c => !Text.isSpace c
    if name ≠ [] ∧ " at ".toList.isPrefixOf (rest.drop name.length) then some (String.ofList name)
    else none

/-- The setters named in a text, first to last. -/
def setters (text : List Char) : List String := (Text.lines text).filterMap setterOf

/-- Halted while the file exists. Its text is the reason, and its last
line that names a setter says who set it. -/
def read : Option String → SourceReading
  | none => ⟨false, "", false⟩
  | some content =>
      let reason := Text.strip (Text.universalNewlines content.toList)
      ⟨true, String.ofList reason, match (setters reason).getLast? with
        | none => false
        | some setter => setter ∈ exitPermittingSetters⟩

variable (isoformat : Timestamp → String)

/-- What an engagement writes. -/
def content (reason setBy : String) (time : Timestamp) : String :=
  reason ++ "\nset by " ++ setBy ++ " at " ++ isoformat time ++ "\n"

variable {isoformat}

/-- A name that is one word. -/
def IsWord (name : List Char) : Prop := name ≠ [] ∧ ∀ c ∈ name, Text.isSpace c = false

theorem setterOf_footer {name stamp : List Char} (hname : IsWord name) :
    setterOf ("set by ".toList ++ name ++ " at ".toList ++ stamp) = some (String.ofList name) := by
  have hword : (name ++ (" at ".toList ++ stamp)).takeWhile (fun c => !Text.isSpace c) = name := by
    rw [List.takeWhile_append_of_pos fun c hc => by simp [hname.2 c hc]]
    simp [Text.isSpace]
  unfold setterOf Text.afterPrefix
  rw [if_pos (by simp)]
  simp only [List.append_assoc, Option.bind_some, List.drop_left, hword]
  rw [if_pos ⟨hname.1, by simp⟩]

theorem IsWord.not_mem {name : List Char} {c : Char} (hname : IsWord name)
    (hc : Text.isSpace c = true) : c ∉ name := fun hmem => by
  rw [hname.2 c hmem] at hc
  cases hc

theorem IsWord.no_lineFeed {name : List Char} (hname : IsWord name) : '\n' ∉ name :=
  hname.not_mem Text.isSpace_lineFeed

theorem IsWord.no_carriageReturn {name : List Char} (hname : IsWord name) : '\r' ∉ name :=
  hname.not_mem Text.isSpace_carriageReturn

@[simp] theorem setters_nil : setters [] = [] := rfl

theorem setters_append (a b : List Char) : setters (a ++ '\n' :: b) = setters a ++ setters b := by
  simp [setters, Text.lines_append]

/-- What ends in a blank starts a text exactly when it starts the part of it
before a word. -/
theorem prefix_append_word {start text word : List Char} (hstart : ' ' ∈ start.getLast?)
    (hword : ' ' ∉ word) : start <+: text ++ word ↔ start <+: text := by
  refine ⟨fun ⟨rest, hrest⟩ => ?_, fun h => h.trans (List.prefix_append _ _)⟩
  rcases List.append_eq_append_iff.mp hrest with ⟨middle, htext, -⟩ | ⟨middle, rfl, hmiddle⟩
  · exact ⟨middle, htext.symm⟩
  · -- the blank would stand in the word
    cases middle with
    | nil => simp
    | cons c middle =>
        rw [List.getLast?_append_of_ne_nil _ (by simp)] at hstart
        exact absurd (hmiddle ▸ List.mem_append_left _ (List.mem_of_getLast? hstart)) hword

/-- A word behind a line does not change whom the line names. -/
theorem setterOf_append_word (line : List Char) {word : List Char} (hword : IsWord word) :
    setterOf (line ++ word) = setterOf line := by
  have hblank : ' ' ∉ word := hword.not_mem (by decide)
  have hiff (start text : List Char) (h : ' ' ∈ start.getLast?) :
      start.isPrefixOf (text ++ word) = start.isPrefixOf text := by
    rw [Bool.eq_iff_iff, List.isPrefixOf_iff_prefix, List.isPrefixOf_iff_prefix]
    exact prefix_append_word h hblank
  unfold setterOf Text.afterPrefix
  rw [hiff _ _ (by decide)]
  by_cases hstart : "set by ".toList.isPrefixOf line
  · obtain ⟨rest, rfl⟩ := List.isPrefixOf_iff_prefix.mp hstart
    simp only [if_pos hstart, List.append_assoc, List.drop_left, Option.bind_some]
    by_cases hall : ∀ c ∈ rest, Text.isSpace c = false
    · -- no blank at all: neither names anyone
      have hrest : rest.takeWhile (fun c => !Text.isSpace c) = rest :=
        List.takeWhile_eq_self_iff.mpr fun c hc => by simp [hall c hc]
      have hboth : (rest ++ word).takeWhile (fun c => !Text.isSpace c) = rest ++ word := by
        refine List.takeWhile_eq_self_iff.mpr fun c hc => ?_
        rcases List.mem_append.mp hc with hc | hc
        · simp [hall c hc]
        · simp [hword.2 c hc]
      rw [hrest, hboth]
      simp
    · -- the name ends within the line
      have htake : (rest ++ word).takeWhile (fun c => !Text.isSpace c)
          = rest.takeWhile fun c => !Text.isSpace c := by
        rw [List.takeWhile_append, if_neg]
        intro hlength
        refine hall fun c hc => ?_
        have heq := (List.takeWhile_prefix (fun c => !Text.isSpace c)).eq_of_length hlength
        simpa using List.takeWhile_eq_self_iff.mp heq c hc
      rw [htake, List.drop_append_of_le_length (List.takeWhile_prefix _).length_le,
        hiff _ _ (by decide)]
  · rw [if_neg hstart, if_neg hstart]

theorem setters_append_word (text : List Char) {word : List Char} (hword : IsWord word) :
    setters (text ++ word) = setters text := by
  obtain ⟨before, last, htext, hboth⟩ :=
    Text.lines_append_line text hword.no_lineFeed
  simp [setters, htext, hboth, List.filterMap_append, List.filterMap_cons,
    setterOf_append_word last hword]

/-- What an engagement signs with, before the time. -/
def signature (setBy : String) : List Char := "set by ".toList ++ setBy.toList ++ " at ".toList

/-- **Who signs a file that was written.** The reason's own lines, without
the white space it starts with, come first, and then the signature's. -/
theorem setters_content {reason setBy : String} {time : Timestamp}
    (htime : IsWord (isoformat time).toList) :
    setters (Text.strip (Text.universalNewlines (content isoformat reason setBy time).toList))
      = setters ((Text.universalNewlines reason.toList).dropWhile Text.isSpace) ++
        setters (Text.universalNewlines (signature setBy)) := by
  obtain ⟨stamp, last, hstamp⟩ := (List.eq_nil_or_concat (isoformat time).toList).resolve_left htime.1
  have hcontent : (content isoformat reason setBy time).toList
      = reason.toList ++ '\n' :: (signature setBy ++ ((isoformat time).toList ++ ['\n'])) := by
    unfold signature
    simp [content]
  have hsigned : Text.universalNewlines (signature setBy ++ ((isoformat time).toList ++ ['\n']))
      = Text.universalNewlines (signature setBy) ++ ((isoformat time).toList ++ ['\n']) := by
    refine Text.universalNewlines_append_line (by simp [htime.no_carriageReturn]) ?_
    intro h
    rw [List.head?_append_of_ne_nil _ htime.1] at h
    exact htime.no_lineFeed (List.mem_of_head? h)
  have hfirst : Text.universalNewlines (signature setBy)
      = 's' :: Text.universalNewlines ("et by ".toList ++ setBy.toList ++ " at ".toList) := by
    unfold signature
    simp [Text.universalNewlines]
  obtain ⟨a, ha, hreason⟩ := Text.universalNewlines_append reason.toList
    (signature setBy ++ ((isoformat time).toList ++ ['\n']))
  have hstrip : Text.strip (Text.universalNewlines (content isoformat reason setBy time).toList)
      = (a ++ ['\n']).dropWhile Text.isSpace ++
        (Text.universalNewlines (signature setBy) ++ (isoformat time).toList) := by
    have hfoot := Text.strip_footer a
      (Text.universalNewlines ("et by ".toList ++ setBy.toList ++ " at ".toList) ++ stamp)
      (by decide : Text.isSpace 's' = false) (htime.2 last (by simp [hstamp]))
    rw [hcontent, ha, hsigned, hfirst, hstamp]
    simpa using hfoot
  have hbefore : ∀ footer, setters ((a ++ ['\n']).dropWhile Text.isSpace ++ footer)
      = setters ((Text.universalNewlines reason.toList).dropWhile Text.isSpace) ++
        setters footer := by
    intro footer
    have hdrop : setters ((a ++ ['\n']).dropWhile Text.isSpace ++ footer)
        = setters (a.dropWhile Text.isSpace) ++ setters footer := by
      rw [List.dropWhile_append]
      split_ifs with hempty
      · simp [List.isEmpty_iff.mp hempty]
      · rw [List.append_assoc, List.singleton_append, setters_append]
    rcases hreason with hreason | hreason
    · rw [hdrop, hreason]
    · -- the reason ends in a carriage return, which the line feed swallows
      have hline := setters_append (a.dropWhile Text.isSpace) []
      rw [hdrop, hreason, List.dropWhile_append]
      split_ifs with hempty
      · simp [List.isEmpty_iff.mp hempty]
      · rw [hline]
        simp
  rw [hstrip, hbefore, setters_append_word _ htime]

/-- One word signs as itself. -/
theorem setters_signature {setBy : String} (hset : IsWord setBy.toList) :
    setters (Text.universalNewlines (signature setBy)) = [setBy] := by
  have hr : '\r' ∉ signature setBy := by
    unfold signature
    simp [hset.no_carriageReturn]
  have hn : '\n' ∉ signature setBy := by
    unfold signature
    simp [hset.no_lineFeed]
  have hname : setterOf (signature setBy) = some setBy := by
    unfold signature
    simpa using @setterOf_footer setBy.toList [] hset
  simp [setters, Text.universalNewlines_eq_self hr, Text.lines_eq_self hn, hname]

/-- **The file names the setter who wrote it.** A reason cannot forge the
last line, if the setter and the time are words. -/
theorem exitsPermitted_content {reason setBy : String} {time : Timestamp}
    (hset : IsWord setBy.toList) (htime : IsWord (isoformat time).toList) :
    (read (some (content isoformat reason setBy time))).exitsPermitted
      = decide (setBy ∈ exitPermittingSetters) := by
  simp [read, setters_content htime, setters_signature hset]

end FileSentinelKillSwitch

/-! ## The document -/

namespace MongoKillSwitch

/-- A missing document means never halted. -/
def read : Option KillSwitchRecord → SourceReading
  | none => ⟨false, "", false⟩
  | some record =>
      if record.halted then
        ⟨true, record.reason, match record.setBy with
          | none => false
          | some setter => setter ∈ exitPermittingSetters⟩
      else ⟨false, "", false⟩

def record (halted : Bool) (reason setBy : String) (time : Timestamp) : KillSwitchRecord :=
  ⟨halted, reason, some setBy, some time⟩

end MongoKillSwitch

/-! ## Readings -/

namespace KillSwitchMonitor

/-- The places that answered that they are halted. -/
def halted (results : List (String × Except PyError SourceReading)) :
    List (String × SourceReading) :=
  results.filterMap fun (name, r) => match r with
    | .ok reading => if reading.halted then some (name, reading) else none
    | .error _ => none

/-- The places that could not be read. -/
def failed (results : List (String × Except PyError SourceReading)) : List String :=
  results.filterMap fun (name, r) => match r with
    | .ok _ => none
    | .error _ => some name

/-- `_combine`: halted if any place says so, and unknown if none does and
one could not be read. -/
def combine (results : List (String × Except PyError SourceReading)) : KillSwitchReading :=
  if halted results ≠ [] then
    { halted := true
      known := true
      source := ",".intercalate ((halted results).map (·.1))
      reason := "; ".intercalate (((halted results).map (·.2.reason)).filter (· ≠ ""))
      exitsPermitted := (halted results).all (·.2.exitsPermitted) }
  else if failed results ≠ [] then
    { halted := true
      known := false
      source := ",".intercalate (failed results)
      reason := "could not read: " ++ ",".intercalate (failed results) }
  else { halted := false, known := true, source := "all" }

end KillSwitchMonitor

/-- What the two places hold. -/
structure KillSwitch where
  file : Option String
  mongo : Option KillSwitchRecord

namespace KillSwitch

/-- What the places say, where reading may fail. -/
def results (k : KillSwitch) (fileError mongoError : Option PyError) :
    List (String × Except PyError SourceReading) :=
  [("file", match fileError with
      | none => .ok (FileSentinelKillSwitch.read k.file)
      | some e => .error e),
   ("mongo", match mongoError with
      | none => .ok (MongoKillSwitch.read k.mongo)
      | some e => .error e)]

/-- The combined reading of the switch. -/
def reading (k : KillSwitch) (fileError mongoError : Option PyError) : KillSwitchReading :=
  KillSwitchMonitor.combine (k.results fileError mongoError)

end KillSwitch

/-! ## Writes -/

inductive SwitchCall
  | engage (reason setBy : String) (time : Timestamp)
  | release (setBy : String) (time : Timestamp)

/-- A call, and which of its two writes lands. A write that times out may
have landed. -/
structure SwitchStep where
  call : SwitchCall
  fileLands : Bool
  mongoLands : Bool

namespace KillSwitchControl

variable (isoformat : Timestamp → String)

/-- `engage` and `release`: write every place, each on its own. A halt
without a reason is refused. -/
def apply (k : KillSwitch) (step : SwitchStep) : KillSwitch :=
  match step.call with
  | .engage reason setBy time =>
      if Text.isMeaningful reason then
        { file := if step.fileLands then
              some (FileSentinelKillSwitch.content isoformat reason setBy time) else k.file
          mongo := if step.mongoLands then
              some (MongoKillSwitch.record true reason setBy time) else k.mongo }
      else k
  | .release setBy time =>
      { file := if step.fileLands then none else k.file
        mongo := if step.mongoLands then
            some (MongoKillSwitch.record false "" setBy time) else k.mongo }

end KillSwitchControl

end Emporos
