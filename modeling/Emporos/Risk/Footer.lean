import Emporos.Core.Calendar
import Emporos.Risk.KillSwitch
import Mathlib.Tactic.IntervalCases
/-!
# The footer of the halt file

A halt file keeps a free text and a signature behind it, and a reader
tells them apart by a pattern. The pattern knows only setters that are one
word (`setterOf`), and the control accepts any: a file signed by another is
read as signed by whatever line of the reason, or of the setter itself,
looks like a signature last. `Forged` is the condition under which that
line lets exits through.
-/

namespace Emporos

namespace FileSentinelKillSwitch

/-! ## A moment is a word -/

theorem isSpace_digit {c : Char} (hc : c.isDigit) : Text.isSpace c = false := by
  obtain ⟨hlow, hhigh⟩ := Char.isDigit_iff_toNat.mp hc
  have hlow : 48 ≤ c.toNat := hlow
  have hhigh : c.toNat ≤ 57 := hhigh
  rw [← Char.ofNat_toNat c]
  interval_cases c.toNat <;> decide

theorem isSpace_of_mem_digits {width : ℕ} {n : ℤ} {c : Char}
    (hc : c ∈ Timestamp.digits width n) : Text.isSpace c = false := by
  unfold Timestamp.digits List.leftpad at hc
  rcases List.mem_append.mp hc with hc | hc
  · rw [(List.mem_replicate.mp hc).2]
    decide
  · exact isSpace_digit (Nat.isDigit_of_mem_toDigits (by decide) (by decide) hc)

/-- A moment is written without white space. -/
theorem isWord_isoformat (t : Timestamp) : IsWord t.isoformat.toList := by
  have hdigits {width : ℕ} {n : ℤ} : ∀ c ∈ Timestamp.digits width n, Text.isSpace c = false :=
    fun c hc => isSpace_of_mem_digits hc
  have hzone : ∀ c ∈ "+00:00".toList, Text.isSpace c = false := by simp [Text.isSpace]
  have hfraction : ∀ c ∈ (if t % Timestamp.second = 0 then [] else '.' :: Timestamp.digits 6 (t % Timestamp.second)),
      Text.isSpace c = false := by
    split_ifs
    · simp
    · exact List.forall_mem_cons.mpr ⟨by decide, hdigits⟩
  unfold Timestamp.isoformat
  rw [String.toList_ofList]
  refine ⟨by simp, ?_⟩
  simp only [List.forall_mem_append, List.forall_mem_cons]
  exact ⟨⟨⟨⟨⟨⟨⟨hdigits, by decide, hdigits⟩, by decide, hdigits⟩, by decide, hdigits⟩, by decide,
    hdigits⟩, by decide, hdigits⟩, hfraction⟩, hzone⟩

/-! ## Who forges -/

/-- The lines that come before the time in a file, without the white space
it starts with. -/
def signedLines (reason setBy : String) : List (List Char) :=
  Text.lines ((Text.universalNewlines reason.toList).dropWhile Text.isSpace) ++
    Text.lines (Text.universalNewlines (signature setBy))

/-- A signature the pattern does not know, behind a line that names a
setter who lets exits through and is the last to name one. -/
def Forged (reason setBy : String) : Prop :=
  ¬ IsWord setBy.toList ∧ ∃ before line after setter,
    signedLines reason setBy = before ++ line :: after ∧ setterOf line = some setter ∧
      setter ∈ exitPermittingSetters ∧ ∀ l ∈ after, setterOf l = none

theorem last_filterMap {α β : Type} {f : α → Option β} {xs : List α} {b : β} :
    (xs.filterMap f).getLast? = some b ↔
      ∃ before x after, xs = before ++ x :: after ∧ f x = some b ∧ ∀ y ∈ after, f y = none := by
  rw [List.getLast?_filterMap, List.findSome?_eq_some_iff]
  constructor
  · rintro ⟨after, x, before, hxs, hx, hafter⟩
    refine ⟨before.reverse, x, after.reverse, ?_, hx, by simpa using hafter⟩
    rw [← List.reverse_reverse xs, hxs]
    simp
  · rintro ⟨before, x, after, rfl, hx, hafter⟩
    exact ⟨after.reverse, x, before.reverse, by simp, hx, by simpa using hafter⟩

variable {reason setBy : String} {time : Timestamp}

/-- **Whom a file names.** The exits pass exactly when the last of its
signed lines that names a setter names one who lets them. -/
theorem exitsPermitted_content_iff :
    (read (some (content Timestamp.isoformat reason setBy time))).exitsPermitted ↔
      ∃ before line after setter, signedLines reason setBy = before ++ line :: after ∧
        setterOf line = some setter ∧ setter ∈ exitPermittingSetters ∧
        ∀ l ∈ after, setterOf l = none := by
  have hsetters : setters (Text.strip (Text.universalNewlines
      (content Timestamp.isoformat reason setBy time).toList))
        = (signedLines reason setBy).filterMap setterOf := by
    rw [setters_content (isWord_isoformat time), signedLines, List.filterMap_append]
    rfl
  simp only [read, hsetters]
  constructor
  · intro hread
    split at hread
    · cases hread
    · rename_i setter hlast
      obtain ⟨before, line, after, hlines, hline, hafter⟩ := last_filterMap.1 hlast
      exact ⟨before, line, after, setter, hlines, hline, of_decide_eq_true hread, hafter⟩
  · rintro ⟨before, line, after, setter, hlines, hline, hmem, hafter⟩
    rw [last_filterMap.2 ⟨before, line, after, hlines, hline, hafter⟩]
    exact decide_eq_true hmem

/-- **A file names its setter unless the signature is forged.** -/
theorem exitsPermitted_content_iff_mem :
    ((read (some (content Timestamp.isoformat reason setBy time))).exitsPermitted ↔
      setBy ∈ exitPermittingSetters) ↔ ¬ Forged reason setBy := by
  by_cases hset : IsWord setBy.toList
  · rw [exitsPermitted_content hset (isWord_isoformat time), decide_eq_true_iff]
    simp [Forged, hset]
  · have hmem : setBy ∉ exitPermittingSetters := by
      rintro hmem
      rw [exitPermittingSetters, List.mem_singleton] at hmem
      exact hset (by simp [hmem, tripwireSetter, IsWord, Text.isSpace])
    rw [exitsPermitted_content_iff, Forged]
    simp only [hset, hmem, iff_false, not_false_eq_true, true_and]

end FileSentinelKillSwitch

namespace KillSwitch

/-- Both places are halted, and say of the exits what the setter says. -/
def Agrees (k : KillSwitch) (setBy : String) : Prop :=
  (FileSentinelKillSwitch.read k.file).halted ∧
    ((FileSentinelKillSwitch.read k.file).exitsPermitted ↔ setBy ∈ exitPermittingSetters) ∧
    (FileSentinelKillSwitch.read k.file).exitsPermitted
      = (MongoKillSwitch.read k.mongo).exitsPermitted

variable {k : KillSwitch} {reason setBy : String} {time : Timestamp}

/-- **When a halt's footer stands.** For every reason, setter and moment:
after an engagement that lands in both places, the file reads halted, lets
exits through for the setters that do and for no other, and agrees with
the document, exactly when its signature is not forged. -/
theorem engage_agrees_iff (hreason : Text.isMeaningful reason) :
    (KillSwitchControl.apply Timestamp.isoformat k
      ⟨.engage reason setBy time, true, true⟩).Agrees setBy ↔
        ¬ FileSentinelKillSwitch.Forged reason setBy := by
  have hmongo : (MongoKillSwitch.read (some (MongoKillSwitch.record true reason setBy
      time))).exitsPermitted = decide (setBy ∈ exitPermittingSetters) := rfl
  rw [← @FileSentinelKillSwitch.exitsPermitted_content_iff_mem _ _ time]
  simp only [KillSwitchControl.apply, hreason, if_true, Agrees, hmongo]
  constructor
  · rintro ⟨-, hfile, -⟩
    exact hfile
  · intro hfile
    refine ⟨rfl, hfile, ?_⟩
    rw [Bool.eq_iff_iff, hfile, decide_eq_true_iff]

/-- A reason of one line, and a setter of two words. -/
theorem engage_agrees_sample :
    Text.isMeaningful "feed dropped" ∧
      ((KillSwitchControl.apply Timestamp.isoformat ⟨none, none⟩
        ⟨.engage "feed dropped" "ops desk" 0, true, true⟩).Agrees "ops desk" ↔
          ¬ FileSentinelKillSwitch.Forged "feed dropped" "ops desk") :=
  ⟨by decide, engage_agrees_iff (by decide)⟩

/-- A reason that quotes a tripwire's footer is read as signed by it. -/
theorem engage_not_agrees :
    ¬ ∀ (k : KillSwitch) (reason setBy : String) (time : Timestamp), Text.isMeaningful reason →
      (KillSwitchControl.apply Timestamp.isoformat k
        ⟨.engage reason setBy time, true, true⟩).Agrees setBy := fun h => by
  obtain ⟨-, hfile, -⟩ := h ⟨none, none⟩ "feed dropped\nset by tripwire at noon" "ops desk" 0
    (by decide)
  have hread : (FileSentinelKillSwitch.read (some (FileSentinelKillSwitch.content
      Timestamp.isoformat "feed dropped\nset by tripwire at noon" "ops desk" 0))).exitsPermitted := by
    decide
  exact absurd (hfile.mp hread) (by decide)

end KillSwitch

end Emporos
