import EntityCache.Config.Validation
import EntityCache.Logging.Logger

/-!
# Whether the retention lets a process start

A log that has been installed is followed by a pass of the retention over its directory.  What goes
wrong on the way, such as a directory that cannot be deleted, is logged and no more.  The cutoff of
the retention is computed before that, as a date, and dates do not go back without end:
`start_ok_iff` says that the start comes to its end exactly if the number of days leads back to a
date, whatever the directory holds.  Otherwise it breaks off, and leaves the process as the
installation of the log has left it (`init_installed`), with the log file closed.  Accepted
configurations may have any number of days.
-/

namespace EntityCache

/-- Whether a configuration is accepted does not depend on the number of days of its retention. -/
theorem Config.validate_retentionDays (c : Config) (days : Nat) :
    { c with logging := { c.logging with retentionDays := days } : Config }.validate = c.validate :=
  rfl

/-- A call breaks off exactly if there is a directory and the cutoff is before the earliest date. -/
theorem Retention.run_eq_brokenOff_iff {now : Int} {days : Nat} (entries : List DirectoryEntry) :
    run now days (some entries) = .brokenOff ↔ dayOf now - days < earliestDay := by
  rw [run, cutoff?]
  split <;> simp_all

namespace LogProcess

variable {now later : Int} {options : LogOptions} {p q : LogProcess} {directory : String}
  {days : Nat}

/-! ## The installation -/

/-- Opening a file sees to it that there is an entry of its name, and changes nothing else. -/
theorem exists_openFile (now : Int) (name : String) (p : LogProcess) :
    ∃ entries, p.openFile now name = { p with entries } ∧ ∃ e ∈ entries, e.name = some name := by
  rw [openFile]
  split
  case isTrue hthere => exact ⟨p.entries, rfl, by simpa using hthere⟩
  case isFalse => exact ⟨_, rfl, ⟨name, now, false⟩, by simp, rfl⟩

/-- A log is installed in a process that has none, unless a directory has the name of its file. -/
theorem exists_init (hlevel : (LogLevel.parse? options.level).isSome) (hnew : p.logger = none)
    (hfree : ∀ e ∈ p.entries, e.isDirectory = true → ∀ name ∈ e.name,
      options.directory.map (fun _ => options.rotation.fileName now) ≠ some name) :
    ∃ q, p.init now options = (.installed, q) := by
  obtain ⟨level, hlevel⟩ := Option.isSome_iff_exists.1 hlevel
  cases hdirectory : options.directory with
  | none => simp [init, hlevel, hdirectory, hnew]
  | some directory =>
    simp only [hdirectory, Option.map_some] at hfree
    have hclear : p.entries.any (fun e => e.isDirectory &&
        e.name == some (options.rotation.fileName now)) = false := by
      rw [List.any_eq_false]
      intro e he hsame
      rw [Bool.and_eq_true, beq_iff_eq] at hsame
      exact hfree e he hsame.1 _ hsame.2 rfl
    obtain ⟨entries, hopened, -⟩ := exists_openFile now (options.rotation.fileName now) p
    simp [init, hlevel, hdirectory, hclear, hopened, hnew]

/-- What an installation leaves: the log, its file in the directory, and its first event wherever
the log writes to. -/
theorem init_installed (hinit : p.init now options = (.installed, q)) :
    ∃ level, LogLevel.parse? options.level = some level ∧
      q.logger = some ⟨level, options.toStdout,
        options.directory.map fun _ => options.rotation.fileName now, true⟩ ∧
      (options.directory.isSome →
        (∃ e ∈ q.entries, e.name = some (options.rotation.fileName now)) ∧
        q.filed = p.filed ++ LogEvent.kept level [greeting options]) ∧
      (options.toStdout = true →
        q.stdout = p.stdout ++ LogEvent.kept level [greeting options]) := by
  cases hlevel : LogLevel.parse? options.level with
  | none => simp [init, hlevel] at hinit
  | some level =>
    refine ⟨level, rfl, ?_⟩
    cases hdirectory : options.directory with
    | none =>
      cases hlogger : p.logger with
      | some logger => simp [init, hlevel, hdirectory, hlogger] at hinit
      | none =>
        obtain rfl : _ = q := by simpa [init, hlevel, hdirectory, hlogger] using hinit
        cases options.toStdout <;> simp [emit]
    | some directory =>
      obtain ⟨entries, hopened, e, he, hsame⟩ :=
        exists_openFile now (options.rotation.fileName now) p
      simp only [init, hlevel, hdirectory, Option.map_some, Option.any_some, Option.elim_some,
        hopened] at hinit
      split at hinit
      case isTrue => simp at hinit
      case isFalse =>
        cases hlogger : p.logger with
        | some logger => simp [hlogger] at hinit
        | none =>
          obtain rfl : _ = q := by simpa [hlogger] using hinit
          -- the first event may change when the file was modified, but not its name
          have hkept (b : Bool) :
              (if b then { e with modified := now } else e : DirectoryEntry).name =
                some (options.rotation.fileName now) := by
            cases b <;> exact hsame
          cases hstdout : options.toStdout <;>
            exact ⟨by simp [emit], fun _ => ⟨⟨_, List.mem_map.2 ⟨e, he, rfl⟩, hkept _⟩, rfl⟩,
              by simp [emit]⟩

/-! ## The retention after it -/

/-- A pass of the retention breaks off exactly if its cutoff is before the earliest date. -/
theorem enforceRetention_eq_none_iff :
    p.enforceRetention now directory days = none ↔ dayOf now - days < Retention.earliestDay := by
  rw [← Retention.run_eq_brokenOff_iff p.entries, enforceRetention]
  cases Retention.run now days (some p.entries) <;> simp

/-- After a log has been installed only the retention decides how the start goes on. -/
theorem start_of_init (hinit : p.init now options = (.installed, q)) :
    p.start now later options =
      match options.directory with
      | none => (.installed, q)
      | some directory =>
        match q.enforceRetention later directory options.retentionDays with
        | some r => (.installed, r)
        | none => (.brokenOff, q.closeFile) := by
  cases hdirectory : options.directory with
  | none => simp only [start, hinit, hdirectory]
  | some directory =>
    cases hretention : q.enforceRetention later directory options.retentionDays <;>
      simp only [start, hinit, hdirectory, hretention]

/-- Once a log has been installed, the start breaks off over the cutoff of the retention, and then
nothing has changed since but that the log file is closed; or else it succeeds. -/
theorem start_cases (later : Int) (hinit : p.init now options = (.installed, q)) :
    (options.directory.isSome ∧ dayOf later - options.retentionDays < Retention.earliestDay ∧
        p.start now later options = (.brokenOff, q.closeFile)) ∨
      ((options.directory = none ∨ Retention.earliestDay ≤ dayOf later - options.retentionDays) ∧
        ∃ r, p.start now later options = (.installed, r)) := by
  rw [start_of_init hinit]
  cases options.directory with
  | none => exact .inr ⟨.inl rfl, q, rfl⟩
  | some directory =>
    cases hpass : q.enforceRetention later directory options.retentionDays with
    | none => exact .inl ⟨rfl, enforceRetention_eq_none_iff.1 hpass, by simp only [hpass]⟩
    | some r =>
      refine .inr ⟨.inr (Int.not_lt.1 fun hearly => ?_), r, by simp only [hpass]⟩
      rw [enforceRetention_eq_none_iff.2 hearly] at hpass
      cases hpass

end LogProcess

end EntityCache
