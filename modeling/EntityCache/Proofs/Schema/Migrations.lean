import EntityCache.Schema.Migration
import Mathlib.Data.List.Basic

/-!
# What a run of migrations leaves

A statement can do anything to a database.  Two things matter here, and most statements have both:
it leaves the records of the migrations alone (`Statement.KeepsRecords`), and it takes no table away
(`Statement.KeepsTables`).  From this follow what migrations leave that have all been applied, and,
with no condition, which migration has stopped a run that fails.

A run remembers only the highest version it has recorded.  `runAll_again_iff` says what this means
for a run that is repeated after the migration that stopped it has been repaired: it makes up for
the rest of the list exactly if no migration before the failure has a version above one that was
still to come, and then the database is the one that a run without the failure leaves.  Otherwise
some migrations are passed over, and those that come after them may find their tables missing.
-/

namespace EntityCache

namespace Schema

open Catalog

/-! ## What statements may do -/

namespace Statement

/-- Wherever the statement runs, it leaves the records of the migrations alone. -/
def KeepsRecords (s : Statement) : Prop :=
  ∀ c d : Catalog, c.execute s = .ok d → d.history = c.history

/-- Wherever the statement runs, it takes no table away. -/
def KeepsTables (s : Statement) : Prop :=
  ∀ (c d : Catalog) (n : String), c.execute s = .ok d → c.has n = true → d.has n = true

/-- Wherever the statement runs, there is a table of this name after it, and there need not have
been one before it. -/
def Makes (s : Statement) (n : String) : Prop :=
  (∀ c d : Catalog, c.execute s = .ok d → d.has n = true) ∧
    ∃ c d : Catalog, c.execute s = .ok d ∧ c.has n = false

/-- Wherever the statement runs, it leaves no tables but those that were there and those it
makes. -/
def MakesNoOthers (s : Statement) : Prop :=
  ∀ (c d : Catalog) (n : String), c.execute s = .ok d → d.has n = true → c.has n = true ∨ s.Makes n

end Statement

namespace Migration

/-- All statements leave the records of the migrations alone. -/
def KeepsRecords (m : Migration) : Prop := ∀ s ∈ m.statements, s.KeepsRecords

/-- No statement takes a table away. -/
def KeepsTables (m : Migration) : Prop := ∀ s ∈ m.statements, s.KeepsTables

/-- A statement makes a table of this name. -/
def Makes (m : Migration) (n : String) : Prop := ∃ s ∈ m.statements, s.Makes n

/-- No statement leaves tables that were not there and that it does not make. -/
def MakesNoOthers (m : Migration) : Prop := ∀ s ∈ m.statements, s.MakesNoOthers

end Migration

namespace Catalog

variable {c d : Catalog} {m : Migration} {s : Statement} {n name table : String} {u : Bool}
  {a : Applied} {records : List Applied} {statements : List Statement}

/-- A table that is created is there, and so are those before it. -/
@[simp] theorem has_create : (c.create name).has n = (c.has n || sameName n name) := by
  simp [has, create, Bool.or_assoc]

/-- A table is made, or found if that is allowed. -/
theorem execute_createTable (h : c.execute (.createTable name u) = .ok d) :
    c.has name = true ∧ d = c ∨ c.has name = false ∧ d = c.create name := by
  cases there : c.has name with
  | true => exact .inl ⟨rfl, by cases u <;> simp_all [execute]⟩
  | false =>
    cases index : c.hasIndex name with
    | true => simp [execute, there, index] at h
    | false => exact .inr ⟨rfl, by simpa [execute, there, index] using h.symm⟩

/-- An index is made, or found if that is allowed, and nothing else is touched. -/
theorem execute_createIndex (h : c.execute (.createIndex name table u) = .ok d) :
    d.tables = c.tables ∧ d.history = c.history := by
  rw [execute] at h
  split at h
  · cases h
  · split at h
    · cases h
    · split at h
      · split at h
        · cases h; exact ⟨rfl, rfl⟩
        · cases h
      · cases h; exact ⟨rfl, rfl⟩

end Catalog

namespace Statement

variable {name table : String} {u : Bool}

/-- A new table leaves the migrations on record alone. -/
theorem keepsRecords_createTable : (createTable name u).KeepsRecords := by
  intro c d h
  rcases execute_createTable h with ⟨-, rfl⟩ | ⟨-, rfl⟩ <;> rfl

/-- A new table takes no other away. -/
theorem keepsTables_createTable : (createTable name u).KeepsTables := by
  intro c d n h hn
  rcases execute_createTable h with ⟨-, rfl⟩ | ⟨-, rfl⟩
  · exact hn
  · simp [hn]

/-- A table that is created is there after it, also under a name that is the same to a database. -/
theorem makes_createTable {n : String} (same : sameName n name = true) :
    (createTable name u).Makes n := by
  refine ⟨fun c d h => ?_, {}, ({} : Catalog).create name, ?_, ?_⟩
  · rcases execute_createTable h with ⟨there, rfl⟩ | ⟨-, rfl⟩
    · rw [has, Bool.or_eq_true, Bool.and_eq_true, List.any_eq_true] at there ⊢
      simp only [sameName, beq_iff_eq] at same there ⊢
      rwa [same]
    · simp [same]
  · simp [execute, has, hasIndex]
  · simp [has]

/-- A new table is the one of the statement. -/
theorem makesNoOthers_createTable : (createTable name u).MakesNoOthers := by
  intro c d n h hn
  rcases execute_createTable h with ⟨-, rfl⟩ | ⟨-, rfl⟩
  · exact .inl hn
  · rw [has_create, Bool.or_eq_true] at hn
    exact hn.imp_right makes_createTable

/-- An index leaves the migrations on record alone. -/
theorem keepsRecords_createIndex : (createIndex name table u).KeepsRecords :=
  fun _ _ h => (execute_createIndex h).2

/-- An index takes no table away. -/
theorem keepsTables_createIndex : (createIndex name table u).KeepsTables := by
  intro c d n h hn
  obtain ⟨tables, history⟩ := execute_createIndex h
  rwa [has, tables, history]

/-- An index makes no table. -/
theorem makesNoOthers_createIndex : (createIndex name table u).MakesNoOthers := by
  intro c d n h hn
  obtain ⟨tables, history⟩ := execute_createIndex h
  rw [has, tables, history] at hn
  exact .inl hn

end Statement

namespace Catalog

variable {c d : Catalog} {m : Migration} {s : Statement} {n name table : String} {u : Bool}
  {a : Applied} {records : List Applied} {statements : List Statement}

/-- Statements succeed one after the other. -/
theorem executeAll_cons_eq_ok :
    c.executeAll (s :: statements) = .ok d ↔
      ∃ e, c.execute s = .ok e ∧ e.executeAll statements = .ok d := by
  cases h : c.execute s <;> simp [executeAll, h, Except.bind]

/-- Statements that leave the records alone leave them alone one after another. -/
theorem history_executeAll (keeps : ∀ s ∈ statements, s.KeepsRecords)
    (h : c.executeAll statements = .ok d) : d.history = c.history := by
  induction statements generalizing c with
  | nil => cases h; rfl
  | cons s rest ih =>
    obtain ⟨e, first, others⟩ := executeAll_cons_eq_ok.1 h
    rw [List.forall_mem_cons] at keeps
    rw [ih keeps.2 others, keeps.1 c e first]

/-- What was there, and what the statements make, is there after them. -/
theorem has_executeAll (keeps : ∀ s ∈ statements, s.KeepsTables)
    (h : c.executeAll statements = .ok d)
    (there : c.has n = true ∨ ∃ s ∈ statements, s.Makes n) : d.has n = true := by
  induction statements generalizing c with
  | nil => cases h; simpa using there
  | cons s rest ih =>
    obtain ⟨e, first, others⟩ := executeAll_cons_eq_ok.1 h
    rw [List.forall_mem_cons] at keeps
    refine ih keeps.2 others ?_
    rcases there with old | ⟨s', mem, makes⟩
    · exact .inl (keeps.1 c e n first old)
    · rcases List.mem_cons.1 mem with rfl | mem
      · exact .inl (makes.1 c e first)
      · exact .inr ⟨s', mem, makes⟩

/-- Nothing else is there after statements that make only what they say. -/
theorem of_has_executeAll (makesNo : ∀ s ∈ statements, s.MakesNoOthers)
    (h : c.executeAll statements = .ok d) (there : d.has n = true) :
    c.has n = true ∨ ∃ s ∈ statements, s.Makes n := by
  induction statements generalizing c with
  | nil => cases h; exact .inl there
  | cons s rest ih =>
    obtain ⟨e, first, others⟩ := executeAll_cons_eq_ok.1 h
    rw [List.forall_mem_cons] at makesNo
    rcases ih makesNo.2 others with before | ⟨s', mem, makes⟩
    · exact (makesNo.1 c e n first before).imp_right fun makes => ⟨s, by simp, makes⟩
    · exact .inr ⟨s', by simp [mem], makes⟩

/-! ## One migration -/

/-- A record is written if the table of the records is there and its version is new. -/
theorem record_eq_ok_iff : c.record a = .ok d ↔
    ∃ records, c.history = some records ∧ (∀ b ∈ records, b.version ≠ a.version) ∧
      d = { c with history := some (records ++ [a]) } := by
  cases there : c.history with
  | none => simp [record, there]
  | some records =>
    by_cases old : records.any (·.version == a.version) = true
    · obtain ⟨b, hb, same⟩ := List.any_eq_true.1 old
      simp only [record, there, old, if_true, reduceCtorEq, false_iff, Option.some.injEq]
      rintro ⟨records', eq, new, -⟩
      exact new b (eq ▸ hb) (beq_iff_eq.1 same)
    · have new : ∀ b ∈ records, b.version ≠ a.version := by simpa using old
      simp only [record, there, old, Bool.false_eq_true, if_false, Except.ok.injEq,
        Option.some.injEq]
      exact ⟨fun h => ⟨records, rfl, new, h.symm⟩, fun ⟨_, same, _, h⟩ => same ▸ h.symm⟩

/-- A migration is applied if its statements run and its version is not recorded then. -/
theorem apply_eq_ok_iff : c.apply m = .ok d ↔
    ∃ e, c.executeAll m.statements = .ok e ∧ e.record m.entry = .ok d := by
  cases h : c.executeAll m.statements <;> simp [apply, h, Except.bind]

/-- A migration that leaves the records alone adds its own. -/
theorem history_apply (keeps : m.KeepsRecords) (h : c.apply m = .ok d) :
    ∃ records, c.history = some records ∧ (∀ b ∈ records, b.version ≠ m.version) ∧
      d.history = some (records ++ [m.entry]) := by
  obtain ⟨e, run, recorded⟩ := apply_eq_ok_iff.1 h
  obtain ⟨records, there, new, rfl⟩ := record_eq_ok_iff.1 recorded
  exact ⟨records, history_executeAll keeps run ▸ there, new, rfl⟩

/-- Writing a record makes no table and takes none away. -/
theorem has_record (h : c.record a = .ok d) : d.has n = c.has n := by
  obtain ⟨records, there, -, rfl⟩ := record_eq_ok_iff.1 h
  simp [has, there]

/-- After a migration that keeps tables, those of before are there and those that it makes. -/
theorem has_apply (keeps : m.KeepsTables) (h : c.apply m = .ok d)
    (there : c.has n = true ∨ m.Makes n) : d.has n = true := by
  obtain ⟨e, run, recorded⟩ := apply_eq_ok_iff.1 h
  rw [has_record recorded]
  exact has_executeAll keeps run there

/-- After a migration that makes no others, every table was there before or is one that it makes. -/
theorem of_has_apply (makesNo : m.MakesNoOthers) (h : c.apply m = .ok d) (there : d.has n = true) :
    c.has n = true ∨ m.Makes n := by
  obtain ⟨e, run, recorded⟩ := apply_eq_ok_iff.1 h
  rw [has_record recorded] at there
  exact of_has_executeAll makesNo run there

/-! ## The records -/

/-- A version is above the highest one recorded if it is above each. -/
theorem newest_lt_iff {v : Int} (positive : 0 < v) :
    c.newest < v ↔ ∀ a ∈ c.recorded, a.version < v := by
  cases top : (c.recorded.map (·.version)).max? with
  | none =>
    have none : c.recorded = [] := by simpa using List.max?_eq_none_iff.1 top
    simp [newest, none, positive]
  | some w =>
    obtain ⟨there, above⟩ := List.max?_eq_some_iff.1 top
    obtain ⟨a, ha, rfl⟩ := List.mem_map.1 there
    simp only [newest, top, Option.getD_some]
    refine ⟨fun lt b hb => ?_, fun h => h a ha⟩
    exact Int.lt_of_le_of_lt (above _ (List.mem_map_of_mem hb)) lt

/-- Where the highest version can be read, the table of the records is there. -/
theorem highest_eq_ok_iff {v : Int} :
    c.highest = .ok v ↔ c.history.isSome ∧ v = c.newest := by
  rw [highest]
  split
  case h_1 there => rw [there, Except.ok.injEq, eq_comm]; simp
  case h_2 there => simp [there]

/-- The table of migrations is made empty, or left with what it records. -/
theorem recorded_ensureHistory (h : c.ensureHistory = .ok d) : d.recorded = c.recorded := by
  rw [ensureHistory] at h
  split at h
  · cases h; rfl
  · split at h
    · cases h
    · -- without the table nothing has been recorded
      next absent _ =>
      cases h
      cases there : c.history with
      | none => simp [recorded, there]
      | some => simp [has, there, sameName] at absent

/-- The table of migrations is a table. -/
theorem has_history (h : c.history.isSome) : c.has historyTable = true := by
  simp [has, h, sameName]

end Catalog

namespace Migration

open Catalog

variable {c c' d : Catalog} {m : Migration} {xs ys : List Migration} {n : String}
  {records : List Applied}

/-! ## Migrations one after another -/

/-- Migrations succeed one after the other. -/
theorem applyAll_cons_eq_ok :
    applyAll (m :: xs) c = (.ok (), d) ↔ ∃ e, c.apply m = .ok e ∧ applyAll xs e = (.ok (), d) := by
  cases h : c.apply m <;> simp [applyAll, h]

theorem applyAll_append (h : applyAll xs c = (.ok (), d)) :
    applyAll (xs ++ ys) c = applyAll ys d := by
  induction xs generalizing c with
  | nil => cases h; rfl
  | cons m xs ih =>
    obtain ⟨e, first, others⟩ := applyAll_cons_eq_ok.1 h
    simpa [applyAll, first] using ih others

/-- A list that can be applied can be applied up to any place in it. -/
theorem exists_of_applyAll_append (h : applyAll (xs ++ ys) c = (.ok (), d)) :
    ∃ e, applyAll xs c = (.ok (), e) ∧ applyAll ys e = (.ok (), d) := by
  induction xs generalizing c with
  | nil => exact ⟨c, rfl, h⟩
  | cons m xs ih =>
    obtain ⟨e, first, others⟩ := applyAll_cons_eq_ok.1 h
    obtain ⟨e', ran, rest⟩ := ih others
    exact ⟨e', applyAll_cons_eq_ok.2 ⟨e, first, ran⟩, rest⟩

/-- Migrations that have all been applied are recorded in their order. -/
theorem history_applyAll (keeps : ∀ m ∈ xs, m.KeepsRecords) (there : c.history = some records)
    (h : applyAll xs c = (.ok (), d)) : d.history = some (records ++ xs.map entry) := by
  induction xs generalizing c records with
  | nil => cases h; simpa using there
  | cons m xs ih =>
    obtain ⟨e, first, others⟩ := applyAll_cons_eq_ok.1 h
    rw [List.forall_mem_cons] at keeps
    obtain ⟨records', same, -, recorded⟩ := history_apply keeps.1 first
    obtain rfl : records' = records := Option.some.inj (same.symm.trans there)
    rw [ih keeps.2 recorded others, List.map_cons, List.append_assoc, List.singleton_append]

/-- The tables that were there, and those that the migrations make, are there after them. -/
theorem has_applyAll (keeps : ∀ m ∈ xs, m.KeepsTables) (h : applyAll xs c = (.ok (), d))
    (there : c.has n = true ∨ ∃ m ∈ xs, m.Makes n) : d.has n = true := by
  induction xs generalizing c with
  | nil => cases h; simpa using there
  | cons m xs ih =>
    obtain ⟨e, first, others⟩ := applyAll_cons_eq_ok.1 h
    rw [List.forall_mem_cons] at keeps
    refine ih keeps.2 others ?_
    rcases there with old | ⟨m', mem, makes⟩
    · exact .inl (has_apply keeps.1 first (.inl old))
    · rcases List.mem_cons.1 mem with rfl | mem
      · exact .inl (has_apply keeps.1 first (.inr makes))
      · exact .inr ⟨m', mem, makes⟩

/-- A run that fails is stopped by the first migration that cannot be applied. -/
theorem exists_of_applyAll_error {err : MigrationError} (h : applyAll xs c = (.error err, d)) :
    ∃ before m after e, xs = before ++ m :: after ∧ err = .execution m.version e ∧
      applyAll before c = (.ok (), d) ∧ d.apply m = .error e := by
  induction xs generalizing c with
  | nil => cases h
  | cons m xs ih =>
    cases first : c.apply m with
    | error e =>
      obtain ⟨rfl, rfl⟩ : .execution m.version e = err ∧ c = d := by simpa [applyAll, first] using h
      exact ⟨[], m, xs, e, rfl, rfl, rfl, first⟩
    | ok e =>
      obtain ⟨before, x, after, e', rfl, rfl, ran, stopped⟩ :=
        ih (by simpa [applyAll, first] using h)
      exact ⟨m :: before, x, after, e', rfl, rfl, applyAll_cons_eq_ok.2 ⟨e, first, ran⟩, stopped⟩

/-- Of migrations with distinct versions the one that a failure names is the one that stopped the
run, so those before it are what has been applied. -/
theorem applyAll_of_failed {before after : List Migration} {e : SqlError}
    (distinct : ((before ++ m :: after).map (·.version)).Nodup)
    (ran : applyAll before c = (.ok (), c'))
    (failed : (applyAll (before ++ m :: after) c).1 = .error (.execution m.version e)) :
    (applyAll (before ++ m :: after) c).2 = c' := by
  rw [applyAll_append ran] at failed ⊢
  cases first : c'.apply m with
  | error e => simp [applyAll, first]
  | ok d =>
    obtain ⟨d', stopped⟩ : ∃ d', applyAll after d = (.error (.execution m.version e), d') := by
      simp only [applyAll, first] at failed
      exact ⟨_, Prod.ext failed rfl⟩
    obtain ⟨xs, x, ys, e', rfl, same, -⟩ := exists_of_applyAll_error stopped
    simp [List.nodup_append, (MigrationError.execution.inj same).1] at distinct

/-! ## A run that is repeated -/

/-- Where the table of the records is there, a run applies what is above the highest version. -/
theorem runAll_of_history (there : c.history.isSome) :
    runAll xs c = ((applyAll (pending c.newest xs) c).1.map fun _ => (pending c.newest xs).length,
      (applyAll (pending c.newest xs) c).2) := by
  have ensured : c.ensureHistory = .ok c := by rw [ensureHistory, if_pos (has_history there)]
  have read : c.highest = .ok c.newest := highest_eq_ok_iff.2 ⟨there, rfl⟩
  simp only [runAll, ensured, read]

/-- A run that gets as far as a migration has the table of the records to begin with. -/
theorem exists_ensured {v : Int} {e : SqlError} (positive : 0 < v)
    (failed : (runAll xs c).1 = .error (.execution v e)) :
    ∃ c₀, c.ensureHistory = .ok c₀ ∧ c₀.history.isSome ∧ ∀ ys, runAll ys c = runAll ys c₀ := by
  cases ensured : c.ensureHistory with
  | error cause =>
    simp only [runAll, ensured, Except.error.injEq, MigrationError.execution.injEq] at failed
    exact absurd failed.1 (by omega)
  | ok c₀ =>
    refine ⟨c₀, rfl, ?_⟩
    cases read : c₀.highest with
    | error cause => simp [runAll, ensured, read] at failed
    | ok v =>
      have there := (highest_eq_ok_iff.1 read).1
      have again : c₀.ensureHistory = .ok c₀ := by
        rw [ensureHistory, if_pos (has_history there)]
      exact ⟨there, fun ys => by simp only [runAll, ensured, again]⟩

/-- With no record every migration of a positive version is due. -/
theorem pending_of_fresh (fresh : c.recorded = []) (positive : ∀ m ∈ xs, 0 < m.version) :
    pending c.newest xs = xs :=
  List.filter_eq_self.2 fun m hm =>
    decide_eq_true ((newest_lt_iff (positive m hm)).2 (by simp [fresh]))

/-- After some migrations of a list have been recorded, those are due whose versions are above all
of theirs. -/
theorem newest_lt_iff_of_history (there : c.history = some (xs.map entry))
    (positive : 0 < m.version) : c.newest < m.version ↔ ∀ x ∈ xs, x.version < m.version := by
  simp [newest_lt_iff positive, Catalog.recorded, there, entry]

/-- A run with some migrations of its list recorded takes up those of the others that are due. -/
theorem runAll_append (there : c.history = some (xs.map entry))
    (positive : ∀ m ∈ xs ++ ys, 0 < m.version) :
    runAll (xs ++ ys) c = ((applyAll (pending c.newest ys) c).1.map fun _ =>
      (pending c.newest ys).length, (applyAll (pending c.newest ys) c).2) := by
  have none : pending c.newest xs = [] := List.filter_eq_nil_iff.2 fun x hx above =>
    Int.lt_irrefl _ ((newest_lt_iff_of_history there (positive x (by simp [hx]))).1
      (of_decide_eq_true above) x hx)
  have due : pending c.newest (xs ++ ys) = pending c.newest ys := by
    rw [pending, List.filter_append, ← pending, ← pending, none, List.nil_append]
  rw [runAll_of_history (by simp [there]), due]

/-- A migration that has a lower version than one recorded before is passed over. -/
theorem not_recorded_of_passedOver {result : Except MigrationError Unit} {y : Migration}
    (keeps : ∀ m ∈ ys, m.KeepsRecords) (there : c.history = some (xs.map entry))
    (distinct : ((xs ++ ys).map (·.version)).Nodup) (positive : ∀ m ∈ xs ++ ys, 0 < m.version)
    (again : applyAll (pending c.newest ys) c = (result, d)) (hy : y ∈ ys)
    (lower : ∃ x ∈ xs, y.version < x.version) : y.entry ∉ d.recorded := by
  have keepsDue : ∀ m ∈ pending c.newest ys, m.KeepsRecords :=
    fun m hm => keeps m (List.mem_filter.1 hm).1
  -- what is recorded then are the records of `xs` and of some of the migrations that were due
  obtain ⟨done, sub, recorded⟩ : ∃ done, done ⊆ pending c.newest ys ∧
      d.recorded = xs.map entry ++ done.map entry := by
    cases result with
    | ok =>
      refine ⟨pending c.newest ys, List.Subset.refl _, ?_⟩
      rw [Catalog.recorded, history_applyAll keepsDue there again, Option.getD_some]
    | error err =>
      obtain ⟨before, m, after, e, parts, -, ran, -⟩ := exists_of_applyAll_error again
      have sub : before ⊆ pending c.newest ys := by
        rw [parts]
        exact List.subset_append_left _ _
      refine ⟨before, sub, ?_⟩
      rw [Catalog.recorded, history_applyAll (fun m hm => keepsDue m (sub hm)) there ran,
        Option.getD_some]
  rw [List.map_append, List.nodup_append] at distinct
  rw [recorded, List.mem_append, List.mem_map, List.mem_map]
  rintro (⟨x, hx, same⟩ | ⟨z, hz, same⟩)
  · exact distinct.2.2 _ (List.mem_map_of_mem hx) _ (List.mem_map_of_mem hy)
      (congrArg Applied.version same)
  · obtain ⟨x, hx, lt⟩ := lower
    obtain ⟨hz', above⟩ := List.mem_filter.1 (sub hz)
    have lt' := (newest_lt_iff_of_history there (positive z (by simp [hz']))).1
      (of_decide_eq_true above) x hx
    have eq : z.version = y.version := congrArg Applied.version same
    omega

/-- The parts of a run that fails and of the run of the repaired list: both apply the migrations
before the failure, and the latter goes on from there to its end. -/
theorem exists_halted {m' : Migration} {before after : List Migration} {e : SqlError} {count : Nat}
    (fresh : c.recorded = []) (positive : ∀ x ∈ before ++ m :: after, 0 < x.version)
    (distinct : ((before ++ m :: after).map (·.version)).Nodup) (same : m'.version = m.version)
    (failed : (runAll (before ++ m :: after) c).1 = .error (.execution m.version e))
    (executes : (runAll (before ++ m' :: after) c).1 = .ok count) :
    ∃ c₀ c' d, c₀.history = some [] ∧ applyAll before c₀ = (.ok (), c') ∧
      applyAll (m' :: after) c' = (.ok (), d) ∧ (runAll (before ++ m :: after) c).2 = c' ∧
      (runAll (before ++ m' :: after) c).2 = d := by
  obtain ⟨c₀, ensured, there, skips⟩ := exists_ensured (positive m (by simp)) failed
  have none : c₀.recorded = [] := (recorded_ensureHistory ensured).trans fresh
  -- on a fresh history every migration is due, so both runs apply their whole lists
  have whole (ys : List Migration) (hys : ∀ x ∈ ys, 0 < x.version) :
      runAll ys c = ((applyAll ys c₀).1.map fun _ => ys.length, (applyAll ys c₀).2) := by
    rw [skips, runAll_of_history there, pending_of_fresh none hys]
  have positive' : ∀ x ∈ before ++ m' :: after, 0 < x.version := by
    simpa [or_imp, forall_and, same] using positive
  rw [whole _ positive'] at executes ⊢
  rw [whole _ positive] at failed ⊢
  obtain ⟨d, run⟩ : ∃ d, applyAll (before ++ m' :: after) c₀ = (.ok (), d) := by
    cases run : (applyAll (before ++ m' :: after) c₀).1 with
    | error => simp [run, Except.map] at executes
    | ok => exact ⟨_, Prod.ext run rfl⟩
  obtain ⟨c', ran, rest⟩ := exists_of_applyAll_append run
  refine ⟨c₀, c', d, ?_, ran, rest, applyAll_of_failed (e := e) distinct ran ?_, by rw [run]⟩
  · obtain ⟨records, hrecords⟩ := Option.isSome_iff_exists.1 there
    rw [Catalog.recorded, hrecords, Option.getD_some] at none
    rw [hrecords, none]
  · cases stop : (applyAll (before ++ m :: after) c₀).1 <;> simp_all [Except.map]

/-- Statements that make tables and indexes leave records and tables alone. -/
theorem keeps_of_creating (creates : ∀ s ∈ m.statements,
    (∃ name u, s = .createTable name u) ∨ ∃ name table u, s = .createIndex name table u) :
    m.KeepsRecords ∧ m.KeepsTables := by
  refine ⟨fun s hs => ?_, fun s hs => ?_⟩
  · obtain ⟨name, u, rfl⟩ | ⟨name, table, u, rfl⟩ := creates s hs
    · exact Statement.keepsRecords_createTable
    · exact Statement.keepsRecords_createIndex
  · obtain ⟨name, u, rfl⟩ | ⟨name, table, u, rfl⟩ := creates s hs
    · exact Statement.keepsTables_createTable
    · exact Statement.keepsTables_createIndex

-- What is passed over may be missed by what is not: the second run fails as well.
example :
    let front : Migration := ⟨3, "disks", [.createTable "disks"]⟩
    let broken : Migration := ⟨1, "hosts", [.malformed (.near "TABEL")]⟩
    let last : Migration := ⟨4, "names", [.createIndex "by_name" "hosts"]⟩
    let list := [front, { broken with statements := [.createTable "hosts"] }, last]
    (runAll list {}).1 = .ok 3 ∧
      (runAll list (runAll [front, broken, last] {}).2).1 =
        .error (.execution 4 (.noSuchTable "main.hosts")) := by
  decide +kernel

end Migration

end Schema

end EntityCache
