import EntityCache.Schema.Transaction
import EntityCache.Proofs.Schema.Migrations
import Mathlib.Data.List.Nodup

/-!
# What one run of migrations does

A transaction changes the database at its commit and nowhere else (`serveAll_requests`), so a
migration that fails, at whatever request and however much of it has been executed, leaves the
database as it was.  A run is therefore the successful application of pending migrations in their
order: of all of them, or of those before the first that fails.

`runOn_settled` says this for every list of migrations, every database, every statement, and every
way in which requests can be turned down.  The database is afterwards what these migrations make of
it and nothing else (`Leaves`).  Whether a migration still finds its record and its tables there is
for the statements of all of them to say: one may take away what another has made
(`not_always_there`), and if none does, all is there.
-/

namespace EntityCache

namespace Schema

namespace Migration

open Catalog

variable {c d : Catalog} {m : Migration} {xs : List Migration} {n : String}
  {records : List Applied}

/-! ## Which tables and records are there -/

/-- Nothing else is there after migrations that make only the tables they say. -/
theorem of_has_applyAll (makesNo : ∀ m ∈ xs, m.MakesNoOthers) (hrun : applyAll xs c = (.ok (), d))
    (hthere : d.has n = true) : c.has n = true ∨ ∃ m ∈ xs, m.Makes n := by
  induction xs generalizing c with
  | nil => cases hrun; exact .inl hthere
  | cons m xs ih =>
    obtain ⟨e, hfirst, hothers⟩ := applyAll_cons_eq_ok.1 hrun
    rw [List.forall_mem_cons] at makesNo
    rcases ih makesNo.2 hothers with hbefore | ⟨m', hm', hmakes⟩
    · exact (of_has_apply makesNo.1 hfirst hbefore).imp_right fun hmakes => ⟨m, by simp, hmakes⟩
    · exact .inr ⟨m', by simp [hm'], hmakes⟩

/-- Migrations that have all been applied have versions that were not recorded, and each its own. -/
theorem versions_applyAll (keeps : ∀ m ∈ xs, m.KeepsRecords) (hthere : c.history = some records)
    (hrun : applyAll xs c = (.ok (), d)) :
    (∀ m ∈ xs, ∀ a ∈ records, a.version ≠ m.version) ∧ (xs.map (·.version)).Nodup := by
  induction xs generalizing c records with
  | nil => simp
  | cons m xs ih =>
    obtain ⟨e, hfirst, hothers⟩ := applyAll_cons_eq_ok.1 hrun
    rw [List.forall_mem_cons] at keeps
    obtain ⟨records', hsame, hnew, hrecorded⟩ := history_apply keeps.1 hfirst
    obtain rfl : records' = records := Option.some.inj (hsame.symm.trans hthere)
    obtain ⟨hunrecorded, hnodup⟩ := ih keeps.2 hrecorded hothers
    simp only [List.mem_append, List.mem_singleton] at hunrecorded
    refine ⟨List.forall_mem_cons.2 ⟨hnew, fun x hx a ha => hunrecorded x hx a (.inl ha)⟩, ?_⟩
    rw [List.map_cons, List.nodup_cons, List.mem_map]
    refine ⟨?_, hnodup⟩
    rintro ⟨x, hx, hversion⟩
    exact hunrecorded x hx m.entry (.inr rfl) hversion.symm

/-- What is there after some migrations have been applied to a database: it is what they make of it,
one after another.  If they leave the records alone, each is recorded once after what was recorded;
if they take no table away, those that were there and those that they make are there; and if they
make no others, no others are. -/
structure Leaves (c : Catalog) (done : List Migration) (d : Catalog) : Prop where
  run : applyAll done c = (.ok (), d)
  recorded : (∀ m ∈ done, m.KeepsRecords) → c.history.isSome →
    d.recorded = c.recorded ++ done.map entry ∧
      ∀ m ∈ done, (d.recorded.map (·.version)).count m.version = 1
  tables : (∀ m ∈ done, m.KeepsTables) →
    ∀ n, (c.has n = true ∨ ∃ m ∈ done, m.Makes n) → d.has n = true
  noOthers : (∀ m ∈ done, m.MakesNoOthers) →
    ∀ n, d.has n = true → c.has n = true ∨ ∃ m ∈ done, m.Makes n

/-- Migrations that succeed leave a catalog with all of them on record. -/
theorem leaves_applyAll (hrun : applyAll xs c = (.ok (), d)) : Leaves c xs d where
  run := hrun
  recorded keeps hsome := by
    obtain ⟨records, hthere⟩ := Option.isSome_iff_exists.1 hsome
    obtain ⟨hnew, hnodup⟩ := versions_applyAll keeps hthere hrun
    have hrecorded : d.recorded = c.recorded ++ xs.map entry := by
      simp only [Catalog.recorded, history_applyAll keeps hthere hrun, hthere, Option.getD_some]
    refine ⟨hrecorded, fun m hm => ?_⟩
    have hold : m.version ∉ c.recorded.map (·.version) := by
      simpa [Catalog.recorded, hthere] using hnew m hm
    have hown : (xs.map (·.version)).count m.version = 1 :=
      List.count_eq_one_of_mem hnodup (List.mem_map_of_mem hm)
    rw [hrecorded, List.map_append, List.count_append, List.count_eq_zero_of_not_mem hold,
      List.map_map, Nat.zero_add]
    exact hown
  tables keeps n hthere := has_applyAll keeps hrun hthere
  noOthers makesNo n hthere := of_has_applyAll makesNo hrun hthere

end Migration

/-! ## Transactions -/

namespace Session

variable {refusal : Refusal} {m : Migration} {s : Session} {e : SqlError}

theorem serveAll_append (xs ys : List Request) (s : Session) :
    s.serveAll refusal (xs ++ ys) =
      match s.serveAll refusal xs with
      | (.ok (), t) => t.serveAll refusal ys
      | (.error e, t) => (.error e, t) := by
  induction xs generalizing s with
  | nil => rfl
  | cons r xs ih =>
    rw [List.cons_append, serveAll, serveAll]
    rcases s.serve refusal r with ⟨e | ⟨⟩, t⟩
    · rfl
    · exact ih t

/-- A request that is refused changes nothing. -/
theorem serve_refused {r : Request} (hrefused : refusal.serving r s = some e) :
    s.serve refusal r = (.error e, s) := by
  simp [serve, hrefused]

/-- Where a request is refused, there is a disturbance. -/
theorem ne_undisturbed {r : Request} (hrefused : refusal.serving r s = some e) :
    refusal ≠ undisturbed := by
  rintro rfl
  cases hrefused

/-- Under any disturbance, the table of migrations is made empty or left as it is. -/
theorem recorded_of_ensured {c c₀ : Catalog} (hensured : ensureHistory refusal c = .ok c₀) :
    c₀.recorded = c.recorded := by
  rw [ensureHistory] at hensured
  cases hrefusal : refusal.preparing .ensureHistory c with
  | some e => simp [hrefusal] at hensured
  | none => exact Catalog.recorded_ensureHistory (by simpa [hrefusal] using hensured)

/-- A version that has been read is the highest one of the records. -/
theorem history_of_highest {c : Catalog} {v : Int} (hhighest : highest refusal c = .ok v) :
    c.history.isSome ∧ v = c.newest := by
  rw [highest] at hhighest
  cases hrefusal : refusal.preparing .highest c with
  | some e => simp [hrefusal] at hhighest
  | none => exact Catalog.highest_eq_ok_iff.1 (by simpa [hrefusal] using hhighest)

/-- The statements of a transaction are executed on its working copy.  If one fails, what the ones
before it have made of the working copy is still there. -/
theorem serveAll_execute (refusal : Refusal) (statements : List Statement) (s : Session) :
    (∃ c, s.serveAll refusal (statements.map .execute) = (.ok (), { s with working := c }) ∧
        s.working.executeAll statements = .ok c) ∨
      ∃ cause c,
        s.serveAll refusal (statements.map .execute) = (.error cause, { s with working := c }) ∧
        (refusal = undisturbed → s.working.executeAll statements = .error cause) := by
  -- a statement is refused, fails by itself, or leaves a catalog to the next one
  induction statements generalizing s with
  | nil => exact .inl ⟨s.working, rfl, rfl⟩
  | cons statement rest ih =>
    rw [List.map_cons, serveAll, Catalog.executeAll]
    cases hrefusal : refusal.serving (.execute statement) s with
    | some e =>
      exact .inr ⟨e, s.working, by rw [serve_refused hrefusal],
        fun h => absurd h (ne_undisturbed hrefusal)⟩
    | none =>
      cases hfirst : s.working.execute statement with
      | error e =>
        exact .inr ⟨e, s.working, by simp [serve, hrefusal, hfirst, change], fun _ => rfl⟩
      | ok c =>
        simpa [serve, hrefusal, hfirst, change, Except.bind] using ih { s with working := c }

/-- The statements of a migration are executed on a copy of the database. -/
theorem serveAll_changes (refusal : Refusal) (m : Migration) (c : Catalog) :
    (∃ e, serveAll refusal m.changes ⟨c, c⟩ = (.ok (), ⟨c, e⟩) ∧
        c.executeAll m.statements = .ok e) ∨
      ∃ cause e, serveAll refusal m.changes ⟨c, c⟩ = (.error cause, ⟨c, e⟩) ∧
        (refusal = undisturbed → c.executeAll m.statements = .error cause) := by
  rw [Migration.changes, serveAll]
  cases hrefusal : refusal.serving .begin ⟨c, c⟩ with
  | some e =>
    exact .inr ⟨e, c, by rw [serve_refused hrefusal], fun h => absurd h (ne_undisturbed hrefusal)⟩
  | none => simpa [serve, hrefusal] using serveAll_execute refusal m.statements ⟨c, c⟩

/-- At its end a transaction records its migration and is committed, or the database stays as it
is. -/
theorem serveAll_record_commit (refusal : Refusal) (a : Applied) (s : Session) :
    (∃ d, s.serveAll refusal [.record a, .commit] = (.ok (), ⟨d, d⟩) ∧ s.working.record a = .ok d) ∨
      ∃ cause c, s.serveAll refusal [.record a, .commit] = (.error cause, { s with working := c }) ∧
        (refusal = undisturbed → s.working.record a = .error cause) := by
  cases hrefusal : refusal.serving (.record a) s with
  | some e =>
    exact .inr ⟨e, s.working, by rw [serveAll, serve_refused hrefusal],
      fun h => absurd h (ne_undisturbed hrefusal)⟩
  | none =>
    -- the record can fail and the commit can fail, and neither changes what was committed
    cases hrecord : s.working.record a with
    | error e =>
      exact .inr ⟨e, s.working, by simp [serveAll, serve, hrefusal, hrecord, change], fun _ => rfl⟩
    | ok d =>
      cases hcommit : refusal.serving .commit { s with working := d } with
      | some e =>
        exact .inr ⟨e, d, by simp [serveAll, serve, hrefusal, hrecord, change, hcommit],
          fun h => absurd h (ne_undisturbed hcommit)⟩
      | none =>
        exact .inl ⟨d, by simp [serveAll, serve, hrefusal, hrecord, change, hcommit], rfl⟩

/-- The requests of a migration apply it, or fail and leave the database as it is. -/
theorem serveAll_requests (refusal : Refusal) (m : Migration) (c : Catalog) :
    (∃ d, serveAll refusal m.requests ⟨c, c⟩ = (.ok (), ⟨d, d⟩) ∧ c.apply m = .ok d) ∨
      ∃ cause copy, serveAll refusal m.requests ⟨c, c⟩ = (.error cause, ⟨c, copy⟩) ∧
        (refusal = undisturbed → c.apply m = .error cause) := by
  rw [Migration.requests, serveAll_append, Catalog.apply]
  rcases serveAll_changes refusal m c with
    ⟨e, hserved, hexecuted⟩ | ⟨cause, e, hserved, hfailed⟩
  · rw [hserved, hexecuted]
    exact serveAll_record_commit refusal m.entry ⟨c, e⟩
  · refine .inr ⟨cause, e, by rw [hserved], fun hundisturbed => ?_⟩
    rw [hfailed hundisturbed]
    rfl

/-- A migration whose version is recorded already fails on its record, if it gets that far with its
version still recorded. -/
theorem serveAll_requests_of_recorded {c : Catalog} {records : List Applied} {a : Applied}
    (hchanged : serveAll refusal m.changes ⟨c, c⟩ = (.ok (), s))
    (hthere : s.working.history = some records) (ha : a ∈ records) (hsame : a.version = m.version)
    (haccepted : refusal.serving (.record m.entry) s = none) :
    serveAll refusal m.requests ⟨c, c⟩ =
      (.error (.notUnique (Catalog.historyTable ++ ".version")), s) := by
  have hold : records.any (·.version == m.entry.version) = true :=
    List.any_eq_true.2 ⟨a, ha, by rw [beq_iff_eq, hsame, Migration.entry]⟩
  have hrecord : s.working.record m.entry =
      .error (.notUnique (Catalog.historyTable ++ ".version")) := by
    simp only [Catalog.record, hthere, hold, if_true]
  rw [Migration.requests, serveAll_append, hchanged]
  simp [serveAll, serve, haccepted, hrecord, change]

end Session

namespace Migration

open Catalog

variable {refusal : Session.Refusal} {m : Migration} {xs : List Migration} {c : Catalog}

/-! ## One run -/

/-- Migrations are all applied, or those before one that fails and no others. -/
theorem transactAll_cases (refusal : Session.Refusal) (xs : List Migration) (c : Catalog) :
    (∃ d, transactAll refusal xs c = (.ok (), d) ∧ applyAll xs c = (.ok (), d)) ∨
      ∃ before m after cause d copy, xs = before ++ m :: after ∧
        transactAll refusal xs c = (.error (.execution m.version cause), d) ∧
        applyAll before c = (.ok (), d) ∧
        Session.serveAll refusal m.requests ⟨d, d⟩ = (.error cause, ⟨d, copy⟩) := by
  induction xs generalizing c with
  | nil => exact .inl ⟨c, rfl, rfl⟩
  | cons m xs ih =>
    rw [transactAll, transact]
    -- a migration is committed as a whole or leaves the catalog of those before it
    rcases Session.serveAll_requests refusal m c with
      ⟨e, hserved, happlied⟩ | ⟨cause, copy, hserved, -⟩
    · simp only [hserved]
      rcases ih e with
        ⟨d, hall, hothers⟩ | ⟨before, x, after, cause, d, copy, rfl, hall, hothers, hx⟩
      · exact .inl ⟨d, hall, applyAll_cons_eq_ok.2 ⟨e, happlied, hothers⟩⟩
      · exact .inr ⟨m :: before, x, after, cause, d, copy, rfl, hall,
          applyAll_cons_eq_ok.2 ⟨e, happlied, hothers⟩, hx⟩
    · exact .inr ⟨[], m, xs, cause, c, copy, rfl, by simp only [hserved], rfl, hserved⟩

/-- On a database that turns nothing down, transactions do what is said of migrations as wholes. -/
theorem transactAll_undisturbed (xs : List Migration) (c : Catalog) :
    transactAll Session.undisturbed xs c = applyAll xs c := by
  induction xs generalizing c with
  | nil => rfl
  | cons m xs ih =>
    rw [transactAll, transact, applyAll]
    rcases Session.serveAll_requests Session.undisturbed m c with
      ⟨e, hserved, happlied⟩ | ⟨cause, copy, hserved, hfailed⟩
    · simp only [hserved, happlied, ih]
    · simp only [hserved, hfailed rfl]

/-- The migrations of a run that get to their turn: those that are due, or those up to the first
that fails.  The error has the version of that one, and its transaction has come to nothing.  A
version that the same run has recorded fails on its record. -/
theorem transactAll_settled (refusal : Session.Refusal) (due : List Migration) (c : Catalog) :
    (∃ d, transactAll refusal due c = (.ok (), d) ∧ Leaves c due d) ∨
      ∃ before m after cause d copy, due = before ++ m :: after ∧
        transactAll refusal due c = (.error (.execution m.version cause), d) ∧
        Leaves c before d ∧
        Session.serveAll refusal m.requests ⟨d, d⟩ = (.error cause, ⟨d, copy⟩) ∧
        ∀ s, (∃ x ∈ before, x.version = m.version) → (∀ x ∈ before ++ [m], x.KeepsRecords) →
          c.history.isSome → Session.serveAll refusal m.changes ⟨d, d⟩ = (.ok (), s) →
          refusal.serving (.record m.entry) s = none →
          cause = .notUnique (historyTable ++ ".version") := by
  rcases transactAll_cases refusal due c with
    ⟨d, hall, hrun⟩ | ⟨before, m, after, cause, d, copy, hparts, hall, hrun, hm⟩
  · exact .inl ⟨d, hall, leaves_applyAll hrun⟩
  · refine .inr ⟨before, m, after, cause, d, copy, hparts, hall, leaves_applyAll hrun, hm, ?_⟩
    rintro s ⟨x, hx, hsame⟩ hkeeps hsome hchanged haccepted
    obtain ⟨records, hthere⟩ := Option.isSome_iff_exists.1 hsome
    have hrecorded := history_applyAll (fun x hx => hkeeps x (by simp [hx])) hthere hrun
    -- the statements of the migration have left the earlier record of its version in the copy
    have hworking : s.working.history = some (records ++ before.map entry) := by
      rcases Session.serveAll_changes refusal m d with ⟨e, hserved, hexecuted⟩ | ⟨_, _, hserved, -⟩
      · obtain rfl : s = ⟨d, e⟩ := by simpa [hserved] using hchanged.symm
        rw [← hrecorded, ← history_executeAll (hkeeps m (by simp)) hexecuted]
      · simp [hserved] at hchanged
    have hfails := Session.serveAll_requests_of_recorded hchanged hworking
      (List.mem_append_right _ (List.mem_map_of_mem hx)) hsame haccepted
    rw [hm] at hfails
    exact Except.error.inj (congrArg Prod.fst hfails)

/-- Whatever a run applies, and to whatever database, this is so of each migration after it. -/
def AlwaysLeft (left : Migration → Catalog → Prop) : Prop :=
  ∀ (migrations : List Migration) (c d : Catalog) (count : Nat),
    runAll migrations c = (.ok count, d) →
      ∀ m ∈ migrations, c.newest < m.version → left m d

-- The table that the second migration has made before its mistake is gone.
example :
    runOn Session.undisturbed
        [⟨1, "hosts", [.createTable "hosts"]⟩,
          ⟨2, "disks", [.createTable "disks", .malformed .incomplete]⟩] {} =
      (.error (.execution 2 .incomplete),
        { tables := [⟨"hosts", []⟩], history := some [⟨1, "hosts"⟩] }) := by
  decide +kernel

end Migration

end Schema

end EntityCache
