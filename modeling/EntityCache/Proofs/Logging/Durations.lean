import EntityCache.Logging.Progress
import Mathlib.Data.List.Induction
import Mathlib.Data.List.Infix

/-!
# Whose time the end of a cycle tells

Cycles of agents take turns: each starts once and may end once after that, and cycles of one agent
may be in flight together.  The log keeps one moment for each agent, the one at which a cycle of the
agent last started, and every end of a cycle of the agent takes it away.

`tellsOwn_iff_apart` says when this is enough, for histories in which all cycles come to their end:
every end tells the time since the start of its own cycle exactly if no two cycles of an agent are
ever in flight together.  As soon as two of them are, there are more cycles of the agent in flight
than moments kept for it (`Crowded`), which no call that tells a time can change, so some end is
left with no time to tell.
-/

namespace EntityCache

namespace Progress

/-! ## Histories -/

/-- One execution of an agent. -/
structure Cycle where
  agent : String
  number : Nat
deriving DecidableEq

/-- How a cycle ends. -/
inductive Ending where
  | completed
  | failed (error : ErrorChain)
deriving DecidableEq

/-- What a cycle calls. -/
inductive Call where
  | started
  | ended (how : Ending)
deriving DecidableEq

/-- A call of a cycle, and the moment at which it is made. -/
structure Mark where
  cycle : Cycle
  moment : Instant
  call : Call
deriving DecidableEq

/-- The calls that a cycle has made. -/
def calls (c : Cycle) (h : List Mark) : List Call :=
  h.filterMap fun m => if m.cycle = c then some m.call else none

/-- A cycle has started and has not ended. -/
def InFlight (h : List Mark) (c : Cycle) : Prop := calls c h = [.started]

instance (h : List Mark) (c : Cycle) : Decidable (InFlight h c) :=
  inferInstanceAs (Decidable (_ = _))

/-- Cycles that take turns: moments never go back, and a cycle starts before it ends, each once. -/
structure Interleaving (h : List Mark) : Prop where
  inOrder : h.Pairwise fun m m' => m.moment ≤ m'.moment
  regular : ∀ c, ∃ how, calls c h <+: [.started, .ended how]

/-- No two cycles of an agent are ever in flight together. -/
def Apart (h : List Mark) : Prop :=
  ∀ before, before <+: h → ∀ c c', InFlight before c → InFlight before c' → c.agent = c'.agent →
    c = c'

/-! ## What is logged -/

/-- Logs a call. -/
def log (m : Mark) (p : Progress) : LogEvent × Progress :=
  match m.call with
  | .started => p.started m.moment m.cycle.agent
  | .ended .completed => p.completed m.moment m.cycle.agent
  | .ended (.failed error) => p.failed m.moment m.cycle.agent error

/-- The moments that are kept after a history. -/
def kept (h : List Mark) : Progress := h.foldl (fun p m => (p.log m).2) ∅

/-- The time that the event of a call tells, if it tells one. -/
def told (h : List Mark) (m : Mark) : Option Json :=
  ((kept h).log m).1.fields.lookup "elapsed_ms"

/-- Every end tells the time since the start of its own cycle. -/
def TellsOwn (h : List Mark) : Prop :=
  ∀ before m rest start how, h = before ++ m :: rest → m.call = .ended how →
    ⟨m.cycle, start, .started⟩ ∈ before → told before m = some (duration start m.moment)

variable {h before : List Mark} {m : Mark} {c c' : Cycle} {a : String} {start : Instant}
  {how : Ending}

theorem calls_concat_self (h : List Mark) (m : Mark) :
    calls m.cycle (h ++ [m]) = calls m.cycle h ++ [m.call] := by
  simp [calls]

theorem calls_concat_of_ne (hne : m.cycle ≠ c) : calls c (h ++ [m]) = calls c h := by
  simp [calls, hne]

/-- A cycle with calls has left a mark. -/
theorem exists_mem_of_calls (hcalls : calls c h ≠ []) : ∃ m ∈ h, m.cycle = c := by
  obtain ⟨call, hcall⟩ := List.exists_mem_of_ne_nil _ hcalls
  obtain ⟨m, hm, hmark⟩ := List.mem_filterMap.1 hcall
  by_cases hcycle : m.cycle = c
  · exact ⟨m, hm, hcycle⟩
  · simp [hcycle] at hmark

theorem InFlight.exists_mem (hflight : InFlight h c) : ∃ m ∈ h, m.cycle = c :=
  exists_mem_of_calls (by rw [InFlight] at hflight; simp [hflight])

/-- A cycle with a mark of its start has it among its calls. -/
theorem started_mem_calls (hstart : ⟨c, start, .started⟩ ∈ h) : .started ∈ calls c h :=
  List.mem_filterMap.2 ⟨_, hstart, if_pos rfl⟩

/-- A cycle in flight has a start. -/
theorem exists_start (hflight : InFlight h c) : ∃ start, ⟨c, start, .started⟩ ∈ h := by
  have hmem : .started ∈ calls c h := by simp [show calls c h = [.started] from hflight]
  obtain ⟨⟨cycle, start, call⟩, hm, hcall⟩ := List.mem_filterMap.1 hmem
  by_cases hcycle : cycle = c
  · subst hcycle
    obtain rfl : call = .started := by simpa using hcall
    exact ⟨start, hm⟩
  · simp [hcycle] at hcall

/-- One mark more is one step more of the record. -/
theorem kept_concat (h : List Mark) (m : Mark) : kept (h ++ [m]) = ((kept h).log m).2 :=
  List.foldl_append

/-- A start puts its moment in the place of its agent, an end empties that place. -/
theorem getElem?_kept_concat (h : List Mark) (m : Mark) (a : String) :
    (kept (h ++ [m]))[a]? =
      if m.cycle.agent = a then if m.call = .started then some m.moment else none
      else (kept h)[a]? := by
  rw [kept_concat]
  obtain ⟨cycle, moment, _ | _ | _⟩ := m <;>
    simp [log, started, completed, failed, Std.ExtTreeMap.getElem?_insert,
      Std.ExtTreeMap.getElem?_erase]

/-- The end of a cycle tells the time since the moment that is kept for its agent. -/
theorem told_ended (hend : m.call = .ended how) :
    told h m = (kept h)[m.cycle.agent]?.map (duration · m.moment) := by
  obtain ⟨cycle, moment, call⟩ := m
  obtain rfl : call = .ended how := hend
  cases how <;> cases hkept : (kept h)[cycle.agent]? <;>
    simp [told, log, completed, failed, elapsed, hkept, List.lookup_cons]

/-! ## One call after another -/

/-- What comes first of an interleaving is one. -/
theorem Interleaving.of_prefix (hh : Interleaving h) (hbefore : before <+: h) :
    Interleaving before := by
  refine ⟨hh.inOrder.sublist hbefore.sublist, fun c => ?_⟩
  obtain ⟨how, hcalls⟩ := hh.regular c
  exact ⟨how, (hbefore.filterMap _).trans hcalls⟩

/-- Cycles that are apart are so from the first mark on. -/
theorem Apart.of_prefix (happart : Apart h) (hbefore : before <+: h) : Apart before :=
  fun earlier hearlier => happart earlier (hearlier.trans hbefore)

/-- Only the cycles that a history names matter for its being one. -/
theorem interleaving_of_mem (hinOrder : h.Pairwise fun m m' => m.moment ≤ m'.moment)
    (hregular : ∀ m ∈ h, ∃ how, calls m.cycle h <+: [.started, .ended how]) : Interleaving h := by
  refine ⟨hinOrder, fun c => ?_⟩
  cases hcalls : calls c h with
  | nil => exact ⟨.completed, List.nil_prefix⟩
  | cons call rest =>
    obtain ⟨m, hm, rfl⟩ := exists_mem_of_calls (hcalls ▸ List.cons_ne_nil call rest)
    rw [← hcalls]
    exact hregular m hm

/-- Without a mark in flight, no cycle is. -/
theorem not_inFlight_of_mem (hnone : ∀ m ∈ h, ¬InFlight h m.cycle) (c : Cycle) : ¬InFlight h c := by
  intro hflight
  obtain ⟨m, hm, rfl⟩ := hflight.exists_mem
  exact hnone m hm hflight

/-- It is enough to look at the cycles that have left marks. -/
theorem apart_of_mem (happart : ∀ before ∈ h.inits, ∀ m ∈ before, ∀ m' ∈ before,
    InFlight before m.cycle → InFlight before m'.cycle → m.cycle.agent = m'.cycle.agent →
      m.cycle = m'.cycle) : Apart h := by
  intro before hbefore c c' hflight hflight'
  obtain ⟨m, hm, rfl⟩ := hflight.exists_mem
  obtain ⟨m', hm', rfl⟩ := hflight'.exists_mem
  exact happart before ((List.mem_inits ..).2 hbefore) m hm m' hm' hflight hflight'

/-- A call starts a new cycle, or ends one that is in flight. -/
theorem Interleaving.last (hh : Interleaving (h ++ [m])) :
    (m.call = .started ∧ calls m.cycle h = []) ∨
      ∃ how, m.call = .ended how ∧ InFlight h m.cycle := by
  obtain ⟨how, hcalls⟩ := hh.regular m.cycle
  rw [calls_concat_self] at hcalls
  cases hown : calls m.cycle h with
  | nil =>
    rw [hown, List.nil_append, List.cons_prefix_cons] at hcalls
    exact .inl ⟨hcalls.1, rfl⟩
  | cons first rest =>
    rw [hown, List.cons_append, List.cons_prefix_cons] at hcalls
    obtain ⟨rfl, hrest⟩ := hcalls
    cases rest with
    | nil =>
      rw [List.nil_append, List.cons_prefix_cons] at hrest
      exact .inr ⟨how, hrest.1, hown⟩
    | cons second rest => simpa [List.cons_prefix_cons] using hrest.length_le

/-- After a start the new cycle is in flight as well. -/
theorem inFlight_started (hstart : m.call = .started) (hnew : calls m.cycle h = []) :
    InFlight (h ++ [m]) c ↔ c = m.cycle ∨ InFlight h c := by
  by_cases hc : m.cycle = c
  · subst hc
    simp [InFlight, calls_concat_self, hnew, hstart]
  · simp [InFlight, calls_concat_of_ne hc, Ne.symm hc]

/-- After an end the cycle is not in flight any more. -/
theorem inFlight_ended (hend : m.call = .ended how) :
    InFlight (h ++ [m]) c ↔ c ≠ m.cycle ∧ InFlight h c := by
  by_cases hc : m.cycle = c
  · subst hc
    simp [InFlight, calls_concat_self, hend, List.append_eq_singleton_iff]
  · simp [InFlight, calls_concat_of_ne hc, Ne.symm hc]

/-- A call of another agent's cycle leaves a cycle in flight or not. -/
theorem inFlight_concat_of_ne (hagent : m.cycle.agent ≠ c.agent) :
    InFlight (h ++ [m]) c ↔ InFlight h c := by
  rw [InFlight, InFlight, calls_concat_of_ne fun heq => hagent (congrArg Cycle.agent heq)]

/-! ## What is kept -/

/-- A moment that is kept is the one at which a cycle in flight has started. -/
theorem exists_inFlight (hh : Interleaving h) (hkept : (kept h)[a]? = some start) :
    ∃ c, c.agent = a ∧ InFlight h c ∧ ⟨c, start, .started⟩ ∈ h := by
  induction h using List.reverseRecOn with
  | nil => simp [kept] at hkept
  | append_singleton h m ih =>
    rw [getElem?_kept_concat] at hkept
    by_cases hagent : m.cycle.agent = a
    · rw [if_pos hagent] at hkept
      rcases hh.last with ⟨hstart, hnew⟩ | ⟨how, hend, -⟩
      · rw [if_pos hstart, Option.some.injEq] at hkept
        refine ⟨m.cycle, hagent, (inFlight_started hstart hnew).2 (.inl rfl), ?_⟩
        simp [← hkept, ← hstart]
      · simp [hend] at hkept
    · rw [if_neg hagent] at hkept
      obtain ⟨c, rfl, hflight, hmem⟩ := ih (hh.of_prefix (List.prefix_append ..)) hkept
      exact ⟨c, rfl, (inFlight_concat_of_ne hagent).2 hflight, List.mem_append_left _ hmem⟩

/-- With no cycle in flight no moment is kept. -/
theorem kept_eq_empty (hh : Interleaving h) (hnone : ∀ c, ¬InFlight h c) : kept h = ∅ := by
  refine Std.ExtTreeMap.ext_getElem? fun {a} => ?_
  rw [Std.ExtTreeMap.getElem?_empty, Option.eq_none_iff_forall_ne_some]
  intro start hkept
  obtain ⟨c, -, hflight, -⟩ := exists_inFlight hh hkept
  exact hnone c hflight

/-- Where no two cycles of an agent are in flight together, the moment at which a cycle in flight
has started is kept. -/
theorem kept_of_apart (hh : Interleaving h) (happart : Apart h) (hflight : InFlight h c)
    (hmem : ⟨c, start, .started⟩ ∈ h) : (kept h)[c.agent]? = some start := by
  -- the moment kept for an agent is the start of its one cycle in flight, mark by mark
  induction h using List.reverseRecOn with
  | nil => simp at hmem
  | append_singleton h m ih =>
    have hfront : h <+: h ++ [m] := List.prefix_append ..
    rw [getElem?_kept_concat]
    rw [List.mem_append, List.mem_singleton] at hmem
    by_cases hagent : m.cycle.agent = c.agent
    · rcases hh.last with ⟨hstart, hnew⟩ | ⟨how, hend, hflying⟩
      · -- the cycle that starts is the only one of its agent in flight
        obtain rfl : c = m.cycle := happart _ (List.prefix_refl _) _ _ hflight
          ((inFlight_started hstart hnew).2 (.inl rfl)) hagent.symm
        rcases hmem with hold | hlast
        · exact absurd (started_mem_calls hold) (by simp [hnew])
        · rw [if_pos rfl, if_pos hstart, ← hlast]
      · -- the cycle that ends was the only one of its agent in flight
        obtain ⟨hne, hother⟩ := (inFlight_ended hend).1 hflight
        exact absurd (happart _ hfront _ _ hother hflying hagent.symm) hne
    · rw [if_neg hagent]
      rcases hmem with hold | rfl
      · exact ih (hh.of_prefix hfront) (happart.of_prefix hfront)
          ((inFlight_concat_of_ne hagent).1 hflight) hold
      · exact absurd rfl hagent

/-! ## More cycles than moments -/

/-- More cycles of an agent are in flight than moments are kept for it. -/
def Crowded (h : List Mark) (a : String) : Prop :=
  ∃ c, c.agent = a ∧ InFlight h c ∧
    ((kept h)[a]? = none ∨ ∃ c', c' ≠ c ∧ c'.agent = a ∧ InFlight h c')

/-- A call that tells a time if it is an end leaves an agent crowded. -/
theorem Crowded.concat (hh : Interleaving (h ++ [m])) (hcrowded : Crowded h a)
    (htold : ∀ how, m.call = .ended how → told h m ≠ none) : Crowded (h ++ [m]) a := by
  obtain ⟨c, rfl, hflight, hcrowd⟩ := hcrowded
  -- a mark of another agent changes nothing for this one
  by_cases hagent : m.cycle.agent = c.agent
  · rcases hh.last with ⟨hstart, hnew⟩ | ⟨how, hend, hflying⟩
    · -- the new cycle is in flight beside the one that was
      have hne : m.cycle ≠ c := by
        rintro rfl
        rw [InFlight, hnew] at hflight
        cases hflight
      exact ⟨c, rfl, (inFlight_started hstart hnew).2 (.inr hflight),
        .inr ⟨m.cycle, hne, hagent, (inFlight_started hstart hnew).2 (.inl rfl)⟩⟩
    · -- the end has found a moment, so there were two cycles in flight
      have hemptied : (kept (h ++ [m]))[c.agent]? = none := by
        simp [getElem?_kept_concat, hagent, hend]
      have htold := htold how hend
      rw [told_ended hend, hagent] at htold
      rcases hcrowd with hnone | ⟨c', hne, hc', hflight'⟩
      · simp [hnone] at htold
      · by_cases hc : c = m.cycle
        · exact ⟨c', hc', (inFlight_ended hend).2 ⟨hc ▸ hne, hflight'⟩, .inl hemptied⟩
        · exact ⟨c, rfl, (inFlight_ended hend).2 ⟨hc, hflight⟩, .inl hemptied⟩
  · refine ⟨c, rfl, (inFlight_concat_of_ne hagent).2 hflight, ?_⟩
    rw [getElem?_kept_concat, if_neg hagent]
    refine hcrowd.imp_right fun ⟨c', hne, hc', hflight'⟩ => ⟨c', hne, hc', ?_⟩
    exact (inFlight_concat_of_ne (hc' ▸ hagent)).2 hflight'

/-- If all ends tell a time, an agent that is crowded stays so. -/
theorem Crowded.append {rest : List Mark} (hh : Interleaving (h ++ rest)) (hcrowded : Crowded h a)
    (htold : ∀ before m after how, rest = before ++ m :: after → m.call = .ended how →
      told (h ++ before) m ≠ none) : Crowded (h ++ rest) a := by
  induction rest generalizing h with
  | nil => rwa [List.append_nil]
  | cons m rest ih =>
    rw [List.append_cons] at hh ⊢
    refine ih hh (hcrowded.concat (hh.of_prefix (List.prefix_append ..)) fun how hend => ?_) ?_
    · simpa using htold [] m rest how rfl hend
    · intro before m' after how heq hend
      simpa using htold (m :: before) m' after how (by rw [heq, List.cons_append]) hend

/-- If all ends tell a time and all cycles end, no two cycles of an agent are in flight together. -/
theorem apart_of_told (hh : Interleaving h) (hcomplete : ∀ c, ¬InFlight h c)
    (htold : ∀ before m rest how, h = before ++ m :: rest → m.call = .ended how →
      told before m ≠ none) : Apart h := by
  rintro before ⟨rest, rfl⟩ c c' hflight hflight' hagent
  by_contra hne
  have hcrowded : Crowded before c.agent :=
    ⟨c, rfl, hflight, .inr ⟨c', Ne.symm hne, hagent.symm, hflight'⟩⟩
  obtain ⟨left, -, hleft, -⟩ := hcrowded.append hh fun between m after how heq hend =>
    htold (before ++ between) m after how (by rw [heq, List.append_assoc]) hend
  exact hcomplete left hleft

/-- Cycles that are apart are told with their own time. -/
theorem tellsOwn_of_apart (hh : Interleaving h) (happart : Apart h) : TellsOwn h := by
  rintro before m rest start how rfl hend hmem
  have hfront : before ++ [m] <+: before ++ m :: rest := by simp
  have hbefore : before <+: before ++ m :: rest := List.prefix_append ..
  rcases (hh.of_prefix hfront).last with ⟨hstart, -⟩ | ⟨-, -, hflight⟩
  · simp [hend] at hstart
  · rw [told_ended hend,
      kept_of_apart (hh.of_prefix hbefore) (happart.of_prefix hbefore) hflight hmem]
    rfl

/-- A cycle that is told with its own time is told with some time. -/
theorem told_of_tellsOwn (hh : Interleaving h) (htells : TellsOwn h) {rest : List Mark}
    (heq : h = before ++ m :: rest) (hend : m.call = .ended how) : told before m ≠ none := by
  have hfront : before ++ [m] <+: h := by simp [heq]
  rcases (hh.of_prefix hfront).last with ⟨hstart, -⟩ | ⟨-, -, hflight⟩
  · simp [hend] at hstart
  · obtain ⟨start, hmem⟩ := exists_start hflight
    simp [htells before m rest start how heq hend hmem]

/-- Cycles take turns and all of them end.  Every end tells the time since the start of its own
cycle if and only if no two cycles of an agent are ever in flight together; otherwise there is an
end that tells no time.  Whenever no cycle is in flight, no moment is kept. -/
theorem tellsOwn_iff_apart (hh : Interleaving h) (hcomplete : ∀ c, ¬InFlight h c) :
    (TellsOwn h ↔ Apart h) ∧
      (¬Apart h → ∃ before m rest how, h = before ++ m :: rest ∧ m.call = .ended how ∧
        told before m = none) ∧
      ∀ before, before <+: h → (∀ c, ¬InFlight before c) → kept before = ∅ := by
  refine ⟨⟨fun htells => ?_, tellsOwn_of_apart hh⟩, fun hoverlap => ?_, fun before hbefore => ?_⟩
  · exact apart_of_told hh hcomplete fun _ _ _ _ heq hend => told_of_tellsOwn hh htells heq hend
  · by_contra hnone
    refine hoverlap (apart_of_told hh hcomplete fun before m rest how heq hend htold => ?_)
    exact hnone ⟨before, m, rest, how, heq, hend, htold⟩
  · exact kept_eq_empty (hh.of_prefix hbefore)

/-- Cycles of two agents take turns, and one agent has a second cycle after its first: every end
tells its own time. -/
theorem tellsOwn_iff_apart_twoAgents :
    let hosts : Cycle := ⟨"hosts", 0⟩
    let disks : Cycle := ⟨"disks", 1⟩
    let again : Cycle := ⟨"hosts", 2⟩
    let second (n : Fin 60) : Instant := ⟨.ofNat n, 999999, by decide⟩
    let h : List Mark :=
      [⟨hosts, second 0, .started⟩, ⟨disks, second 2, .started⟩,
        ⟨hosts, second 5, .ended .completed⟩, ⟨again, second 5, .started⟩,
        ⟨disks, second 9, .ended .completed⟩, ⟨again, second 12, .ended .completed⟩]
    Interleaving h ∧ (∀ c, ¬InFlight h c) ∧ TellsOwn h ∧ kept h = ∅ := by
  intro hosts disks again second h
  have hh : Interleaving h := interleaving_of_mem (by decide) fun m hm => ⟨.completed, by
    revert m; decide⟩
  have hcomplete : ∀ c, ¬InFlight h c := not_inFlight_of_mem (by decide)
  have hiff := tellsOwn_iff_apart hh hcomplete
  exact ⟨hh, hcomplete, hiff.1.2 (apart_of_mem (by decide)),
    hiff.2.2 h (List.prefix_refl h) hcomplete⟩

/-- Two cycles of one agent overlap, and the first to start is the last to end: its end tells no
time at all. -/
theorem not_always_tellsOwn :
    ¬∀ h, Interleaving h → (∀ c, ¬InFlight h c) → TellsOwn h := by
  intro htells
  let first : Cycle := ⟨"hosts", 0⟩
  let second : Cycle := ⟨"hosts", 1⟩
  let start : Instant := ⟨0, 0, by decide⟩
  let later : Instant := ⟨5, 0, by decide⟩
  let stop : Instant := ⟨8, 0, by decide⟩
  let front : List Mark :=
    [⟨first, start, .started⟩, ⟨second, later, .started⟩, ⟨second, stop, .ended .completed⟩]
  let last : Mark := ⟨first, stop, .ended .completed⟩
  have hh : Interleaving (front ++ [last]) := interleaving_of_mem (by decide) fun m hm =>
    ⟨.completed, by revert m; decide⟩
  have hown := htells _ hh (not_inFlight_of_mem (by decide)) front last [] start .completed rfl rfl
    (by decide)
  have htold : told front last = none := by decide +kernel
  simp [htold] at hown

end Progress

end EntityCache
