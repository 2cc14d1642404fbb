import EntityCache.Firing.Guarded
import EntityCache.Proofs.Exchanges

/-!
# How a firing is reported

A firing makes the calls of an attempt in their order, up to the first one that goes wrong: it
fails, panics, or is given up because the lock is lost.  If one does, the firing gives back its
lock and then calls `failed`, once and as its last call, with the error of the call that has gone
wrong; otherwise it makes all calls of the attempt and no other.  A firing that is skipped makes
none.

`Reported` says so of the exchanges of a firing, and `reported_of_takes` shows it of every firing,
with or without a lock, whatever it is answered.  Where the lock is granted and not lost, a firing
makes the calls of one without locks (`plain_of_takes`).
-/

namespace EntityCache

namespace Firing

/-! ## Calls -/

/-- A call with its answer; `none` if it has been given up. -/
abbrev Call := (r : AgentRequest) × Option r.Reply

/-- The calls of an attempt that nothing goes wrong with. -/
def order : List AgentRequest := [.started, .execute, .finish, .completed]

/-- What an answer of a call of an attempt says has gone wrong, if something has. -/
def AgentRequest.fault? (agent : String) : (r : AgentRequest) → r.Reply → Option ErrorChain
  | .started, .fails text => some (callbackError .started agent text)
  | .finish, .fails error => some error
  | .completed, .fails text => some (callbackError .completed agent text)
  | .started, .panics message | .finish, .panics message | .completed, .panics message =>
    some (panicError agent message)
  | .started, .ok | .execute, _ | .finish, .ok | .completed, .ok | .failed _, _ => none

/-- What has gone wrong with a call, if something has. -/
def Call.error? (agent : String) : Call → Option ErrorChain
  | ⟨r, some answer⟩ => r.fault? agent answer
  | ⟨_, none⟩ => some [(DomainError.lockLost agent).message]

/-- The call of an exchange, if it is one. -/
def call? : Exchange Request.Reply → Option Call
  | ⟨.call r, reply⟩ => some ⟨r, some reply⟩
  | ⟨.guarded r, reply⟩ => some ⟨r, reply⟩
  | _ => none

/-- The calls among exchanges. -/
def calls (xs : List (Exchange Request.Reply)) : List Call := xs.filterMap call?

/-- The answered calls among exchanges. -/
def answered (xs : List (Exchange Request.Reply)) : List (Exchange AgentRequest.Reply) :=
  (calls xs).filterMap fun call => call.2.map (⟨call.1, ·⟩)

/-- Whether the lock is held after an exchange. -/
def holds (held : Bool) : Exchange Request.Reply → Bool
  | ⟨.acquire _, .ok granted⟩ => held || granted
  | ⟨.release _, _⟩ => false
  | _ => held

/-- Whether the lock is held after exchanges. -/
def locked (xs : List (Exchange Request.Reply)) : Bool := xs.foldl holds false

/-- Whether the agent is marked by the firing after an exchange. -/
def marks (marked : Bool) : Exchange Request.Reply → Bool
  | ⟨.enter, granted⟩ => marked || granted
  | ⟨.leave, _⟩ => false
  | _ => marked

/-- Whether a firing is past its entry after exchanges: it has been let in and has not left. -/
def entered (xs : List (Exchange Request.Reply)) : Bool := xs.foldl marks false

/-- How a firing has been reported that has ended. -/
inductive Reported (agent : String) : List (Exchange Request.Reply) → Ended → Prop where
  | skipped {xs : List (Exchange Request.Reply)} {reason : SkipReason} (silent : calls xs = []) :
    Reported agent xs (.outcome (.skipped reason))
  | completed {xs : List (Exchange Request.Reply)} (ordered : (calls xs).map (·.1) = order)
      (fine : ∀ call ∈ calls xs, call.error? agent = none) :
    Reported agent xs (.outcome .completed)
  /-- The last of the calls before has gone wrong, and it is the only one. -/
  | failed {before after : List (Exchange Request.Reply)} {made : List Call} {broken : Call}
      {error : ErrorChain} {answer : Reaction String} (attempted : calls before = made ++ [broken])
      (ordered : (calls before).map (·.1) <+: order)
      (fine : ∀ call ∈ made, call.error? agent = none) (broke : broken.error? agent = some error)
      (unlocked : locked before = false) (last : calls after = []) :
    Reported agent (before ++ ⟨.call (.failed error), answer⟩ :: after)
      (reported agent error answer)

variable {agent process : String} {rest : List AgentRequest} {made : List Call} {call : Call}
  {result : Except ErrorChain Unit} {ended ended' : Ended} {lost error : ErrorChain}
  {p : Program AgentRequest AgentRequest.Reply (Except ErrorChain Unit)}
  {xs ys : List (Exchange Request.Reply)}

/-- The calls of exchanges in two parts. -/
theorem calls_append : calls (xs ++ ys) = calls xs ++ calls ys := List.filterMap_append

/-- Exchanges that are no calls have none. -/
theorem calls_eq_nil (h : ∀ x ∈ xs, call? x = none) : calls xs = [] :=
  List.filterMap_eq_nil_iff.2 h

/-! ## Attempts -/

/-- The rest of an attempt: calls in order, up to the first that goes wrong. -/
inductive Attempts (agent : String) : List AgentRequest →
    Program AgentRequest AgentRequest.Reply (Except ErrorChain Unit) → Prop where
  | done : Attempts agent [] (.done (.ok ()))
  | ask {r : AgentRequest} {rest : List AgentRequest}
      {next : r.Reply → Program AgentRequest AgentRequest.Reply (Except ErrorChain Unit)}
      (fine : ∀ answer, r.fault? agent answer = none → Attempts agent rest (next answer))
      (broken : ∀ answer error, r.fault? agent answer = some error →
        next answer = .done (.error error)) :
      Attempts agent (r :: rest) (.ask r next)

/-- An attempt makes its calls in order, up to the first that breaks. -/
theorem attempts_attempt (agent : String) : Attempts agent order (attempt agent) := by
  refine .ask (fun started hstarted => ?_) fun started error hstarted => ?_
  case refine_2 => cases started <;> simp_all [AgentRequest.fault?]
  cases started with
  | fails | panics => simp [AgentRequest.fault?] at hstarted
  | ok =>
    refine .ask (fun _ _ => ?_) fun _ _ hexecute => by simp [AgentRequest.fault?] at hexecute
    refine .ask (fun finished hfinished => ?_) fun finished error hfinished => ?_
    case refine_2 => cases finished <;> simp_all [AgentRequest.fault?]
    cases finished with
    | fails | panics => simp [AgentRequest.fault?] at hfinished
    | ok =>
      refine .ask (fun completed hcompleted => ?_) fun completed error hcompleted => ?_
      case refine_2 => cases completed <;> simp_all [AgentRequest.fault?]
      cases completed with
      | fails | panics => simp [AgentRequest.fault?] at hcompleted
      | ok => exact .done

/-- The calls of an attempt that has ended: all of them, or those up to one that has gone wrong. -/
inductive Attempted (agent : String) (rest : List AgentRequest) :
    List Call → Except ErrorChain Unit → Prop where
  | whole {made : List Call} (ordered : made.map (·.1) = rest)
      (fine : ∀ call ∈ made, call.error? agent = none) : Attempted agent rest made (.ok ())
  | part {made : List Call} {broken : Call} {error : ErrorChain}
      (ordered : (made ++ [broken]).map (·.1) <+: rest)
      (fine : ∀ call ∈ made, call.error? agent = none) (broke : broken.error? agent = some error) :
      Attempted agent rest (made ++ [broken]) (.error error)

/-- After a call without an error the attempt goes on. -/
theorem Attempted.cons (hfine : call.error? agent = none) (h : Attempted agent rest made result) :
    Attempted agent (call.1 :: rest) (call :: made) result := by
  cases h with
  | whole ordered fine =>
    exact .whole (by rw [List.map_cons, ordered]) (List.forall_mem_cons.2 ⟨hfine, fine⟩)
  | part ordered fine broke =>
    rw [← List.cons_append]
    refine .part ?_ (List.forall_mem_cons.2 ⟨hfine, fine⟩) broke
    rw [List.cons_append, List.map_cons]
    exact (List.cons_prefix_cons).2 ⟨rfl, ordered⟩

/-- An attempt ends at the call that breaks. -/
theorem attempted_of_broke (h : call.error? agent = some error) :
    Attempted agent (call.1 :: rest) [call] (.error error) := by
  have hnil : Attempted agent (call.1 :: rest) ([] ++ [call]) (.error error) :=
    .part (by simp) (by simp) h
  exact hnil

/-- The next call of an attempt is answered, or the attempt is given up. -/
theorem cases_of_takes_whileHeld {r : AgentRequest}
    {next : r.Reply → Program AgentRequest AgentRequest.Reply (Except ErrorChain Unit)}
    (htakes : (whileHeld lost (.ask r next)).Takes xs (.done result)) :
    (xs = [⟨.guarded r, none⟩] ∧ result = .error lost) ∨
      ∃ answer ys, xs = ⟨.guarded r, some answer⟩ :: ys ∧
        (whileHeld lost (next answer)).Takes ys (.done result) := by
  rw [whileHeld] at htakes
  obtain ⟨reply, ys, rfl, hys⟩ := htakes.of_ask
  cases reply with
  | none =>
    obtain ⟨rfl, rfl⟩ := hys.of_done
    exact .inl ⟨rfl, rfl⟩
  | some answer => exact .inr ⟨answer, ys, rfl, hys⟩

/-- An attempt under a lock, up to its end or to the loss of the lock. -/
theorem Attempts.attempted (h : Attempts agent rest p)
    (htakes : (whileHeld [(DomainError.lockLost agent).message] p).Takes xs (.done result)) :
    Attempted agent rest (calls xs) result := by
  induction h generalizing xs with
  | done =>
    obtain ⟨rfl, rfl⟩ := htakes.of_done
    exact .whole rfl (by simp [calls])
  | @ask r rest next fine broken ih =>
    obtain ⟨rfl, rfl⟩ | ⟨answer, ys, rfl, hys⟩ := cases_of_takes_whileHeld htakes
    · have hlost : Call.error? agent ⟨r, none⟩ = some [(DomainError.lockLost agent).message] := rfl
      exact attempted_of_broke hlost
    · cases hfault : r.fault? agent answer with
      | none =>
        have hfine : Call.error? agent ⟨r, some answer⟩ = none := hfault
        exact (ih answer hfault hys).cons hfine
      | some error =>
        have hbroke : Call.error? agent ⟨r, some answer⟩ = some error := hfault
        rw [broken answer error hfault] at hys
        obtain ⟨rfl, rfl⟩ := Program.Takes.of_done hys
        exact attempted_of_broke hbroke

/-- As long as the lock is not lost, an attempt is the same with it and without. -/
theorem takes_of_whileHeld (htakes : (whileHeld lost p).Takes xs (.done result))
    (hkept : ∀ r, ⟨.guarded r, none⟩ ∉ xs) : p.Takes (answered xs) (.done result) := by
  induction p generalizing xs with
  | done _ =>
    obtain ⟨rfl, rfl⟩ := htakes.of_done
    exact .refl _
  | ask r next ih =>
    obtain ⟨rfl, -⟩ | ⟨answer, ys, rfl, hys⟩ := cases_of_takes_whileHeld htakes
    · exact absurd List.mem_cons_self (hkept r)
    · exact .ask (ih answer hys fun r hmem => hkept r (List.mem_cons_of_mem _ hmem))

/-- While the lock is held, an attempt takes the exchanges that it takes without one. -/
theorem takes_whileHeld {ys : List (Exchange AgentRequest.Reply)}
    (htakes : p.Takes ys (.done result)) :
    (whileHeld lost p).Takes (ys.map fun y => ⟨.guarded y.1, some y.2⟩) (.done result) := by
  induction p generalizing ys with
  | done _ =>
    obtain ⟨rfl, rfl⟩ := htakes.of_done
    exact .refl _
  | ask r next ih =>
    obtain ⟨reply, zs, rfl, hzs⟩ := htakes.of_ask
    have hnext := ih reply hzs
    rw [whileHeld]
    exact .ask hnext

/-! ## After the attempt -/

/-- What is called after an attempt, and how the firing ends. -/
inductive Concluded (agent : String) :
    Except ErrorChain Unit → List (Exchange AgentRequest.Reply) → Ended → Prop where
  | whole : Concluded agent (.ok ()) [] (.outcome .completed)
  | part (error : ErrorChain) (answer : Reaction String) :
    Concluded agent (.error error) [⟨.failed error, answer⟩] (reported agent error answer)

/-- A firing without locks is an attempt and what is called after it. -/
theorem takes_plain_iff {ys : List (Exchange AgentRequest.Reply)} :
    (plain agent).Takes ys (.done ended) ↔ ∃ result made rest, ys = made ++ rest ∧
      (attempt agent).Takes made (.done result) ∧ Concluded agent result rest ended := by
  constructor
  · intro htakes
    -- an attempt that is whole is followed by nothing, one that failed by its report
    obtain ⟨result, made, rest, rfl, hmade, hrest⟩ := Program.Takes.of_bind htakes
    refine ⟨result, made, rest, rfl, hmade, ?_⟩
    cases result with
    | ok =>
      obtain ⟨rfl, rfl⟩ := Program.Takes.of_done hrest
      exact .whole
    | error error =>
      obtain ⟨answer, nothing, rfl, hdone⟩ := Program.Takes.of_ask hrest
      obtain ⟨rfl, rfl⟩ := Program.Takes.of_done hdone
      exact .part error answer
  · rintro ⟨result, made, rest, rfl, hmade, hrest⟩
    refine Program.Takes.bind hmade ?_
    cases hrest with
    | whole => exact .refl _
    | part error answer => exact .ask (.refl _)

/-- The calls of a firing that nothing can interrupt, as exchanges. -/
def uninterrupted (ys : List (Exchange AgentRequest.Reply)) : List (Exchange Request.Reply) :=
  ys.map fun y => ⟨.call y.1, y.2⟩

/-- An attempt that is not interrupted makes its own calls. -/
theorem calls_uninterrupted (ys : List (Exchange AgentRequest.Reply)) :
    calls (uninterrupted ys) = ys.map fun y => ⟨y.1, some y.2⟩ := by
  induction ys with
  | nil => rfl
  | cons y ys ih => exact congrArg (_ :: ·) ih

/-- In the course of an attempt no lock is taken. -/
theorem locked_uninterrupted (ys : List (Exchange AgentRequest.Reply)) :
    locked (uninterrupted ys) = false := by
  induction ys with
  | nil => rfl
  | cons y ys ih => exact ih

/-- Where the lock is released before a failure is reported, a firing has been reported. -/
theorem Concluded.reported {before after : List (Exchange Request.Reply)}
    {rest : List (Exchange AgentRequest.Reply)} (h : Concluded agent result rest ended)
    (hattempted : Attempted agent order (calls before) result) (hunlocked : locked before = false)
    (hlast : calls after = []) : Reported agent (before ++ uninterrupted rest ++ after) ended := by
  cases h with
  | whole =>
    have hcalls : calls (before ++ uninterrupted [] ++ after) = calls before := by
      simp [calls_append, hlast, uninterrupted]
    generalize hmade : calls before = made at hattempted
    cases hattempted with
    | whole ordered fine =>
      exact .completed (by rw [hcalls, hmade, ordered]) (by rwa [hcalls, hmade])
  | part error answer =>
    rw [List.append_assoc]
    generalize hmade : calls before = made at hattempted
    cases hattempted with
    | part ordered fine broke => exact .failed hmade (by rwa [hmade]) fine broke hunlocked hlast

/-- To leave is one exchange, and the end stays what it was. -/
theorem takes_leaving (htakes : (leaving ended).Takes xs (.done ended')) :
    xs = [⟨.leave, ()⟩] ∧ ended' = ended := by
  obtain ⟨⟨⟩, rest, rfl, hrest⟩ := htakes.of_ask
  obtain ⟨rfl, rfl⟩ := hrest.of_done
  exact ⟨rfl, rfl⟩

/-- A firing under the lock makes an attempt, releases the lock, and concludes. -/
theorem exists_of_takes_holding {owner : String}
    (htakes : (holding agent owner).Takes xs (.done ended)) :
    ∃ result made rest,
      xs = made ++ ⟨.release owner, ()⟩ :: (uninterrupted rest ++ [⟨.leave, ()⟩]) ∧
      (whileHeld [(DomainError.lockLost agent).message] (attempt agent)).Takes made (.done result) ∧
      Concluded agent result rest ended := by
  obtain ⟨result, made, rest, rfl, hmade, hreleasing⟩ := Program.Takes.of_bind htakes
  obtain ⟨⟨⟩, left, rfl, hleft⟩ := hreleasing.of_ask
  cases result with
  | ok =>
    obtain ⟨rfl, rfl⟩ := takes_leaving hleft
    exact ⟨.ok (), made, [], rfl, hmade, .whole⟩
  | error error =>
    obtain ⟨answer, last, rfl, hlast⟩ := Program.Takes.of_ask hleft
    obtain ⟨rfl, rfl⟩ := takes_leaving hlast
    exact ⟨.error error, made, [⟨.failed error, answer⟩], rfl, hmade, .part error answer⟩

/-! ## Whole firings -/

/-- A firing on a node is skipped without a call, or it gets the lock of its agent and goes on. -/
def SkippedOrHeld (agent : String) (xs : List (Exchange Request.Reply)) (ended : Ended) : Prop :=
  (∃ reason, ended = .outcome (.skipped reason) ∧ calls xs = [] ∧
      ∀ owner, ⟨.acquire owner, .ok true⟩ ∉ xs) ∨
    ∃ before owner held, xs = before ++ held ∧ calls before = [] ∧
      (holding agent owner).Takes held (.done ended)

/-- Lookups of the identity that come before change nothing about the lock. -/
theorem SkippedOrHeld.append {before : List (Exchange Request.Reply)}
    (h : SkippedOrHeld agent xs ended)
    (hbefore : ∀ x ∈ before, ∃ q reply, x = ⟨.resolve q, reply⟩) :
    SkippedOrHeld agent (before ++ xs) ended := by
  have hsilent : calls before = [] := calls_eq_nil fun x hx => by
    obtain ⟨q, reply, rfl⟩ := hbefore x hx
    rfl
  rcases h with ⟨reason, hended, hcalls, hnever⟩ | ⟨waiting, owner, held, rfl, hwaiting, hheld⟩
  · refine .inl ⟨reason, hended, by rw [calls_append, hsilent, hcalls]; rfl, fun owner hmem => ?_⟩
    rcases List.mem_append.1 hmem with hmem | hmem
    · obtain ⟨q, reply, hx⟩ := hbefore _ hmem
      cases hx
    · exact hnever owner hmem
  · refine .inr ⟨before ++ waiting, owner, held, (List.append_assoc ..).symm, ?_, hheld⟩
    rw [calls_append, hsilent, hwaiting]
    rfl

/-- Once it has an identity, a firing skips or runs under the lock. -/
theorem skippedOrHeld_of_takes_entering {identity : Identity}
    (htakes : (entering agent identity).Takes xs (.done ended)) : SkippedOrHeld agent xs ended := by
  unfold entering at htakes
  split at htakes
  case isTrue =>
    obtain ⟨rfl, rfl⟩ := htakes.of_done
    exact .inl ⟨_, rfl, rfl, by simp⟩
  case isFalse =>
    obtain ⟨entered, ys, rfl, hentered⟩ := htakes.of_ask
    cases entered with
    | false =>
      obtain ⟨rfl, rfl⟩ := hentered.of_done
      exact .inl ⟨_, rfl, rfl, by simp⟩
    | true =>
      obtain ⟨granted, zs, rfl, hgranted⟩ := Program.Takes.of_ask hentered
      -- an error of the service and a refusal skip alike; a grant goes on under the lock
      rcases granted with e | _ | _
      · obtain ⟨rfl, rfl⟩ := takes_leaving hgranted
        exact .inl ⟨_, rfl, rfl, by simp⟩
      · obtain ⟨rfl, rfl⟩ := takes_leaving hgranted
        exact .inl ⟨_, rfl, rfl, by simp⟩
      · exact .inr ⟨[_, _], identity.value, zs, rfl, rfl, hgranted⟩

/-- A guarded firing skips or runs under the lock. -/
theorem skippedOrHeld_of_takes_guarded (htakes : (guarded process agent).Takes xs (.done ended)) :
    SkippedOrHeld agent xs ended := by
  obtain ⟨identity, resolving, rest, rfl, hresolving, hentering⟩ := Program.Takes.of_bind htakes
  obtain ⟨resolved, rfl, -⟩ := hresolving.of_mapRequests
  refine (skippedOrHeld_of_takes_entering hentering).append fun x hx => ?_
  obtain ⟨y, -, rfl⟩ := List.mem_map.1 hx
  exact ⟨y.1, y.2, rfl⟩

/-- Without a lock the calls of a firing are those of the attempt and what follows it. -/
theorem exists_of_takes_unguarded (htakes : (unguarded agent).Takes xs (.done ended)) :
    ∃ ys, xs = uninterrupted ys ∧ (plain agent).Takes ys (.done ended) := by
  obtain ⟨ys, rfl, hys⟩ := Program.Takes.of_mapRequests htakes
  have hsame : (ys.map fun y => (⟨y.1, y.2⟩ : Exchange AgentRequest.Reply)) = ys := List.map_id ys
  rw [hsame] at hys
  exact ⟨ys, rfl, hys⟩

/-- Whatever a firing is answered, with a lock or without, it is reported. -/
theorem reported_of_takes {firing : Steps Ended}
    (hfiring : firing = unguarded agent ∨ firing = guarded process agent)
    (htakes : firing.Takes xs (.done ended)) : Reported agent xs ended := by
  rcases hfiring with rfl | rfl
  case inl =>
    obtain ⟨ys, rfl, hys⟩ := exists_of_takes_unguarded htakes
    obtain ⟨result, made, rest, rfl, hmade, hconcluded⟩ := takes_plain_iff.1 hys
    -- the attempt is one under a lock that is never lost
    have hattempted := (attempts_attempt agent).attempted (takes_whileHeld hmade)
    have hcalls : calls (made.map fun y => ⟨.guarded y.1, some y.2⟩) =
        calls (uninterrupted made) := by
      simp [calls, uninterrupted, List.filterMap_map, Function.comp_def, call?]
    rw [hcalls] at hattempted
    have hlast : calls [] = [] := rfl
    have hreported := hconcluded.reported hattempted (locked_uninterrupted made) hlast
    simpa [uninterrupted] using hreported
  case inr =>
    rcases skippedOrHeld_of_takes_guarded htakes with
      ⟨reason, rfl, hsilent, -⟩ | ⟨before, owner, held, rfl, hsilent, hheld⟩
    · exact .skipped hsilent
    · obtain ⟨result, made, rest, rfl, hmade, hconcluded⟩ := exists_of_takes_holding hheld
      have hattempted := (attempts_attempt agent).attempted hmade
      have hcalls : calls (before ++ made ++ [⟨.release owner, ()⟩]) = calls made := by
        rw [calls_append, calls_append, hsilent, List.nil_append]
        exact List.append_nil _
      rw [← hcalls] at hattempted
      have hunlocked : locked (before ++ made ++ [⟨.release owner, ()⟩]) = false := by
        simp [locked, holds]
      have hlast : calls [⟨.leave, ()⟩] = [] := rfl
      have hreported := hconcluded.reported hattempted hunlocked hlast
      simpa using hreported

/-- Where the lock is granted and no call is given up, a firing under the lock makes the calls of
one without locks, and ends like it.  The lock is asked for only under a valid identity, and only
if the node is not executing the agent. -/
theorem plain_of_takes (htakes : (guarded process agent).Takes xs (.done ended))
    (hgranted : ∃ owner, ⟨.acquire owner, .ok true⟩ ∈ xs)
    (hkept : ∀ r, ⟨.guarded r, none⟩ ∉ xs) : (plain agent).Takes (answered xs) (.done ended) := by
  obtain ⟨owner, hgranted⟩ := hgranted
  rcases skippedOrHeld_of_takes_guarded htakes with
    ⟨reason, rfl, -, hnever⟩ | ⟨before, owner, held, rfl, hsilent, hheld⟩
  · exact absurd hgranted (hnever owner)
  · obtain ⟨result, made, rest, rfl, hmade, hconcluded⟩ := exists_of_takes_holding hheld
    have hattempt : (attempt agent).Takes (answered made) (.done result) := by
      refine takes_of_whileHeld hmade fun r hmem => hkept r ?_
      exact List.mem_append_right _ (List.mem_append_left _ hmem)
    refine takes_plain_iff.2 ⟨result, _, rest, ?_, hattempt, hconcluded⟩
    -- the requests around the attempt are no calls, so the answers are those of the attempt and the
    -- report
    have hcalls : calls (before ++ (made ++
        ⟨.release owner, ()⟩ :: (uninterrupted rest ++ [⟨.leave, ()⟩]))) =
        calls made ++ rest.map fun y => ⟨y.1, some y.2⟩ := by
      rw [calls_append, hsilent, calls_append, ← calls_uninterrupted]
      show calls made ++ calls (uninterrupted rest ++ [⟨.leave, ()⟩]) = _
      rw [calls_append]
      exact congrArg (calls made ++ ·) (List.append_nil _)
    rw [answered, hcalls, List.filterMap_append, List.filterMap_map]
    exact congrArg (answered made ++ ·) List.filterMap_some

end Firing

end EntityCache
