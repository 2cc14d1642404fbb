import EntityCache.Proofs.Firing.Protocol
import EntityCache.Proofs.Firing.Reports
import Mathlib.Data.List.Induction

/-!
# What a firing takes it gives back

On every way out of a firing a lock that it has been granted is released before the end
(`released_of_granted`); after the release the firing only calls and leaves (`ReleasesLast`), so
that it never asks for the lock again; and one that is skipped was granted none
(`not_granted_of_skipped`).
-/

namespace EntityCache

namespace Firing

variable {agent process : String} {own : String → Prop} {phase : Phase} {ended : Ended}
  {p p' : Steps Ended} {xs : List (Exchange Request.Reply)}

/-- A lock that is held after an exchange was held before, or has just been granted. -/
theorem granted_of_holds {held : Bool} {x : Exchange Request.Reply} (h : holds held x = true) :
    held = true ∨ ∃ owner, x = ⟨.acquire owner, .ok true⟩ := by
  rcases x with ⟨r, reply⟩
  cases r with
  | acquire owner =>
    rcases reply with error | _ | _
    · exact .inl h
    · exact .inl (by simpa [holds] using h)
    · exact .inr ⟨owner, rfl⟩
  | release => simp [holds] at h
  | resolve | enter | leave | call | guarded => exact .inl h

/-- A lock that is held has been granted. -/
theorem granted_of_locked (h : locked xs = true) : ∃ owner, ⟨.acquire owner, .ok true⟩ ∈ xs := by
  induction xs using List.reverseRecOn with
  | nil => simp [locked] at h
  | append_singleton xs x ih =>
    rw [locked, List.foldl_append] at h
    rcases granted_of_holds h with hbefore | ⟨owner, rfl⟩
    · obtain ⟨owner, hmem⟩ := ih hbefore
      exact ⟨owner, List.mem_append_left _ hmem⟩
    · exact ⟨owner, by simp⟩

/-- A lock that a firing holds, or that it is granted, has been released when it ends. -/
theorem Follows.gives_back (h : Follows process (fun _ => True) phase p)
    (htakes : p.Takes xs (.done ended)) {owner : String}
    (hheld : (∃ executing, phase = .holding owner executing) ∨
      ⟨.acquire owner, .ok true⟩ ∈ xs) : ⟨.release owner, ()⟩ ∈ xs := by
  -- the lock is held already, or will be granted later on; either way the release lies ahead
  induction h generalizing xs with
  | done =>
    obtain ⟨rfl, -⟩ := htakes.of_done
    simp at hheld
  | @resolve q next writes rest ih =>
    obtain ⟨reply, ys, rfl, hys⟩ := htakes.of_ask
    have hanswered : q.Answered process (fun _ => True) reply := by
      cases q <;> simp [Identity.Request.Answered, Identity.Own]
    exact List.mem_cons_of_mem _ (ih reply hanswered hys (.inr (by simpa using hheld)))
  | enter refused granted ihrefused ihgranted =>
    obtain ⟨reply, ys, rfl, hys⟩ := htakes.of_ask
    have hmem : ⟨.acquire owner, .ok true⟩ ∈ ys := by simpa using hheld
    cases reply with
    | false => exact List.mem_cons_of_mem _ (ihrefused hys (.inr hmem))
    | true => exact List.mem_cons_of_mem _ (ihgranted hys (.inr hmem))
  | @acquire asker next owned granted refused ihgranted ihrefused =>
    obtain ⟨reply, ys, rfl, hys⟩ := htakes.of_ask
    have hmem : (⟨.acquire owner, .ok true⟩ : Exchange Request.Reply) = ⟨.acquire asker, reply⟩ ∨
        ⟨.acquire owner, .ok true⟩ ∈ ys := by simpa using hheld
    by_cases hreply : reply = .ok true
    · subst hreply
      refine List.mem_cons_of_mem _ (ihgranted hys ?_)
      rcases hmem with heq | hmem
      · cases heq
        exact .inl ⟨false, rfl⟩
      · exact .inr hmem
    · refine List.mem_cons_of_mem _ (ihrefused reply hreply hys (.inr ?_))
      rcases hmem with heq | hmem
      · cases heq
        exact absurd rfl hreply
      · exact hmem
  | call rest ih =>
    obtain ⟨reply, ys, rfl, hys⟩ := htakes.of_ask
    exact List.mem_cons_of_mem _ (ih reply hys (.inr (by simpa using hheld)))
  | leave rest ih =>
    obtain ⟨reply, ys, rfl, hys⟩ := htakes.of_ask
    exact List.mem_cons_of_mem _ (ih hys (.inr (by simpa using hheld)))
  | @guarded holder executing r next made lost ihmade ihlost =>
    obtain ⟨reply, ys, rfl, hys⟩ := htakes.of_ask
    have hstill : owner = holder ∨ ⟨.acquire owner, .ok true⟩ ∈ ys := by
      simpa [eq_comm] using hheld
    refine List.mem_cons_of_mem _ ?_
    cases reply with
    | none => exact ihlost hys (hstill.imp (fun heq => ⟨false, by rw [heq]⟩) id)
    | some answer => exact ihmade answer hys (hstill.imp (fun heq => ⟨_, by rw [heq]⟩) id)
  | @release holder next rest ih =>
    obtain ⟨⟨⟩, ys, rfl, hys⟩ := htakes.of_ask
    have hstill : owner = holder ∨ ⟨.acquire owner, .ok true⟩ ∈ ys := by
      simpa [eq_comm] using hheld
    rcases hstill with rfl | hmem
    · exact List.mem_cons_self
    · exact List.mem_cons_of_mem _ (ih hys (.inr hmem))

/-- The rest of a firing that asks for no lock any more: it calls and leaves. -/
inductive Parting : Steps Ended → Prop where
  | done {ended : Ended} : Parting (.done ended)
  | call {r : AgentRequest} {next : r.Reply → Steps Ended} (rest : ∀ reply, Parting (next reply)) :
      Parting (.ask (.call r) next)
  | leave {next : Unit → Steps Ended} (rest : Parting (next ())) : Parting (.ask .leave next)

/-- After a release a firing only calls and leaves. -/
inductive ReleasesLast : Steps Ended → Prop where
  | done {ended : Ended} : ReleasesLast (.done ended)
  | ask {r : Request} {next : r.Reply → Steps Ended} (rest : ∀ reply, ReleasesLast (next reply))
      (last : ∀ owner, r = .release owner → ∀ reply, Parting (next reply)) :
      ReleasesLast (.ask r next)

/-- What is left of a departure is a departure. -/
theorem Parting.takes (h : Parting p) (htakes : p.Takes xs p') : Parting p' := by
  induction htakes with
  | refl => exact h
  | ask _ ih =>
    cases h with
    | call rest => exact ih (rest _)
    | leave rest => exact ih rest

/-- Whatever has been asked so far, a release is the last request for the lock. -/
theorem ReleasesLast.takes (h : ReleasesLast p) (htakes : p.Takes xs p') : ReleasesLast p' := by
  induction htakes with
  | refl => exact h
  | ask _ ih =>
    cases h with
    | ask rest => exact ih (rest _)

/-- A departure asks for the lock no more. -/
theorem Parting.releasesLast (h : Parting p) : ReleasesLast p := by
  induction h with
  | done => exact .done
  | call _ ih => exact .ask ih (by simp)
  | leave _ ih => exact .ask (fun _ => ih) (by simp)

/-- To leave is to part. -/
theorem parting_leaving (ended : Ended) : Parting (leaving ended) := .leave .done

/-- An attempt under a lock releases nothing. -/
theorem releasesLast_whileHeld {lost : ErrorChain} {after : Except ErrorChain Unit → Steps Ended}
    (hafter : ∀ result, ReleasesLast (after result))
    (p : Program AgentRequest AgentRequest.Reply (Except ErrorChain Unit)) :
    ReleasesLast ((whileHeld lost p).bind after) := by
  induction p with
  | done result => exact hafter result
  | ask r next ih =>
    rw [whileHeld, Program.bind]
    refine .ask (fun reply => ?_) (by simp)
    cases reply with
    | none => exact hafter _
    | some answer => exact ih answer

/-- With the lock held, the last request for it is the release. -/
theorem releasesLast_holding (agent owner : String) : ReleasesLast (holding agent owner) := by
  refine releasesLast_whileHeld (fun result => ?_) _
  have hreleasing {next : Unit → Steps Ended} (hnext : Parting (next ())) :
      ReleasesLast (.ask (.release owner) next) :=
    .ask (fun _ => hnext.releasesLast) fun _ _ _ => hnext
  cases result with
  | ok => exact hreleasing (parting_leaving _)
  | error error => exact hreleasing (.call fun answer => parting_leaving _)

/-- From its entry on, the last request of a firing for the lock is the release. -/
theorem releasesLast_entering (agent : String) (identity : Identity) :
    ReleasesLast (entering agent identity) := by
  unfold entering
  split
  · exact .done
  · refine .ask (fun entered => ?_) (by simp)
    cases entered with
    | false => exact .done
    | true =>
      refine .ask (fun granted => ?_) (by simp)
      rcases granted with error | _ | _
      · exact (parting_leaving _).releasesLast
      · exact (parting_leaving _).releasesLast
      · exact releasesLast_holding agent _

/-- A firing, with a lock or without, releases last. -/
theorem releasesLast_firing {firing : Steps Ended}
    (hfiring : firing = unguarded agent ∨ firing = guarded process agent) :
    ReleasesLast firing := by
  rcases hfiring with rfl | rfl
  · have hcalls (p : Program AgentRequest AgentRequest.Reply Ended) :
        Parting (p.mapRequests .call fun _ reply => reply) := by
      induction p with
      | done => exact .done
      | ask r next ih => exact .call ih
    exact (hcalls _).releasesLast
  · have hresolving (p : Program Identity.Request Identity.Request.Reply Identity) :
        ReleasesLast ((p.mapRequests .resolve fun _ reply => reply).bind (entering agent)) := by
      induction p with
      | done identity => exact releasesLast_entering agent identity
      | ask q next ih => exact .ask ih (by simp)
    exact hresolving _

/-- A firing without a lock asks for none. -/
theorem not_granted_of_unguarded (htakes : (unguarded agent).Takes xs (.done ended))
    (owner : String) : ⟨.acquire owner, .ok true⟩ ∉ xs := by
  obtain ⟨ys, rfl, -⟩ := exists_of_takes_unguarded htakes
  simp [uninterrupted]

/-- A firing that is skipped was granted no lock. -/
theorem not_granted_of_skipped {firing : Steps Ended} {reason : SkipReason}
    (hfiring : firing = unguarded agent ∨ firing = guarded process agent)
    (htakes : firing.Takes xs (.done (.outcome (.skipped reason)))) (owner : String) :
    ⟨.acquire owner, .ok true⟩ ∉ xs := by
  rcases hfiring with rfl | rfl
  · exact not_granted_of_unguarded htakes owner
  · rcases skippedOrHeld_of_takes_guarded htakes with ⟨-, -, -, hnever⟩ | ⟨_, _, _, -, -, hheld⟩
    · exact hnever owner
    · -- a firing that gets the lock has an attempt to report
      obtain ⟨result, made, rest, -, -, hconcluded⟩ := exists_of_takes_holding hheld
      generalize hended : Ended.outcome (.skipped reason) = ended at hconcluded
      cases hconcluded with
      | whole => cases hended
      | part error answer => cases answer <;> cases hended

/-- A lock that is granted to a firing has been released when it ends. -/
theorem released_of_granted {firing : Steps Ended}
    (hfiring : firing = unguarded agent ∨ firing = guarded process agent)
    (htakes : firing.Takes xs (.done ended)) {owner : String}
    (hgranted : ⟨.acquire owner, .ok true⟩ ∈ xs) : ⟨.release owner, ()⟩ ∈ xs := by
  rcases hfiring with rfl | rfl
  · exact absurd hgranted (not_granted_of_unguarded htakes owner)
  · exact (follows_guarded process agent _).gives_back htakes (.inr hgranted)

end Firing

end EntityCache
