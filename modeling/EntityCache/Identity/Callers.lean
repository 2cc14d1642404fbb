import EntityCache.Identity.Resolver

/-!
# Callers of one resolver

`Identity.Callers` is a resolver with callers at any point of their programs, and a clock.  `step`
lets one caller make its next request; `gather` starts callers at once and awaits them all, in the
order in which they queue for the lock, moving the clock on while a probe is out.
-/

namespace EntityCache

namespace Identity

/-- The rest of a caller's program. -/
abbrev Caller := Program Request Request.Reply Identity

/-- A resolver, its callers, and the time. -/
structure Callers where
  resolver : Resolver
  now : Nat := 0
  callers : List Caller := []

namespace Callers

/-- The caller of a number makes its next request, unless that has to wait. -/
def step (caller : Nat) (s : Callers) : Callers :=
  match s.callers[caller]? with
  | some (.ask q next) =>
    match s.resolver.serve s.now caller q with
    | some (reply, resolver) => { s with resolver, callers := s.callers.set caller (next reply) }
    | none => s
  | _ => s

/-- The clock moves on. -/
def pass (ms : Nat) (s : Callers) : Callers := { s with now := s.now + ms }

/-- Callers numbered from `caller` on go as far as they can, one after the other. -/
def proceedAll (now : Nat) : Nat → List Caller → Resolver → List Caller × Resolver
  | _, [], r => ([], r)
  | caller, p :: rest, r =>
    let (p, r) := p.proceed (Resolver.serve now caller) r
    let (rest, r) := proceedAll now (caller + 1) rest r
    (p :: rest, r)

/-- Everybody goes as far as they can without the clock moving on. -/
def settle (s : Callers) : Callers :=
  let (callers, resolver) := proceedAll s.now 0 s.callers s.resolver
  { s with callers, resolver }

/-- Waits for one probe after the other until nobody waits any more; at most `fuel` probes. -/
def await : Nat → Callers → Callers
  | 0, s => s
  | fuel + 1, s =>
    let s := s.settle
    if s.callers.all (·.value?.isSome) then s
    else
      match s.resolver.due? with
      | some due => await fuel { s with now := max s.now due }
      | none => s

/-- Starts `n` callers at once and awaits them; their identities, in the order of the start. -/
def gather (process : String) (n : Nat) (s : Callers) : List Identity × Callers :=
  let s := await (n + 1) { s with callers := List.replicate n (resolve process) }
  (s.callers.filterMap (·.value?), { s with callers := [] })

end Callers

end Identity

end EntityCache
